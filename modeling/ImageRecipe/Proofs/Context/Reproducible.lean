import ImageRecipe.Proofs.Context.Copies

/-!
# Reproducible archives

An archive is made of what its sources show under the names they get, and of nothing else. Two Dockerfiles
that differ only in where their sources are, on hosts that differ in whatever no archive shows, are packaged
into the same bytes: where a source stands, in which order a directory lists its entries, and which
permission bits a file has beside the one that lets its owner run it, is not to be seen.

* `Counterparts` — sources of two hosts that are imported under one name and show the same;
* `SameButSource`, `SamePattern`, `Corresponding` — Dockerfiles that differ in their sources only, with
  counterparts for sources, of which two are one path on one side exactly if they are on the other;
* `Twin` — copies that the two sides make of counterparts;
* `shown?` — what is shown under names, computed.

Principal results:

* `map_mapSource_congr` — instructions that differ only in their sources are the same once renamed;
* `twins_copies` — copies are made of the same counterparts, in the same order;
* `packageBytes_reproducible` — the archives are equal, byte by byte.
-/

set_option autoImplicit false

namespace ImageRecipe

/-! ## Dockerfiles that correspond -/

/-- Sources of two hosts that are imported under one name, from places that show the same: the same
directories, and the same files with the same content, equally runnable, under the same names. -/
def Counterparts (hostA : Host) (optionsA : Options) (hostB : Host) (optionsB : Options)
    (sourceA sourceB : String) : Prop :=
  ∃ placeA placeB name, Importable hostA optionsA sourceA placeA name ∧
    Importable hostB optionsB sourceB placeB name ∧
    ∀ item, Shown hostA placeA.names item ↔ Shown hostB placeB.names item

/-- Instructions that differ only in their sources, if they copy. -/
inductive SameButSource (R : String → String → Prop) : Instruction → Instruction → Prop
  | copy {role : PairKind} {source other destination : String} (hrole : role = .add ∨ role = .copy)
      (h : R source other) : SameButSource R (.step (.pair role source destination))
        (.step (.pair role other destination))
  | same {instruction : Instruction} (h : instruction.copy? = none) :
      SameButSource R instruction instruction

/-- Two sources of one side are the same path exactly if those of the other side are. -/
def SamePattern (pairs : List (String × String)) : Prop :=
  ∀ pair ∈ pairs, ∀ other ∈ pairs,
    (Path.ofString pair.1).same (.ofString other.1) = (Path.ofString pair.2).same (.ofString other.2)

instance (pairs : List (String × String)) : Decidable (SamePattern pairs) :=
  inferInstanceAs (Decidable (∀ pair ∈ pairs, ∀ other ∈ pairs, _ = _))

/-- Dockerfiles of two hosts that differ only in their sources, which are counterparts of one pattern. -/
structure Corresponding (hostA : Host) (optionsA : Options) (a : Dockerfile) (hostB : Host)
    (optionsB : Options) (b : Dockerfile) : Prop where
  commands : List.Forall₂ (SameButSource (Counterparts hostA optionsA hostB optionsB)) a.commands
    b.commands
  pattern : SamePattern (a.sources.zip b.sources)

/-! ## Instructions -/

section Instructions

variable {R : String → String → Prop} {as bs : List Instruction}

theorem mapSource_of_copy?_eq_none {instruction : Instruction} (h : instruction.copy? = none)
    (rename : String → String) : instruction.mapSource rename = instruction := by
  refine Instruction.mapSource_eq_self fun pair hpair => ?_
  rw [h] at hpair
  cases hpair

/-- The sources correspond as their instructions do. -/
theorem forall₂_sources (h : List.Forall₂ (SameButSource R) as bs) :
    List.Forall₂ R ((as.filterMap Instruction.copy?).map Prod.fst)
      ((bs.filterMap Instruction.copy?).map Prod.fst) := by
  induction h with
  | nil => exact .nil
  | cons hfirst _ ih =>
    cases hfirst with
    | copy hrole hsource => rcases hrole with rfl | rfl <;> exact .cons hsource ih
    | same hnone =>
      rw [List.filterMap_cons_none hnone, List.filterMap_cons_none hnone]
      exact ih

/-- **Instructions that differ only in their sources are the same once these are renamed alike.** -/
theorem map_mapSource_congr {f g : String → String} (h : List.Forall₂ (SameButSource R) as bs)
    (hfg : ∀ pair ∈ ((as.filterMap Instruction.copy?).map Prod.fst).zip
      ((bs.filterMap Instruction.copy?).map Prod.fst), f pair.1 = g pair.2) :
    as.map (·.mapSource f) = bs.map (·.mapSource g) := by
  induction h with
  | nil => rfl
  | @cons first second _ _ hfirst _ ih =>
    rw [List.map_cons, List.map_cons]
    cases hfirst with
    | @copy role source other destination hrole _ =>
      have hnames : f source = g other := by
        rcases hrole with rfl | rfl <;> exact hfg (source, other) List.mem_cons_self
      have hrest := ih fun pair hpair => hfg pair (by
        rcases hrole with rfl | rfl <;> exact List.mem_cons_of_mem _ hpair)
      rw [hrest]
      rcases hrole with rfl | rfl <;> simp [Instruction.mapSource, Step.mapSource, hnames]
    | same hnone =>
      rw [List.filterMap_cons_none hnone, List.filterMap_cons_none hnone] at hfg
      rw [mapSource_of_copy?_eq_none hnone, mapSource_of_copy?_eq_none hnone, ih hfg]

end Instructions

/-! ## Sources by their kind -/

section Sources

variable {host : Host} {options : Options} {sources : List String}

/-- The copy that a source asks for, if it is a directory, or if it is none. -/
def copyOf? (host : Host) (options : Options) (directory : Bool) (source : String) : Option Copy :=
  (foundAs? host options directory source).bind (Copy.ofFound? host)

/-- The sources are imported file by file, and then directory by directory. -/
theorem importedSources_eq_filterMap (host : Host) (options : Options) (sources : List String) :
    importedSources host options sources = sources.filterMap (copyOf? host options false) ++
      sources.filterMap (copyOf? host options true) := by
  rw [importedSources, foundSources_eq_filterMap, List.filterMap_append, List.filterMap_filterMap,
    List.filterMap_filterMap]
  rfl

/-- A source that is to be imported asks for a copy of what stands at its place. -/
theorem copyOf?_of_importable (hwf : host.WellFormed)
    (hok : firstFailure? (importEvents host options sources) = none) {source name : String}
    {place : Place} (hsource : source ∈ sources) (h : Importable host options source place name) :
    Found host (.ofString source) place.node place ∧ ∀ directory,
      copyOf? host options directory source = if place.node.isDirectory = directory then
        some ⟨name, .ofString source, place.node⟩ else none := by
  obtain ⟨node, hfound, hnode⟩ := h.find
  obtain ⟨-, -, hbase⟩ := archiveName?_eq_some_iff.1
    ((archiveName?_iff_importable hwf hok hsource).2 ⟨place, h⟩)
  cases hfound.node_eq
  refine ⟨hfound, fun directory => ?_⟩
  have hcopy : Copy.ofFound? host (.ofString source, place.node) =
      some ⟨name, .ofString source, place.node⟩ := ofFound?_eq_some_iff.2 ⟨rfl, hbase⟩
  rw [copyOf?, foundAs?, hnode, Option.filter_some]
  by_cases hkind : place.node.isDirectory = directory
  · simp [hkind, hcopy]
  · simp [hkind]

/-- A source that is to be imported is a directory exactly if it shows itself as one. -/
theorem isDirectory_iff_shown {path : Path} {node : Node} {place : Place}
    (h : Found host path node place) :
    place.node.isDirectory = true ↔ Shown host place.names ⟨[], .directory⟩ := by
  have hat : host.tree.at? (place.names ++ []) = some place.node := by
    rw [List.append_nil]
    exact (Host.reached_of_resolve h.leads).at?_names
  constructor
  · intro hdirectory
    cases hnode : place.node with
    | directory entries => exact .directory (hnode ▸ hat)
    | file _ _ | link _ | special =>
      rw [hnode] at hdirectory
      cases hdirectory
  · intro hshown
    cases hshown with
    | directory hshown =>
      rw [Option.some.inj (hat.symm.trans hshown)]
      rfl

end Sources

/-! ## Copies of counterparts -/

section Twins

variable {hostA hostB : Host} {optionsA optionsB : Options} {pairs : List (String × String)}

/-- Paths that are spelled by a pair of the list. -/
def Paired (pairs : List (String × String)) (p q : Path) : Prop :=
  ∃ pair ∈ pairs, Path.ofString pair.1 = p ∧ Path.ofString pair.2 = q

/-- Copies that two hosts make of counterparts. -/
structure Twin (hostA hostB : Host) (pairs : List (String × String)) (x y : Copy) : Prop where
  name : x.name = y.name
  paired : Paired pairs x.path y.path
  shown : ∃ p q, Found hostA x.path x.node p ∧ Found hostB y.path y.node q ∧
    ∀ item, Shown hostA p.names item ↔ Shown hostB q.names item

/-- Twins have the same entries. -/
theorem Twin.entries_eq (hwfA : hostA.WellFormed) (hwfB : hostB.WellFormed) {x y : Copy}
    (h : Twin hostA hostB pairs x y) (hokA : firstFailure? (x.additions hostA) = none)
    (hokB : firstFailure? (y.additions hostB) = none) : x.entries hostA = y.entries hostB := by
  obtain ⟨p, q, hfoundA, hfoundB, hshown⟩ := h.shown
  have hmirrorA := mirrors_additions hwfA hfoundA hokA
  have hmirrorB := mirrors_additions hwfB hfoundB hokB
  rw [h.name] at hmirrorA
  rw [Copy.entries, Copy.entries, Copy.additions, Copy.additions, h.name]
  exact hmirrorA.eq_of_shown hmirrorB hshown

/-- Sources that have been added on both sides under the same names. -/
def AddedAlike (pairs : List (String × String)) : Added → Added → Prop :=
  List.Forall₂ fun a b => a.1 = b.1 ∧ Paired pairs a.2 b.2

/-- What was added last under a name is of the same path on both sides, or on neither. -/
theorem repeats_eq (hpattern : SamePattern pairs) {addedA addedB : Added}
    (hadded : AddedAlike pairs addedA addedB) {x y : Copy} (h : Twin hostA hostB pairs x y) :
    x.repeats addedA = y.repeats addedB := by
  obtain ⟨other, hother, hpathA, hpathB⟩ := h.paired
  rw [Copy.repeats, Copy.repeats, h.name, ← hpathA, ← hpathB]
  induction hadded with
  | nil => rfl
  | @cons a b _ _ hfirst _ ih =>
    obtain ⟨hname, pair, hpair, hfirstA, hfirstB⟩ := hfirst
    obtain ⟨nameA, pathA⟩ := a
    obtain ⟨nameB, pathB⟩ := b
    cases hname
    cases hfirstA
    cases hfirstB
    rw [List.lookup_cons, List.lookup_cons]
    split
    · exact hpattern pair hpair other hother
    · exact ih

/-- **Copies are made of the same twins.** -/
theorem twins_copiesAfter (hpattern : SamePattern pairs) {addedA addedB : Added}
    (hadded : AddedAlike pairs addedA addedB) {as bs : List Copy}
    (h : List.Forall₂ (Twin hostA hostB pairs) as bs) :
    List.Forall₂ (Twin hostA hostB pairs) (copiesAfter addedA as) (copiesAfter addedB bs) := by
  induction h generalizing addedA addedB with
  | nil => exact .nil
  | @cons x y _ _ hfirst _ ih =>
    rw [copiesAfter, copiesAfter, repeats_eq hpattern hadded hfirst]
    split
    · exact ih hadded
    · exact .cons hfirst (ih (.cons ⟨hfirst.name, hfirst.paired⟩ hadded))

variable {a b : Dockerfile}

/-- The sources that two Dockerfiles import are twins. -/
theorem twins_importedSources (hwfA : hostA.WellFormed) (hwfB : hostB.WellFormed)
    (hokA : firstFailure? (importsOf hostA optionsA a) = none)
    (hokB : firstFailure? (importsOf hostB optionsB b) = none)
    (h : List.Forall₂ (Counterparts hostA optionsA hostB optionsB) a.sources b.sources) :
    List.Forall₂ (Twin hostA hostB (a.sources.zip b.sources))
      (importedSources hostA optionsA a.sources) (importedSources hostB optionsB b.sources) := by
  obtain ⟨hlength, hcounterparts⟩ := List.forall₂_iff_zip.1 h
  have hzip : List.Forall₂ (fun s t => (s, t) ∈ a.sources.zip b.sources) a.sources b.sources :=
    List.forall₂_iff_zip.2 ⟨hlength, fun hpair => hpair⟩
  have hkind : ∀ directory, List.Forall₂ (Twin hostA hostB (a.sources.zip b.sources))
      (a.sources.filterMap (copyOf? hostA optionsA directory))
      (b.sources.filterMap (copyOf? hostB optionsB directory)) := by
    intro directory
    refine List.rel_filterMap (fun {s t} hpair => ?_) hzip
    obtain ⟨hs, ht⟩ := List.of_mem_zip hpair
    obtain ⟨p, q, name, himportA, himportB, hshown⟩ := hcounterparts hpair
    obtain ⟨hfoundA, hcopyA⟩ := copyOf?_of_importable hwfA hokA hs himportA
    obtain ⟨hfoundB, hcopyB⟩ := copyOf?_of_importable hwfB hokB ht himportB
    have hsame : p.node.isDirectory = q.node.isDirectory := by
      rw [Bool.eq_iff_iff, isDirectory_iff_shown hfoundA, isDirectory_iff_shown hfoundB, hshown]
    rw [hcopyA, hcopyB, hsame]
    split
    · exact .some ⟨rfl, ⟨(s, t), hpair, rfl, rfl⟩, p, q, hfoundA, hfoundB, hshown⟩
    · exact .none
  rw [importedSources_eq_filterMap, importedSources_eq_filterMap]
  exact List.rel_append (hkind false) (hkind true)

/-- **Copies are made of the same counterparts, in the same order.** -/
theorem twins_copies (hwfA : hostA.WellFormed) (hwfB : hostB.WellFormed)
    (hokA : firstFailure? (importsOf hostA optionsA a) = none)
    (hokB : firstFailure? (importsOf hostB optionsB b) = none)
    (h : Corresponding hostA optionsA a hostB optionsB b) :
    List.Forall₂ (Twin hostA hostB (a.sources.zip b.sources)) (copies hostA optionsA a)
      (copies hostB optionsB b) :=
  twins_copiesAfter h.pattern .nil
    (twins_importedSources hwfA hwfB hokA hokB (forall₂_sources h.commands))

/-- The entries of all copies are the same. -/
theorem entries_eq_of_corresponding (hwfA : hostA.WellFormed) (hwfB : hostB.WellFormed)
    (hokA : firstFailure? (importsOf hostA optionsA a) = none)
    (hokB : firstFailure? (importsOf hostB optionsB b) = none)
    (h : Corresponding hostA optionsA a hostB optionsB b) :
    (copies hostA optionsA a).flatMap (Copy.entries hostA) =
      (copies hostB optionsB b).flatMap (Copy.entries hostB) := by
  have htwins := twins_copies hwfA hwfB hokA hokB h
  have hmade := (makes_importEvents hostA optionsA a.sources).additions_ok hokA
  have hmade' := (makes_importEvents hostB optionsB b.sources).additions_ok hokB
  have hequal : List.Forall₂ (fun x y => x.entries hostA = y.entries hostB) (copies hostA optionsA a)
      (copies hostB optionsB b) := by
    obtain ⟨hlength, htwin⟩ := List.forall₂_iff_zip.1 htwins
    refine List.forall₂_iff_zip.2 ⟨hlength, fun {x y} hpair => ?_⟩
    obtain ⟨hx, hy⟩ := List.of_mem_zip hpair
    exact (htwin hpair).entries_eq hwfA hwfB (hmade x hx) (hmade' y hy)
  have hmapped : (copies hostA optionsA a).map (Copy.entries hostA) =
      (copies hostB optionsB b).map (Copy.entries hostB) := by
    rwa [← List.forall₂_eq_eq_eq, List.forall₂_map_left_iff, List.forall₂_map_right_iff]
  rw [List.flatMap_def, List.flatMap_def, hmapped]

/-- The packaged scripts are the same. -/
theorem render_packaged_eq (hwfA : hostA.WellFormed) (hwfB : hostB.WellFormed)
    (hokA : firstFailure? (importsOf hostA optionsA a) = none)
    (hokB : firstFailure? (importsOf hostB optionsB b) = none)
    (h : Corresponding hostA optionsA a hostB optionsB b) :
    (packaged hostA optionsA a).render = (packaged hostB optionsB b).render := by
  obtain ⟨-, hcounterparts⟩ := List.forall₂_iff_zip.1 (forall₂_sources h.commands)
  have hcommands : (packaged hostA optionsA a).commands = (packaged hostB optionsB b).commands := by
    rw [packaged, packaged, Dockerfile.commands_mapSources, Dockerfile.commands_mapSources]
    refine map_mapSource_congr h.commands fun pair hpair => ?_
    obtain ⟨hs, ht⟩ := List.of_mem_zip hpair
    obtain ⟨p, q, name, himportA, himportB, -⟩ := hcounterparts hpair
    rw [renamed, renamed, (archiveName?_iff_importable hwfA hokA hs).2 ⟨p, himportA⟩,
      (archiveName?_iff_importable hwfB hokB ht).2 ⟨q, himportB⟩, Option.getD_some,
      Option.getD_some]
  rw [Dockerfile.render, Dockerfile.render, hcommands]

end Twins

/-- **Archives are reproducible.** Dockerfiles of two hosts that differ only in their sources, with
counterparts for sources, are packaged into the same bytes, if they are packaged at all. -/
theorem packageBytes_reproducible {hostA hostB : Host} (hwfA : hostA.WellFormed)
    (hwfB : hostB.WellFormed) {optionsA optionsB : Options} {a b : Dockerfile}
    (h : Corresponding hostA optionsA a hostB optionsB b) {bytesA bytesB : List UInt8}
    (hokA : (packageBytes hostA optionsA a).result = .ok bytesA)
    (hokB : (packageBytes hostB optionsB b).result = .ok bytesB) : bytesA = bytesB := by
  obtain ⟨hsucceedsA, hbytesA⟩ := packageBytes_eq_ok_iff.1 hokA
  obtain ⟨hsucceedsB, hbytesB⟩ := packageBytes_eq_ok_iff.1 hokB
  have hentries : packagedEntries hostA optionsA a = packagedEntries hostB optionsB b := by
    rw [packagedEntries_eq, packagedEntries_eq,
      entries_eq_of_corresponding hwfA hwfB hsucceedsA hsucceedsB h,
      render_packaged_eq hwfA hwfB hsucceedsA hsucceedsB h]
  rw [hbytesA, hbytesB]
  exact congrArg Tar.write hentries

/-! ## What is shown, computed -/

/-- What a directory shows under names. -/
def shown? (host : Host) (place names : List Name) : Option Tar.Body :=
  match host.tree.at? (place ++ names) with
  | some (.directory _) => some .directory
  | some (.file content mode) => some (.file content (Node.ownerMayRun mode))
  | some (.link _) =>
    match host.walkFromRoot .plain (place ++ names) with
    | .ok ⟨.file content mode, _⟩ => some (.file content (Node.ownerMayRun mode))
    | _ => none
  | _ => none

theorem shown_iff {host : Host} {place names : List Name} {body : Tar.Body} :
    Shown host place ⟨names, body⟩ ↔ shown? host place names = some body := by
  unfold shown?
  constructor
  · intro h
    cases h with
    | directory h => simp [h]
    | file h => simp [h]
    | link h hleads => simp [h, hleads]
  · intro h
    split at h
    · rename_i hat
      cases h
      exact .directory hat
    · rename_i hat
      cases h
      exact .file hat
    · rename_i hat
      split at h
      · rename_i hleads
        cases h
        exact .link hat hleads
      · cases h
    · cases h

/-- **Places show the same if they do at all their locations.** -/
theorem shown_iff_of_locations {hostA hostB : Host} {placeA placeB : List Name} {nodeA nodeB : Node}
    (hatA : hostA.tree.at? placeA = some nodeA) (hatB : hostB.tree.at? placeB = some nodeB)
    (h : ∀ names ∈ [] :: nodeA.locations ++ [] :: nodeB.locations,
      shown? hostA placeA names = shown? hostB placeB names) (item : Item) :
    Shown hostA placeA item ↔ Shown hostB placeB item := by
  obtain ⟨names, body⟩ := item
  have hlocated : ∀ {host : Host} {place : List Name} {node : Node},
      host.tree.at? place = some node → Shown host place ⟨names, body⟩ →
      names ∈ [] :: node.locations := by
    intro host place node hat hshown
    obtain ⟨below, hbelow⟩ := hshown.at?
    rw [Node.at?_append, hat, Option.bind_some] at hbelow
    exact Node.mem_locations_of_at? hbelow
  rw [shown_iff, shown_iff]
  constructor
  · intro hshown
    have hmem := hlocated hatA (shown_iff.2 hshown)
    rwa [← h names (List.mem_append_left _ hmem)]
  · intro hshown
    have hmem := hlocated hatB (shown_iff.2 hshown)
    rwa [h names (List.mem_append_right _ hmem)]

/-- A host with a directory that holds a file and a directory. -/
def Host.plain : Host :=
  { tree := .directory [([0x6F], .directory [([0x61], .file [0x31] 0o644), ([0x62], .directory [])])]
    workdir := [] }

/-- A host that holds the same elsewhere, listed the other way round, with a link to the file, which only
its owner may read. -/
def Host.elsewhere : Host :=
  { tree := .directory [([0x79], .directory [([0x6F], .directory [([0x62], .directory []),
      ([0x61], .link ⟨[0x2E, 0x2E, 0x2F, 0x7A]⟩)]), ([0x7A], .file [0x31] 0o600)])]
    workdir := [[0x79]] }

/-- Copies of a directory and of a file. -/
def Dockerfile.twoCopies (directory file : String) : Dockerfile :=
  ⟨[⟨Kind.copy.priority, [.step (.pair .copy directory "/p"), .step (.pair .copy file "/q")]⟩]⟩

theorem packageBytes_reproducible_elsewhere : Host.plain.WellFormed ∧ Host.elsewhere.WellFormed ∧
    Corresponding Host.plain {} (.twoCopies "o" "o/a") Host.elsewhere {} (.twoCopies "/y/o" "o/a") ∧
    ∃ bytesA bytesB,
      (packageBytes Host.plain {} (.twoCopies "o" "o/a")).result = .ok bytesA ∧
      (packageBytes Host.elsewhere {} (.twoCopies "/y/o" "o/a")).result = .ok bytesB ∧
      bytesA = bytesB := by
  have hdirectory : Counterparts Host.plain {} Host.elsewhere {} "o" "/y/o" :=
    ⟨_, _, "o", ⟨by decide, rfl, .inr ⟨_, rfl⟩, by decide⟩,
      ⟨by decide, rfl, .inr ⟨_, rfl⟩, by decide⟩, shown_iff_of_locations rfl rfl (by decide)⟩
  have hfile : Counterparts Host.plain {} Host.elsewhere {} "o/a" "o/a" :=
    ⟨_, _, "a", ⟨by decide, rfl, .inl ⟨_, _, rfl⟩, by decide⟩,
      ⟨by decide, rfl, .inl ⟨_, _, rfl⟩, by decide⟩, shown_iff_of_locations rfl rfl (by decide)⟩
  have hcorresponding : Corresponding Host.plain {} (.twoCopies "o" "o/a") Host.elsewhere {}
      (.twoCopies "/y/o" "o/a") :=
    ⟨.cons (.copy (.inr rfl) hdirectory) (.cons (.copy (.inr rfl) hfile) .nil), by decide⟩
  exact ⟨by decide, by decide, hcorresponding, _, _, rfl, rfl,
    packageBytes_reproducible (by decide) (by decide) hcorresponding rfl rfl⟩

end ImageRecipe
