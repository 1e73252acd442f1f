import ImageRecipe.Context.Package
import ImageRecipe.Proofs.Context.Mirror

/-!
# Packaging is complete

Which sources of a Dockerfile end up in the archive is said here without the import: by where a path leads
and what stands there.

* `Importable` — a source that is to be imported, the place it leads to, and its name in the archive;
* `Archived` — an archive that holds what stands at a place;
* `Carried` — what becomes of an instruction: imported sources are renamed, all else stays.

The sources added so far keep being `Covered` while the import goes on, which is why a source may be passed
over that was added before under its name.

Principal result: `packageBytes_complete` — a Dockerfile that is packaged has every instruction carried
over, and its script comes last.
-/

set_option autoImplicit false

namespace ImageRecipe

/-! ## Sources and what becomes of them -/

/-- A source that is to be imported: it is not excluded and leads to a file or a directory that has a
name, that of the path or, if the path ends in none, of the place. -/
structure Importable (host : Host) (options : Options) (source : String) (place : Place)
    (name : String) : Prop where
  kept : ∀ excluded ∈ options.excluded, excluded.components ≠ (Path.ofString source).components
  leads : host.resolve (.ofString source) = .ok place
  held : (∃ content mode, place.node = .file content mode) ∨
    ∃ entries, place.node = .directory entries
  named : ((Path.ofString source).fileName?.or place.names.getLast?).map Utf8.lossy = some name

/-- The entries hold what stands at a place: a file as one entry, a directory as its mirror in one
stretch that begins with the directory. -/
inductive Archived (host : Host) (place : Place) (name : String) (entries : List Tar.Entry) : Prop
  | file {content : List UInt8} {mode : Nat} (hnode : place.node = .file content mode)
      (hentry : ⟨name, .file content (Node.ownerMayRun mode)⟩ ∈ entries)
  | directory {held : List (Name × Node)} {below : List Tar.Entry}
      (hnode : place.node = .directory held)
      (hmirror : Mirrors host place.names name (⟨name, .directory⟩ :: below))
      (hstretch : ⟨name, .directory⟩ :: below <:+: entries)

/-- What becomes of an instruction: the source of a copy is replaced by its name if it is imported, and
nothing else changes. -/
inductive Carried (host : Host) (options : Options) (entries : List Tar.Entry) :
    Instruction → Instruction → Prop
  | imported {role : PairKind} {source destination name : String} {place : Place}
      (hrole : role = .add ∨ role = .copy) (himport : Importable host options source place name)
      (harchived : Archived host place name entries) :
      Carried host options entries (.step (.pair role source destination))
        (.step (.pair role name destination))
  | kept {role : PairKind} {source destination : String} (hrole : role = .add ∨ role = .copy)
      (hkept : ¬∃ place name, Importable host options source place name) :
      Carried host options entries (.step (.pair role source destination))
        (.step (.pair role source destination))
  | other {instruction : Instruction} (hadd : instruction.kind ≠ .add)
      (hcopy : instruction.kind ≠ .copy) : Carried host options entries instruction instruction

section

variable {host : Host} {place : Place} {name : String}

theorem Archived.append_right {entries : List Tar.Entry} (h : Archived host place name entries)
    (more : List Tar.Entry) : Archived host place name (entries ++ more) := by
  cases h with
  | file hnode hentry => exact .file hnode (List.mem_append_left _ hentry)
  | directory hnode hmirror hstretch =>
    exact .directory hnode hmirror (hstretch.trans (List.prefix_append _ _).isInfix)

theorem Archived.append_left {entries : List Tar.Entry} (h : Archived host place name entries)
    (before : List Tar.Entry) : Archived host place name (before ++ entries) := by
  cases h with
  | file hnode hentry => exact .file hnode (List.mem_append_right _ hentry)
  | directory hnode hmirror hstretch =>
    exact .directory hnode hmirror (hstretch.trans (List.suffix_append _ _).isInfix)

/-! ## One source -/

/-- A source as the import has found it. -/
structure Found (host : Host) (path : Path) (node : Node) (place : Place) : Prop where
  leads : host.resolve path = .ok place
  node_eq : place.node = node
  held : (∃ content mode, node = .file content mode) ∨ ∃ entries, node = .directory entries

/-- The events of adding a source that has been found. -/
def additions (host : Host) (path : Path) (name : String) : Node → List Event
  | .file content mode => [addFile host path name content mode]
  | node => addTree host path name node

/-- The events only report: they add nothing and do not fail. -/
def Remarks (events : List Event) : Prop :=
  ∀ event ∈ events, event.entry? = none ∧ event.failure? = none

/-- What can become of a source that is imported after those `added`: its events, and the sources added
after it. -/
inductive SourceStep (host : Host) (added : Added) (path : Path) (node : Node) :
    List Event → Added → Prop
  | unnamable {fault : Fault} (hbase : baseName host path = .error fault) :
      SourceStep host added path node [.unnamable path fault] added
  | nameless (hbase : baseName host path = .ok none) :
      SourceStep host added path node [.nameless path] added
  | repeated {own : String} {earlier : Path} {remarks : List Event}
      (hbase : baseName host path = .ok (some own)) (hearlier : added.lookup own = some earlier)
      (hsame : earlier.components = path.components) (hremarks : Remarks remarks) :
      SourceStep host added path node remarks added
  | added {own : String} {remarks : List Event} (hbase : baseName host path = .ok (some own))
      (hremarks : Remarks remarks) :
      SourceStep host added path node (remarks ++ additions host path own node)
        ((own, path) :: added)

theorem Remarks.append_clash {events : List Event} (h : Remarks events) (earlier later : Path)
    (name : String) : Remarks (events ++ [.clash earlier later name]) := by
  intro event hevent
  rcases List.mem_append.1 hevent with hevent | hevent
  · exact h event hevent
  · rw [List.mem_singleton] at hevent
    subst hevent
    exact ⟨rfl, rfl⟩

/-- What becomes of a source that has a name. -/
theorem importSource_named {added : Added} {path : Path} {node : Node} {own : String}
    (hbase : baseName host path = .ok (some own)) :
    importSource host added path node =
      let shadow := if own = scriptName then [Event.shadowed path own] else []
      match added.lookup own with
      | some earlier =>
        if earlier.same path then (shadow, added)
        else (shadow ++ .clash earlier path own :: additions host path own node,
          (own, path) :: added)
      | none => (shadow ++ additions host path own node, (own, path) :: added) := by
  rw [importSource, hbase]
  cases node <;> rfl

theorem importSource_step (added : Added) (path : Path) (node : Node) :
    SourceStep host added path node (importSource host added path node).1
      (importSource host added path node).2 := by
  cases hbase : baseName host path with
  | error fault =>
    rw [importSource, hbase]
    exact .unnamable hbase
  | ok result =>
    cases result with
    | none =>
      rw [importSource, hbase]
      exact .nameless hbase
    | some own =>
      have hshadow : Remarks (if own = scriptName then [Event.shadowed path own] else []) := by
        intro event hevent
        split at hevent
        · rw [List.mem_singleton] at hevent
          subst hevent
          exact ⟨rfl, rfl⟩
        · cases hevent
      rw [importSource_named hbase]
      cases hearlier : added.lookup own with
      | none => exact .added hbase hshadow
      | some earlier =>
        by_cases hsame : earlier.same path = true
        · simp only [hsame, if_true]
          exact .repeated hbase hearlier (Path.same_iff.1 hsame) hshadow
        · simp only [hsame]
          rw [List.append_cons]
          exact .added hbase (hshadow.append_clash earlier path own)

theorem archived_additions (hwf : host.WellFormed) {path : Path} {node : Node}
    (h : Found host path node place) (hok : firstFailure? (additions host path name node) = none) :
    Archived host place name ((additions host path name node).filterMap Event.entry?) := by
  rcases h.held with ⟨content, mode, rfl⟩ | ⟨entries, rfl⟩
  · rw [additions, firstFailure?_eq_none_iff] at hok
    rw [additions, addFile_of_succeeds (hok _ List.mem_cons_self)]
    exact .file h.node_eq List.mem_cons_self
  · obtain ⟨below, hadded, hmirror⟩ := addTree_mirror hwf h.leads h.node_eq hok
    exact .directory h.node_eq hmirror (hadded ▸ List.infix_rfl)

/-- The name of a source that can be named. -/
theorem baseName_of_resolve {path : Path} {result : Option String}
    (hp : host.resolve path = .ok place) (h : baseName host path = .ok result) :
    result = (path.fileName?.or place.names.getLast?).map Utf8.lossy := by
  unfold baseName at h
  cases hf : path.fileName? with
  | some last =>
    rw [hf, Except.ok.injEq] at h
    exact h.symm
  | none =>
    simp only [hf] at h
    cases hreal : host.realLocation path with
    | error fault => rw [hreal] at h; cases h
    | ok names =>
      rw [hreal, Except.map, Except.ok.injEq] at h
      rw [← h, Host.names_of_realLocation hreal hp]
      rfl

/-- Every name was given to a source whose addition is in the entries. -/
def Covered (host : Host) (added : Added) (entries : List Tar.Entry) : Prop :=
  ∀ name path, added.lookup name = some path →
    ∃ place, host.resolve path = .ok place ∧ Archived host place name entries

theorem Covered.append_right {added : Added} {entries : List Tar.Entry}
    (h : Covered host added entries) (more : List Tar.Entry) : Covered host added (entries ++ more) :=
  fun name path hl => (h name path hl).imp fun _ ⟨hp, ha⟩ => ⟨hp, ha.append_right more⟩

theorem Remarks.adds_nothing {events : List Event} (h : Remarks events) :
    events.filterMap Event.entry? = [] :=
  List.filterMap_eq_nil_iff.2 fun event hevent => (h event hevent).1

/-- A source has been dealt with: either it has no name, or what stands there is in the entries. -/
structure Settled (host : Host) (path : Path) (place : Place) (entries : List Tar.Entry) : Prop where
  named : ∃ result, baseName host path = .ok result
  archived : ∀ name, baseName host path = .ok (some name) → Archived host place name entries

theorem Settled.append_right {path : Path} {entries : List Tar.Entry}
    (h : Settled host path place entries) (more : List Tar.Entry) :
    Settled host path place (entries ++ more) :=
  ⟨h.named, fun name hbase => (h.archived name hbase).append_right more⟩

/-- **One source is settled, and the names stay covered.** -/
theorem settled_of_step (hwf : host.WellFormed) {added later : Added} {path : Path} {node : Node}
    {events : List Event} (hstep : SourceStep host added path node events later)
    (hfound : Found host path node place) {before : List Tar.Entry}
    (hcovered : Covered host added before) (hok : firstFailure? events = none) :
    Covered host later (before ++ events.filterMap Event.entry?) ∧
      Settled host path place (before ++ events.filterMap Event.entry?) := by
  cases hstep with
  | unnamable hbase => cases hok
  | nameless hbase =>
    refine ⟨hcovered.append_right _, ⟨_, hbase⟩, fun name hname => ?_⟩
    rw [hbase] at hname
    cases hname
  | @repeated own earlier _ hbase hearlier hsame hremarks =>
    refine ⟨hcovered.append_right _, ⟨_, hbase⟩, fun name hname => ?_⟩
    obtain ⟨q, hq, harchived⟩ := hcovered own earlier hearlier
    have hplace : q = place := Host.resolve_eq_of_components hq hfound.leads hsame
    rw [hbase, Except.ok.injEq, Option.some.injEq] at hname
    rw [← hname, ← hplace]
    exact harchived.append_right _
  | @added own remarks hbase hremarks =>
    rw [firstFailure?_append_eq_none] at hok
    have harchived := archived_additions hwf hfound hok.2
    rw [List.filterMap_append, hremarks.adds_nothing, List.nil_append]
    refine ⟨fun name earlier hl => ?_, ⟨_, hbase⟩, fun name hname => ?_⟩
    · rw [List.lookup_cons] at hl
      split at hl
      · rename_i heq
        rw [Option.some.injEq] at hl
        rw [← hl, beq_iff_eq.1 heq]
        exact ⟨place, hfound.leads, harchived.append_left before⟩
      · exact hcovered.append_right _ name earlier hl
    · rw [hbase, Except.ok.injEq, Option.some.injEq] at hname
      rw [← hname]
      exact harchived.append_left before

/-- **Every source is settled** when all have been imported. -/
theorem settled_importSources (hwf : host.WellFormed) {sources : List (Path × Node)}
    (hfound : ∀ source ∈ sources, ∃ place, Found host source.1 source.2 place) {added : Added}
    {before : List Tar.Entry} (hcovered : Covered host added before)
    (hok : firstFailure? (importSources host added sources) = none) :
    ∀ source ∈ sources, ∀ place, Found host source.1 source.2 place →
      Settled host source.1 place
        (before ++ (importSources host added sources).filterMap Event.entry?) := by
  induction sources generalizing added before with
  | nil =>
    intro source hsource
    cases hsource
  | cons first rest ih =>
    obtain ⟨path, node⟩ := first
    rw [importSources, firstFailure?_append_eq_none] at hok
    rw [importSources, List.filterMap_append, ← List.append_assoc]
    have hstep : SourceStep host added path node _ _ := importSource_step added path node
    obtain ⟨q, hq⟩ := hfound _ List.mem_cons_self
    have hnext := (settled_of_step hwf hstep hq hcovered hok.1).1
    intro source hsource place hplace
    rcases List.mem_cons.1 hsource with rfl | hlater
    · exact (settled_of_step hwf hstep hplace hcovered hok.1).2.append_right _
    · exact ih (fun s hs => hfound s (List.mem_cons_of_mem _ hs)) hnext hok.2 source hlater place
        hplace

/-! ## The sources of a Dockerfile -/

variable {options : Options}

/-- The sources that an import adds, files first. -/
def foundSources (host : Host) (options : Options) (sources : List String) : List (Path × Node) :=
  let found := sources.map fun source =>
    (Path.ofString source, Source.find host options (.ofString source))
  found.filterMap (fun (path, source) => fileSource? path source)
    ++ found.filterMap (fun (path, source) => directorySource? path source)

/-- What stands at a source that is added. -/
def Source.node? : Source → Option Node
  | .file content mode => some (.file content mode)
  | .directory entries => some (.directory entries)
  | _ => none

/-- A source as it is added, if it is a directory, or if it is none. -/
def foundAs? (host : Host) (options : Options) (directory : Bool) (source : String) :
    Option (Path × Node) :=
  let node? := (Source.find host options (.ofString source)).node?
  (node?.filter (·.isDirectory = directory)).map (Path.ofString source, ·)

theorem fileSource?_eq (path : Path) (found : Source) :
    fileSource? path found = (found.node?.filter (·.isDirectory = false)).map (path, ·) := by
  cases found <;> rfl

theorem directorySource?_eq (path : Path) (found : Source) :
    directorySource? path found = (found.node?.filter (·.isDirectory = true)).map (path, ·) := by
  cases found <;> rfl

theorem foundSources_eq_filterMap (sources : List String) :
    foundSources host options sources = sources.filterMap (foundAs? host options false) ++
      sources.filterMap (foundAs? host options true) := by
  simp only [foundSources, List.filterMap_map, fileSource?_eq, directorySource?_eq]
  rfl

/-- **A source at which nothing is added is as good as none.** -/
theorem foundSources_filter {keep : String → Bool} {sources : List String}
    (h : ∀ source ∈ sources, keep source = false →
      (Source.find host options (.ofString source)).node? = none) :
    foundSources host options (sources.filter keep) = foundSources host options sources := by
  have hkind (directory : Bool) :
      (sources.filter keep).filterMap (foundAs? host options directory) =
        sources.filterMap (foundAs? host options directory) := by
    rw [List.filterMap_filter]
    refine List.filterMap_congr fun source hsource => ?_
    cases hkeep : keep source with
    | true => rfl
    | false =>
      rw [foundAs?, h source hsource hkeep]
      rfl
  rw [foundSources_eq_filterMap, foundSources_eq_filterMap, hkind, hkind]

theorem find_node?_iff {path : Path} {node : Node} :
    (Source.find host options path).node? = some node ↔
      options.excludes path = false ∧ ∃ place, Found host path node place := by
  unfold Source.find
  constructor
  · intro h
    split at h
    · cases h
    · rename_i hkept
      refine ⟨Bool.not_eq_true _ ▸ hkept, ?_⟩
      split at h
      · rename_i hp
        cases h
        exact ⟨_, hp, rfl, .inl ⟨_, _, rfl⟩⟩
      · rename_i hp
        cases h
        exact ⟨_, hp, rfl, .inr ⟨_, rfl⟩⟩
      · cases h
  · rintro ⟨hkept, ⟨there, way⟩, hp, rfl, ⟨content, mode, hnode⟩ | ⟨entries, hnode⟩⟩
    · cases hnode
      rw [if_neg (by simp [hkept]), hp]
      rfl
    · cases hnode
      rw [if_neg (by simp [hkept]), hp]
      rfl

theorem mem_foundSources {sources : List String} {path : Path} {node : Node} :
    (path, node) ∈ foundSources host options sources ↔
      ∃ source ∈ sources, Path.ofString source = path ∧
        (Source.find host options path).node? = some node := by
  have hkind : ∀ (p : Path) (source : Source), (fileSource? p source = some (path, node) ∨
      directorySource? p source = some (path, node)) ↔ p = path ∧ source.node? = some node := by
    intro p source
    cases source <;> simp [fileSource?, directorySource?, Source.node?]
  simp only [foundSources, List.mem_append, List.filterMap_map, List.mem_filterMap,
    Function.comp_apply, ← exists_or, ← and_or_left, hkind]
  exact exists_congr fun source => and_congr_right fun _ =>
    ⟨fun ⟨hp, h⟩ => ⟨hp, hp ▸ h⟩, fun ⟨hp, h⟩ => ⟨hp, hp ▸ h⟩⟩

theorem found_of_mem_foundSources {sources : List String} {source : Path × Node}
    (h : source ∈ foundSources host options sources) :
    ∃ place, Found host source.1 source.2 place := by
  obtain ⟨-, -, -, hnode⟩ := mem_foundSources.1 h
  exact (find_node?_iff.1 hnode).2

/-- Telling sources apart adds nothing and does not fail. -/
theorem remarks_sortingEvents (found : List (Path × Source)) :
    Remarks (found.filterMap fun (path, source) => sortingEvent? path source) := by
  intro event hevent
  obtain ⟨⟨path, source⟩, -, hsome⟩ := List.mem_filterMap.1 hevent
  cases source <;> cases hsome <;> exact ⟨rfl, rfl⟩

/-- **An import that succeeds settles all sources it finds.** -/
theorem settled_of_importEvents (hwf : host.WellFormed) {sources : List String}
    (hok : firstFailure? (importEvents host options sources) = none) {path : Path} {node : Node}
    (hmem : (path, node) ∈ foundSources host options sources) (hfound : Found host path node place) :
    Settled host path place
      ((importEvents host options sources).filterMap Event.entry?) := by
  unfold importEvents at hok ⊢
  simp only at hok ⊢
  rw [firstFailure?_append_eq_none] at hok
  rw [List.filterMap_append, (remarks_sortingEvents _).adds_nothing]
  have hall : ∀ source ∈ foundSources host options sources,
      ∃ place, Found host source.1 source.2 place := fun _ => found_of_mem_foundSources
  exact settled_importSources hwf hall (fun _ _ h => by cases h) hok.2 _ hmem _ hfound

/-! ## Renaming -/

theorem archiveName?_eq_some_iff {source name : String} :
    archiveName? host options source = some name ↔
      ∃ node, (Source.find host options (.ofString source)).node? = some node ∧
        baseName host (.ofString source) = .ok (some name) := by
  unfold archiveName?
  simp only
  cases hfind : Source.find host options (.ofString source) with
  | excluded | unimportable => simp [Source.node?]
  | file _ _ | directory _ =>
    cases hbase : baseName host (.ofString source) <;> simp [Source.node?]

/-- A source that is to be imported has been found. -/
theorem Importable.find {source : String} (h : Importable host options source place name) :
    ∃ node, Found host (.ofString source) node place ∧
      (Source.find host options (.ofString source)).node? = some node := by
  have hkept : options.excludes (.ofString source) = false := by
    rw [← Bool.not_eq_true, Options.excludes_iff]
    rintro ⟨excluded, hmem, hsame⟩
    exact h.kept excluded hmem hsame
  have hfound : Found host (.ofString source) place.node place := ⟨h.leads, rfl, h.held⟩
  exact ⟨_, hfound, find_node?_iff.2 ⟨hkept, place, hfound⟩⟩

/-- A source that has been found and has a name is to be imported. -/
theorem importable_of_find {source : String} {node : Node}
    (hnode : (Source.find host options (.ofString source)).node? = some node)
    (hbase : baseName host (.ofString source) = .ok (some name)) :
    ∃ place, Found host (.ofString source) node place ∧
      Importable host options source place name := by
  obtain ⟨hkept, q, hq⟩ := find_node?_iff.1 hnode
  refine ⟨q, hq, fun excluded hmem hsame => ?_, hq.leads, hq.node_eq ▸ hq.held,
    (baseName_of_resolve hq.leads hbase).symm⟩
  rw [← Bool.not_eq_true, Options.excludes_iff] at hkept
  exact hkept ⟨excluded, hmem, hsame⟩

/-- **What is renamed is what is to be imported.** -/
theorem archiveName?_iff_importable (hwf : host.WellFormed) {sources : List String}
    (hok : firstFailure? (importEvents host options sources) = none) {source : String}
    (hsource : source ∈ sources) :
    archiveName? host options source = some name ↔
      ∃ place, Importable host options source place name := by
  rw [archiveName?_eq_some_iff]
  constructor
  · rintro ⟨node, hnode, hbase⟩
    obtain ⟨q, -, himport⟩ := importable_of_find hnode hbase
    exact ⟨q, himport⟩
  · rintro ⟨q, himport⟩
    obtain ⟨node, hfound, hnode⟩ := himport.find
    refine ⟨node, hnode, ?_⟩
    have hmem := mem_foundSources.2 ⟨source, hsource, rfl, hnode⟩
    obtain ⟨result, hbase⟩ := (settled_of_importEvents hwf hok hmem hfound).named
    rw [hbase, baseName_of_resolve hfound.leads hbase, himport.named]

/-- What is to be imported is in the archive. -/
theorem Importable.archived (hwf : host.WellFormed) {sources : List String}
    (hok : firstFailure? (importEvents host options sources) = none) {source : String}
    (hsource : source ∈ sources) (h : Importable host options source place name) :
    Archived host place name ((importEvents host options sources).filterMap Event.entry?) := by
  obtain ⟨node, hfound, hnode⟩ := h.find
  have hmem := mem_foundSources.2 ⟨source, hsource, rfl, hnode⟩
  have hsettled := settled_of_importEvents hwf hok hmem hfound
  obtain ⟨result, hbase⟩ := hsettled.named
  refine hsettled.archived name ?_
  rw [hbase, baseName_of_resolve hfound.leads hbase, h.named]

/-! ## The script -/

theorem mem_sources_of_copy? {file : Dockerfile} {instruction : Instruction}
    {source destination : String} (hmem : instruction ∈ file.commands)
    (hcopy : instruction.copy? = some (source, destination)) : source ∈ file.sources :=
  List.mem_map.2 ⟨_, List.mem_filterMap.2 ⟨instruction, hmem, hcopy⟩, rfl⟩

/-- **Every instruction of a Dockerfile whose import succeeds is carried over.** -/
theorem carried_mapSource (hwf : host.WellFormed) {file : Dockerfile}
    (hok : firstFailure? (importsOf host options file) = none) {instruction : Instruction}
    (hmem : instruction ∈ file.commands) :
    Carried host options ((importsOf host options file).filterMap Event.entry?) instruction
      (instruction.mapSource (renamed host options)) := by
  have hpair : ∀ role source destination, role = .add ∨ role = .copy →
      instruction = .step (.pair role source destination) →
      Carried host options ((importsOf host options file).filterMap Event.entry?)
        (.step (.pair role source destination))
        (.step (.pair role (renamed host options source) destination)) := by
    intro role source destination hrole hinstruction
    have hcopy : instruction.copy? = some (source, destination) := by
      rw [hinstruction]
      rcases hrole with rfl | rfl <;> rfl
    have hsource := mem_sources_of_copy? hmem hcopy
    have hiff : ∀ name, archiveName? host options source = some name ↔
        ∃ place, Importable host options source place name := fun name =>
      archiveName?_iff_importable hwf hok hsource
    cases hname : archiveName? host options source with
    | some name =>
      obtain ⟨q, himport⟩ := (hiff name).1 hname
      rw [renamed, hname, Option.getD_some]
      exact .imported hrole himport (himport.archived hwf hok hsource)
    | none =>
      rw [renamed, hname, Option.getD_none]
      refine .kept hrole fun ⟨q, name, himport⟩ => ?_
      rw [(hiff name).2 ⟨q, himport⟩] at hname
      cases hname
  cases instruction with
  | healthcheck _ | onbuild _ => exact .other Kind.noConfusion Kind.noConfusion
  | step s =>
    cases s with
    | pair role source destination =>
      cases role with
      | add => exact hpair .add source destination (.inl rfl) rfl
      | copy => exact hpair .copy source destination (.inr rfl) rfl
      | env | label => exact .other Kind.noConfusion Kind.noConfusion
    | text role _ | exec role _ | named role _ _ | list role _ =>
      refine .other ?_ ?_ <;> cases role <;> exact Kind.noConfusion

/-- What a Dockerfile is packaged into. -/
theorem packageBytes_eq_ok_iff {file : Dockerfile} {bytes : List UInt8} :
    (packageBytes host options file).result = .ok bytes ↔
      firstFailure? (importsOf host options file) = none ∧
        bytes = Tar.write ((importsOf host options file).filterMap Event.entry? ++
          [⟨scriptName, .generated (contentOf (packaged host options file).render)⟩]) := by
  unfold packageBytes
  simp only
  cases firstFailure? (importsOf host options file) with
  | none => simp [eq_comm]
  | some failure => simp

/-- What packaging a Dockerfile fails with. -/
theorem packageBytes_eq_error_iff {file : Dockerfile} {failure : Failure} :
    (packageBytes host options file).result = .error failure ↔
      firstFailure? (importsOf host options file) = some failure := by
  unfold packageBytes
  simp only
  cases firstFailure? (importsOf host options file) <;> simp

end

/-- **Packaging is complete and changes only the sources of copies.** -/
theorem packageBytes_complete {host : Host} (hwf : host.WellFormed) {options : Options}
    {file : Dockerfile} {bytes : List UInt8}
    (hok : (packageBytes host options file).result = .ok bytes) :
    ∃ entries : List Tar.Entry,
      bytes = Tar.write (entries ++
        [⟨"Dockerfile", .generated (Utf8.encode (packaged host options file).render.toList)⟩]) ∧
      List.Forall₂ (Carried host options entries) file.commands
        (packaged host options file).commands := by
  obtain ⟨hsucceeds, hbytes⟩ := packageBytes_eq_ok_iff.1 hok
  refine ⟨(importsOf host options file).filterMap Event.entry?, hbytes, ?_⟩
  rw [packaged, Dockerfile.commands_mapSources, List.forall₂_map_right_iff, List.forall₂_same]
  intro instruction hmem
  exact carried_mapSource hwf hsucceeds hmem

/-- Copies of a directory, of nothing, and of a link to a file. -/
def Dockerfile.threeCopies : Dockerfile :=
  ⟨[⟨Kind.copy.priority, [.step (.pair .copy "a" "/"), .step (.pair .copy "x" "/"),
    .step (.pair .copy "a/c" "/")]⟩]⟩

theorem packageBytes_complete_threeCopies : Host.looped.WellFormed ∧ ∃ bytes,
    (packageBytes Host.looped {} .threeCopies).result = .ok bytes ∧ ∃ entries : List Tar.Entry,
      bytes = Tar.write (entries ++ [⟨"Dockerfile",
        .generated (Utf8.encode (packaged Host.looped {} .threeCopies).render.toList)⟩]) ∧
      List.Forall₂ (Carried Host.looped {} entries) Dockerfile.threeCopies.commands
        (packaged Host.looped {} .threeCopies).commands :=
  ⟨by decide, _, rfl, packageBytes_complete (by decide) rfl⟩

end ImageRecipe
