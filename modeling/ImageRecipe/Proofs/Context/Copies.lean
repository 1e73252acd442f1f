import ImageRecipe.Proofs.Context.Entries
import Mathlib.Data.List.Destutter

/-!
# Copies of sources

The imported part of an archive is a row of copies, each of them what one source adds under its name. A
source is passed over if the copy that was made last under its name is of the same path. So under each name
the copies are the sources of that name without repeats that follow each other, and a source that comes back
after another one of its name is copied again.

* `Copy` — a source with its name in the archive, and `Copy.entries`, what adding it comes to;
* `copiesAfter` — those of a list of sources of which a copy is made;
* `Makes` — events that make certain copies;
* `importedSources`, `copies` — the sources of a Dockerfile that have a name, in the order of the import,
  and those that are copied;
* `Unbroken` — nothing else stands between two occurrences of an element.

Principal results:

* `makes_importSources`, `Makes.entries_eq` — an import makes its copies, and its entries are theirs;
* `keysNamed_copiesAfter` — under each name the copies are the sources, destuttered;
* `mirrors_additions` — a copy mirrors the place that its source leads to;
* `packageBytes_once_iff` — a source is copied once exactly if no other source of its name comes between.
-/

set_option autoImplicit false

namespace ImageRecipe

/-! ## Repeats that follow each other -/

section Destutter

variable {α : Type}

/-- Nothing else stands between two occurrences of an element. -/
def Unbroken (k : α) (items : List α) : Prop :=
  ∀ other, [k, other, k].Sublist items → other = k

theorem Unbroken.of_sublist {k : α} {fewer items : List α} (h : Unbroken k items)
    (hsub : fewer.Sublist items) : Unbroken k fewer :=
  fun other hother => h other (hother.trans hsub)

theorem unbroken_cons_of_ne {k a : α} (ha : a ≠ k) {items : List α} :
    Unbroken k (a :: items) ↔ Unbroken k items := by
  refine ⟨fun h => h.of_sublist (List.sublist_cons_self _ _), fun h other hsub => ?_⟩
  rcases List.sublist_cons_iff.1 hsub with hsub | ⟨_, heq, -⟩
  · exact h other hsub
  · exact absurd (List.cons_eq_cons.1 heq).1.symm ha

theorem unbroken_cons_self {k a : α} {items : List α} :
    Unbroken k (a :: a :: items) ↔ Unbroken k (a :: items) := by
  refine ⟨fun h => h.of_sublist (List.sublist_cons_self _ _), fun h other hsub => ?_⟩
  rcases List.sublist_cons_iff.1 hsub with hsub | ⟨_, heq, hsub⟩
  · exact h other hsub
  · obtain ⟨rfl, rfl⟩ := List.cons_eq_cons.1 heq
    rcases List.sublist_cons_iff.1 hsub with hsub | ⟨_, heq, -⟩
    · exact h other (hsub.cons_cons k)
    · exact (List.cons_eq_cons.1 heq).1

/-- Once it has been followed by something else, an element must not come back. -/
theorem unbroken_cons_cons {k b : α} (hb : b ≠ k) {items : List α} :
    Unbroken k (k :: b :: items) ↔ k ∉ items := by
  constructor
  · exact fun h hmem => hb (h b (((List.singleton_sublist.2 hmem).cons_cons b).cons_cons k))
  · intro h other hsub
    have hlast : k ∈ items := by
      rcases List.sublist_cons_iff.1 (List.cons_sublist_cons.1 hsub) with htwo | ⟨_, heq, hone⟩
      · exact htwo.subset (by simp)
      · exact hone.subset ((List.cons_eq_cons.1 heq).2 ▸ List.mem_cons_self)
    exact absurd hlast h

variable [DecidableEq α]

theorem mem_destutter' {x a : α} {items : List α} :
    x ∈ items.destutter' (· ≠ ·) a ↔ x ∈ a :: items := by
  induction items generalizing a with
  | nil => rfl
  | cons b rest ih =>
    by_cases hab : a = b
    · rw [List.destutter'_cons_neg _ (not_not.2 hab), ih]
      simp [hab]
    · rw [List.destutter'_cons_pos _ hab, List.mem_cons, ih, ← List.mem_cons]

/-- **No element is lost.** -/
theorem mem_destutter {x : α} {items : List α} : x ∈ items.destutter (· ≠ ·) ↔ x ∈ items := by
  cases items with
  | nil => rfl
  | cons a rest => exact mem_destutter'

/-- **The last element stays the last.** -/
theorem getLast?_destutter (items : List α) :
    (items.destutter (· ≠ ·)).getLast? = items.getLast? := by
  cases items with
  | nil => rfl
  | cons a rest =>
    rw [List.destutter_cons']
    induction rest generalizing a with
    | nil => rfl
    | cons b rest ih =>
      by_cases hab : a = b
      · rw [List.destutter'_cons_neg _ (not_not.2 hab), ih, hab, List.getLast?_cons_cons]
      · rw [List.destutter'_cons_pos _ hab, List.getLast?_cons_cons, ← ih b]
        cases hrest : rest.destutter' (· ≠ ·) b with
        | nil => exact absurd hrest (List.destutter'_ne_nil _ _)
        | cons c more => rw [List.getLast?_cons_cons]

/-- **An element is kept once exactly if it occurs, unbroken.** -/
theorem count_destutter_eq_one_iff [BEq α] [LawfulBEq α] {k : α} {items : List α} :
    (items.destutter (· ≠ ·)).count k = 1 ↔ k ∈ items ∧ Unbroken k items := by
  cases items with
  | nil => simp
  | cons a rest =>
    rw [List.destutter_cons']
    induction rest generalizing a with
    | nil =>
      have hsingle : Unbroken k [a] := fun other hsub => absurd hsub.length_le (by simp)
      rw [List.destutter'_nil, and_iff_left hsingle, List.mem_singleton]
      by_cases ha : a = k
      · simp [ha]
      · simp [ha, Ne.symm ha]
    | cons b rest ih =>
      by_cases hab : a = b
      · subst hab
        rw [List.destutter'_cons_neg _ (not_not.2 rfl), ih, unbroken_cons_self]
        simp
      · rw [List.destutter'_cons_pos _ hab]
        by_cases ha : a = k
        · subst ha
          rw [List.count_cons_self, Nat.add_eq_right, List.count_eq_zero, mem_destutter',
            unbroken_cons_cons (Ne.symm hab), List.mem_cons]
          simp [hab]
        · rw [List.count_cons_of_ne ha, ih, unbroken_cons_of_ne ha]
          simp [Ne.symm ha]

end Destutter

/-! ## Sources that are copied -/

/-- A source as it is copied into an archive: its name there, its path, and what stands at that. -/
structure Copy where
  name : String
  path : Path
  node : Node

namespace Copy

/-- The source as the import has found it, if it has a name. -/
def ofFound? (host : Host) (found : Path × Node) : Option Copy :=
  match baseName host found.1 with
  | .ok (some name) => some ⟨name, found.1, found.2⟩
  | _ => none

/-- The events of making the copy. -/
def additions (host : Host) (copy : Copy) : List Event :=
  ImageRecipe.additions host copy.path copy.name copy.node

/-- What the copy puts into the archive. -/
def entries (host : Host) (copy : Copy) : List Tar.Entry :=
  (copy.additions host).filterMap Event.entry?

/-- Whether the copy made last under this name is of the same path. -/
def repeats (added : Added) (copy : Copy) : Bool :=
  (added.lookup copy.name).any (·.same copy.path)

/-- What is reported of a source before it is copied or passed over. -/
def remarks (added : Added) (copy : Copy) : List Event :=
  (if copy.name = scriptName then [.shadowed copy.path copy.name] else []) ++
    ((added.lookup copy.name).toList.filter (!·.same copy.path)).map (.clash · copy.path copy.name)

end Copy

/-- Those of the sources of which a copy is made. -/
def copiesAfter (added : Added) : List Copy → List Copy
  | [] => []
  | source :: rest =>
    if source.repeats added then copiesAfter added rest
    else source :: copiesAfter ((source.name, source.path) :: added) rest

section

variable {host : Host} {options : Options}

theorem ofFound?_eq_some_iff {found : Path × Node} {copy : Copy} :
    Copy.ofFound? host found = some copy ↔
      found = (copy.path, copy.node) ∧ baseName host copy.path = .ok (some copy.name) := by
  obtain ⟨path, node⟩ := found
  obtain ⟨name, own, there⟩ := copy
  unfold Copy.ofFound?
  constructor
  · intro h
    split at h
    · rename_i hbase
      cases h
      exact ⟨rfl, hbase⟩
    · cases h
  · rintro ⟨heq, hbase⟩
    cases heq
    simp only [hbase]

theorem remarks_remarks (added : Added) (copy : Copy) : Remarks (copy.remarks added) := by
  intro event hevent
  rcases List.mem_append.1 hevent with hevent | hevent
  · split at hevent
    · rw [List.mem_singleton] at hevent
      exact hevent ▸ ⟨rfl, rfl⟩
    · cases hevent
  · obtain ⟨earlier, -, rfl⟩ := List.mem_map.1 hevent
    exact ⟨rfl, rfl⟩

/-- What becomes of a source that has a name. -/
theorem importSource_copy {added : Added} {copy : Copy}
    (hbase : baseName host copy.path = .ok (some copy.name)) :
    importSource host added copy.path copy.node =
      if copy.repeats added then (copy.remarks added, added)
      else (copy.remarks added ++ copy.additions host, (copy.name, copy.path) :: added) := by
  rw [importSource_named hbase, Copy.remarks, Copy.repeats, Copy.additions]
  cases hlookup : added.lookup copy.name with
  | none => simp
  | some earlier => by_cases hsame : earlier.same copy.path = true <;> simp [hsame]

/-- What becomes of a source that has no name. -/
theorem importSource_of_nameless (added : Added) {found : Path × Node}
    (h : Copy.ofFound? host found = none) :
    (importSource host added found.1 found.2).1.filterMap Event.entry? = [] ∧
      (importSource host added found.1 found.2).2 = added := by
  unfold Copy.ofFound? at h
  cases hbase : baseName host found.1 with
  | error fault =>
    rw [importSource, hbase]
    exact ⟨rfl, rfl⟩
  | ok result =>
    cases result with
    | none =>
      rw [importSource, hbase]
      exact ⟨rfl, rfl⟩
    | some name =>
      rw [hbase] at h
      cases h

/-- The events make the copies, in turn, after the sources `added`. -/
inductive Makes (host : Host) : Added → List Event → List Copy → Prop
  | nothing {added : Added} : Makes host added [] []
  | reported {added : Added} {report events : List Event} {made : List Copy}
      (hadds : report.filterMap Event.entry? = []) (h : Makes host added events made) :
      Makes host added (report ++ events) made
  | copied {added : Added} {copy : Copy} {events : List Event} {made : List Copy}
      (hnew : ¬copy.repeats added = true)
      (h : Makes host ((copy.name, copy.path) :: added) events made) :
      Makes host added (copy.remarks added ++ copy.additions host ++ events) (copy :: made)

/-- **An import makes its copies.** -/
theorem makes_importSources (added : Added) (found : List (Path × Node)) :
    Makes host added (importSources host added found)
      (copiesAfter added (found.filterMap (Copy.ofFound? host))) := by
  induction found generalizing added with
  | nil => exact .nothing
  | cons first rest ih =>
    show Makes host added ((importSource host added first.1 first.2).1 ++
      importSources host (importSource host added first.1 first.2).2 rest) _
    cases hfirst : Copy.ofFound? host first with
    | none =>
      obtain ⟨hadds, hadded⟩ := importSource_of_nameless added hfirst
      rw [List.filterMap_cons_none hfirst, hadded]
      exact .reported hadds (ih added)
    | some copy =>
      obtain ⟨rfl, hbase⟩ := ofFound?_eq_some_iff.1 hfirst
      rw [List.filterMap_cons_some hfirst, copiesAfter, importSource_copy hbase]
      by_cases hrepeats : copy.repeats added = true
      · rw [if_pos hrepeats, if_pos hrepeats]
        exact .reported (remarks_remarks added copy).adds_nothing (ih added)
      · rw [if_neg hrepeats, if_neg hrepeats]
        exact .copied hrepeats (ih _)

namespace Makes

variable {added : Added} {events : List Event} {made : List Copy}

/-- **The entries of an import are those of its copies.** -/
theorem entries_eq (h : Makes host added events made) :
    events.filterMap Event.entry? = made.flatMap (Copy.entries host) := by
  induction h with
  | nothing => rfl
  | reported hadds _ ih => rw [List.filterMap_append, hadds, ih, List.nil_append]
  | copied _ _ ih =>
    rw [List.filterMap_append, List.filterMap_append, (remarks_remarks _ _).adds_nothing, ih,
      List.nil_append, List.flatMap_cons, Copy.entries]

/-- No copy of an import that succeeds has failed. -/
theorem additions_ok (h : Makes host added events made) (hok : firstFailure? events = none) :
    ∀ copy ∈ made, firstFailure? (copy.additions host) = none := by
  induction h with
  | nothing => simp
  | reported _ _ ih => exact ih (firstFailure?_append_eq_none.1 hok).2
  | copied _ _ ih =>
    rw [firstFailure?_append_eq_none, firstFailure?_append_eq_none] at hok
    exact List.forall_mem_cons.2 ⟨hok.1.2, ih hok.2⟩

end Makes

theorem copiesAfter_sublist (added : Added) (sources : List Copy) :
    (copiesAfter added sources).Sublist sources := by
  induction sources generalizing added with
  | nil => exact List.Sublist.refl _
  | cons source rest ih =>
    rw [copiesAfter]
    split
    · exact (ih _).cons _
    · exact (ih _).cons_cons _

/-! ## Copies under one name -/

/-- The components of the paths of all sources of a name. -/
def keysNamed (name : String) (sources : List Copy) : List (List Path.Component) :=
  (sources.filter (·.name = name)).map (·.path.components)

/-- The components of the source last added under a name. -/
def lastKey (added : Added) (name : String) : List (List Path.Component) :=
  ((added.lookup name).map Path.components).toList

theorem keysNamed_cons_self (source : Copy) (rest : List Copy) :
    keysNamed source.name (source :: rest) = source.path.components :: keysNamed source.name rest := by
  simp [keysNamed]

theorem keysNamed_cons_of_ne {name : String} {source : Copy} (h : source.name ≠ name)
    (rest : List Copy) : keysNamed name (source :: rest) = keysNamed name rest := by
  simp [keysNamed, h]

theorem keysNamed_append (name : String) (a b : List Copy) :
    keysNamed name (a ++ b) = keysNamed name a ++ keysNamed name b := by
  simp [keysNamed]

theorem keysNamed_eq_nil {name : String} {sources : List Copy}
    (h : ∀ source ∈ sources, source.name ≠ name) : keysNamed name sources = [] := by
  simpa [keysNamed] using h

/-- The last key of a name is that of the last source of that name. -/
theorem exists_of_getLast?_keysNamed {name : String} {sources : List Copy}
    {key : List Path.Component} (h : (keysNamed name sources).getLast? = some key) :
    ∃ before source after, sources = before ++ source :: after ∧ source.name = name ∧
      source.path.components = key ∧ ∀ later ∈ after, later.name ≠ name := by
  rw [keysNamed, List.getLast?_map, List.getLast?_filter, Option.map_eq_some_iff] at h
  obtain ⟨source, hfind, hkey⟩ := h
  obtain ⟨hname, after, before, hsplit, hafter⟩ := List.find?_eq_some_iff_append.1 hfind
  refine ⟨before.reverse, source, after.reverse, ?_, of_decide_eq_true hname, hkey, ?_⟩
  · rw [← List.reverse_reverse sources, hsplit]
    simp
  · intro later hlater
    simpa using hafter later (List.mem_reverse.1 hlater)

theorem lastKey_cons_self (name : String) (path : Path) (added : Added) :
    lastKey ((name, path) :: added) name = [path.components] := by
  simp [lastKey]

theorem lastKey_cons_of_ne {name other : String} (h : other ≠ name) (path : Path) (added : Added) :
    lastKey ((other, path) :: added) name = lastKey added name := by
  have hbeq : (name == other) = false := beq_eq_false_iff_ne.2 h.symm
  rw [lastKey, List.lookup_cons, hbeq]
  rfl

theorem repeats_iff {added : Added} {copy : Copy} :
    copy.repeats added = true ↔ lastKey added copy.name = [copy.path.components] := by
  rw [Copy.repeats, lastKey]
  cases added.lookup copy.name with
  | none => simp
  | some earlier => simp [Path.same_iff]

/-- What was added before under another path does not keep a source from being copied. -/
theorem destutter_lastKey_append {added : Added} {copy : Copy} (h : ¬copy.repeats added = true)
    (keys : List (List Path.Component)) :
    (lastKey added copy.name ++ copy.path.components :: keys).destutter (· ≠ ·) =
      lastKey added copy.name ++ (copy.path.components :: keys).destutter (· ≠ ·) := by
  rw [repeats_iff, lastKey] at h
  rw [lastKey]
  cases hlookup : added.lookup copy.name with
  | none => rfl
  | some earlier =>
    have hdiffer : earlier.components ≠ copy.path.components := by simpa [hlookup] using h
    exact List.destutter'_cons_pos _ hdiffer

/-- **Under each name the copies are the sources**, without repeats that follow each other or what was
added before. -/
theorem keysNamed_copiesAfter (name : String) (added : Added) (sources : List Copy) :
    lastKey added name ++ keysNamed name (copiesAfter added sources) =
      (lastKey added name ++ keysNamed name sources).destutter (· ≠ ·) := by
  induction sources generalizing added with
  | nil => cases hlookup : added.lookup name <;> simp [lastKey, keysNamed, copiesAfter, hlookup]
  | cons source rest ih =>
    rw [copiesAfter]
    by_cases hname : source.name = name
    · subst hname
      rw [keysNamed_cons_self]
      by_cases hrepeats : source.repeats added = true
      · rw [if_pos hrepeats, ih, repeats_iff.1 hrepeats]
        exact (List.destutter'_cons_neg _ (not_not.2 rfl)).symm
      · have hpush := ih ((source.name, source.path) :: added)
        rw [lastKey_cons_self, List.singleton_append, List.singleton_append] at hpush
        rw [if_neg hrepeats, keysNamed_cons_self, destutter_lastKey_append hrepeats, hpush]
    · rw [keysNamed_cons_of_ne hname]
      split
      · exact ih added
      · have hpush := ih ((source.name, source.path) :: added)
        rwa [lastKey_cons_of_ne hname, ← keysNamed_cons_of_ne hname] at hpush

/-! ## Copies are mirrors -/

/-- A file shows itself, and nothing below it. -/
theorem mirrors_file {place : List Name} {content : List UInt8} {mode : Nat}
    (hat : host.tree.at? place = some (.file content mode)) (name : String) :
    Mirrors host place name [⟨name, .file content (Node.ownerMayRun mode)⟩] := by
  refine ⟨[⟨[], .file content (Node.ownerMayRun mode)⟩], rfl, fun item => ?_,
    List.pairwise_singleton _ _⟩
  have hself : host.tree.at? (place ++ []) = some (.file content mode) := by
    rwa [List.append_nil]
  rw [List.mem_singleton]
  constructor
  · rintro rfl
    exact .file hself
  · intro hshown
    obtain ⟨names, body⟩ := item
    obtain ⟨node, hnode⟩ := hshown.at?
    rw [Node.at?_append, hat, Option.bind_some] at hnode
    obtain ⟨rfl, -⟩ := (Node.at?_eq_some_iff rfl).1 hnode
    cases hshown with
    | directory h | link h _ =>
      rw [hself] at h
      cases h
    | file h =>
      rw [hself] at h
      cases h
      rfl

/-- **What is added mirrors the place that the source leads to.** -/
theorem mirrors_additions (hwf : host.WellFormed) {path : Path} {node : Node} {place : Place}
    {name : String} (hfound : Found host path node place)
    (hok : firstFailure? (additions host path name node) = none) :
    Mirrors host place.names name ((additions host path name node).filterMap Event.entry?) := by
  rcases hfound.held with ⟨content, mode, rfl⟩ | ⟨entries, rfl⟩
  · have hat := (Host.reached_of_resolve hfound.leads).at?_names
    rw [hfound.node_eq] at hat
    rw [additions, firstFailure?_eq_none_iff] at hok
    rw [additions, addFile_of_succeeds (hok _ List.mem_cons_self)]
    exact mirrors_file hat name
  · exact mirrors_addTree hwf _ path name place hfound.leads hfound.node_eq rfl hok

/-! ## The sources of a Dockerfile -/

/-- The sources that are imported and have a name, in the order of the import. -/
def importedSources (host : Host) (options : Options) (sources : List String) : List Copy :=
  (foundSources host options sources).filterMap (Copy.ofFound? host)

/-- The copies that packaging a Dockerfile makes. -/
def copies (host : Host) (options : Options) (file : Dockerfile) : List Copy :=
  copiesAfter [] (importedSources host options file.sources)

theorem mem_importedSources {sources : List String} {copy : Copy} :
    copy ∈ importedSources host options sources ↔
      (copy.path, copy.node) ∈ foundSources host options sources ∧
        baseName host copy.path = .ok (some copy.name) := by
  simp only [importedSources, List.mem_filterMap, ofFound?_eq_some_iff]
  exact ⟨fun ⟨_, hmem, heq, hbase⟩ => ⟨heq ▸ hmem, hbase⟩,
    fun ⟨hmem, hbase⟩ => ⟨_, hmem, rfl, hbase⟩⟩

theorem found_of_mem_importedSources {sources : List String} {copy : Copy}
    (h : copy ∈ importedSources host options sources) :
    ∃ place, Found host copy.path copy.node place :=
  found_of_mem_foundSources (mem_importedSources.1 h).1

theorem mem_importedSources_of_mem_copies {file : Dockerfile} {copy : Copy}
    (h : copy ∈ copies host options file) : copy ∈ importedSources host options file.sources :=
  (copiesAfter_sublist [] _).subset h

/-- What is imported was to be imported. -/
theorem importable_of_mem_importedSources {sources : List String} {copy : Copy}
    (h : copy ∈ importedSources host options sources) :
    ∃ source ∈ sources, Path.ofString source = copy.path ∧ ∃ place,
      Found host copy.path copy.node place ∧ Importable host options source place copy.name := by
  obtain ⟨hmem, hbase⟩ := mem_importedSources.1 h
  obtain ⟨source, hsource, hpath, hnode⟩ := mem_foundSources.1 hmem
  rw [← hpath] at hnode hbase ⊢
  exact ⟨source, hsource, rfl, importable_of_find hnode hbase⟩

/-- What is to be imported is imported. -/
theorem mem_importedSources_of_importable (hwf : host.WellFormed) {sources : List String}
    (hok : firstFailure? (importEvents host options sources) = none) {source name : String}
    {place : Place} (hsource : source ∈ sources) (h : Importable host options source place name) :
    ∃ node, Found host (.ofString source) node place ∧
      ⟨name, .ofString source, node⟩ ∈ importedSources host options sources := by
  obtain ⟨node, hfound, hnode⟩ := h.find
  obtain ⟨_, -, hbase⟩ := archiveName?_eq_some_iff.1
    ((archiveName?_iff_importable hwf hok hsource).2 ⟨place, h⟩)
  have hmem := mem_foundSources.2 ⟨source, hsource, rfl, hnode⟩
  exact ⟨node, hfound, mem_importedSources.2 ⟨hmem, hbase⟩⟩

/-- A path names its source, however it is written. -/
theorem name_eq_of_components {sources : List String} {a b : Copy}
    (ha : a ∈ importedSources host options sources) (hb : b ∈ importedSources host options sources)
    (h : a.path.components = b.path.components) : a.name = b.name := by
  obtain ⟨p, hp⟩ := found_of_mem_importedSources ha
  obtain ⟨q, hq⟩ := found_of_mem_importedSources hb
  have hplace : p = q := Host.resolve_eq_of_components hp.leads hq.leads h
  have hfile : a.path.fileName? = b.path.fileName? := by rw [Path.fileName?, Path.fileName?, h]
  have hnameA := baseName_of_resolve hp.leads (mem_importedSources.1 ha).2
  have hnameB := baseName_of_resolve hq.leads (mem_importedSources.1 hb).2
  rw [hplace, hfile, ← hnameB, Option.some.injEq] at hnameA
  exact hnameA

/-- The import of sources, once these have been told apart. -/
theorem makes_importEvents (host : Host) (options : Options) (sources : List String) :
    Makes host [] (importEvents host options sources)
      (copiesAfter [] (importedSources host options sources)) := by
  unfold importEvents
  exact .reported (remarks_sortingEvents _).adds_nothing (makes_importSources [] _)

/-- **An archive holds the entries of its copies**, one copy after another, and the script. -/
theorem packagedEntries_eq (host : Host) (options : Options) (file : Dockerfile) :
    packagedEntries host options file = (copies host options file).flatMap (Copy.entries host) ++
      [⟨"Dockerfile", .generated (Utf8.encode (packaged host options file).render.toList)⟩] := by
  rw [packagedEntries, importsOf, (makes_importEvents host options file.sources).entries_eq, copies]

/-- **Every copy mirrors the place that its source leads to.** -/
theorem mirrors_of_mem_copies (hwf : host.WellFormed) {file : Dockerfile}
    (hok : firstFailure? (importsOf host options file) = none) {copy : Copy}
    (h : copy ∈ copies host options file) {place : Place}
    (hfound : Found host copy.path copy.node place) :
    Mirrors host place.names copy.name (copy.entries host) :=
  mirrors_additions hwf hfound ((makes_importEvents _ _ _).additions_ok hok copy h)

/-! ## How often a source is copied -/

theorem keysNamed_copies (name : String) (file : Dockerfile) :
    keysNamed name (copies host options file) =
      (keysNamed name (importedSources host options file.sources)).destutter (· ≠ ·) :=
  keysNamed_copiesAfter name [] (importedSources host options file.sources)

theorem mem_copies_iff {name : String} {key : List Path.Component} {file : Dockerfile} :
    (∃ copy ∈ copies host options file, copy.name = name ∧ copy.path.components = key) ↔
      ∃ source ∈ importedSources host options file.sources,
        source.name = name ∧ source.path.components = key := by
  have hmem : key ∈ keysNamed name (copies host options file) ↔
      key ∈ keysNamed name (importedSources host options file.sources) := by
    rw [keysNamed_copies, mem_destutter]
  simpa [keysNamed, and_assoc] using hmem

/-- **The places that copies lead to** are those of the sources that are to be imported. -/
theorem exists_copied_iff (hwf : host.WellFormed) {file : Dockerfile}
    (hok : firstFailure? (importsOf host options file) = none) {place : Place} :
    (∃ copy ∈ copies host options file, Found host copy.path copy.node place) ↔
      ∃ source ∈ file.sources, ∃ name, Importable host options source place name := by
  constructor
  · rintro ⟨copy, hcopy, hfound⟩
    obtain ⟨source, hsource, -, q, hq, himport⟩ :=
      importable_of_mem_importedSources (mem_importedSources_of_mem_copies hcopy)
    have hplace : q = place := Except.ok.inj (hq.leads.symm.trans hfound.leads)
    exact ⟨source, hsource, copy.name, hplace ▸ himport⟩
  · rintro ⟨source, hsource, name, himport⟩
    -- the copy may have been made for another source of the same path
    obtain ⟨node, hfound, hmem⟩ := mem_importedSources_of_importable hwf hok hsource himport
    obtain ⟨copy, hcopy, -, hkey⟩ := mem_copies_iff.2 ⟨_, hmem, rfl, rfl⟩
    obtain ⟨q, hq⟩ := found_of_mem_importedSources (mem_importedSources_of_mem_copies hcopy)
    have hplace := Host.resolve_eq_of_components hq.leads hfound.leads hkey
    exact ⟨copy, hcopy, hplace ▸ hq⟩

/-- The copies of a path are found under its name. -/
theorem countP_same {sources : List String} {source : Copy}
    (hsource : source ∈ importedSources host options sources) {items : List Copy}
    (hitems : items ⊆ importedSources host options sources) :
    items.countP (·.path.same source.path) =
      (keysNamed source.name items).count source.path.components := by
  rw [keysNamed, List.count, List.countP_map, List.countP_filter]
  refine List.countP_congr fun item hitem => ?_
  have hname : item.path.components = source.path.components → item.name = source.name :=
    name_eq_of_components (hitems hitem) hsource
  simpa [Path.same_iff] using hname

/-- A source comes back after another one of its name. -/
def ComesBack (sources : List Copy) (source : Copy) : Prop :=
  ∃ first other last, [first, other, last].Sublist sources ∧
    first.path.same source.path = true ∧ last.path.same source.path = true ∧
    other.name = source.name ∧ other.path.same source.path = false

theorem unbroken_keysNamed_iff {sources : List String} {source : Copy}
    (hsource : source ∈ importedSources host options sources) :
    Unbroken source.path.components
        (keysNamed source.name (importedSources host options sources)) ↔
      ¬ComesBack (importedSources host options sources) source := by
  constructor
  · rintro h ⟨first, other, last, hsub, hfirst, hlast, hname, hother⟩
    have hmem := hsub.subset
    have hnamed : ∀ copy ∈ [first, other, last], copy.name = source.name := by
      simp only [List.mem_cons, List.not_mem_nil, or_false, forall_eq_or_imp, forall_eq]
      exact ⟨name_eq_of_components (hmem (by simp)) hsource (Path.same_iff.1 hfirst), hname,
        name_eq_of_components (hmem (by simp)) hsource (Path.same_iff.1 hlast)⟩
    have hkeys := (hsub.filter (·.name = source.name)).map (·.path.components)
    rw [List.filter_eq_self.2 (fun copy hcopy => decide_eq_true (hnamed copy hcopy))] at hkeys
    simp only [List.map_cons, List.map_nil, Path.same_iff.1 hfirst, Path.same_iff.1 hlast] at hkeys
    exact Bool.eq_false_iff.1 hother (Path.same_iff.2 (h _ hkeys))
  · intro h key hsub
    obtain ⟨triple, htriple, hkeys⟩ := List.sublist_map_iff.1 hsub
    obtain ⟨first, other, last, rfl⟩ : ∃ first other last, triple = [first, other, last] := by
      rw [← List.length_eq_three, ← List.length_map (·.path.components), ← hkeys]
      rfl
    simp only [List.map_cons, List.map_nil, List.cons.injEq, and_true] at hkeys
    obtain ⟨hfirst, rfl, hlast⟩ := hkeys
    by_contra hother
    have hname := (List.mem_filter.1 (htriple.subset (a := other) (by simp))).2
    exact h ⟨first, other, last, htriple.trans List.filter_sublist, Path.same_iff.2 hfirst.symm,
      Path.same_iff.2 hlast.symm, of_decide_eq_true hname,
      Bool.eq_false_iff.2 fun hsame => hother (Path.same_iff.1 hsame)⟩

end

/-- **A source is copied once exactly if it does not come back** after another one of its name. An archive
holds the entries of the copies, one copy after another; every source is copied at least once. -/
theorem packageBytes_once_iff {host : Host} {options : Options} {file : Dockerfile}
    {bytes : List UInt8} (hok : (packageBytes host options file).result = .ok bytes) {source : Copy}
    (hsource : source ∈ importedSources host options file.sources) :
    bytes = Tar.write ((copies host options file).flatMap (Copy.entries host) ++
        [⟨"Dockerfile", .generated (Utf8.encode (packaged host options file).render.toList)⟩]) ∧
      1 ≤ (copies host options file).countP (·.path.same source.path) ∧
      ((copies host options file).countP (·.path.same source.path) = 1 ↔
        ¬ComesBack (importedSources host options file.sources) source) := by
  have hkey : source.path.components ∈
      keysNamed source.name (importedSources host options file.sources) := by
    rw [keysNamed, List.mem_map]
    exact ⟨source, List.mem_filter.2 ⟨hsource, decide_eq_true rfl⟩, rfl⟩
  have hcount := countP_same hsource fun copy => mem_importedSources_of_mem_copies
  rw [keysNamed_copies] at hcount
  rw [hcount]
  refine ⟨?_, ?_, ?_⟩
  · rw [← packagedEntries_eq]
    exact (packageBytes_eq_ok_iff.1 hok).2
  · exact List.count_pos_iff.2 (mem_destutter.2 hkey)
  · rw [count_destutter_eq_one_iff, and_iff_right hkey, unbroken_keysNamed_iff hsource]

/-- Two directories that hold a file of the same name each. -/
def Host.namesakes : Host :=
  { tree := .directory [([0x78], .directory [([0x61], .file [0x31] 0o644)]),
      ([0x79], .directory [([0x61], .file [0x32] 0o644)])]
    workdir := [] }

/-- Copies of a file, of another one of its name, and of the first again. -/
def Dockerfile.sandwich : Dockerfile :=
  ⟨[⟨Kind.copy.priority, [.step (.pair .copy "x/a" "/p"), .step (.pair .copy "y/a" "/q"),
    .step (.pair .copy "x/a" "/r")]⟩]⟩

theorem packageBytes_once_iff_sandwich : ∃ bytes source,
    (packageBytes Host.namesakes {} .sandwich).result = .ok bytes ∧
    source ∈ importedSources Host.namesakes {} Dockerfile.sandwich.sources ∧
    bytes = Tar.write ((copies Host.namesakes {} .sandwich).flatMap (Copy.entries Host.namesakes) ++
        [⟨"Dockerfile",
          .generated (Utf8.encode (packaged Host.namesakes {} .sandwich).render.toList)⟩]) ∧
      1 ≤ (copies Host.namesakes {} .sandwich).countP (·.path.same source.path) ∧
      ((copies Host.namesakes {} .sandwich).countP (·.path.same source.path) = 1 ↔
        ¬ComesBack (importedSources Host.namesakes {} Dockerfile.sandwich.sources) source) :=
  ⟨_, ⟨"a", .ofString "x/a", .file [0x31] 0o644⟩, rfl, .head _,
    packageBytes_once_iff rfl (.head _)⟩

/-- The first file is copied again when it comes back, so a source can be copied more than once. -/
theorem copies_sandwich : Host.namesakes.WellFormed ∧ ∃ bytes source,
    (packageBytes Host.namesakes {} .sandwich).result = .ok bytes ∧
    source ∈ importedSources Host.namesakes {} Dockerfile.sandwich.sources ∧
    (copies Host.namesakes {} .sandwich).countP (·.path.same source.path) = 2 :=
  ⟨by decide, _, ⟨"a", .ofString "x/a", .file [0x31] 0o644⟩, rfl, .head _, by decide⟩

end ImageRecipe
