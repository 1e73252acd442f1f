import ImageRecipe.Proofs.Context.Names

/-!
# Extracting an archive

An archive may hold several entries of one path, of which the last one stays when it is extracted. So of all
sources of a name the one imported last prevails, path by path. Nothing is taken away, though: directories of
the same name are merged, and what only an earlier one holds is left over.

* `extracted` — what stands at a path when an archive has been extracted;
* `LeftOver` — paths at which an earlier directory of the same name has left something.

Principal results:

* `exists_last_copy` — the last copy under a name is of the path that was imported last under it;
* `importedSources_ordered` — files are imported before directories, so only directories are merged;
* `packageBytes_last_wins` — below its name, the source imported last is extracted as if it were imported
  alone, apart from what is left over.
-/

set_option autoImplicit false

namespace ImageRecipe

/-! ## Entries that stay -/

/-- What stands at a path when entries have been extracted: what the last entry of that path holds. -/
def extracted (entries : List Tar.Entry) (path : String) : Option Tar.Body :=
  (entries.reverse.find? (·.name = path)).map Tar.Entry.body

theorem extracted_append (a b : List Tar.Entry) (path : String) :
    extracted (a ++ b) path = (extracted b path).or (extracted a path) := by
  rw [extracted, List.reverse_append, List.find?_append, Option.map_or, ← extracted, ← extracted]

theorem exists_of_extracted {entries : List Tar.Entry} {path : String} {body : Tar.Body}
    (h : extracted entries path = some body) : ∃ entry ∈ entries, entry.name = path := by
  obtain ⟨entry, hfind, -⟩ := Option.map_eq_some_iff.1 h
  have hname := List.find?_some hfind
  exact ⟨entry, List.mem_reverse.1 (List.mem_of_find?_eq_some hfind), of_decide_eq_true hname⟩

theorem extracted_eq_none_iff {entries : List Tar.Entry} {path : String} :
    extracted entries path = none ↔ ∀ entry ∈ entries, entry.name ≠ path := by
  simp [extracted]

/-! ## Sources in the order of the import -/

section

variable {host : Host} {options : Options}

/-- **Files are imported before directories.** -/
theorem importedSources_ordered (host : Host) (options : Options) (sources : List String) :
    (importedSources host options sources).Pairwise fun a b =>
      a.node.isDirectory = true → b.node.isDirectory = true := by
  have hfile : ∀ {path : Path} {found : Source} {a : Path × Node},
      fileSource? path found = some a → ¬a.2.isDirectory = true := by
    intro path found a ha
    cases found <;> cases ha
    exact Bool.false_ne_true
  have hdirectory : ∀ {path : Path} {found : Source} {a : Path × Node},
      directorySource? path found = some a → a.2.isDirectory = true := by
    intro path found a ha
    cases found <;> cases ha
    rfl
  have hfound : (foundSources host options sources).Pairwise fun a b =>
      a.2.isDirectory = true → b.2.isDirectory = true := by
    rw [foundSources, List.pairwise_append]
    refine ⟨List.pairwise_of_forall_mem_list fun a ha b _ hisDirectory => ?_,
      List.pairwise_of_forall_mem_list fun a _ b hb _ => ?_, fun a ha b _ hisDirectory => ?_⟩
    · obtain ⟨_, -, ha⟩ := List.mem_filterMap.1 ha
      exact absurd hisDirectory (hfile ha)
    · obtain ⟨_, -, hb⟩ := List.mem_filterMap.1 hb
      exact hdirectory hb
    · obtain ⟨_, -, ha⟩ := List.mem_filterMap.1 ha
      exact absurd hisDirectory (hfile ha)
  rw [importedSources, List.pairwise_filterMap]
  refine hfound.imp fun {a b} hab x hx y hy => ?_
  rw [(ofFound?_eq_some_iff.1 hx).1, (ofFound?_eq_some_iff.1 hy).1] at hab
  exact hab

/-- What is imported after a directory is a directory. -/
theorem isDirectory_of_before {sources : List String} {before after : List Copy} {source : Copy}
    (h : importedSources host options sources = before ++ source :: after) {earlier : Copy}
    (hearlier : earlier ∈ before) (hdirectory : earlier.node.isDirectory = true) :
    source.node.isDirectory = true := by
  have hordered := importedSources_ordered host options sources
  rw [h, List.pairwise_append] at hordered
  exact hordered.2.2 earlier hearlier source List.mem_cons_self hdirectory

/-- **The last copy under a name is of the path that was imported last under it.** -/
theorem exists_last_copy {file : Dockerfile} {before after : List Copy} {source : Copy}
    (h : importedSources host options file.sources = before ++ source :: after)
    (hlast : ∀ later ∈ after, later.name ≠ source.name) :
    ∃ earlier copy later, copies host options file = earlier ++ copy :: later ∧
      copy.name = source.name ∧ copy.path.components = source.path.components ∧
      ∀ other ∈ later, other.name ≠ source.name := by
  apply exists_of_getLast?_keysNamed
  rw [keysNamed_copies, getLast?_destutter, h, keysNamed_append, keysNamed_cons_self,
    keysNamed_eq_nil hlast]
  simp

/-! ## The source imported alone -/

/-- The text of a source, imported alone, gives that source. -/
theorem importedSources_singleton {sources : List String} {source : Copy}
    (h : source ∈ importedSources host options sources) {text : String}
    (htext : Path.ofString text = source.path) :
    importedSources host options [text] = [source] := by
  obtain ⟨hmem, hbase⟩ := mem_importedSources.1 h
  obtain ⟨_, -, -, hnode⟩ := mem_foundSources.1 hmem
  have hfound : foundSources host options [text] = [(source.path, source.node)] := by
    rw [foundSources, List.map_singleton, htext]
    cases hfind : Source.find host options source.path with
    | excluded | unimportable =>
      rw [hfind] at hnode
      cases hnode
    | file content mode | directory entries =>
      rw [hfind, Source.node?, Option.some.injEq] at hnode
      rw [← hnode]
      rfl
  rw [importedSources, hfound, List.filterMap_cons_some (ofFound?_eq_some_iff.2 ⟨rfl, hbase⟩)]
  rfl

/-- **A source that is imported alone mirrors its place.** -/
theorem mirrors_alone (hwf : host.WellFormed) {sources : List String} {source : Copy}
    (h : source ∈ importedSources host options sources) {place : Place}
    (hfound : Found host source.path source.node place) {text : String}
    (htext : Path.ofString text = source.path)
    (hok : firstFailure? (importEvents host options [text]) = none) :
    Mirrors host place.names source.name
      ((importEvents host options [text]).filterMap Event.entry?) := by
  have hmakes : Makes host [] (importEvents host options [text]) [source] := by
    have hcopied : copiesAfter [] [source] = [source] := rfl
    rw [← hcopied, ← importedSources_singleton h htext]
    exact makes_importEvents host options [text]
  rw [hmakes.entries_eq, List.flatMap_singleton]
  exact mirrors_additions hwf hfound (hmakes.additions_ok hok source List.mem_cons_self)

/-! ## What is left over -/

/-- An entry of the path comes from an earlier directory of the same name under another path, with which
the source is merged, being a directory as well. -/
structure LeftOver (host : Host) (before : List Copy) (source : Copy) (path : String) : Prop where
  merged : source.node.isDirectory = true
  left : ∃ earlier ∈ before, earlier.name = source.name ∧
    earlier.path.same source.path = false ∧ earlier.node.isDirectory = true ∧
    ∃ entry ∈ earlier.entries host, entry.name = path

/-- A file adds no entry of another name. -/
theorem name_of_file {copy : Copy} (h : copy.node.isDirectory = false) {entry : Tar.Entry}
    (hentry : entry ∈ copy.entries host) : entry.name = copy.name := by
  obtain ⟨name, path, node⟩ := copy
  obtain ⟨event, hevent, hadds⟩ := List.mem_filterMap.1 hentry
  cases node with
  | directory entries => cases h
  | file content mode =>
    rw [Copy.additions, additions, List.mem_singleton] at hevent
    subst hevent
    obtain ⟨-, rfl⟩ := entry_addFile hadds
    rfl
  | link _ | special =>
    rw [Copy.additions, additions, addTree_of_not_directory _ _ _ rfl] at hevent
    · cases hevent
    · exact fun _ _ => Node.noConfusion

/-- What a source adds has an entry of its own name. -/
theorem Mirrors.exists_self {path : Path} {node : Node} {place : Place} {name : String}
    {entries : List Tar.Entry} (h : Mirrors host place.names name entries)
    (hfound : Found host path node place) : ∃ entry ∈ entries, entry.name = name := by
  obtain ⟨items, rfl, hmem, -⟩ := h
  have hat : host.tree.at? (place.names ++ []) = some node := by
    rw [List.append_nil, (Host.reached_of_resolve hfound.leads).at?_names, hfound.node_eq]
  have hself : ∃ body, Shown host place.names ⟨[], body⟩ := by
    rcases hfound.held with ⟨content, mode, rfl⟩ | ⟨held, rfl⟩
    · exact ⟨_, .file hat⟩
    · exact ⟨_, .directory hat⟩
  obtain ⟨body, hshown⟩ := hself
  exact ⟨_, List.mem_map_of_mem ((hmem _).2 hshown), rfl⟩

variable {file : Dockerfile}

/-- **At a name and below it, the last copy of that name comes first**, and after it those before it. -/
theorem extracted_packagedEntries (hwf : host.WellFormed)
    (hok : firstFailure? (importsOf host options file) = none) {earlier later : List Copy}
    {copy : Copy} (hcopies : copies host options file = earlier ++ copy :: later) {name : String}
    (hname : Slashless name) (hlater : ∀ other ∈ later, other.name ≠ name)
    (hscript : name ≠ scriptName) {path : String} (hwithin : Within name path) :
    extracted (packagedEntries host options file) path =
      (extracted (copy.entries host) path).or
        (extracted (earlier.flatMap (Copy.entries host)) path) := by
  have hnoScript : scriptName ≠ path :=
    (ne_scriptName (firstPart_of_within hname hwithin) hscript).symm
  have hnoLater : extracted (later.flatMap (Copy.entries host)) path = none := by
    rw [extracted_eq_none_iff]
    rintro entry hentry rfl
    obtain ⟨other, hother, hmem⟩ := List.mem_flatMap.1 hentry
    have hcopy : other ∈ copies host options file := by
      rw [hcopies]
      exact List.mem_append_right _ (List.mem_cons_of_mem _ hother)
    exact hlater other hother (name_of_within hwf hok hcopy hname hmem hwithin)
  rw [packagedEntries_eq, hcopies, List.flatMap_append, List.flatMap_cons, extracted_append,
    extracted_append, extracted_append, hnoLater, Option.none_or,
    extracted_eq_none_iff.2 fun entry hentry => List.mem_singleton.1 hentry ▸ hnoScript,
    Option.none_or]

/-- **What an earlier copy leaves is left over from a directory.** -/
theorem leftOver_of_extracted (hwf : host.WellFormed)
    (hok : firstFailure? (importsOf host options file) = none) {before after : List Copy}
    {source : Copy} (hsources : importedSources host options file.sources = before ++ source :: after)
    (hlast : ∀ later ∈ after, later.name ≠ source.name) {place : Place}
    (hfound : Found host source.path source.node place) {alone : List Tar.Entry}
    (halone : Mirrors host place.names source.name alone) {path : String}
    (hwithin : Within source.name path) (hnone : extracted alone path = none) {copy : Copy}
    (hcopy : copy ∈ copies host options file) {entry : Tar.Entry}
    (hentry : entry ∈ copy.entries host) (hpath : entry.name = path) :
    LeftOver host before source path := by
  have hsource : source ∈ importedSources host options file.sources := by simp [hsources]
  have hmem := mem_importedSources_of_mem_copies hcopy
  have hname : copy.name = source.name := name_of_within hwf hok hcopy
    (slashless_of_mem_importedSources hwf hsource) hentry (hpath ▸ hwithin)
  rw [extracted_eq_none_iff] at hnone
  have hdiffer : copy.path.same source.path = false := by
    rw [Bool.eq_false_iff]
    intro hsame
    obtain ⟨q, hq⟩ := found_of_mem_importedSources hmem
    have hplace : q = place :=
      Host.resolve_eq_of_components hq.leads hfound.leads (Path.same_iff.1 hsame)
    have hmirror := mirrors_of_mem_copies hwf hok hcopy hq
    rw [hplace, hname] at hmirror
    exact hnone entry (hmirror.unique halone ▸ hentry) hpath
  have hdirectory : copy.node.isDirectory = true := by
    by_contra hnot
    obtain ⟨self, hself, hselfName⟩ := halone.exists_self hfound
    have hown := name_of_file (Bool.not_eq_true _ ▸ hnot) hentry
    exact hnone self hself (by rw [hselfName, ← hpath, hown, hname])
  have hbefore : copy ∈ before := by
    rw [hsources, List.mem_append, List.mem_cons] at hmem
    rcases hmem with hbefore | rfl | hafter
    · exact hbefore
    · rw [Path.same_iff.2 rfl] at hdiffer
      cases hdiffer
    · exact absurd hname (hlast copy hafter)
  exact ⟨isDirectory_of_before hsources hbefore hdirectory, copy, hbefore, hname, hdiffer,
    hdirectory, entry, hentry, hpath⟩

end

/-- **Among sources of a name the one imported last prevails.** When an archive is extracted, what stands at
the name or below it is what importing that source alone gives; only where this gives nothing, an earlier
directory of the name may have left something. -/
theorem packageBytes_last_wins {host : Host} (hwf : host.WellFormed) {options : Options}
    {file : Dockerfile} {bytes : List UInt8}
    (hok : (packageBytes host options file).result = .ok bytes) {before after : List Copy}
    {source : Copy} (hsources : importedSources host options file.sources = before ++ source :: after)
    (hlast : ∀ later ∈ after, later.name ≠ source.name) (hscript : source.name ≠ "Dockerfile") :
    bytes = Tar.write (packagedEntries host options file) ∧
      ∃ place alone, host.resolve source.path = .ok place ∧
        Mirrors host place.names source.name alone ∧
        (∀ text, Path.ofString text = source.path →
          firstFailure? (importEvents host options [text]) = none →
          (importEvents host options [text]).filterMap Event.entry? = alone) ∧
        ∀ path, Within source.name path →
          extracted (packagedEntries host options file) path = extracted alone path ∨
            extracted alone path = none ∧ LeftOver host before source path := by
  obtain ⟨hsucceeds, hbytes⟩ := packageBytes_eq_ok_iff.1 hok
  have hsource : source ∈ importedSources host options file.sources := by simp [hsources]
  have hslashless := slashless_of_mem_importedSources hwf hsource
  obtain ⟨place, hfound⟩ := found_of_mem_importedSources hsource
  obtain ⟨earlier, copy, later, hcopies, hname, hkey, hlater⟩ := exists_last_copy hsources hlast
  have hcopy : copy ∈ copies host options file := by simp [hcopies]
  obtain ⟨q, hq⟩ := found_of_mem_importedSources (mem_importedSources_of_mem_copies hcopy)
  have halone := mirrors_of_mem_copies hwf hsucceeds hcopy hq
  rw [Host.resolve_eq_of_components hq.leads hfound.leads hkey, hname] at halone
  refine ⟨hbytes, place, copy.entries host, hfound.leads, halone, ?_, fun path hwithin => ?_⟩
  · exact fun text htext halso => (mirrors_alone hwf hsource hfound htext halso).unique halone
  · rw [extracted_packagedEntries hwf hsucceeds hcopies hslashless hlater hscript hwithin]
    cases hown : extracted (copy.entries host) path with
    | some body => exact .inl rfl
    | none =>
      rw [Option.none_or]
      cases hleft : extracted (earlier.flatMap (Copy.entries host)) path with
      | none => exact .inl rfl
      | some body =>
        obtain ⟨entry, hentry, hpath⟩ := exists_of_extracted hleft
        obtain ⟨other, hother, hmem⟩ := List.mem_flatMap.1 hentry
        have hcopied : other ∈ copies host options file := by
          rw [hcopies]
          exact List.mem_append_left _ hother
        exact .inr ⟨rfl, leftOver_of_extracted hwf hsucceeds hsources hlast hfound halone hwithin
          hown hcopied hmem hpath⟩

/-- Two directories of the same name, one of which holds a file. -/
def Host.mergeable : Host :=
  { tree := .directory [([0x78], .directory [([0x61], .directory [([0x31], .file [0x31] 0o644)])]),
      ([0x79], .directory [([0x61], .directory [])])]
    workdir := [] }

/-- Copies of two sources of the same name. -/
def Dockerfile.twoNamesakes : Dockerfile :=
  ⟨[⟨Kind.copy.priority, [.step (.pair .copy "x/a" "/p"), .step (.pair .copy "y/a" "/q")]⟩]⟩

theorem packageBytes_last_wins_mergeable : Host.mergeable.WellFormed ∧ ∃ bytes before source,
    (packageBytes Host.mergeable {} .twoNamesakes).result = .ok bytes ∧
    importedSources Host.mergeable {} Dockerfile.twoNamesakes.sources = before ++ [source] ∧
    source.name ≠ "Dockerfile" ∧
    bytes = Tar.write (packagedEntries Host.mergeable {} .twoNamesakes) ∧
      ∃ place alone, Host.mergeable.resolve source.path = .ok place ∧
        Mirrors Host.mergeable place.names source.name alone ∧
        (∀ text, Path.ofString text = source.path →
          firstFailure? (importEvents Host.mergeable {} [text]) = none →
          (importEvents Host.mergeable {} [text]).filterMap Event.entry? = alone) ∧
        ∀ path, Within source.name path →
          extracted (packagedEntries Host.mergeable {} .twoNamesakes) path = extracted alone path ∨
            extracted alone path = none ∧ LeftOver Host.mergeable before source path :=
  have hsources : importedSources Host.mergeable {} Dockerfile.twoNamesakes.sources =
      [⟨"a", .ofString "x/a", .directory [([0x31], .file [0x31] 0o644)]⟩] ++
        [⟨"a", .ofString "y/a", .directory []⟩] := rfl
  ⟨by decide, _, _, _, rfl, hsources, by decide,
    packageBytes_last_wins (by decide) rfl hsources (by simp) (by decide)⟩

/-- The file of a directory that comes earlier is left over in an empty one of the same name. -/
theorem leftOver_mergeable : Host.mergeable.WellFormed ∧ ∃ bytes before source,
    (packageBytes Host.mergeable {} .twoNamesakes).result = .ok bytes ∧
    bytes = Tar.write (packagedEntries Host.mergeable {} .twoNamesakes) ∧
    importedSources Host.mergeable {} Dockerfile.twoNamesakes.sources = before ++ [source] ∧
    source.path = .ofString "y/a" ∧ source.name = "a" ∧ Within source.name "a/1" ∧
    firstFailure? (importEvents Host.mergeable {} ["y/a"]) = none ∧
    extracted ((importEvents Host.mergeable {} ["y/a"]).filterMap Event.entry?) "a/1" = none ∧
    extracted (packagedEntries Host.mergeable {} .twoNamesakes) "a/1" =
      some (.file [0x31] false) :=
  ⟨by decide, _, [⟨"a", .ofString "x/a", .directory [([0x31], .file [0x31] 0o644)]⟩],
    ⟨"a", .ofString "y/a", .directory []⟩, rfl, rfl, rfl, rfl, rfl, .inr ⟨"1", by decide⟩,
    by decide, by decide, by decide⟩

end ImageRecipe
