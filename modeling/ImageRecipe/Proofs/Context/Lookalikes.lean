import ImageRecipe.Proofs.Context.Extractable

/-!
# Sources that look like imported ones

Imported sources are renamed to where they are in the archive, and a source that is not imported stays as it
is written. Both are paths of the script, so a source that was left alone may happen to be the path of an
entry that another source has brought. Nothing of this is looked at when an archive is packed, and nothing is
reported; which paths it concerns can be said from the tree.

* `Untouched` — sources that stay as they are written;
* `Lookalike` — paths that lead, by what shows of names, from the name of an imported source to something
  that it holds.

Principal results:

* `components_foldl_entryName` — the components of the path of an entry;
* `mem_importedEntries_iff` — the entries of an import are the items of what is imported;
* `packageBytes_lookalike_iff` — an untouched source is the path of an imported entry exactly if it is a
  lookalike.
-/

set_option autoImplicit false

namespace ImageRecipe

/-- A source that stays as it is written: it is excluded, or there is neither a file nor a directory. -/
inductive Untouched (host : Host) (options : Options) (source : String) : Prop
  | excluded (h : options.excludes (.ofString source) = true)
  | missing {fault : Fault} (h : host.resolve (.ofString source) = .error fault)
  | special {way : List (Name × Node)} (h : host.resolve (.ofString source) = .ok ⟨.special, way⟩)

/-- A path that begins with the name of an imported source and goes on, if it does, with the names that lead
from there to a directory, a file, or a link to a file, as these names show. -/
def Lookalike (host : Host) (options : Options) (file : Dockerfile) (path : Path) : Prop :=
  ∃ other ∈ file.sources, ∃ place name item, Importable host options other place name ∧
    Shown host place.names item ∧
    path.components = .name (nameBytes name) ::
      item.names.map fun own => .name (nameBytes (Utf8.lossy own))

/-! ## Components of entries -/

/-- Every piece of a path that stays below is a name. -/
theorem components_of_contained {path : Path} (h : Contained path) :
    path.components = (Path.pieces path.bytes).map .name := by
  have hleading : path.leading = [] := by
    rw [Path.leading, h.relative, if_neg Bool.false_ne_true, if_neg]
    intro hhere
    exact (h.downward Path.here (List.mem_of_head? hhere)).not_here rfl
  have hnames : ∀ piece ∈ Path.pieces path.bytes,
      Path.component? piece = some (.name piece) := by
    intro piece hpiece
    have hdown := h.downward piece hpiece
    rw [Path.component?, if_neg hdown.not_empty, if_neg hdown.not_here, if_neg hdown.not_above]
  rw [Path.components, hleading, List.nil_append, List.filterMap_congr hnames,
    List.filterMap_eq_map']

theorem pieces_foldl_entryName (name : String) {names : List Name}
    (hnames : ∀ own ∈ names, Path.slash ∉ own) :
    Path.pieces (nameBytes (names.foldl entryName name)) =
      Path.pieces (nameBytes name) ++ names.map fun own => nameBytes (Utf8.lossy own) := by
  induction names generalizing name with
  | nil => simp
  | cons own rest ih =>
    rw [List.forall_mem_cons] at hnames
    rw [List.foldl_cons, ih _ hnames.2, pieces_entryName name hnames.1, List.append_assoc]
    rfl

/-- **The path of an entry has the name of its copy and the names on the way as components.** -/
theorem components_foldl_entryName {name : String} (hname : Slashless name)
    (hcontained : Contained (.ofString name)) {names : List Name}
    (hnames : ∀ own ∈ names, Node.properName own = true) :
    (Path.ofString (names.foldl entryName name)).components =
      .name (nameBytes name) :: names.map fun own => .name (nameBytes (Utf8.lossy own)) := by
  have hslash : ∀ own ∈ names, Path.slash ∉ own := fun own hown =>
    (Node.properName_iff.1 (hnames own hown)).2.2.2.1
  rw [components_of_contained (hcontained.foldl_entryName hnames)]
  show (Path.pieces (nameBytes _)).map _ = _
  rw [pieces_foldl_entryName name hslash, Path.pieces_of_not_mem (slash_not_mem_nameBytes hname)]
  simp

section

variable {host : Host} {options : Options} {file : Dockerfile}

/-! ## Entries of an import -/

/-- **The entries of an import are the items of what is imported.** -/
theorem mem_importedEntries_iff (hwf : host.WellFormed)
    (hok : firstFailure? (importsOf host options file) = none) {entry : Tar.Entry} :
    entry ∈ importedEntries host options file ↔
      ∃ source ∈ importedSources host options file.sources, ∃ place item,
        Found host source.path source.node place ∧ Shown host place.names item ∧
        entry = item.entry source.name := by
  rw [importedEntries_eq, List.mem_flatMap]
  constructor
  · rintro ⟨copy, hcopy, hentry⟩
    have hsource := mem_importedSources_of_mem_copies hcopy
    obtain ⟨place, hfound⟩ := found_of_mem_importedSources hsource
    obtain ⟨items, hentries, hmem, -⟩ := mirrors_of_mem_copies hwf hok hcopy hfound
    rw [hentries, List.mem_map] at hentry
    obtain ⟨item, hitem, rfl⟩ := hentry
    exact ⟨copy, hsource, place, item, hfound, (hmem item).1 hitem, rfl⟩
  · rintro ⟨source, hsource, place, item, hfound, hshown, rfl⟩
    -- the copy may have been made for another source of the same path
    obtain ⟨copy, hcopy, hname, hkey⟩ := mem_copies_iff.2 ⟨source, hsource, rfl, rfl⟩
    obtain ⟨q, hq⟩ := found_of_mem_importedSources (mem_importedSources_of_mem_copies hcopy)
    have hplace := Host.resolve_eq_of_components hq.leads hfound.leads hkey
    obtain ⟨items, hentries, hmem, -⟩ := mirrors_of_mem_copies hwf hok hcopy (hplace ▸ hq)
    refine ⟨copy, hcopy, ?_⟩
    rw [hentries, ← hname]
    exact List.mem_map_of_mem ((hmem item).2 hshown)

/-- The components of an imported entry are those of an item. -/
theorem components_of_item (hwf : host.WellFormed) {sources : List String} {source : Copy}
    (hsource : source ∈ importedSources host options sources) {place : List Name} {item : Item}
    (hshown : Shown host place item) :
    (Path.ofString (item.entry source.name).name).components = .name (nameBytes source.name) ::
      item.names.map fun own => .name (nameBytes (Utf8.lossy own)) := by
  obtain ⟨node, hat⟩ := hshown.at?
  have hproper := Node.properName_of_at? hwf hat
  exact components_foldl_entryName (slashless_of_mem_importedSources hwf hsource)
    (contained_of_mem_importedSources hwf hsource)
    fun own hown => hproper own (List.mem_append_right place hown)

/-- **A path is that of an imported entry exactly if it is a lookalike.** -/
theorem exists_same_iff_lookalike (hwf : host.WellFormed)
    (hok : firstFailure? (importsOf host options file) = none) {path : Path} :
    (∃ entry ∈ importedEntries host options file,
      (Path.ofString entry.name).same path = true) ↔ Lookalike host options file path := by
  constructor
  · rintro ⟨entry, hentry, hsame⟩
    obtain ⟨source, hsource, place, item, hfound, hshown, rfl⟩ :=
      (mem_importedEntries_iff hwf hok).1 hentry
    obtain ⟨other, hother, -, q, hq, himport⟩ := importable_of_mem_importedSources hsource
    have hplace : q = place := Except.ok.inj (hq.leads.symm.trans hfound.leads)
    refine ⟨other, hother, place, source.name, item, hplace ▸ himport, hshown, ?_⟩
    rw [← Path.same_iff.1 hsame]
    exact components_of_item hwf hsource hshown
  · rintro ⟨other, hother, place, name, item, himport, hshown, hcomponents⟩
    obtain ⟨node, hfound, hsource⟩ := mem_importedSources_of_importable hwf hok hother himport
    refine ⟨item.entry name, ?_, ?_⟩
    · exact (mem_importedEntries_iff hwf hok).2 ⟨_, hsource, place, item, hfound, hshown, rfl⟩
    · rw [Path.same_iff, hcomponents]
      exact components_of_item hwf hsource hshown

/-! ## Sources that stay -/

/-- An untouched source is not renamed. -/
theorem Untouched.renamed_eq {source : String} (h : Untouched host options source) :
    renamed host options source = source := by
  cases hname : archiveName? host options source with
  | none => rw [renamed, hname, Option.getD_none]
  | some name =>
    obtain ⟨node, hnode, -⟩ := archiveName?_eq_some_iff.1 hname
    obtain ⟨hkept, place, hfound⟩ := find_node?_iff.1 hnode
    cases h with
    | excluded h =>
      rw [hkept] at h
      cases h
    | missing h =>
      have hleads := hfound.leads
      rw [h] at hleads
      cases hleads
    | special h =>
      have hspecial : place.node = .special := by
        rw [← Except.ok.inj (h.symm.trans hfound.leads)]
      rw [hfound.node_eq] at hspecial
      rcases hfound.held with ⟨content, mode, hfile⟩ | ⟨entries, hdirectory⟩
      · cases hspecial.symm.trans hfile
      · cases hspecial.symm.trans hdirectory

theorem mem_sources_packaged {source : String} (h : source ∈ file.sources) :
    renamed host options source ∈ (packaged host options file).sources := by
  obtain ⟨copy, hcopy, rfl⟩ := List.mem_map.1 h
  rw [Dockerfile.sources, packaged, Dockerfile.copies_mapSources, List.map_map]
  exact List.mem_map.2 ⟨copy, hcopy, rfl⟩

end

/-- **An untouched source is the path of an imported entry exactly if it is a lookalike.** It stays in the
packaged script as it is written, whether or not another source has brought something under that path. -/
theorem packageBytes_lookalike_iff {host : Host} (hwf : host.WellFormed) {options : Options}
    {file : Dockerfile} {bytes : List UInt8}
    (hok : (packageBytes host options file).result = .ok bytes) {source : String}
    (hsource : source ∈ file.sources) (huntouched : Untouched host options source) :
    bytes = Tar.write (packagedEntries host options file) ∧
      source ∈ (packaged host options file).sources ∧
      ((∃ entry ∈ importedEntries host options file,
        (Path.ofString entry.name).same (.ofString source) = true) ↔
          Lookalike host options file (.ofString source)) := by
  obtain ⟨hsucceeds, hbytes⟩ := packageBytes_eq_ok_iff.1 hok
  refine ⟨hbytes, ?_, exists_same_iff_lookalike hwf hsucceeds⟩
  have hpackaged : renamed host options source ∈ (packaged host options file).sources :=
    mem_sources_packaged hsource
  rwa [huntouched.renamed_eq] at hpackaged

/-- Copies of a path and of another one that ends in it. -/
def Dockerfile.namesakeCopies : Dockerfile :=
  ⟨[⟨Kind.copy.priority, [.step (.pair .copy "a" "/p"), .step (.pair .copy "x/a" "/q")]⟩]⟩

theorem packageBytes_lookalike_iff_namesakes : Host.namesakes.WellFormed ∧
    "a" ∈ Dockerfile.namesakeCopies.sources ∧ Untouched Host.namesakes {} "a" ∧
    ∃ bytes, (packageBytes Host.namesakes {} .namesakeCopies).result = .ok bytes ∧
      bytes = Tar.write (packagedEntries Host.namesakes {} .namesakeCopies) ∧
      "a" ∈ (packaged Host.namesakes {} .namesakeCopies).sources ∧
      ((∃ entry ∈ importedEntries Host.namesakes {} .namesakeCopies,
        (Path.ofString entry.name).same (.ofString "a") = true) ↔
          Lookalike Host.namesakes {} .namesakeCopies (.ofString "a")) := by
  have hmissing : Untouched Host.namesakes {} "a" := .missing rfl
  exact ⟨by decide, .head _, hmissing, _, rfl,
    packageBytes_lookalike_iff (by decide) rfl (.head _) hmissing⟩

/-- A host with a file and a directory that holds another file of its name. -/
def Host.twofold : Host :=
  { tree := .directory [([0x61], .file [0x31] 0o644),
      ([0x78], .directory [([0x61], .file [0x32] 0o644)])]
    workdir := [] }

/-- The first file is excluded, and what is found under its path in the archive is the second one. Nothing
warns of it. -/
theorem lookalike_twofold : Host.twofold.WellFormed ∧
    let options : Options := { excluded := [.ofString "a"] }
    (∃ bytes, (packageBytes Host.twofold options .namesakeCopies).result = .ok bytes) ∧
    (∀ message ∈ (packageBytes Host.twofold options .namesakeCopies).messages,
      message.level ≠ .warn) ∧
    "a" ∈ (packaged Host.twofold options .namesakeCopies).sources ∧
    Untouched Host.twofold options "a" ∧
    (∃ way, Host.twofold.resolve (.ofString "a") = .ok ⟨.file [0x31] 0o644, way⟩) ∧
    ∃ entry ∈ importedEntries Host.twofold options .namesakeCopies,
      (Path.ofString entry.name).same (.ofString "a") = true ∧ entry.body.content = [0x32] := by
  refine ⟨by decide, ⟨_, rfl⟩, by decide, by decide, .excluded (by decide), ⟨_, rfl⟩, ?_⟩
  exact ⟨⟨"a", .file [0x32] false⟩, by decide, by decide, rfl⟩

end ImageRecipe
