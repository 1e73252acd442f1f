import ImageRecipe.Proofs.Context.Completeness
import ImageRecipe.Proofs.Tar.Format
import ImageRecipe.Proofs.Text.Lossy

/-!
# The entries of an import

Whatever an import adds can be written: names carry no zero byte, because those of the host carry none, and
no name is longer than a path can make it, because every addition first looks its path up.

* `Below` — what stands at or below a node, with the path and the name it gets when the node is added;
* `Modest` — the names that sources get: without a zero byte, and no longer than a path can make them.

Principal results: `mem_addTree` — every event of adding a directory is about something below it;
`Below.name_le` — names grow with their paths; `fits_importEvents` — all entries of an import can be
written.
-/

set_option autoImplicit false

namespace ImageRecipe

/-! ## What stands below a node -/

/-- The node `d` stands at or below another one, and when that is added at a path under a name, comes at
the path `p` under the name `n`. -/
inductive Below : Path → String → Node → Path → String → Node → Prop
  | self (path : Path) (name : String) (node : Node) : Below path name node path name node
  | entry {path : Path} {name : String} {entries : List (Name × Node)} {entry : Name}
      {child : Node} {p : Path} {n : String} {d : Node} (hmem : (entry, child) ∈ entries)
      (h : Below (entryPath path entry) (entryName name entry) child p n d) :
      Below path name (.directory entries) p n d

theorem mem_addEntries {host : Host} {path : Path} {name : String} {entries : List (Name × Node)}
    {branch : Branch} (h : branch ∈ addEntries host path name entries) :
    ∃ entry child, (entry, child) ∈ entries ∧
      branch.met = meet host (entryPath path entry) (entryName name entry) child ∧
      branch.below = addTree host (entryPath path entry) (entryName name entry) child := by
  induction entries with
  | nil => cases h
  | cons first rest ih =>
    obtain ⟨entry, child⟩ := first
    rw [addEntries, List.mem_cons] at h
    rcases h with rfl | h
    · exact ⟨entry, child, List.mem_cons_self, rfl, rfl⟩
    · obtain ⟨other, node, hmem, hmet, hbelow⟩ := ih h
      exact ⟨other, node, List.mem_cons_of_mem _ hmem, hmet, hbelow⟩

/-- **Every event of adding a directory is about something below it**: a directory is added, or an entry
of one is met. -/
theorem mem_addTree {host : Host} {event : Event} (node : Node) :
    ∀ (path : Path) (name : String), event ∈ addTree host path name node →
      ∃ p n d, Below path name node p n d ∧
        (event = addDirectory host p n ∨ event ∈ meet host p n d) := by
  induction node using Node.induction_on_entries with
  | hfile _ _ | hlink _ | hspecial =>
    intro path name h
    rw [addTree_of_not_directory host path name rfl] at h
    cases h
  | hdirectory entries ih =>
    intro path name h
    rw [addTree, List.mem_cons] at h
    rcases h with rfl | h
    · exact ⟨path, name, _, .self _ _ _, .inl rfl⟩
    · rw [inNameOrder_eq_insertionSort, List.mem_append, List.mem_flatMap, List.mem_flatMap] at h
      rcases h with ⟨branch, hbranch, hevent⟩ | ⟨branch, hbranch, hevent⟩
      · obtain ⟨entry, child, hmem, hmet, -⟩ := mem_addEntries ((List.mem_insertionSort _).1 hbranch)
        exact ⟨_, _, child, .entry hmem (.self _ _ _), .inr (hmet ▸ hevent)⟩
      · obtain ⟨entry, child, hmem, -, hbelow⟩ := mem_addEntries ((List.mem_insertionSort _).1 hbranch)
        obtain ⟨p, n, d, hd, hwhat⟩ := ih entry child hmem _ _ (hbelow ▸ hevent)
        exact ⟨p, n, d, .entry hmem hd, hwhat⟩

/-! ## Names -/

/-- The UTF-8 of a name. -/
def nameBytes (name : String) : List UInt8 := Utf8.encode name.toList

theorem nameBytes_entryName (name : String) (entry : Name) :
    nameBytes (entryName name entry) =
      nameBytes name ++ Path.slash :: nameBytes (Utf8.lossy entry) := by
  have hslash : Utf8.encode "/".toList = [Path.slash] := by decide
  rw [entryName, nameBytes, String.toList_append, String.toList_append, Utf8.encode,
    List.flatMap_append, List.flatMap_append, ← Utf8.encode, ← Utf8.encode, ← Utf8.encode, hslash,
    List.append_assoc]
  rfl

namespace Below

variable {path p : Path} {name n : String} {node d : Node}

theorem every {fits : List UInt8 → Nat → Bool} {lists : List Name → Bool}
    (h : Below path name node p n d) (hnode : node.every fits lists = true) :
    d.every fits lists = true := by
  induction h with
  | self => exact hnode
  | entry hmem _ ih => exact ih ((Node.every_directory.1 hnode).2 _ hmem)

/-- **Names grow with their paths**, at most five times as fast. -/
theorem name_le (h : Below path name node p n d) (hwf : node.wellFormed = true)
    (hne : path.bytes ≠ []) :
    (nameBytes n).length + 5 * path.bytes.length ≤ (nameBytes name).length + 5 * p.bytes.length := by
  induction h with
  | self => exact Nat.le_refl _
  | @entry path name entries entry child p n d hmem _ ih =>
    obtain ⟨hlisting, hentries⟩ := Node.wellFormed_directory.1 hwf
    have hname := hlisting.proper entry (List.mem_map_of_mem hmem)
    have hlonger := Path.length_join hne hname
    have hjoin : (entryPath path entry).bytes ≠ [] := Path.join_ne_nil hne hname
    have hpos : entry.length ≠ 0 := fun hzero =>
      (Node.properName_iff.1 hname).1 (List.length_eq_zero_iff.1 hzero)
    have hstep := ih (hentries _ hmem) hjoin
    have hlossy := Utf8.length_lossy_le entry
    rw [nameBytes_entryName, List.length_append, List.length_cons] at hstep
    rw [entryPath] at hstep
    unfold nameBytes at hstep ⊢
    omega

theorem name_zero (h : Below path name node p n d) (hwf : node.wellFormed = true)
    (hzero : 0 ∉ nameBytes name) : 0 ∉ nameBytes n := by
  induction h with
  | self => exact hzero
  | @entry path name entries entry child p n d hmem _ ih =>
    obtain ⟨hlisting, hentries⟩ := Node.wellFormed_directory.1 hwf
    obtain ⟨-, -, -, -, hnul, -⟩ := Node.properName_iff.1 (hlisting.proper entry (List.mem_map_of_mem hmem))
    refine ih (hentries _ hmem) ?_
    rw [nameBytes_entryName, List.mem_append, List.mem_cons]
    rintro (h | h | h)
    · exact hzero h
    · exact absurd h (by decide)
    · exact Utf8.zero_not_mem_lossy hnul h

end Below

/-! ## Contents -/

section

variable {host : Host} {path : Path} {name : String} {limit : Nat}

/-- A file that a path leads to is one of the tree. -/
theorem content_lt (hfiles : host.tree.filesBelow limit = true) {content : List UInt8} {mode : Nat}
    {way : List (Name × Node)} (hp : host.resolve path = .ok ⟨.file content mode, way⟩) :
    content.length < limit := by
  have hat := (Host.reached_of_resolve hp).at?_names
  have hnode := Node.every_at? hfiles hat
  rw [Node.every, decide_eq_true_eq] at hnode
  exact hnode

theorem entry_addFile {content : List UInt8} {mode : Nat} {entry : Tar.Entry}
    (h : Event.entry? (addFile host path name content mode) = some entry) :
    (∃ place, host.resolve path = .ok place) ∧
      entry = ⟨name, .file content (Node.ownerMayRun mode)⟩ := by
  unfold addFile at h
  split at h
  · cases h
  · rename_i place hp
    split at h
    · cases h
      exact ⟨⟨place, hp⟩, rfl⟩
    · cases h

theorem entry_addDirectory {entry : Tar.Entry}
    (h : Event.entry? (addDirectory host path name) = some entry) :
    (∃ place, host.resolve path = .ok place) ∧ entry = ⟨name, .directory⟩ := by
  unfold addDirectory at h
  split at h
  · rename_i place hp
    cases h
    exact ⟨⟨place, hp⟩, rfl⟩
  · cases h

/-- An entry that is met adds a file under its name, which is the entry or what it leads to. -/
theorem entry_meet {node : Node} {event : Event} (hevent : event ∈ meet host path name node)
    {entry : Tar.Entry} (h : event.entry? = some entry) :
    (∃ place, host.resolve path = .ok place) ∧ ∃ content mode,
      entry = ⟨name, .file content (Node.ownerMayRun mode)⟩ ∧
      (node = .file content mode ∨ ∃ way, host.resolve path = .ok ⟨.file content mode, way⟩) := by
  cases node with
  | file content mode =>
    rw [meet, List.mem_singleton] at hevent
    obtain ⟨hp, hentry⟩ := entry_addFile (hevent ▸ h)
    exact ⟨hp, content, mode, hentry, .inl rfl⟩
  | directory _ =>
    rw [meet] at hevent
    cases hevent
  | special =>
    rw [meet, List.mem_singleton] at hevent
    subst hevent
    cases h
  | link target =>
    rw [meet] at hevent
    split at hevent
    · rename_i content mode way hp
      rw [List.mem_singleton] at hevent
      obtain ⟨-, hentry⟩ := entry_addFile (hevent ▸ h)
      exact ⟨⟨_, hp⟩, content, mode, hentry, .inr ⟨way, hp⟩⟩
    · rw [List.mem_singleton] at hevent
      subst hevent
      cases h
    · rw [List.mem_singleton] at hevent
      subst hevent
      cases h
    · split at hevent <;> rw [List.mem_singleton] at hevent <;> subst hevent <;> cases h

/-- A name that a source can get: it has no zero byte, and each of its characters comes from a byte of a
path. -/
structure Modest (name : String) : Prop where
  zero : 0 ∉ nameBytes name
  short : (nameBytes name).length ≤ 4 * Host.maxPath

theorem length_of_resolve {place : Place} (hp : host.resolve path = .ok place) :
    path.bytes ≠ [] ∧ path.bytes.length ≤ Host.maxPath :=
  (Host.refuses?_eq_none_iff.1 (Host.resolve_eq_ok_iff.1 hp).1).2

/-- Names of this length, and contents below the limit, can be written. -/
theorem fits_of_le {entry : Tar.Entry} (hlimit : limit ≤ Tar.sizeLimit)
    (hzero : 0 ∉ nameBytes entry.name) (hname : (nameBytes entry.name).length ≤ 9 * Host.maxPath)
    (hcontent : entry.body.content.length < limit) : entry.Fits where
  nameZero := hzero
  nameFits := by
    have hroom : 9 * Host.maxPath + 1 < Tar.sizeLimit := by decide
    unfold nameBytes at hname
    omega
  contentFits := Nat.lt_of_lt_of_le hcontent hlimit

/-- **All entries of adding what stands at a source can be written.** -/
theorem fits_additions (hlimit : limit ≤ Tar.sizeLimit) (hpos : 0 < limit) (hwf : host.WellFormed)
    (hfiles : host.tree.filesBelow limit = true) {node : Node} {place : Place}
    (hfound : Found host path node place) (hname : Modest name) {event : Event}
    (hevent : event ∈ additions host path name node) {entry : Tar.Entry}
    (h : event.entry? = some entry) : entry.Fits := by
  have hat := (Host.reached_of_resolve hfound.leads).at?_names
  rw [hfound.node_eq] at hat
  have hnode := Node.every_at? hfiles hat
  have hproper := Node.every_at? hwf hat
  have hne := (length_of_resolve hfound.leads).1
  rcases hfound.held with ⟨content, mode, rfl⟩ | ⟨entries, rfl⟩
  · rw [additions, List.mem_singleton] at hevent
    obtain ⟨-, rfl⟩ := entry_addFile (hevent ▸ h)
    rw [Node.every, decide_eq_true_eq] at hnode
    have hshort := hname.short
    exact fits_of_le hlimit hname.zero (by simp only; omega) hnode
  · obtain ⟨p, n, d, hbelow, hwhat⟩ := mem_addTree _ _ _ hevent
    have hzero := hbelow.name_zero hproper hname.zero
    have hle := hbelow.name_le hproper hne
    have hshort := hname.short
    rcases hwhat with rfl | hmet
    · obtain ⟨⟨q, hq⟩, rfl⟩ := entry_addDirectory h
      have hpath := (length_of_resolve hq).2
      exact fits_of_le hlimit hzero (by simp only; omega) hpos
    · obtain ⟨⟨q, hq⟩, content, mode, rfl, hcontent⟩ := entry_meet hmet h
      have hpath := (length_of_resolve hq).2
      refine fits_of_le hlimit hzero (by simp only; omega) ?_
      rcases hcontent with rfl | ⟨way, hway⟩
      · have hheld := hbelow.every hnode
        rw [Node.every, decide_eq_true_eq] at hheld
        exact hheld
      · exact content_lt hfiles hway

/-! ## Names of sources -/

/-- A part of a path that leads one step down: it is not empty and none of the special names. -/
structure Path.Downward (piece : Name) : Prop where
  not_empty : piece ≠ []
  not_here : piece ≠ Path.here
  not_above : piece ≠ Path.above

theorem downward_of_properName {name : Name} (h : Node.properName name = true) :
    Path.Downward name := by
  obtain ⟨hempty, hhere, habove, -⟩ := Node.properName_iff.1 h
  exact ⟨hempty, hhere, habove⟩

/-- The last component of a path is a part of it that leads down. -/
theorem mem_pieces_of_fileName? {name : Name} (h : path.fileName? = some name) :
    name ∈ Path.pieces path.bytes ∧ Path.Downward name := by
  have hmem := List.mem_of_getLast? (Path.fileName?_eq_some_iff.1 h)
  rcases List.mem_append.1 hmem with hleading | hpiece
  · unfold Path.leading at hleading
    split at hleading
    · simp at hleading
    · split at hleading <;> simp at hleading
  · obtain ⟨piece, hpiece, hcomponent⟩ := List.mem_filterMap.1 hpiece
    unfold Path.component? at hcomponent
    split at hcomponent
    · cases hcomponent
    rename_i hempty
    split at hcomponent
    · cases hcomponent
    rename_i hhere
    split at hcomponent
    · cases hcomponent
    · rename_i habove
      cases hcomponent
      exact ⟨hpiece, hempty, hhere, habove⟩

/-- **The name of a source shows one name of a path**, its own or that of the place it leads to. -/
theorem exists_lossy_of_baseName (hwf : host.WellFormed) {place : Place}
    (hp : host.resolve path = .ok place) (h : baseName host path = .ok (some name)) :
    ∃ own : Name, name = Utf8.lossy own ∧ Path.Downward own ∧ Path.slash ∉ own ∧ 0 ∉ own ∧
      own.length ≤ Host.maxPath := by
  have hbase := baseName_of_resolve hp h
  obtain ⟨hzero, -, hshort⟩ := Host.refuses?_eq_none_iff.1 (Host.resolve_eq_ok_iff.1 hp).1
  cases hfile : path.fileName? with
  | some own =>
    rw [hfile, Option.some_or, Option.map_some, Option.some.injEq] at hbase
    obtain ⟨hpiece, hdown⟩ := mem_pieces_of_fileName? hfile
    have hsub := Path.sublist_of_mem_pieces hpiece
    exact ⟨own, hbase, hdown, Path.slash_not_mem_of_mem_pieces hpiece,
      fun h => hzero (hsub.subset h), Nat.le_trans hsub.length_le hshort⟩
  | none =>
    rw [hfile, Option.none_or] at hbase
    obtain ⟨own, hown, hname⟩ := Option.map_eq_some_iff.1 hbase.symm
    have hproper := Node.properName_of_at? hwf (Host.reached_of_resolve hp).at?_names own
      (List.mem_of_getLast? hown)
    obtain ⟨-, -, -, hslash, hnul, hlength⟩ := Node.properName_iff.1 hproper
    exact ⟨own, hname.symm, downward_of_properName hproper, hslash, hnul,
      Nat.le_trans hlength (by decide)⟩

/-- **The name of a source has no zero byte and is no longer than a path makes it.** -/
theorem modest_baseName (hwf : host.WellFormed) {place : Place}
    (hp : host.resolve path = .ok place) (h : baseName host path = .ok (some name)) :
    Modest name := by
  obtain ⟨own, rfl, -, -, hzero, hshort⟩ := exists_lossy_of_baseName hwf hp h
  refine ⟨Utf8.zero_not_mem_lossy hzero, ?_⟩
  have hlossy := Utf8.length_lossy_le own
  unfold nameBytes
  omega

/-! ## All sources -/

theorem fits_step (hlimit : limit ≤ Tar.sizeLimit) (hpos : 0 < limit) (hwf : host.WellFormed)
    (hfiles : host.tree.filesBelow limit = true) {added later : Added} {node : Node}
    {place : Place} (hfound : Found host path node place) {events : List Event}
    (hstep : SourceStep host added path node events later) :
    ∀ entry ∈ events.filterMap Event.entry?, entry.Fits := by
  intro entry hentry
  obtain ⟨event, hevent, hadds⟩ := List.mem_filterMap.1 hentry
  cases hstep with
  | unnamable _ | nameless _ =>
    rw [List.mem_singleton] at hevent
    subst hevent
    cases hadds
  | repeated _ _ _ hremarks =>
    rw [(hremarks event hevent).1] at hadds
    cases hadds
  | added hbase hremarks =>
    rcases List.mem_append.1 hevent with hevent | hevent
    · rw [(hremarks event hevent).1] at hadds
      cases hadds
    · exact fits_additions hlimit hpos hwf hfiles hfound
        (modest_baseName hwf hfound.leads hbase) hevent hadds

theorem fits_importSources (hlimit : limit ≤ Tar.sizeLimit) (hpos : 0 < limit)
    (hwf : host.WellFormed) (hfiles : host.tree.filesBelow limit = true)
    {sources : List (Path × Node)}
    (hfound : ∀ source ∈ sources, ∃ place, Found host source.1 source.2 place) (added : Added) :
    ∀ entry ∈ (importSources host added sources).filterMap Event.entry?, entry.Fits := by
  induction sources generalizing added with
  | nil =>
    intro entry hentry
    cases hentry
  | cons first rest ih =>
    obtain ⟨path, node⟩ := first
    obtain ⟨place, hplace⟩ := hfound _ List.mem_cons_self
    intro entry hentry
    rw [importSources, List.filterMap_append, List.mem_append] at hentry
    rcases hentry with hentry | hentry
    · exact fits_step hlimit hpos hwf hfiles hplace (importSource_step added path node) entry hentry
    · exact ih (fun source hsource => hfound source (List.mem_cons_of_mem _ hsource)) _ entry hentry

/-- **All entries of an import can be written.** -/
theorem fits_importEvents (hlimit : limit ≤ Tar.sizeLimit) (hpos : 0 < limit)
    (hwf : host.WellFormed) (hfiles : host.tree.filesBelow limit = true) (options : Options)
    (sources : List String) :
    ∀ entry ∈ (importEvents host options sources).filterMap Event.entry?, entry.Fits := by
  have hfound : ∀ source ∈ foundSources host options sources,
      ∃ place, Found host source.1 source.2 place := fun _ => found_of_mem_foundSources
  intro entry hentry
  unfold importEvents at hentry
  simp only at hentry
  rw [List.filterMap_append, (remarks_sortingEvents _).adds_nothing] at hentry
  exact fits_importSources hlimit hpos hwf hfiles hfound [] entry hentry

end

/-! ## The archive -/

/-- The entries of an archive: those of the import, and last the script. -/
def packagedEntries (host : Host) (options : Options) (file : Dockerfile) : List Tar.Entry :=
  (importsOf host options file).filterMap Event.entry? ++
    [⟨"Dockerfile", .generated (Utf8.encode (packaged host options file).render.toList)⟩]

theorem fits_packagedEntries {limit : Nat} (hlimit : limit ≤ Tar.sizeLimit) (hpos : 0 < limit)
    {host : Host} (hwf : host.WellFormed) (hfiles : host.tree.filesBelow limit = true)
    {options : Options} {file : Dockerfile}
    (hscript : (Utf8.encode (packaged host options file).render.toList).length < Tar.sizeLimit) :
    ∀ entry ∈ packagedEntries host options file, entry.Fits := by
  intro entry hentry
  rcases List.mem_append.1 hentry with hentry | hentry
  · exact fits_importEvents hlimit hpos hwf hfiles options file.sources entry hentry
  · rw [List.mem_singleton] at hentry
    have hzero : 0 ∉ nameBytes scriptName := by decide
    have hname : (nameBytes scriptName).length ≤ 9 * Host.maxPath := by decide
    subst hentry
    exact fits_of_le (Nat.le_refl Tar.sizeLimit) hzero hname hscript

/-- **The archive is read back as what was added**: the entries of the import in order, and the script of
the Dockerfile that was packaged. It is a whole number of blocks, every header in it has its own checksum,
and it ends in two zero blocks. No text in memory is too long for the size of the script. -/
theorem packageBytes_decodes {host : Host} (hwf : host.WellFormed)
    (hfiles : host.tree.filesBelow (8 ^ 11) = true) {options : Options} {file : Dockerfile}
    (hscript : (Utf8.encode (packaged host options file).render.toList).length < 256 ^ 11)
    {bytes : List UInt8} (hok : (packageBytes host options file).result = .ok bytes) :
    bytes.length % 512 = 0 ∧
      Tar.Archive bytes ((packagedEntries host options file).map Tar.Entry.listing) ∧
      Tar.read? bytes = some ((packagedEntries host options file).map Tar.Entry.listing) := by
  have hfits := fits_packagedEntries (by decide) (by decide) hwf hfiles hscript
  have harchive : Tar.Archive bytes _ :=
    (packageBytes_eq_ok_iff.1 hok).2 ▸ Tar.archive_write hfits
  exact ⟨Tar.length_of_archive harchive, harchive, Tar.read?_of_archive harchive⟩

theorem packageBytes_decodes_threeCopies : Host.looped.WellFormed ∧
    Host.looped.tree.filesBelow (8 ^ 11) = true ∧
    (Utf8.encode (packaged Host.looped {} .threeCopies).render.toList).length < 256 ^ 11 ∧
    ∃ bytes, (packageBytes Host.looped {} .threeCopies).result = .ok bytes ∧
      bytes.length % 512 = 0 ∧
      Tar.Archive bytes ((packagedEntries Host.looped {} .threeCopies).map Tar.Entry.listing) ∧
      Tar.read? bytes =
        some ((packagedEntries Host.looped {} .threeCopies).map Tar.Entry.listing) :=
  ⟨by decide, by decide, by decide, _, rfl,
    packageBytes_decodes (by decide) (by decide) (by decide) rfl⟩

end ImageRecipe
