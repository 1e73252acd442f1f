import ImageRecipe.Proofs.Context.DiskRun
import ImageRecipe.Proofs.Context.Extraction
import ImageRecipe.Proofs.Text.Spelling

/-!
# Archives that are extracted in one pass

An archive can be extracted entry by entry below any directory: no path of it leads out of there, and when
an entry comes that stands in a directory, that directory has come before. The names of a host make sure of
the first, for none of them is empty or special, nor is one that is made a text. The order of a mirror makes
sure of the second, whatever else in the archive has the same names.

* `Contained` — paths that stay below the place where they are extracted;
* `Led` — entries of which each comes after the directory it stands in;
* `Extractable` — both;
* `Arranged` — what an archive holds, in order: files, directories with all they hold, and the script.

Principal results:

* `downward_lossy` — a name that leads down still does when it is made a text;
* `Mirrors.contained`, `Mirrors.led` — every mirror can be extracted;
* `packaging_extractable` — so can every archive, in memory or on disk.
-/

set_option autoImplicit false

namespace ImageRecipe

/-! ## Entries that can be extracted -/

/-- A path that stays below the place where it is extracted. -/
structure Contained (path : Path) : Prop where
  not_empty : path.bytes ≠ []
  relative : path.isAbsolute = false
  downward : ∀ piece ∈ Path.pieces path.bytes, Path.Downward piece
  zero : 0 ∉ path.bytes

/-- Each entry that stands in a directory comes after one for that directory. -/
def Led (entries : List Tar.Entry) : Prop :=
  ∀ before entry after, entries = before ++ entry :: after →
    ∀ parent own, entry.name = parent ++ "/" ++ own → Slashless own → ⟨parent, .directory⟩ ∈ before

/-- Entries that are extracted in one pass, without leaving the place where they are. -/
structure Extractable (entries : List Tar.Entry) : Prop where
  contained : ∀ entry ∈ entries, Contained (.ofString entry.name)
  led : Led entries

/-- The entries are those of copies of files, then those of copies of directories, and last the script. -/
def Arranged (host : Host) (options : Options) (file : Dockerfile) (entries : List Tar.Entry) : Prop :=
  ∃ (files directories : List Copy) (script : Tar.Body),
    copies host options file = files ++ directories ∧
    (∀ copy ∈ files, ∃ content mode, copy.node = .file content mode) ∧
    (∀ copy ∈ directories, ∃ held, copy.node = .directory held) ∧
    script.content = scriptContent host options file ∧
    entries = files.flatMap (Copy.entries host) ++ directories.flatMap (Copy.entries host) ++
      [⟨"Dockerfile", script⟩]

/-! ## Paths that stay below -/

/-- The pieces say it all: a path without a piece of its own is empty, and one that begins at the root has
an empty piece. -/
theorem contained_of_pieces {path : Path} (h : ∀ piece ∈ Path.pieces path.bytes, Path.Downward piece)
    (hzero : 0 ∉ path.bytes) : Contained path := by
  obtain ⟨bytes⟩ := path
  have hnil : ([] : Name) ∉ Path.pieces bytes := fun hmem => (h _ hmem).not_empty rfl
  refine ⟨?_, ?_, h, hzero⟩
  · rintro rfl
    simp [Path.pieces] at hnil
  · cases bytes with
    | nil => rfl
    | cons byte rest =>
      have hbyte : byte ≠ Path.slash := by
        rintro rfl
        simp [Path.pieces] at hnil
      simpa [Path.isAbsolute] using hbyte

/-- **A name that leads down still does when it is made a text.** -/
theorem downward_lossy {own : Name} (h : Path.Downward own) :
    Path.Downward (nameBytes (Utf8.lossy own)) := by
  have hshown : ∀ special : Name, (∀ b ∈ special, b < 0x80) →
      nameBytes (Utf8.lossy own) = special → own = special := by
    rintro special hascii rfl
    exact (Utf8.encode_lossy_of_ascii hascii).symm
  constructor
  · intro hempty
    exact h.not_empty (hshown [] (List.forall_mem_nil _) hempty)
  · intro hhere
    exact h.not_here (hshown Path.here (by simp [Path.here, Path.dot]) hhere)
  · intro habove
    exact h.not_above (hshown Path.above (by simp [Path.above, Path.dot]) habove)

theorem slash_not_mem_nameBytes {name : String} (h : Slashless name) :
    Path.slash ∉ nameBytes name := by
  intro hmem
  have hascii : Path.slash < 0x80 := by decide
  exact h (Utf8.mem_of_mem_encode hascii hmem)

/-- A name of one part stays below if that part leads down. -/
theorem contained_of_slashless {name : String} (hname : Slashless name)
    (hdown : Path.Downward (nameBytes name)) (hzero : 0 ∉ nameBytes name) :
    Contained (.ofString name) := by
  apply contained_of_pieces
  · show ∀ piece ∈ Path.pieces (nameBytes name), Path.Downward piece
    rw [Path.pieces_of_not_mem (slash_not_mem_nameBytes hname)]
    simpa using hdown
  · exact hzero

/-- A name of the host is one piece of a path, whatever it shows. -/
theorem pieces_entryName (name : String) {own : Name} (hown : Path.slash ∉ own) :
    Path.pieces (nameBytes (entryName name own)) =
      Path.pieces (nameBytes name) ++ [nameBytes (Utf8.lossy own)] := by
  rw [nameBytes_entryName, Path.pieces_append,
    Path.pieces_of_not_mem (slash_not_mem_nameBytes (slashless_lossy hown))]

/-- One more name of the host leads on below. -/
theorem Contained.entryName {name : String} (h : Contained (.ofString name)) {own : Name}
    (hown : Node.properName own = true) : Contained (.ofString (entryName name own)) := by
  obtain ⟨-, -, -, hslash, hnul, -⟩ := Node.properName_iff.1 hown
  apply contained_of_pieces
  · show ∀ piece ∈ Path.pieces (nameBytes (ImageRecipe.entryName name own)), Path.Downward piece
    rw [pieces_entryName name hslash]
    intro piece hpiece
    rcases List.mem_append.1 hpiece with hpiece | hpiece
    · exact h.downward piece hpiece
    · rw [List.mem_singleton] at hpiece
      rw [hpiece]
      exact downward_lossy (downward_of_properName hown)
  · show 0 ∉ nameBytes (ImageRecipe.entryName name own)
    rw [nameBytes_entryName, List.mem_append, List.mem_cons]
    rintro (hzero | hzero | hzero)
    · exact h.zero hzero
    · exact absurd hzero (by decide)
    · exact Utf8.zero_not_mem_lossy hnul hzero

theorem Contained.foldl_entryName {name : String} (h : Contained (.ofString name))
    {names : List Name} (hnames : ∀ own ∈ names, Node.properName own = true) :
    Contained (.ofString (names.foldl ImageRecipe.entryName name)) := by
  induction names generalizing name with
  | nil => exact h
  | cons own rest ih =>
    rw [List.forall_mem_cons] at hnames
    exact ih (h.entryName hnames.1) hnames.2

/-! ## Directories that come first -/

/-- The last slash of a path parts it in one way only. -/
theorem append_slash_inj {parent other own last : String} (hown : Slashless own)
    (hlast : Slashless last) (h : parent ++ "/" ++ own = other ++ "/" ++ last) : parent = other := by
  have hcut : ∀ front back : String, Slashless back →
      ((front ++ "/" ++ back).toList.reverse.dropWhile (· ≠ '/')) = '/' :: front.toList.reverse := by
    intro front back hback
    have hreverse : (front ++ "/" ++ back).toList.reverse =
        back.toList.reverse ++ '/' :: front.toList.reverse := by simp
    have hfree : '/' ∉ back.toList.reverse := by rwa [List.mem_reverse]
    rw [hreverse, List.dropWhile_append_of_pos (ne_slash_of_mem hfree)]
    simp
  have heq := hcut parent own hown
  rw [h, hcut other last hlast] at heq
  simpa [String.toList_inj] using heq.symm

theorem Led.append {a b : List Tar.Entry} (ha : Led a) (hb : Led b) : Led (a ++ b) := by
  intro before entry after hsplit parent own hname hown
  rcases List.append_eq_append_iff.1 hsplit with ⟨more, rfl, hrest⟩ | ⟨more, hleft, hright⟩
  · exact List.mem_append_right a (hb more entry after hrest parent own hname hown)
  · cases more with
    | nil =>
      -- the entry is the first of `b`, so nothing comes before it there
      have hfirst := hb [] entry after hright.symm parent own hname hown
      cases hfirst
    | cons first more =>
      obtain ⟨rfl, -⟩ := List.cons_eq_cons.1 hright
      exact ha before entry more hleft parent own hname hown

theorem led_flatMap {α : Type} {items : List α} {f : α → List Tar.Entry}
    (h : ∀ item ∈ items, Led (f item)) : Led (items.flatMap f) := by
  induction items with
  | nil =>
    intro before entry after hsplit
    simp at hsplit
  | cons item rest ih =>
    rw [List.forall_mem_cons] at h
    rw [List.flatMap_cons]
    exact h.1.append (ih h.2)

/-- An entry of one part stands in no directory. -/
theorem led_singleton {entry : Tar.Entry} (h : Slashless entry.name) : Led [entry] := by
  intro before other after hsplit parent own hname _
  have hmem : other ∈ [entry] := by simp [hsplit]
  rw [List.mem_singleton] at hmem
  rw [← hmem, hname] at h
  exact absurd h (by simp [Slashless])

namespace Item

theorem marked_concat (mark : UInt8) (outer : List Name) (last : Name) :
    marked mark (outer ++ [last]) = outer.map (1 :: ·) ++ [mark :: last] := by
  induction outer with
  | nil => rfl
  | cons first rest ih =>
    rw [List.map_cons, List.cons_append, List.cons_append, ← ih]
    cases rest <;> rfl

theorem key_directory (names : List Name) : key ⟨names, .directory⟩ = names.map (1 :: ·) := by
  rcases List.eq_nil_or_concat names with rfl | ⟨outer, last, rfl⟩
  · rfl
  · rw [key, if_pos rfl, List.concat_eq_append, marked_concat, List.map_append]
    rfl

/-- **A directory comes before what it holds.** -/
theorem key_directory_lt (outer : List Name) (last : Name) (body : Tar.Body) :
    key ⟨outer, .directory⟩ < key ⟨outer ++ [last], body⟩ := by
  rw [key_directory, key, marked_concat]
  have hempty : ([] : List Name) < [(if body = .directory then 1 else 0) :: last] :=
    List.nil_lt_cons _ _
  simpa using List.append_left_lt hempty

end Item

section

variable {host : Host} {place : List Name} {name : String} {entries : List Tar.Entry}

/-- What an item stands in is a directory that is shown as well. -/
theorem Shown.outer {outer : List Name} {last : Name} {body : Tar.Body}
    (h : Shown host place ⟨outer ++ [last], body⟩) : Shown host place ⟨outer, .directory⟩ := by
  obtain ⟨node, hat⟩ := h.at?
  rw [← List.append_assoc, Node.at?_append] at hat
  obtain ⟨node, hnode, hlast⟩ := Option.bind_eq_some_iff.1 hat
  cases node with
  | directory held => exact .directory hnode
  | file _ _ | link _ | special => cases hlast

/-! ## Mirrors -/

/-- **The entries of a mirror stay below its name.** -/
theorem Mirrors.contained (hwf : host.WellFormed) (h : Mirrors host place name entries)
    (hname : Contained (.ofString name)) :
    ∀ entry ∈ entries, Contained (.ofString entry.name) := by
  obtain ⟨items, rfl, hmem, -⟩ := h
  intro entry hentry
  obtain ⟨item, hitem, rfl⟩ := List.mem_map.1 hentry
  obtain ⟨node, hat⟩ := ((hmem item).1 hitem).at?
  have hproper := Node.properName_of_at? hwf hat
  exact hname.foldl_entryName fun own hown => hproper own (List.mem_append_right place hown)

/-- **Each entry of a mirror comes after the directory it stands in.** -/
theorem Mirrors.led (hwf : host.WellFormed) (h : Mirrors host place name entries)
    (hname : Slashless name) : Led entries := by
  obtain ⟨items, rfl, hmem, hsorted⟩ := h
  intro before entry after hsplit parent own hparent hown
  obtain ⟨earlier, rest, rfl, rfl, hrest⟩ := List.map_eq_append_iff.1 hsplit
  obtain ⟨item, later, rfl, rfl, -⟩ := List.map_eq_cons_iff.1 hrest
  have hshown := (hmem item).1 (by simp)
  obtain ⟨names, body⟩ := item
  rcases List.eq_nil_or_concat names with rfl | ⟨outer, last, rfl⟩
  · -- the place itself has a name of one part
    have hself : name = parent ++ "/" ++ own := hparent
    rw [hself] at hname
    exact absurd hname (by simp [Slashless])
  · rw [List.concat_eq_append] at hshown hsorted hmem hparent
    have hslash := hshown.slash_not_mem hwf last (by simp)
    have houter : outer.foldl entryName name = parent := by
      apply append_slash_inj (slashless_lossy hslash) hown
      rw [← hparent, Item.entry, List.foldl_append]
      rfl
    have hdirectory := (hmem _).2 hshown.outer
    have hlt := Item.key_directory_lt outer last body
    rw [← houter]
    refine List.mem_map.2 ⟨⟨outer, .directory⟩, ?_, rfl⟩
    rw [List.pairwise_append, List.pairwise_cons] at hsorted
    rcases List.mem_append.1 hdirectory with hearlier | hlater
    · exact hearlier
    · rcases List.mem_cons.1 hlater with heq | hlater
      · rw [heq] at hlt
        exact absurd hlt (List.lt_irrefl _)
      · exact absurd hlt (List.lt_asymm (hsorted.2.1.1 _ hlater))

/-! ## Archives -/

variable {options : Options} {file : Dockerfile}

/-- The name of a source stays below. -/
theorem contained_of_mem_importedSources (hwf : host.WellFormed) {sources : List String}
    {copy : Copy} (h : copy ∈ importedSources host options sources) :
    Contained (.ofString copy.name) := by
  obtain ⟨place, hfound⟩ := found_of_mem_importedSources h
  obtain ⟨own, hown, hdown, hslash, hzero, -⟩ :=
    exists_lossy_of_baseName hwf hfound.leads (mem_importedSources.1 h).2
  rw [hown]
  exact contained_of_slashless (slashless_lossy hslash) (downward_lossy hdown)
    (Utf8.zero_not_mem_lossy hzero)

theorem importedEntries_eq (host : Host) (options : Options) (file : Dockerfile) :
    importedEntries host options file = (copies host options file).flatMap (Copy.entries host) :=
  (makes_importEvents host options file.sources).entries_eq

/-- **What an import that succeeds adds, and after it the script, is extracted in one pass.** -/
theorem extractable_importedEntries (hwf : host.WellFormed)
    (hok : firstFailure? (importsOf host options file) = none) (script : Tar.Body) :
    Extractable (importedEntries host options file ++ [⟨scriptName, script⟩]) := by
  have hscript : Slashless scriptName := by decide
  rw [importedEntries_eq]
  constructor
  · intro entry hentry
    rcases List.mem_append.1 hentry with hentry | hentry
    · obtain ⟨copy, hcopy, hentry⟩ := List.mem_flatMap.1 hentry
      have hsource := mem_importedSources_of_mem_copies hcopy
      obtain ⟨place, hfound⟩ := found_of_mem_importedSources hsource
      exact (mirrors_of_mem_copies hwf hok hcopy hfound).contained hwf
        (contained_of_mem_importedSources hwf hsource) entry hentry
    · rw [List.mem_singleton] at hentry
      rw [hentry]
      have hdown : Path.Downward (nameBytes scriptName) := ⟨by decide, by decide, by decide⟩
      have hzero : 0 ∉ nameBytes scriptName := by decide
      exact contained_of_slashless hscript hdown hzero
  · refine Led.append (led_flatMap fun copy hcopy => ?_) (led_singleton hscript)
    have hsource := mem_importedSources_of_mem_copies hcopy
    obtain ⟨place, hfound⟩ := found_of_mem_importedSources hsource
    exact (mirrors_of_mem_copies hwf hok hcopy hfound).led hwf
      (slashless_of_mem_importedSources hwf hsource)

/-- What is ordered by a property can be parted by it. -/
theorem exists_parts_of_ordered {α : Type} {p : α → Bool} {items : List α}
    (h : items.Pairwise fun a b => p a = true → p b = true) :
    ∃ before after, items = before ++ after ∧ (∀ a ∈ before, p a = false) ∧
      ∀ b ∈ after, p b = true := by
  induction items with
  | nil => exact ⟨[], [], rfl, by simp, by simp⟩
  | cons first rest ih =>
    rw [List.pairwise_cons] at h
    cases hfirst : p first with
    | true =>
      refine ⟨[], first :: rest, rfl, by simp, ?_⟩
      exact List.forall_mem_cons.2 ⟨hfirst, fun b hb => h.1 b hb hfirst⟩
    | false =>
      obtain ⟨before, after, rfl, hbefore, hafter⟩ := ih h.2
      exact ⟨first :: before, after, rfl, List.forall_mem_cons.2 ⟨hfirst, hbefore⟩, hafter⟩

/-- **Files come before directories, and the script comes last.** -/
theorem arranged_importedEntries (host : Host) (options : Options) (file : Dockerfile)
    {script : Tar.Body} (hscript : script.content = scriptContent host options file) :
    Arranged host options file (importedEntries host options file ++ [⟨scriptName, script⟩]) := by
  have hheld : ∀ copy ∈ copies host options file,
      (∃ content mode, copy.node = .file content mode) ∨ ∃ held, copy.node = .directory held := by
    intro copy hcopy
    obtain ⟨place, hfound⟩ :=
      found_of_mem_importedSources (mem_importedSources_of_mem_copies hcopy)
    exact hfound.held
  have hordered := (importedSources_ordered host options file.sources).sublist
    (copiesAfter_sublist [] _)
  obtain ⟨files, directories, hparts, hfiles, hdirectories⟩ := exists_parts_of_ordered hordered
  have hcopies : copies host options file = files ++ directories := hparts
  rw [importedEntries_eq, hcopies, List.flatMap_append]
  refine ⟨files, directories, script, hcopies, fun copy hcopy => ?_, fun copy hcopy => ?_, hscript,
    rfl⟩
  · rcases hheld copy (hcopies ▸ List.mem_append_left _ hcopy) with hfile | ⟨held, hheld⟩
    · exact hfile
    · have hnot := hfiles copy hcopy
      rw [hheld] at hnot
      cases hnot
  · rcases hheld copy (hcopies ▸ List.mem_append_right _ hcopy) with ⟨content, mode, hheld⟩ | hheld
    · have hnot := hdirectories copy hcopy
      rw [hheld] at hnot
      cases hnot
    · exact hheld

end

/-- **Every archive is extracted in one pass.** When packaging succeeds, in memory or on disk, no path of
the archive leads out of the place where it is extracted, each entry comes after the directory it stands in,
files come before directories, and the script comes last. -/
theorem packaging_extractable {host : Host} (hwf : host.WellFormed) {options : Options}
    {file : Dockerfile} :
    (∀ bytes, (packageBytes host options file).result = .ok bytes →
      ∃ entries, bytes = Tar.write entries ∧ Arranged host options file entries ∧
        Extractable entries) ∧
    ∀ temporary draw context,
      (packageDisk host options temporary draw file).1.result = .ok context →
      ∃ started spot entries,
        host.create (archiveOf options temporary draw) [] Host.freshMode = .ok (started, spot) ∧
        (packageDisk host options temporary draw file).2.read? context.archivePath =
          some (Tar.write entries) ∧
        Arranged started options file entries ∧ Extractable entries := by
  constructor
  · intro bytes hok
    obtain ⟨hsucceeds, hbytes⟩ := packageBytes_eq_ok_iff.1 hok
    exact ⟨_, hbytes, arranged_importedEntries host options file rfl,
      extractable_importedEntries hwf hsucceeds _⟩
  · intro temporary draw context hok
    have hrun : DiskRun host options temporary draw file _ _ := diskRun
    rw [hok] at hrun
    generalize (packageDisk host options temporary draw file).2 = left at hrun ⊢
    generalize hresult : (Except.ok context : Except Failure BuildContext) = result at hrun
    cases hrun with
    | noArchive _ | importFails _ _ | noScript _ _ _ => cases hresult
    | @done started scripted spot scriptSpot hstart himport hscript =>
      cases hresult
      have hread := (read?_of_done hstart hscript options.removeScript
        (diskBytes started options file)).1
      have hstarted := (Host.created_of_create hstart).wellFormed hwf
      exact ⟨started, spot, _, hstart, hread, arranged_importedEntries started options file rfl,
        extractable_importedEntries hstarted himport _⟩

theorem packaging_extractable_rooted : Host.looped.WellFormed ∧
    (∃ bytes entries, (packageBytes Host.looped .rooted .threeCopies).result = .ok bytes ∧
      bytes = Tar.write entries ∧ Arranged Host.looped .rooted .threeCopies entries ∧
      Extractable entries) ∧
    ∃ context started spot entries,
      (packageDisk Host.looped .rooted ⟨[]⟩ .seven .threeCopies).1.result = .ok context ∧
      Host.looped.create (archiveOf .rooted ⟨[]⟩ .seven) [] Host.freshMode = .ok (started, spot) ∧
      (packageDisk Host.looped .rooted ⟨[]⟩ .seven .threeCopies).2.read? context.archivePath =
        some (Tar.write entries) ∧
      Arranged started .rooted .threeCopies entries ∧ Extractable entries := by
  have hwf : Host.looped.WellFormed := by decide
  have hdisk : (packageDisk Host.looped .rooted ⟨[]⟩ .seven .threeCopies).1.result =
      .ok ⟨.ofString "/c7.tar", "COPY [\"a\", \"/\"]\nCOPY [\"x\", \"/\"]\nCOPY [\"c\", \"/\"]\n",
        some (.ofString "/dabcdef")⟩ := by decide +kernel
  obtain ⟨inMemory, onDisk⟩ := @packaging_extractable Host.looped hwf .rooted .threeCopies
  obtain ⟨entries, hbytes⟩ := inMemory _ rfl
  obtain ⟨started, spot, kept, hkept⟩ := onDisk ⟨[]⟩ .seven _ hdisk
  exact ⟨hwf, ⟨_, entries, rfl, hbytes⟩, _, started, spot, kept, hdisk, hkept⟩

end ImageRecipe
