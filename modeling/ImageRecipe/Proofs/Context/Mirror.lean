import ImageRecipe.Proofs.Context.Listing
import ImageRecipe.Proofs.Host.Paths

/-!
# Mirrors of directories

What a directory of a host looks like in an archive is fixed without any walk: which entries there are, by
what stands in the tree below it, and their order, by a key.

* `Item` — an entry below a directory: the names that lead to it over directories, and what it holds;
* `Shown` — the items that a directory shows: itself, each directory below it, and each file that stands
  there or that a link there leads to;
* `Item.key` — the place of an item in the order: a directory before what it holds, files before
  directories, both in byte order of their names;
* `Mirrors` — entries that are the items of a directory, all of them, each once and in order.

Principal result: `mirrors_addTree` — adding a directory, if it succeeds, makes the mirror of it.
-/

set_option autoImplicit false

namespace ImageRecipe

/-! ## Items -/

/-- An entry below a directory: the names that lead to it, and what it holds. -/
structure Item where
  names : List Name
  body : Tar.Body
  deriving DecidableEq, Repr

namespace Item

/-- The entry of an item below a directory that is called `name` in the archive. -/
def entry (name : String) (item : Item) : Tar.Entry :=
  ⟨item.names.foldl entryName name, item.body⟩

/-- Names marked by one byte before each: the last one by `last`, those before it by one. -/
def marked (last : UInt8) : List Name → List Name
  | [] => []
  | [name] => [last :: name]
  | name :: rest => (1 :: name) :: marked last rest

/-- The names of an item, the name of a file marked so that it comes before all directories beside it. -/
def key (item : Item) : List Name :=
  marked (if item.body = .directory then 1 else 0) item.names

/-- The item seen from the directory above, which holds its own directory as `name`. -/
def under (name : Name) (item : Item) : Item := ⟨name :: item.names, item.body⟩

end Item

/-- What a directory of the host shows: itself and the directories below it, the files that stand in them,
and the files that links in them lead to. -/
inductive Shown (host : Host) (place : List Name) : Item → Prop
  | directory {names : List Name} {entries : List (Name × Node)}
      (h : host.tree.at? (place ++ names) = some (.directory entries)) :
      Shown host place ⟨names, .directory⟩
  | file {names : List Name} {content : List UInt8} {mode : Nat}
      (h : host.tree.at? (place ++ names) = some (.file content mode)) :
      Shown host place ⟨names, .file content (Node.ownerMayRun mode)⟩
  | link {names : List Name} {target : Path} {content : List UInt8} {mode : Nat}
      {way : List (Name × Node)} (h : host.tree.at? (place ++ names) = some (.link target))
      (hleads : host.walkFromRoot .plain (place ++ names) = .ok ⟨.file content mode, way⟩) :
      Shown host place ⟨names, .file content (Node.ownerMayRun mode)⟩

/-- The entries are the mirror of a directory under a name: the items it shows, each of them once, in the
order of their keys. -/
def Mirrors (host : Host) (place : List Name) (name : String) (entries : List Tar.Entry) : Prop :=
  ∃ items : List Item, entries = items.map (·.entry name) ∧
    (∀ item, item ∈ items ↔ Shown host place item) ∧ items.Pairwise (·.key < ·.key)

/-! ## Items under a name -/

namespace Item

/-- An item without names is a directory. -/
def Rooted (item : Item) : Prop := item.names = [] → item.body = .directory

/-- One more name in front is marked as that of a directory. -/
theorem marked_cons {last : UInt8} {names : List Name} (h : names = [] → last = 1) (name : Name) :
    marked last (name :: names) = (1 :: name) :: marked last names := by
  cases names with
  | nil => rw [h rfl]; rfl
  | cons first rest => rfl

theorem key_under (name : Name) {item : Item} (h : item.Rooted) :
    (item.under name).key = (1 :: name) :: item.key :=
  marked_cons (fun hnames => if_pos (h hnames)) name

theorem key_of_file {name : Name} {body : Tar.Body} (h : body ≠ .directory) :
    key ⟨[name], body⟩ = [0 :: name] := by
  rw [key, if_neg h]
  rfl

end Item

namespace Shown

variable {host : Host} {place : List Name} {item : Item}

/-- At an item stands something. -/
theorem at? (h : Shown host place item) : ∃ node, host.tree.at? (place ++ item.names) = some node := by
  cases h with
  | directory h => exact ⟨_, h⟩
  | file h => exact ⟨_, h⟩
  | link h _ => exact ⟨_, h⟩

theorem under_iff (name : Name) :
    Shown host place (item.under name) ↔ Shown host (place ++ [name]) item := by
  obtain ⟨names, body⟩ := item
  have hnames : place ++ name :: names = place ++ [name] ++ names := by simp
  constructor
  · intro h
    cases h with
    | directory h => exact .directory (hnames ▸ h)
    | file h => exact .file (hnames ▸ h)
    | link h hleads => exact .link (hnames ▸ h) (hnames ▸ hleads)
  · intro h
    cases h with
    | directory h => exact .directory (hnames ▸ h)
    | file h => exact .file (hnames ▸ h)
    | link h hleads => exact .link (hnames ▸ h) (hnames ▸ hleads)

/-- What stands under names settles what is shown there. -/
theorem entry_iff {names : List Name} {node : Node} {body : Tar.Body}
    (hat : host.tree.at? (place ++ names) = some node) :
    Shown host place ⟨names, body⟩ ↔
      (∃ entries, node = .directory entries ∧ body = .directory) ∨
      (∃ content mode, (node = .file content mode ∨ (∃ target, node = .link target) ∧
        ∃ way, host.walkFromRoot .plain (place ++ names) = .ok ⟨.file content mode, way⟩) ∧
          body = .file content (Node.ownerMayRun mode)) := by
  constructor
  · intro h
    cases h with
    | directory h =>
      rw [hat, Option.some.injEq] at h
      exact .inl ⟨_, h, rfl⟩
    | file h =>
      rw [hat, Option.some.injEq] at h
      exact .inr ⟨_, _, .inl h, rfl⟩
    | link h hleads =>
      rw [hat, Option.some.injEq] at h
      exact .inr ⟨_, _, .inr ⟨⟨_, h⟩, _, hleads⟩, rfl⟩
  · rintro (⟨entries, rfl, rfl⟩ | ⟨content, mode, rfl | ⟨⟨target, rfl⟩, way, hleads⟩, rfl⟩)
    · exact .directory hat
    · exact .file hat
    · exact .link hat hleads

/-- Below a name there is something only if a directory stands there. -/
theorem isDirectory {name : Name} {node : Node} (hat : host.tree.at? (place ++ [name]) = some node)
    {rest : List Name} {body : Tar.Body} (h : Shown host place ⟨name :: rest, body⟩)
    (hrest : rest = [] → body = .directory) : node.isDirectory = true := by
  cases rest with
  | nil =>
    rw [hrest rfl] at h
    rcases (entry_iff hat).1 h with ⟨entries, rfl, -⟩ | ⟨_, _, -, hbody⟩
    · rfl
    · cases hbody
  | cons next rest =>
    obtain ⟨below, hbelow⟩ := h.at?
    have hsplit : place ++ name :: next :: rest = place ++ [name] ++ next :: rest := by simp
    rw [hsplit, Node.at?_append, hat, Option.bind_some] at hbelow
    by_contra hnot
    rw [Node.at?_of_not_directory (Bool.not_eq_true _ ▸ hnot) (List.cons_ne_nil _ _)] at hbelow
    cases hbelow

/-- What a directory shows of itself. -/
theorem rooted (hat : ∃ entries, host.tree.at? place = some (.directory entries))
    (h : Shown host place item) : item.Rooted := by
  obtain ⟨entries, hat⟩ := hat
  intro hnames
  cases h with
  | directory _ => rfl
  | file h =>
    cases hnames
    rw [List.append_nil, hat] at h
    cases h
  | link h _ =>
    cases hnames
    rw [List.append_nil, hat] at h
    cases h

end Shown

/-! ## Additions that succeed -/

section Additions

variable {host : Host} {path : Path} {name : String}

theorem addFile_of_succeeds {content : List UInt8} {mode : Nat}
    (h : (addFile host path name content mode).failure? = none) :
    addFile host path name content mode = .file path name content mode := by
  unfold addFile at h ⊢
  split
  · rename_i hfault
    rw [hfault] at h
    cases h
  · rename_i hp
    rw [hp] at h
    simp only at h
    split
    · rfl
    · rename_i hdenied
      rw [if_neg hdenied] at h
      cases h

theorem addDirectory_of_succeeds (h : (addDirectory host path name).failure? = none) :
    addDirectory host path name = .directory path name ∧ ∃ place, host.resolve path = .ok place := by
  unfold addDirectory at h ⊢
  split
  · rename_i place hp
    exact ⟨rfl, place, hp⟩
  · rename_i hfault
    rw [hfault] at h
    cases h

end Additions

/-! ## The entries of one directory -/

section Directory

variable {host : Host} {path : Path} {place : Place} {entries : List (Name × Node)} {name : String}
  {entry : Name} {node : Node}

/-- The entries are those of the files that a directory shows under one name, of which there is at most
one. -/
def FilesAt (host : Host) (place : List Name) (name : String) (entry : Name)
    (added : List Tar.Entry) : Prop :=
  ∃ items : List Item, added = items.map (·.entry name) ∧ items.Pairwise (·.key < ·.key) ∧
    ∀ item, item ∈ items ↔
      (item.names = [entry] ∧ item.body ≠ .directory) ∧ Shown host place item

theorem filesAt_singleton {place : List Name} {content : List UInt8} {runnable : Bool}
    (h : ∀ body, Shown host place ⟨[entry], body⟩ ↔ body = .file content runnable) :
    FilesAt host place name entry [⟨entryName name entry, .file content runnable⟩] := by
  refine ⟨[⟨[entry], .file content runnable⟩], rfl, List.pairwise_singleton _ _, fun item => ?_⟩
  rw [List.mem_singleton]
  constructor
  · rintro rfl
    exact ⟨⟨rfl, Tar.Body.noConfusion⟩, (h _).2 rfl⟩
  · rintro ⟨⟨hn, -⟩, hs⟩
    obtain ⟨names, body⟩ := item
    cases hn
    rw [(h body).1 hs]

theorem filesAt_nil {place : List Name}
    (h : ∀ body, Shown host place ⟨[entry], body⟩ → body = .directory) :
    FilesAt host place name entry [] := by
  refine ⟨[], rfl, .nil, fun item => ?_⟩
  rw [List.mem_nil_iff, false_iff]
  rintro ⟨⟨hn, hb⟩, hs⟩
  obtain ⟨names, body⟩ := item
  cases hn
  exact hb (h body hs)

/-- Where a link in a directory leads, if the import gets past it. -/
theorem link_of_succeeds (hp : host.resolve path = .ok place) (hname : Node.properName entry = true)
    {target : Path} (hok : firstFailure?
      (meet host (entryPath path entry) (entryName name entry) (.link target)) = none) :
    host.walkFromRoot .plain (place.names ++ [entry]) = host.resolve (entryPath path entry) := by
  refine Host.walkFromRoot_of_resolve_join hp hname rfl (fun hlong => ?_) (fun hlinks => ?_)
  · have hr : host.resolve (entryPath path entry) = .error .nameTooLong := hlong
    rw [meet, hr] at hok
    cases hok
  · have hr : host.resolve (entryPath path entry) = .error .tooManyLinks := hlinks
    rw [meet, hr] at hok
    cases hok

/-- **Meeting an entry of a directory adds the file that is shown there**, if there is one. -/
theorem filesAt_meet (hp : host.resolve path = .ok place) (hname : Node.properName entry = true)
    (hat : host.tree.at? (place.names ++ [entry]) = some node)
    (hok : firstFailure? (meet host (entryPath path entry) (entryName name entry) node) = none) :
    FilesAt host place.names name entry
      ((meet host (entryPath path entry) (entryName name entry) node).filterMap Event.entry?) := by
  have hshown := fun body : Tar.Body => @Shown.entry_iff host place.names [entry] node body hat
  cases node with
  | file content mode =>
    rw [meet, firstFailure?_eq_none_iff] at hok
    rw [meet, addFile_of_succeeds (hok _ List.mem_cons_self)]
    apply filesAt_singleton
    intro body
    rw [hshown]
    simp
  | directory below =>
    rw [meet]
    exact filesAt_nil fun body hs => by simpa using (hshown body).1 hs
  | special =>
    rw [meet]
    exact filesAt_nil fun body hs => by simpa using (hshown body).1 hs
  | link target =>
    have hwalk := link_of_succeeds hp hname hok
    rw [meet] at hok ⊢
    cases hr : host.resolve (entryPath path entry) with
    | ok q =>
      obtain ⟨there, way⟩ := q
      rw [hr] at hok hwalk
      cases there with
      | file content mode =>
        rw [firstFailure?_eq_none_iff] at hok
        simp only [addFile_of_succeeds (hok _ List.mem_cons_self)]
        apply filesAt_singleton
        intro body
        rw [hshown, hwalk]
        simp
      | directory _ => exact filesAt_nil fun body hs => by simpa [hwalk] using (hshown body).1 hs
      | special => exact filesAt_nil fun body hs => by simpa [hwalk] using (hshown body).1 hs
      | link _ => exact filesAt_nil fun body hs => by simpa [hwalk] using (hshown body).1 hs
    | error fault =>
      rw [hr] at hok hwalk
      have hadded : (if fault = .notFound then [Event.danglingLink (entryPath path entry)]
          else [.unreadableLink (entryPath path entry) fault]).filterMap Event.entry? = [] := by
        split <;> rfl
      simp only [hadded]
      exact filesAt_nil fun body hs => by simpa [hwalk] using (hshown body).1 hs

/-- The entries are those of the directory that a name stands for, if it stands for one. -/
def DirectoryAt (host : Host) (place : List Name) (name : String) (entry : Name)
    (added : List Tar.Entry) : Prop :=
  ∃ items : List Item, added = items.map (·.entry name) ∧ items.Pairwise (·.key < ·.key) ∧
    ∀ item, item ∈ items ↔
      (∃ inner : Item, inner.Rooted ∧ item = inner.under entry) ∧ Shown host place item

theorem directoryAt_mirror {place : List Name} {added : List Tar.Entry}
    {below : List (Name × Node)} (hat : host.tree.at? (place ++ [entry]) = some (.directory below))
    (h : Mirrors host (place ++ [entry]) (entryName name entry) added) :
    DirectoryAt host place name entry added := by
  obtain ⟨items, hadded, hmem, hsorted⟩ := h
  have hrooted : ∀ item ∈ items, item.Rooted := fun item hitem =>
    ((hmem item).1 hitem).rooted ⟨below, hat⟩
  refine ⟨items.map (·.under entry), ?_, ?_, fun item => ?_⟩
  · rw [hadded, List.map_map]
    rfl
  · rw [List.pairwise_map]
    refine hsorted.imp_of_mem fun {a b} ha hb hlt => ?_
    rw [Item.key_under entry (hrooted a ha), Item.key_under entry (hrooted b hb)]
    exact List.cons_lt_cons_self.2 hlt
  · rw [List.mem_map]
    constructor
    · rintro ⟨inner, hinner, rfl⟩
      exact ⟨⟨inner, hrooted inner hinner, rfl⟩, (Shown.under_iff entry).2 ((hmem inner).1 hinner)⟩
    · rintro ⟨⟨inner, -, rfl⟩, hs⟩
      exact ⟨inner, (hmem inner).2 ((Shown.under_iff entry).1 hs), rfl⟩

theorem directoryAt_nil {place : List Name} (hat : host.tree.at? (place ++ [entry]) = some node)
    (hnode : node.isDirectory = false) : DirectoryAt host place name entry [] := by
  refine ⟨[], rfl, .nil, fun item => ?_⟩
  rw [List.mem_nil_iff, false_iff]
  rintro ⟨⟨inner, hrooted, rfl⟩, hs⟩
  have hdir := hs.isDirectory hat hrooted
  rw [hnode] at hdir
  cases hdir

/-- What is keyed as a directory, its files and its directories, name by name, ascends if each row of it
does. -/
theorem pairwise_rows {α : Type} {key : α → List Name} {names : List Name}
    (hnames : names.Pairwise (· < ·)) {root : α} (hroot : key root = [])
    {files below : Name → List α}
    (hfileKey : ∀ name ∈ names, ∀ x ∈ files name, key x = [0 :: name])
    (hfiles : ∀ name ∈ names, (files name).Pairwise (key · < key ·))
    (hbelowKey : ∀ name ∈ names, ∀ x ∈ below name, ∃ rest, key x = (1 :: name) :: rest)
    (hbelow : ∀ name ∈ names, (below name).Pairwise (key · < key ·)) :
    (root :: (names.flatMap files ++ names.flatMap below)).Pairwise (key · < key ·) := by
  rw [List.pairwise_cons, List.pairwise_append, List.pairwise_flatMap, List.pairwise_flatMap]
  refine ⟨fun x hx => ?_, ⟨hfiles, ?_⟩, ⟨hbelow, ?_⟩, ?_⟩
  · rw [hroot]
    rcases List.mem_append.1 hx with hx | hx
    · obtain ⟨name, hname, hx⟩ := List.mem_flatMap.1 hx
      rw [hfileKey name hname x hx]
      exact List.nil_lt_cons _ _
    · obtain ⟨name, hname, hx⟩ := List.mem_flatMap.1 hx
      obtain ⟨rest, hkey⟩ := hbelowKey name hname x hx
      rw [hkey]
      exact List.nil_lt_cons _ _
  · refine hnames.imp_of_mem fun {a b} ha hb hlt x hx y hy => ?_
    rw [hfileKey a ha x hx, hfileKey b hb y hy, List.cons_lt_cons_iff]
    exact .inl (List.cons_lt_cons_self.2 hlt)
  · refine hnames.imp_of_mem fun {a b} ha hb hlt x hx y hy => ?_
    obtain ⟨_, hx⟩ := hbelowKey a ha x hx
    obtain ⟨_, hy⟩ := hbelowKey b hb y hy
    rw [hx, hy, List.cons_lt_cons_iff]
    exact .inl (List.cons_lt_cons_self.2 hlt)
  · intro x hx y hy
    obtain ⟨a, ha, hx⟩ := List.mem_flatMap.1 hx
    obtain ⟨b, hb, hy⟩ := List.mem_flatMap.1 hy
    obtain ⟨_, hy⟩ := hbelowKey b hb y hy
    rw [hfileKey a ha x hx, hy, List.cons_lt_cons_iff, List.cons_lt_cons_iff]
    exact .inl (.inl (by decide))

/-- The entries of a directory itself, of the files under its names, and of the directories under them. -/
theorem mirrors_of_entries {place : List Name} (hs : Node.Listing entries)
    (hat : host.tree.at? place = some (.directory entries)) {files below : Name → List Tar.Entry}
    (hfiles : ∀ entry ∈ inByteOrder entries, FilesAt host place name entry (files entry))
    (hbelow : ∀ entry ∈ inByteOrder entries, DirectoryAt host place name entry (below entry)) :
    Mirrors host place name (⟨name, .directory⟩ ::
      ((inByteOrder entries).flatMap files ++ (inByteOrder entries).flatMap below)) := by
  choose! shownFiles hfileEntries hfileSorted hfileMem using hfiles
  choose! shownBelow hbelowEntries hbelowSorted hbelowMem using hbelow
  have hfileKey : ∀ entry ∈ inByteOrder entries, ∀ item ∈ shownFiles entry,
      item.key = [0 :: entry] := by
    intro entry hentry item hitem
    obtain ⟨⟨hnames, hbody⟩, -⟩ := (hfileMem entry hentry item).1 hitem
    obtain ⟨names, body⟩ := item
    cases hnames
    exact Item.key_of_file hbody
  have hbelowKey : ∀ entry ∈ inByteOrder entries, ∀ item ∈ shownBelow entry,
      ∃ rest, item.key = (1 :: entry) :: rest := by
    intro entry hentry item hitem
    obtain ⟨⟨inner, hrooted, rfl⟩, -⟩ := (hbelowMem entry hentry item).1 hitem
    exact ⟨_, Item.key_under entry hrooted⟩
  have hascending := inByteOrder_sorted hs.distinct
  refine ⟨⟨[], .directory⟩ :: ((inByteOrder entries).flatMap shownFiles ++
    (inByteOrder entries).flatMap shownBelow), ?_, fun item => ?_, ?_⟩
  · rw [List.map_cons, List.map_append, List.map_flatMap, List.map_flatMap,
      List.flatMap_congr hfileEntries, List.flatMap_congr hbelowEntries]
    rfl
  · rw [List.mem_cons, List.mem_append, List.mem_flatMap, List.mem_flatMap]
    constructor
    · rintro (rfl | ⟨entry, hentry, hitem⟩ | ⟨entry, hentry, hitem⟩)
      · exact .directory (by rwa [List.append_nil])
      · exact ((hfileMem entry hentry item).1 hitem).2
      · exact ((hbelowMem entry hentry item).1 hitem).2
    · intro hshown
      obtain ⟨names, body⟩ := item
      cases names with
      | nil =>
        have hbody : body = .directory := hshown.rooted ⟨entries, hat⟩ rfl
        exact .inl (hbody ▸ rfl)
      | cons entry rest =>
        obtain ⟨node, hnode⟩ := hshown.at?
        have hentry : entry ∈ inByteOrder entries := by
          rw [Node.at?_append, hat, Option.bind_some, Node.at?_directory_cons] at hnode
          obtain ⟨child, hchild, -⟩ := Option.bind_eq_some_iff.1 hnode
          exact mem_inByteOrder.2 (List.mem_map_of_mem (Node.mem_of_lookup hchild))
        -- a file under one name, or something whose first name is that of a directory
        by_cases hrooted : rest = [] → body = .directory
        · exact .inr (.inr ⟨entry, hentry, (hbelowMem entry hentry _).2
            ⟨⟨⟨rest, body⟩, hrooted, rfl⟩, hshown⟩⟩)
        · rw [Classical.not_imp] at hrooted
          obtain ⟨rfl, hbody⟩ := hrooted
          exact .inr (.inl ⟨entry, hentry, (hfileMem entry hentry _).2 ⟨⟨rfl, hbody⟩, hshown⟩⟩)
  · exact pairwise_rows hascending rfl hfileKey hfileSorted hbelowKey hbelowSorted

end Directory

/-! ## The mirror of a directory -/

/-- A directory that is added is there. -/
theorem resolve_of_addTree {host : Host} {path : Path} {name : String}
    {entries : List (Name × Node)}
    (h : firstFailure? (addTree host path name (.directory entries)) = none) :
    ∃ place, host.resolve path = .ok place := by
  rw [addTree, firstFailure?_eq_none_iff] at h
  exact (addDirectory_of_succeeds (h _ List.mem_cons_self)).2

theorem lookup_of_mem_inByteOrder {entries : List (Name × Node)} {entry : Name}
    (hentry : entry ∈ inByteOrder entries) : ∃ node, entries.lookup entry = some node :=
  Node.lookup_isSome_of_mem (mem_inByteOrder.1 hentry)

/-- **Adding a directory, if it succeeds, makes the mirror of it.** -/
theorem mirrors_addTree {host : Host} (hwf : host.WellFormed) (node : Node) :
    ∀ (path : Path) (name : String) (place : Place), host.resolve path = .ok place →
      place.node = node → node.isDirectory = true →
      firstFailure? (addTree host path name node) = none →
      Mirrors host place.names name ((addTree host path name node).filterMap Event.entry?) := by
  induction node using Node.induction_on_entries with
  | hfile _ _ => exact fun _ _ _ _ _ hdir => by cases hdir
  | hlink _ => exact fun _ _ _ _ _ hdir => by cases hdir
  | hspecial => exact fun _ _ _ _ _ hdir => by cases hdir
  | hdirectory entries ih =>
    intro path name place hp hnode _ hok
    have hreached := Host.reached_of_resolve hp
    have hat : host.tree.at? place.names = some (.directory entries) := hnode ▸ hreached.at?_names
    have hs := hwf.listing hat
    rw [addTree_directory host path name hs.distinct] at hok ⊢
    rw [← List.singleton_append, firstFailure?_append_eq_none, firstFailure?_append_eq_none,
      firstFailure?_flatMap_eq_none, firstFailure?_flatMap_eq_none, firstFailure?_eq_none_iff] at hok
    obtain ⟨hself, hmet, hbelow⟩ := hok
    rw [(addDirectory_of_succeeds (hself _ List.mem_cons_self)).1, List.filterMap_cons]
    simp only [Event.entry?, List.filterMap_append, List.filterMap_flatMap]
    refine mirrors_of_entries hs hat (fun entry hentry => ?_) (fun entry hentry => ?_)
    · obtain ⟨child, hl⟩ := lookup_of_mem_inByteOrder hentry
      have hok := hmet entry hentry
      simp only [metAt, hl] at hok ⊢
      exact filesAt_meet hp (hs.proper _ (mem_inByteOrder.1 hentry))
        (hl ▸ Node.at?_concat hat entry) hok
    · obtain ⟨child, hl⟩ := lookup_of_mem_inByteOrder hentry
      have hok := hbelow entry hentry
      simp only [belowAt, hl] at hok ⊢
      have hchild : host.tree.at? (place.names ++ [entry]) = some child :=
        hl ▸ Node.at?_concat hat entry
      cases child with
      | directory inner =>
        obtain ⟨q, hq⟩ := resolve_of_addTree hok
        have henter := Host.resolve_join_enter hp hnode (hs.proper _ (mem_inByteOrder.1 hentry)) hl
          (fun _ hlink => Node.noConfusion hlink) hq
        have hmirror := ih entry _ (Node.mem_of_lookup hl) _ _ q hq (henter ▸ rfl) rfl hok
        rw [henter, Place.names_enter] at hmirror
        exact directoryAt_mirror hchild hmirror
      | file _ _ | link _ | special =>
        rw [addTree_of_not_directory _ _ _ rfl]
        exact directoryAt_nil hchild rfl

/-- The directory itself is the first item. -/
theorem Item.head_of_sorted {items : List Item} (hmem : ⟨[], .directory⟩ ∈ items)
    (hsorted : items.Pairwise (·.key < ·.key)) : ∃ below, items = ⟨[], .directory⟩ :: below := by
  cases items with
  | nil => cases hmem
  | cons first below =>
    refine ⟨below, ?_⟩
    rcases List.mem_cons.1 hmem with rfl | hlater
    · rfl
    · have hlt := List.rel_of_pairwise_cons hsorted hlater
      exact absurd hlt (List.not_lt_nil _)

/-- Items in the order of their keys are different. -/
theorem Item.nodup_of_sorted {items : List Item} (h : items.Pairwise (·.key < ·.key)) :
    items.Nodup := by
  refine h.imp fun {x y} hlt heq => ?_
  rw [heq] at hlt
  exact List.lt_irrefl _ hlt

/-- **What is shown leaves no choice of a mirror**, wherever it is shown. -/
theorem Mirrors.eq_of_shown {host other : Host} {place there : List Name} {name : String}
    {a b : List Tar.Entry} (ha : Mirrors host place name a) (hb : Mirrors other there name b)
    (h : ∀ item, Shown host place item ↔ Shown other there item) : a = b := by
  obtain ⟨itemsA, rfl, hmemA, hsortedA⟩ := ha
  obtain ⟨itemsB, rfl, hmemB, hsortedB⟩ := hb
  have hmem : ∀ item, item ∈ itemsA ↔ item ∈ itemsB := by
    intro item
    rw [hmemA, hmemB, h]
  have hperm : itemsA.Perm itemsB := (List.perm_ext_iff_of_nodup (Item.nodup_of_sorted hsortedA)
    (Item.nodup_of_sorted hsortedB)).2 hmem
  have heq := hperm.eq_of_pairwise
    (fun x y _ _ hxy hyx => absurd hyx (List.lt_asymm hxy)) hsortedA hsortedB
  rw [heq]

/-- The tree leaves no choice of a mirror. -/
theorem Mirrors.unique {host : Host} {place : List Name} {name : String} {a b : List Tar.Entry}
    (ha : Mirrors host place name a) (hb : Mirrors host place name b) : a = b :=
  ha.eq_of_shown hb fun _ => Iff.rfl

/-- The mirror begins with the directory. -/
theorem addTree_mirror {host : Host} (hwf : host.WellFormed) {path : Path} {place : Place}
    {entries : List (Name × Node)} (hp : host.resolve path = .ok place)
    (hnode : place.node = .directory entries) {name : String}
    (hok : firstFailure? (addTree host path name (.directory entries)) = none) :
    ∃ below, (addTree host path name (.directory entries)).filterMap Event.entry? =
        ⟨name, .directory⟩ :: below ∧
      Mirrors host place.names name (⟨name, .directory⟩ :: below) := by
  have hmirror := mirrors_addTree hwf _ path name place hp hnode rfl hok
  rw [addTree, firstFailure?_eq_none_iff] at hok
  have hself := (addDirectory_of_succeeds (hok _ List.mem_cons_self)).1
  have hfirst : ∃ below, (addTree host path name (.directory entries)).filterMap Event.entry? =
      ⟨name, .directory⟩ :: below := by
    rw [addTree, hself]
    exact ⟨_, rfl⟩
  obtain ⟨below, hbelow⟩ := hfirst
  exact ⟨below, hbelow, hbelow ▸ hmirror⟩

/-- **The mirror of a directory is exact.** A directory that is added successfully gives one entry for
itself, then one for each item it shows and none for anything else, in the order of their keys. -/
theorem addTree_exact {host : Host} (hwf : host.WellFormed) {path : Path} {place : Place}
    {entries : List (Name × Node)} (hp : host.resolve path = .ok place)
    (hnode : place.node = .directory entries) {name : String}
    (hok : firstFailure? (addTree host path name (.directory entries)) = none) :
    ∃ below : List Item,
      (addTree host path name (.directory entries)).filterMap Event.entry? =
        ⟨name, .directory⟩ :: below.map (·.entry name) ∧
      (∀ item, item = ⟨[], .directory⟩ ∨ item ∈ below ↔ Shown host place.names item) ∧
      ((⟨[], .directory⟩ :: below : List Item)).Pairwise (·.key < ·.key) := by
  obtain ⟨items, hadded, hmem, hsorted⟩ := mirrors_addTree hwf _ path name place hp hnode rfl hok
  have hat : host.tree.at? (place.names ++ []) = some (.directory entries) := by
    rw [List.append_nil, ← hnode]
    exact (Host.reached_of_resolve hp).at?_names
  obtain ⟨below, rfl⟩ := Item.head_of_sorted ((hmem _).2 (.directory hat)) hsorted
  exact ⟨below, hadded, fun item => List.mem_cons.symm.trans (hmem item), hsorted⟩

/-- A host with a directory that holds a file, a link to it, a link to the directory itself, and one more
directory. -/
def Host.looped : Host :=
  { tree := .directory [([0x61], .directory [([0x62], .file [1] 0o644), ([0x63], .link ⟨[0x62]⟩),
      ([0x64], .link ⟨[0x2E, 0x2E, 0x2F, 0x61]⟩), ([0x61], .directory [])])]
    workdir := [] }

theorem addTree_exact_looped : Host.looped.WellFormed ∧ ∃ place entries,
    Host.looped.resolve ⟨[0x61]⟩ = .ok place ∧ place.node = .directory entries ∧
    firstFailure? (addTree Host.looped ⟨[0x61]⟩ "a" (.directory entries)) = none ∧
    ∃ below : List Item,
      (addTree Host.looped ⟨[0x61]⟩ "a" (.directory entries)).filterMap Event.entry? =
        ⟨"a", .directory⟩ :: below.map (·.entry "a") ∧
      (∀ item, item = ⟨[], .directory⟩ ∨ item ∈ below ↔ Shown Host.looped place.names item) ∧
      ((⟨[], .directory⟩ :: below : List Item)).Pairwise (·.key < ·.key) :=
  ⟨by decide, _, _, rfl, rfl, by decide, addTree_exact (by decide) rfl rfl (by decide)⟩

end ImageRecipe
