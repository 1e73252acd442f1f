import ImageRecipe.Host.Resolve

/-!
# Trees that a host can hold

Not every value of type `Node` is a tree that a host can hold: within a directory no two entries have the
same name, and a name is a non-empty string of bytes without a slash or a zero byte that is neither of the
two special names.

* `Node.every` — a property of all files and of all listings of a tree;
* `Node.wellFormed`, `Host.WellFormed` — trees, and hosts, of the kind above;
* `Node.filesBelow` — trees whose files have fewer bytes than a limit.

Principal results: `induction_on_entries` — induction on a tree, with the hypothesis for every entry of a
directory; `every_at?` — what holds throughout a tree holds throughout what stands in it.
-/

set_option autoImplicit false

namespace ImageRecipe

namespace Node

variable {fits : List UInt8 → Nat → Bool} {lists : List Name → Bool}

mutual

/-- Whether all files of a tree satisfy `fits`, and the names of each directory `lists`. -/
def every (fits : List UInt8 → Nat → Bool) (lists : List Name → Bool) : Node → Bool
  | .file content mode => fits content mode
  | .directory entries => lists (entries.map Prod.fst) && everyEntry fits lists entries
  | .link _ => true
  | .special => true

/-- Whether the same holds in the entries of a directory. -/
def everyEntry (fits : List UInt8 → Nat → Bool) (lists : List Name → Bool) :
    List (Name × Node) → Bool
  | [] => true
  | (_, node) :: rest => node.every fits lists && everyEntry fits lists rest

end

/-- Whether a directory can hold an entry of this name. -/
def properName (name : Name) : Bool :=
  name ≠ [] && name ≠ Path.here && name ≠ Path.above && !name.contains Path.slash
    && !name.contains 0 && name.length ≤ Host.maxName

/-- Whether a directory can list these names. -/
def properListing (names : List Name) : Bool :=
  decide names.Nodup && names.all properName

/-- Whether a host can hold a tree. -/
def wellFormed (node : Node) : Bool :=
  node.every (fun _ _ => true) properListing

/-- Whether all files of a tree have fewer bytes than a limit. -/
def filesBelow (limit : Nat) (node : Node) : Bool :=
  node.every (fun content _ => content.length < limit) (fun _ => true)

/-! ## Entries -/

theorem everyEntry_eq_all (entries : List (Name × Node)) :
    everyEntry fits lists entries = entries.all (fun entry => entry.2.every fits lists) := by
  induction entries with
  | nil => rfl
  | cons entry rest ih => rw [everyEntry, ih, List.all_cons]

theorem every_directory {entries : List (Name × Node)} :
    (directory entries).every fits lists = true ↔
      lists (entries.map Prod.fst) = true ∧ ∀ entry ∈ entries, entry.2.every fits lists = true := by
  rw [every, everyEntry_eq_all, Bool.and_eq_true, List.all_eq_true]

theorem mem_of_lookup {entries : List (Name × Node)} {name : Name} {node : Node}
    (h : entries.lookup name = some node) : (name, node) ∈ entries := by
  obtain ⟨before, after, heq, -⟩ := List.lookup_eq_some_iff.1 h
  rw [heq]
  simp

theorem lookup_of_mem {entries : List (Name × Node)} (hnd : (entries.map Prod.fst).Nodup)
    {name : Name} {node : Node} (h : (name, node) ∈ entries) : entries.lookup name = some node := by
  obtain ⟨before, after, rfl⟩ := List.append_of_mem h
  rw [List.map_append, List.map_cons, List.nodup_append] at hnd
  obtain ⟨-, -, hdisj⟩ := hnd
  refine List.lookup_eq_some_iff.2 ⟨before, after, rfl, fun entry hentry => ?_⟩
  have hne := hdisj entry.1 (List.mem_map_of_mem hentry) name (by simp)
  simpa using hne.symm

theorem lookup_isSome_of_mem {entries : List (Name × Node)} {name : Name}
    (h : name ∈ entries.map Prod.fst) : ∃ node, entries.lookup name = some node := by
  cases hl : entries.lookup name with
  | some node => exact ⟨node, rfl⟩
  | none =>
    obtain ⟨entry, hentry, rfl⟩ := List.mem_map.1 h
    have := List.lookup_eq_none_iff.1 hl entry hentry
    simp at this

/-- **Induction on a tree**: a directory may use the hypothesis for every entry. -/
theorem induction_on_entries {motive : Node → Prop} (hfile : ∀ content mode, motive (file content mode))
    (hlink : ∀ target, motive (link target)) (hspecial : motive special)
    (hdirectory : ∀ entries : List (Name × Node),
      (∀ name node, (name, node) ∈ entries → motive node) → motive (directory entries)) :
    ∀ node, motive node
  | .file content mode => hfile content mode
  | .link target => hlink target
  | .special => hspecial
  | .directory entries => hdirectory entries fun name node _hmem =>
      induction_on_entries hfile hlink hspecial hdirectory node
termination_by node => sizeOf node
decreasing_by
  have hlt := List.sizeOf_lt_of_mem _hmem
  simp only [Prod.mk.sizeOf_spec, Node.directory.sizeOf_spec] at hlt ⊢
  omega

/-! ## Places -/

theorem at?_nil (node : Node) : node.at? [] = some node := rfl

theorem at?_directory_cons (entries : List (Name × Node)) (name : Name) (rest : List Name) :
    (directory entries).at? (name :: rest) = (entries.lookup name).bind (·.at? rest) := rfl

theorem at?_of_not_directory {node : Node} (h : node.isDirectory = false) {place : List Name}
    (hne : place ≠ []) : node.at? place = none := by
  cases place with
  | nil => exact absurd rfl hne
  | cons name rest => cases node <;> first | rfl | cases h

/-- Nothing stands below what is no directory. -/
theorem at?_eq_some_iff {node there : Node} (h : node.isDirectory = false) {place : List Name} :
    node.at? place = some there ↔ place = [] ∧ there = node := by
  cases place with
  | nil => rw [at?_nil, Option.some.injEq, eq_comm, and_iff_right rfl]
  | cons name rest => simp [at?_of_not_directory h]

theorem at?_concat {tree : Node} {place : List Name} {entries : List (Name × Node)}
    (h : tree.at? place = some (directory entries)) (name : Name) :
    tree.at? (place ++ [name]) = entries.lookup name := by
  rw [at?_append, h, Option.bind_some, at?_directory_cons]
  cases entries.lookup name <;> rfl

theorem mem_entryLocations {entries : List (Name × Node)} {name : Name} {child : Node}
    (h : (name, child) ∈ entries) :
    ∀ rest ∈ [] :: child.locations, name :: rest ∈ entryLocations entries := by
  induction entries with
  | nil => cases h
  | cons first more ih =>
    intro rest hrest
    rw [entryLocations, List.mem_append]
    rcases List.mem_cons.1 h with rfl | h
    · refine .inl ?_
      simpa using hrest
    · exact .inr (ih h rest hrest)

/-- The names at which something stands are a location. -/
theorem mem_locations_of_at? {node child : Node} {names : List Name}
    (h : node.at? names = some child) : names ∈ [] :: node.locations := by
  induction names generalizing node with
  | nil => exact List.mem_cons_self
  | cons name rest ih =>
    cases node with
    | directory entries =>
      rw [at?_directory_cons] at h
      obtain ⟨inner, hinner, hrest⟩ := Option.bind_eq_some_iff.1 h
      rw [locations]
      exact List.mem_cons_of_mem _ (mem_entryLocations (mem_of_lookup hinner) rest (ih hrest))
    | file _ _ | link _ | special => cases h

/-- **What holds throughout a tree holds throughout what stands at one of its places.** -/
theorem every_at? {tree node : Node} (h : tree.every fits lists = true) {place : List Name}
    (hat : tree.at? place = some node) : node.every fits lists = true := by
  induction place generalizing tree with
  | nil =>
    rw [at?_nil, Option.some.injEq] at hat
    exact hat ▸ h
  | cons name rest ih =>
    cases tree with
    | directory entries =>
      rw [at?_directory_cons] at hat
      obtain ⟨child, hchild, hrest⟩ := Option.bind_eq_some_iff.1 hat
      exact ih ((every_directory.1 h).2 _ (mem_of_lookup hchild)) hrest
    | file _ _ => cases hat
    | link _ => cases hat
    | special => cases hat

end Node

/-- The tree of a host is one that a host can hold. -/
def Host.WellFormed (host : Host) : Prop := host.tree.wellFormed = true

instance (host : Host) : Decidable host.WellFormed :=
  inferInstanceAs (Decidable (host.tree.wellFormed = true))

/-- What a well-formed tree says of one of its directories. -/
structure Node.Listing (entries : List (Name × Node)) : Prop where
  distinct : (entries.map Prod.fst).Nodup
  proper : ∀ name ∈ entries.map Prod.fst, Node.properName name = true

theorem Node.wellFormed_directory {entries : List (Name × Node)} :
    (directory entries).wellFormed = true ↔
      Listing entries ∧ ∀ entry ∈ entries, entry.2.wellFormed = true := by
  rw [wellFormed, every_directory, properListing, Bool.and_eq_true, decide_eq_true_eq,
    List.all_eq_true]
  exact ⟨fun ⟨h, hentries⟩ => ⟨⟨h.1, h.2⟩, hentries⟩, fun ⟨h, hentries⟩ => ⟨⟨h.1, h.2⟩, hentries⟩⟩

/-- The conditions on a proper name, one by one. -/
theorem Node.properName_iff {name : Name} : properName name = true ↔
    name ≠ [] ∧ name ≠ Path.here ∧ name ≠ Path.above ∧ Path.slash ∉ name ∧ 0 ∉ name ∧
      name.length ≤ Host.maxName := by
  simp [properName, and_assoc]

/-- What is asked of all names of a tree holds of the names at which something stands. -/
theorem Node.forall_name_of_at? {fits : List UInt8 → Nat → Bool} {lists : List Name → Bool}
    {asked : Name → Bool} (hlists : ∀ names, lists names = true → ∀ name ∈ names, asked name = true)
    {tree node : Node} (h : tree.every fits lists = true) {place : List Name}
    (hat : tree.at? place = some node) : ∀ name ∈ place, asked name = true := by
  induction place generalizing tree with
  | nil =>
    intro name hname
    cases hname
  | cons first rest ih =>
    cases tree with
    | directory entries =>
      obtain ⟨hlisting, hentries⟩ := every_directory.1 h
      rw [at?_directory_cons] at hat
      obtain ⟨child, hchild, hrest⟩ := Option.bind_eq_some_iff.1 hat
      have hmem := mem_of_lookup hchild
      rw [List.forall_mem_cons]
      exact ⟨hlists _ hlisting first (List.mem_map_of_mem hmem), ih (hentries _ hmem) hrest⟩
    | file _ _ => cases hat
    | link _ => cases hat
    | special => cases hat

/-- The names at which something stands are proper. -/
theorem Node.properName_of_at? {tree node : Node} (h : tree.wellFormed = true) {place : List Name}
    (hat : tree.at? place = some node) : ∀ name ∈ place, properName name = true := by
  refine forall_name_of_at? (fun names hnames => ?_) h hat
  rw [properListing, Bool.and_eq_true, List.all_eq_true] at hnames
  exact hnames.2

namespace Host.WellFormed

variable {host : Host} {place : List Name} {entries : List (Name × Node)}

theorem at? (h : host.WellFormed) {node : Node} (hat : host.tree.at? place = some node) :
    node.wellFormed = true :=
  Node.every_at? h hat

theorem listing (h : host.WellFormed) (hat : host.tree.at? place = some (.directory entries)) :
    Node.Listing entries :=
  (Node.wellFormed_directory.1 (h.at? hat)).1

end Host.WellFormed

end ImageRecipe
