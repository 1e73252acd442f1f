import ImageRecipe.Path

/-!
# File trees

A host holds one tree of directories, files, links and special files, and works in one of its directories.

* `Node` — a tree; the entries of a directory stand in the order it lists them;
* `Node.child?`, `Node.at?` — what stands under a name, and at the end of a list of names;
* `Node.changeAt` — a tree with the entries of one directory changed;
* `Node.locations` — every place of a tree.

Principal results: `at?_changeAt` — the change is seen at the directory changed; `at?_append` — looking up
goes name by name.
-/

set_option autoImplicit false

namespace ImageRecipe

/-- A file tree. A file has permission bits beside its content; a special file is neither read nor
entered. -/
inductive Node where
  | file (content : List UInt8) (mode : Nat)
  | directory (entries : List (Name × Node))
  | link (target : Path)
  | special

namespace Node

/-- Whether the owner may run a file of these permission bits. -/
def ownerMayRun (mode : Nat) : Bool := mode / 0o100 % 2 = 1

/-- Whether the owner may write to a file of these permission bits. -/
def ownerMayWrite (mode : Nat) : Bool := mode / 0o200 % 2 = 1

/-- Whether the owner may read a file of these permission bits. -/
def ownerMayRead (mode : Nat) : Bool := mode / 0o400 % 2 = 1

/-- Whether a node is a directory. -/
def isDirectory : Node → Bool
  | directory _ => true
  | _ => false

/-- The entries of a directory, none for anything else. -/
def entries : Node → List (Name × Node)
  | directory entries => entries
  | _ => []

/-- What a directory holds under a name. -/
def child? (node : Node) (name : Name) : Option Node :=
  node.entries.lookup name

/-- What stands at the end of a list of names; no link is followed. -/
def at? (node : Node) : List Name → Option Node
  | [] => some node
  | name :: rest => (node.child? name).bind (·.at? rest)

/-- The entries with what stands under a name changed. -/
def changeEntry (name : Name) (change : Node → Node) : List (Name × Node) → List (Name × Node)
  | [] => []
  | (other, node) :: rest =>
    if name = other then (other, change node) :: rest
    else (other, node) :: changeEntry name change rest

/-- The entries with a node under a name, in the place of what stood there, or last. -/
def putEntry (name : Name) (node : Node) (entries : List (Name × Node)) : List (Name × Node) :=
  if (entries.lookup name).isSome then changeEntry name (fun _ => node) entries
  else entries ++ [(name, node)]

/-- The tree with the entries of the directory at the end of a list of names changed. -/
def changeAt (change : List (Name × Node) → List (Name × Node)) : List Name → Node → Node
  | [], directory entries => directory (change entries)
  | name :: rest, directory entries =>
    directory (changeEntry name (changeAt change rest) entries)
  | _, node => node

mutual

/-- The places below a node, as lists of names, each directory before what it holds. -/
def locations : Node → List (List Name)
  | directory entries => entryLocations entries
  | _ => []

/-- The places of the entries of a directory and below them. -/
def entryLocations : List (Name × Node) → List (List Name)
  | [] => []
  | (name, node) :: rest =>
    ([name] :: node.locations.map (name :: ·)) ++ entryLocations rest

end

theorem at?_append (node : Node) (a b : List Name) :
    node.at? (a ++ b) = (node.at? a).bind (·.at? b) := by
  induction a generalizing node with
  | nil => rfl
  | cons name rest ih =>
    simp only [List.cons_append, at?]
    cases node.child? name with
    | none => rfl
    | some child => exact ih child

theorem lookup_changeEntry (name : Name) (change : Node → Node) (entries : List (Name × Node)) :
    (changeEntry name change entries).lookup name = (entries.lookup name).map change := by
  induction entries with
  | nil => rfl
  | cons entry rest ih =>
    obtain ⟨other, node⟩ := entry
    by_cases same : name = other
    · simp [changeEntry, same]
    · have differ : (name == other) = false := by simpa using same
      simp [changeEntry, same, List.lookup_cons, differ, ih]

theorem at?_changeAt {change : List (Name × Node) → List (Name × Node)} {place : List Name}
    {node : Node} {entries : List (Name × Node)} (h : node.at? place = some (directory entries)) :
    (changeAt change place node).at? place = some (directory (change entries)) := by
  induction place generalizing node with
  | nil =>
    cases h
    rfl
  | cons name rest ih =>
    cases node with
    | directory held =>
      simp only [at?, child?, Node.entries, changeAt] at h ⊢
      rw [lookup_changeEntry]
      obtain ⟨child, found, below⟩ := Option.bind_eq_some_iff.1 h
      rw [found]
      exact ih below
    | file _ _ => simp [at?, child?, Node.entries] at h
    | link _ => simp [at?, child?, Node.entries] at h
    | special => simp [at?, child?, Node.entries] at h

end Node

/-- A machine that holds files: its tree, and the names that lead to the directory it works in. -/
structure Host where
  tree : Node
  workdir : List Name

end ImageRecipe
