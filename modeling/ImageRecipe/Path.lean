import ImageRecipe.Text.Quoted

/-!
# Paths

A path is a byte string. It is compared by its components: repeated and trailing slashes do not count, nor
does a dot, unless a relative path begins with it; two dots are kept, for where they lead is for the host
to say.

* `Path.components`, `Path.same` — a path as a list, and equality of such lists;
* `Path.fileName?` — the last component, if it is a name;
* `Path.join` — a path seen from another.

Principal results: `pieces_append` — a slash parts what stands before it from what stands after;
`same_iff` — the comparison is equality of components.
-/

set_option autoImplicit false

namespace ImageRecipe

/-- A name of a directory entry: bytes without a slash. -/
abbrev Name := List UInt8

/-- A path, relative or absolute. -/
structure Path where
  bytes : List UInt8
  deriving DecidableEq, Repr

namespace Path

/-- The byte that parts the names of a path. -/
def slash : UInt8 := 0x2F

/-- The byte of which the special names are made. -/
def dot : UInt8 := 0x2E

/-- The name of a directory in itself. -/
def here : Name := [dot]

/-- The name of the directory above. -/
def above : Name := [dot, dot]

/-- The path that a text spells. -/
def ofString (text : String) : Path := ⟨Utf8.encode text.toList⟩

/-- A path as text, faulty bytes replaced. -/
def display (path : Path) : String := Utf8.lossy path.bytes

/-- A path as messages quote it. -/
def quoted (path : Path) : String := Quoted.quote path.bytes

/-- Whether a path starts at the root. -/
def isAbsolute (path : Path) : Bool := path.bytes.head? == some slash

/-- The stretches between slashes, empty ones included. -/
def pieces : List UInt8 → List Name
  | [] => [[]]
  | byte :: rest =>
    if byte = slash then [] :: pieces rest
    else match pieces rest with
      | [] => [[byte]]
      | first :: more => (byte :: first) :: more

/-- A component of a path. -/
inductive Component where
  | root
  | here
  | above
  | name (bytes : Name)
  deriving DecidableEq, Repr

/-- What a stretch between slashes adds to the components, after the first place. -/
def component? (piece : Name) : Option Component :=
  if piece = [] then none
  else if piece = Path.here then none
  else if piece = Path.above then some .above
  else some (.name piece)

/-- What stands before the names: the root, or a leading dot. -/
def leading (path : Path) : List Component :=
  if path.isAbsolute then [.root]
  else if (pieces path.bytes).head? = some Path.here then [.here]
  else []

/-- The components of a path. -/
def components (path : Path) : List Component :=
  path.leading ++ (pieces path.bytes).filterMap component?

/-- Whether two paths have the same components. -/
def same (a b : Path) : Bool := a.components == b.components

/-- The last component, if it is a name. -/
def fileName? (path : Path) : Option Name :=
  match path.components.getLast? with
  | some (.name bytes) => some bytes
  | _ => none

/-- The path `other` seen from `base`: an absolute path replaces the base, a relative one follows it
after a slash. -/
def join (base other : Path) : Path :=
  if other.isAbsolute then other
  else if base.bytes.getLast?.all (· = slash) then ⟨base.bytes ++ other.bytes⟩
  else ⟨base.bytes ++ slash :: other.bytes⟩

/-- Whether a path ends in a slash, by which it asks for a directory. -/
def endsInSlash (path : Path) : Bool := path.bytes.getLast? == some slash

/-- The path without the slashes at its end. -/
def trimmed (path : Path) : Path := ⟨(path.bytes.reverse.dropWhile (· = slash)).reverse⟩

/-- The names that a walk along the path goes through. A trailing slash asks for a directory, as a
trailing dot does. -/
def steps (path : Path) : List Name :=
  let names := (pieces path.bytes).filter (· ≠ [])
  if path.endsInSlash then names ++ [Path.here] else names

/-- The absolute path of a place given by the names that lead to it. -/
def ofNames (names : List Name) : Path :=
  if names = [] then ⟨[slash]⟩ else ⟨names.flatMap (slash :: ·)⟩

theorem pieces_ne_nil (bytes : List UInt8) : pieces bytes ≠ [] := by
  cases bytes with
  | nil => simp [pieces]
  | cons byte rest =>
    unfold pieces
    split
    · simp
    · split <;> simp

theorem pieces_append (a b : List UInt8) :
    pieces (a ++ slash :: b) = pieces a ++ pieces b := by
  induction a with
  | nil => simp [pieces]
  | cons byte rest ih =>
    rw [List.cons_append, pieces, pieces, ih]
    split
    · rfl
    · cases h : pieces rest with
      | nil => exact absurd h (pieces_ne_nil rest)
      | cons first more => rfl

theorem pieces_of_not_mem {bytes : List UInt8} (h : slash ∉ bytes) : pieces bytes = [bytes] := by
  induction bytes with
  | nil => rfl
  | cons byte rest ih =>
    obtain ⟨other, tail⟩ := not_or.1 (fun found => h (List.mem_cons.2 found))
    rw [pieces, if_neg (fun same => other same.symm), ih tail]

theorem same_iff {a b : Path} : a.same b = true ↔ a.components = b.components := by
  simp [same]

theorem fileName?_eq_some_iff {path : Path} {name : Name} :
    path.fileName? = some name ↔ path.components.getLast? = some (.name name) := by
  unfold fileName?
  split <;> simp_all

end Path

end ImageRecipe
