import ImageRecipe.Fault
import ImageRecipe.Host.Tree

/-!
# Where paths lead

A path is walked name by name, from the root or from the working directory. Every name must be looked up
in a directory; links are followed wherever they stand, up to a fixed number on one path.

* `Host.walk` — the walk; a `Host.Lookup` says what it makes of the names it meets;
* `Host.resolve` — where a path leads;
* `Host.realLocation` — the names that lead there without links;
* `Host.outerPlace`, `Host.locateParent` — the directory, and with it the name, that a path gives to a new
  entry.

Principal facts: `walkNames_here` — a dot stays where it is; `resolve_of_refuses?` — a path that is refused
as such is not looked up.
-/

set_option autoImplicit false

namespace ImageRecipe

/-- A place in a tree: what stands there, and the way back, innermost first. -/
structure Place where
  node : Node
  way : List (Name × Node)

namespace Place

/-- The root of a tree. -/
def root (tree : Node) : Place := ⟨tree, []⟩

/-- The place of `child`, which the directory of this place holds under `name`. -/
def enter (place : Place) (name : Name) (child : Node) : Place :=
  ⟨child, (name, place.node) :: place.way⟩

/-- The directory above; the root is above itself. -/
def up (place : Place) : Place :=
  match place.way with
  | [] => place
  | (_, node) :: rest => ⟨node, rest⟩

/-- The names that lead to a place from the root. -/
def names (place : Place) : List Name := (place.way.map Prod.fst).reverse

end Place

namespace Host

/-- The most bytes of a name. -/
def maxName : Nat := 255

/-- The most bytes of a path. -/
def maxPath : Nat := 4095

/-- The most links that are followed on one path. -/
def maxLinks : Nat := 40

/-- How a walk looks names up: which it may look up at a place, which places it may go through to the
names left, and what it makes of a name that is not there. -/
structure Lookup where
  admits : Place → Name → Bool := fun _ _ => true
  enters : Place → List Name → Bool := fun _ _ => true
  absent : Place → Name → List Name → Except Fault Place := fun _ _ _ => .error .notFound

/-- Every name may be looked up, and must be there. -/
def Lookup.plain : Lookup := {}

/-- Whether the names left ask for a directory by more than going through it to a name. -/
def asksDirectory : List Name → Bool
  | [] => false
  | name :: rest =>
    if name = Path.here then rest = [] || asksDirectory rest else name = Path.above

/-- Every place is looked at by its own absolute path, which must be short enough, also with a slash after
it if the names left ask for a directory. -/
def Lookup.byOwnPath : Lookup :=
  { admits := fun place name => (Path.ofNames (place.names ++ [name])).bytes.length ≤ maxPath
    enters := fun place rest =>
      !asksDirectory rest || (Path.ofNames place.names).bytes.length < maxPath }

/-- The permission bits that a new file has at first. -/
def freshMode : Nat := 0o644

/-- The last name may be missing and stands for a new, empty file. -/
def Lookup.creating : Lookup :=
  { absent := fun place name rest =>
      if rest = [] then .ok (place.enter name (.file [] freshMode)) else .error .notFound }

/-- Walks along names from a place. `follow` says how to go on from a place with the target of a link
found there and the names left. -/
def walkNames (lookup : Lookup) (follow : Place → Path → List Name → Except Fault Place)
    (place : Place) : List Name → Except Fault Place
  | [] => .ok place
  | name :: rest =>
    match place.node with
    | .directory entries =>
      if name = Path.here then walkNames lookup follow place rest
      else if name = Path.above then walkNames lookup follow place.up rest
      else if maxName < name.length ∨ lookup.admits place name = false then .error .nameTooLong
      else match entries.lookup name with
        | none => lookup.absent place name rest
        | some (.link target) => follow place target rest
        | some child =>
          let inner := place.enter name child
          if lookup.enters inner rest then walkNames lookup follow inner rest
          else .error .nameTooLong
    | _ => .error .notDirectory

/-- Walks along names from a place of a tree, following at most `links` links. -/
def walk (lookup : Lookup) (tree : Node) : (links : Nat) → Place → List Name → Except Fault Place
  | 0 => walkNames lookup fun _ _ _ => .error .tooManyLinks
  | links + 1 => walkNames lookup fun place target rest =>
      walk lookup tree links (if target.isAbsolute then .root tree else place) (target.steps ++ rest)

/-- The names that a path goes through from the root. -/
def stepsOf (host : Host) (path : Path) : List Name :=
  if path.isAbsolute then path.steps else host.workdir ++ path.steps

/-- What keeps a path from being looked up at all. -/
def refuses? (path : Path) : Option Fault :=
  if 0 ∈ path.bytes then some .zeroByte
  else if path.bytes = [] then some .notFound
  else if maxPath < path.bytes.length then some .nameTooLong
  else none

/-- Where a walk along names from the root of a host ends. -/
def walkFromRoot (host : Host) (lookup : Lookup) (names : List Name) : Except Fault Place :=
  walk lookup host.tree maxLinks (.root host.tree) names

/-- Where a path leads if names are looked up in a given way. -/
def resolveWith (host : Host) (lookup : Lookup) (path : Path) : Except Fault Place :=
  match refuses? path with
  | some fault => .error fault
  | none => host.walkFromRoot lookup (host.stepsOf path)

/-- Where a path leads, all links followed. -/
def resolve (host : Host) (path : Path) : Except Fault Place :=
  host.resolveWith .plain path

/-- The names that lead without links to where a path leads. -/
def realLocation (host : Host) (path : Path) : Except Fault (List Name) :=
  (host.resolveWith .byOwnPath path).map Place.names

/-- The place for an entry: the names that lead to its directory, and its own name. -/
structure Spot where
  directory : List Name
  name : Name
  deriving DecidableEq, Repr

/-- The directory that a path gives to a new entry: where all but its last name leads. -/
def outerPlace (host : Host) (path : Path) : Except Fault Place :=
  match host.walkFromRoot .plain (host.stepsOf path).dropLast with
  | .error fault => .error fault
  | .ok place => if place.node.isDirectory then .ok place else .error .notDirectory

/-- The place that a path gives to a new entry, if it is free. -/
def locateParent (host : Host) (path : Path) : Except Fault Spot :=
  match refuses? path, (host.stepsOf path).getLast? with
  | some fault, _ => .error fault
  | none, none => .error .taken
  | none, some name =>
    match host.outerPlace path with
    | .error fault => .error fault
    | .ok place =>
      if name = Path.here ∨ name = Path.above then .error .taken
      else if maxName < name.length then .error .nameTooLong
      else if (place.node.child? name).isSome then .error .taken
      else .ok ⟨place.names, name⟩

theorem walkNames_here {lookup : Lookup} {follow : Place → Path → List Name → Except Fault Place}
    {place : Place} {entries : List (Name × Node)} (h : place.node = .directory entries)
    (rest : List Name) :
    walkNames lookup follow place (Path.here :: rest) = walkNames lookup follow place rest := by
  rw [walkNames, h]
  rfl

theorem resolve_of_refuses? {host : Host} {path : Path} {fault : Fault}
    (h : refuses? path = some fault) : host.resolve path = .error fault := by
  rw [resolve, resolveWith, h]

end Host

end ImageRecipe
