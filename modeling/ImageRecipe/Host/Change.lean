import ImageRecipe.Host.Resolve

/-!
# Changing a host

* `Host.create` — a new file, only where no entry of that name stands; `Host.write` — the content of a file;
  `Host.remove` — an entry taken out;
* `Host.plant`, `Host.link` — a node, or a link to a path, put at a free path;
* `Host.makeDirectory`, `Host.clearWay` — the directories of a path, or on the way to it, made as needed;
* `Host.store` — a file put where a path leads, an old file overwritten.
-/

set_option autoImplicit false

namespace ImageRecipe

namespace Host

/-- The host with a node at a free place. -/
def insert (host : Host) (spot : Spot) (node : Node) : Host :=
  { host with tree := host.tree.changeAt (· ++ [(spot.name, node)]) spot.directory }

/-- The host without the entry at a place. -/
def remove (host : Host) (spot : Spot) : Host :=
  { host with tree := host.tree.changeAt (·.filter (·.1 ≠ spot.name)) spot.directory }

/-- The host with a new file at a path, and its place. -/
def create (host : Host) (path : Path) (content : List UInt8) (mode : Nat) :
    Except Fault (Host × Spot) :=
  (host.locateParent path).map fun spot => (host.insert spot (.file content mode), spot)

/-- The host with the content of the file at a place replaced. -/
def write (host : Host) (spot : Spot) (content : List UInt8) : Host :=
  let fill : Name × Node → Name × Node
    | (name, .file old mode) => (name, .file (if name = spot.name then content else old) mode)
    | entry => entry
  { host with tree := host.tree.changeAt (·.map fill) spot.directory }

/-- The content of the file that a path leads to. -/
def read? (host : Host) (path : Path) : Option (List UInt8) :=
  match host.resolve path with
  | .ok ⟨.file content _, _⟩ => some content
  | _ => none

/-- Whether a path leads to a directory. -/
def isDirectory (host : Host) (path : Path) : Bool :=
  match host.resolve path with
  | .ok place => place.node.isDirectory
  | .error _ => false

/-- The host with a new node at a path. Only a directory is put at a path that ends in a slash. -/
def plant (host : Host) (path : Path) (node : Node) : Except Fault Host :=
  (host.locateParent path.trimmed).bind fun spot =>
    if path.endsInSlash && !node.isDirectory then .error .notFound
    else .ok (host.insert spot node)

/-- The host with directories at the first of some paths, each of which stands in the next, and at as many
of the others as that takes. The empty path asks for none. -/
def plantDirectories (host : Host) : List Path → Except Fault Host
  | [] => .ok host
  | path :: outer =>
    if path.bytes = [] then .ok host
    else match host.plant path (.directory []) with
    | .ok planted => .ok planted
    | .error fault =>
      if fault = .notFound then
        (host.plantDirectories outer).bind fun below =>
          if below.isDirectory path then .ok below else below.plant path (.directory [])
      else if host.isDirectory path then .ok host
      else .error fault

/-- The directories that a path goes through, innermost first. -/
def outerPaths (path : Path) : List Path :=
  let start : Path := ⟨if path.isAbsolute then [Path.slash] else []⟩
  let names := (path.steps.filter (· ≠ Path.here)).dropLast
  names.foldl (fun outer name => (outer.head?.getD start).join ⟨name⟩ :: outer) []

/-- The host with the directories that a path goes through, made as needed. -/
def clearWay (host : Host) (path : Path) : Except Fault Host :=
  host.plantDirectories (outerPaths path)

/-- The host with a directory at a path, and those on the way, made as needed. -/
def makeDirectory (host : Host) (path : Path) : Except Fault Host :=
  host.plantDirectories (path :: outerPaths path)

/-- The host with a link at a free path. A link needs a target that a path can have. -/
def link (host : Host) (path target : Path) : Except Fault Host :=
  match refuses? target with
  | some fault => .error fault
  | none => host.plant path (.link target)

/-- The host with a file where a path leads, which must not end in a slash. A file that is there is
overwritten if its owner may write to it; a special file takes the content and stays. -/
def store (host : Host) (path : Path) (content : List UInt8) (mode : Nat) : Except Fault Host :=
  if path.endsInSlash then
    (host.outerPlace path.trimmed).bind fun _ => .error .isDirectory
  else match host.resolveWith .creating path with
  | .error fault => .error fault
  | .ok ⟨.file _ old, (name, _) :: above⟩ =>
    if Node.ownerMayWrite old then
      .ok { host with
        tree := host.tree.changeAt (Node.putEntry name (.file content mode))
          (above.map Prod.fst).reverse }
    else .error .denied
  | .ok ⟨.directory _, _⟩ => .error .isDirectory
  | .ok _ => .ok host

end Host

end ImageRecipe
