import ImageRecipe.Context.Event
import ImageRecipe.Context.Options
import ImageRecipe.Host.Resolve

/-!
# Importing sources

The sources of a Dockerfile are told apart into files, directories and those that stay as written. Then
every file and after them every directory is added under its base name, a directory with all it holds. A
source that was the last one added under its name is not added again. What a definition transcribes is named
in brackets.

* `Source.find` (the first loop of `import_sources`) — what a source turns out to be;
* `baseName` (`base_name`) — the name a source gets in the archive;
* `addFile` (`append_file`) — the event of adding a file;
* `addTree` (`append_tree`) — the events of adding a directory: itself (`addDirectory`), its files (`meet`, the
  loop over its entries), then each of its directories;
* `importSource` (`import`) — the events of importing one source, unless it is the last one added under its name;
* `importEvents` (`import_sources`) — the events of importing a list of sources;
* `archiveName?` — what a source is renamed to.

Below a source links are followed to files only, so every directory is entered once and the walk ends
whatever links there are: it is defined by recursion on the tree.
-/

set_option autoImplicit false

namespace ImageRecipe

/-- The name of the script in the archive. -/
def scriptName : String := "Dockerfile"

/-- What the source of a copy turns out to be. -/
inductive Source where
  | excluded
  | unimportable
  | file (content : List UInt8) (mode : Nat)
  | directory (entries : List (Name × Node))

/-- What stands at a path, seen as a source. -/
def Source.find (host : Host) (options : Options) (path : Path) : Source :=
  if options.excludes path then .excluded
  else match host.resolve path with
    | .ok ⟨.file content mode, _⟩ => .file content mode
    | .ok ⟨.directory entries, _⟩ => .directory entries
    | _ => .unimportable

/-- The name that a source gets in the archive: its last component, or, if that is no name, the name of
the place it leads to. The root has none. -/
def baseName (host : Host) (path : Path) : Except Fault (Option String) :=
  match path.fileName? with
  | some name => .ok (some (Utf8.lossy name))
  | none => (host.realLocation path).map fun names => names.getLast?.map Utf8.lossy

/-- Adding a file of given content and permission bits that stands at a path. It is looked up by its path
and then read, and either may fail. -/
def addFile (host : Host) (path : Path) (name : String) (content : List UInt8) (mode : Nat) :
    Event :=
  match host.resolve path with
  | .error fault => .unreadableFile path name (.metadata fault path)
  | .ok _ =>
    if Node.ownerMayRead mode then .file path name content mode
    else .unreadableFile path name .denied

/-- Adding the directory that stands at a path, without what it holds. -/
def addDirectory (host : Host) (path : Path) (name : String) : Event :=
  match host.resolve path with
  | .ok _ => .directory path name
  | .error fault => .unreadableDirectory path name fault

/-- Meeting an entry of a directory that is being added. Directories are put off. -/
def meet (host : Host) (path : Path) (name : String) : Node → List Event
  | .file content mode => [addFile host path name content mode]
  | .directory _ => []
  | .special => [.special path]
  | .link _ =>
    match host.resolve path with
    | .ok ⟨.file content mode, _⟩ => [addFile host path name content mode]
    | .ok ⟨.directory _, _⟩ => [.linkedDirectory path]
    | .ok _ => [.special path]
    | .error fault => if fault = .notFound then [.danglingLink path] else [.unreadableLink path fault]

/-- What an entry of a directory that is being added comes to: the events of meeting it, and, if it is
a directory, those of adding it later. -/
structure Branch where
  name : Name
  met : List Event
  below : List Event

/-- Branches in the order of their names, with one more in its place. -/
def Branch.insert (branch : Branch) : List Branch → List Branch
  | [] => [branch]
  | first :: rest =>
    if branch.name ≤ first.name then branch :: first :: rest else first :: branch.insert rest

/-- Branches in the order of their names. -/
def inNameOrder (branches : List Branch) : List Branch :=
  branches.foldr Branch.insert []

mutual

/-- The events of adding the directory `node` that stands at `path` as `name`. -/
def addTree (host : Host) (path : Path) (name : String) : Node → List Event
  | .directory entries =>
    let branches := inNameOrder (addEntries host path name entries)
    addDirectory host path name
      :: (branches.flatMap Branch.met ++ branches.flatMap Branch.below)
  | _ => []

/-- What the entries of a directory come to, in the order it lists them. -/
def addEntries (host : Host) (path : Path) (name : String) : List (Name × Node) → List Branch
  | [] => []
  | (entry, node) :: rest =>
    let entryPath := path.join ⟨entry⟩
    let entryName := name ++ "/" ++ Utf8.lossy entry
    { name := entry
      met := meet host entryPath entryName node
      below := addTree host entryPath entryName node } :: addEntries host path name rest

end

/-- The source last added under each name. -/
abbrev Added := List (String × Path)

/-- The events of importing the source `node` at `path`, and the sources added after it. -/
def importSource (host : Host) (added : Added) (path : Path) (node : Node) : List Event × Added :=
  match baseName host path with
  | .error fault => ([.unnamable path fault], added)
  | .ok none => ([.nameless path], added)
  | .ok (some name) =>
    let shadow := if name = scriptName then [Event.shadowed path name] else []
    let additions := match node with
      | .file content mode => [addFile host path name content mode]
      | node => addTree host path name node
    match added.lookup name with
    | some earlier =>
      if earlier.same path then (shadow, added)
      else (shadow ++ .clash earlier path name :: additions, (name, path) :: added)
    | none => (shadow ++ additions, (name, path) :: added)

/-- The events of importing sources in turn. -/
def importSources (host : Host) (added : Added) : List (Path × Node) → List Event
  | [] => []
  | (path, node) :: rest =>
    let (events, added) := importSource host added path node
    events ++ importSources host added rest

/-- The events of telling the sources apart: those that stay as written are reported. -/
def sortingEvent? (path : Path) : Source → Option Event
  | .excluded => some (.excluded path)
  | .unimportable => some (.unimportable path)
  | _ => none

/-- The file that a source is. -/
def fileSource? (path : Path) : Source → Option (Path × Node)
  | .file content mode => some (path, .file content mode)
  | _ => none

/-- The directory that a source is. -/
def directorySource? (path : Path) : Source → Option (Path × Node)
  | .directory entries => some (path, .directory entries)
  | _ => none

/-- The events of importing a list of sources. -/
def importEvents (host : Host) (options : Options) (sources : List String) : List Event :=
  let found := sources.map fun source =>
    let path := Path.ofString source
    (path, Source.find host options path)
  found.filterMap (fun (path, source) => sortingEvent? path source)
    ++ importSources host []
      (found.filterMap (fun (path, source) => fileSource? path source)
        ++ found.filterMap (fun (path, source) => directorySource? path source))

/-- What a source is renamed to, if it is imported. -/
def archiveName? (host : Host) (options : Options) (source : String) : Option String :=
  let path := Path.ofString source
  match Source.find host options path with
  | .file _ _ | .directory _ =>
    match baseName host path with
    | .ok name => name
    | .error _ => none
  | _ => none

/-- What stands for a source in the archive's script: its name there, or the source as written. -/
def renamed (host : Host) (options : Options) (source : String) : String :=
  (archiveName? host options source).getD source

end ImageRecipe
