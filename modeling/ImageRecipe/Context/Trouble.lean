import ImageRecipe.Context.Package

/-!
# Packaging on a device that fails

The tree of a host settles where a path leads and where a new file can stand. Whether what is read and
written arrives is up to the device as well: a file cannot be created, an import breaks off, the script
cannot be written, added or closed, the archive cannot be ended. Whatever has been created by then is taken
away by its path.

* `Flaws` — what a device does not give though the tree holds it: contents of files, listings of directories;
* `packageBytesAmid` (`package_to_bytes`) — packaging into bytes on a device with such flaws;
* `Host.unlink` — the host without the file that a path names;
* `Trouble` — the faults of a device that a run on disk meets, at every step that it has;
* `packageDiskAmid` (`package`) — packaging into a new file of the host amid such trouble.
-/

set_option autoImplicit false

namespace ImageRecipe

/-- The faults of a device on reading the content of a file and on listing a directory, by the paths by which
an import asks for them. -/
structure Flaws where
  content : Path → Option Fault := fun _ => none
  listing : Path → Option Fault := fun _ => none

namespace Flaws

/-- What an event ends the import with on the device: a file that is added is read, and a directory that is
added is listed. -/
def failure? (flaws : Flaws) : Event → Option Failure
  | .file path _ _ _ => (flaws.content path).map (.archiving path)
  | .directory path _ => (flaws.listing path).map (.archiving path)
  | event => event.failure?

end Flaws

/-- What packaging a Dockerfile into bytes comes to on a device with flaws. -/
def packageBytesAmid (flaws : Flaws) (host : Host) (options : Options) (file : Dockerfile) :
    Except Failure (List UInt8) :=
  let events := importsOf host options file
  match events.findSome? flaws.failure? with
  | some failure => .error failure
  | none =>
    let script := (packaged host options file).render
    .ok (Tar.write (events.filterMap Event.entry? ++ [⟨scriptName, .generated (contentOf script)⟩]))

/-- The host without the entry that a path names, which is no directory. If there is none, it stays as it
is. No link is followed at the last name. -/
def Host.unlink (host : Host) (path : Path) : Host :=
  match refuses? path, (host.stepsOf path).getLast?, host.outerPlace path with
  | none, some name, .ok place =>
    match place.node.child? name with
    | none | some (.directory _) => host
    | some _ => host.remove ⟨place.names, name⟩
  | _, _, _ => host

/-- An import that breaks off: after how many events, what is reported then, and the failure. -/
structure Break where
  after : Nat
  messages : List Message
  failure : Failure

/-- The faults of a device that a run on disk meets: on creating the archive, in the middle of the import,
on creating the script, on writing it, on adding it to the archive, and on ending the archive. -/
structure Trouble where
  archive : Option Fault := none
  imports : Option Break := none
  script : Option Fault := none
  content : Option Fault := none
  entry : Option Fault := none
  ending : Option Fault := none

namespace Trouble

/-- A creation on a device that may refuse it. -/
def creating {α : Type} (fault : Option Fault) (created : Except Fault α) : Except Fault α :=
  match fault with
  | some fault => .error fault
  | none => created

/-- What an import reports, and what it fails with. A failure of its own counts if it is met before the
break. -/
def importing (trouble : Trouble) (events : List Event) : List Message × Option Failure :=
  match trouble.imports with
  | none => (reported events, firstFailure? events)
  | some stop =>
    match firstFailure? (events.take stop.after) with
    | some failure => (reported (events.take stop.after), some failure)
    | none => (reported (events.take stop.after) ++ stop.messages, some stop.failure)

/-- What a run fails with once its script is created: on writing the script, on adding it, or on ending the
archive. -/
def closing? (trouble : Trouble) (script : Path) (last : Event) : Option Failure :=
  (trouble.content.map (.archiving script)).or
    ((trouble.entry.map (.archiving script)).or
      (last.failure?.or (trouble.ending.map .transfer)))

end Trouble

/-- The end of a run that fails: the files at the paths are taken away. -/
def withdraw (host : Host) (archive : Path) (paths : List Path) (messages : List Message)
    (failure : Failure) : Report BuildContext × Host :=
  (⟨messages ++ [.contextFailed archive failure], .error failure⟩, paths.foldl Host.unlink host)

/-- The end of a run that succeeds: the archive gets its content, and the script is taken away unless it is
to stay. -/
def deliver (host : Host) (options : Options) (archive script : Path) (spot : Host.Spot)
    (messages : List Message) (entries : List Tar.Entry) (dockerfile : String) :
    Report BuildContext × Host :=
  let written := host.write spot (Tar.write entries)
  if options.removeScript then
    (⟨messages ++ [.contextWritten archive], .ok ⟨archive, dockerfile, none⟩⟩, written.unlink script)
  else
    (⟨messages ++ [.scriptKept script, .contextWritten archive],
      .ok ⟨archive, dockerfile, some script⟩⟩, written)

/-- Packages a Dockerfile into a new file of the host amid trouble. -/
def packageDiskAmid (trouble : Trouble) (host : Host) (options : Options) (temporary : Path)
    (draw : Draw) (file : Dockerfile) : Report BuildContext × Host :=
  let directory := options.outputDirectory temporary
  let archive := archivePath options directory draw
  match Trouble.creating trouble.archive (host.create archive [] Host.freshMode) with
  | .error fault => (⟨[], .error (.archiving archive fault)⟩, host)
  | .ok (started, archiveSpot) =>
    let events := importsOf started options file
    match trouble.importing events with
    | (messages, some failure) => withdraw started archive [archive] messages failure
    | (messages, none) =>
      let dockerfile := (packaged started options file).render
      let script := scriptPath started options directory draw
      match Trouble.creating trouble.script
        (started.create script (contentOf dockerfile) scriptMode) with
      | .error fault => withdraw started archive [archive] messages (.archiving directory fault)
      | .ok (scripted, _) =>
        let last := addFile scripted script scriptName (contentOf dockerfile) scriptMode
        match trouble.closing? script last with
        | some failure => withdraw scripted archive [script, archive] messages failure
        | none =>
          deliver scripted options archive script archiveSpot messages
            ((events ++ [last]).filterMap Event.entry?) dockerfile

end ImageRecipe
