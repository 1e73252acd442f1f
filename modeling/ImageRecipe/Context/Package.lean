import ImageRecipe.Context.Import
import ImageRecipe.Dockerfile.Basic
import ImageRecipe.Host.Change

/-!
# Packaging a build context

A build context is an archive of all imported sources and, last, the script: the Dockerfile with its
imported sources renamed to what they are called in the archive. What a definition transcribes is named in
brackets.

* `packaged` (`snapshot` and what `import_sources` renames in it) — the Dockerfile that becomes the script;
* `packageBytes` (`package_to_bytes`, with `append_bytes` for the script) — the archive as bytes; the host stays as
  it is;
* `packageDisk` (`package`) — the archive as a new file of the host (`create_archive`), then its content, for which
  the script goes through a file beside it (`write_archive`); the run ends in `abandon` or in `conclude`.

On disk the archive is created before the sources are looked at, and everything that was created is taken
away again if the run fails. Names of new files carry a part that is drawn, again and again until the name is
free. A `Draw` is what was drawn last: names drawn before were taken, and a try at a name that is taken leaves
nothing behind. A draw whose name is taken was not the last one, and what a run comes to with it is of no
account.
-/

set_option autoImplicit false

namespace ImageRecipe

/-- What came of a run: its messages in order, and its result. -/
structure Report (α : Type) where
  messages : List Message
  result : Except Failure α

/-- The Dockerfile as it is packaged. -/
def packaged (host : Host) (options : Options) (file : Dockerfile) : Dockerfile :=
  file.mapSources (renamed host options)

/-- The sources of a Dockerfile in the order of its lines. -/
def Dockerfile.sources (file : Dockerfile) : List String :=
  file.copies.map Prod.fst

/-- The events of importing the sources of a Dockerfile. -/
def importsOf (host : Host) (options : Options) (file : Dockerfile) : List Event :=
  importEvents host options file.sources

/-- What the events that happen report. -/
def reported (events : List Event) : List Message :=
  (performed events).flatMap Event.messages

/-- A text as the content of a file. -/
def contentOf (text : String) : List UInt8 := Utf8.encode text.toList

/-- Packages a Dockerfile into bytes. -/
def packageBytes (host : Host) (options : Options) (file : Dockerfile) : Report (List UInt8) :=
  let events := importsOf host options file
  { messages := reported events
    result := match firstFailure? events with
      | some failure => .error failure
      | none =>
        let script := (packaged host options file).render
        .ok (Tar.write (events.filterMap Event.entry? ++ [⟨scriptName, .generated (contentOf script)⟩])) }

/-- The parts of names that are drawn for a run, each as it was drawn last. -/
structure Draw where
  archive : UInt32
  script : String
  deriving DecidableEq, Repr

/-- A build context that was written to a host. -/
structure BuildContext where
  archivePath : Path
  dockerfile : String
  scriptPath : Option Path
  deriving DecidableEq, Repr

/-- The path of a new archive. -/
def archivePath (options : Options) (directory : Path) (draw : Draw) : Path :=
  directory.join (.ofString (options.archiveStem ++ toString draw.archive ++ ".tar"))

/-- The path of a new script, which is absolute. -/
def scriptPath (host : Host) (options : Options) (directory : Path) (draw : Draw) : Path :=
  ((Path.ofNames host.workdir).join directory).join (.ofString (options.scriptStem ++ draw.script))

/-- The permission bits of a new script. -/
def scriptMode : Nat := 0o600

/-- The end of a run that fails: what it has created is taken away. -/
def abandon (host : Host) (archive : Path) (spots : List Host.Spot) (messages : List Message)
    (failure : Failure) : Report BuildContext × Host :=
  (⟨messages ++ [.contextFailed archive failure], .error failure⟩, spots.foldl Host.remove host)

/-- The end of a run that succeeds: the archive gets its content, and the script stays if it is to. -/
def conclude (host : Host) (options : Options) (archive script : Path)
    (archiveSpot scriptSpot : Host.Spot) (messages : List Message) (entries : List Tar.Entry)
    (dockerfile : String) : Report BuildContext × Host :=
  let written := host.write archiveSpot (Tar.write entries)
  if options.removeScript then
    (⟨messages ++ [.contextWritten archive], .ok ⟨archive, dockerfile, none⟩⟩,
      written.remove scriptSpot)
  else
    (⟨messages ++ [.scriptKept script, .contextWritten archive],
      .ok ⟨archive, dockerfile, some script⟩⟩, written)

/-- Packages a Dockerfile into a new file of the host. The archive is empty while the sources are imported, so
where the import meets it, an empty file is added. That is so as long as at most 8 KiB, the header of the
archive's own entry included, have been added by then, for so much is held back before it is written. An
archive that is met later than that is read while it grows by what is read, without an end, where the run here
goes on; in every run that does succeed the file added is empty. -/
def packageDisk (host : Host) (options : Options) (temporary : Path) (draw : Draw)
    (file : Dockerfile) : Report BuildContext × Host :=
  let directory := options.outputDirectory temporary
  let archive := archivePath options directory draw
  match host.create archive [] Host.freshMode with
  | .error fault => (⟨[], .error (.archiving archive fault)⟩, host)
  | .ok (started, archiveSpot) =>
    let events := importsOf started options file
    let messages := reported events
    match firstFailure? events with
    | some failure => abandon started archive [archiveSpot] messages failure
    | none =>
      let dockerfile := (packaged started options file).render
      let script := scriptPath started options directory draw
      match started.create script (contentOf dockerfile) scriptMode with
      | .error fault => abandon started archive [archiveSpot] messages (.archiving directory fault)
      | .ok (scripted, scriptSpot) =>
        let last := addFile scripted script scriptName (contentOf dockerfile) scriptMode
        match last.failure? with
        | some failure => abandon scripted archive [scriptSpot, archiveSpot] messages failure
        | none =>
          conclude scripted options archive script archiveSpot scriptSpot messages
            ((events ++ [last]).filterMap Event.entry?) dockerfile

end ImageRecipe
