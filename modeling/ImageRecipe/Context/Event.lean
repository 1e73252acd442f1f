import ImageRecipe.Context.Message
import ImageRecipe.Host.Tree
import ImageRecipe.Tar.Archive

/-!
# Events of an import

An import is a list of events: a source or an entry of a directory is added, passed over, or found not to
be readable. Each event has its messages, may put an entry into the archive, and may end the import.

* `Event.messages`, `Event.entry?`, `Event.failure?` — the three views of an event;
* `performed` — the events that happen, the first that fails being the last;
* `firstFailure?` — what an import fails with.

Principal result: `performed_of_firstFailure?_eq_none` — all events happen if none fails.
-/

set_option autoImplicit false

namespace ImageRecipe

/-- Something that happens during an import. -/
inductive Event where
  | excluded (source : Path)
  | unimportable (source : Path)
  | nameless (source : Path)
  | unnamable (source : Path) (fault : Fault)
  | shadowed (source : Path) (name : String)
  | clash (earlier later : Path) (name : String)
  | file (path : Path) (name : String) (content : List UInt8) (mode : Nat)
  | unreadableFile (path : Path) (name : String) (fault : Fault)
  | directory (path : Path) (name : String)
  | unreadableDirectory (path : Path) (name : String) (fault : Fault)
  | danglingLink (path : Path)
  | linkedDirectory (path : Path)
  | special (path : Path)
  | unreadableLink (path : Path) (fault : Fault)
  deriving DecidableEq, Repr

namespace Event

/-- What an event reports. An addition is announced before it is tried. -/
def messages : Event → List Message
  | excluded source => [.excluded source]
  | unimportable source => [.unimportable source]
  | nameless source => [.nameless source]
  | unnamable _ _ => []
  | shadowed source name => [.shadowed source name]
  | clash earlier later name => [.clash earlier later name]
  | file path name _ _ => [.addingFile path name]
  | unreadableFile path name _ => [.addingFile path name, .fileFailed path name]
  | directory path name => [.addingDirectory path name]
  | unreadableDirectory path name _ => [.addingDirectory path name, .directoryFailed path name]
  | danglingLink path => [.danglingLink path]
  | linkedDirectory path => [.linkedDirectory path]
  | special path => [.special path]
  | unreadableLink _ _ => []

/-- What an event puts into the archive. -/
def entry? : Event → Option Tar.Entry
  | file _ name content mode => some ⟨name, .file content (Node.ownerMayRun mode)⟩
  | directory _ name => some ⟨name, .directory⟩
  | _ => none

/-- What an event ends the import with. -/
def failure? : Event → Option Failure
  | unnamable source fault => some (.archiving source fault)
  | unreadableFile path _ fault => some (.archiving path fault)
  | unreadableDirectory path _ fault => some (.archiving path fault)
  | unreadableLink path fault => some (.archiving path fault)
  | _ => none

end Event

/-- The events that happen: all of them, or up to the first that fails. -/
def performed : List Event → List Event
  | [] => []
  | event :: rest => if event.failure?.isSome then [event] else event :: performed rest

/-- What the first failing event ends the import with. -/
def firstFailure? (events : List Event) : Option Failure :=
  events.findSome? Event.failure?

theorem performed_of_firstFailure?_eq_none {events : List Event} (h : firstFailure? events = none) :
    performed events = events := by
  induction events with
  | nil => rfl
  | cons event rest ih =>
    obtain ⟨here, later⟩ : event.failure? = none ∧ firstFailure? rest = none := by
      simpa [firstFailure?] using h
    simp [performed, here, ih later]

end ImageRecipe
