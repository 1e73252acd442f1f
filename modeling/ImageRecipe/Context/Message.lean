import ImageRecipe.Context.Failure

/-!
# Messages

What packaging reports while it runs. Each message has a level and one line of text, in which paths are
quoted and names of archive entries stand between apostrophes.
-/

set_option autoImplicit false

namespace ImageRecipe

/-- How much a message matters. -/
inductive Level where
  | error
  | warn
  | info
  | debug
  deriving DecidableEq, Repr

/-- The name of a level. -/
def Level.name : Level → String
  | error => "ERROR"
  | warn => "WARN"
  | info => "INFO"
  | debug => "DEBUG"

/-- Something that packaging reports. -/
inductive Message where
  | excluded (source : Path)
  | unimportable (source : Path)
  | nameless (source : Path)
  | shadowed (source : Path) (name : String)
  | clash (earlier later : Path) (name : String)
  | addingFile (path : Path) (name : String)
  | addingDirectory (path : Path) (name : String)
  | fileFailed (path : Path) (name : String)
  | directoryFailed (path : Path) (name : String)
  | danglingLink (path : Path)
  | linkedDirectory (path : Path)
  | special (path : Path)
  | scriptKept (path : Path)
  | contextWritten (path : Path)
  | contextFailed (path : Path) (failure : Failure)
  deriving DecidableEq, Repr

namespace Message

/-- The level of a message. -/
def level : Message → Level
  | shadowed _ _ | clash _ _ _ => .warn
  | fileFailed _ _ | directoryFailed _ _ | contextFailed _ _ => .error
  | contextWritten _ => .info
  | _ => .debug

/-- A name of an archive entry as messages show it. -/
def entryName (name : String) : String := "'" ++ name ++ "'"

/-- The text of a message. -/
def text : Message → String
  | excluded source => "Not importing excluded source " ++ source.quoted
  | unimportable source =>
    "Source " ++ source.quoted ++ " is neither a file nor a directory, leaving it as is"
  | nameless source => "Source " ++ source.quoted ++ " has no base name, leaving it as is"
  | shadowed source name =>
    "Source " ++ source.quoted ++ " is archived as " ++ entryName name
      ++ " and is shadowed by the generated Dockerfile"
  | clash earlier later name =>
    "Sources " ++ earlier.quoted ++ " and " ++ later.quoted ++ " are both archived as "
      ++ entryName name
  | addingFile path name => "Adding file " ++ path.quoted ++ " as " ++ entryName name
  | addingDirectory path name => "Adding directory " ++ path.quoted ++ " as " ++ entryName name
  | fileFailed path name => "Could not append file to tar: " ++ path.quoted ++ ":" ++ name
  | directoryFailed path name => "Could not append directory to tar: " ++ path.quoted ++ ":" ++ name
  | danglingLink path => "Skipping dangling symlink " ++ path.quoted
  | linkedDirectory path => "Skipping symlinked directory " ++ path.quoted
  | special path => "Skipping special file " ++ path.quoted
  | scriptKept path => "Kept temporary Dockerfile " ++ path.quoted
  | contextWritten path => "Build context written to " ++ path.quoted
  | contextFailed path failure =>
    "Failed to write build context " ++ path.quoted ++ ": " ++ failure.message

end Message

end ImageRecipe
