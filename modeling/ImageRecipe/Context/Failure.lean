import ImageRecipe.Fault
import ImageRecipe.Instruction.Blueprint

/-!
# Failures

What a caller is told when something cannot be done: a wrapper that was given what it cannot wrap, a path
that cannot be archived, or a fault of input and output.

* `Failure` (`DockerfileError`) — a failure, and `Failure.message`, how it is told;
* `Failure.cause?` — the fault behind it, if there is one.
-/

set_option autoImplicit false

namespace ImageRecipe

/-- How a wrong wrapping is told. -/
def WrapError.message (error : WrapError) : String :=
  error.wrapper.name ++ " command cannot wrap a " ++ error.wrapped.name ++ " command"

/-- Why something could not be done. -/
inductive Failure where
  | wrapping (error : WrapError)
  | archiving (path : Path) (fault : Fault)
  | transfer (fault : Fault)
  deriving DecidableEq, Repr

namespace Failure

/-- How a failure is told. -/
def message : Failure → String
  | wrapping error => error.message
  | archiving path fault => "failed to archive '" ++ path.display ++ "': " ++ fault.text
  | transfer fault => "I/O error: " ++ fault.text

/-- The fault behind a failure. -/
def cause? : Failure → Option Fault
  | wrapping _ => none
  | archiving _ fault => some fault
  | transfer fault => some fault

end Failure

end ImageRecipe
