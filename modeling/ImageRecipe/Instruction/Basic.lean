import ImageRecipe.Instruction.Healthcheck

/-!
# Instructions

An instruction is a step, a health check, or a trigger that waits for a later build. What may wait is
settled by the type: no trigger waits for a further build, names a base image or a maintainer, or sets the
escape character, so instructions nest at most three deep.

Principal definitions:

* `Instruction` (`Instruction`), `Trigger` (the trigger of `Onbuild`) — instructions, and those that may wait;
* `Instruction.kind` (`kind`), `Instruction.priority` (`priority`), `Instruction.render` (`fmt`) — what an
  instruction hands on from what it holds;
* `Instruction.copy?` (`filesystem_copy`), `Instruction.mapSource` (`set_key` through `filesystem_copy_mut`) — the
  source and the destination; both look at the instruction itself and never inside a trigger.
-/

set_option autoImplicit false

namespace ImageRecipe

/-- An instruction that may wait for a later build. -/
inductive Trigger where
  | step (step : Step) (allowed : step.kind ∉ Kind.onbuildForbidden)
  | healthcheck (check : Healthcheck)
  deriving DecidableEq

/-- An instruction of a recipe. -/
inductive Instruction where
  | step (step : Step)
  | healthcheck (check : Healthcheck)
  | onbuild (trigger : Trigger)
  deriving DecidableEq

/-- The instruction that waits. -/
def Trigger.instruction : Trigger → Instruction
  | step s _ => .step s
  | healthcheck check => .healthcheck check

namespace Instruction

/-- The kind of an instruction. -/
def kind : Instruction → Kind
  | step s => s.kind
  | healthcheck _ => .healthcheck
  | onbuild _ => .onbuild

/-- The priority of an instruction is that of its kind. -/
def priority (instruction : Instruction) : Nat :=
  instruction.kind.priority

end Instruction

/-- The line of the instruction that waits. -/
def Trigger.render : Trigger → String
  | step s _ => s.render
  | healthcheck check => check.render

namespace Instruction

/-- The line of an instruction, without its end. -/
def render : Instruction → String
  | step s => s.render
  | healthcheck check => check.render
  | onbuild trigger => Kind.onbuild.keyword ++ " " ++ trigger.render

/-- The source and the destination of an instruction that copies files now. -/
def copy? : Instruction → Option (String × String)
  | step s => s.copy?
  | _ => none

/-- The instruction with its source, if it copies files now, replaced by its image under `rename`. -/
def mapSource (rename : String → String) : Instruction → Instruction
  | step s => step (s.mapSource rename)
  | other => other

theorem render_instruction (trigger : Trigger) : trigger.instruction.render = trigger.render := by
  cases trigger <;> rfl

theorem copy?_isSome (instruction : Instruction) :
    instruction.copy?.isSome = instruction.kind.copiesFiles := by
  cases instruction with
  | step s => exact s.copy?_isSome
  | healthcheck _ => rfl
  | onbuild _ => rfl

theorem kind_mapSource (rename : String → String) (instruction : Instruction) :
    (instruction.mapSource rename).kind = instruction.kind := by
  cases instruction with
  | step s => exact s.kind_mapSource rename
  | healthcheck _ => rfl
  | onbuild _ => rfl

theorem copy?_mapSource (rename : String → String) (instruction : Instruction) :
    (instruction.mapSource rename).copy?
      = instruction.copy?.map (fun pair => (rename pair.1, pair.2)) := by
  cases instruction with
  | step s => exact s.copy?_mapSource rename
  | healthcheck _ => rfl
  | onbuild _ => rfl

theorem mapSource_mapSource (f g : String → String) (instruction : Instruction) :
    (instruction.mapSource g).mapSource f = instruction.mapSource (f ∘ g) := by
  cases instruction with
  | step s => exact congrArg step (s.mapSource_mapSource f g)
  | healthcheck _ => rfl
  | onbuild _ => rfl

/-- Only the image of the source counts, if there is one. -/
theorem mapSource_congr {f g : String → String} {instruction : Instruction}
    (h : ∀ pair ∈ instruction.copy?, f pair.1 = g pair.1) :
    instruction.mapSource f = instruction.mapSource g := by
  cases instruction with
  | healthcheck _ | onbuild _ => rfl
  | step s => exact congrArg step (Step.mapSource_congr h)

/-- An instruction stays as it is if its source, should it have one, is not renamed. -/
theorem mapSource_eq_self {rename : String → String} {instruction : Instruction}
    (h : ∀ pair ∈ instruction.copy?, rename pair.1 = pair.1) :
    instruction.mapSource rename = instruction := by
  cases instruction with
  | healthcheck _ | onbuild _ => rfl
  | step s => exact congrArg step (Step.mapSource_eq_self h)

theorem priority_mapSource (rename : String → String) (instruction : Instruction) :
    (instruction.mapSource rename).priority = instruction.priority :=
  congrArg Kind.priority (kind_mapSource rename instruction)

end Instruction

end ImageRecipe
