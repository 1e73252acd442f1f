import ImageRecipe.Instruction.Basic

/-!
# Editing an instruction

The payload of an instruction can be changed in place; its kind, and what it wraps, cannot. Each edit
applies to the instructions whose payload has the part it changes.

* `Edit` — a change as data: of a key or a value (`set_key`, `set_value`), of a command (`set_command`), of words,
  or of a setting of a health check;
* `Step.edit?`, `Instruction.edit?` — its effect.

Principal result: `kind_edit?` — no edit changes the kind.
-/

set_option autoImplicit false

namespace ImageRecipe

/-- A change to the payload of an instruction. -/
inductive Edit where
  | key (value : String)
  | value (value : String)
  | clearValue
  | command (value : String)
  | words (change : ValueList.Edit)
  | setting (value : Healthcheck.Setting)
  deriving DecidableEq, Repr

/-- The step after a change, if its payload has the part changed. -/
def Step.edit? : Step → Edit → Option Step
  | .text role _, .value value => some (.text role value)
  | .exec role form, .command value => some (.exec role { form with command := value })
  | .exec role form, .words change =>
    some (.exec role { form with arguments := form.arguments.edit change })
  | .pair role _ value, .key key => some (.pair role key value)
  | .pair role key _, .value value => some (.pair role key value)
  | .named role _ value, .key name => some (.named role name value)
  | .named role name _, .value value => some (.named role name (some value))
  | .named role name _, .clearValue => some (.named role name none)
  | .list role values, .words change => some (.list role (values.edit change))
  | _, _ => none

namespace Instruction

/-- The instruction after a change, if its payload has the part changed. -/
def edit? : Instruction → Edit → Option Instruction
  | step s, change => (s.edit? change).map step
  | healthcheck check, .setting value => some (.healthcheck (check.set value))
  | _, _ => none

/-- The words of a payload that are edited by value. -/
def words? : Instruction → Option ValueList
  | step (.exec _ form) => some form.arguments
  | step (.list _ values) => some values
  | _ => none

end Instruction

theorem Step.kind_edit? {step next : Step} {change : Edit} (h : step.edit? change = some next) :
    next.kind = step.kind := by
  unfold Step.edit? at h
  split at h <;> cases h <;> rfl

namespace Instruction

theorem kind_edit? {instruction next : Instruction} {change : Edit}
    (h : instruction.edit? change = some next) : next.kind = instruction.kind := by
  unfold edit? at h
  split at h
  · obtain ⟨s, hs, rfl⟩ := Option.map_eq_some_iff.1 h
    exact Step.kind_edit? hs
  · cases h
    rfl
  · cases h

end Instruction

end ImageRecipe
