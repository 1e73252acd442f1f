import ImageRecipe.Instruction.Basic

/-!
# Blueprints

A blueprint says how an instruction is put together, with any nesting of wrappers.

* `Instruction.defer` (`new` of `Onbuild`), `Healthcheck.running` (`new` of `Healthcheck`) — the wrappers, which
  look at the kind they are given; `WrapError` (`InvalidCommand`) — what they refuse;
* `Blueprint.build` — the instruction, made inside out, or the innermost wrapper that was given something it
  cannot wrap.

Principal facts: `isSome_checkCommand?` and `isSome_trigger?` — what a wrapper accepts is settled by
the kind it is given.
-/

set_option autoImplicit false

namespace ImageRecipe

/-- A wrapper that was given an instruction of a kind it cannot wrap. -/
structure WrapError where
  wrapper : Kind
  wrapped : Kind
  deriving DecidableEq, Repr

/-- How an instruction is put together. -/
inductive Blueprint where
  | step (step : Step)
  | healthcheck (test : Option CheckCommand) (settings : List Healthcheck.Setting)
  | check (test : Blueprint) (settings : List Healthcheck.Setting)
  | onbuild (trigger : Blueprint)

namespace Instruction

/-- The instruction as a command that a health check may run. -/
def checkCommand? : Instruction → Option CheckCommand
  | step (.exec .cmd form) => some (.exec form)
  | step (.text .shellCmd value) => some (.shell value)
  | _ => none

/-- The instruction as one that may wait for a later build. -/
def trigger? : Instruction → Option Trigger
  | step s => if allowed : s.kind ∉ Kind.onbuildForbidden then some (.step s allowed) else none
  | healthcheck check => some (.healthcheck check)
  | onbuild _ => none

/-- The instruction put off to a later build. -/
def defer (instruction : Instruction) : Except WrapError Instruction :=
  match instruction.trigger? with
  | some trigger => .ok (.onbuild trigger)
  | none => .error { wrapper := .onbuild, wrapped := instruction.kind }

theorem isSome_checkCommand? (instruction : Instruction) :
    instruction.checkCommand?.isSome = decide (instruction.kind ∈ Kind.healthcheckTriggers) := by
  cases instruction with
  | step s =>
    cases s with
    | text role _ => cases role <;> rfl
    | exec role _ => cases role <;> rfl
    | pair role _ _ => cases role <;> rfl
    | named role _ _ => cases role <;> rfl
    | list role _ => cases role <;> rfl
  | healthcheck _ => rfl
  | onbuild _ => rfl

theorem isSome_trigger? (instruction : Instruction) :
    instruction.trigger?.isSome = decide (instruction.kind ∉ Kind.onbuildForbidden) := by
  cases instruction with
  | step s =>
    simp only [trigger?, kind]
    split <;> simp_all
  | healthcheck _ => rfl
  | onbuild _ => rfl

end Instruction

/-- A health check that runs `test`, with the default settings. -/
def Healthcheck.running (test : Instruction) : Except WrapError Healthcheck :=
  match test.checkCommand? with
  | some command => .ok { test := some command }
  | none => .error { wrapper := .healthcheck, wrapped := test.kind }

namespace Blueprint

/-- The instruction that a blueprint describes, wrapped inside out. -/
def build : Blueprint → Except WrapError Instruction
  | step s => .ok (.step s)
  | healthcheck test settings => .ok (.healthcheck (Healthcheck.configure { test } settings))
  | check test settings =>
    (test.build.bind Healthcheck.running).map (fun check => .healthcheck (check.configure settings))
  | onbuild trigger => trigger.build.bind Instruction.defer

end Blueprint

end ImageRecipe
