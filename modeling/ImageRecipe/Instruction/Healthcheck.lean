import ImageRecipe.Duration
import ImageRecipe.Instruction.Step

/-!
# Health checks

A health check runs a command now and then, or takes back an inherited check. The command is a `CMD`, in
either form, by its type; the four settings start from defaults and may be set any number of times, the
last value standing.

Principal definitions:

* `Healthcheck` (`Healthcheck`, with `DEFAULT_INTERVAL`, `DEFAULT_TIMEOUT` and `DEFAULT_RETRIES`) — a check;
* `Healthcheck.set` (`with_interval`, `with_timeout`, `with_retries`, `with_start_period`) — the check with one
  setting given; `Healthcheck.configure` — the settings applied in order;
* `Healthcheck.render` (`fmt`) — the line, which for a check without a command is the same whatever was set
  (`render_of_test_eq_none`).
-/

set_option autoImplicit false

namespace ImageRecipe

/-- A command that a health check may run. -/
inductive CheckCommand where
  | exec (form : ExecForm)
  | shell (value : String)
  deriving DecidableEq, Repr

/-- The command as an instruction of its own. -/
def CheckCommand.step : CheckCommand → Step
  | exec form => .exec .cmd form
  | shell value => .text .shellCmd value

/-- The interval between two checks, if none is set. -/
def Healthcheck.defaultInterval : Duration := .ofSeconds 30

/-- The time a check may take, if none is set. -/
def Healthcheck.defaultTimeout : Duration := .ofSeconds 30

/-- The number of failures in a row that count, if none is set. -/
def Healthcheck.defaultRetries : Nat := 3

/-- A check of a running container; without a test it takes back an inherited one. -/
structure Healthcheck where
  test : Option CheckCommand
  interval : Duration := Healthcheck.defaultInterval
  timeout : Duration := Healthcheck.defaultTimeout
  retries : Nat := Healthcheck.defaultRetries
  startPeriod : Option Duration := none
  deriving DecidableEq, Repr

namespace Healthcheck

/-- A value given for one of the settings. -/
inductive Setting where
  | interval (value : Duration)
  | timeout (value : Duration)
  | startPeriod (value : Duration)
  | retries (value : Nat)
  deriving DecidableEq, Repr

/-- The check with one setting given. -/
def set (check : Healthcheck) : Setting → Healthcheck
  | .interval value => { check with interval := value }
  | .timeout value => { check with timeout := value }
  | .startPeriod value => { check with startPeriod := some value }
  | .retries value => { check with retries := value }

/-- The check after all settings, in order. -/
def configure (check : Healthcheck) (settings : List Setting) : Healthcheck :=
  settings.foldl set check

/-- The options of a check as they stand on its line, each followed by a blank. -/
def options (check : Healthcheck) : String :=
  "--interval=" ++ check.interval.render ++ " --timeout=" ++ check.timeout.render ++ " "
    ++ (match check.startPeriod with
      | some period => "--start-period=" ++ period.render ++ " "
      | none => "")
    ++ "--retries=" ++ toString check.retries ++ " "

/-- The line of a check. -/
def render (check : Healthcheck) : String :=
  Kind.healthcheck.keyword ++ " " ++ match check.test with
    | none => "NONE"
    | some command => check.options ++ command.step.render

theorem test_configure (check : Healthcheck) (settings : List Setting) :
    (check.configure settings).test = check.test := by
  induction settings generalizing check with
  | nil => rfl
  | cons setting rest ih =>
    rw [show check.configure (setting :: rest) = (check.set setting).configure rest from rfl, ih]
    cases setting <;> rfl

theorem render_of_test_eq_none {check : Healthcheck} (h : check.test = none) :
    check.render = "HEALTHCHECK NONE" := by
  rw [render, h]
  rfl

end Healthcheck

theorem CheckCommand.kind_step (command : CheckCommand) :
    command.step.kind ∈ Kind.healthcheckTriggers := by
  cases command with
  | exec _ => exact List.mem_cons_self
  | shell _ => exact List.mem_cons_of_mem _ List.mem_cons_self

end ImageRecipe
