/-!
# Spans of time

A span is a whole number of nanoseconds. It is written as a whole number of the largest unit, of seconds,
milliseconds, microseconds and nanoseconds, that divides it: `Duration.render` (`format_duration`).

Principal facts: `size_coarsest_dvd` — nothing is lost in the unit chosen; `size_le_coarsest` — no larger
unit would do.
-/

set_option autoImplicit false

namespace ImageRecipe

/-- A span of time, counted in nanoseconds. -/
structure Duration where
  nanoseconds : Nat
  deriving DecidableEq, Repr

/-- The units a span is written in. -/
inductive TimeUnit where
  | second
  | millisecond
  | microsecond
  | nanosecond
  deriving DecidableEq, Repr

namespace TimeUnit

/-- The length of a unit in nanoseconds. -/
def size : TimeUnit → Nat
  | second => 1000000000
  | millisecond => 1000000
  | microsecond => 1000
  | nanosecond => 1

/-- The letters that follow the number. -/
def suffix : TimeUnit → String
  | second => "s"
  | millisecond => "ms"
  | microsecond => "us"
  | nanosecond => "ns"

end TimeUnit

namespace Duration

/-- The span of so many seconds. -/
def ofSeconds (seconds : Nat) : Duration := ⟨seconds * TimeUnit.second.size⟩

/-- The span of so many seconds and nanoseconds. -/
def ofParts (seconds nanoseconds : Nat) : Duration :=
  ⟨seconds * TimeUnit.second.size + nanoseconds⟩

/-- The whole seconds of a span. -/
def seconds (d : Duration) : Nat := d.nanoseconds / TimeUnit.second.size

/-- The nanoseconds of a span beyond its whole seconds. -/
def subsecond (d : Duration) : Nat := d.nanoseconds % TimeUnit.second.size

/-- The largest unit of which a span is a whole number. -/
def coarsest (d : Duration) : TimeUnit :=
  if d.nanoseconds % TimeUnit.second.size = 0 then .second
  else if d.nanoseconds % TimeUnit.millisecond.size = 0 then .millisecond
  else if d.nanoseconds % TimeUnit.microsecond.size = 0 then .microsecond
  else .nanosecond

/-- The span in decimal, with its unit. -/
def render (d : Duration) : String :=
  toString (d.nanoseconds / d.coarsest.size) ++ d.coarsest.suffix

theorem size_coarsest_dvd (d : Duration) : d.coarsest.size ∣ d.nanoseconds := by
  unfold coarsest
  split
  · next whole => exact Nat.dvd_of_mod_eq_zero whole
  · split
    · next whole => exact Nat.dvd_of_mod_eq_zero whole
    · split
      · next whole => exact Nat.dvd_of_mod_eq_zero whole
      · exact Nat.one_dvd _

theorem size_le_coarsest {d : Duration} {unit : TimeUnit} (h : unit.size ∣ d.nanoseconds) :
    unit.size ≤ d.coarsest.size := by
  have whole := Nat.mod_eq_zero_of_dvd h
  unfold coarsest
  cases unit <;> simp only [TimeUnit.size] at * <;> grind

end Duration

end ImageRecipe
