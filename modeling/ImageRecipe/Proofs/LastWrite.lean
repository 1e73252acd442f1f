import Mathlib.Data.List.Basic

/-!
# The last value given stands

A record whose parts are set one at a time holds in each part what was given for it last, and what it started
with if nothing was.

* `lastGiven` — the last value that a list of settings gives for a part.

Principal results: `lastGiven_eq_some_iff` — what the last value is; `get_foldl` — a part that every setting either
leaves alone or puts a value into holds the last of these, be it one that always has a value (`getD_foldl`) or one
that may have none (`or_foldl`).
-/

set_option autoImplicit false

namespace ImageRecipe

variable {σ τ α β : Type} {view : σ → Option α} {settings : List σ}

/-- The last value that settings give, where `view` says which value one of them gives. -/
def lastGiven (view : σ → Option α) (settings : List σ) : Option α :=
  (settings.filterMap view).getLast?

theorem lastGiven_cons (view : σ → Option α) (setting : σ) (rest : List σ) :
    lastGiven view (setting :: rest) = (lastGiven view rest).or (view setting) := by
  unfold lastGiven
  cases h : view setting with
  | none => rw [List.filterMap_cons_none h, Option.or_none]
  | some value =>
    rw [List.filterMap_cons_some h, List.getLast?_cons]
    cases (rest.filterMap view).getLast? <;> rfl

theorem lastGiven_eq_none_iff : lastGiven view settings = none ↔ ∀ s ∈ settings, view s = none := by
  rw [lastGiven, List.getLast?_eq_none_iff, List.filterMap_eq_nil_iff]

/-- The last value comes from a setting behind which no other gives one. -/
theorem lastGiven_eq_some_iff {value : α} :
    lastGiven view settings = some value ↔ ∃ before setting after,
      settings = before ++ setting :: after ∧ view setting = some value ∧ ∀ s ∈ after, view s = none := by
  induction settings with
  | nil => simp [lastGiven]
  | cons first rest ih =>
    rw [lastGiven_cons, Option.or_eq_some_iff, ih, lastGiven_eq_none_iff]
    constructor
    · rintro (⟨before, setting, after, rfl, given, silent⟩ | ⟨silent, given⟩)
      · exact ⟨first :: before, setting, after, rfl, given, silent⟩
      · exact ⟨[], first, rest, rfl, given, silent⟩
    · rintro ⟨before, setting, after, same, given, silent⟩
      cases before with
      | nil =>
        obtain ⟨rfl, rfl⟩ := List.cons.inj same
        exact .inr ⟨silent, given⟩
      | cons _ before => exact .inl ⟨before, setting, after, (List.cons.inj same).2, given, silent⟩

/-- **A part is what was given for it last**, if a setting that gives a value for it puts it there and no other
setting changes it. -/
theorem get_foldl {set : τ → σ → τ} (get : τ → β) (put : α → β) (view : σ → Option α)
    (step : ∀ start setting, get (set start setting) = ((view setting).map put).getD (get start))
    (start : τ) (settings : List σ) :
    get (settings.foldl set start) = ((lastGiven view settings).map put).getD (get start) := by
  induction settings generalizing start with
  | nil => rfl
  | cons setting rest ih =>
    rw [List.foldl_cons, ih, step, lastGiven_cons]
    cases lastGiven view rest <;> rfl

/-- So it is with a part that always has a value. -/
theorem getD_foldl {set : τ → σ → τ} (get : τ → α) (view : σ → Option α)
    (step : ∀ start setting, get (set start setting) = (view setting).getD (get start))
    (start : τ) (settings : List σ) :
    get (settings.foldl set start) = (lastGiven view settings).getD (get start) := by
  simpa only [Option.map_id, id] using
    get_foldl get id view (by simpa only [Option.map_id, id] using step) start settings

/-- And with a part that has none at first, and then the last one given. -/
theorem or_foldl {set : τ → σ → τ} (get : τ → Option α) (view : σ → Option α)
    (step : ∀ start setting, get (set start setting) = (view setting).or (get start))
    (start : τ) (settings : List σ) :
    get (settings.foldl set start) = (lastGiven view settings).or (get start) := by
  have or_eq (given : Option α) (rest : Option α) : given.or rest = (given.map some).getD rest := by
    cases given <;> rfl
  rw [or_eq]
  exact get_foldl get some view (fun start setting => (step start setting).trans (or_eq _ _)) start settings

end ImageRecipe
