import ImageRecipe.Instruction.Blueprint
import ImageRecipe.Proofs.Instruction.Quoting

/-!
# Wrappers and what they wrap

A health check wraps a command, and a trigger wraps an instruction that waits for a later build. A blueprint
may nest them in any way; an instruction is made of it only if every wrapper in it was given what it may
wrap, and what has been wrapped stays as it is.

* `MayWrap` — what may stand in what, by the two kinds;
* `Instruction.wrapped?` — what an instruction wraps; `Blueprint.given?` — what the outermost wrapper of a
  blueprint is given;
* `Blueprint.Lawful` — no wrapper in a blueprint was given what it may not wrap; `Blueprint.Offends` — the
  innermost wrapper that was;
* `Wrapping` — the three ways in which one wrapping can end.

Principal results:

* `build_wrapping` — the step: what becomes of the instruction that a wrapper is given;
* `exists_build_iff_lawful`, `build_eq_error_iff` — by induction on the nesting, what is built and what is
  refused;
* `wrapping_lawful` — the rules, for everything that is put together and then edited.
-/

set_option autoImplicit false

namespace ImageRecipe

/-! ## The rules -/

/-- Whether an instruction of the first kind may wrap one of the second: a health check runs a `CMD` in
either form; nothing waits for a later build that waits already, names a base image or a maintainer, or sets
the escape character; nothing else wraps at all. -/
def MayWrap (wrapper wrapped : Kind) : Prop :=
  (wrapper = .healthcheck ∧ (wrapped = .execCmd ∨ wrapped = .shellCmd)) ∨
    (wrapper = .onbuild ∧ wrapped ≠ .onbuild ∧ wrapped ≠ .baseImage ∧ wrapped ≠ .maintainer ∧
      wrapped ≠ .escape)

instance (wrapper wrapped : Kind) : Decidable (MayWrap wrapper wrapped) :=
  inferInstanceAs (Decidable (_ ∨ _))

theorem mayWrap_healthcheck_iff {kind : Kind} :
    MayWrap .healthcheck kind ↔ kind ∈ Kind.healthcheckTriggers := by
  simp [MayWrap, Kind.healthcheckTriggers]

theorem mayWrap_onbuild_iff {kind : Kind} : MayWrap .onbuild kind ↔ kind ∉ Kind.onbuildForbidden := by
  simp [MayWrap, Kind.onbuildForbidden]

/-- Only health checks and triggers wrap. -/
theorem wrapper_of_mayWrap {wrapper wrapped : Kind} (h : MayWrap wrapper wrapped) :
    wrapper = .healthcheck ∨ wrapper = .onbuild :=
  h.imp And.left And.left

theorem Step.kind_ne_wrapper (s : Step) : s.kind ≠ .healthcheck ∧ s.kind ≠ .onbuild := by
  cases s with
  | text role _ | exec role _ | pair role _ _ | named role _ _ | list role _ =>
    cases role <;> exact ⟨Kind.noConfusion, Kind.noConfusion⟩

namespace Instruction

/-- The instruction that another one wraps. -/
def wrapped? : Instruction → Option Instruction
  | step _ => none
  | healthcheck check => check.test.map (step ·.step)
  | onbuild trigger => some trigger.instruction

theorem mayWrap_of_wrapped? {i j : Instruction} (h : i.wrapped? = some j) :
    MayWrap i.kind j.kind := by
  cases i with
  | step _ => cases h
  | healthcheck check =>
    obtain ⟨command, -, rfl⟩ := Option.map_eq_some_iff.1 h
    exact mayWrap_healthcheck_iff.2 command.kind_step
  | onbuild trigger =>
    cases h
    refine mayWrap_onbuild_iff.2 ?_
    cases trigger with
    | step _ allowed => exact allowed
    | healthcheck _ => simp [Trigger.instruction, kind, Kind.onbuildForbidden]

/-- A `CMD` wraps nothing. -/
theorem wrapped?_of_command {i : Instruction} (h : i.kind = .execCmd ∨ i.kind = .shellCmd) :
    i.wrapped? = none := by
  cases i with
  | step _ => rfl
  | healthcheck _ | onbuild _ => rcases h with h | h <;> cases h

/-- What waits for a later build is an instruction of its own. -/
theorem wrapped?_of_trigger? {i : Instruction} {trigger : Trigger} (h : i.trigger? = some trigger) :
    (onbuild trigger).wrapped? = some i := by
  cases i with
  | step s =>
    simp only [trigger?] at h
    split at h <;> cases h
    rfl
  | healthcheck check =>
    cases h
    rfl
  | onbuild _ => cases h

/-- So is what a health check runs. -/
theorem step_of_checkCommand? {i : Instruction} {command : CheckCommand}
    (h : i.checkCommand? = some command) : step command.step = i := by
  unfold checkCommand? at h
  split at h <;> cases h <;> rfl

/-! ## Edits -/

theorem wrapped?_edit? {i j : Instruction} {change : Edit} (h : i.edit? change = some j) :
    j.wrapped? = i.wrapped? := by
  unfold edit? at h
  split at h
  · obtain ⟨s, -, rfl⟩ := Option.map_eq_some_iff.1 h
    rfl
  · cases h
    rename_i check value
    cases value <;> rfl
  · cases h

theorem wrapped?_edits {i j : Instruction} {edits : List Edit} (h : edits.foldlM edit? i = some j) :
    j.wrapped? = i.wrapped? :=
  eq_of_edits wrapped? wrapped?_edit? h

end Instruction

/-! ## One wrapping -/

/-- What becomes of an instruction that a wrapper of a kind is given: its own failure stands, it may not be
wrapped, or it is wrapped as it is. -/
inductive Wrapping (wrapper : Kind) :
    Except WrapError Instruction → Except WrapError Instruction → Prop
  | failed (error : WrapError) : Wrapping wrapper (.error error) (.error error)
  | refused {given : Instruction} (h : ¬MayWrap wrapper given.kind) :
    Wrapping wrapper (.ok given) (.error ⟨wrapper, given.kind⟩)
  | wrapped {given made : Instruction} (h : MayWrap wrapper given.kind) (hkind : made.kind = wrapper)
    (hwrapped : made.wrapped? = some given) : Wrapping wrapper (.ok given) (.ok made)

theorem wrapping_defer (given : Instruction) : Wrapping .onbuild (.ok given) given.defer := by
  have accepts := given.isSome_trigger?
  unfold Instruction.defer
  cases htrigger : given.trigger? with
  | some trigger =>
    rw [htrigger, Option.isSome_some, eq_comm, decide_eq_true_iff] at accepts
    exact .wrapped (mayWrap_onbuild_iff.2 accepts) rfl (Instruction.wrapped?_of_trigger? htrigger)
  | none =>
    rw [htrigger, Option.isSome_none, eq_comm, decide_eq_false_iff_not] at accepts
    exact .refused (mt mayWrap_onbuild_iff.1 accepts)

theorem wrapping_running (given : Instruction) (settings : List Healthcheck.Setting) :
    Wrapping .healthcheck (.ok given)
      ((Healthcheck.running given).map fun check => .healthcheck (check.configure settings)) := by
  have accepts := given.isSome_checkCommand?
  unfold Healthcheck.running
  cases hcommand : given.checkCommand? with
  | some command =>
    rw [hcommand, Option.isSome_some, eq_comm, decide_eq_true_iff] at accepts
    refine .wrapped (mayWrap_healthcheck_iff.2 accepts) rfl ?_
    change (Healthcheck.configure _ settings).test.map _ = _
    rw [Healthcheck.test_configure, Option.map_some, Instruction.step_of_checkCommand? hcommand]
  | none =>
    rw [hcommand, Option.isSome_none, eq_comm, decide_eq_false_iff_not] at accepts
    exact .refused (mt mayWrap_healthcheck_iff.1 accepts)

namespace Blueprint

/-- The kind of the instruction that a blueprint describes, whether or not it can be made. -/
def kind : Blueprint → Kind
  | step s => s.kind
  | healthcheck _ _ | check _ _ => .healthcheck
  | onbuild _ => .onbuild

/-- What the outermost wrapper is given. -/
def given? : Blueprint → Option Blueprint
  | step _ => none
  | healthcheck test _ => test.map (step ·.step)
  | check test _ => some test
  | onbuild trigger => some trigger

/-- **A wrapper gets what was built of what it is given.** -/
theorem build_wrapping {b given : Blueprint} (h : b.given? = some given) :
    Wrapping b.kind given.build b.build := by
  cases b with
  | step _ => cases h
  | healthcheck test settings =>
    obtain ⟨command, rfl, rfl⟩ := Option.map_eq_some_iff.1 h
    refine .wrapped (mayWrap_healthcheck_iff.2 command.kind_step) rfl ?_
    change (Healthcheck.configure _ settings).test.map _ = _
    rw [Healthcheck.test_configure]
    rfl
  | check test settings =>
    cases h
    rw [build]
    cases given.build with
    | error error => exact .failed error
    | ok made => exact wrapping_running made settings
  | onbuild trigger =>
    cases h
    rw [build]
    cases given.build with
    | error error => exact .failed error
    | ok made => exact wrapping_defer made

/-- What wraps nothing can always be made. -/
theorem build_bare {b : Blueprint} (h : b.given? = none) :
    ∃ i, b.build = .ok i ∧ i.kind = b.kind ∧ i.wrapped? = none := by
  cases b with
  | step s => exact ⟨_, rfl, rfl, rfl⟩
  | healthcheck test settings =>
    obtain rfl : test = none := Option.map_eq_none_iff.1 h
    refine ⟨_, rfl, rfl, ?_⟩
    change (Healthcheck.configure _ settings).test.map _ = _
    rw [Healthcheck.test_configure]
    rfl
  | check _ _ => cases h
  | onbuild _ => cases h

/-- What is made has the kind that was described. -/
theorem kind_of_build {b : Blueprint} {i : Instruction} (h : b.build = .ok i) : i.kind = b.kind := by
  cases hgiven : b.given? with
  | none =>
    obtain ⟨made, hmade, hkind, -⟩ := build_bare hgiven
    rw [← Except.ok.inj (hmade.symm.trans h), hkind]
  | some given =>
    have step := build_wrapping hgiven
    generalize given.build = inner at step
    rw [h] at step
    cases step with
    | wrapped _ hkind _ => exact hkind

/-! ## Any nesting -/

/-- The first blueprint is the second one or a part of it. -/
inductive Inside : Blueprint → Blueprint → Prop
  | itself (b : Blueprint) : Inside b b
  | deeper {part given b : Blueprint} (hgiven : b.given? = some given) (h : Inside part given) :
    Inside part b

/-- Every wrapper in the blueprint may wrap what it is given. -/
def Lawful (b : Blueprint) : Prop :=
  ∀ wrapper given, Inside wrapper b → wrapper.given? = some given → MayWrap wrapper.kind given.kind

/-- A wrapper in the blueprint was given what it may not wrap, and no wrapper further inside was. -/
def Offends (b : Blueprint) (error : WrapError) : Prop :=
  ∃ wrapper given, Inside wrapper b ∧ wrapper.given? = some given ∧ given.Lawful ∧
    ¬MayWrap wrapper.kind given.kind ∧ error = ⟨wrapper.kind, given.kind⟩

/-- What holds of a blueprint without a wrapper, and of one with a wrapper if it holds of what the wrapper
is given, holds of all. -/
theorem induction_on_given {motive : Blueprint → Prop} (bare : ∀ b, b.given? = none → motive b)
    (wrapper : ∀ b given, b.given? = some given → motive given → motive b) (b : Blueprint) :
    motive b := by
  induction b with
  | step s => exact bare _ rfl
  | healthcheck test settings =>
    cases test with
    | none => exact bare _ rfl
    | some command => exact wrapper _ _ rfl (bare (step command.step) rfl)
  | check test settings ih => exact wrapper _ _ rfl ih
  | onbuild trigger ih => exact wrapper _ _ rfl ih

section

variable {b given : Blueprint}

theorem inside_iff_of_given (h : b.given? = some given) {part : Blueprint} :
    Inside part b ↔ part = b ∨ Inside part given := by
  constructor
  · rintro (_ | ⟨hgiven, hinside⟩)
    · exact .inl rfl
    · rw [h, Option.some.injEq] at hgiven
      exact .inr (hgiven ▸ hinside)
  · rintro (rfl | hinside)
    · exact .itself _
    · exact .deeper h hinside

theorem lawful_of_bare (h : b.given? = none) : b.Lawful := by
  intro wrapper given hinside hgiven
  cases hinside with
  | itself => rw [h] at hgiven; cases hgiven
  | deeper hother _ => rw [h] at hother; cases hother

theorem lawful_iff_of_given (h : b.given? = some given) :
    b.Lawful ↔ given.Lawful ∧ MayWrap b.kind given.kind := by
  constructor
  · intro lawful
    exact ⟨fun wrapper inner hinside => lawful wrapper inner (.deeper h hinside),
      lawful b given (.itself b) h⟩
  · rintro ⟨lawful, outermost⟩ wrapper inner hinside hinner
    rcases (inside_iff_of_given h).1 hinside with rfl | hinside
    · rw [h, Option.some.injEq] at hinner
      exact hinner ▸ outermost
    · exact lawful wrapper inner hinside hinner

theorem not_offends_of_lawful (h : b.Lawful) (error : WrapError) : ¬b.Offends error :=
  fun ⟨wrapper, given, hinside, hgiven, _, hbreaks, _⟩ => hbreaks (h wrapper given hinside hgiven)

theorem offends_iff_of_given (h : b.given? = some given) {error : WrapError} :
    b.Offends error ↔ given.Offends error ∨
      (given.Lawful ∧ ¬MayWrap b.kind given.kind ∧ error = ⟨b.kind, given.kind⟩) := by
  constructor
  · rintro ⟨wrapper, inner, hinside, hinner, hrest⟩
    rcases (inside_iff_of_given h).1 hinside with rfl | hinside
    · rw [h, Option.some.injEq] at hinner
      exact .inr (hinner ▸ hrest)
    · exact .inl ⟨wrapper, inner, hinside, hinner, hrest⟩
  · rintro (⟨wrapper, inner, hinside, hinner, hrest⟩ | hrest)
    · exact ⟨wrapper, inner, .deeper h hinside, hinner, hrest⟩
    · exact ⟨b, given, .itself b, h, hrest⟩

end

/-- **An instruction is made exactly of a lawful blueprint.** -/
theorem exists_build_iff_lawful (b : Blueprint) : (∃ i, b.build = .ok i) ↔ b.Lawful := by
  induction b using induction_on_given with
  | bare b hgiven =>
    obtain ⟨i, hi, -⟩ := build_bare hgiven
    exact iff_of_true ⟨i, hi⟩ (lawful_of_bare hgiven)
  | wrapper b given hgiven ih =>
    rw [lawful_iff_of_given hgiven, ← ih]
    have step := build_wrapping hgiven
    generalize hinner : given.build = inner at step
    generalize b.build = result at step
    cases step with
    | failed error => simp
    | @refused made hbreaks =>
      rw [kind_of_build hinner] at hbreaks
      simp [hbreaks]
    | @wrapped made whole hmay _ _ =>
      rw [kind_of_build hinner] at hmay
      simp [hmay]

/-- **A blueprint fails with the innermost wrapper that was given what it may not wrap.** -/
theorem build_eq_error_iff (b : Blueprint) (error : WrapError) :
    b.build = .error error ↔ b.Offends error := by
  induction b using induction_on_given with
  | bare b hgiven =>
    obtain ⟨i, hi, -⟩ := build_bare hgiven
    refine iff_of_false (fun herror => ?_) (not_offends_of_lawful (lawful_of_bare hgiven) error)
    rw [hi] at herror
    cases herror
  | wrapper b given hgiven ih =>
    rw [offends_iff_of_given hgiven, ← ih, ← exists_build_iff_lawful]
    have step := build_wrapping hgiven
    generalize hinner : given.build = inner at step
    generalize b.build = result at step
    cases step with
    | failed own => simp
    | @refused made hbreaks =>
      rw [kind_of_build hinner] at hbreaks ⊢
      simp [hbreaks, eq_comm]
    | @wrapped made whole hmay _ _ =>
      rw [kind_of_build hinner] at hmay
      simp [hmay]

/-- What is made wraps what was made of what its wrapper was given. -/
theorem wrapped?_of_build {b : Blueprint} {i : Instruction} (h : b.build = .ok i) :
    (b.given? = none → i.wrapped? = none) ∧
      ∀ given, b.given? = some given → ∃ inner, given.build = .ok inner ∧ i.wrapped? = some inner := by
  constructor
  · intro hgiven
    obtain ⟨made, hmade, -, hwrapped⟩ := build_bare hgiven
    rw [← Except.ok.inj (hmade.symm.trans h), hwrapped]
  · intro given hgiven
    have step := build_wrapping hgiven
    generalize given.build = inner at step ⊢
    rw [h] at step
    cases step with
    | wrapped _ _ hwrapped => exact ⟨_, rfl, hwrapped⟩

end Blueprint

/-! ## What is made -/

/-- What a health check runs is a `CMD`; what waits for a later build is nothing that may not; and wrapping
goes no deeper than a `CMD` in a health check in a trigger. -/
structure Instruction.KeepsRules (i : Instruction) : Prop where
  check : i.kind = .healthcheck → ∀ inner, i.wrapped? = some inner →
    inner.kind = .execCmd ∨ inner.kind = .shellCmd
  later : i.kind = .onbuild → ∃ inner, i.wrapped? = some inner ∧
    inner.kind ∉ [.onbuild, .baseImage, .maintainer, .escape]
  depth : ∀ inner innermost, i.wrapped? = some inner → inner.wrapped? = some innermost →
    i.kind = .onbuild ∧ inner.kind = .healthcheck ∧
      (innermost.kind = .execCmd ∨ innermost.kind = .shellCmd) ∧ innermost.wrapped? = none

theorem Instruction.keepsRules (i : Instruction) : i.KeepsRules where
  check hkind inner hinner := by
    have may := mayWrap_of_wrapped? hinner
    rw [hkind, mayWrap_healthcheck_iff] at may
    simpa [Kind.healthcheckTriggers] using may
  later hkind := by
    cases i with
    | step s => exact absurd hkind s.kind_ne_wrapper.2
    | healthcheck _ => cases hkind
    | onbuild trigger =>
      have may : MayWrap .onbuild trigger.instruction.kind :=
        mayWrap_of_wrapped? (i := onbuild trigger) rfl
      exact ⟨_, rfl, mayWrap_onbuild_iff.1 may⟩
  depth inner innermost hinner hinnermost := by
    have within := mayWrap_of_wrapped? hinnermost
    rcases mayWrap_of_wrapped? hinner with ⟨-, command⟩ | ⟨outer, notLater, -⟩
    · rw [wrapped?_of_command command] at hinnermost
      cases hinnermost
    · have check := (wrapper_of_mayWrap within).resolve_right notLater
      rw [check, mayWrap_healthcheck_iff] at within
      have command : innermost.kind = .execCmd ∨ innermost.kind = .shellCmd := by
        simpa [Kind.healthcheckTriggers] using within
      exact ⟨outer, check, command, wrapped?_of_command command⟩

/-- **Wrappers keep their rules.** An instruction is made of a blueprint exactly if no wrapper in it was given
what it may not wrap; else the innermost wrapper that was is named, with what it was given. What is made is
what was described: it has its kind, and it wraps what was made of what its wrapper was given. After any
edits that still holds, and it and everything that it carries keeps the rules; for no edit changes the kind
of an instruction, its priority, or what it wraps. -/
theorem wrapping_lawful :
    (∀ b : Blueprint,
      ((∃ i, b.build = .ok i) ↔ b.Lawful) ∧
      (∀ error, b.build = .error error ↔ b.Offends error) ∧
      ∀ (i j : Instruction) (edits : List Edit), b.build = .ok i →
        edits.foldlM Instruction.edit? i = some j →
        j.kind = b.kind ∧
        (b.given? = none → j.wrapped? = none) ∧
        (∀ given, b.given? = some given →
          ∃ inner, given.build = .ok inner ∧ j.wrapped? = some inner) ∧
        ∀ part, Carries part j → part.KeepsRules) ∧
    ∀ (i j : Instruction) (change : Edit), i.edit? change = some j →
      j.kind = i.kind ∧ j.priority = i.priority ∧ j.wrapped? = i.wrapped? := by
  refine ⟨fun b => ⟨b.exists_build_iff_lawful, b.build_eq_error_iff, ?_⟩, ?_⟩
  · intro i j edits hbuild hedits
    obtain ⟨bare, wrapper⟩ := Blueprint.wrapped?_of_build hbuild
    rw [Instruction.kind_edits hedits, Instruction.wrapped?_edits hedits]
    exact ⟨Blueprint.kind_of_build hbuild, bare, wrapper, fun part _ => part.keepsRules⟩
  · intro i j change h
    have same := Instruction.kind_edit? h
    exact ⟨same, congrArg Kind.priority same, Instruction.wrapped?_edit? h⟩

/-- A health check that waits, one that is edited after it was made, and one that cannot be made, deep in
triggers that may not be nested either. -/
theorem wrapping_lawful_nested :
    let probe := Blueprint.step (.text .shellCmd "probe")
    let check := Blueprint.check probe [.retries 5]
    let made := Instruction.healthcheck { test := some (.shell "probe"), retries := 5 }
    let edited := Instruction.healthcheck
      { test := some (.shell "probe"), retries := 5, interval := ⟨7⟩ }
    let deep := Blueprint.onbuild (.onbuild (.check (.step (.text .shellRun "probe")) []))
    check.build = .ok made ∧ [Edit.setting (.interval ⟨7⟩)].foldlM Instruction.edit? made = some edited ∧
      (∃ inner, probe.build = .ok inner ∧ edited.wrapped? = some inner) ∧ edited.KeepsRules ∧
      edited.priority = made.priority ∧
      (Blueprint.onbuild check).Lawful ∧ deep.Offends ⟨.healthcheck, .shellRun⟩ := by
  intro probe check made edited deep
  obtain ⟨-, -, rules⟩ := wrapping_lawful.1 check
  obtain ⟨-, -, wrapper, parts⟩ := rules made edited [.setting (.interval ⟨7⟩)] rfl rfl
  have kept := wrapping_lawful.2 made edited (.setting (.interval ⟨7⟩)) rfl
  exact ⟨rfl, rfl, wrapper probe rfl, parts edited (.itself edited), kept.2.1,
    (wrapping_lawful.1 (.onbuild check)).1.1 ⟨_, rfl⟩, ((wrapping_lawful.1 deep).2.1 _).1 rfl⟩

end ImageRecipe
