import ImageRecipe.Instruction.Healthcheck
import ImageRecipe.Proofs.LastWrite
import ImageRecipe.Proofs.Text.Decimal

/-!
# What the line of a health check says

The options of a check stand on its line in a fixed order, each marked by two hyphens and ended by a blank,
and the command comes last. Neither a span of time nor a number holds a blank, and a command begins with a
letter, so the line can be cut again, whatever the text of the command looks like.

* `CheckLine` — what a line says: four settings and the text of a command;
* `CheckLine.words` — its options, one word each; `IsOption` — words that can be told from a command;
* `Healthcheck.configured` — the check that runs a command, after a sequence of settings, and
  `Healthcheck.said` — what its line is to say.

Principal results:

* `interval_configure`, `startPeriod_configure`, … — every part of a check is what was set last;
* `words_inj` — a line is cut into options and command in one way only, by induction on the options;
* `CheckLine.line_inj` — a line says one thing;
* `Healthcheck.lines_exact` — spans, lines with a command, and the line without one.
-/

set_option autoImplicit false

namespace ImageRecipe

namespace Healthcheck

/-! ## Settings -/

namespace Setting

/-- The interval, if it is what is set. -/
def interval? : Setting → Option Duration
  | interval value => some value
  | _ => none

/-- The timeout, if it is what is set. -/
def timeout? : Setting → Option Duration
  | timeout value => some value
  | _ => none

/-- The start period, if it is what is set. -/
def startPeriod? : Setting → Option Duration
  | startPeriod value => some value
  | _ => none

/-- The number of retries, if it is what is set. -/
def retries? : Setting → Option Nat
  | retries value => some value
  | _ => none

end Setting

section

variable (check : Healthcheck) (settings : List Setting)

theorem interval_configure :
    (check.configure settings).interval = (lastGiven Setting.interval? settings).getD check.interval :=
  getD_foldl interval Setting.interval? (fun _ setting => by cases setting <;> rfl) check settings

theorem timeout_configure :
    (check.configure settings).timeout = (lastGiven Setting.timeout? settings).getD check.timeout :=
  getD_foldl timeout Setting.timeout? (fun _ setting => by cases setting <;> rfl) check settings

theorem retries_configure :
    (check.configure settings).retries = (lastGiven Setting.retries? settings).getD check.retries :=
  getD_foldl retries Setting.retries? (fun _ setting => by cases setting <;> rfl) check settings

theorem startPeriod_configure : (check.configure settings).startPeriod =
    (lastGiven Setting.startPeriod? settings).or check.startPeriod :=
  or_foldl startPeriod Setting.startPeriod? (fun _ setting => by cases setting <;> rfl) check settings

end

/-- The check that runs a command, after all settings, in order. -/
def configured (command : CheckCommand) (settings : List Setting) : Healthcheck :=
  configure { test := some command } settings

end Healthcheck

/-! ## Lines -/

/-- What the line of a check says: its settings, and the text of the command it runs. -/
structure CheckLine where
  interval : Duration
  timeout : Duration
  startPeriod : Option Duration
  retries : Nat
  command : String
  deriving DecidableEq

namespace CheckLine

/-- The options, one word each. The start period is left out if it is not set. -/
def words (said : CheckLine) : List String :=
  ["--interval=" ++ said.interval.render, "--timeout=" ++ said.timeout.render]
    ++ (said.startPeriod.map fun period => "--start-period=" ++ period.render).toList
    ++ ["--retries=" ++ toString said.retries]

/-- The line that says it. -/
def line (said : CheckLine) : String :=
  "HEALTHCHECK " ++ String.join (said.words.map (· ++ " ")) ++ said.command

end CheckLine

namespace Healthcheck

/-- What the line of a check is to say: the last value set for each setting or its default, and the text of the
command. -/
def said (command : CheckCommand) (settings : List Setting) : CheckLine where
  interval := (lastGiven Setting.interval? settings).getD defaultInterval
  timeout := (lastGiven Setting.timeout? settings).getD defaultTimeout
  startPeriod := lastGiven Setting.startPeriod? settings
  retries := (lastGiven Setting.retries? settings).getD defaultRetries
  command := command.step.render

/-- A check with a command is written as what it says. -/
theorem render_of_test {check : Healthcheck} {command : CheckCommand} (h : check.test = some command) :
    check.render = CheckLine.line ⟨check.interval, check.timeout, check.startPeriod, check.retries,
      command.step.render⟩ := by
  rw [render, h, ← String.toList_inj]
  unfold options CheckLine.line CheckLine.words
  cases check.startPeriod <;> simp [Kind.keyword]

theorem render_configured (command : CheckCommand) (settings : List Setting) :
    (configured command settings).render = (said command settings).line := by
  have runs : (configured command settings).test = some command := test_configure _ settings
  rw [render_of_test runs, configured, interval_configure, timeout_configure, retries_configure,
    startPeriod_configure, Option.or_none]
  rfl

end Healthcheck

/-! ## Cutting a line -/

/-- The first blank parts a line in one way only. -/
theorem cut_at_blank {a b x y : List Char} (ha : ' ' ∉ a) (hb : ' ' ∉ b)
    (h : a ++ ' ' :: x = b ++ ' ' :: y) : a = b ∧ x = y := by
  induction a generalizing b with
  | nil =>
    cases b with
    | nil => exact ⟨rfl, (List.cons.inj h).2⟩
    | cons c rest => exact absurd ((List.cons.inj h).1 ▸ List.mem_cons_self) hb
  | cons c more ih =>
    cases b with
    | nil => exact absurd ((List.cons.inj h).1 ▸ List.mem_cons_self) ha
    | cons d rest =>
      obtain ⟨rfl, later⟩ := List.cons.inj h
      obtain ⟨rfl, rfl⟩ := ih (List.not_mem_of_not_mem_cons ha) (List.not_mem_of_not_mem_cons hb) later
      exact ⟨rfl, rfl⟩

/-- A word that can be told from a command, and whose end can be told. -/
structure IsOption (word : String) : Prop where
  marked : word.toList.head? = some '-'
  unbroken : ' ' ∉ word.toList

theorem IsOption.append {sign value : String} (h : IsOption sign) (hvalue : ' ' ∉ value.toList) :
    IsOption (sign ++ value) where
  marked := by rw [String.toList_append, List.head?_append, h.marked, Option.some_or]
  unbroken := by
    rw [String.toList_append, List.mem_append, not_or]
    exact ⟨h.unbroken, hvalue⟩

/-- What begins with an option does not begin as a command does. -/
theorem head?_of_words {word : String} (h : IsOption word) (more : List String) (x : String) :
    (String.join ((word :: more).map (· ++ " ")) ++ x).toList.head? = some '-' := by
  rw [List.map_cons, String.join_cons, String.append_assoc, String.append_assoc, String.toList_append,
    List.head?_append, h.marked, Option.some_or]

/-- **A line is cut into options and command in one way only.** -/
theorem words_inj {a b : List String} (ha : ∀ word ∈ a, IsOption word) (hb : ∀ word ∈ b, IsOption word)
    {x y : String} (hx : x.toList.head? ≠ some '-') (hy : y.toList.head? ≠ some '-')
    (h : String.join (a.map (· ++ " ")) ++ x = String.join (b.map (· ++ " ")) ++ y) :
    a = b ∧ x = y := by
  induction a generalizing b with
  | nil =>
    rw [List.map_nil, String.join_nil, String.empty_append] at h
    cases b with
    | nil => exact ⟨rfl, by rwa [List.map_nil, String.join_nil, String.empty_append] at h⟩
    | cons other rest =>
      rw [h] at hx
      exact absurd (head?_of_words (hb other List.mem_cons_self) rest y) hx
  | cons word more ih =>
    obtain ⟨own, ha⟩ := List.forall_mem_cons.1 ha
    cases b with
    | nil =>
      rw [List.map_nil, String.join_nil, String.empty_append] at h
      rw [← h] at hy
      exact absurd (head?_of_words own more x) hy
    | cons other rest =>
      obtain ⟨first, hb⟩ := List.forall_mem_cons.1 hb
      -- The first blank ends the first option on both sides.
      have blank (word : String) (more : List String) (x : String) :
          (String.join ((word :: more).map (· ++ " ")) ++ x).toList =
            word.toList ++ ' ' :: (String.join (more.map (· ++ " ")) ++ x).toList := by
        simp
      have lists := congrArg String.toList h
      rw [blank, blank] at lists
      obtain ⟨same, later⟩ := cut_at_blank own.unbroken first.unbroken lists
      obtain ⟨rfl, rfl⟩ := ih ha hb (String.toList_inj.1 later)
      rw [String.toList_inj.1 same]
      exact ⟨rfl, rfl⟩

namespace CheckLine

theorem isOption_of_mem_words (said : CheckLine) : ∀ word ∈ said.words, IsOption word := by
  have sign (sign : String) (marked : sign.toList.head? = some '-') (unbroken : ' ' ∉ sign.toList) :
      IsOption sign := ⟨marked, unbroken⟩
  intro word member
  simp only [words, List.mem_append, List.mem_cons, List.not_mem_nil, or_false, Option.mem_toList,
    Option.map_eq_some_iff] at member
  rcases member with ((rfl | rfl) | ⟨period, -, rfl⟩) | rfl
  · exact (sign _ (by decide) (by decide)).append said.interval.blank_not_mem_render
  · exact (sign _ (by decide) (by decide)).append said.timeout.blank_not_mem_render
  · exact (sign _ (by decide) (by decide)).append period.blank_not_mem_render
  · exact (sign _ (by decide) (by decide)).append (isDecimal_toString _).blank_not_mem

/-- The options say what is set. -/
theorem words_settings_inj {a b : CheckLine} (h : a.words = b.words) :
    a.interval = b.interval ∧ a.timeout = b.timeout ∧ a.startPeriod = b.startPeriod ∧
      a.retries = b.retries := by
  obtain ⟨front, last⟩ := List.append_inj' h rfl
  simp only [List.cons_append, List.nil_append, List.cons.injEq, String.append_right_inj,
    and_true] at front last
  obtain ⟨interval, timeout, period⟩ := front
  have periods := congrArg List.head? period
  rw [Option.head?_toList, Option.head?_toList] at periods
  refine ⟨Duration.render_injective interval, Duration.render_injective timeout, ?_,
    toString_inj last⟩
  refine (Option.map_inj_right fun d e same => ?_).1 periods
  exact Duration.render_injective ((String.append_right_inj _).1 same)

/-- **A line says one thing.** -/
theorem line_inj {a b : CheckLine} (ha : a.command.toList.head? ≠ some '-')
    (hb : b.command.toList.head? ≠ some '-') (h : a.line = b.line) : a = b := by
  rw [line, line, String.append_assoc, String.append_assoc, String.append_right_inj] at h
  obtain ⟨options, command⟩ := words_inj a.isOption_of_mem_words b.isOption_of_mem_words ha hb h
  obtain ⟨interval, timeout, startPeriod, retries⟩ := words_settings_inj options
  cases a
  cases b
  simp_all

/-- The option of a start period is there exactly if it is set. -/
theorem startPeriod_mem_words_iff (said : CheckLine) (period : Duration) :
    "--start-period=" ++ period.render ∈ said.words ↔ said.startPeriod = some period := by
  constructor
  · intro member
    simp only [words, List.mem_append, List.mem_cons, List.not_mem_nil, or_false, Option.mem_toList,
      Option.map_eq_some_iff] at member
    -- No other option has its sign.
    rcases member with ((same | same) | ⟨own, set, same⟩) | same
    · simp [← String.toList_inj] at same
    · simp [← String.toList_inj] at same
    · rw [set, Duration.render_injective ((String.append_right_inj _).1 same)]
    · simp [← String.toList_inj] at same
  · intro set
    simp [words, set]

end CheckLine

namespace Healthcheck

/-- A command begins with its keyword. -/
theorem head?_command (command : CheckCommand) : command.step.render.toList.head? = some 'C' := by
  cases command <;> simp [CheckCommand.step, Step.render, Step.kind, ExecKind.kind, TextKind.kind,
    Kind.keyword]

/-- **Two checks have the same line exactly if it is to say the same.** -/
theorem render_configured_iff (command other : CheckCommand) (settings otherSettings : List Setting) :
    (configured command settings).render = (configured other otherSettings).render ↔
      said command settings = said other otherSettings := by
  rw [render_configured, render_configured]
  refine ⟨fun same => CheckLine.line_inj ?_ ?_ same, congrArg CheckLine.line⟩
  · exact fun marked => absurd (marked.symm.trans (head?_command command)) (by decide)
  · exact fun marked => absurd (marked.symm.trans (head?_command other)) (by decide)

theorem startPeriod_set_iff (settings : List Setting) :
    (∃ period, lastGiven Setting.startPeriod? settings = some period) ↔
      ∃ period, Setting.startPeriod period ∈ settings := by
  rw [← Option.ne_none_iff_exists', Ne, lastGiven_eq_none_iff]
  constructor
  · intro some
    by_contra none
    refine some fun setting member => ?_
    cases setting with
    | startPeriod period => exact absurd ⟨period, member⟩ none
    | interval _ | timeout _ | retries _ => rfl
  · rintro ⟨period, member⟩ none
    cases none _ member

/-- **The line of a health check says exactly how it is set.** A span of time is written as a number and the
largest unit of which it is a whole number, and no two spans alike. The line of a check with a command gives
the last value set for each setting or its default, the start period only if it was set, and the text of the
command; and two such lines are the same only if all of this is. A check without a command has one line. -/
theorem lines_exact :
    (∀ d : Duration, d.Written d.render) ∧
    (∀ a b : Duration, a.render = b.render ↔ a = b) ∧
    (∀ (command : CheckCommand) (settings : List Setting),
      (configured command settings).render = (said command settings).line ∧
      ((∃ period : Duration, "--start-period=" ++ period.render ∈ (said command settings).words) ↔
        ∃ period, Setting.startPeriod period ∈ settings)) ∧
    (∀ (command other : CheckCommand) (settings otherSettings : List Setting),
      (configured command settings).render = (configured other otherSettings).render ↔
        said command settings = said other otherSettings) ∧
    ∀ settings : List Setting, (configure { test := none } settings).render = "HEALTHCHECK NONE" := by
  refine ⟨Duration.written_render, fun a b => ⟨Duration.render_injective, congrArg _⟩, ?_,
    render_configured_iff, fun settings => render_of_test_eq_none (test_configure _ settings)⟩
  intro command settings
  refine ⟨render_configured command settings, ?_⟩
  rw [← startPeriod_set_iff]
  exact exists_congr fun period => CheckLine.startPeriod_mem_words_iff _ period

/-- A command whose text looks like options. -/
example : (configured (.shell "probe --retries=9 ")
      [.retries 5, .startPeriod (.ofParts 1 500000), .retries 7]).render =
    "HEALTHCHECK --interval=30s --timeout=30s --start-period=1000500us --retries=7 "
      ++ "CMD probe --retries=9 " := by
  decide +kernel

end Healthcheck

end ImageRecipe
