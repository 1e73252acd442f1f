import ImageRecipe.Dockerfile.Basic
import ImageRecipe.Proofs.Instruction.Quoting

/-!
# How many lines a Dockerfile has

The text of a Dockerfile is made to have one line for each instruction. Whatever is written in JSON stays on
its line; the other texts stand there as they were given, and a line feed in one of them ends the line.

* `lineFeeds` — the line feeds of a text;
* `verbatim` — the texts that stand on a line as they were given, for a step and for what carries one;
* `Dockerfile.OneLineEach` — the lines are those of the instructions, in turn.

Principal results:

* `Instruction.lineFeeds_render` — a line is broken by its verbatim texts and by nothing else;
* `Dockerfile.splitOn_render` — the lines of the text are the lines of each instruction, in turn;
* `Dockerfile.oneLineEach_iff` — there is one line for each instruction exactly if no verbatim text holds a
  line feed;
* `Dockerfile.render_lines` — all of it, with the number of lines;
* `Dockerfile.render_injected` — the value of a variable can bring in any lines.
-/

set_option autoImplicit false

namespace ImageRecipe

/-! ## Line feeds -/

/-- The number of line feeds in a text. -/
def lineFeeds (text : String) : Nat := text.toList.count '\n'

theorem lineFeeds_append (a b : String) : lineFeeds (a ++ b) = lineFeeds a + lineFeeds b := by
  simp [lineFeeds]

theorem lineFeeds_eq_zero_iff {text : String} : lineFeeds text = 0 ↔ '\n' ∉ text.toList :=
  List.count_eq_zero

theorem Printable.lineFeeds_eq_zero {text : String} (h : Printable text) : lineFeeds text = 0 :=
  lineFeeds_eq_zero_iff.2 (h.not_mem (by decide))

/-- A sign between texts that holds no line feed brings none in. -/
theorem lineFeeds_intercalate {sign : String} (hsign : lineFeeds sign = 0) (texts : List String) :
    lineFeeds (sign.intercalate texts) = lineFeeds (String.join texts) := by
  induction texts with
  | nil => rfl
  | cons first rest ih =>
    cases rest with
    | nil => simp
    | cons second rest =>
      rw [String.intercalate_cons_cons, lineFeeds_append, lineFeeds_append, hsign, ih, Nat.add_zero,
        String.join_cons (s := first), lineFeeds_append]

theorem lineFeeds_join_eq_zero_iff {texts : List String} :
    lineFeeds (String.join texts) = 0 ↔ ∀ text ∈ texts, '\n' ∉ text.toList := by
  rw [lineFeeds_eq_zero_iff, String.toList_join, List.mem_flatMap]
  simp only [not_exists, not_and]

/-- A text with so many line feeds has one line more. -/
theorem length_splitOn (text : List Char) : (text.splitOn '\n').length = text.count '\n' + 1 := by
  induction text with
  | nil => rfl
  | cons c rest ih =>
    rw [List.splitOn_cons_eq_if_modifyHead, List.count_cons]
    split <;> simp_all

/-- Texts that are each ended by a line feed have the lines of each, in turn, and nothing follows. -/
theorem splitOn_ended (texts : List (List Char)) :
    (texts.flatMap (· ++ ['\n'])).splitOn '\n' = texts.flatMap (·.splitOn '\n') ++ [[]] := by
  induction texts with
  | nil => rfl
  | cons first rest ih =>
    rw [List.flatMap_cons, List.append_assoc, List.singleton_append, List.splitOn_append_cons_self, ih,
      List.flatMap_cons, List.append_assoc]

/-! ## Texts that stand as given -/

/-- The texts that stand on the line of a step as they were given. -/
def Step.verbatim : Step → List String
  | text _ value => [value]
  | pair .env key value => [key, value]
  | named _ name value => name :: value.toList
  | list .expose ports => ports.values
  | _ => []

/-- The texts that stand as given on the line of a check: those of the command it runs. -/
def Healthcheck.verbatim (check : Healthcheck) : List String :=
  check.test.elim [] (·.step.verbatim)

/-- The texts that stand as given on the line of what waits. -/
def Trigger.verbatim : Trigger → List String
  | step s _ => s.verbatim
  | healthcheck check => check.verbatim

/-- The texts that stand on the line of an instruction as they were given. -/
def Instruction.verbatim : Instruction → List String
  | step s => s.verbatim
  | healthcheck check => check.verbatim
  | onbuild trigger => trigger.verbatim

namespace Step

/-- What is written in JSON leaves no text as it was given, and all else is nothing but such texts. -/
theorem lineFeeds_payload (s : Step) : lineFeeds s.payload = lineFeeds (String.join s.verbatim) := by
  have colon : lineFeeds ":" = 0 := by decide
  have equals : lineFeeds "=" = 0 := by decide
  cases s with
  | text role value => simp [payload, verbatim]
  | exec role form => exact (Json.printable_array _).lineFeeds_eq_zero
  | pair role key value =>
    cases role with
    | env => simp [payload, verbatim, lineFeeds_append, equals]
    | label | add | copy => exact (printable_payload rfl).lineFeeds_eq_zero
  | named role name value =>
    cases value with
    | none => cases role <;> simp [payload, verbatim]
    | some value => cases role <;> simp [payload, verbatim, lineFeeds_append, colon, equals]
  | list role values =>
    cases role with
    | volume => exact (Json.printable_array _).lineFeeds_eq_zero
    | expose => exact lineFeeds_intercalate (by decide) values.values

theorem lineFeeds_render (s : Step) : lineFeeds s.render = lineFeeds (String.join s.verbatim) := by
  have gap : lineFeeds (gap s.kind) = 0 := by
    unfold Step.gap
    split <;> decide
  rw [render, lineFeeds_append, lineFeeds_append, s.kind.printable_keyword.lineFeeds_eq_zero, gap,
    s.lineFeeds_payload]
  simp

end Step

theorem Healthcheck.lineFeeds_render (check : Healthcheck) :
    lineFeeds check.render = lineFeeds (String.join check.verbatim) := by
  have opening : lineFeeds (Kind.healthcheck.keyword ++ " ") = 0 := by decide
  rw [render, verbatim, lineFeeds_append, opening, Nat.zero_add]
  cases check.test with
  | none => exact show lineFeeds "NONE" = 0 by decide
  | some command =>
    change lineFeeds (check.options ++ command.step.render) = _
    rw [lineFeeds_append, check.printable_options.lineFeeds_eq_zero, command.step.lineFeeds_render,
      Nat.zero_add]
    rfl

/-- **A line is broken by its verbatim texts and by nothing else.** -/
theorem Instruction.lineFeeds_render (i : Instruction) :
    lineFeeds i.render = lineFeeds (String.join i.verbatim) := by
  cases i with
  | step s => exact s.lineFeeds_render
  | healthcheck check => exact check.lineFeeds_render
  | onbuild trigger =>
    have opening : lineFeeds (Kind.onbuild.keyword ++ " ") = 0 := by decide
    rw [render, lineFeeds_append, opening, Nat.zero_add]
    cases trigger with
    | step s _ => exact s.lineFeeds_render
    | healthcheck check => exact check.lineFeeds_render

/-! ## Verbatim texts do stand on the line -/

/-- The text stands somewhere on the line. -/
def StandsOn (text line : String) : Prop := text.toList <:+: line.toList

namespace StandsOn

variable {text a b : String}

theorem refl (text : String) : StandsOn text text := List.infix_rfl

theorem left (h : StandsOn text a) (b : String) : StandsOn text (a ++ b) := by
  rw [StandsOn, String.toList_append]
  exact List.infix_append_of_infix_left h

theorem right (a : String) (h : StandsOn text b) : StandsOn text (a ++ b) := by
  rw [StandsOn, String.toList_append]
  exact List.infix_append_of_infix_right h

theorem intercalate {texts : List String} (h : text ∈ texts) (sign : String) :
    StandsOn text (sign.intercalate texts) := by
  induction texts with
  | nil => cases h
  | cons first rest ih =>
    cases rest with
    | nil =>
      rw [List.mem_singleton.1 h, String.intercalate_singleton]
      exact refl first
    | cons second rest =>
      rw [String.intercalate_cons_cons]
      rcases List.mem_cons.1 h with rfl | later
      · exact ((refl text).left sign).left _
      · exact right _ (ih later)

end StandsOn

theorem Step.standsOn_render {s : Step} {text : String} (h : text ∈ s.verbatim) :
    StandsOn text s.render := by
  refine .right _ ?_
  cases s with
  | text role value =>
    rw [List.mem_singleton.1 h]
    exact .refl value
  | exec role form => cases h
  | pair role key value =>
    cases role with
    | env =>
      rcases List.mem_pair.1 h with rfl | rfl
      · exact ((StandsOn.refl text).left _).left _
      · exact .right _ (.refl text)
    | label | add | copy => cases h
  | named role name value =>
    rcases List.mem_cons.1 h with rfl | given
    · cases value with
      | none => cases role <;> exact .refl text
      | some value => cases role <;> exact ((StandsOn.refl text).left _).left _
    · obtain rfl := Option.mem_toList.1 given
      cases role <;> exact .right _ (.refl text)
  | list role values =>
    cases role with
    | volume => cases h
    | expose => exact .intercalate h _

theorem Healthcheck.standsOn_render {check : Healthcheck} {text : String} (h : text ∈ check.verbatim) :
    StandsOn text check.render := by
  unfold verbatim at h
  rw [render]
  refine .right _ ?_
  cases htest : check.test with
  | none =>
    rw [htest] at h
    cases h
  | some command =>
    rw [htest] at h
    exact .right _ (Step.standsOn_render h)

theorem Instruction.standsOn_render {i : Instruction} {text : String} (h : text ∈ i.verbatim) :
    StandsOn text i.render := by
  cases i with
  | step s => exact Step.standsOn_render h
  | healthcheck check => exact Healthcheck.standsOn_render h
  | onbuild trigger =>
    refine .right _ ?_
    cases trigger with
    | step s _ => exact Step.standsOn_render h
    | healthcheck check => exact Healthcheck.standsOn_render h

/-! ## Lines of the text -/

namespace Dockerfile

/-- The lines of the text are those of the instructions, in turn, and the last one has its end too. -/
def OneLineEach (file : Dockerfile) : Prop :=
  file.render.toList.splitOn '\n' = file.commands.map (·.render.toList) ++ [[]]

instance (file : Dockerfile) : Decidable file.OneLineEach :=
  inferInstanceAs (Decidable (_ = _))

theorem toList_render (file : Dockerfile) :
    file.render.toList = (file.commands.map (·.render.toList)).flatMap (· ++ ['\n']) := by
  rw [render, String.toList_join, List.flatMap_map, List.flatMap_map]
  simp only [String.toList_append]
  rfl

theorem splitOn_render (file : Dockerfile) :
    file.render.toList.splitOn '\n'
      = file.commands.flatMap (·.render.toList.splitOn '\n') ++ [[]] := by
  rw [toList_render, splitOn_ended, List.flatMap_map]

theorem lineFeeds_render (file : Dockerfile) :
    lineFeeds file.render
      = file.length + lineFeeds (String.join (file.commands.flatMap Instruction.verbatim)) := by
  rw [length_eq, render]
  induction file.commands with
  | nil => rfl
  | cons i rest ih =>
    have ended : lineFeeds (i.render ++ "\n") = lineFeeds (String.join i.verbatim) + 1 := by
      rw [lineFeeds_append, i.lineFeeds_render]
      rfl
    rw [List.map_cons, String.join_cons, lineFeeds_append, ih, ended, List.flatMap_cons,
      String.join_append, lineFeeds_append, List.length_cons]
    omega

theorem oneLineEach_iff (file : Dockerfile) :
    file.OneLineEach ↔ ∀ i ∈ file.commands, ∀ text ∈ i.verbatim, '\n' ∉ text.toList := by
  constructor
  · intro each
    -- As many lines as instructions leave no line feed to a verbatim text.
    have lines := congrArg List.length each
    rw [length_splitOn, List.length_append, List.length_map, ← file.length_eq] at lines
    have total := file.lineFeeds_render
    rw [lineFeeds, Nat.add_right_cancel lines, Nat.left_eq_add, lineFeeds_join_eq_zero_iff] at total
    exact fun i hi text given => total text (List.mem_flatMap.2 ⟨i, hi, given⟩)
  · intro unbroken
    rw [OneLineEach, splitOn_render, List.map_eq_flatMap]
    congr 1
    refine List.flatMap_congr fun i hi => ?_
    have single : lineFeeds i.render = 0 :=
      i.lineFeeds_render.trans (lineFeeds_join_eq_zero_iff.2 (unbroken i hi))
    exact List.splitOn_eq_singleton (lineFeeds_eq_zero_iff.1 single)

/-- **One line for each instruction, and one more for each line feed in a text that stands as given.** The
lines of the text are those of each instruction, in turn, each with its end. Their number is that of the
instructions and of the line feeds in their verbatim texts, which do stand on their lines; so every
instruction has one line exactly if there is no such line feed. -/
theorem render_lines (file : Dockerfile) :
    file.render.toList.splitOn '\n'
      = file.commands.flatMap (·.render.toList.splitOn '\n') ++ [[]]
    ∧ lineFeeds file.render
      = file.length + lineFeeds (String.join (file.commands.flatMap Instruction.verbatim))
    ∧ (file.OneLineEach ↔ ∀ i ∈ file.commands, ∀ text ∈ i.verbatim, '\n' ∉ text.toList)
    ∧ ∀ i ∈ file.commands, ∀ text ∈ i.verbatim, StandsOn text i.render :=
  ⟨file.splitOn_render, file.lineFeeds_render, file.oneLineEach_iff,
    fun _ _ _ => Instruction.standsOn_render⟩

/-- A line feed in a label stays on its line; one in a command that a waiting check runs does not. -/
theorem render_lines_waiting :
    let label := Instruction.step (.pair .label "k" "1\n2")
    let waiting := Instruction.onbuild (.healthcheck { test := some (.shell "a\nb") })
    let file := ofList [label, waiting]
    (ofList [label]).OneLineEach ∧ ¬file.OneLineEach ∧ lineFeeds file.render = 3
    ∧ waiting ∈ file.commands ∧ "a\nb" ∈ waiting.verbatim ∧ StandsOn "a\nb" waiting.render := by
  intro label waiting file
  have member : waiting ∈ file.commands := List.mem_cons_of_mem _ List.mem_cons_self
  have given : "a\nb" ∈ waiting.verbatim := List.mem_cons_self
  obtain ⟨-, lines, each, stands⟩ := render_lines file
  refine ⟨(render_lines _).2.2.1.2 ?_, fun whole => ?_, lines.trans (by decide), member, given,
    stands waiting member _ given⟩
  · intro i hi text htext
    rw [List.mem_singleton.1 hi] at htext
    cases htext
  · exact absurd (each.1 whole waiting member _ given) (by decide)

/-- The value of one variable brings in any lines. -/
theorem render_injected (key value lines : String) :
    (ofList [.step (.pair .env key (value ++ "\n" ++ lines))]).render
      = (Step.pair .env key value).render ++ "\n" ++ (lines ++ "\n") := by
  change String.join [(Step.pair .env key (value ++ "\n" ++ lines)).render ++ "\n"] = _
  simp only [Step.render, Step.payload, Step.kind, String.join_cons, String.join_nil,
    String.append_empty, String.append_assoc]

/-- One variable whose value holds a line feed has the text of two instructions. -/
theorem render_twofold :
    let file := ofList [.step (.pair .env "A" "1\nRUN evil")]
    let honest := ofList [.step (.pair .env "A" "1"), .step (.text .shellRun "evil")]
    file.length = 1 ∧ ¬file.OneLineEach ∧ lineFeeds file.render = 2
    ∧ honest.length = 2 ∧ honest.OneLineEach ∧ file.render = honest.render := by
  decide +kernel

end Dockerfile

end ImageRecipe
