import Mathlib.Data.List.Basic
import ImageRecipe.Instruction.Edit
import ImageRecipe.Proofs.Text.JsonReading

/-!
# Lines in JSON are read back as they were meant

Commands with arguments, copies and volumes are written as arrays, labels as two strings around an equals
sign. The words in them are any texts at all, and the line must give them back.

* `Content` — what stands on such a line, and `Kind.read?` — how a reader takes it from the text behind the
  keyword;
* `read?_payload` — the reader gets the content that the step holds;
* `Step.eq_of_content?` — a step of this sort holds nothing but its kind and its content;
* `Carries` — an instruction itself, in a health check, or waiting for a later build;
* `printable_of_carries` — nothing breaks the line of such an instruction, however it is carried.

Principal result: `quoting_lossless`.
-/

set_option autoImplicit false

namespace ImageRecipe

/-- What a payload in JSON holds. -/
inductive Content where
  | texts (texts : List String)
  | assignment (key value : String)
  deriving DecidableEq

namespace Kind

/-- The kinds whose payload is written in JSON. -/
def isQuoted : Kind → Bool
  | shell | add | copy | execRun | execCmd | volume | execEntrypoint | label => true
  | _ => false

/-- What the text behind the keyword is read as. -/
def read? (kind : Kind) (text : String) : Option Content :=
  if kind = label then (Json.assignment? text).map fun pair => .assignment pair.1 pair.2
  else (Json.array? text).map .texts

end Kind

namespace Step

/-- The content of a step that is written in JSON: a command followed by its arguments, a source and a
destination, paths, or a key and a value. -/
def content? : Step → Option Content
  | exec _ form => some (.texts form.words)
  | pair .add source destination => some (.texts [source, destination])
  | pair .copy source destination => some (.texts [source, destination])
  | pair .label key value => some (.assignment key value)
  | list .volume paths => some (.texts paths.values)
  | _ => none

theorem content?_isSome (step : Step) : step.content?.isSome = step.kind.isQuoted := by
  cases step with
  | text role _ => cases role <;> rfl
  | exec role _ => cases role <;> rfl
  | pair role _ _ => cases role <;> rfl
  | named role _ _ => cases role <;> rfl
  | list role _ => cases role <;> rfl

theorem read?_payload {step : Step} {content : Content} (h : step.content? = some content) :
    step.kind.read? step.payload = some content := by
  have array (kind : Kind) (apart : kind ≠ .label) (texts : List String) :
      kind.read? (Json.array texts) = some (.texts texts) := by
    rw [Kind.read?, if_neg apart, Json.array?_array]
    rfl
  fun_cases content? step with
  | case1 role form =>
    cases h
    exact array role.kind (by cases role <;> nofun) form.words
  | case2 source destination =>
    cases h
    exact array .add (by decide) [source, destination]
  | case3 source destination =>
    cases h
    exact array .copy (by decide) [source, destination]
  | case4 key value =>
    cases h
    change Kind.label.read? (Json.quote key ++ "=" ++ Json.quote value) = _
    rw [Kind.read?, if_pos rfl, Json.assignment?_quote]
    rfl
  | case5 paths =>
    cases h
    exact array .volume (by decide) paths.values
  | case6 => simp_all [content?]

/-- The step of a kind that is written in JSON, with a given content. -/
def ofContent? : Kind → Content → Option Step
  | .shell, .texts (command :: arguments) => some (.exec .shell ⟨command, ⟨arguments⟩⟩)
  | .execRun, .texts (command :: arguments) => some (.exec .run ⟨command, ⟨arguments⟩⟩)
  | .execCmd, .texts (command :: arguments) => some (.exec .cmd ⟨command, ⟨arguments⟩⟩)
  | .execEntrypoint, .texts (command :: arguments) => some (.exec .entrypoint ⟨command, ⟨arguments⟩⟩)
  | .add, .texts [source, destination] => some (.pair .add source destination)
  | .copy, .texts [source, destination] => some (.pair .copy source destination)
  | .label, .assignment key value => some (.pair .label key value)
  | .volume, .texts paths => some (.list .volume ⟨paths⟩)
  | _, _ => none

/-- A step written in JSON holds nothing but its kind and its content. -/
theorem ofContent?_content? {step : Step} {content : Content} (h : step.content? = some content) :
    ofContent? step.kind content = some step := by
  fun_cases content? step with
  | case1 role form =>
    cases h
    cases role <;> rfl
  | case6 => simp_all [content?]
  | _ =>
    cases h
    rfl

theorem eq_of_content? {a b : Step} {content : Content} (hkind : a.kind = b.kind)
    (ha : a.content? = some content) (hb : b.content? = some content) : a = b := by
  have back := ofContent?_content? ha
  rw [hkind, ofContent?_content? hb] at back
  exact (Option.some.inj back).symm

/-- Two lines of one kind are the same only if the steps are. -/
theorem eq_of_payload {a b : Step} (hkind : a.kind = b.kind) (hquoted : a.kind.isQuoted = true)
    (h : a.payload = b.payload) : a = b := by
  obtain ⟨content, ha⟩ := Option.isSome_iff_exists.1 (a.content?_isSome.trans hquoted)
  obtain ⟨other, hb⟩ :=
    Option.isSome_iff_exists.1 (b.content?_isSome.trans (hkind ▸ hquoted))
  have same : some content = some other := by
    rw [← read?_payload ha, ← read?_payload hb, hkind, h]
  exact eq_of_content? hkind ha (Option.some.inj same ▸ hb)

theorem render_of_isQuoted {step : Step} (h : step.kind.isQuoted = true) :
    step.render = step.kind.keyword ++ " " ++ step.payload := by
  have apart : step.kind ≠ .escape := by
    intro same
    rw [same] at h
    cases h
  rw [render, gap, if_neg apart]

theorem printable_payload {step : Step} {content : Content} (h : step.content? = some content) :
    Printable step.payload := by
  fun_cases content? step with
  | case1 => exact Json.printable_array _
  | case2 => exact Json.printable_array _
  | case3 => exact Json.printable_array _
  | case4 key value =>
    exact ((Json.printable_quote key).append (by decide)).append (Json.printable_quote value)
  | case5 => exact Json.printable_array _
  | case6 => simp_all [content?]

end Step

/-! ## Carried by other instructions -/

theorem Kind.printable_keyword (kind : Kind) : Printable kind.keyword := by
  cases kind <;> decide

theorem printable_toString (n : Nat) : Printable (toString n) := by
  intro c hc
  rw [Nat.toString_eq_ofList_toDigits, String.toList_ofList] at hc
  have digit := Nat.isDigit_of_mem_toDigits (by decide) (by decide) hc
  simp only [Char.isDigit, Bool.and_eq_true, decide_eq_true_eq] at digit
  have least : '0'.val.toNat ≤ c.val.toNat := UInt32.le_iff_toNat_le.1 digit.1
  exact Nat.le_trans (by decide) least

theorem Duration.printable_render (d : Duration) : Printable d.render := by
  refine (printable_toString _).append ?_
  cases d.coarsest <;> decide

theorem Healthcheck.printable_options (check : Healthcheck) : Printable check.options := by
  have opening : Printable ("--interval=" ++ check.interval.render ++ " --timeout="
      ++ check.timeout.render ++ " ") := by
    refine .append (.append (.append (.append (by decide) ?_) (by decide)) ?_) (by decide)
    · exact check.interval.printable_render
    · exact check.timeout.printable_render
  refine .append (.append (.append (.append opening ?_) (by decide)) ?_) (by decide)
  · cases check.startPeriod with
    | none => decide
    | some period => exact .append (.append (by decide) period.printable_render) (by decide)
  · exact printable_toString check.retries

theorem Step.printable_render {step : Step} (h : step.kind.isQuoted = true) :
    Printable step.render := by
  obtain ⟨content, hcontent⟩ := Option.isSome_iff_exists.1 (step.content?_isSome.trans h)
  rw [render_of_isQuoted h]
  exact (step.kind.printable_keyword.append (by decide)).append (printable_payload hcontent)

/-- The first instruction is the second one, is the test of that health check, or waits in it for a later
build. -/
inductive Carries : Instruction → Instruction → Prop where
  | itself (i : Instruction) : Carries i i
  | check {check : Healthcheck} {command : CheckCommand} (htest : check.test = some command) :
    Carries (.step command.step) (.healthcheck check)
  | later {i : Instruction} {trigger : Trigger} (h : Carries i trigger.instruction) :
    Carries i (.onbuild trigger)

/-- What is written in JSON wraps nothing. -/
theorem exists_step_of_isQuoted {i : Instruction} (h : i.kind.isQuoted = true) :
    ∃ s, i = .step s ∧ s.kind.isQuoted = true := by
  cases i with
  | step s => exact ⟨s, rfl, h⟩
  | healthcheck _ => cases h
  | onbuild _ => cases h

theorem printable_of_carries {i whole : Instruction} (h : Carries i whole)
    (hquoted : i.kind.isQuoted = true) : Printable whole.render := by
  induction h with
  | itself i =>
    obtain ⟨s, rfl, hs⟩ := exists_step_of_isQuoted hquoted
    exact s.printable_render hs
  | @check check command htest =>
    change Printable check.render
    rw [Healthcheck.render, htest]
    refine Printable.append (by decide) (check.printable_options.append ?_)
    exact command.step.printable_render hquoted
  | @later i trigger _ ih =>
    change Printable (Kind.onbuild.keyword ++ " " ++ trigger.render)
    rw [← Instruction.render_instruction]
    exact Printable.append (by decide) (ih hquoted)

namespace Instruction

/-- The content of an instruction that is written in JSON. -/
def content? : Instruction → Option Content
  | step s => s.content?
  | _ => none

/-- What no single edit changes, no edits change. -/
theorem eq_of_edits {α : Type} (view : Instruction → α)
    (step : ∀ {i j : Instruction} {change : Edit}, i.edit? change = some j → view j = view i)
    {i j : Instruction} {edits : List Edit} (h : edits.foldlM edit? i = some j) : view j = view i := by
  induction edits generalizing i with
  | nil =>
    cases h
    rfl
  | cons change rest ih =>
    rw [List.foldlM_cons] at h
    obtain ⟨next, changed, later⟩ := Option.bind_eq_some_iff.1 h
    rw [ih later, step changed]

theorem kind_edits {i j : Instruction} {edits : List Edit} (h : edits.foldlM edit? i = some j) :
    j.kind = i.kind :=
  eq_of_edits kind kind_edit? h

/-- **Lines in JSON lose nothing and stay lines.** An array of texts is read as these texts, whatever
characters they hold. So is, after any edits, what an instruction holds that is written in JSON: it is still
of its kind, the text behind its keyword is read as its content, no other instruction of the kind has its
line, and no line that carries it is broken. -/
theorem quoting_lossless :
    (∀ texts : List String, Json.array? (Json.array texts) = some texts)
    ∧ ∀ (i j : Instruction) (edits : List Edit), i.kind.isQuoted = true →
      edits.foldlM edit? i = some j →
      j.kind = i.kind
      ∧ (∃ text content, j.render = j.kind.keyword ++ " " ++ text ∧ j.content? = some content
        ∧ j.kind.read? text = some content)
      ∧ (∀ other : Instruction, other.kind = j.kind → other.render = j.render → other = j)
      ∧ ∀ whole : Instruction, Carries j whole →
        '\n' ∉ whole.render.toList ∧ '\r' ∉ whole.render.toList := by
  refine ⟨Json.array?_array, fun i j edits hquoted hedits => ?_⟩
  have kept := kind_edits hedits
  rw [← kept] at hquoted
  obtain ⟨s, rfl, hs⟩ := exists_step_of_isQuoted hquoted
  obtain ⟨content, hcontent⟩ := Option.isSome_iff_exists.1 (s.content?_isSome.trans hs)
  refine ⟨kept, ?_, fun other same line => ?_, fun whole carried => ?_⟩
  · exact ⟨s.payload, content, s.render_of_isQuoted hs, hcontent, s.read?_payload hcontent⟩
  · obtain ⟨t, rfl, ht⟩ := exists_step_of_isQuoted (same ▸ hquoted)
    change t.render = s.render at line
    rw [t.render_of_isQuoted ht, s.render_of_isQuoted hs, show t.kind = s.kind from same] at line
    rw [t.eq_of_payload same ht ((String.append_right_inj _).1 line)]
  · have printable := printable_of_carries carried hquoted
    exact ⟨printable.not_mem (by decide), printable.not_mem (by decide)⟩

/-- A source that is edited to hold what parts the elements of an array, and a line feed. -/
theorem quoting_lossless_parted :
    let i := step (.pair .copy "a" "b")
    let j := step (.pair .copy "a\", \"\n" "b")
    let waiting : Trigger := .step (.pair .copy "a\", \"\n" "b") (by decide)
    i.kind.isQuoted = true ∧ [Edit.key "a\", \"\n"].foldlM edit? i = some j
    ∧ (∃ text, j.render = "COPY" ++ " " ++ text
      ∧ Kind.copy.read? text = some (.texts ["a\", \"\n", "b"]))
    ∧ '\n' ∉ (onbuild waiting).render.toList := by
  intro i j waiting
  obtain ⟨-, ⟨text, content, line, held, read⟩, -, unbroken⟩ :=
    quoting_lossless.2 i j [Edit.key "a\", \"\n"] rfl rfl
  have carried : Carries j (onbuild waiting) := .later (.itself j)
  cases held
  exact ⟨rfl, rfl, ⟨text, line, read⟩, (unbroken _ carried).1⟩

end Instruction

end ImageRecipe
