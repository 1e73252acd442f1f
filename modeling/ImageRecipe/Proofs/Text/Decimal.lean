import Mathlib.Data.List.Forall2
import Mathlib.Data.List.Induction
import ImageRecipe.Duration

/-!
# Spans of time in decimal

A span is written as a number in decimal and a unit. The number has no zero in front, and the unit begins with
a letter, so the text says where the one ends and the other begins, and what the span is, to the nanosecond.

* `IsDecimal`, `IsInteger` — a text that writes a number in decimal, without a sign or with one;
* `Duration.Written` — a text that writes a span exactly, in the largest unit that does.

Principal results:

* `isDecimal_toString`, `isInteger_iff` — numbers are written in decimal, by induction on their digits, and in no
  other way;
* `Duration.coarsest_eq` — only what a span has beyond its whole seconds decides on the unit;
* `Duration.written_render` — a span is written exactly;
* `Duration.Written.unique` — no text writes two spans.
-/

set_option autoImplicit false

namespace ImageRecipe

/-! ## Numbers -/

/-- A text that writes a number in decimal, with no zero in front. -/
structure IsDecimal (text : String) (number : Nat) : Prop where
  digits : ∀ c ∈ text.toList, c.isDigit = true
  not_empty : text ≠ ""
  leading : text.toList.head? = some '0' → text = "0"
  value : Nat.ofDigitChars 10 text.toList 0 = number

theorem digitChar_ne_zero {d : Nat} (hpos : 0 < d) (hlt : d < 10) : d.digitChar ≠ '0' := by
  have all : ∀ k : Fin 10, 0 < k.val → k.val.digitChar ≠ '0' := by decide
  exact all ⟨d, hlt⟩ hpos

/-- The first digit of a number is no zero, unless the number is zero. -/
theorem head?_toDigits_ne_zero {n : Nat} (h : 0 < n) : (Nat.toDigits 10 n).head? ≠ some '0' := by
  induction n using Nat.strongRecOn with
  | ind n ih =>
    by_cases small : n < 10
    · rw [Nat.toDigits_of_lt_base small, List.head?_cons]
      simpa using digitChar_ne_zero h small
    · rw [Nat.toDigits_of_base_le (by decide) (by omega),
        List.head?_append_of_ne_nil _ Nat.toDigits_ne_nil]
      exact ih (n / 10) (by omega) (by omega)

theorem toList_toString (n : Nat) : (toString n).toList = Nat.toDigits 10 n := by
  rw [Nat.toString_eq_ofList_toDigits, String.toList_ofList]

/-- **Numbers are written in decimal.** -/
theorem isDecimal_toString (n : Nat) : IsDecimal (toString n) n where
  digits c hc := by
    rw [toList_toString] at hc
    exact Nat.isDigit_of_mem_toDigits (by decide) (by decide) hc
  not_empty h := by
    have := congrArg String.toList h
    rw [toList_toString] at this
    exact Nat.toDigits_ne_nil this
  leading h := by
    rw [toList_toString] at h
    obtain rfl : n = 0 := by
      by_contra other
      exact head?_toDigits_ne_zero (by omega) h
    rfl
  value := by
    rw [toList_toString]
    exact Nat.ofDigitChars_ten_toDigits

theorem exists_eq_digitChar {c : Char} (h : c.isDigit = true) : ∃ d < 10, c = d.digitChar := by
  simp only [Char.isDigit, Bool.and_eq_true, decide_eq_true_eq] at h
  have least : 48 ≤ c.toNat := UInt32.le_iff_toNat_le.1 h.1
  have greatest : c.toNat ≤ 57 := UInt32.le_iff_toNat_le.1 h.2
  refine ⟨c.toNat - 48, by omega, ?_⟩
  rw [← Char.toNat_inj, Nat.toNat_digitChar_of_lt_ten (by omega)]
  omega

/-- Digits with no zero in front are those of their value. -/
theorem toDigits_ofDigitChars {digits : List Char} (hdigits : ∀ c ∈ digits, c.isDigit = true)
    (hempty : digits ≠ []) (hleading : digits.head? = some '0' → digits = ['0']) :
    Nat.toDigits 10 (Nat.ofDigitChars 10 digits 0) = digits := by
  induction digits using List.reverseRec with
  | nil => exact absurd rfl hempty
  | append_singleton front last ih =>
    obtain ⟨d, hd, rfl⟩ := exists_eq_digitChar (hdigits last (by simp))
    rw [Nat.ofDigitChars_append, Nat.ofDigitChars_cons_digitChar_of_lt_ten hd, Nat.ofDigitChars_nil]
    cases front with
    | nil =>
      rw [Nat.ofDigitChars_nil, Nat.mul_zero, Nat.zero_add, Nat.toDigits_of_lt_base hd, List.nil_append]
    | cons first rest =>
      have nonzero : first ≠ '0' := by
        rintro rfl
        simpa using hleading rfl
      have digits := ih (fun c hc => hdigits c (List.mem_append_left _ hc)) (List.cons_ne_nil _ _)
        fun zero => absurd (Option.some.inj zero) nonzero
      have positive : 0 < Nat.ofDigitChars 10 (first :: rest) 0 := by
        refine Nat.pos_of_ne_zero fun zero => nonzero ?_
        rw [zero] at digits
        exact (List.cons.inj digits).1.symm
      generalize Nat.ofDigitChars 10 (first :: rest) 0 = value at digits positive ⊢
      rw [Nat.toDigits_of_base_le (by decide) (by omega), show (10 * value + d) / 10 = value by omega,
        show (10 * value + d) % 10 = d by omega, digits]

/-- A number is written in one way. -/
theorem IsDecimal.eq_toString {text : String} {number : Nat} (h : IsDecimal text number) :
    text = toString number := by
  rw [← String.toList_inj, toList_toString, ← h.value]
  refine (toDigits_ofDigitChars h.digits (mt String.toList_eq_nil_iff.1 h.not_empty) fun zero => ?_).symm
  rw [h.leading zero]
  rfl

/-- A text writes at most one number. -/
theorem IsDecimal.unique {text : String} {a b : Nat} (ha : IsDecimal text a) (hb : IsDecimal text b) :
    a = b :=
  ha.value.symm.trans hb.value

theorem toString_inj {a b : Nat} (h : toString a = toString b) : a = b :=
  (isDecimal_toString a).unique (h ▸ isDecimal_toString b)

/-- A text that writes a number of either sign in decimal. -/
def IsInteger (text : String) (number : Int) : Prop :=
  ∃ digits, IsDecimal digits number.natAbs ∧ text = (if number < 0 then "-" else "") ++ digits

/-- **A number of either sign is written in one way.** -/
theorem isInteger_iff {text : String} {number : Int} : IsInteger text number ↔ text = toString number := by
  have sign : (if number < 0 then "-" else "") ++ toString number.natAbs = toString number := by
    cases number with
    | ofNat n => exact String.empty_append
    | negSucc n =>
      rw [if_pos (Int.negSucc_lt_zero n)]
      rfl
  constructor
  · rintro ⟨digits, decimal, rfl⟩
    rw [decimal.eq_toString, sign]
  · rintro rfl
    exact ⟨_, isDecimal_toString _, sign.symm⟩

theorem forall₂_isInteger_iff {texts : List String} {numbers : List Int} :
    List.Forall₂ IsInteger texts numbers ↔ texts = numbers.map toString := by
  have each : IsInteger = fun text number => text = toString number := by
    funext text number
    exact propext isInteger_iff
  rw [each, ← List.forall₂_map_right_iff (R := Eq), List.forall₂_eq_eq_eq]

theorem IsDecimal.blank_not_mem {text : String} {number : Nat} (h : IsDecimal text number) :
    ' ' ∉ text.toList :=
  fun member => absurd (h.digits _ member) (by decide)

/-! ## Spans -/

theorem TimeUnit.suffix_injective {a b : TimeUnit} (h : a.suffix = b.suffix) : a = b := by
  revert h
  cases a <;> cases b <;> decide

/-- The suffix of a unit begins with a letter. -/
theorem TimeUnit.takeWhile_suffix (unit : TimeUnit) : unit.suffix.toList.takeWhile Char.isDigit = [] := by
  cases unit <;> decide

/-- A number and a unit that are written without a gap are told apart. -/
theorem IsDecimal.append_suffix_inj {digits other : String} {a b : Nat} (ha : IsDecimal digits a)
    (hb : IsDecimal other b) {unit sort : TimeUnit} (h : digits ++ unit.suffix = other ++ sort.suffix) :
    a = b ∧ unit = sort := by
  have front {text : String} {n : Nat} (hn : IsDecimal text n) (unit : TimeUnit) :
      (text ++ unit.suffix).toList.takeWhile Char.isDigit = text.toList := by
    rw [String.toList_append, List.takeWhile_append_of_pos hn.digits, unit.takeWhile_suffix,
      List.append_nil]
  have same : digits = other := by
    rw [← String.toList_inj, ← front ha unit, h, front hb sort]
  subst same
  exact ⟨ha.unique hb, TimeUnit.suffix_injective ((String.append_right_inj digits).1 h)⟩

namespace Duration

/-- A text that writes a span: a number in decimal and a unit whose product is the span, the unit being the
largest of which the span is a whole number. -/
def Written (d : Duration) (text : String) : Prop :=
  ∃ (digits : String) (number : Nat) (unit : TimeUnit), text = digits ++ unit.suffix ∧
    IsDecimal digits number ∧ number * unit.size = d.nanoseconds ∧
    ∀ other : TimeUnit, other.size ∣ d.nanoseconds → other.size ≤ unit.size

/-- Only what a span has beyond its whole seconds decides on its unit. -/
theorem coarsest_eq (d : Duration) : d.coarsest =
    if d.subsecond = 0 then .second
    else if d.subsecond % TimeUnit.millisecond.size = 0 then .millisecond
    else if d.subsecond % TimeUnit.microsecond.size = 0 then .microsecond
    else .nanosecond := by
  have within (unit : TimeUnit) (h : unit.size ∣ TimeUnit.second.size) :
      d.subsecond % unit.size = d.nanoseconds % unit.size :=
    Nat.mod_mod_of_dvd _ h
  rw [within .millisecond (by decide), within .microsecond (by decide)]
  rfl

/-- **A span is written exactly**, in the largest unit that does. -/
theorem written_render (d : Duration) : d.Written d.render :=
  ⟨_, _, _, rfl, isDecimal_toString _, Nat.div_mul_cancel d.size_coarsest_dvd,
    fun _ => d.size_le_coarsest⟩

/-- **No text writes two spans.** -/
theorem Written.unique {a b : Duration} {text : String} (ha : a.Written text) (hb : b.Written text) :
    a = b := by
  obtain ⟨digits, number, unit, rfl, decimal, product, -⟩ := ha
  obtain ⟨digits', number', unit', same, decimal', product', -⟩ := hb
  obtain ⟨rfl, rfl⟩ := decimal.append_suffix_inj decimal' same
  obtain ⟨a⟩ := a
  obtain ⟨b⟩ := b
  exact congrArg Duration.mk (product.symm.trans product')

theorem render_injective {a b : Duration} (h : a.render = b.render) : a = b :=
  a.written_render.unique (h ▸ b.written_render)

theorem blank_not_mem_render (d : Duration) : ' ' ∉ d.render.toList := by
  rw [render, String.toList_append, List.mem_append, not_or]
  refine ⟨(isDecimal_toString _).blank_not_mem, ?_⟩
  cases d.coarsest <;> decide

end Duration

end ImageRecipe
