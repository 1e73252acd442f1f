import Mathlib.Data.List.Basic
import ImageRecipe.Text.Json

/-!
# Reading JSON back

What is written as JSON is read by others, so the reader here is not made to fit the writer: it takes every
spelling of a string and any blanks between the signs of an array, as JSON does, and refuses the rest.

* `scan` — cuts a text into strings and the signs between them, character by character; `joined?` puts the
  parts of a string together, pairs of surrogates among them;
* `array?` — the texts of an array of strings; `assignment?` — two strings around an equals sign;
* `scan_escape`, `scan_quote` — the spelling of a character is read as that character, that of a text as
  that text, whatever follows;
* `Printable` — a text that fits on a line, as what is written here does.

Principal results: `array?_array` and `assignment?_quote` — what is read is what was written, for all texts.
No sign inside a text can be taken for one between texts, since the reader is inside a string from one
bare quotation mark to the next, and `escape` leaves none bare.
-/

set_option autoImplicit false

namespace ImageRecipe

namespace Json

/-! ## The reader -/

/-- A part of a string: a character, or a number given for a unit of UTF-16. -/
inductive Part where
  | char (c : Char)
  | unit (value : Nat)

/-- A string, or a character outside of strings. -/
inductive Token where
  | text (value : String)
  | mark (c : Char)
  deriving DecidableEq

/-- The character that a letter stands for after a backslash. -/
def meaning? : Char → Option Char
  | '"' => some '"'
  | '\\' => some '\\'
  | '/' => some '/'
  | 'b' => some '\x08'
  | 'f' => some '\x0c'
  | 'n' => some '\n'
  | 'r' => some '\r'
  | 't' => some '\t'
  | _ => none

/-- The value of a hexadecimal digit, of either case. -/
def hexValue? (c : Char) : Option Nat :=
  if '0' ≤ c ∧ c ≤ '9' then some (c.toNat - '0'.toNat)
  else if 'a' ≤ c ∧ c ≤ 'f' then some (10 + (c.toNat - 'a'.toNat))
  else if 'A' ≤ c ∧ c ≤ 'F' then some (10 + (c.toNat - 'A'.toNat))
  else none

/-- The characters that the parts of a string make. A surrogate counts only in a pair, the high one
first. -/
def joined? : List Part → Option (List Char)
  | [] => some []
  | .char c :: rest => (joined? rest).map (c :: ·)
  | .unit high :: rest =>
    if high < 0xd800 ∨ 0xe000 ≤ high then (joined? rest).map (Char.ofNat high :: ·)
    else match rest with
      | .unit low :: rest =>
        if high < 0xdc00 ∧ 0xdc00 ≤ low ∧ low < 0xe000 then
          (joined? rest).map
            (Char.ofNat (0x10000 + (high - 0xd800) * 0x400 + (low - 0xdc00)) :: ·)
        else none
      | _ => none

/-- Where the reader stands: outside of strings, inside of one, behind a backslash in it, or among the
digits of a number there. The parts of the string are kept with the last one first. -/
inductive Mode where
  | outside
  | inside (parts : List Part)
  | escaped (parts : List Part)
  | number (parts : List Part) (owed value : Nat)

/-- The strings and signs of a text, unless a string in it is not closed or badly spelt. -/
def scan : Mode → List Char → Option (List Token)
  | .outside, [] => some []
  | _, [] => none
  | .outside, c :: rest =>
    if c = '"' then scan (.inside []) rest else (scan .outside rest).map (.mark c :: ·)
  | .inside parts, c :: rest =>
    if c = '"' then
      (joined? parts.reverse).bind fun value =>
        (scan .outside rest).map (.text (String.ofList value) :: ·)
    else if c = '\\' then scan (.escaped parts) rest
    else if c.toNat < 0x20 then none
    else scan (.inside (.char c :: parts)) rest
  | .escaped parts, c :: rest =>
    if c = 'u' then scan (.number parts 4 0) rest
    else (meaning? c).bind fun d => scan (.inside (.char d :: parts)) rest
  | .number parts owed value, c :: rest =>
    (hexValue? c).bind fun digit =>
      if owed = 1 then scan (.inside (.unit (value * 16 + digit) :: parts)) rest
      else scan (.number parts (owed - 1) (value * 16 + digit)) rest

/-- Whether a token is one that may stand anywhere between others. -/
def Token.isBlank : Token → Bool
  | .mark c => c = ' ' || c = '\t' || c = '\n' || c = '\r'
  | .text _ => false

/-- The rest of an array from an element on. -/
def elements? : List Token → Option (List String)
  | [.text value, .mark ']'] => some [value]
  | .text value :: .mark ',' :: rest => (elements? rest).map (value :: ·)
  | _ => none

/-- An array in its brackets. -/
def brackets? : List Token → Option (List String)
  | [.mark '[', .mark ']'] => some []
  | .mark '[' :: rest => elements? rest
  | _ => none

/-- The texts of an array of strings. -/
def array? (text : String) : Option (List String) :=
  (scan .outside text.toList).bind fun tokens => brackets? (tokens.filter (!·.isBlank))

/-- Two strings around an equals sign, with nothing else about them. -/
def assignment? (text : String) : Option (String × String) :=
  (scan .outside text.toList).bind fun tokens =>
    match tokens with
    | [.text key, .mark '=', .text value] => some (key, value)
    | _ => none

example : array? " [\"a\\/\\u00e9\",\t\"\\uD83d\\ude00, \\\"\" ]\n" = some ["a/é", "😀, \""] := by
  decide +kernel

example : array? "[\"a\",]" = none ∧ array? "[\"\\ud83d\"]" = none ∧ array? "[\"\n\"]" = none := by
  decide +kernel

/-! ## Characters -/

theorem meaning?_letter {c d : Char} (h : letter? c = some d) : meaning? d = some c ∧ d ≠ 'u' := by
  unfold letter? at h
  repeat' split at h
  all_goals first
    | contradiction
    | (cases h; subst c; decide)

theorem hexValue?_hexDigit {n : Nat} (h : n < 16) : hexValue? (hexDigit n) = some n := by
  have all : ∀ m : Fin 16, hexValue? (hexDigit m.val) = some m.val := by decide
  exact all ⟨n, h⟩

/-- The part that the spelling of a character is read as. -/
def part (c : Char) : Part :=
  if letter? c = none ∧ c.toNat < 0x20 then .unit c.toNat else .char c

theorem joined?_map_part (text : List Char) : joined? (text.map part) = some text := by
  induction text with
  | nil => rfl
  | cons c rest ih =>
    rw [List.map_cons, part]
    split
    · next low =>
      rw [joined?.eq_def]
      simp only [ih, Option.map_some, Char.ofNat_toNat]
      rw [if_pos (.inl (by omega))]
    · rw [joined?, ih]
      rfl

/-- The spelling of a character is read as the character, whatever comes next. -/
theorem scan_escape (c : Char) (parts : List Part) (rest : List Char) :
    scan (.inside parts) (escape c ++ rest) = scan (.inside (part c :: parts)) rest := by
  unfold escape part
  cases hletter : letter? c with
  | some letter =>
    obtain ⟨meant, apart⟩ := meaning?_letter hletter
    simp [scan, meant, apart]
  | none =>
    by_cases low : c.toNat < 0x20
    · have high : hexValue? (hexDigit (c.toNat / 16)) = some (c.toNat / 16) :=
        hexValue?_hexDigit (by omega)
      have last : hexValue? (hexDigit (c.toNat % 16)) = some (c.toNat % 16) :=
        hexValue?_hexDigit (by omega)
      have zero : hexValue? '0' = some 0 := by decide
      simp [scan, low, high, last, zero, Nat.div_add_mod']
    · have bare : c ≠ '"' ∧ c ≠ '\\' := by
        constructor <;> rintro rfl <;> simp [letter?] at hletter
      simp [scan, low, bare.1, bare.2]

/-! ## Texts -/

theorem scan_flatMap_escape (text : List Char) (parts : List Part) (rest : List Char) :
    scan (.inside parts) (text.flatMap escape ++ rest)
      = scan (.inside ((text.map part).reverse ++ parts)) rest := by
  induction text generalizing parts with
  | nil => rfl
  | cons c others ih =>
    rw [List.flatMap_cons, List.append_assoc, scan_escape, ih, List.map_cons, List.reverse_cons,
      List.append_assoc, List.singleton_append]

/-- The spelling of a text is read as the text, whatever comes next. -/
theorem scan_quote (text : String) (rest : List Char) :
    scan .outside ((quote text).toList ++ rest) = (scan .outside rest).map (.text text :: ·) := by
  have spelt : (quote text).toList ++ rest
      = '"' :: (text.toList.flatMap escape ++ ('"' :: rest)) := by
    simp [quote]
  rw [spelt, scan, if_pos rfl, scan_flatMap_escape, scan, if_pos rfl, List.append_nil,
    List.reverse_reverse, joined?_map_part, Option.bind_some, String.ofList_toList]

/-! ## Lists of texts -/

theorem scan_mark {c : Char} (h : c ≠ '"') (rest : List Char) :
    scan .outside (c :: rest) = (scan .outside rest).map (.mark c :: ·) := by
  rw [scan, if_neg h]

/-- The elements of an array, up to its end, are read as its texts. -/
theorem elements?_scan (first : String) (texts : List String) :
    ∃ tokens, scan .outside ((", ".intercalate ((first :: texts).map quote)).toList ++ [']'])
        = some tokens
      ∧ elements? (tokens.filter (!·.isBlank)) = some (first :: texts) := by
  induction texts generalizing first with
  | nil =>
    refine ⟨[.text first, .mark ']'], ?_, rfl⟩
    rw [List.map_singleton, String.intercalate_singleton, scan_quote]
    rfl
  | cons second rest ih =>
    obtain ⟨tokens, scanned, read⟩ := ih second
    refine ⟨.text first :: .mark ',' :: .mark ' ' :: tokens, ?_, ?_⟩
    · rw [List.map_cons, List.map_cons, String.intercalate_cons_cons, ← List.map_cons,
        String.toList_append, String.toList_append, List.append_assoc, List.append_assoc, scan_quote,
        show ", ".toList = [',', ' '] from rfl, List.cons_append, List.cons_append, List.nil_append,
        scan_mark (by decide), scan_mark (by decide), scanned]
      rfl
    · change elements? (.text first :: .mark ',' :: tokens.filter (!·.isBlank)) = _
      rw [elements?, read]
      rfl

theorem brackets?_of_elements? {tokens : List Token} {texts : List String}
    (h : elements? tokens = some texts) : brackets? (.mark '[' :: tokens) = some texts := by
  unfold brackets?
  split
  · next closed =>
    -- The closing bracket alone is no element.
    rw [(List.cons.inj closed).2] at h
    cases h
  · next same =>
    rw [← (List.cons.inj same).2, h]
  · next other =>
    exact absurd rfl (other tokens)

/-- **An array is read as the texts it was written from**, whatever characters they hold. -/
theorem array?_array (texts : List String) : array? (array texts) = some texts := by
  cases texts with
  | nil => decide
  | cons first rest =>
    obtain ⟨tokens, scanned, read⟩ := elements?_scan first rest
    have spelt : (array (first :: rest)).toList
        = '[' :: ((", ".intercalate ((first :: rest).map quote)).toList ++ [']']) := by
      rw [array, String.toList_append, String.toList_append]
      rfl
    rw [array?, spelt, scan_mark (by decide), scanned]
    exact brackets?_of_elements? read

/-- Two quoted texts around an equals sign are read as these texts. -/
theorem assignment?_quote (key value : String) :
    assignment? (quote key ++ "=" ++ quote value) = some (key, value) := by
  have spelt : (quote key ++ "=" ++ quote value).toList
      = (quote key).toList ++ '=' :: ((quote value).toList ++ []) := by
    simp [String.toList_append]
  rw [assignment?, spelt, scan_quote, scan_mark (by decide), scan_quote]
  rfl

end Json

/-! ## No line is broken -/

/-- A text without characters below the blank; so it holds neither a line feed nor a carriage return. -/
def Printable (text : String) : Prop := ∀ c ∈ text.toList, 0x20 ≤ c.toNat

instance (text : String) : Decidable (Printable text) :=
  decidable_of_iff (text.toList.all (0x20 ≤ ·.toNat) = true) (by simp [Printable])

theorem Printable.append {a b : String} (ha : Printable a) (hb : Printable b) :
    Printable (a ++ b) := by
  intro c hc
  rw [String.toList_append] at hc
  rcases List.mem_append.1 hc with left | right
  · exact ha c left
  · exact hb c right

theorem Printable.intercalate {sign : String} {texts : List String} (hsign : Printable sign)
    (h : ∀ text ∈ texts, Printable text) : Printable (sign.intercalate texts) := by
  induction texts with
  | nil => simp [Printable]
  | cons first rest ih =>
    obtain ⟨own, others⟩ := List.forall_mem_cons.1 h
    cases rest with
    | nil => rwa [String.intercalate_singleton]
    | cons second rest =>
      rw [String.intercalate_cons_cons]
      exact (own.append hsign).append (ih others)

theorem Printable.not_mem {text : String} (h : Printable text) {c : Char} (hc : c.toNat < 0x20) :
    c ∉ text.toList :=
  fun member => Nat.lt_irrefl _ (Nat.lt_of_lt_of_le hc (h c member))

namespace Json

theorem printable_quote (text : String) : Printable (quote text) :=
  fun _ h => quote_printable h

theorem printable_array (texts : List String) : Printable (array texts) := by
  have elements : Printable (", ".intercalate (texts.map quote)) := by
    refine .intercalate (by decide) fun text ht => ?_
    obtain ⟨plain, -, rfl⟩ := List.mem_map.1 ht
    exact printable_quote plain
  exact (Printable.append (by decide) elements).append (by decide)

end Json

end ImageRecipe
