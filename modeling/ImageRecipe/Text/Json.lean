/-!
# JSON strings on one line

Some instructions write their payload as JSON, so that a builder reads back every word as given.

* `escape` — the spelling of one character inside a JSON string;
* `quote` (`json_string`) — a text as a JSON string;
* `array` (`json_array`) — a list of texts as a JSON array, the elements parted by a comma and a blank.

Only what JSON asks for is escaped: the quotation mark, the backslash and the characters below the
blank. Principal result: `escape_printable` — no spelling holds a character below the blank, so neither a
line feed nor a carriage return can leave its string.
-/

set_option autoImplicit false

namespace ImageRecipe.Json

/-- The letter that stands for a character after a backslash, for those that have one. -/
def letter? (c : Char) : Option Char :=
  if c = '"' then some '"'
  else if c = '\\' then some '\\'
  else if c = '\x08' then some 'b'
  else if c = '\t' then some 't'
  else if c = '\n' then some 'n'
  else if c = '\x0c' then some 'f'
  else if c = '\r' then some 'r'
  else none

/-- The lower-case hexadecimal digit of a number below sixteen. -/
def hexDigit (n : Nat) : Char :=
  if n < 10 then Char.ofNat (0x30 + n) else Char.ofNat (0x57 + n)

/-- The spelling of a character inside a JSON string. -/
def escape (c : Char) : List Char :=
  match letter? c with
  | some letter => ['\\', letter]
  | none =>
    if c.toNat < 0x20 then
      ['\\', 'u', '0', '0', hexDigit (c.toNat / 16), hexDigit (c.toNat % 16)]
    else [c]

/-- A text as a JSON string. -/
def quote (text : String) : String :=
  String.ofList ('"' :: text.toList.flatMap escape ++ ['"'])

/-- A list of texts as a JSON array of strings. -/
def array (texts : List String) : String :=
  "[" ++ ", ".intercalate (texts.map quote) ++ "]"

theorem hexDigit_printable {n : Nat} (h : n < 16) : 0x20 ≤ (hexDigit n).toNat := by
  have all : ∀ m : Fin 16, 0x20 ≤ (hexDigit m.val).toNat := by decide
  exact all ⟨n, h⟩

theorem letter?_printable {c d : Char} (h : letter? c = some d) : 0x20 ≤ d.toNat := by
  unfold letter? at h
  repeat' split at h
  all_goals cases h
  all_goals decide

/-- No spelling holds a character below the blank. -/
theorem escape_printable {c d : Char} (h : d ∈ escape c) : 0x20 ≤ d.toNat := by
  unfold escape at h
  split at h
  · next letter hl =>
    simp only [List.mem_cons, List.not_mem_nil, or_false] at h
    rcases h with rfl | rfl
    · decide
    · exact letter?_printable hl
  · split at h
    · next low =>
      simp only [List.mem_cons, List.not_mem_nil, or_false] at h
      rcases h with rfl | rfl | rfl | rfl | rfl | rfl
      · decide
      · decide
      · decide
      · decide
      · exact hexDigit_printable (by omega)
      · exact hexDigit_printable (by omega)
    · next high =>
      rw [List.mem_singleton.1 h]
      omega

theorem quote_printable {text : String} {d : Char} (h : d ∈ (quote text).toList) :
    0x20 ≤ d.toNat := by
  simp only [quote, String.toList_ofList, List.mem_append, List.mem_cons, List.mem_flatMap,
    List.not_mem_nil, or_false] at h
  rcases h with (rfl | ⟨c, -, hd⟩) | rfl
  · decide
  · exact escape_printable hd
  · decide

end ImageRecipe.Json
