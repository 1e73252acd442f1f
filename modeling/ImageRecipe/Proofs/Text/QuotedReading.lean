import ImageRecipe.Proofs.Text.JsonReading
import ImageRecipe.Proofs.Text.Spelling
import ImageRecipe.Text.Quoted

/-!
# Reading quoted byte strings back

A quoted byte string can be told from whatever follows it, and it says which bytes it quotes: also those that
spell no character, and those of characters that do not show. Nothing is lost between the quotation marks,
and no mark within the bytes is taken for the closing one.

* `scan` — reads up to the closing quotation mark, character by character;
* `read?` — the bytes of a quoted byte string, and what follows it.

Principal results: `scan_escape`, `scan_hexByte` — the spelling of one character, and of one byte, is read as
what it was written for, whatever comes next; `read?_quote` — so is a whole byte string.
-/

set_option autoImplicit false

namespace ImageRecipe.Quoted

/-! ## The reader -/

/-- Where the reader stands: among the bytes, behind a backslash, before the brace of a code point, among the
digits of one, or among those of a byte. -/
inductive Mode where
  | plain
  | escaped
  | brace
  | number (value : Nat)
  | byte (owed value : Nat)

/-- The character that a letter stands for after a backslash. -/
def meaning? : Char → Option Char
  | '0' => some '\x00'
  | 't' => some '\t'
  | 'r' => some '\r'
  | 'n' => some '\n'
  | '"' => some '"'
  | '\\' => some '\\'
  | _ => none

/-- What is read after some bytes, with these in front. -/
def preceded (bytes : List UInt8) (later : Option (List UInt8 × List Char)) :
    Option (List UInt8 × List Char) :=
  later.map fun (read, rest) => (bytes ++ read, rest)

/-- The bytes up to the closing quotation mark, and the text after it, unless there is none or a spelling is
wrong. -/
def scan : Mode → List Char → Option (List UInt8 × List Char)
  | _, [] => none
  | .plain, c :: rest =>
    if c = '"' then some ([], rest)
    else if c = '\\' then scan .escaped rest
    else preceded (String.utf8EncodeChar c) (scan .plain rest)
  | .escaped, c :: rest =>
    if c = 'u' then scan .brace rest
    else if c = 'x' then scan (.byte 2 0) rest
    else (meaning? c).bind fun d => preceded (String.utf8EncodeChar d) (scan .plain rest)
  | .brace, c :: rest => if c = '\x7b' then scan (.number 0) rest else none
  | .number value, c :: rest =>
    if c = '\x7d' then preceded (String.utf8EncodeChar (Char.ofNat value)) (scan .plain rest)
    else (Json.hexValue? c).bind fun digit => scan (.number (value * 16 + digit)) rest
  | .byte owed value, c :: rest =>
    (Json.hexValue? c).bind fun digit =>
      if owed = 1 then preceded [UInt8.ofNat (value * 16 + digit)] (scan .plain rest)
      else scan (.byte (owed - 1) (value * 16 + digit)) rest

/-- The bytes of a quoted byte string at the beginning of a text, and the text after it. -/
def read? : List Char → Option (List UInt8 × List Char)
  | '"' :: rest => scan .plain rest
  | _ => none

/-! ## Spellings of one piece -/

theorem preceded_preceded (a b : List UInt8) (later : Option (List UInt8 × List Char)) :
    preceded a (preceded b later) = preceded (a ++ b) later := by
  cases later <;> simp [preceded]

theorem scan_digit {n : Nat} (h : n < 16) (value : Nat) (rest : List Char) :
    scan (.number value) (n.digitChar :: rest) = scan (.number (value * 16 + n)) rest := by
  have all : ∀ m : Fin 16, m.val.digitChar ≠ '\x7d' ∧
      Json.hexValue? m.val.digitChar = some m.val := by decide
  obtain ⟨closing, digit⟩ := all ⟨n, h⟩
  rw [scan, if_neg closing, digit, Option.bind_some]

/-- The digits of a number are read as the number. -/
theorem scan_toDigits (n : Nat) (rest : List Char) :
    scan (.number 0) (Nat.toDigits 16 n ++ rest) = scan (.number n) rest := by
  induction n using Nat.strongRecOn generalizing rest with
  | ind n ih =>
    by_cases small : n < 16
    · rw [Nat.toDigits_of_lt_base small, List.singleton_append, scan_digit small, Nat.zero_mul,
        Nat.zero_add]
    · rw [Nat.toDigits_of_base_le (by decide) (by omega), List.append_assoc, ih (n / 16) (by omega),
        List.singleton_append, scan_digit (by omega), Nat.div_add_mod']

/-- **The spelling of a character is read as the character**, whatever comes next. -/
theorem scan_escape (c : Char) (rest : List Char) :
    scan .plain (escape c ++ rest) = preceded (String.utf8EncodeChar c) (scan .plain rest) := by
  unfold escape
  split_ifs with hzero htab hreturn hfeed hquote hbackslash hshows
  · subst hzero; rfl
  · subst htab; rfl
  · subst hreturn; rfl
  · subst hfeed; rfl
  · subst hquote; rfl
  · subst hbackslash; rfl
  · rw [List.singleton_append, scan, if_neg hquote, if_neg hbackslash]
  · have spelt : codePoint c ++ rest =
        '\\' :: 'u' :: '\x7b' :: (Nat.toDigits 16 c.toNat ++ '\x7d' :: rest) := by
      simp [codePoint]
    rw [spelt, scan, if_neg (by decide), if_pos rfl, scan, if_pos rfl, scan, if_pos rfl, scan_toDigits,
      scan, if_pos rfl, Char.ofNat_toNat]

/-- **The spelling of a byte that belongs to no character is read as the byte**, whatever comes next. -/
theorem scan_hexByte (b : UInt8) (rest : List Char) :
    scan .plain (hexByte b ++ rest) = preceded [b] (scan .plain rest) := by
  have all : ∀ m : Fin 16, Json.hexValue? (hexDigit m.val) = some m.val := by decide
  have below := b.toNat_lt
  have high : Json.hexValue? (hexDigit (b.toNat / 16)) = some (b.toNat / 16) :=
    all ⟨b.toNat / 16, by omega⟩
  have low : Json.hexValue? (hexDigit (b.toNat % 16)) = some (b.toNat % 16) :=
    all ⟨b.toNat % 16, by omega⟩
  have both : UInt8.ofNat ((0 * 16 + b.toNat / 16) * 16 + b.toNat % 16) = b := by
    rw [Nat.zero_mul, Nat.zero_add, Nat.div_add_mod', UInt8.ofNat_toNat]
  have spelt : hexByte b ++ rest =
      '\\' :: 'x' :: hexDigit (b.toNat / 16) :: hexDigit (b.toNat % 16) :: rest := rfl
  rw [spelt, scan, if_neg (by decide), if_pos rfl, scan, if_neg (by decide), if_pos rfl, scan, high,
    Option.bind_some, if_neg (by decide), scan, low, Option.bind_some, if_pos rfl, both]

/-! ## Byte strings -/

theorem scan_flatMap_hexByte (bytes : List UInt8) (rest : List Char) :
    scan .plain (bytes.flatMap hexByte ++ rest) = preceded bytes (scan .plain rest) := by
  induction bytes with
  | nil => simp [preceded]
  | cons b others ih =>
    rw [List.flatMap_cons, List.append_assoc, scan_hexByte, ih, preceded_preceded,
      List.singleton_append]

theorem scan_spell {piece : Utf8.Piece} (h : piece.Encoded) (rest : List Char) :
    scan .plain (spell piece ++ rest) = preceded piece.bytes (scan .plain rest) := by
  cases piece with
  | char value spelling =>
    rw [spell, scan_escape, h value rfl]
  | invalid bytes => exact scan_flatMap_hexByte bytes rest

theorem scan_flatMap_spell {pieces : List Utf8.Piece} (h : ∀ piece ∈ pieces, piece.Encoded)
    (rest : List Char) :
    scan .plain (pieces.flatMap spell ++ rest) =
      preceded (pieces.flatMap Utf8.Piece.bytes) (scan .plain rest) := by
  induction pieces with
  | nil => simp [preceded]
  | cons piece others ih =>
    obtain ⟨own, later⟩ := List.forall_mem_cons.1 h
    rw [List.flatMap_cons, List.append_assoc, scan_spell own, ih later, preceded_preceded,
      List.flatMap_cons]

/-- **A quoted byte string is read as the byte string**, whatever follows it. -/
theorem read?_quote (bytes : List UInt8) (rest : List Char) :
    read? ((quote bytes).toList ++ rest) = some (bytes, rest) := by
  have spelt : (quote bytes).toList ++ rest =
      '"' :: ((Utf8.decode bytes).flatMap spell ++ '"' :: rest) := by
    simp [quote]
  have encoded : ∀ piece ∈ Utf8.decode bytes, piece.Encoded :=
    Utf8.encoded_scan none bytes (by simp)
  rw [spelt, read?, scan_flatMap_spell encoded, Utf8.bytes_decode, scan, if_pos rfl]
  simp [preceded]

example : read? "\"a \\u{7f}\\x80\\\"\": b".toList = some ([0x61, 0x20, 0x7F, 0x80, 0x22], ": b".toList) := by
  decide +kernel

end ImageRecipe.Quoted
