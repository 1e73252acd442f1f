/-!
# UTF-8 text in byte strings

Names on a host are byte strings that need not be text.

* `encode` — the bytes of a text;
* `decode` — a byte string cut into characters and faulty stretches, each faulty stretch as long as
  the bytes could still have begun a character;
* `lossy` — the text of a byte string, one replacement character for each faulty stretch.

Principal result: `bytes_decode` — cutting loses no byte.
-/

set_option autoImplicit false

namespace ImageRecipe.Utf8

/-- The bytes of a text. -/
def encode (text : List Char) : List UInt8 :=
  text.flatMap String.utf8EncodeChar

/-- A piece of a byte string: a character with the bytes that spell it, or bytes that spell none. -/
inductive Piece where
  | char (value : Char) (spelling : List UInt8)
  | invalid (bytes : List UInt8)
  deriving DecidableEq, Repr

/-- The bytes a piece was cut from. -/
def Piece.bytes : Piece → List UInt8
  | .char _ spelling => spelling
  | .invalid bytes => bytes

/-- The beginning of a character: the bytes so far, the value they carry, how many bytes are still
owed, and the range the next one must lie in. -/
structure Opening where
  bytes : List UInt8
  value : Nat
  owed : Nat
  low : UInt8 := 0x80
  high : UInt8 := 0xBF
  deriving DecidableEq, Repr

/-- The characters that the leading byte `b` can open. The ranges of the second byte keep out
spellings that are longer than needed, surrogates, and values above the last code point. -/
def opening? (b : UInt8) : Option Opening :=
  if 0xC2 ≤ b ∧ b ≤ 0xDF then some { bytes := [b], value := b.toNat - 0xC0, owed := 1 }
  else if b = 0xE0 then some { bytes := [b], value := 0, owed := 2, low := 0xA0 }
  else if b = 0xED then some { bytes := [b], value := 13, owed := 2, high := 0x9F }
  else if 0xE1 ≤ b ∧ b ≤ 0xEF then some { bytes := [b], value := b.toNat - 0xE0, owed := 2 }
  else if b = 0xF0 then some { bytes := [b], value := 0, owed := 3, low := 0x90 }
  else if 0xF1 ≤ b ∧ b ≤ 0xF3 then some { bytes := [b], value := b.toNat - 0xF0, owed := 3 }
  else if b = 0xF4 then some { bytes := [b], value := 4, owed := 3, high := 0x8F }
  else none

/-- The opening after one more byte that fits. -/
def Opening.push (o : Opening) (b : UInt8) : Opening :=
  { bytes := o.bytes ++ [b], value := o.value * 64 + (b.toNat - 0x80), owed := o.owed - 1 }

/-- Cuts `bytes` into pieces, given the character that the bytes before them have opened. A byte that
does not continue that character closes it as faulty and is looked at afresh. -/
def scan : Option Opening → List UInt8 → List Piece
  | none, [] => []
  | some o, [] => [.invalid o.bytes]
  | none, b :: rest =>
    if b < 0x80 then .char (Char.ofNat b.toNat) [b] :: scan none rest
    else match opening? b with
      | some o => scan (some o) rest
      | none => .invalid [b] :: scan none rest
  | some o, b :: rest =>
    if o.low ≤ b ∧ b ≤ o.high then
      let next := o.push b
      if o.owed = 1 then .char (Char.ofNat next.value) next.bytes :: scan none rest
      else scan (some next) rest
    else if b < 0x80 then
      .invalid o.bytes :: .char (Char.ofNat b.toNat) [b] :: scan none rest
    else match opening? b with
      | some new => .invalid o.bytes :: scan (some new) rest
      | none => .invalid o.bytes :: .invalid [b] :: scan none rest

/-- A byte string cut into characters and faulty stretches. -/
def decode (bytes : List UInt8) : List Piece :=
  scan none bytes

/-- What the lossy text shows for a piece. -/
def Piece.shown : Piece → Char
  | .char value _ => value
  | .invalid _ => '\uFFFD'

/-- The text of a byte string, with a replacement character for each faulty stretch. -/
def lossy (bytes : List UInt8) : String :=
  String.ofList ((decode bytes).map Piece.shown)

/-- The character that a piece spells, if it spells one. -/
def Piece.char? : Piece → Option Char
  | .char value _ => some value
  | .invalid _ => none

/-- A byte string as text, if all of it is text. -/
def text? (bytes : List UInt8) : Option String :=
  ((decode bytes).mapM Piece.char?).map String.ofList

theorem opening?_bytes {b : UInt8} {o : Opening} (h : opening? b = some o) : o.bytes = [b] := by
  unfold opening? at h
  grind

theorem Opening.push_bytes (o : Opening) (b : UInt8) : (o.push b).bytes = o.bytes ++ [b] := rfl

theorem bytes_scan (state : Option Opening) (bytes : List UInt8) :
    (scan state bytes).flatMap Piece.bytes
      = (state.map Opening.bytes).getD [] ++ bytes := by
  fun_induction scan state bytes with
  | case1 => rfl
  | case2 => simp [Piece.bytes]
  | case3 b rest h ih => simp [Piece.bytes, ih]
  | case4 b rest h o ho ih => simp [ih, opening?_bytes ho]
  | case5 b rest h ho ih => simp [Piece.bytes, ih]
  | case6 o b rest h next hn ih => simp [Piece.bytes, ih, next, Opening.push_bytes]
  | case7 o b rest h next hn ih => simp [ih, next, Opening.push_bytes]
  | case8 o b rest h hb ih => simp [Piece.bytes, ih]
  | case9 o b rest h hb new hnew ih => simp [Piece.bytes, ih, opening?_bytes hnew]
  | case10 o b rest h hb hnone ih => simp [Piece.bytes, ih]

/-- Cutting a byte string into pieces loses no byte. -/
theorem bytes_decode (bytes : List UInt8) : (decode bytes).flatMap Piece.bytes = bytes := by
  simp [decode, bytes_scan]

end ImageRecipe.Utf8
