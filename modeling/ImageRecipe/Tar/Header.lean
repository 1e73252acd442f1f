import ImageRecipe.Text.Utf8

/-!
# Headers of tape archives

A header is one block of 512 bytes. Texts and numbers stand in fields of fixed width; numbers are written
in octal digits and end in a zero byte. The checksum is the sum of all bytes of the header, taken with
blanks in its own place.

* `octal`, `number` — a number as a field;
* `Header.block` — a header as a block;
* `Header.length_block` — every header fills one block, whatever its fields hold.
-/

set_option autoImplicit false

namespace ImageRecipe.Tar

/-- The bytes of a block. -/
def blockSize : Nat := 512

/-- The lowest octal digits of a number, so many of them. -/
def octal : (digits : Nat) → Nat → List UInt8
  | 0, _ => []
  | digits + 1, n => octal digits (n / 8) ++ [UInt8.ofNat (0x30 + n % 8)]

/-- The lowest bytes of a number, so many of them, the highest first. -/
def bigEndian : (bytes : Nat) → Nat → List UInt8
  | 0, _ => []
  | bytes + 1, n => bigEndian bytes (n / 256) ++ [UInt8.ofNat (n % 256)]

/-- A number as a field of twelve bytes: in octal if it fits, else in binary after a set highest
bit. -/
def number (n : Nat) : List UInt8 :=
  if n < 0o100000000000 then octal 11 n ++ [0] else 0x80 :: bigEndian 11 n

/-- Bytes brought to a width: cut, or filled with zero bytes. -/
def field (width : Nat) (bytes : List UInt8) : List UInt8 :=
  bytes.take width ++ List.replicate (width - bytes.length) 0

/-- The sum of bytes. -/
def sum (bytes : List UInt8) : Nat :=
  bytes.foldr (fun byte total => byte.toNat + total) 0

/-- The fields of a header that vary. The others are empty but for the mark of the format. -/
structure Header where
  name : List UInt8
  mode : List UInt8
  uid : List UInt8
  gid : List UInt8
  size : Nat
  modified : Nat
  typeFlag : UInt8
  device : List UInt8
  deriving DecidableEq, Repr

/-- The mark of the format. -/
def mark : List UInt8 := [0x75, 0x73, 0x74, 0x61, 0x72, 0x20, 0x20, 0x00]

namespace Header

/-- The part of a header before the checksum. -/
def before (h : Header) : List UInt8 :=
  field 100 h.name ++ field 8 h.mode ++ field 8 h.uid ++ field 8 h.gid
    ++ field 12 (number h.size) ++ field 12 (number h.modified)

/-- The part of a header after the checksum. -/
def after (h : Header) : List UInt8 :=
  h.typeFlag :: field 100 [] ++ field 8 mark ++ field 64 []
    ++ field 8 h.device ++ field 8 h.device ++ field 167 []

/-- The sum over a header with blanks for the checksum. -/
def checksum (h : Header) : Nat :=
  sum (h.before ++ List.replicate 8 0x20 ++ h.after)

/-- A header as a block. -/
def block (h : Header) : List UInt8 :=
  h.before ++ field 8 (octal 7 h.checksum) ++ h.after

end Header

theorem length_octal (digits n : Nat) : (octal digits n).length = digits := by
  induction digits generalizing n with
  | zero => rfl
  | succ digits ih => simp [octal, ih]

theorem length_field (width : Nat) (bytes : List UInt8) : (field width bytes).length = width := by
  simp only [field, List.length_append, List.length_take, List.length_replicate]
  omega

theorem Header.length_block (h : Header) : h.block.length = blockSize := by
  simp only [block, before, after, List.length_append, List.length_cons, length_field, blockSize]

end ImageRecipe.Tar
