import ImageRecipe.Tar.Archive
import ImageRecipe.Tar.Listing
import Mathlib.Tactic.Ring

/-!
# The format of archives

What it is for bytes to be an archive is said from the reader's side, and both sides are measured by it:
what is written is an archive, and an archive is read back as what it lists.

* `IsHeader` — a block with the mark of the format and a checksum that agrees with it;
* `Member` — a header, the content it announces, and zero bytes up to a whole block;
* `Archive` — members up to two zero blocks, and the listings that they come to;
* `Entry.listing` — what an entry is to be read back as; `Entry.Fits` — the entries that can be written.

Principal results:

* `read?_of_archive` — an archive is read back as what it lists;
* `archive_write` — what is written lists its entries, if they fit.
-/

set_option autoImplicit false

namespace ImageRecipe.Tar

/-! ## Archives as bytes -/

/-- A block that is a header: it has the mark of the format, and its checksum is the sum over its bytes
with blanks in the place of the checksum. -/
structure IsHeader (block : List UInt8) : Prop where
  length : block.length = blockSize
  marked : (block.drop 257).take 8 = mark
  checked : octalValue (fieldAt 148 8 block) =
    sum (block.take 148 ++ List.replicate 8 0x20 ++ block.drop 156)

/-- A header and its content, filled up to whole blocks. -/
structure Member (header content bytes : List UInt8) : Prop where
  isHeader : IsHeader header
  size : sizeTold header = content.length
  filled : ∃ fill < blockSize, bytes = header ++ (content ++ List.replicate fill 0)
  whole : bytes.length % blockSize = 0

/-- The type that a header tells. -/
def flagTold (header : List UInt8) : UInt8 := header.getD 156 0

/-- What a header and its content list under a path. -/
def listed (path header content : List UInt8) : Listing :=
  { path
    typeFlag := flagTold header
    mode := fieldAt 100 8 header
    uid := fieldAt 108 8 header
    gid := fieldAt 116 8 header
    modified := fieldAt 136 12 header
    content }

/-- Bytes that are an archive, and what it lists: members one after another, each under the path in its
header or, after a member that holds a long name, under that name; and two zero blocks. -/
inductive Archive : List UInt8 → List Listing → Prop
  | ends : Archive (List.replicate (2 * blockSize) 0) []
  | entry {header content bytes rest : List UInt8} {listings : List Listing}
      (hmember : Member header content bytes) (hflag : flagTold header ≠ longNameFlag)
      (hrest : Archive rest listings) :
      Archive (bytes ++ rest) (listed (fieldAt 0 100 header) header content :: listings)
  | longEntry {nameHeader name nameBytes header content bytes rest : List UInt8}
      {listings : List Listing} (hname : Member nameHeader (name ++ [0]) nameBytes)
      (hlong : flagTold nameHeader = longNameFlag) (hzero : 0 ∉ name)
      (hmember : Member header content bytes) (hflag : flagTold header ≠ longNameFlag)
      (hrest : Archive rest listings) :
      Archive (nameBytes ++ (bytes ++ rest)) (listed name header content :: listings)

/-! ## Blocks -/

theorem blocks_nil : blocks [] = [] := by
  rw [blocks]
  simp

theorem blocks_cons {first : List UInt8} (h : first.length = blockSize) (rest : List UInt8) :
    blocks (first ++ rest) = first :: blocks rest := by
  have hne : first ++ rest ≠ [] := by
    intro hnil
    have hlength := congrArg List.length hnil
    simp [h, blockSize] at hlength
  rw [blocks, if_neg hne, ← h, List.take_left, List.drop_left]

/-- Whole blocks are cut off one by one. -/
theorem blocks_append {a : List UInt8} (k : Nat) (h : a.length = k * blockSize) (b : List UInt8) :
    blocks (a ++ b) = blocks a ++ blocks b ∧ (blocks a).length = k ∧ (blocks a).flatten = a := by
  induction k generalizing a with
  | zero =>
    have hnil : a = [] := List.length_eq_zero_iff.1 (by omega)
    subst hnil
    simp [blocks_nil]
  | succ k ih =>
    rw [Nat.succ_mul] at h
    have hfirst : (a.take blockSize).length = blockSize := by
      rw [List.length_take]
      omega
    have hrest : (a.drop blockSize).length = k * blockSize := by
      rw [List.length_drop]
      omega
    obtain ⟨happend, hcount, hflat⟩ := ih hrest
    have hsplit := List.take_append_drop blockSize a
    rw [← hsplit, List.append_assoc, blocks_cons hfirst, blocks_cons hfirst, happend]
    refine ⟨rfl, by rw [List.length_cons, hcount], ?_⟩
    rw [List.flatten_cons, hflat]

/-! ## Reading -/

theorem IsHeader.not_zero {header : List UInt8} (h : IsHeader header) :
    header.all (· = 0) = false := by
  rw [← Bool.not_eq_true, List.all_eq_true]
  intro hall
  have hmem : (0x75 : UInt8) ∈ (header.drop 257).take 8 := by
    rw [h.marked]
    exact List.mem_cons_self
  have hzero := hall _ (List.mem_of_mem_drop (List.mem_of_mem_take hmem))
  exact absurd hzero (by decide)

/-- **A member is read whole**: its header, then its content, and reading goes on behind it. -/
theorem readBlocks_member {header content bytes : List UInt8} (h : Member header content bytes)
    (longName : Option (List UInt8)) (rest : List UInt8) :
    readBlocks longName (blocks (bytes ++ rest)) =
      if flagTold header = longNameFlag then readBlocks (some (textOf content)) (blocks rest)
      else (readBlocks none (blocks rest)).map
        (listed (longName.getD (fieldAt 0 100 header)) header content :: ·) := by
  obtain ⟨fill, hfill, hbytes⟩ := h.filled
  have hwhole := h.whole
  have hlength : bytes.length = blockSize + (content.length + fill) := by
    rw [hbytes]
    simp [h.isHeader.length]
  obtain ⟨count, hcount⟩ : ∃ count, content.length + fill = count * blockSize := by
    refine ⟨(content.length + fill) / blockSize, ?_⟩
    rw [hlength, Nat.add_mod_left] at hwhole
    rw [Nat.div_mul_cancel (Nat.dvd_of_mod_eq_zero hwhole)]
  have hfilled : (content ++ List.replicate fill 0).length = count * blockSize := by
    rw [List.length_append, List.length_replicate, hcount]
  obtain ⟨happend, hblocks, hflat⟩ := blocks_append count hfilled rest
  -- as many blocks as the size asks for are those of the content
  have hasked : (content.length + blockSize - 1) / blockSize = count := by
    simp only [blockSize] at *
    omega
  have htake : (blocks (content ++ List.replicate fill 0) ++ blocks rest).take count =
      blocks (content ++ List.replicate fill 0) := List.take_left' hblocks
  have hdrop : (blocks (content ++ List.replicate fill 0) ++ blocks rest).drop count =
      blocks rest := List.drop_left' hblocks
  rw [hbytes, List.append_assoc, blocks_cons h.isHeader.length, happend, readBlocks]
  simp only [h.isHeader.not_zero, h.size, hasked, htake, hdrop, hflat, List.take_left]
  rfl

theorem readBlocks_zero (longName : Option (List UInt8)) :
    readBlocks longName (blocks (List.replicate (2 * blockSize) 0)) = some [] := by
  have hsplit : List.replicate (2 * blockSize) (0 : UInt8) =
      List.replicate blockSize 0 ++ List.replicate blockSize 0 := by
    rw [List.replicate_append_replicate]
    rfl
  rw [hsplit, blocks_cons List.length_replicate, readBlocks, if_pos]
  simp

theorem textOf_append_zero {text : List UInt8} (h : 0 ∉ text) (n : Nat) :
    textOf (text ++ List.replicate n 0) = text := by
  have hall : ∀ byte ∈ text, decide (byte ≠ 0) = true := fun byte hbyte =>
    decide_eq_true fun heq => h (heq ▸ hbyte)
  rw [textOf, List.takeWhile_append_of_pos hall]
  cases n <;> simp [List.replicate_succ]

/-- **An archive is read back as what it lists.** -/
theorem read?_of_archive {bytes : List UInt8} {listings : List Listing}
    (h : Archive bytes listings) : read? bytes = some listings := by
  unfold read?
  induction h with
  | ends => exact readBlocks_zero none
  | entry hmember hflag hrest ih =>
    rw [readBlocks_member hmember, if_neg hflag, ih]
    rfl
  | @longEntry _ name _ _ _ _ _ _ hname hlong hzero hmember hflag hrest ih =>
    rw [readBlocks_member hname, if_pos hlong, readBlocks_member hmember, if_neg hflag, ih]
    have htext : textOf (name ++ [0]) = name := textOf_append_zero hzero 1
    rw [htext]
    rfl

/-- An archive is a whole number of blocks. -/
theorem length_of_archive {bytes : List UInt8} {listings : List Listing}
    (h : Archive bytes listings) : bytes.length % blockSize = 0 := by
  induction h with
  | ends => rw [List.length_replicate, Nat.mul_mod_left]
  | entry hmember hflag hrest ih =>
    rw [List.length_append, Nat.add_mod, hmember.whole, ih]
    rfl
  | longEntry hname hlong hzero hmember hflag hrest ih =>
    rw [List.length_append, List.length_append, Nat.add_mod, Nat.add_mod (List.length _),
      hname.whole, hmember.whole, ih]
    rfl

/-! ## Numbers in fields -/

theorem octalValue_octal (digits n : Nat) : octalValue (octal digits n) = n % 8 ^ digits := by
  induction digits generalizing n with
  | zero =>
    rw [Nat.pow_zero, Nat.mod_one]
    rfl
  | succ digits ih =>
    have hstep : octalValue (octal digits (n / 8) ++ [UInt8.ofNat (0x30 + n % 8)]) =
        8 * octalValue (octal digits (n / 8)) +
          ((UInt8.ofNat (0x30 + n % 8)).toNat - 0x30) := by
      rw [octalValue, List.foldl_append]
      rfl
    have hdigit : (UInt8.ofNat (0x30 + n % 8)).toNat = 0x30 + n % 8 := by
      rw [UInt8.toNat_ofNat']
      omega
    rw [octal, hstep, hdigit, ih, Nat.pow_succ', Nat.mod_mul]
    omega

theorem binaryValue_bigEndian (bytes n : Nat) :
    binaryValue (bigEndian bytes n) = n % 256 ^ bytes := by
  induction bytes generalizing n with
  | zero =>
    rw [Nat.pow_zero, Nat.mod_one]
    rfl
  | succ bytes ih =>
    have hstep : binaryValue (bigEndian bytes (n / 256) ++ [UInt8.ofNat (n % 256)]) =
        256 * binaryValue (bigEndian bytes (n / 256)) + (UInt8.ofNat (n % 256)).toNat := by
      rw [binaryValue, List.foldl_append]
      rfl
    have hbyte : (UInt8.ofNat (n % 256)).toNat = n % 256 := by
      rw [UInt8.toNat_ofNat']
      omega
    rw [bigEndian, hstep, hbyte, ih, Nat.pow_succ', Nat.mod_mul]
    omega

/-- Octal digits are neither zero bytes nor above the others in ASCII. -/
theorem mem_octal {digits n : Nat} {byte : UInt8} (h : byte ∈ octal digits n) :
    0x30 ≤ byte.toNat ∧ byte.toNat < 0x38 := by
  induction digits generalizing n with
  | zero => cases h
  | succ digits ih =>
    rw [octal, List.mem_append, List.mem_singleton] at h
    rcases h with h | rfl
    · exact ih h
    · rw [UInt8.toNat_ofNat']
      omega

theorem zero_not_mem_octal (digits n : Nat) : 0 ∉ octal digits n := by
  intro h
  have := (mem_octal h).1
  simp at this

theorem length_bigEndian (bytes n : Nat) : (bigEndian bytes n).length = bytes := by
  induction bytes generalizing n with
  | zero => rfl
  | succ bytes ih => rw [bigEndian, List.length_append, ih, List.length_singleton]

theorem length_number (n : Nat) : (number n).length = 12 := by
  unfold number
  split
  · rw [List.length_append, length_octal, List.length_singleton]
  · rw [List.length_cons, length_bigEndian]

/-! ## Fields -/

theorem field_of_le {width : Nat} {bytes : List UInt8} (h : bytes.length ≤ width) :
    field width bytes = bytes ++ List.replicate (width - bytes.length) 0 := by
  rw [field, List.take_of_length_le h]

theorem field_of_eq {width : Nat} {bytes : List UInt8} (h : bytes.length = width) :
    field width bytes = bytes := by
  rw [field_of_le (Nat.le_of_eq h), h, Nat.sub_self, List.replicate_zero, List.append_nil]

theorem textOf_field {width : Nat} {bytes : List UInt8} (h : bytes.length ≤ width)
    (hzero : 0 ∉ bytes) : textOf (field width bytes) = bytes := by
  rw [field_of_le h, textOf_append_zero hzero]

/-- What stands behind a first stretch is looked for there. -/
theorem slice_skip {a rest : List UInt8} {k start width : Nat} (ha : a.length = k)
    (h : k ≤ start) :
    ((a ++ rest).drop start).take width = (rest.drop (start - k)).take width := by
  rw [List.drop_append, ha, List.drop_of_length_le (by omega), List.nil_append]

theorem slice_here {a : List UInt8} {width : Nat} (ha : a.length = width) (rest : List UInt8) :
    ((a ++ rest).drop 0).take width = a := by
  rw [List.drop_zero, List.take_left' ha]

theorem sum_le (bytes : List UInt8) : sum bytes ≤ 255 * bytes.length := by
  induction bytes with
  | nil => exact Nat.le_refl _
  | cons byte rest ih =>
    have hbyte := byte.toNat_lt
    simp only [sum, List.foldr_cons, List.length_cons] at ih ⊢
    omega

/-! ## Headers that are written -/

namespace Header

variable (h : Header)

theorem length_before : h.before.length = 148 := by
  simp only [before, List.length_append, length_field]

theorem length_after : h.after.length = 356 := by
  simp only [after, List.length_append, List.length_cons, length_field]

theorem block_eq : h.block = h.before ++ (field 8 (octal 7 h.checksum) ++ h.after) := by
  rw [block, List.append_assoc]

theorem checksum_lt : h.checksum < 8 ^ 7 := by
  have hsum := sum_le (h.before ++ List.replicate 8 0x20 ++ h.after)
  simp only [List.length_append, length_before, length_after, List.length_replicate] at hsum
  rw [checksum]
  omega

/-- The fields of a header one after another. -/
theorem block_split : h.block = field 100 h.name ++ (field 8 h.mode ++ (field 8 h.uid ++
    (field 8 h.gid ++ (field 12 (number h.size) ++ (field 12 (number h.modified) ++
      (field 8 (octal 7 h.checksum) ++ h.after)))))) := by
  simp only [block, before, List.append_assoc]

theorem after_split : h.after = [h.typeFlag] ++ (field 100 [] ++ (field 8 mark ++
    (field 64 [] ++ (field 8 h.device ++ (field 8 h.device ++ field 167 []))))) := by
  simp only [after, List.append_assoc, List.cons_append, List.nil_append]

theorem name_slice : (h.block.drop 0).take 100 = field 100 h.name := by
  rw [block_split]
  exact slice_here (length_field _ _) _

theorem mode_slice : (h.block.drop 100).take 8 = field 8 h.mode := by
  rw [block_split, slice_skip (length_field _ _) (by decide)]
  exact slice_here (length_field _ _) _

theorem uid_slice : (h.block.drop 108).take 8 = field 8 h.uid := by
  rw [block_split, slice_skip (length_field _ _) (by decide),
    slice_skip (length_field _ _) (by decide)]
  exact slice_here (length_field _ _) _

theorem gid_slice : (h.block.drop 116).take 8 = field 8 h.gid := by
  rw [block_split, slice_skip (length_field _ _) (by decide),
    slice_skip (length_field _ _) (by decide), slice_skip (length_field _ _) (by decide)]
  exact slice_here (length_field _ _) _

theorem size_slice : (h.block.drop 124).take 12 = number h.size := by
  rw [block_split, slice_skip (length_field _ _) (by decide),
    slice_skip (length_field _ _) (by decide), slice_skip (length_field _ _) (by decide),
    slice_skip (length_field _ _) (by decide)]
  exact (slice_here (length_field _ _) _).trans (field_of_eq (length_number h.size))

theorem modified_slice : (h.block.drop 136).take 12 = number h.modified := by
  rw [block_split, slice_skip (length_field _ _) (by decide),
    slice_skip (length_field _ _) (by decide), slice_skip (length_field _ _) (by decide),
    slice_skip (length_field _ _) (by decide), slice_skip (length_field _ _) (by decide)]
  exact (slice_here (length_field _ _) _).trans (field_of_eq (length_number h.modified))

theorem checksum_slice : (h.block.drop 148).take 8 = octal 7 h.checksum ++ [0] := by
  rw [block_eq, slice_skip h.length_before (by decide)]
  have hfield : field 8 (octal 7 h.checksum) = octal 7 h.checksum ++ [0] := by
    rw [field_of_le (by rw [length_octal]; decide), length_octal]
    rfl
  rw [← hfield]
  exact slice_here (length_field _ _) _

theorem mark_slice : (h.block.drop 257).take 8 = mark := by
  rw [block_eq, slice_skip h.length_before (by decide),
    slice_skip (length_field _ _) (by decide), after_split,
    slice_skip (List.length_singleton) (by decide), slice_skip (length_field _ _) (by decide)]
  exact (slice_here (length_field _ _) _).trans (field_of_eq rfl)

theorem flagTold_block : flagTold h.block = h.typeFlag := by
  have hafter : h.block.drop 156 = h.after := by
    rw [block_eq, ← List.append_assoc, List.drop_left']
    rw [List.length_append, length_before, length_field]
  rw [flagTold, List.getD_eq_getElem?_getD, ← List.head?_drop, hafter]
  rfl

/-- **A header that is written is a header.** -/
theorem isHeader_block : IsHeader h.block where
  length := h.length_block
  marked := h.mark_slice
  checked := by
    have hchecksum : fieldAt 148 8 h.block = octal 7 h.checksum := by
      rw [fieldAt, checksum_slice]
      exact textOf_append_zero (zero_not_mem_octal _ _) 1
    have hbefore : h.block.take 148 = h.before := by
      rw [block_eq, List.take_left' h.length_before]
    have hafter : h.block.drop 156 = h.after := by
      rw [block_eq, ← List.append_assoc, List.drop_left']
      rw [List.length_append, length_before, length_field]
    rw [hchecksum, octalValue_octal, Nat.mod_eq_of_lt h.checksum_lt, hbefore, hafter, checksum]

end Header

/-! ## Sizes -/

/-- What a size may be: so much fits into its field. -/
def sizeLimit : Nat := 256 ^ 11

theorem sizeTold_block {h : Header} (hsize : h.size < sizeLimit) : sizeTold h.block = h.size := by
  unfold sizeTold
  rw [h.size_slice]
  unfold number
  by_cases hsmall : h.size < 0o100000000000
  · rw [if_pos hsmall]
    obtain ⟨first, rest, hdigits⟩ : ∃ first rest, octal 11 h.size = first :: rest :=
      List.exists_cons_of_length_pos (by rw [length_octal]; decide)
    have hfirst := (mem_octal (hdigits ▸ List.mem_cons_self : first ∈ octal 11 h.size)).2
    have hlow : ¬(0x80 : UInt8) ≤ first := by
      rw [UInt8.le_iff_toNat_le]
      have : (0x80 : UInt8).toNat = 0x80 := rfl
      omega
    have htext : textOf (first :: (rest ++ [0])) = octal 11 h.size := by
      rw [← List.cons_append, ← hdigits]
      exact textOf_append_zero (zero_not_mem_octal _ _) 1
    rw [hdigits, List.cons_append]
    simp only [if_neg hlow]
    rw [htext, octalValue_octal]
    exact Nat.mod_eq_of_lt hsmall
  · rw [if_neg hsmall]
    have hbinary : binaryValue ((0x80 - 0x80) :: bigEndian 11 h.size) =
        binaryValue (bigEndian 11 h.size) := rfl
    simp only [UInt8.le_refl, if_true]
    rw [hbinary, binaryValue_bigEndian]
    exact Nat.mod_eq_of_lt hsize

/-- **A header with its content is a member.** -/
theorem member_block {h : Header} {content : List UInt8} (hsize : h.size = content.length)
    (hlimit : content.length < sizeLimit) : Member h.block content (h.block ++ padded content) where
  isHeader := h.isHeader_block
  size := by rw [sizeTold_block (hsize ▸ hlimit), hsize]
  filled := ⟨_, Nat.mod_lt _ (by decide), rfl⟩
  whole := by rw [List.length_append, Nat.add_mod, h.length_block, length_padded]; rfl

/-! ## Entries that are written -/

/-- What an entry of this body is read back as under a path: of type file, directory or, for a generated
file, of the old type for files. -/
def Body.listing (path : List UInt8) : Body → Listing
  | .file content runnable =>
    { path, typeFlag := 0x30, mode := permissions runnable, uid := digits 0, gid := digits 0,
      modified := octal 11 fixedTime, content }
  | .directory =>
    { path, typeFlag := 0x35, mode := permissions true, uid := digits 0, gid := digits 0,
      modified := octal 11 fixedTime, content := [] }
  | .generated content =>
    { path, typeFlag := 0, mode := permissions false, uid := [], gid := [],
      modified := octal 11 0, content }

/-- What an entry is read back as. -/
def Entry.listing (entry : Entry) : Listing :=
  entry.body.listing (Utf8.encode entry.name.toList)

/-- An entry that can be written: its name has no zero byte, and both its name and its content have sizes
that fit. -/
structure Entry.Fits (entry : Entry) : Prop where
  nameZero : 0 ∉ Utf8.encode entry.name.toList
  nameFits : (Utf8.encode entry.name.toList).length + 1 < sizeLimit
  contentFits : entry.body.content.length < sizeLimit

example : permissions true = Utf8.encode "0000755".toList ∧
    permissions false = Utf8.encode "0000644".toList := by decide

theorem textOf_number {n : Nat} (h : n < 0o100000000000) : textOf (number n) = octal 11 n := by
  rw [number, if_pos h]
  exact textOf_append_zero (zero_not_mem_octal _ _) 1

theorem textOf_digits (n : Nat) : textOf (field 8 (digits n)) = digits n :=
  textOf_field (by rw [digits, length_octal]; decide) (zero_not_mem_octal _ _)

/-- The header of an entry tells all there is to it. -/
theorem listed_header (path name : List UInt8) (body : Body) :
    listed path (body.header name).block body.content = body.listing path := by
  unfold listed fieldAt
  rw [Header.flagTold_block, Header.mode_slice, Header.uid_slice, Header.gid_slice,
    Header.modified_slice]
  have hnone : textOf (field 8 []) = [] := rfl
  cases body with
  | file content runnable =>
    simp only [Body.header, permissions, textOf_digits,
      textOf_number (show fixedTime < 0o100000000000 by decide)]
    rfl
  | directory =>
    simp only [Body.header, permissions, textOf_digits,
      textOf_number (show fixedTime < 0o100000000000 by decide)]
    rfl
  | generated content =>
    simp only [Body.header, permissions, textOf_digits, hnone,
      textOf_number (show 0 < 0o100000000000 by decide)]
    rfl

theorem flag_ne_long (body : Body) (name : List UInt8) :
    flagTold (body.header name).block ≠ longNameFlag := by
  rw [Header.flagTold_block]
  have hfile : (0x30 : UInt8) ≠ longNameFlag := by decide
  have hdirectory : (0x35 : UInt8) ≠ longNameFlag := by decide
  have hgenerated : (0 : UInt8) ≠ longNameFlag := by decide
  cases body with
  | file _ _ => exact hfile
  | directory => exact hdirectory
  | generated _ => exact hgenerated

theorem size_header (body : Body) (name : List UInt8) :
    (body.header name).size = body.content.length := by
  cases body <;> rfl

/-- **One more entry makes one more listing**, however long its name is. -/
theorem archive_entry {entry : Entry} (h : entry.Fits) {rest : List UInt8}
    {listings : List Listing} (hrest : Archive rest listings) :
    Archive (entry.bytes ++ rest) (entry.listing :: listings) := by
  unfold Entry.bytes
  simp only
  have hmember := fun name => member_block (size_header entry.body name) h.contentFits
  split
  · rename_i hshort
    have hpath : fieldAt 0 100 (entry.body.header (Utf8.encode entry.name.toList)).block =
        Utf8.encode entry.name.toList := by
      rw [fieldAt, Header.name_slice]
      have hname : (entry.body.header (Utf8.encode entry.name.toList)).name =
          Utf8.encode entry.name.toList := by cases entry.body <;> rfl
      rw [hname]
      exact textOf_field hshort h.nameZero
    have harchive := Archive.entry (hmember (Utf8.encode entry.name.toList))
      (flag_ne_long entry.body _) hrest
    rwa [hpath, listed_header] at harchive
  · have hname : Member (longNameHeader ((Utf8.encode entry.name.toList).length + 1)).block
        (Utf8.encode entry.name.toList ++ [0]) _ :=
      member_block (by rw [List.length_append]; rfl)
        (by rw [List.length_append]; exact h.nameFits)
    have harchive := Archive.longEntry hname (Header.flagTold_block _) h.nameZero
      (hmember (shortened entry.name)) (flag_ne_long entry.body _) hrest
    rw [listed_header] at harchive
    simp only [List.append_assoc] at harchive ⊢
    exact harchive

/-- **What is written lists its entries**, if they fit. -/
theorem archive_write {entries : List Entry} (h : ∀ entry ∈ entries, entry.Fits) :
    Archive (write entries) (entries.map Entry.listing) := by
  induction entries with
  | nil => exact .ends
  | cons entry rest ih =>
    have hrest := ih fun other hother => h other (List.mem_cons_of_mem _ hother)
    have harchive := archive_entry (h entry List.mem_cons_self) hrest
    rw [write, ← List.append_assoc] at harchive
    rwa [write, List.flatMap_cons, List.map_cons]

end ImageRecipe.Tar
