import ImageRecipe.Tar.Header

/-!
# Reading tape archives

An archive is read back block by block: a header tells how many blocks of content follow it, an entry of
type `L` gives the name of the next one, and a zero block ends the archive.

* `blocks` — bytes cut into blocks;
* `Listing` — an entry as its header tells it, texts up to their first zero byte;
* `read?` — the entries of an archive, or nothing if it breaks off.
-/

set_option autoImplicit false

namespace ImageRecipe.Tar

/-- An entry as it is read back. -/
structure Listing where
  path : List UInt8
  typeFlag : UInt8
  mode : List UInt8
  uid : List UInt8
  gid : List UInt8
  modified : List UInt8
  content : List UInt8
  deriving DecidableEq, Repr

/-- The bytes of a stretch before its first zero byte. -/
def textOf (bytes : List UInt8) : List UInt8 :=
  bytes.takeWhile (· ≠ 0)

/-- The text of the field that starts at `start` of a block. -/
def fieldAt (start width : Nat) (block : List UInt8) : List UInt8 :=
  textOf ((block.drop start).take width)

/-- The number that octal digits spell. -/
def octalValue (digits : List UInt8) : Nat :=
  digits.foldl (fun n digit => 8 * n + (digit.toNat - 0x30)) 0

/-- The number that bytes spell, the highest first. -/
def binaryValue (bytes : List UInt8) : Nat :=
  bytes.foldl (fun n byte => 256 * n + byte.toNat) 0

/-- The size that a header tells. -/
def sizeTold (block : List UInt8) : Nat :=
  match (block.drop 124).take 12 with
  | [] => 0
  | first :: rest =>
    if 0x80 ≤ first then binaryValue ((first - 0x80) :: rest)
    else octalValue (textOf (first :: rest))

/-- Bytes cut into blocks; the last one may be short. -/
def blocks (bytes : List UInt8) : List (List UInt8) :=
  if bytes = [] then [] else bytes.take blockSize :: blocks (bytes.drop blockSize)
termination_by bytes.length
decreasing_by
  rename_i some
  have := List.length_pos_iff.2 some
  simp only [List.length_drop, blockSize]
  omega

/-- The type of an entry that holds the name of the next one. -/
def longNameFlag : UInt8 := 0x4C

/-- Reads entries from blocks, given the long name that the last one told. -/
def readBlocks (longName : Option (List UInt8)) : List (List UInt8) → Option (List Listing)
  | [] => none
  | header :: rest =>
    if header.all (· = 0) then some []
    else
      let size := sizeTold header
      let count := (size + blockSize - 1) / blockSize
      let content := (rest.take count).flatten.take size
      let flag := header.getD 156 0
      if flag = longNameFlag then readBlocks (some (textOf content)) (rest.drop count)
      else
        (readBlocks none (rest.drop count)).map fun more =>
          { path := longName.getD (fieldAt 0 100 header)
            typeFlag := flag
            mode := fieldAt 100 8 header
            uid := fieldAt 108 8 header
            gid := fieldAt 116 8 header
            modified := fieldAt 136 12 header
            content } :: more
termination_by blocks => blocks.length
decreasing_by
  all_goals
    rw [List.length_drop, List.length_cons]
    exact Nat.lt_succ_of_le (Nat.sub_le _ _)

/-- The entries of an archive. -/
def read? (bytes : List UInt8) : Option (List Listing) :=
  readBlocks none (blocks bytes)

end ImageRecipe.Tar
