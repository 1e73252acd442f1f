import ImageRecipe.Path
import ImageRecipe.Tar.Header

/-!
# Tape archives

An archive is a list of entries, each with a header and its content filled up to whole blocks, and two zero
blocks at the end. What differs from host to host is left out: entries have no owner, a fixed time, and of
the permission bits only whether a file may be run.

* `Entry.bytes` — the blocks of one entry; a name too long for its field goes before it as an entry of
  its own;
* `write` — an archive.

Principal result: `length_write` — an archive is a whole number of blocks.
-/

set_option autoImplicit false

namespace ImageRecipe.Tar

/-- What an entry holds. A generated file has no owner at all, where a file of the host has owner
zero. -/
inductive Body where
  | file (content : List UInt8) (runnable : Bool)
  | directory
  | generated (content : List UInt8)
  deriving DecidableEq, Repr

/-- An entry of an archive. -/
structure Entry where
  name : String
  body : Body
  deriving DecidableEq, Repr

/-- The content of an entry; a directory has none. -/
def Body.content : Body → List UInt8
  | .file content _ => content
  | .directory => []
  | .generated content => content

/-- The time of all entries that stem from a host, in seconds. -/
def fixedTime : Nat := 1153704088

/-- The most bytes of a name in its field. -/
def nameWidth : Nat := 100

/-- The field of permission bits, and of other small numbers. -/
def digits (n : Nat) : List UInt8 := octal 7 n

/-- The permission bits of what may be run or entered, and of what may not. -/
def permissions (runnable : Bool) : List UInt8 :=
  digits (if runnable then 0o755 else 0o644)

/-- The header of an entry, with a given text in the field for the name. -/
def Body.header (name : List UInt8) : Body → Header
  | .file content runnable =>
    { name, mode := permissions runnable, uid := digits 0, gid := digits 0, size := content.length,
      modified := fixedTime, typeFlag := 0x30, device := digits 0 }
  | .directory =>
    { name, mode := permissions true, uid := digits 0, gid := digits 0, size := 0,
      modified := fixedTime, typeFlag := 0x35, device := digits 0 }
  | .generated content =>
    { name, mode := permissions false, uid := [], gid := [], size := content.length,
      modified := 0, typeFlag := 0, device := [] }

/-- The header of an entry that holds a long name. -/
def longNameHeader (size : Nat) : Header :=
  { name := Utf8.encode "././@LongLink".toList, mode := permissions false, uid := digits 0,
    gid := digits 0, size, modified := 0, typeFlag := 0x4C, device := [] }

/-- Bytes filled up to whole blocks. -/
def padded (bytes : List UInt8) : List UInt8 :=
  bytes ++ List.replicate ((blockSize - bytes.length % blockSize) % blockSize) 0

/-- The longest beginning of a text that has no more than so many bytes. -/
def fitting : (room : Nat) → List Char → List Char
  | _, [] => []
  | room, c :: rest =>
    if (String.utf8EncodeChar c).length ≤ room then
      c :: fitting (room - (String.utf8EncodeChar c).length) rest
    else []

/-- What the field for the name shows of a long name: the beginning that fits, as a plain path. A
trailing slash stays; a dot after it goes. -/
def shortened (name : String) : List UInt8 :=
  let shown := Utf8.encode (fitting nameWidth name.toList)
  let names := (Path.pieces shown).filter (fun piece => piece ≠ [] ∧ piece ≠ Path.here)
  [Path.slash].intercalate names ++ (if shown.getLast? = some Path.slash then [Path.slash] else [])

/-- The blocks of an entry. -/
def Entry.bytes (entry : Entry) : List UInt8 :=
  let name := Utf8.encode entry.name.toList
  if name.length ≤ nameWidth then
    (entry.body.header name).block ++ padded entry.body.content
  else
    (longNameHeader (name.length + 1)).block ++ padded (name ++ [0])
      ++ (entry.body.header (shortened entry.name)).block ++ padded entry.body.content

/-- The bytes that end an archive. -/
def trailer : List UInt8 := List.replicate (2 * blockSize) 0

/-- An archive of the given entries. -/
def write (entries : List Entry) : List UInt8 :=
  entries.flatMap Entry.bytes ++ trailer

theorem length_trailer : trailer.length = 2 * blockSize := List.length_replicate

theorem length_padded (bytes : List UInt8) : (padded bytes).length % blockSize = 0 := by
  simp only [padded, List.length_append, List.length_replicate, blockSize]
  omega

theorem length_bytes (entry : Entry) : entry.bytes.length % blockSize = 0 := by
  have content := length_padded entry.body.content
  unfold Entry.bytes
  simp only
  split
  · simp only [List.length_append, Header.length_block]
    simp only [blockSize] at *
    omega
  · have long := length_padded (Utf8.encode entry.name.toList ++ [0])
    simp only [List.length_append, Header.length_block] at *
    simp only [blockSize] at *
    omega

/-- An archive is a whole number of blocks. -/
theorem length_write (entries : List Entry) : (write entries).length % blockSize = 0 := by
  induction entries with
  | nil =>
    rw [write, List.length_append, length_trailer]
    rfl
  | cons entry rest ih =>
    have first := length_bytes entry
    simp only [write, List.flatMap_cons, List.length_append, blockSize] at *
    omega

end ImageRecipe.Tar
