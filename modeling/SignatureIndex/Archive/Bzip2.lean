import SignatureIndex.Archive.Bzip2.Block

/-! Block-sorted data: a heading with the size of blocks, the blocks, and a checksum over all of
them. Data that ends early gives the blocks that are complete; what follows the first stream is not
looked at. -/
namespace SignatureIndex.Archive.Bzip2

/-- The mark of a block after its first byte. -/
def blockMark : List Nat := [0x41, 0x59, 0x26, 0x53, 0x59]

/-- The mark of the end after its first byte. -/
def endMark : List Nat := [0x72, 0x45, 0x38, 0x50, 0x90]

def heading : Reading Nat := do
  expect [0x42, 0x5A, 0x68]
  let digit ← number 8
  if digit < 0x31 ∨ 0x39 < digit then throw .broken
  return digit - 0x30

/-- The next block with its checksum, or nothing at the end, where the checksum of the blocks has
to be right. -/
def part (level : Nat) (sum : UInt32) : Reading (Option (Array UInt8 × UInt32)) := do
  let first ← number 8
  if first = 0x31 then
    expect blockMark
    some <$> block level
  else if first = 0x17 then
    expect endMark
    if (← number 32) ≠ sum.toNat then throw .broken
    return none
  else throw .broken

def combined (sum next : UInt32) : UInt32 :=
  ((sum <<< 1) ||| (sum >>> 31)) ^^^ next

/-- The sizes of the output at which more room is made for it. -/
def roomSizes : List Nat :=
  [0x8000, 0x18000, 0x58000, 0x158000, 0x558000, 0xD58000, 0x1D58000, 0x2D58000]

/-- The output after one more block. While there is more data the output grows as needed; a block
at the very end of the data only fills the room that is there. -/
def appended (out bytes : Array UInt8) (more : Bool) : Array UInt8 :=
  let all := out ++ bytes
  if more then all
  else
    match roomSizes.find? (out.size ≤ ·) with
    | some size => all.take size
    | none => all

/-- Reads blocks up to the end. The bound limits their number; the number of bits is enough. -/
def blocks (level : Nat) : Nat → UInt32 → Bits → Array UInt8 → Except Halt (Array UInt8)
  | 0, _, _, out => .ok out
  | bound + 1, sum, bits, out =>
    match part level sum bits with
    | .error .broken => .error .broken
    | .error .short => .ok out
    | .ok (none, _) => .ok out
    | .ok (some (bytes, next), rest) =>
      blocks level bound (combined sum next) rest (appended out bytes (8 ≤ rest.length))

def decompress (data : List UInt8) : Except Halt (List UInt8) :=
  let bits := bitsOf data
  match heading bits with
  | .error .broken => .error .broken
  | .error .short => .ok []
  | .ok (level, rest) => (blocks level rest.length 0 rest #[]).map Array.toList

end SignatureIndex.Archive.Bzip2
