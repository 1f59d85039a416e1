import SignatureIndex.Archive.Bytes
import SignatureIndex.Archive.Bzip2.Scatter

/-! A block of block-sorted data. Its bytes were shortened by runs, sorted by what follows them,
written as places in a list whose last used entry comes first, and coded with several prefix codes
that change every fifty symbols. Reading a block undoes this from the last step to the first. -/
namespace SignatureIndex.Archive.Bzip2

/-- Reading from bits, which may end early or be in no block's format. -/
abbrev Reading := StateT Bits (Except Halt)

/-- The bits of bytes, most significant first. -/
def bitsOf (bytes : List UInt8) : Bits :=
  bytes.flatMap fun b => (List.range 8).map fun index => b.toNat.testBit (7 - index)

def bit : Reading Bool := fun
  | [] => .error .short
  | first :: rest => .ok (first, rest)

/-- A number that goes on for so many more bits, most significant first. -/
def numberFrom : Nat → Nat → Reading Nat
  | 0, high => pure high
  | count + 1, high => do numberFrom count (2 * high + (← bit).toNat)

def number (count : Nat) : Reading Nat :=
  numberFrom count 0

def expect : List Nat → Reading Unit
  | [] => pure ()
  | byte :: rest => do
    if (← number 8) ≠ byte then throw .broken
    expect rest

/-- The numbers of a row of flags that are set, counted from a start. -/
def flagged (start : Nat) : Nat → Reading (List Nat)
  | 0 => pure []
  | count + 1 => do
    let set ← bit
    let later ← flagged (start + 1) count
    return if set then start :: later else later

def usedIn : List Nat → Reading (List Nat)
  | [] => pure []
  | group :: rest => do
    let used ← flagged (16 * group) 16
    let later ← usedIn rest
    return used ++ later

/-- The bytes that a block uses: flags for groups of sixteen, then the flags in each group. -/
def usedBytes : Reading (List UInt8) := do
  let groups ← flagged 0 16
  let used ← usedIn groups
  if used.isEmpty then throw .broken
  return used.map Nat.toUInt8

/-- How many ones stand before a zero, on top of a count; there may be no more than the room. -/
def onesFrom : Nat → Nat → Reading Nat
  | 0, count => do if ← bit then throw .broken else return count
  | room + 1, count => do if ← bit then onesFrom room (count + 1) else return count

/-- A number below a limit as ones and a closing zero. -/
def ones (limit : Nat) : Reading Nat :=
  onesFrom (limit - 1) 0

/-- Takes an entry of a list to its front. -/
def toFront {α : Type} (entries : List α) (place : Nat) : List α :=
  (entries[place]?).toList ++ entries.eraseIdx place

/-- The codes that the groups of symbols use, as places in a list with the last used one first. -/
def selectors (codes : List Nat) : Nat → Reading (List Nat)
  | 0 => pure []
  | count + 1 => do
    let place ← ones codes.length
    let moved := toFront codes place
    let later ← selectors moved count
    return moved.take 1 ++ later

def longestCode : Nat := 20

def isCodeLength (length : Nat) : Bool :=
  1 ≤ length ∧ length ≤ longestCode

/-- The length of the next symbol's code, from the length before it. A zero keeps the length; a one
is followed by whether it is one less or one more. -/
def codeLength (length : Nat) : Reading Nat
  | [] => .error (if isCodeLength length then .short else .broken)
  | false :: rest => if isCodeLength length then .ok (length, rest) else .error .broken
  | true :: [] => .error (if isCodeLength length then .short else .broken)
  | true :: down :: rest =>
    if isCodeLength length then codeLength (if down then length - 1 else length + 1) rest
    else .error .broken

/-- The lengths of the codes of so many symbols. -/
def codeLengthsFrom : Nat → Nat → Reading (List Nat)
  | 0, _ => pure []
  | symbols + 1, length => do
    let next ← codeLength length
    let later ← codeLengthsFrom symbols next
    return next :: later

/-- The codes of one length: the first code, and the symbols in order. -/
structure CodeRow where
  first : Nat
  symbols : Array Nat

/-- The codes of so many lengths from a length on. Codes are given out by length and then by
symbol. -/
def codeRowsFrom (lengths : List Nat) : Nat → Nat → Nat → List CodeRow
  | 0, _, _ => []
  | count + 1, length, first =>
    let symbols := (lengths.zipIdx.filter fun (l, _) => l = length).map Prod.snd
    ⟨first, symbols.toArray⟩ ::
      codeRowsFrom lengths count (length + 1) (2 * (first + symbols.length))

abbrev Code := List CodeRow

def codes (symbols : Nat) : Nat → Reading (List Code)
  | 0 => pure []
  | count + 1 => do
    let lengths ← codeLengthsFrom symbols (← number 5)
    let later ← codes symbols count
    return codeRowsFrom lengths longestCode 1 0 :: later

/-- The next symbol, after bits that are no code. -/
def symbolFrom : Code → Nat → Reading Nat
  | [], _ => do
    let _ ← bit
    throw .broken
  | row :: longer, high => do
    let code := 2 * high + (← bit).toNat
    if code < row.first + row.symbols.size then return row.symbols.getD (code - row.first) 0
    symbolFrom longer code

/-- A repetition that is being read: its length so far, and what the next digit is worth. -/
structure Run where
  length : Nat
  weight : Nat

/-- The worth of a digit that no repetition has. -/
def weightLimit : Nat := 0x200000

/-- The bytes of a block as sorted. A repetition of the front byte is written in digits one and
two, least first. Every symbol has its code; `last` is the symbol that ends the block, and there
may be no more bytes than the room for them. -/
def column (room last : Nat) :
    List Code → List UInt8 → Run → Array UInt8 → Reading (Array UInt8)
  | [], _, _, _ => throw .broken
  | code :: later, bytes, run, out => do
    let symbol ← symbolFrom code 0
    if symbol ≤ 1 then
      if weightLimit ≤ run.weight then throw .broken
      column room last later bytes
        ⟨run.length + (symbol + 1) * run.weight, 2 * run.weight⟩ out
    else if room < out.size + run.length then throw .broken
    else
      let repeated := out ++ Array.replicate run.length (bytes.headD 0)
      if symbol = last then return repeated
      if room ≤ repeated.size then throw .broken
      let moved := toFront bytes (symbol - 1)
      column room last later moved ⟨0, 1⟩ (repeated.push (moved.headD 0))

/-- For every place of the sorted bytes, the place of the byte that follows in the text. -/
def followers (sorted : Array UInt8) : Array Nat :=
  let places : Array (Array Nat) := sorted.toList.zipIdx.foldl
    (fun places (b, place) => places.modify b.toNat (·.push place)) (Array.replicate 256 #[])
  places.foldl (· ++ ·) #[]

/-- So many bytes of the text from a place on. -/
def walk (sorted : Array UInt8) (next : Array Nat) : Nat → Nat → Array UInt8 → Array UInt8
  | 0, _, out => out
  | count + 1, place, out =>
    walk sorted next count (next.getD place 0) (out.push (sorted.getD place 0))

/-- Undoes the sorting; the text starts at the place that follows the origin. -/
def unsort (sorted : Array UInt8) (origin : Nat) : Array UInt8 :=
  let next := followers sorted
  walk sorted next sorted.size (next.getD origin 0) #[]

/-- Undoes the shortening: after four equal bytes stands how many more of them there are. -/
def lengthen : List UInt8 → Array UInt8 → Except Halt (Array UInt8)
  | a :: b :: c :: d :: rest, out =>
    if a = b ∧ b = c ∧ c = d then
      match rest with
      | [] => .error .broken
      | more :: after => lengthen after (out ++ Array.replicate (4 + more.toNat) a)
    else lengthen (b :: c :: d :: rest) (out.push a)
  | rest, out => .ok (out ++ rest.toArray)
termination_by bytes => bytes.length

def checkShift (crc : UInt32) : UInt32 :=
  if crc &&& 0x80000000 = 0 then crc <<< 1 else (crc <<< 1) ^^^ 0x04C11DB7

def checkStep (crc : UInt32) (b : UInt8) : UInt32 :=
  Nat.repeat checkShift 8 (crc ^^^ (b.toUInt32 <<< 24))

def blockChecksum (bytes : Array UInt8) : UInt32 :=
  bytes.foldl checkStep 0xFFFFFFFF ^^^ 0xFFFFFFFF

/-- The number of bytes to a unit of a stream's level. -/
def levelUnit : Nat := 100000

def selectorLimit : Nat := 18002

def groupSize : Nat := 50

/-- Reads a block after its mark, up to the bytes and their checksum. -/
def block (level : Nat) : Reading (Array UInt8 × UInt32) := do
  let room := levelUnit * level
  let stored ← number 32
  let scattered ← bit
  let origin ← number 24
  if 10 + room < origin then throw .broken
  let used ← usedBytes
  let codeCount ← number 3
  if codeCount < 2 ∨ 6 < codeCount then throw .broken
  let changes ← number 15
  if changes < 1 then throw .broken
  let chosen ← selectors (List.range codeCount) changes
  let table := (← codes (used.length + 2) codeCount).toArray
  let inOrder := (chosen.take selectorLimit).flatMap fun index =>
    List.replicate groupSize (table.getD index [])
  let sorted ← column room (used.length + 1) inOrder used ⟨0, 1⟩ #[]
  if sorted.size ≤ origin then throw .broken
  let text := unsort sorted origin
  let bytes ← lengthen (if scattered then gather text.toList else text).toList #[]
  let sum := blockChecksum bytes
  if sum.toNat ≠ stored then throw .broken
  return (bytes, sum)

end SignatureIndex.Archive.Bzip2
