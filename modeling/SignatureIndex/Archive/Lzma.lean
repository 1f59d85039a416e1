import SignatureIndex.Archive.Bytes
import SignatureIndex.Archive.RangeCode

/-! Range-coded data with references to earlier output, as archives hold it: two bytes of version,
the size of the settings, the settings, and the items. Data that ends early gives the items that
are complete. -/
namespace SignatureIndex.Archive.Lzma

inductive Fault where
  /-- The settings are in no known form. -/
  | settings
  /-- The items are broken. -/
  | items
  deriving DecidableEq, Repr

def Fault.message : Fault → String
  | settings => "Invalid or unsupported options"
  | items => "Corrupt input data"

/-- Settings: how many high bits of the last byte and how many low bits of the position choose the
chances of a byte, how many low bits of the position choose the other chances, and how far back a
copy may reach. -/
structure Settings where
  contextBits : Nat
  bytePositionBits : Nat
  positionBits : Nat
  reach : Nat

def Settings.read : List UInt8 → Except Fault Settings
  | packed :: reach =>
    let settings : Settings :=
      { contextBits := packed.toNat % 9
        bytePositionBits := packed.toNat / 9 % 5
        positionBits := packed.toNat / 45
        reach := max 0x1000 ((littleEndian reach + 15) / 16 * 16) }
    if reach.length = 4 ∧ settings.positionBits ≤ 4 ∧
        settings.contextBits + settings.bytePositionBits ≤ 4 then .ok settings
    else .error .settings
  | [] => .error .settings

/-- What is kept from item to item: a stage that tells which kinds of items came last, and the four
distances used last, each less one. -/
structure Memory where
  stage : Nat
  first : Nat
  second : Nat
  third : Nat
  fourth : Nat

def copyStage : Nat := 7

def afterByte (stage : Nat) : Nat :=
  if stage < 4 then 0 else if stage < 10 then stage - 3 else stage - 6

/-- The stage after a copy: one of two, as the item before it was a byte or a copy. -/
def afterCopy (stage byte copy : Nat) : Nat :=
  if stage < copyStage then byte else copy

/-- The place of the chance that decides whether an item is a copy. The places that follow are
named in the same way for what is decided there. -/
def copyPlace (stage position : Nat) : Nat := 16 * stage + position

def againPlace (stage : Nat) : Nat := 192 + stage

def notFirstPlace (stage : Nat) : Nat := 204 + stage

/-- Whether an earlier distance is other than the last two. -/
def notSecondPlace (stage : Nat) : Nat := 216 + stage

/-- Whether an earlier distance is other than the last three. -/
def notThirdPlace (stage : Nat) : Nat := 228 + stage

/-- Whether a copy from the last distance is longer than one byte. -/
def longPlace (stage position : Nat) : Nat := 240 + 16 * stage + position

/-- The magnitude of a distance, by the length of the copy. -/
def magnitudePlace (length : Nat) : Nat := 432 + 64 * min (length - 2) 3

def smallPlace : Nat := 687

def alignPlace : Nat := 804

def lengthPlace : Nat := 820

def againLengthPlace : Nat := 1334

def bytePlace : Nat := 1848

def byteChances : Nat := 0x300

def Settings.places (settings : Settings) : Nat :=
  bytePlace + byteChances * Nat.pow 2 (settings.contextBits + settings.bytePositionBits)

/-- The first chance of the next byte, by the position and the byte before it. -/
def Settings.context (settings : Settings) (out : Array UInt8) : Nat :=
  let last := (out.back?.getD 0).toNat
  bytePlace + byteChances *
    (out.size % Nat.pow 2 settings.bytePositionBits * Nat.pow 2 settings.contextBits +
      last / Nat.pow 2 (8 - settings.contextBits))

/-- Goes on with the bits of a byte after a copy. The byte that the copy would have gone on with is
known to be wrong; up to the first bit in which it differs, its bits choose the chances too. -/
def unlike (base expected : Nat) : Nat → Nat → Coding Nat
  | 0, node => pure node
  | count + 1, node => do
    let likely := expected.testBit count
    let next ← codedBit (base + (if likely then 0x200 else 0x100) + node)
    if next = likely then unlike base expected count (2 * node + next.toNat)
    else descend base count (2 * node + next.toNat)

def byte (settings : Settings) (memory : Memory) (out : Array UInt8) : Coding UInt8 := do
  let base := settings.context out
  let node ←
    if memory.stage < copyStage then descend base 8 1
    else unlike base (out.getD (out.size - (memory.first + 1)) 0).toNat 8 1
  return (node - 0x100).toUInt8

def length (base position : Nat) : Coding Nat := do
  if !(← codedBit base) then return 2 + (← treeNumber (base + 2 + 8 * position) 3)
  if !(← codedBit (base + 1)) then return 10 + (← treeNumber (base + 130 + 8 * position) 3)
  return 18 + (← treeNumber (base + 258) 8)

/-- A distance less one. Its magnitude gives the two highest bits and how many follow. -/
def distance (length : Nat) : Coding Nat := do
  let magnitude ← treeNumber (magnitudePlace length) 6
  if magnitude < 4 then return magnitude
  let lower := magnitude / 2 - 1
  let high := 2 + magnitude % 2
  if magnitude < 14 then
    let base := high * Nat.pow 2 lower
    return base + (← risingNumber (smallPlace + base - magnitude) lower 1)
  let middle ← evenBits (lower - 4) high
  return 16 * middle + (← risingNumber alignPlace 4 1)

/-- The distance that marks the end. -/
def endDistance : Nat := 0xFFFFFFFF

/-- Ends the items; nothing may be left in the range. -/
def finish (memory : Memory) : Coding (Item × Memory) := fun coder =>
  match coder.widen with
  | .error halt => .error halt
  | .ok coder => if coder.code = 0 then .ok ((.finish, memory), coder) else .error .broken

def newCopy (settings : Settings) (memory : Memory) (out : Array UInt8) (position : Nat) :
    Coding (Item × Memory) := do
  let length ← length lengthPlace position
  let distance ← distance length
  let memory : Memory :=
    ⟨afterCopy memory.stage 7 10, distance, memory.first, memory.second, memory.third⟩
  if distance = endDistance then finish memory
  else if min out.size settings.reach ≤ distance then throw .broken
  else return (.copy length (distance + 1), memory)

/-- Moves the earlier distance that is used again to the front. -/
def reused (memory : Memory) : Coding Memory := do
  if !(← codedBit (notSecondPlace memory.stage)) then
    return ⟨memory.stage, memory.second, memory.first, memory.third, memory.fourth⟩
  if !(← codedBit (notThirdPlace memory.stage)) then
    return ⟨memory.stage, memory.third, memory.first, memory.second, memory.fourth⟩
  return ⟨memory.stage, memory.fourth, memory.first, memory.second, memory.third⟩

/-- A longer copy from an earlier distance, which has been moved to the front. -/
def longCopy (memory : Memory) (position : Nat) : Coding (Item × Memory) := do
  let length ← length againLengthPlace position
  let stage := afterCopy memory.stage 8 11
  return (.copy length (memory.first + 1), { memory with stage })

def oldCopy (memory : Memory) (out : Array UInt8) (position : Nat) : Coding (Item × Memory) := do
  if out.isEmpty then throw .broken
  if ← codedBit (notFirstPlace memory.stage) then longCopy (← reused memory) position
  else if ← codedBit (longPlace memory.stage position) then longCopy memory position
  else
    let stage := afterCopy memory.stage 9 11
    return (.copy 1 (memory.first + 1), { memory with stage })

def item (settings : Settings) (memory : Memory) (out : Array UInt8) :
    Coding (Item × Memory) := do
  let position := out.size % Nat.pow 2 settings.positionBits
  if ← codedBit (copyPlace memory.stage position) then
    if ← codedBit (againPlace memory.stage) then oldCopy memory out position
    else newCopy settings memory out position
  else
    let b ← byte settings memory out
    return (.byte b, { memory with stage := afterByte memory.stage })

/-- Reads items up to the end. The bound limits their number. -/
def items (settings : Settings) :
    Nat → Memory → Array UInt8 → RangeCoder → Except Fault (Array UInt8)
  | 0, _, out, _ => .ok out
  | bound + 1, memory, out, coder =>
    match item settings memory out coder with
    | .error .short => .ok out
    | .error .broken => .error .items
    | .ok ((.byte b, memory), coder) => items settings bound memory (out.push b) coder
    | .ok ((.copy length distance, memory), coder) =>
      items settings bound memory (copyBack distance length out) coder
    | .ok ((.finish, _), _) => .ok out

/-- More items than one byte can hold: the likeliest bit takes a seventieth off the range, so a
byte is used up after less than 400 bits. -/
def itemsInByte : Nat := 400

def readItems (settings : Settings) (data : List UInt8) : Except Fault (Array UInt8) :=
  match RangeCoder.start settings.places data with
  | .error .short => .ok #[]
  | .error .broken => .error .items
  | .ok coder => items settings (itemsInByte * data.length) ⟨0, 0, 0, 0, 0⟩ #[] coder

def headingSize : Nat := 4

/-- The bytes that the data stands for. Without an item there are none. -/
def decompress (data : List UInt8) : Except Fault (List UInt8) :=
  let size := field data 2 2
  if data.length ≤ headingSize + size then .ok []
  else
    match Settings.read (slice data headingSize size) with
    | .error fault => .error fault
    | .ok settings => (readItems settings (data.drop (headingSize + size))).map Array.toList

end SignatureIndex.Archive.Lzma
