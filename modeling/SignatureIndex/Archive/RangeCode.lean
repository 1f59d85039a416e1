import SignatureIndex.Archive.Bytes

/-! Range coding: bits are read off a number that lies in a range. A bit cuts the range in two, in
proportion to the chance of a zero, and the part that holds the number becomes the new range. The
chances follow what has been read. -/
namespace SignatureIndex.Archive

/-- A range coder: the range, the number in it, the bytes still to come, and the chances of a zero
in parts of 2048. -/
structure RangeCoder where
  range : UInt32
  code : UInt32
  rest : List UInt8
  chances : Array UInt32

abbrev Coding := StateT RangeCoder (Except Halt)

/-- Takes in a byte if the range has become small. -/
def RangeCoder.widen : RangeCoder → Except Halt RangeCoder
  | ⟨range, code, rest, chances⟩ =>
    if range < 0x1000000 then
      match rest with
      | [] => .error .short
      | b :: later => .ok ⟨range <<< 8, (code <<< 8) ||| b.toUInt32, later, chances⟩
    else .ok ⟨range, code, rest, chances⟩

/-- A chance that favours neither bit. -/
def evenChance : UInt32 := 1024

/-- A bit with the chance at a place, which moves towards the bit. -/
def codedBit (place : Nat) : Coding Bool := fun coder =>
  match coder.widen with
  | .error halt => .error halt
  | .ok ⟨range, code, rest, chances⟩ =>
    let chance := chances.getD place evenChance
    let bound := (range >>> 11) * chance
    if code < bound then
      .ok (false, ⟨bound, code, rest,
        chances.setIfInBounds place (chance + ((2048 - chance) >>> 5))⟩)
    else
      .ok (true, ⟨range - bound, code - bound, rest,
        chances.setIfInBounds place (chance - (chance >>> 5))⟩)

/-- A bit with even chances that stay so. -/
def evenBit : Coding Bool := fun coder =>
  match coder.widen with
  | .error halt => .error halt
  | .ok ⟨range, code, rest, chances⟩ =>
    let half := range >>> 1
    let above := code - half
    if above &&& 0x80000000 = 0 then .ok (true, ⟨half, above, rest, chances⟩)
    else .ok (false, ⟨half, code, rest, chances⟩)

/-- A number that goes on for so many more even bits, most significant first. -/
def evenBits : Nat → Nat → Coding Nat
  | 0, high => pure high
  | count + 1, high => do evenBits count (2 * high + (← evenBit).toNat)

/-- Goes on for so many more bits, most significant first, in a tree of chances: each bit has its
chance at the node that the bits before it lead to. The root is node one. -/
def descend (base : Nat) : Nat → Nat → Coding Nat
  | 0, node => pure node
  | count + 1, node => do descend base count (2 * node + (← codedBit (base + node)).toNat)

/-- A number of so many bits, most significant first. -/
def treeNumber (base count : Nat) : Coding Nat := do
  return (← descend base count 1) - Nat.pow 2 count

/-- A number of so many bits, least significant first, from a node on. -/
def risingNumber (base : Nat) : Nat → Nat → Coding Nat
  | 0, _ => pure 0
  | count + 1, node => do
    let low := (← codedBit (base + node)).toNat
    let high ← risingNumber base count (2 * node + low)
    return low + 2 * high

/-- Starts a range coder: the first byte is zero, and four bytes give the number. -/
def RangeCoder.start (places : Nat) : List UInt8 → Except Halt RangeCoder
  | [] => .error .short
  | zero :: rest =>
    if zero ≠ 0 then .error .broken
    else if rest.length < 4 then .error .short
    else
      .ok ⟨0xFFFFFFFF, (rest.take 4).foldl (fun code b => (code <<< 8) ||| b.toUInt32) 0,
        rest.drop 4, Array.replicate places evenChance⟩

end SignatureIndex.Archive
