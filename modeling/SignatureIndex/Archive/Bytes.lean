/-! Fields of binary records: numbers of fixed width, least significant byte first, the items of
data that is compressed by reference to earlier output, and the checksum of the archive format. -/
namespace SignatureIndex.Archive

/-- The number that bytes stand for, least significant byte first. -/
def littleEndian : List UInt8 → Nat
  | [] => 0
  | b :: rest => b.toNat + 256 * littleEndian rest

/-- So many bytes from an offset on, or as many as there are. -/
def slice (bytes : List UInt8) (offset count : Nat) : List UInt8 :=
  (bytes.drop offset).take count

def field (bytes : List UInt8) (offset width : Nat) : Nat :=
  littleEndian (slice bytes offset width)

abbrev Bits := List Bool

/-- Why reading packed data stops: the data ends, or it is not in its format. -/
inductive Halt where
  | short
  | broken
  deriving DecidableEq, Repr

/-- An item: a byte, a copy of earlier bytes, or the end. A distance of one is the last byte. -/
inductive Item where
  | byte (b : UInt8)
  | copy (length distance : Nat)
  | finish

/-- Appends bytes from so far back; they may overlap what is being appended. -/
def copyBack (distance : Nat) : Nat → Array UInt8 → Array UInt8
  | 0, out => out
  | count + 1, out => copyBack distance count (out.push (out.getD (out.size - distance) 0))

def crcShift (crc : UInt32) : UInt32 :=
  if crc &&& 1 = 1 then (crc >>> 1) ^^^ 0xEDB88320 else crc >>> 1

def crcStep (crc : UInt32) (b : UInt8) : UInt32 :=
  Nat.repeat crcShift 8 (crc ^^^ b.toUInt32)

def checksum (bytes : List UInt8) : Nat :=
  (bytes.foldl crcStep 0xFFFFFFFF ^^^ 0xFFFFFFFF).toNat

end SignatureIndex.Archive
