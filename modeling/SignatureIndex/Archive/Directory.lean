import SignatureIndex.Failure
import SignatureIndex.Text.Utf8

/-! The directory of an archive. It is found from the end record, which is the last thing in the
file apart from a comment. Other data may stand before the archive; then all offsets are moved by
its size. Entry names that are not marked as UTF-8 are in a code page: ASCII, and one character for
each byte above it. -/
namespace SignatureIndex.Archive

open Text

/-- What the end record says: where it stands itself, and size and offset of the directory. -/
structure EndRecord where
  position : Nat
  size : Nat
  offset : Nat
  /-- Whether the numbers come from the records for large archives before the end record. -/
  isLarge : Bool
  deriving DecidableEq, Repr

def endSize : Nat := 22

def largeEndSize : Nat := 56

/-- The size of the record that leads to the one for large archives. -/
def locatorSize : Nat := 20

def endMark : List UInt8 := [0x50, 0x4B, 0x05, 0x06]

def largeEndMark : List UInt8 := [0x50, 0x4B, 0x06, 0x06]

def locatorMark : List UInt8 := [0x50, 0x4B, 0x06, 0x07]

def entryMark : List UInt8 := [0x50, 0x4B, 0x01, 0x02]

/-- The longest comment, with one byte to spare. -/
def commentLimit : Nat := 65536

/-- The last offset at which a mark stands. -/
def lastOffset? (mark : List UInt8) (offset : Nat) : List UInt8 → Option Nat
  | [] => none
  | b :: rest =>
    match lastOffset? mark (offset + 1) rest with
    | some found => some found
    | none => if mark.isPrefixOf (b :: rest) then some offset else none

/-- Where the end record stands: at the very end without a comment, else at the last mark in the
range of a comment. -/
def endPosition? (bytes : List UInt8) : Option Nat :=
  let total := bytes.length
  if total < endSize then none
  else
    let last := bytes.drop (total - endSize)
    if endMark.isPrefixOf last ∧ field last 20 2 = 0 then some (total - endSize)
    else
      let start := total - (commentLimit + endSize)
      match lastOffset? endMark start (bytes.drop start) with
      | none => none
      | some position => if position + endSize ≤ total then some position else none

/-- The end record with the numbers of the records for large archives, if they are there. -/
def withLarge (bytes : List UInt8) (plain : EndRecord) : Except ArchiveFault EndRecord :=
  if plain.position < locatorSize then .ok plain
  else
    let locator := slice bytes (plain.position - locatorSize) locatorSize
    if !locatorMark.isPrefixOf locator then .ok plain
    else if field locator 4 4 ≠ 0 ∨ field locator 16 4 > 1 then .error .manyDisks
    else if plain.position < locatorSize + largeEndSize then .error .notArchive
    else
      let large := slice bytes (plain.position - locatorSize - largeEndSize) largeEndSize
      if !largeEndMark.isPrefixOf large then .ok plain
      else .ok ⟨plain.position, field large 40 8, field large 48 8, true⟩

def readEnd (bytes : List UInt8) : Except ArchiveFault EndRecord :=
  match endPosition? bytes with
  | none => .error .notArchive
  | some position =>
    let record := slice bytes position endSize
    withLarge bytes ⟨position, field record 12 4, field record 16 4, false⟩

/-- An entry of the directory. `dataLimit` is the offset that its data may reach at most. -/
structure Header where
  fullName : String
  flags : Nat
  method : Nat
  checksum : Nat
  compressedSize : Nat
  size : Nat
  attributes : Nat
  offset : Int
  dataLimit : Int
  deriving DecidableEq, Repr

namespace Header

/-- The name up to a null character. -/
def name (header : Header) : String :=
  String.ofList (header.fullName.toList.takeWhile (·.toNat ≠ 0))

def isDirectory (header : Header) : Bool :=
  header.name.toList.getLast? = some '/'

def hasFlag (header : Header) (bit : Nat) : Bool :=
  header.flags.testBit bit

end Header

def utf8Flag : Nat := 11

/-- The characters of the bytes from 128 on. -/
def upperHalf : String :=
  "ÇüéâäàåçêëèïîìÄÅÉæÆôöòûùÿÖÜ¢£¥₧ƒáíóúñÑªº¿⌐¬½¼¡«»░▒▓│┤╡╢╖╕╣║╗╝╜╛┐" ++
    "└┴┬├─┼╞╟╚╔╩╦╠═╬╧╨╤╥╙╘╒╓╫╪┘┌█▄▌▐▀αßΓπΣσµτΦΘΩδ∞φε∩≡±≥≤⌠⌡÷≈°∙·√ⁿ²■\u00a0"

def codePageChar (b : UInt8) : Char :=
  if b.toNat < 0x80 then Char.ofNat b.toNat
  else (upperHalf.toList[b.toNat - 0x80]?).getD (Char.ofNat 0xFFFD)

def codePageText (bytes : List UInt8) : String :=
  String.ofList (bytes.map codePageChar)

/-- A name; ill-formed UTF-8 is refused. -/
def nameText (flags : Nat) (bytes : List UInt8) : Except Failure String :=
  if flags.testBit utf8Flag then
    match decodeStrict? bytes with
    | some text => .ok (String.ofList text)
    | none => .error .undecodable
  else .ok (codePageText bytes)

/-- The sizes and the offset of an entry, which extra fields may replace. -/
structure Extent where
  size : Nat
  compressedSize : Nat
  offset : Nat

/-- A number of eight bytes at the start of a field. -/
def takeLarge (name : String) (data : List UInt8) : Except ArchiveFault (Nat × List UInt8) :=
  if data.length < 8 then .error (.extraNumber name)
  else .ok (field data 0 8, data.drop 8)

/-- The number for a place that is full. -/
def full : Nat := 0xFFFFFFFF

/-- The extent with the numbers of a field for large archives: each stands there only if its usual
place is full. -/
def Extent.enlarge (extent : Extent) (data : List UInt8) : Except ArchiveFault Extent := do
  let (size, data) ←
    if extent.size = full ∨ extent.size = 0xFFFFFFFFFFFFFFFF then takeLarge "File size" data
    else pure (extent.size, data)
  let (compressedSize, data) ←
    if extent.compressedSize = full then takeLarge "Compress size" data
    else pure (extent.compressedSize, data)
  let (offset, _) ←
    if extent.offset = full then takeLarge "Header offset" data else pure (extent.offset, data)
  return ⟨size, compressedSize, offset⟩

def readExtra (extent : Extent) (extra : List UInt8) : Except ArchiveFault Extent :=
  if extra.length < 4 then .ok extent
  else
    let tag := field extra 0 2
    let size := field extra 2 2
    if size + 4 > extra.length then .error (.extraField tag size)
    else
      let rest := extra.drop (size + 4)
      if tag = 1 then
        match extent.enlarge (slice extra 4 size) with
        | .error fault => .error fault
        | .ok enlarged => readExtra enlarged rest
      else readExtra extent rest
termination_by extra.length
decreasing_by all_goals (simp only [List.length_drop]; omega)

/-- The size of an entry of the directory without its name, extra fields and comment. -/
def headerSize : Nat := 46

/-- The latest version of the format, in tenths. -/
def latestVersion : Nat := 63

def opening (path : String) {α : Type} : Except ArchiveFault α → Except Failure α
  | .ok value => .ok value
  | .error fault => .error (.archiveOpening path fault)

/-- Reads one entry from the start of the directory's rest; gives it and the size it claims. -/
def readHeader (path : String) (moved : Int) (data : List UInt8) :
    Except Failure (Header × Nat) := do
  if data.length < headerSize then throw (.archiveOpening path .directoryTruncated)
  if !entryMark.isPrefixOf data then throw (.archiveOpening path .directoryMark)
  let flags := field data 8 2
  let nameLength := field data 28 2
  let extraLength := field data 30 2
  let commentLength := field data 32 2
  let fullName ← nameText flags (slice data headerSize nameLength)
  let version := field data 6 1
  if version > latestVersion then throw (.archiveVersion version)
  let extent ← opening path (readExtra ⟨field data 24 4, field data 20 4, field data 42 4⟩
    (slice data (headerSize + nameLength) extraLength))
  let header : Header := {
    fullName
    flags
    method := field data 10 2
    checksum := field data 16 4
    compressedSize := extent.compressedSize
    size := extent.size
    attributes := field data 38 4
    offset := extent.offset + moved
    dataLimit := 0 }
  return (header, headerSize + nameLength + extraLength + commentLength)

/-- Reads entries until they take up the size of the directory. The bound limits their number. -/
def readHeaders (path : String) (moved : Int) (size : Nat) :
    Nat → Nat → List UInt8 → Except Failure (List Header)
  | 0, _, _ => .ok []
  | bound + 1, taken, data =>
    if size ≤ taken then .ok []
    else match readHeader path moved data with
      | .error failure => .error failure
      | .ok (header, claimed) =>
        (readHeaders path moved size bound (taken + claimed) (data.drop claimed)).map (header :: ·)

/-- The entries with the offsets that their data may reach: from the last entry in the file
backwards, each up to the start of the one after it, and the last up to the directory. -/
def limitData (directory : Int) (headers : List Header) : List Header :=
  let numbered := headers.mapIdx fun index header => (index, header)
  let backwards := numbered.mergeSort fun a b => decide (b.2.offset ≤ a.2.offset)
  let limits := (backwards.foldl
    (fun (state : Int × List (Nat × Int)) entry =>
      (entry.2.offset, (entry.1, state.1) :: state.2))
    (directory, [])).2
  numbered.map fun entry => { entry.2 with dataLimit := (limits.lookup entry.1).getD directory }

def readDirectory (path : String) (bytes : List UInt8) : Except Failure (List Header) := do
  let record ← opening path (readEnd bytes)
  let before : Int := (record.position : Int) - record.size - record.offset -
    if record.isLarge then ((largeEndSize + locatorSize : Nat) : Int) else 0
  let start := record.offset + before
  if start < 0 then throw (.archiveOpening path .directoryOffset)
  let data := slice bytes start.toNat record.size
  let headers ← readHeaders path before record.size (data.length + 1) 0 data
  return limitData start headers

end SignatureIndex.Archive
