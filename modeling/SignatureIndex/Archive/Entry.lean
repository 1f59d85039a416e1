import SignatureIndex.Archive.Bzip2
import SignatureIndex.Archive.Directory

/-! Reading an entry of an archive: its header in the file must agree with the directory, its data
must lie before what follows it, and the bytes must have the checksum that the directory gives. -/
namespace SignatureIndex.Archive

open Text

def methodNames : List (Nat × String) :=
  [(0, "store"), (1, "shrink"), (2, "reduce"), (3, "reduce"), (4, "reduce"), (5, "reduce"),
    (6, "implode"), (7, "tokenize"), (8, "deflate"), (9, "deflate64"), (10, "implode"),
    (12, "bzip2"), (14, "lzma"), (18, "terse"), (19, "lz77"), (97, "wavpack"), (98, "ppmd")]

/-- The letter for the kind of a file in its mode. -/
def kindLetter (mode : Nat) : Char :=
  match mode / 0o10000 with
  | 0o01 => 'p'
  | 0o02 => 'c'
  | 0o04 => 'd'
  | 0o06 => 'b'
  | 0o10 => '-'
  | 0o12 => 'l'
  | 0o14 => 's'
  | _ => '?'

/-- The letters for one group of permissions. A special bit shows in the place of the right to
execute, in lower case if that right is given too. -/
def permissionLetters (bits : Nat) (special : Bool) (letter : Char) : List Char :=
  let execute := bits.testBit 0
  [if bits.testBit 2 then 'r' else '-', if bits.testBit 1 then 'w' else '-',
    if special then (if execute then letter else letter.toUpper)
    else if execute then 'x' else '-']

def modeLetters (mode : Nat) : String :=
  String.ofList (kindLetter mode ::
    (permissionLetters (mode / 0o100 % 8) (mode.testBit 11) 's' ++
      permissionLetters (mode / 0o10 % 8) (mode.testBit 10) 's' ++
      permissionLetters (mode % 8) (mode.testBit 9) 't'))

def Header.describe (header : Header) : String :=
  let mode := header.attributes / 0x10000
  let low := header.attributes % 0x10000
  let stored := header.method = 0
  "<ZipInfo filename=" ++ quotedString header.name ++
    (if stored then ""
      else " compress_type=" ++ (methodNames.lookup header.method).getD (toString header.method)) ++
    (if mode = 0 then "" else " filemode=" ++ quotedString (modeLetters mode)) ++
    (if low = 0 then "" else " external_attr=0x" ++ String.ofList (Nat.toDigits 16 low)) ++
    (if header.isDirectory ∧ header.size = 0 then ""
      else " file_size=" ++ toString header.size) ++
    (if header.isDirectory ∧ header.compressedSize = 0 ∨
        stored ∧ header.size = header.compressedSize then ""
      else " compress_size=" ++ toString header.compressedSize) ++ ">"

def localMark : List UInt8 := [0x50, 0x4B, 0x03, 0x04]

/-- The size of an entry's header in the file without its name and extra fields. -/
def localSize : Nat := 30

def failEntry {α : Type} (header : Header) (fault : ArchiveFault) : Except Failure α :=
  .error (.archiveEntry header.name fault)

/-- The first number that is no offset at all. -/
def offsetLimit : Int := 0x8000000000000000

/-- The last offset in a file of the largest size. -/
def lastOffset : Int := 0xFFFFFFFF000

/-- The offset of an entry's data, after all checks of its header. -/
def locateData (bytes : List UInt8) (header : Header) : Except Failure Nat := do
  if offsetLimit ≤ header.offset then throw .archiveOffset
  if header.offset < 0 ∨ lastOffset < header.offset then failEntry header .headerOffset
  let start := header.offset.toNat
  let record := slice bytes start localSize
  if record.length < localSize then failEntry header .headerTruncated
  if !localMark.isPrefixOf record then failEntry header .headerMark
  let name := slice bytes (start + localSize) (field record 26 2)
  let extra := slice bytes (start + localSize + name.length) (field record 28 2)
  if header.hasFlag 5 then failEntry header .patched
  if header.hasFlag 6 then failEntry header .strongEncryption
  let text ← nameText (field record 6 2) name
  if text ≠ header.fullName then failEntry header (.nameDiffers header.fullName name)
  let data := start + localSize + name.length + extra.length
  if ((data + header.compressedSize : Nat) : Int) > header.dataLimit then
    failEntry header (.overlapping header.fullName)
  if header.hasFlag 0 then failEntry header (.encrypted header.describe)
  return data

/-- The bytes that the data of an entry stands for. -/
def expand (header : Header) (data : List UInt8) : Except Failure (List UInt8) :=
  if header.method = 0 then .ok data
  else if header.method = 8 then
    match inflate data with
    | .ok bytes => .ok bytes
    | .error fault => failEntry header (.deflate fault)
  else if header.method = 12 then
    match Bzip2.decompress data with
    | .ok bytes => .ok bytes
    | .error _ => failEntry header .dataStream
  else if header.method = 14 then
    match Lzma.decompress data with
    | .ok bytes => .ok bytes
    | .error fault => .error (.archiveData fault)
  else failEntry header .method

/-- The bytes of an entry, cut to the size that the directory gives. -/
def readEntry (bytes : List UInt8) (header : Header) : Except Failure (List UInt8) :=
  match locateData bytes header with
  | .error failure => .error failure
  | .ok start =>
    match expand header (slice bytes start header.compressedSize) with
    | .error failure => .error failure
    | .ok expanded =>
      let content := expanded.take header.size
      if checksum content = header.checksum then .ok content
      else failEntry header (.checksum header.name)

/-- The text of an entry; ill-formed bytes are replaced. -/
def readEntryText (bytes : List UInt8) (header : Header) : Except Failure String :=
  (readEntry bytes header).map fun content => String.ofList (decodeReplacing content)

end SignatureIndex.Archive
