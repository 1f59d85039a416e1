import SignatureIndex.Archive.Bytes

/-! Decompression of deflated data. The data is a sequence of bits, least significant bit of each
byte first, in blocks that are stored, coded with fixed codes, or coded with codes of their own.
Data that ends early gives what came before; broken data gives the fault. -/
namespace SignatureIndex.Archive

inductive InflateFault where
  | blockType
  | storedLengths
  | tooManySymbols
  | codeLengthsSet
  | bitLengthRepeat
  | missingEnd
  | literalSet
  | distanceSet
  | literalCode
  | distanceCode
  | tooFarBack
  deriving DecidableEq, Repr

def InflateFault.message : InflateFault → String
  | blockType => "invalid block type"
  | storedLengths => "invalid stored block lengths"
  | tooManySymbols => "too many length or distance symbols"
  | codeLengthsSet => "invalid code lengths set"
  | bitLengthRepeat => "invalid bit length repeat"
  | missingEnd => "invalid code -- missing end-of-block"
  | literalSet => "invalid literal/lengths set"
  | distanceSet => "invalid distances set"
  | literalCode => "invalid literal/length code"
  | distanceCode => "invalid distance code"
  | tooFarBack => "invalid distance too far back"

/-- Why reading stops: the bits end, or a fault. -/
inductive Stop where
  | short
  | fault (fault : InflateFault)
  deriving DecidableEq, Repr

/-- The bits of a byte, least significant first. -/
def bitsOfByte (b : UInt8) : Bits :=
  (List.range 8).map fun index => b.toNat.testBit index

def bitsOf (bytes : List UInt8) : Bits :=
  bytes.flatMap bitsOfByte

/-- A number of so many bits, least significant first. -/
def takeNumber : Nat → Bits → Except Stop (Nat × Bits)
  | 0, bits => .ok (0, bits)
  | _ + 1, [] => .error .short
  | count + 1, bit :: rest =>
    (takeNumber count rest).map fun (n, after) => ((if bit then 1 else 0) + 2 * n, after)

/-- A prefix code as a tree: a bit leads to one of two subtrees, a leaf is a symbol, and some
codes may be unused. -/
inductive CodeTree where
  | unused
  | leaf (symbol : Nat)
  | fork (zero one : CodeTree)

namespace CodeTree

def insert (tree : CodeTree) (symbol : Nat) : Bits → CodeTree
  | [] => .leaf symbol
  | bit :: rest =>
    let (zero, one) := match tree with
      | .fork zero one => (zero, one)
      | _ => (.unused, .unused)
    if bit then .fork zero (one.insert symbol rest) else .fork (zero.insert symbol rest) one

/-- Follows bits to a leaf; nothing is found where the code is unused. -/
def follow : CodeTree → Bits → Except Stop (Option Nat × Bits)
  | .unused, bits => .ok (none, bits)
  | .leaf symbol, bits => .ok (some symbol, bits)
  | .fork _ _, [] => .error .short
  | .fork zero one, bit :: rest => if bit then one.follow rest else zero.follow rest

/-- The symbol that the next bits stand for. Even a tree without codes takes one bit. -/
def decode (tree : CodeTree) (fault : InflateFault) (bits : Bits) : Except Stop (Nat × Bits) :=
  match bits with
  | [] => .error .short
  | _ :: _ =>
    match tree.follow bits with
    | .error stop => .error stop
    | .ok (none, _) => .error (.fault fault)
    | .ok (some symbol, rest) => .ok (symbol, rest)

end CodeTree

def longestCode : Nat := 15

def countOf (lengths : List Nat) (length : Nat) : Nat :=
  (lengths.filter (· = length)).length

/-- The number of codes of the longest length that are left unused by codes of these lengths; it
is negative if there are too many codes. -/
def spareCodes (lengths : List Nat) : Int :=
  (List.range' 1 longestCode).foldl (fun left length => 2 * left - countOf lengths length) 1

/-- Whether lengths leave no room for all their codes at some length. -/
def isOversubscribed (lengths : List Nat) : Bool :=
  ((List.range' 1 longestCode).foldl
    (fun (state : Int × Bool) length =>
      let left := 2 * state.1 - countOf lengths length
      (left, state.2 || decide (left < 0)))
    (1, false)).2

/-- The first code of a length: codes of a length follow those of the length before. -/
def firstCode (lengths : List Nat) : Nat → Nat
  | 0 => 0
  | length + 1 =>
    2 * (firstCode lengths length + if length = 0 then 0 else countOf lengths length)

/-- The bits of a code, first bit first. -/
def codeBits (length code : Nat) : Bits :=
  (List.range length).reverse.map fun index => code.testBit index

/-- The tree of the codes that lengths give to the symbols from zero on: within a length codes
grow with the symbol, and a symbol of length zero has none. -/
def treeOf (lengths : List Nat) : CodeTree :=
  let numbered := lengths.mapIdx fun symbol length => (symbol, length)
  (List.range' 1 longestCode).foldl (fun tree length =>
    let symbols := (numbered.filter (·.2 = length)).map (·.1)
    let first := firstCode lengths length
    (symbols.mapIdx fun index symbol => (index, symbol)).foldl (fun tree (index, symbol) =>
      tree.insert symbol (codeBits length (first + index))) tree) .unused

/-- The tree of a set of lengths, unless they make no code. A code may leave codes unused only if
that is allowed and all its codes have length one. -/
def treeOf? (mayBeIncomplete : Bool) (lengths : List Nat) : Option CodeTree :=
  if lengths.all (· = 0) then some .unused
  else if isOversubscribed lengths then none
  else if spareCodes lengths > 0 ∧ !(mayBeIncomplete && lengths.all (· ≤ 1)) then none
  else some (treeOf lengths)

/-- The order in which the lengths of the code for lengths are written. -/
def lengthOrder : List Nat :=
  [16, 17, 18, 0, 8, 7, 9, 6, 10, 5, 11, 4, 12, 3, 13, 2, 14, 1, 15]

def takeLengths : Nat → Bits → Except Stop (List Nat × Bits)
  | 0, bits => .ok ([], bits)
  | count + 1, bits =>
    match takeNumber 3 bits with
    | .error stop => .error stop
    | .ok (length, rest) =>
      (takeLengths count rest).map fun (lengths, after) => (length :: lengths, after)

/-- The lengths of the code for lengths, in order of their symbols. -/
def arrangeLengths (written : List Nat) : List Nat :=
  (List.range 19).map fun symbol => ((lengthOrder.zip written).lookup symbol).getD 0

/-- The next symbol of the code for lengths; a code without symbols reads as zero. -/
def decodeLength (tree : CodeTree) (bits : Bits) : Except Stop (Nat × Bits) :=
  match tree, bits with
  | .unused, _ :: rest => .ok (0, rest)
  | tree, bits => tree.decode .codeLengthsSet bits

/-- Reads `total` lengths; `found` holds those read so far, last first. A symbol may repeat the
last length or zero. The bound limits the steps; `total` is enough. -/
def readLengths (tree : CodeTree) (total : Nat) :
    Nat → List Nat → Bits → Except Stop (List Nat × Bits)
  | 0, found, bits => .ok (found.reverse, bits)
  | bound + 1, found, bits =>
    if total ≤ found.length then .ok (found.reverse, bits)
    else match decodeLength tree bits with
      | .error stop => .error stop
      | .ok (symbol, rest) =>
        if symbol < 16 then readLengths tree total bound (symbol :: found) rest
        else
          let (width, least) :=
            if symbol = 16 then (2, 3) else if symbol = 17 then (3, 3) else (7, 11)
          match takeNumber width rest with
          | .error stop => .error stop
          | .ok (extra, after) =>
            let count := least + extra
            let value := if symbol = 16 then found.head? else some 0
            match value with
            | none => .error (.fault .bitLengthRepeat)
            | some length =>
              if total < found.length + count then .error (.fault .bitLengthRepeat)
              else readLengths tree total bound (List.replicate count length ++ found) after

/-- The two codes of a block: for bytes and lengths, and for distances. -/
structure Codes where
  literals : CodeTree
  distances : CodeTree

def endSymbol : Nat := 256

/-- The codes that are fixed by the format. -/
def fixedCodes : Codes where
  literals := treeOf (List.replicate 144 8 ++ List.replicate 112 9 ++ List.replicate 24 7 ++
    List.replicate 8 8)
  distances := treeOf (List.replicate 32 5)

def readCodes (bits : Bits) : Except Stop (Codes × Bits) := do
  let (literalExtra, bits) ← takeNumber 5 bits
  let (distanceExtra, bits) ← takeNumber 5 bits
  let (lengthExtra, bits) ← takeNumber 4 bits
  let literalCount := literalExtra + 257
  let distanceCount := distanceExtra + 1
  if literalCount > 286 ∨ distanceCount > 30 then throw (.fault .tooManySymbols)
  let (written, bits) ← takeLengths (lengthExtra + 4) bits
  let lengthTree ← match treeOf? false (arrangeLengths written) with
    | some tree => pure tree
    | none => throw (.fault .codeLengthsSet)
  let total := literalCount + distanceCount
  let (lengths, bits) ← readLengths lengthTree total total [] bits
  let literalLengths := lengths.take literalCount
  if literalLengths[endSymbol]?.getD 0 = 0 then throw (.fault .missingEnd)
  let literals ← match treeOf? true literalLengths with
    | some tree => pure tree
    | none => throw (.fault .literalSet)
  let distances ← match treeOf? true (lengths.drop literalCount) with
    | some tree => pure tree
    | none => throw (.fault .distanceSet)
  return (⟨literals, distances⟩, bits)

/-- Least lengths and numbers of extra bits of the symbols from 257 on. -/
def lengthTable : List (Nat × Nat) :=
  [(3, 0), (4, 0), (5, 0), (6, 0), (7, 0), (8, 0), (9, 0), (10, 0), (11, 1), (13, 1), (15, 1),
    (17, 1), (19, 2), (23, 2), (27, 2), (31, 2), (35, 3), (43, 3), (51, 3), (59, 3), (67, 4),
    (83, 4), (99, 4), (115, 4), (131, 5), (163, 5), (195, 5), (227, 5), (258, 0)]

def distanceTable : List (Nat × Nat) :=
  [(1, 0), (2, 0), (3, 0), (4, 0), (5, 1), (7, 1), (9, 2), (13, 2), (17, 3), (25, 3), (33, 4),
    (49, 4), (65, 5), (97, 5), (129, 6), (193, 6), (257, 7), (385, 7), (513, 8), (769, 8),
    (1025, 9), (1537, 9), (2049, 10), (3073, 10), (4097, 11), (6145, 11), (8193, 12), (12289, 12),
    (16385, 13), (24577, 13)]

/-- Reads the extra bits of a table's entry; an entry beyond the table is a fault. -/
def takeExtended (table : List (Nat × Nat)) (index : Nat) (fault : InflateFault) (bits : Bits) :
    Except Stop (Nat × Bits) :=
  match table[index]? with
  | none => .error (.fault fault)
  | some (least, width) => (takeNumber width bits).map fun (extra, rest) => (least + extra, rest)

def readItem (codes : Codes) (bits : Bits) : Except Stop (Item × Bits) := do
  let (symbol, bits) ← codes.literals.decode .literalCode bits
  if symbol < endSymbol then return (.byte symbol.toUInt8, bits)
  if symbol = endSymbol then return (.finish, bits)
  let (length, bits) ← takeExtended lengthTable (symbol - 257) .literalCode bits
  let (distanceSymbol, bits) ← codes.distances.decode .distanceCode bits
  let (distance, bits) ← takeExtended distanceTable distanceSymbol .distanceCode bits
  return (.copy length distance, bits)

/-- What a part of the data gives: the bytes so far, and the bits after it or why it stops. -/
structure Inflated where
  bytes : Array UInt8
  rest : Except Stop Bits

/-- Reads the items of a coded block. The bound limits their number; the number of bits is
enough. -/
def readBlock (codes : Codes) : Nat → Bits → Array UInt8 → Inflated
  | 0, _, out => ⟨out, .error .short⟩
  | bound + 1, bits, out =>
    match readItem codes bits with
    | .error stop => ⟨out, .error stop⟩
    | .ok (.finish, rest) => ⟨out, .ok rest⟩
    | .ok (.byte b, rest) => readBlock codes bound rest (out.push b)
    | .ok (.copy length distance, rest) =>
      if out.size < distance then ⟨out, .error (.fault .tooFarBack)⟩
      else readBlock codes bound rest (copyBack distance length out)

def copyStored : Nat → Bits → Array UInt8 → Inflated
  | 0, bits, out => ⟨out, .ok bits⟩
  | count + 1, bits, out =>
    match takeNumber 8 bits with
    | .error stop => ⟨out, .error stop⟩
    | .ok (b, rest) => copyStored count rest (out.push b.toUInt8)

/-- Reads a stored block, which starts at the next whole byte. -/
def readStored (bits : Bits) (out : Array UInt8) : Inflated :=
  let aligned := bits.drop (bits.length % 8)
  match takeNumber 16 aligned with
  | .error stop => ⟨out, .error stop⟩
  | .ok (length, rest) =>
    match takeNumber 16 rest with
    | .error stop => ⟨out, .error stop⟩
    | .ok (complement, data) =>
      if length + complement ≠ 0xFFFF then ⟨out, .error (.fault .storedLengths)⟩
      else copyStored length data out

def readTyped (type : Nat) (bits : Bits) (out : Array UInt8) : Inflated :=
  if type = 0 then readStored bits out
  else if type = 1 then readBlock fixedCodes (bits.length + 1) bits out
  else if type = 2 then
    match readCodes bits with
    | .error stop => ⟨out, .error stop⟩
    | .ok (codes, rest) => readBlock codes (rest.length + 1) rest out
  else ⟨out, .error (.fault .blockType)⟩

/-- Reads blocks up to the one that is marked as the last. The bound limits their number; the
number of bits is enough. -/
def readBlocks : Nat → Bits → Array UInt8 → Inflated
  | 0, _, out => ⟨out, .error .short⟩
  | bound + 1, bits, out =>
    match takeNumber 3 bits with
    | .error stop => ⟨out, .error stop⟩
    | .ok (header, rest) =>
      match readTyped (header / 2) rest out with
      | ⟨extended, .error stop⟩ => ⟨extended, .error stop⟩
      | ⟨extended, .ok after⟩ =>
        if header % 2 = 1 then ⟨extended, .ok after⟩ else readBlocks bound after extended

def inflate (data : List UInt8) : Except InflateFault (List UInt8) :=
  let bits := bitsOf data
  match readBlocks (bits.length + 1) bits #[] with
  | ⟨_, .error (.fault fault)⟩ => .error fault
  | ⟨out, _⟩ => .ok out.toList

end SignatureIndex.Archive
