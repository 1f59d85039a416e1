import SignatureIndex.Text.Blank
import SignatureIndex.Text.Utf8

/-! The lines of a text file. The file is decoded block by block, and the lines of a block can be
used before the next one is looked at. So a file with ill-formed bytes still has the lines that end
before the block in which the damage shows. -/
namespace SignatureIndex.Text

/-- How many bytes are decoded at a time. -/
def blockSize : Nat := 8192

/-- The characters of bytes, and the bytes of a character that may still be completed. -/
def decodeOpen? (bytes : List UInt8) : Option (List Char × List UInt8) :=
  match bytes with
  | [] => some ([], [])
  | b :: rest =>
    let after := (firstChar b rest).2
    match (firstChar b rest).1 with
    | some c => (decodeOpen? after).map fun (text, pending) => (c :: text, pending)
    | none => if after = [] ∧ (leadByte? b).isSome then some ([], b :: rest) else none
termination_by bytes.length
decreasing_by
  have := firstChar_length b rest
  simp only [List.length_cons]
  omega

/-- The characters of all blocks before the first one with ill-formed bytes, and whether there is
none. The pending bytes start a character in the blocks before. -/
def decodeBlocks (pending bytes : List UInt8) : List Char × Bool :=
  if _h : bytes = [] then ([], pending.isEmpty)
  else match decodeOpen? (pending ++ bytes.take blockSize) with
    | none => ([], false)
    | some (text, pending) =>
      let (more, intact) := decodeBlocks pending (bytes.drop blockSize)
      (text ++ more, intact)
termination_by bytes.length
decreasing_by
  have := List.length_pos_iff.mpr _h
  simp only [List.length_drop, blockSize]
  omega

/-- Lines that were read, and whether they are all the lines of their file. -/
structure Lines where
  lines : List (List Char)
  intact : Bool

/-- The text without a carriage return at its end. -/
def dropLastReturn (text : List Char) : List Char :=
  if text.getLast? = some '\r' then text.dropLast else text

/-- The lines of bytes. Before ill-formed bytes only lines with an end count, and a last carriage
return is no end yet, for a line feed may follow. -/
def Lines.ofBytes (bytes : List UInt8) : Lines :=
  match decodeBlocks [] bytes with
  | (text, true) => ⟨List.splitOn '\n' (unifyNewlines text), true⟩
  | (text, false) =>
    ⟨(List.splitOn '\n' (unifyNewlines (dropLastReturn text))).dropLast, false⟩

end SignatureIndex.Text
