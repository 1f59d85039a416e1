import SignatureIndex.Signature
import SignatureIndex.Text.Blank
import SignatureIndex.Text.Letter

/-! The parameters in the text between a declaration's parentheses. The text is cut at every
comma; blank pieces do not count. A default value is dropped with all that follows the name. -/
namespace SignatureIndex.Parameter

open Text

def placeholder : String := "param"

/-- The text through the first occurrence of a character, and what follows; nothing if the
character does not occur. -/
def cutAfter? (mark : Char) : List Char → Option (List Char × List Char)
  | [] => none
  | c :: rest =>
    if c = mark then some ([c], rest)
    else (cutAfter? mark rest).map fun (front, back) => (c :: front, back)

/-- Splits a piece into type and the text after it. The type is the first word; a class
reference in angle brackets may hold blanks and reaches to its closing bracket. -/
def splitType (piece : List Char) : List Char × List Char :=
  match words piece with
  | [] => ([], [])
  | type :: rest =>
    match startsWith "class<".toList type, cutAfter? '>' piece with
    | true, some (front, back) => (trim front, trim back)
    | _, _ => (type, List.intercalate [' '] rest)

/-- The word at the start of the text after the type, or the placeholder. -/
def leadingName (rest : List Char) : String :=
  match rest.takeWhile isWordChar with
  | [] => placeholder
  | name => String.ofList name

def ofPiece (piece : List Char) (position : Nat) : Parameter :=
  let (type, rest) := splitType piece
  ⟨leadingName rest, String.ofList type, position⟩

/-- The pieces between commas, trimmed, without the blank ones. -/
def pieces (raw : List Char) : List (List Char) :=
  ((List.splitOn ',' raw).map trim).filter fun piece => !piece.isEmpty

def list (raw : List Char) : List Parameter :=
  (pieces raw).mapIdx fun position piece => ofPiece piece position

end SignatureIndex.Parameter
