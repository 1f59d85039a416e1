import SignatureIndex.Declaration
import SignatureIndex.Signature

/-! Shapes of a logical line other than a declaration: a type header, an else-if branch, and
something that looks like a call. -/
namespace SignatureIndex.Scan

open Text Declaration

/-- A type header of one kind that starts at a place. -/
def typeHeaderAt? (kind : TypeKind) (place : Cursor) : Option Enclosing :=
  (Pattern.all [.wordEdge isWordChar, .text kind.keyword, blanks₁]).run place fun nameStart =>
    word.run nameStart fun nameEnd =>
      some ⟨kind, String.ofList (nameStart.upTo nameEnd)⟩

def typeHeader? (line : List Char) : Option Enclosing :=
  (Cursor.start line).findFirst fun place =>
    match typeHeaderAt? .classType place with
    | some type => some type
    | none => typeHeaderAt? .structType place

/-- The words `else if`. Their edges and the blanks between them are those of all scripts, not
only of ASCII. -/
def elseIf : Pattern :=
  .all [.wordEdge isAnyWordChar, .text "else", .atLeastOnce (.one isBlank), .text "if",
    .wordEdge isAnyWordChar]

def isElseIf (line : List Char) : Bool :=
  elseIf.occursIn line

/-- Two words and an opening parenthesis. -/
def callShape : Pattern :=
  .all [.wordEdge isWordChar, word, blanks₁, word, opening]

/-- Whether a line holds something that looks like a declaration's name and parenthesis. -/
def isCallShaped (line : List Char) : Bool :=
  callShape.occursIn line

end SignatureIndex.Scan
