import SignatureIndex.Text.Blank
import SignatureIndex.Text.Letter

/-! The call around a cursor. The text before the cursor is read once, keeping the parentheses
that are open; quoted strings are passed over, and one that is still open hides nothing. The
innermost open parenthesis with a word before it belongs to the call. -/
namespace SignatureIndex.Call

open Text

/-- A call being typed: the function's name and the text of its arguments so far. -/
structure Context where
  name : String
  arguments : String
  deriving DecidableEq, Repr

/-- An open parenthesis: the text before it, nearest character first, and the text after it. -/
structure OpenParen where
  before : List Char
  after : List Char

/-- The open parentheses at the end of a text, innermost first. `quote` is the quote of the
string being read, and `passed` is the text read so far, nearest character first. A string ends
at its own quote unless a backslash stands just before. -/
def openParens (quote : Option Char) (passed : List Char) (opens : List OpenParen) :
    List Char → List OpenParen
  | [] => opens
  | c :: rest =>
    match quote with
    | some q =>
      if c = q ∧ passed.head? ≠ some '\\' then openParens none (c :: passed) opens rest
      else openParens (some q) (c :: passed) opens rest
    | none =>
      if c = '"' ∨ c = '\'' then openParens (some c) (c :: passed) opens rest
      else if c = '(' then openParens none (c :: passed) (⟨passed, rest⟩ :: opens) rest
      else if c = ')' then openParens none (c :: passed) opens.tail rest
      else openParens none (c :: passed) opens rest

/-- The word that ends a text given nearest character first, blanks after it aside. -/
def lastWord? (before : List Char) : Option (List Char) :=
  match (before.dropWhile isAsciiBlank).takeWhile isWordChar with
  | [] => none
  | word => some word.reverse

/-- The call that an open parenthesis belongs to, if a word stands before it. -/
def OpenParen.context? (paren : OpenParen) : Option Context :=
  (lastWord? paren.before).map fun name => ⟨String.ofList name, String.ofList paren.after⟩

/-- The call around the end of a text. -/
def context? (text : List Char) : Option Context :=
  (openParens none [] [] text).findSome? OpenParen.context?

end SignatureIndex.Call
