import SignatureIndex.Text.Blank
import SignatureIndex.Text.Pattern

/-! Function declarations on one logical line: qualifiers, return type, name, parameters in
parentheses, and the mark that ends the head. A declaration may stand anywhere in the line; the
leftmost one is taken, and there the longest run of qualifiers and then the longest return type
for which the rest still fits. Only ASCII counts as word or blank here. -/
namespace SignatureIndex

open Text

/-- The parts of a declaration as written; `params` is trimmed. -/
structure Declaration where
  qualifiers : List String
  returnType : String
  name : String
  params : String
  terminator : Char
  deriving DecidableEq, Repr

namespace Declaration

/-- Qualifiers that are a bare word. -/
def keywords : List String :=
  ["native", "static", "virtual", "protected", "private", "clearscope", "action", "ui", "play",
    "const", "override", "vararg", "out", "in", "readonly"]

/-- Names that a control statement or type header would give to a declaration. -/
def reservedNames : List String :=
  ["if", "else", "while", "for", "return", "struct", "class"]

def blanks : Pattern := .many (.one isAsciiBlank)

def blanks₁ : Pattern := .atLeastOnce (.one isAsciiBlank)

def word : Pattern := .atLeastOnce (.one isWordChar)

def quotedText : Pattern :=
  .all [.text "\"", .many (.one (· ≠ '"')), .text "\""]

/-- A qualifier with arguments: a deprecation notice or a version. -/
def noteQualifier : Pattern :=
  .either
    (.all [.text "deprecated(", quotedText, .optional (.all [.text ",", blanks, quotedText]),
      .text ")"])
    (.all [.text "version(", quotedText, .text ")"])

def qualifier : Pattern :=
  .either (.anyOf (keywords.map .text)) noteQualifier

/-- Qualifiers, each starting a word and followed by blanks. -/
def qualifierRun : Pattern :=
  .many (.all [.wordEdge isWordChar, qualifier, blanks₁])

/-- Words with blanks between them. -/
def wordGroup : Pattern :=
  .both word (.many (.both blanks₁ word))

/-- Word groups with commas between them, or nothing. -/
def returnTypeText : Pattern :=
  .optional (.both wordGroup (.many (.all [blanks, .text ",", blanks, wordGroup])))

def qualifierTokens (run : List Char) : List String :=
  (Cursor.start run).findAll fun place =>
    (Pattern.either noteQualifier word).run place fun after =>
      some (String.ofList (place.upTo after), after)

def opening : Pattern := .both blanks (.text "(")

/-- The text between the parentheses. -/
def body : Pattern := .many (.one (· ≠ ')'))

/-- What stands between the closing parenthesis and the terminator. -/
def closing : Pattern := .all [.text ")", blanks, .optional (.text "const"), blanks]

def isTerminator (c : Char) : Bool := c = ';' || c = '\x7b'

/-- The declaration whose qualifiers start at one place and whose return type at another. -/
def readTyped? (place typeStart : Cursor) : Option Declaration :=
  returnTypeText.run typeStart fun typeEnd =>
  blanks₁.run typeEnd fun nameStart =>
  word.run nameStart fun nameEnd =>
  opening.run nameEnd fun bodyStart =>
  body.run bodyStart fun bodyEnd =>
  closing.run bodyEnd fun last =>
    match last.rest with
    | [] => none
    | c :: _ =>
      if isTerminator c then
        some {
          qualifiers := qualifierTokens (place.upTo typeStart)
          returnType := String.ofList (typeStart.upTo typeEnd)
          name := String.ofList (nameStart.upTo nameEnd)
          params := String.ofList (trim (bodyStart.upTo bodyEnd))
          terminator := c }
      else none

def readAt? (place : Cursor) : Option Declaration :=
  qualifierRun.run place (readTyped? place)

/-- How many opening parentheses of a text have a closing one after them, and whether there is a
closing one at all. -/
def parentheses : List Char → Nat × Bool :=
  List.foldr (fun c (opens, closes) =>
    if c = ')' then (opens, true)
    else if c = '(' ∧ closes then (opens + 1, closes) else (opens, closes)) (0, false)

/-- Looks for a declaration from place to place, as long as parentheses are left for one. -/
def readFrom (opens : Nat) (before : Option Char) : List Char → Option Declaration
  | [] => none
  | c :: rest =>
    if opens = 0 then none
    else match readAt? ⟨before, c :: rest⟩ with
      | some declaration => some declaration
      | none => readFrom (if c = '(' then opens - 1 else opens) (some c) rest

def read? (line : List Char) : Option Declaration :=
  readFrom (parentheses line).1 none line

end Declaration

end SignatureIndex
