import SignatureIndex.Document
import SignatureIndex.Value

/-! Documents as records. A record may hold values of any kind; it is refused only if the text
before the cursor cannot be cut out, so the character does not count where the line is out of
range. -/
namespace SignatureIndex

open Text

inductive DocumentFault where
  /-- The text is no text. -/
  | text (kind : String)
  /-- The line is no number. -/
  | line (kind : String)
  /-- The line is in range and no whole number. -/
  | lineIndex (kind : String)
  /-- The character is no whole number. -/
  | character
  deriving DecidableEq, Repr

def DocumentFault.message : DocumentFault → String
  | text kind => "'" ++ kind ++ "' object has no attribute 'split'"
  | line kind => "'<=' not supported between instances of 'int' and '" ++ kind ++ "'"
  | lineIndex kind => "list indices must be integers or slices, not " ++ kind
  | character => "slice indices must be integers or None or have an __index__ method"

/-- Whether a number is at least zero and less than a bound. -/
def Binary64.isBelow (bound : Nat) : Binary64 → Bool
  | .finite negative mantissa exponent =>
    (!negative || mantissa = 0) &&
      decide (mantissa * Nat.pow 2 exponent.toNat < bound * Nat.pow 2 (-exponent).toNat)
  | _ => false

namespace Document

/-- A line that is in no text. -/
def noLine : Int := -1

/-- The line that a value stands for in a text with so many lines. -/
def lineOf (count : Nat) : Value → Except DocumentFault Int
  | .integer n => .ok n
  | .bool b => .ok (if b then 1 else 0)
  | .real x => if x.isBelow count then .error (.lineIndex (Value.real x).kindName) else .ok noLine
  | other => .error (.line other.kindName)

/-- The character that a value stands for; null stands for the end of the line. -/
def characterOf : Value → Except DocumentFault (Option Int)
  | .null => .ok none
  | .integer n => .ok (some n)
  | .bool b => .ok (some (if b then 1 else 0))
  | _ => .error .character

/-- A text, or nothing for any other value. -/
def textOf? : Value → Option String
  | .text s => some s
  | _ => none

def ofValue (value : Value) : Except DocumentFault Document := do
  let fieldOf (name : String) : Value := (value.field? name).getD .null
  let text ← match fieldOf "text" with
    | .text s => pure s
    | other => throw (.text other.kindName)
  let count := (List.splitOn '\n' text.toList).length
  let line ← lineOf count (fieldOf "line")
  let character ←
    if 0 ≤ line ∧ line < count then characterOf (fieldOf "character") else pure none
  let language := match value.field? "language_id" with
    | none => some defaultLanguage
    | some given => textOf? given
  return ⟨text, line, character, language, textOf? (fieldOf "path")⟩

end Document

end SignatureIndex
