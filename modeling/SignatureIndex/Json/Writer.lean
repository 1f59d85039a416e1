import SignatureIndex.Text.Blank
import SignatureIndex.Text.Quoted
import SignatureIndex.Value.Literal

/-! Writing a value as JSON text, without blanks. -/
namespace SignatureIndex.Json

/-- Floating-point numbers in exports: positional from `1e-5` to below `1e16`, and an exponent with
its sign. -/
def floatLayout : Binary64.Layout where
  largestPlain := 16
  smallestPlain := -4
  exponent := fun exponent => (if exponent < 0 then "e" else "e+") ++ toString exponent
  nan := "null"
  infinity := "null"

/-- A floating-point number; one that is not finite has no number form. -/
def writeReal : Binary64 → String
  | .finite negative mantissa exponent =>
    (Binary64.finite negative mantissa exponent).render floatLayout
  | _ => "null"

def writeChar (c : Char) : List Char :=
  if c = '"' ∨ c = '\\' then ['\\', c]
  else if c = '\x08' then ['\\', 'b']
  else if c = '\t' then ['\\', 't']
  else if c = '\n' then ['\\', 'n']
  else if c = '\x0c' then ['\\', 'f']
  else if c = '\r' then ['\\', 'r']
  else if c.toNat < 0x20 then '\\' :: 'u' :: Text.hexDigits 4 c.toNat
  else [c]

def writeText (s : String) : List Char :=
  '"' :: (s.toList.flatMap writeChar ++ ['"'])

mutual
def write : Value → List Char
  | .null => "null".toList
  | .bool b => (if b then "true" else "false").toList
  | .integer n => (toString n).toList
  | .real x => (writeReal x).toList
  | .text s => writeText s
  | .moment m => writeText m.literal
  | .list items => '[' :: (List.intercalate [','] (writeItems items) ++ [']'])
  | .record fields => '\x7b' :: (List.intercalate [','] (writeFields fields) ++ ['\x7d'])

def writeItems : List Value → List (List Char)
  | [] => []
  | value :: rest => write value :: writeItems rest

def writeFields : List (String × Value) → List (List Char)
  | [] => []
  | (name, value) :: rest => (writeText name ++ ':' :: write value) :: writeFields rest
end

/-- The order of field names: by code points. -/
def nameLe (a b : String × Value) : Bool :=
  decide (a.1 ≤ b.1)

mutual
/-- The value with the fields of every record in order of their names. -/
def sortFields : Value → Value
  | .list items => .list (sortFieldsOfItems items)
  | .record fields => .record ((sortFieldsOfFields fields).mergeSort nameLe)
  | other => other

/-- Every value of a list with its fields in order. -/
def sortFieldsOfItems : List Value → List Value
  | [] => []
  | value :: rest => sortFields value :: sortFieldsOfItems rest

/-- Every field with the fields of its value in order. -/
def sortFieldsOfFields : List (String × Value) → List (String × Value)
  | [] => []
  | (name, value) :: rest => (name, sortFields value) :: sortFieldsOfFields rest
end

/-- Whole numbers that fit into a signed or an unsigned word of 64 bits. -/
def isWord (n : Int) : Bool :=
  decide (-0x8000000000000000 ≤ n ∧ n < 0x10000000000000000)

/-- Why a value has no place in an export. -/
inductive Unwritable where
  /-- A whole number does not fit into a word. -/
  | integerRange
  /-- Lists and records lie too deep in each other. -/
  | nesting
  deriving DecidableEq, Repr

mutual
/-- The first reason against a value in the order of its text, if only so many lists and records may
lie in each other. -/
def unwritable? (room : Nat) : Value → Option Unwritable
  | .integer n => if isWord n then none else some .integerRange
  | .list items => if room = 0 then some .nesting else unwritableItem? (room - 1) items
  | .record fields => if room = 0 then some .nesting else unwritableField? (room - 1) fields
  | _ => none

def unwritableItem? (room : Nat) : List Value → Option Unwritable
  | [] => none
  | value :: rest => (unwritable? room value).or (unwritableItem? room rest)

def unwritableField? (room : Nat) : List (String × Value) → Option Unwritable
  | [] => none
  | (_, value) :: rest => (unwritable? room value).or (unwritableField? room rest)
end

end SignatureIndex.Json
