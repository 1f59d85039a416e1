import SignatureIndex.Text.Blank
import SignatureIndex.Value

/-! Checking a value against an expected shape. A check gives the checked value or every complaint
about it, each with the place in the value that it concerns. -/
namespace SignatureIndex

inductive Problem where
  /-- A required field is absent. -/
  | missing
  /-- A field has an unknown name. -/
  | unknownField
  /-- A record is expected. -/
  | notRecord
  /-- A list is expected. -/
  | notList
  /-- A text is expected. -/
  | notText
  /-- One of a few words is expected. -/
  | notChoice
  /-- A whole number is expected, and the type cannot stand for one. -/
  | notInteger
  /-- A text does not spell a whole number. -/
  | unreadableInteger
  /-- A text or number is too large to be taken for a whole number. -/
  | oversizeInteger
  /-- A number has a fraction. -/
  | fraction
  /-- A number is infinite or not a number. -/
  | notFinite
  /-- A truth value is expected, and the type cannot stand for one. -/
  | notBool
  /-- A number or text does not stand for a truth value. -/
  | unreadableBool
  /-- A rule of the field refuses the value. -/
  | refused (message : String)
  deriving DecidableEq, Repr

def Problem.message : Problem → String
  | missing => "field required"
  | unknownField => "unknown field"
  | notRecord => "a table is expected"
  | notList => "a list is expected"
  | notText => "a text is expected"
  | notChoice => "not one of the expected words"
  | notInteger => "a whole number is expected"
  | unreadableInteger => "the text is not a whole number"
  | oversizeInteger => "the number is too large"
  | fraction => "the number has a fraction"
  | notFinite => "the number is not finite"
  | notBool => "a truth value is expected"
  | unreadableBool => "neither true nor false"
  | refused message => message

/-- A problem and its place: the names of fields and the indexes of items that lead to it. -/
structure Complaint where
  place : List String
  problem : Problem
  deriving DecidableEq, Repr

def Complaint.render (complaint : Complaint) : String :=
  ".".intercalate complaint.place ++ ": " ++ complaint.problem.message

inductive Checked (α : Type) where
  | valid (value : α)
  | invalid (complaints : List Complaint)

namespace Checked

/-- Two checks together give both values, or the complaints of both. -/
def both {α β : Type} (first : Checked (α → β)) (second : Checked α) : Checked β :=
  match first, second with
  | valid f, valid value => valid (f value)
  | valid _, invalid complaints => invalid complaints
  | invalid complaints, valid _ => invalid complaints
  | invalid complaints, invalid more => invalid (complaints ++ more)

instance : Applicative Checked where
  pure := valid
  seq first second := both first (second ())

def fail {α : Type} (problem : Problem) : Checked α :=
  invalid [⟨[], problem⟩]

/-- The check seen from a container: complaints get one more step in front of their places. -/
def inside {α : Type} (step : String) : Checked α → Checked α
  | valid value => valid value
  | invalid complaints => invalid (complaints.map fun c => { c with place := step :: c.place })

/-- The order of complaints: by place. -/
def complaintLe (a b : Complaint) : Bool :=
  !List.lex b.place a.place fun x y => decide (x < y)

/-- The value, or the complaints in order of their places. -/
def toExcept {α : Type} : Checked α → Except (List Complaint) α
  | valid value => .ok value
  | invalid complaints => .error (complaints.mergeSort complaintLe)

def text : Value → Checked String
  | .text s => valid s
  | _ => fail .notText

/-- A value or null. -/
def nullable {α : Type} (check : Value → Checked α) : Value → Checked (Option α)
  | .null => valid none
  | value => some <$> check value

/-- The items of a list from an index on, each checked. -/
def items {α : Type} (check : Value → Checked α) (index : Nat) : List Value → Checked (List α)
  | [] => valid []
  | value :: rest =>
    List.cons <$> inside (toString index) (check value) <*> items check (index + 1) rest

def list {α : Type} (check : Value → Checked α) : Value → Checked (List α)
  | .list values => items check 0 values
  | _ => fail .notList

/-- A record whose fields are checked together. -/
def record {α : Type} (check : Entries Value → Checked α) : Value → Checked α
  | .record fields => check fields
  | _ => fail .notRecord

def required {α : Type} (name : String) (check : Value → Checked α) (fields : Entries Value) :
    Checked α :=
  inside name <| match fields.get? name with
    | none => fail .missing
    | some value => check value

/-- A field with a value for when it is absent. -/
def withDefault {α : Type} (name : String) (fallback : α) (check : Value → Checked α)
    (fields : Entries Value) : Checked α :=
  match fields.get? name with
  | none => valid fallback
  | some value => inside name (check value)

/-- Complaints about fields that are not among the known ones. -/
def noOthers (known : List String) (fields : Entries Value) : Checked Unit :=
  match fields.filter fun field => !known.contains field.1 with
  | [] => valid ()
  | unknown => invalid (unknown.map fun field => ⟨[field.1], .unknownField⟩)

/-- The most digits of a whole number given as text. -/
def digitLimit : Nat := 4300

/-- What a text comes to as a whole number. -/
inductive Spelling where
  | number (n : Int)
  | oversize
  | unreadable
  deriving DecidableEq, Repr

def digitsValue (digits : List Char) : Nat :=
  digits.foldl (fun n c => n * 10 + (c.toNat - '0'.toNat)) 0

/-- Reads digits that do not start with a needless zero. Too many digits are noticed before
anything that comes after them. -/
def readDigits (negative : Bool) (cs : List Char) : Spelling :=
  let digits := cs.takeWhile Char.isDigit
  let isComplete := digits.length = cs.length
  match digits with
  | [] => .unreadable
  | '0' :: more => if more.isEmpty && isComplete then .number 0 else .unreadable
  | _ =>
    if digits.length > digitLimit then .oversize
    else if isComplete then
      let n : Int := digitsValue digits
      .number (if negative then -n else n)
    else .unreadable

/-- Reads a plain whole number: a minus sign, if there is one, and digits. -/
def readPlain : List Char → Spelling
  | '-' :: rest => readDigits true rest
  | cs => readDigits false cs

/-- Drops zeros and underscores that follow a first zero, which was the last character dropped
before. A point keeps the character before it. -/
def afterZeros (last : Char) : List Char → Option (List Char)
  | [] => some [last]
  | c :: rest =>
    if c = '0' || c = '_' then afterZeros c rest
    else if c = '.' then some (last :: c :: rest)
    else if c.isDigit || c = '-' then some (c :: rest)
    else none

/-- Drops leading zeros; a text that starts with neither digit nor minus sign is refused. -/
def dropZeros : List Char → Option (List Char)
  | [] => none
  | c :: rest =>
    if c = '0' then afterZeros c rest
    else if c.isDigit || c = '-' then some (c :: rest)
    else none

/-- Drops a point and the zeros after it; any other fraction is refused. -/
def dropZeroFraction (cs : List Char) : Option (List Char) :=
  match cs.dropWhile (· ≠ '.') with
  | [] => some cs
  | _ :: fraction =>
    if !fraction.isEmpty && fraction.all (· = '0') then some (cs.takeWhile (· ≠ '.')) else none

/-- Whether underscores stand only between other characters. -/
def separatesDigits : List Char → Bool
  | [] => true
  | ['_'] => false
  | '_' :: '_' :: _ => false
  | _ :: rest => separatesDigits rest

/-- The text without single underscores between its characters. -/
def dropSeparators (cs : List Char) : List Char :=
  if cs.head? ≠ some '_' ∧ separatesDigits cs then cs.filter (· ≠ '_') else cs

/-- Blanks that may surround a number: those of Unicode without the information separators. -/
def isNumberBlank (c : Char) : Bool :=
  Text.isBlank c && !decide (0x1C ≤ c.toNat ∧ c.toNat ≤ 0x1F)

/-- A text without sign, brought to the plain form. -/
def tidyUnsigned (cs : List Char) : Option (List Char) :=
  ((dropZeros cs).bind dropZeroFraction).map dropSeparators

/-- A text brought to the plain form: without blanks around it, without a plus sign, leading zeros,
a fraction of zeros and underscores between digits. -/
def tidyInteger (cs : List Char) : Option (List Char) :=
  match Text.dropEndWhile isNumberBlank (cs.dropWhile isNumberBlank) with
  | '-' :: rest => (tidyUnsigned rest).map ('-' :: ·)
  | '+' :: '-' :: _ => none
  | '+' :: rest => tidyUnsigned rest
  | trimmed => tidyUnsigned trimmed

/-- The whole number that a text spells, as it stands or brought to the plain form. Only a text that
is plain as it stands can have too many digits. -/
def spelledInteger (cs : List Char) : Spelling :=
  match readPlain cs with
  | .unreadable =>
    match (tidyInteger cs).map readPlain with
    | some (.number n) => .number n
    | _ => .unreadable
  | other => other

/-- Whether a whole number fits into a signed word. -/
def fitsWord (n : Int) : Bool :=
  decide (-0x8000000000000000 ≤ n ∧ n < 0x8000000000000000)

/-- Whether the whole number that a floating-point number is equal to lies inside the signed words;
the least word is left out. -/
def insideWords (n : Int) : Bool :=
  decide (n.natAbs < 0x8000000000000000)

/-- A whole number: itself, a truth value, a number without fraction, or a text that spells one. -/
def integer : Value → Checked Int
  | .integer n => valid n
  | .bool b => valid (if b then 1 else 0)
  | .real .nan => fail .notFinite
  | .real (.infinite _) => fail .notFinite
  | .real x =>
    match x.toInt? with
    | none => fail .fraction
    | some n => if insideWords n then valid n else fail .oversizeInteger
  | .text s =>
    match spelledInteger s.toList with
    | .number n => valid n
    | .oversize => fail .oversizeInteger
    | .unreadable => fail .unreadableInteger
  | _ => fail .notInteger

def trueWords : List String := ["1", "true", "t", "yes", "y", "on"]

def falseWords : List String := ["0", "false", "f", "no", "n", "off"]

/-- A text with its ASCII letters in lower case. -/
def lowerAscii (s : String) : String :=
  String.ofList (s.toList.map Char.toLower)

def boolOfInt (n : Int) : Checked Bool :=
  if n = 1 then valid true else if n = 0 then valid false else fail .unreadableBool

/-- A truth value: itself, one or zero, or a word for it in any case. Numbers that are no words are
no truth values at all. -/
def bool : Value → Checked Bool
  | .bool b => valid b
  | .integer n => if fitsWord n then boolOfInt n else fail .notBool
  | .real x =>
    match x.toInt? with
    | some n => if insideWords n then boolOfInt n else fail .notBool
    | none => fail .notBool
  | .text s =>
    if lowerAscii s ∈ trueWords then valid true
    else if lowerAscii s ∈ falseWords then valid false
    else fail .unreadableBool
  | _ => fail .notBool

end Checked

end SignatureIndex
