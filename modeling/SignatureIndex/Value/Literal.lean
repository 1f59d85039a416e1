import SignatureIndex.Text.Quoted
import SignatureIndex.Value

/-! The literal form of a value, as messages show it. -/
namespace SignatureIndex

open Text

/-- Floating-point numbers in messages: positional from `1e-04` to below `1e+16`, an exponent with
its sign and at least two digits. -/
def Binary64.literalLayout : Binary64.Layout where
  largestPlain := 16
  smallestPlain := -3
  exponent := fun exponent =>
    let digits := String.ofList (Nat.toDigits 10 exponent.natAbs)
    (if exponent < 0 then "e-" else "e+") ++ (if exponent.natAbs < 10 then "0" else "") ++ digits
  nan := "nan"
  infinity := "inf"

def commaNumbers (numbers : List Nat) : String :=
  ", ".intercalate (numbers.map toString)

namespace TimeOfDay

/-- The parts of a time that its literal form writes: seconds only if they or the microseconds are
not zero, microseconds only if they are not zero. -/
def parts (time : TimeOfDay) : List Nat :=
  if time.microsecond ≠ 0 then [time.hour, time.minute, time.second, time.microsecond]
  else if time.second ≠ 0 then [time.hour, time.minute, time.second]
  else [time.hour, time.minute]

end TimeOfDay

namespace Moment

/-- The literal form of a distance from universal time. A negative one is written as a day back
and seconds forward. -/
def offsetLiteral (minutes : Int) : String :=
  if minutes = 0 then "datetime.timezone.utc"
  else
    let days := if minutes < 0 then "days=-1, " else ""
    let seconds := (minutes * 60) % 86400
    "datetime.timezone(datetime.timedelta(" ++ days ++ "seconds=" ++ toString seconds ++ "))"

def literal : Moment → String
  | date day => "datetime.date(" ++ commaNumbers [day.year, day.month, day.day] ++ ")"
  | time clock => "datetime.time(" ++ commaNumbers clock.parts ++ ")"
  | dateTime day clock offset =>
    let zone := match offset with
      | none => ""
      | some minutes => ", tzinfo=" ++ offsetLiteral minutes
    "datetime.datetime(" ++ commaNumbers ([day.year, day.month, day.day] ++ clock.parts) ++ zone ++
      ")"

end Moment

namespace Value

/-- How many digits a whole number may have in a message. -/
def literalDigits : Nat := 4300

/-- The literal form of a whole number that is not too long. -/
def integerLiteral? (n : Int) : Option String :=
  if n.natAbs < Nat.pow 10 literalDigits then some (toString n) else none

mutual
/-- The literal form of a value, if none of its whole numbers is too long. -/
def literal? : Value → Option String
  | .null => some "None"
  | .bool b => some (if b then "True" else "False")
  | .integer n => integerLiteral? n
  | .real x => some (x.render Binary64.literalLayout)
  | .text s => some (quotedString s)
  | .moment m => some m.literal
  | .list items => (literals? items).map fun forms => "[" ++ ", ".intercalate forms ++ "]"
  | .record fields => (fieldLiterals? fields).map fun forms =>
      "\x7b" ++ ", ".intercalate forms ++ "\x7d"

def literals? : List Value → Option (List String)
  | [] => some []
  | value :: rest =>
    match value.literal?, literals? rest with
    | some form, some forms => some (form :: forms)
    | _, _ => none

def fieldLiterals? : List (String × Value) → Option (List String)
  | [] => some []
  | (name, value) :: rest =>
    match value.literal?, fieldLiterals? rest with
    | some form, some forms => some ((quotedString name ++ ": " ++ form) :: forms)
    | _, _ => none
end

end Value

end SignatureIndex
