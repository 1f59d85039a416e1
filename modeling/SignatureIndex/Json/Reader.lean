import SignatureIndex.Value

/-! Reading a value from JSON text. Besides the standard format the words for not-a-number and the
infinities are accepted, and a name that occurs twice in an object keeps its first place and its
last value. A reader has limits to the digits of a whole number and to the nesting of lists and
records; of several faults the first one in the text is reported. -/
namespace SignatureIndex.Json

inductive Fault where
  /-- The text is not in the format. -/
  | malformed
  /-- A whole number has too many digits. -/
  | longNumber (digits : Nat)
  /-- A list lies in too many others. -/
  | deepList
  /-- A record lies in too many others. -/
  | deepRecord
  deriving DecidableEq, Repr

/-- How many digits a whole number may have, and how many lists and records may lie in each
other. -/
structure Limits where
  digits : Nat
  nesting : Nat

/-- What a reader gives: a result with the rest of the text, or the fault. -/
abbrev Reading (α : Type) := Except Fault (α × List Char)

/-- What is absent is malformed. -/
def orMalformed {α : Type} : Option α → Except Fault α
  | none => .error .malformed
  | some a => .ok a

def isSpace (c : Char) : Bool :=
  c = ' ' || c = '\t' || c = '\n' || c = '\r'

def skipSpace (cs : List Char) : List Char :=
  cs.dropWhile isSpace

def hexValue? (c : Char) : Option Nat :=
  if '0' ≤ c ∧ c ≤ '9' then some (c.toNat - '0'.toNat)
  else if 'a' ≤ c ∧ c ≤ 'f' then some (c.toNat - 'a'.toNat + 10)
  else if 'A' ≤ c ∧ c ≤ 'F' then some (c.toNat - 'A'.toNat + 10)
  else none

def hexNumber? (digits : List Char) : Option Nat :=
  digits.foldlM (fun n c => (hexValue? c).map (n * 16 + ·)) 0

def shortEscape? (c : Char) : Option Char :=
  if c = '"' ∨ c = '\\' ∨ c = '/' then some c
  else if c = 'b' then some '\x08'
  else if c = 'f' then some '\x0c'
  else if c = 'n' then some '\n'
  else if c = 'r' then some '\r'
  else if c = 't' then some '\t'
  else none

/-- What stands for half of a surrogate pair without the other half. -/
def replacement : Char := Char.ofNat 0xFFFD

def isHighSurrogate (n : Nat) : Bool := decide (0xD800 ≤ n ∧ n ≤ 0xDBFF)

def isLowSurrogate (n : Nat) : Bool := decide (0xDC00 ≤ n ∧ n ≤ 0xDFFF)

/-- The character of a code that is no surrogate. -/
def charOfCode (n : Nat) : Char :=
  if isHighSurrogate n || isLowSurrogate n then replacement else Char.ofNat n

/-- Puts a character in front of a string that was read. -/
def before (c : Char) (read : Option (List Char × List Char)) : Option (List Char × List Char) :=
  read.map fun (text, rest) => (c :: text, rest)

/-- The rest of a string after its opening quote, and what follows its closing quote. -/
def readString : List Char → Option (List Char × List Char)
  | [] => none
  | '"' :: rest => some ([], rest)
  | '\\' :: 'u' :: a :: b :: c :: d :: rest =>
    match hexNumber? [a, b, c, d] with
    | none => none
    | some high =>
      match rest with
      | '\\' :: 'u' :: e :: f :: g :: h :: after =>
        if isHighSurrogate high then
          match hexNumber? [e, f, g, h] with
          | none => none
          | some low =>
            if isLowSurrogate low then
              before (Char.ofNat (0x10000 + (high - 0xD800) * 0x400 + (low - 0xDC00)))
                (readString after)
            else before replacement (readString ('\\' :: 'u' :: e :: f :: g :: h :: after))
        else before (charOfCode high) (readString ('\\' :: 'u' :: e :: f :: g :: h :: after))
      | other => before (charOfCode high) (readString other)
  | '\\' :: c :: rest =>
    match shortEscape? c with
    | none => none
    | some escaped => before escaped (readString rest)
  | c :: rest => if c = '\\' ∨ c.toNat < 0x20 then none else before c (readString rest)
termination_by cs => cs.length
decreasing_by all_goals (simp_all only [List.length_cons]; omega)

def isDigit (c : Char) : Bool :=
  decide ('0' ≤ c ∧ c ≤ '9')

def decimal (digits : List Char) : Nat :=
  digits.foldl (fun n c => n * 10 + (c.toNat - '0'.toNat)) 0

/-- The digits at the start of a text, and the rest. -/
def readDigits (cs : List Char) : List Char × List Char :=
  (cs.takeWhile isDigit, cs.dropWhile isDigit)

/-- The whole part of a number: a zero alone, or digits that start with another one. -/
def readWhole? : List Char → Option (List Char × List Char)
  | '0' :: rest => some (['0'], rest)
  | cs =>
    match readDigits cs with
    | ([], _) => none
    | found => some found

/-- The digits after a point, if a point and digits follow. -/
def readFraction : List Char → List Char × List Char
  | '.' :: rest =>
    match readDigits rest with
    | ([], _) => ([], '.' :: rest)
    | found => found
  | cs => ([], cs)

/-- A sign in front of an exponent: whether it is a minus, and the rest. -/
def readSign : List Char → Bool × List Char
  | '-' :: rest => (true, rest)
  | '+' :: rest => (false, rest)
  | cs => (false, cs)

def readExponent : List Char → Option Int × List Char
  | [] => (none, [])
  | c :: rest =>
    if c = 'e' ∨ c = 'E' then
      let (negative, after) := readSign rest
      match readDigits after with
      | ([], _) => (none, c :: rest)
      | (digits, final) =>
        let exponent : Int := decimal digits
        (some (if negative then -exponent else exponent), final)
    else (none, c :: rest)

def readUnsigned (limits : Limits) (negative : Bool) (cs : List Char) : Reading Value :=
  match readWhole? cs with
  | none => .error .malformed
  | some (whole, afterWhole) =>
    let (fraction, afterFraction) := readFraction afterWhole
    let (exponent, rest) := readExponent afterFraction
    if fraction.isEmpty && exponent.isNone then
      if whole.length > limits.digits then .error (.longNumber whole.length)
      else
        let n : Int := decimal whole
        .ok (.integer (if negative then -n else n), rest)
    else
      let scale : Int := exponent.getD 0 - fraction.length
      .ok (.real (.ofDecimal negative (decimal (whole ++ fraction)) scale), rest)

/-- The rest after a word at the start of a text. -/
def afterWord? (word : String) (cs : List Char) : Option (List Char) :=
  if word.toList.isPrefixOf cs then some (cs.drop word.length) else none

def wordValues : List (String × Value) :=
  [("null", .null), ("true", .bool true), ("false", .bool false), ("NaN", .real .nan),
    ("Infinity", .real (.infinite false)), ("-Infinity", .real (.infinite true))]

/-- A value without parts: a word or a number. -/
def readScalar (limits : Limits) (cs : List Char) : Reading Value :=
  match wordValues.findSome? fun (word, value) => (afterWord? word cs).map (value, ·) with
  | some found => .ok found
  | none =>
    match cs with
    | '-' :: rest => readUnsigned limits true rest
    | _ => readUnsigned limits false cs

/-- A record of fields that were read in this order. -/
def recordOf (fields : List (String × Value)) : Value :=
  .record (fields.foldl (fun entries (name, value) => Entries.put name value entries) [])

mutual
/-- Reads a value that lies in so many lists and records. The bound limits the steps; the length of
the text is enough. -/
def readValue (limits : Limits) : Nat → Nat → List Char → Reading Value
  | 0, _, _ => .error .malformed
  | bound + 1, depth, cs =>
    match cs with
    | '"' :: rest =>
      (orMalformed (readString rest)).map fun (text, after) => (.text (String.ofList text), after)
    | '[' :: rest =>
      if depth = limits.nesting then .error .deepList
      else match skipSpace rest with
        | ']' :: after => .ok (.list [], after)
        | items => (readItems limits bound (depth + 1) items).map fun (values, after) =>
            (.list values, after)
    | '\x7b' :: rest =>
      if depth = limits.nesting then .error .deepRecord
      else match skipSpace rest with
        | '\x7d' :: after => .ok (.record [], after)
        | fields => (readFields limits bound (depth + 1) fields).map fun (read, after) =>
            (recordOf read, after)
    | _ => readScalar limits cs

/-- Reads the values of a list up to and with its closing bracket. -/
def readItems (limits : Limits) : Nat → Nat → List Char → Reading (List Value)
  | 0, _, _ => .error .malformed
  | bound + 1, depth, cs =>
    match readValue limits bound depth cs with
    | .error fault => .error fault
    | .ok (value, rest) =>
      match skipSpace rest with
      | ']' :: after => .ok ([value], after)
      | ',' :: more =>
        (readItems limits bound depth (skipSpace more)).map fun (values, after) =>
          (value :: values, after)
      | _ => .error .malformed

/-- Reads the fields of a record up to and with its closing brace. -/
def readFields (limits : Limits) : Nat → Nat → List Char → Reading (List (String × Value))
  | 0, _, _ => .error .malformed
  | bound + 1, depth, cs =>
    match cs with
    | '"' :: rest =>
      match readString rest with
      | none => .error .malformed
      | some (name, afterName) =>
        match skipSpace afterName with
        | ':' :: colonRest =>
          match readValue limits bound depth (skipSpace colonRest) with
          | .error fault => .error fault
          | .ok (value, afterValue) =>
            let field := (String.ofList name, value)
            match skipSpace afterValue with
            | '\x7d' :: after => .ok ([field], after)
            | ',' :: more =>
              (readFields limits bound depth (skipSpace more)).map fun (fields, after) =>
                (field :: fields, after)
            | _ => .error .malformed
        | _ => .error .malformed
    | _ => .error .malformed
end

/-- The value that a text holds, with blanks around it. -/
def read (limits : Limits) (text : List Char) : Except Fault Value :=
  match readValue limits (text.length + 1) 0 (skipSpace text) with
  | .error fault => .error fault
  | .ok (value, rest) => if (skipSpace rest).isEmpty then .ok value else .error .malformed

/-- The value that a text holds, of any size and depth. -/
def read? (text : List Char) : Option Value :=
  (read ⟨text.length, text.length⟩ text).toOption

end SignatureIndex.Json
