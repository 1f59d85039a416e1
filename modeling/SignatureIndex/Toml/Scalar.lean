import SignatureIndex.Value

/-! Strings, numbers and moments of TOML. A reader takes the text from a place on and gives what it
read with the rest of the text, or nothing where the format is broken. Whole numbers in base ten
have a limit to their digits. -/
namespace SignatureIndex.Toml

inductive Fault where
  /-- The text is not in the format. -/
  | malformed
  /-- A whole number has too many digits. -/
  | longNumber (digits : Nat)
  /-- Lists and inline tables lie too deep in each other. -/
  | nesting
  deriving DecidableEq, Repr

/-- What a reader gives that fails in one way only. -/
abbrev Read (α : Type) := Option (α × List Char)

/-- What a reader gives that fails for a reason. -/
abbrev Reading (α : Type) := Except Fault (α × List Char)

def orMalformed {α : Type} : Option α → Except Fault α
  | none => .error .malformed
  | some a => .ok a

def isSpace (c : Char) : Bool :=
  c = ' ' || c = '\t'

def isSpaceOrNewline (c : Char) : Bool :=
  isSpace c || c = '\n'

/-- Control characters that a comment or a string on one line may not hold. -/
def isControl (c : Char) : Bool :=
  (c.toNat < 0x20 && c ≠ '\t') || c.toNat = 0x7F

/-- Control characters that a string over several lines may not hold. -/
def isControlInLines (c : Char) : Bool :=
  isControl c && c ≠ '\n'

def skipSpace (cs : List Char) : List Char :=
  cs.dropWhile isSpace

def hexValue? (c : Char) : Option Nat :=
  if '0' ≤ c ∧ c ≤ '9' then some (c.toNat - '0'.toNat)
  else if 'a' ≤ c ∧ c ≤ 'f' then some (c.toNat - 'a'.toNat + 10)
  else if 'A' ≤ c ∧ c ≤ 'F' then some (c.toNat - 'A'.toNat + 10)
  else none

/-- The character whose code has this many hexadecimal digits; surrogates and codes that are too
large are refused. -/
def readCode (count : Nat) (cs : List Char) : Read Char :=
  let digits := cs.take count
  if digits.length ≠ count then none
  else match digits.foldlM (fun n c => (hexValue? c).map (n * 16 + ·)) 0 with
    | none => none
    | some code =>
      if code ≤ 0xD7FF ∨ (0xE000 ≤ code ∧ code ≤ 0x10FFFF) then
        some (Char.ofNat code, cs.drop count)
      else none

def shortEscape? (c : Char) : Option Char :=
  if c = 'b' then some '\x08'
  else if c = 't' then some '\t'
  else if c = 'n' then some '\n'
  else if c = 'f' then some '\x0c'
  else if c = 'r' then some '\r'
  else if c = '"' ∨ c = '\\' then some c
  else none

def readEscape : List Char → Read Char
  | [] => none
  | 'u' :: rest => readCode 4 rest
  | 'U' :: rest => readCode 8 rest
  | c :: rest => (shortEscape? c).map (·, rest)

/-- The rest of the text after a backslash at the end of a line: blanks up to the line feed, and
then everything blank. A backslash before blanks at the end of the text swallows them. -/
def afterLineEnd (cs : List Char) : Option (List Char) :=
  match skipSpace cs with
  | [] => some []
  | '\n' :: rest => some (rest.dropWhile isSpaceOrNewline)
  | _ => none

/-- Puts characters in front of a text that was read. -/
def inFront (cs : List Char) (read : Read (List Char)) : Read (List Char) :=
  read.map fun (text, rest) => (cs ++ text, rest)

/-- The rest of a string in double quotes on one line. The bound limits the steps. -/
def readBasic : Nat → List Char → Read (List Char)
  | 0, _ => none
  | _, [] => none
  | _ + 1, '"' :: rest => some ([], rest)
  | bound + 1, '\\' :: rest =>
    match readEscape rest with
    | none => none
    | some (c, after) => inFront [c] (readBasic bound after)
  | bound + 1, c :: rest => if isControl c then none else inFront [c] (readBasic bound rest)

/-- The rest of a string in triple double quotes. -/
def readBasicLines : Nat → List Char → Read (List Char)
  | 0, _ => none
  | _, [] => none
  | _ + 1, '"' :: '"' :: '"' :: rest => some ([], rest)
  | bound + 1, '\\' :: rest =>
    if rest.head?.any isSpaceOrNewline then
      match afterLineEnd rest with
      | none => none
      | some after => readBasicLines bound after
    else match readEscape rest with
      | none => none
      | some (c, after) => inFront [c] (readBasicLines bound after)
  | bound + 1, c :: rest =>
    if isControlInLines c then none else inFront [c] (readBasicLines bound rest)

/-- The rest of a string in single quotes on one line. -/
def readLiteral : List Char → Read (List Char)
  | [] => none
  | c :: rest =>
    if c = '\'' then some ([], rest)
    else if isControl c then none
    else inFront [c] (readLiteral rest)

/-- The rest of a string in triple single quotes. -/
def readLiteralLines : List Char → Read (List Char)
  | [] => none
  | '\'' :: '\'' :: '\'' :: rest => some ([], rest)
  | c :: rest => if isControlInLines c then none else inFront [c] (readLiteralLines rest)

/-- Up to two further quotes after the closing ones belong to the string. -/
def takeExtraQuotes (quote : Char) (read : Read (List Char)) : Read (List Char) :=
  read.map fun (text, rest) =>
    match rest with
    | c :: d :: after =>
      if c = quote ∧ d = quote then (text ++ [quote, quote], after)
      else if c = quote then (text ++ [quote], d :: after)
      else (text, rest)
    | [c] => if c = quote then (text ++ [quote], []) else (text, [c])
    | [] => (text, [])

/-- Drops a line feed right after opening quotes. -/
def dropNewline : List Char → List Char
  | '\n' :: rest => rest
  | cs => cs

/-- A string of any kind, at its opening quote. -/
def readText (bound : Nat) (cs : List Char) : Read (List Char) :=
  match cs with
  | '"' :: '"' :: '"' :: rest => takeExtraQuotes '"' (readBasicLines bound (dropNewline rest))
  | '"' :: rest => readBasic bound rest
  | '\'' :: '\'' :: '\'' :: rest =>
    takeExtraQuotes '\'' (readLiteralLines (dropNewline rest))
  | '\'' :: rest => readLiteral rest
  | _ => none

/-- The number that digits of a base stand for. -/
def numberOf (base : Nat) (digits : List Char) : Nat :=
  digits.foldl (fun n c => n * base + (hexValue? c).getD 0) 0

def isDigit (c : Char) : Bool :=
  decide ('0' ≤ c ∧ c ≤ '9')

/-- Digits after a first one, single underscores between them left out. -/
def moreDigits (accepts : Char → Bool) : List Char → List Char × List Char
  | '_' :: c :: rest =>
    if accepts c then
      let (digits, after) := moreDigits accepts rest
      (c :: digits, after)
    else ([], '_' :: c :: rest)
  | c :: rest =>
    if accepts c then
      let (digits, after) := moreDigits accepts rest
      (c :: digits, after)
    else ([], c :: rest)
  | [] => ([], [])

/-- At least one digit, with single underscores between digits left out. -/
def readDigits (accepts : Char → Bool) : List Char → Read (List Char)
  | c :: rest =>
    if accepts c then
      let (digits, after) := moreDigits accepts rest
      some (c :: digits, after)
    else none
  | [] => none

/-- A whole number in base sixteen, eight or two. -/
def readBased (cs : List Char) : Read Value :=
  let digitsIn (base : Nat) (rest : List Char) : Read Value :=
    (readDigits (fun c => (hexValue? c).any (· < base)) rest).map fun (digits, after) =>
      (.integer (numberOf base digits), after)
  match cs with
  | '0' :: 'x' :: rest => digitsIn 16 rest
  | '0' :: 'o' :: rest => digitsIn 8 rest
  | '0' :: 'b' :: rest => digitsIn 2 rest
  | _ => none

/-- A sign: whether it is a minus, and the rest. -/
def readSign : List Char → Bool × List Char
  | '-' :: rest => (true, rest)
  | '+' :: rest => (false, rest)
  | cs => (false, cs)

/-- The whole part of a decimal number. -/
def readWhole : List Char → Read (List Char)
  | '0' :: rest => some (['0'], rest)
  | cs => readDigits isDigit cs

/-- The fraction, if a point and a digit follow. -/
def readFraction : List Char → List Char × List Char
  | '.' :: rest => (readDigits isDigit rest).getD ([], '.' :: rest)
  | cs => ([], cs)

/-- The exponent, if a mark and a digit follow. -/
def readExponent : List Char → Option Int × List Char
  | [] => (none, [])
  | c :: rest =>
    if c = 'e' ∨ c = 'E' then
      let (negative, after) := readSign rest
      match readDigits isDigit after with
      | none => (none, c :: rest)
      | some (digits, final) =>
        let exponent : Int := numberOf 10 digits
        (some (if negative then -exponent else exponent), final)
    else (none, c :: rest)

/-- How many digits a whole number in base ten may have. -/
def digitLimit : Nat := 4300

/-- A decimal number with an optional sign; nothing if the text starts with none. -/
def readDecimal (cs : List Char) : Option (Reading Value) :=
  let (negative, unsigned) := readSign cs
  match readWhole unsigned with
  | none => none
  | some (whole, afterWhole) =>
    let (fraction, afterFraction) := readFraction afterWhole
    let (exponent, rest) := readExponent afterFraction
    if fraction.isEmpty && exponent.isNone then
      if whole.length > digitLimit then some (.error (.longNumber whole.length))
      else
        let n : Int := numberOf 10 whole
        some (.ok (.integer (if negative then -n else n), rest))
    else
      let scale : Int := exponent.getD 0 - fraction.length
      some (.ok (.real (.ofDecimal negative (numberOf 10 (whole ++ fraction)) scale), rest))

/-- A number that has a name: infinite, or not a number. -/
def readNamed (cs : List Char) : Read Value :=
  let (negative, rest) := readSign cs
  match rest with
  | 'i' :: 'n' :: 'f' :: after => some (.real (.infinite negative), after)
  | 'n' :: 'a' :: 'n' :: after => some (.real .nan, after)
  | _ => none

def readNumber (cs : List Char) : Reading Value :=
  match readBased cs, readDecimal cs with
  | some found, _ => .ok found
  | none, some reading => reading
  | none, none => orMalformed (readNamed cs)

/-- A number of exactly so many digits, within bounds. -/
def readField (count low high : Nat) (cs : List Char) : Read Nat :=
  let digits := cs.take count
  if digits.length = count ∧ digits.all isDigit then
    let n := numberOf 10 digits
    if low ≤ n ∧ n ≤ high then some (n, cs.drop count) else none
  else none

/-- The rest after a character. -/
def after? (c : Char) : List Char → Option (List Char)
  | d :: rest => if c = d then some rest else none
  | [] => none

/-- Fractions of a second in microseconds; digits after the sixth are dropped. -/
def readMicroseconds : List Char → Nat × List Char
  | '.' :: rest =>
    match rest.takeWhile isDigit with
    | [] => (0, '.' :: rest)
    | digits =>
      let six := digits.take 6
      (numberOf 10 (six ++ List.replicate (6 - six.length) '0'), rest.dropWhile isDigit)
  | cs => (0, cs)

def readTime (cs : List Char) : Option (TimeOfDay × List Char) := do
  let (hour, rest) ← readField 2 0 23 cs
  let (minute, rest) ← readField 2 0 59 (← after? ':' rest)
  let (second, rest) ← readField 2 0 59 (← after? ':' rest)
  let (microsecond, rest) := readMicroseconds rest
  return (⟨hour, minute, second, microsecond⟩, rest)

/-- A date as digits; whether the day exists is not looked at. -/
def readDate (cs : List Char) : Option (Date × List Char) := do
  let (year, rest) ← readField 4 0 9999 cs
  let (month, rest) ← readField 2 1 12 (← after? '-' rest)
  let (day, rest) ← readField 2 1 31 (← after? '-' rest)
  return (⟨year, month, day⟩, rest)

/-- A distance from universal time in hours and minutes. -/
def readDistance (cs : List Char) : Option (Int × List Char) := do
  let (hour, rest) ← readField 2 0 23 cs
  let (minute, rest) ← readField 2 0 59 (← after? ':' rest)
  return ((hour * 60 + minute : Nat), rest)

/-- The distance from universal time after a time, if one follows. -/
def readOffset : List Char → Option Int × List Char
  | [] => (none, [])
  | c :: rest =>
    if c = 'Z' ∨ c = 'z' then (some 0, rest)
    else if c = '+' ∨ c = '-' then
      match readDistance rest with
      | none => (none, c :: rest)
      | some (minutes, after) => (some (if c = '-' then -minutes else minutes), after)
    else (none, c :: rest)

def daysIn (year month : Nat) : Nat :=
  if month = 2 then
    if year % 4 = 0 ∧ (year % 100 ≠ 0 ∨ year % 400 = 0) then 29 else 28
  else if month = 4 ∨ month = 6 ∨ month = 9 ∨ month = 11 then 30
  else 31

def Date.isReal (date : Date) : Bool :=
  decide (1 ≤ date.year ∧ date.day ≤ daysIn date.year date.month)

/-- The time after a date, if a mark and a time follow. -/
def readTimeAfterDate : List Char → Read TimeOfDay
  | [] => none
  | c :: rest => if c = 'T' ∨ c = 't' ∨ c = ' ' then readTime rest else none

/-- A moment. The outer option is empty if the text does not start with one; a date that does not
exist gives no moment. -/
def readMoment (cs : List Char) : Read (Option Moment) :=
  match readDate cs with
  | none => (readTime cs).map fun (time, rest) => (some (.time time), rest)
  | some (date, afterDate) =>
    let (moment, rest) := match readTimeAfterDate afterDate with
      | none => (Moment.date date, afterDate)
      | some (time, afterTime) =>
        let (offset, rest) := readOffset afterTime
        (.dateTime date time offset, rest)
    some (if Date.isReal date then some moment else none, rest)

end SignatureIndex.Toml
