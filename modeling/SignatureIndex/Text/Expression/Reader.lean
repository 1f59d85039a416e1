import SignatureIndex.Text.Blank
import SignatureIndex.Text.CaseVariant
import SignatureIndex.Text.Expression
import SignatureIndex.Text.Expression.Fault
import SignatureIndex.Text.Letter

/-! Reading regular expressions. Escaped characters stand for themselves. A group can be opened for
its number, its name, as a look ahead or back, as a condition, as a comment, with flags, or for
nothing but its bounds; flags that are on from a place to the end of its group change what
characters mean. -/
namespace SignatureIndex.Text.Expression

/-- A sign of an expression with its position: a character, or a backslash and a character. -/
structure Sign where
  position : Nat
  escaped : Bool
  char : Char
  deriving DecidableEq, Repr

def signs (position : Nat) : List Char → List Sign
  | '\\' :: c :: rest => ⟨position, true, c⟩ :: signs (position + 2) rest
  | c :: rest => ⟨position, false, c⟩ :: signs (position + 1) rest
  | [] => []

namespace Sign

/-- Whether a sign is this character, not escaped. -/
def plainly (sign : Sign) (c : Char) : Bool :=
  !sign.escaped && sign.char = c

/-- Whether a sign is one of these characters, not escaped. -/
def isAmong (sign : Sign) (cs : String) : Bool :=
  !sign.escaped && cs.toList.contains sign.char

def written (sign : Sign) : List Char :=
  if sign.escaped then ['\\', sign.char] else [sign.char]

end Sign

def writtenAll (all : List Sign) : List Char :=
  all.flatMap Sign.written

structure Mode where
  ignoresCase : Bool
  asciiOnly : Bool
  byLines : Bool
  dotTakesAll : Bool
  spaced : Bool

def Mode.plain : Mode := ⟨false, false, false, false, false⟩

/-- Whether a character lies in one of some ranges of codes. -/
def Mode.accepts (mode : Mode) (ranges : List (Nat × Nat)) (c : Char) : Bool :=
  let codes :=
    if !mode.ignoresCase then [c.toNat]
    else if mode.asciiOnly then asciiCaseVariants c
    else caseVariants c
  codes.any fun code => ranges.any fun (low, high) => decide (low ≤ code ∧ code ≤ high)

/-- Whether two characters are equal where a group is referred to. -/
def Mode.equal (mode : Mode) (c d : Char) : Bool :=
  if !mode.ignoresCase then c = d
  else if mode.asciiOnly then c.toLower = d.toLower
  else simpleLower c = simpleLower d

def Mode.literal (mode : Mode) (c : Char) : Expression :=
  .one (mode.accepts [(c.toNat, c.toNat)])

structure Groups where
  /-- The widths of the groups in order; none for one that is still open. -/
  widths : List (Option Width)
  names : List (String × Nat)
  /-- The number of the first group of the look back that is being read. -/
  lookBack : Option Nat
  /-- The groups that conditions ask for by number, with positions. -/
  asked : List (Nat × Nat)

namespace Groups

def next (groups : Groups) : Nat :=
  groups.widths.length + 1

def width? (groups : Groups) (index : Nat) : Option Width :=
  if index = 0 then none else (groups.widths[index - 1]?).join

def close (groups : Groups) (index : Nat) (width : Width) : Groups :=
  { groups with widths := groups.widths.set (index - 1) (some width) }

end Groups

/-- Where the reader stands: the signs left, the length of the whole text, and the groups. -/
structure Scanner where
  rest : List Sign
  size : Nat
  groups : Groups

abbrev Reading := StateT Scanner (Except Fault)

def tell : Reading Nat := do
  let scanner ← get
  return (scanner.rest.head?.map Sign.position).getD scanner.size

/-- Refuses the expression at so many characters before the next sign. -/
def refuse {α : Type} (refusal : Refusal) (back : Nat) : Reading α := do
  throw (.refused refusal ((← tell) - back))

def refuseAt {α : Type} (refusal : Refusal) (position : Nat) : Reading α :=
  throw (.refused refusal position)

def peek : Reading (Option Sign) := do
  return (← get).rest.head?

def continueAt (rest : List Sign) : Reading Unit :=
  modify fun scanner => { scanner with rest }

def take : Reading (Option Sign) := do
  match (← get).rest with
  | [] => return none
  | sign :: rest =>
    continueAt rest
    return some sign

/-- Takes the next sign if it is a character. -/
def accept (c : Char) : Reading Bool := do
  match (← get).rest with
  | sign :: rest =>
    if sign.plainly c then
      continueAt rest
      return true
    else return false
  | [] => return false

/-- The next sign of a group's opening, which must be there. -/
def takeOpening : Reading Sign := do
  match ← take with
  | some sign => return sign
  | none => refuse .textEnds 0

def groups : Reading Groups := do
  return (← get).groups

def changeGroups (change : Groups → Groups) : Reading Unit :=
  modify fun scanner => { scanner with groups := change scanner.groups }

/-- Reads the members of a class up to its closing bracket. A closing bracket right at the start is
a member. -/
def readMembers (members : List (Nat × Nat)) :
    List Sign → Except (Option (Sign × Sign)) (List (Nat × Nat) × List Sign)
  | [] => .error none
  | first :: rest =>
    if first.plainly ']' && !members.isEmpty then .ok (members, rest)
    else
      let single := (first.char.toNat, first.char.toNat)
      match rest with
      | dash :: last :: more =>
        if dash.plainly '-' then
          if last.plainly ']' then .ok (members ++ [single, ('-'.toNat, '-'.toNat)], more)
          else if last.char.toNat < first.char.toNat then .error (some (first, last))
          else readMembers (members ++ [(first.char.toNat, last.char.toNat)]) more
        else readMembers (members ++ [single]) (dash :: last :: more)
      | other => readMembers (members ++ [single]) other
termination_by remaining => remaining.length

def readClass (mode : Mode) (opening : Nat) : Reading Expression := do
  let negated ← accept '^'
  match readMembers [] (← get).rest with
  | .error none => refuseAt .openClass opening
  | .error (some (first, last)) =>
    refuseAt (.badRange (String.ofList (first.written ++ '-' :: last.written))) first.position
  | .ok (members, rest) =>
    continueAt rest
    return .one fun c => mode.accepts members c != negated

/-- What a part of a sequence is, as far as a repetition after it goes. -/
inductive PartKind where
  | anchor
  | repetition
  | other
  deriving DecidableEq, Repr

structure Part where
  kind : PartKind
  expression : Expression

/-- The parts of a sequence, the last one first, as an expression. -/
def sequence (parts : List Part) : Expression :=
  parts.foldl (fun rest part => match rest with
    | .nothing => part.expression
    | _ => .both part.expression rest) .nothing

def digitLimit : Nat := 4300

def digitsValue (digits : List Char) : Nat :=
  digits.foldl (fun n c => n * 10 + (c.toNat - '0'.toNat)) 0

/-- A number of repetitions, or another one if no digits are given. -/
def countOf (digits : List Char) (fallback : Nat) : Reading Nat :=
  if digits.isEmpty then return fallback
  else if digits.length > digitLimit then throw (.longCount digits.length)
  else if digitsValue digits ≥ unlimited then throw .largeCount
  else return digitsValue digits

/-- The digits at the start of signs, and the rest. -/
def spanDigits (rest : List Sign) : List Char × List Sign :=
  let isDigit (sign : Sign) : Bool := !sign.escaped && sign.char.isDigit
  ((rest.takeWhile isDigit).map Sign.char, rest.dropWhile isDigit)

/-- The digits between braces, after the opening one: for the least and the largest number. -/
def bounds? (rest : List Sign) : Option (List Char × List Char × List Sign) :=
  let (least, afterLeast) := spanDigits rest
  let (most, afterMost) := match afterLeast with
    | comma :: more => if comma.plainly ',' then spanDigits more else (least, afterLeast)
    | [] => (least, [])
  match afterMost with
  | brace :: after => if brace.plainly '\x7d' then some (least, most, after) else none
  | [] => none

/-- The numbers of a repetition whose mark was taken; none if the mark stands for itself. -/
def readCounts (mark : Sign) : Reading (Option (Nat × Nat)) := do
  if mark.char = '?' then return some (0, 1)
  else if mark.char = '*' then return some (0, unlimited)
  else if mark.char = '+' then return some (1, unlimited)
  else
    let rest := (← get).rest
    if rest.head?.any (·.plainly '\x7d') then return none
    else match bounds? rest with
      | none => return none
      | some (leastDigits, mostDigits, after) =>
        continueAt after
        let least ← countOf leastDigits 0
        let most ← countOf mostDigits unlimited
        if most < least then refuseAt .bounds (mark.position + 1)
        else return some (least, most)

/-- The manner of a repetition, by the sign after it. -/
def readManner : Reading Manner := do
  if ← accept '?' then return .sparing
  else if ← accept '+' then return .possessive
  else return .greedy

/-- Puts a repetition on the last part of a sequence. -/
def readRepetition (mode : Mode) (mark : Sign) (parts : List Part) : Reading (List Part) := do
  match ← readCounts mark with
  | none => return ⟨.other, mode.literal mark.char⟩ :: parts
  | some (least, most) =>
    match parts with
    | [] => refuseAt .nothingToRepeat mark.position
    | part :: earlier =>
      match part.kind with
      | .anchor => refuseAt .nothingToRepeat mark.position
      | .repetition => refuseAt .repeatedTwice mark.position
      | .other =>
        return ⟨.repetition, .repeated least most (← readManner) part.expression⟩ :: earlier

/-- A letter, a digit or an underscore, with no digit at the start. -/
def isName (name : List Char) : Bool :=
  name.head?.any (fun c => isLetter c || c = '_') &&
    name.all fun c => isLetter c || isDecimal c || c = '_'

/-- The text up to a closing character, which is taken too. -/
def readUntil (closing : Char) : Reading (List Char) := do
  let rest := (← get).rest
  let text := writtenAll (rest.takeWhile fun sign => !sign.plainly closing)
  match rest.dropWhile fun sign => !sign.plainly closing with
  | [] =>
    continueAt []
    if text.isEmpty then refuse .noName 0 else refuse (.openName closing) text.length
  | sign :: after =>
    if text.isEmpty then refuseAt .noName sign.position
    else
      continueAt after
      return text

/-- The name of a group up to a closing character. -/
def readName (closing : Char) : Reading (List Char) := do
  let name ← readUntil closing
  if isName name then return name
  else refuse (.badName (String.ofList name)) (name.length + 1)

def groupNamed (name : List Char) : Reading Nat := do
  match (← groups).names.lookup (String.ofList name) with
  | some index => return index
  | none => refuse (.unknownName (String.ofList name)) (name.length + 1)

/-- A reference within a look back must be to a group that was closed before it. -/
def checkLookBack (index : Nat) : Reading Unit := do
  let known ← groups
  match known.lookBack with
  | none => return ()
  | some first =>
    if (known.width? index).isNone then refuse .openReference 0
    else if index ≥ first then refuse .sameLookBack 0

/-- Reads a reference to a group by its name. -/
def readReference (mode : Mode) : Reading Expression := do
  let name ← readName ')'
  let index ← groupNamed name
  match (← groups).width? index with
  | none => refuse .openReference (name.length + 1)
  | some width =>
    checkLookBack index
    return .sameAs index width mode.equal

/-- The decimal digits of a number with single underscores between them. -/
def plainDigits? : List Char → Option (List Nat)
  | [] => none
  | [c] => (decimalValue? c).map ([·])
  | c :: '_' :: rest =>
    match decimalValue? c, plainDigits? rest with
    | some digit, some more => some (digit :: more)
    | _, _ => none
  | c :: rest =>
    match decimalValue? c, plainDigits? rest with
    | some digit, some more => some (digit :: more)
    | _, _ => none

/-- The number that a text spells, with blanks around it and a sign, unless it is negative. -/
def spelledNumber? (text : List Char) : Option Nat :=
  let (negative, unsigned) := match trim text with
    | '-' :: rest => (true, rest)
    | '+' :: rest => (false, rest)
    | other => (false, other)
  match plainDigits? unsigned with
  | none => none
  | some digits =>
    let n := digits.foldl (fun n digit => n * 10 + digit) 0
    if digits.length > digitLimit ∨ (negative ∧ n ≠ 0) then none else some n

/-- The largest number of a group, and one more. -/
def groupLimit : Nat := 1073741823

/-- The group that a condition asks for, up to its closing parenthesis. -/
def readCondition : Reading Nat := do
  let name ← readUntil ')'
  let back := name.length + 1
  if isName name then groupNamed name
  else match spelledNumber? name with
    | none => refuse (.badName (String.ofList name)) back
    | some index =>
      if index = 0 then refuse .groupZero back
      else if index ≥ groupLimit then refuse (.noGroup index) back
      else
        let position := (← tell) - back
        changeGroups fun known =>
          if (known.asked.lookup index).isSome then known
          else { known with asked := known.asked ++ [(index, position)] }
        return index

/-- Opens a numbered group, with or without a name. -/
def openGroup (name : Option (List Char)) : Reading Nat := do
  let known ← groups
  let index := known.next
  match name with
  | none => changeGroups fun known => { known with widths := known.widths ++ [none] }
  | some text =>
    let name := String.ofList text
    match known.names.lookup name with
    | some earlier => refuse (.nameTwice name index earlier) (text.length + 1)
    | none =>
      changeGroups fun known =>
        { known with widths := known.widths ++ [none], names := (name, index) :: known.names }
  return index

def flagLetters : String := "iLmsxatu"

/-- What a sign that is no flag comes to. -/
def badFlag {α : Type} (sign : Sign) (otherwise : Refusal) : Reading α :=
  refuse (if !sign.escaped && isLetter sign.char then .unknownFlag else otherwise)
    sign.written.length

/-- Reads flags to be turned on from a first one up to a closing sign, which is given too. The bound
limits the steps. -/
def readFlagsOn : Nat → List Char → Sign → Reading (List Char × Sign)
  | 0, flags, sign => return (flags, sign)
  | bound + 1, flags, sign => do
    if sign.char = 'L' then refuse .localeFlag 0
    let on := sign.char :: flags
    if on.contains 'a' && on.contains 'u' then refuse .mixedFlags 0
    match ← take with
    | none => refuse .openFlags 0
    | some next =>
      if next.isAmong ")-:" then return (on, next)
      else if next.isAmong flagLetters then readFlagsOn bound on next
      else badFlag next .openFlags

/-- Reads flags to be turned off from a first one up to a colon. The bound limits the steps. -/
def readFlagsOff : Nat → List Char → Sign → Reading (List Char)
  | 0, flags, _ => return flags
  | bound + 1, flags, sign => do
    if sign.isAmong "aLu" then refuse .kindFlagOff 0
    let off := sign.char :: flags
    match ← take with
    | none => refuse .openFlagsOff 0
    | some next =>
      if next.plainly ':' then return off
      else if next.isAmong flagLetters then readFlagsOff bound off next
      else badFlag next .openFlagsOff

/-- The mode with flags turned on and others off. -/
def Mode.change (mode : Mode) (on off : List Char) : Mode where
  ignoresCase := (mode.ignoresCase || on.contains 'i') && !off.contains 'i'
  asciiOnly := if on.contains 'a' then true else if on.contains 'u' then false else mode.asciiOnly
  byLines := (mode.byLines || on.contains 'm') && !off.contains 'm'
  dotTakesAll := (mode.dotTakesAll || on.contains 's') && !off.contains 's'
  spaced := (mode.spaced || on.contains 'x') && !off.contains 'x'

/-- Reads flags from their first sign; gives the mode in their group. Flags without a group would
hold for the whole expression, which has begun already. -/
def readFlags (mode : Mode) (opening : Nat) (first : Sign) : Reading Mode := do
  let size := (← get).size
  let (on, last) ← if first.plainly '-' then pure ([], first) else readFlagsOn size [] first
  if last.plainly ')' then refuseAt .lateFlags opening
  if on.contains 't' then refuse .wholeFlagOn 1
  let off ←
    if last.plainly '-' then
      match ← take with
      | none => refuse .noFlag 0
      | some next =>
        if next.isAmong flagLetters then readFlagsOff size [] next else badFlag next .noFlag
    else pure []
  if off.contains 't' then refuse .wholeFlagOff 1
  if on.any off.contains then refuse .flagOnAndOff 1
  return mode.change on off

def skipComment (opening : Nat) : Reading Unit := do
  match (← get).rest.dropWhile fun sign => !sign.plainly ')' with
  | [] => refuseAt .openComment opening
  | _ :: after => continueAt after

inductive Opening where
  | numbered (name : Option (List Char))
  | plain (mode : Mode)
  | atomic
  | look (back negated : Bool)
  | condition
  | comment
  | reference

/-- Reads the opening of a look from the sign that tells its direction. -/
def readLook (sign : Sign) : Reading Opening := do
  if sign.char ≠ '<' then return .look false (sign.char = '!')
  else
    let next ← takeOpening
    if next.isAmong "=!" then return .look true (next.char = '!')
    else refuse (.unknownKind (String.ofList ('<' :: next.written))) (next.written.length + 2)

/-- Reads the opening of a group after its parenthesis. -/
def readOpening (mode : Mode) (opening : Nat) : Reading Opening := do
  if !(← accept '?') then return .numbered none
  else
    let sign ← takeOpening
    if sign.plainly 'P' then
      if ← accept '<' then return .numbered (some (← readName '>'))
      else if ← accept '=' then return .reference
      else
        let next ← takeOpening
        refuse (.unknownKind (String.ofList ('P' :: next.written))) (next.written.length + 2)
    else if sign.plainly ':' then return .plain mode
    else if sign.plainly '#' then return .comment
    else if sign.isAmong "=!<" then readLook sign
    else if sign.plainly '(' then return .condition
    else if sign.plainly '>' then return .atomic
    else if sign.isAmong flagLetters || sign.plainly '-' then
      return .plain (← readFlags mode opening sign)
    else refuse (.unknownKind (String.ofList sign.written)) (sign.written.length + 1)

def closeParen (opening : Nat) : Reading Unit := do
  if !(← accept ')') then refuseAt .openGroup opening

def isSpacing (sign : Sign) : Bool :=
  sign.isAmong " \t\n\r\x0b\x0c"

mutual
/-- Reads alternatives up to a closing parenthesis or the end. The bound limits the steps; four
times the number of signs is enough. -/
def readAlternatives : Nat → Mode → Reading Expression
  | 0, _ => return .nothing
  | bound + 1, mode => do
    let first ← readSequence bound mode []
    if ← accept '|' then return .either first (← readAlternatives bound mode)
    else return first

/-- Reads what stands in a row, after parts that were read. -/
def readSequence : Nat → Mode → List Part → Reading Expression
  | 0, _, parts => return sequence parts
  | bound + 1, mode, parts => do
    match ← peek with
    | none => return sequence parts
    | some sign =>
      if sign.isAmong "|)" then return sequence parts
      else
        let _ ← take
        if mode.spaced && isSpacing sign then readSequence bound mode parts
        else if mode.spaced && sign.plainly '#' then
          continueAt (((← get).rest.dropWhile fun sign => !sign.plainly '\n').drop 1)
          readSequence bound mode parts
        else if sign.escaped then
          readSequence bound mode (⟨.other, mode.literal sign.char⟩ :: parts)
        else if sign.char = '[' then
          let found ← readClass mode sign.position
          readSequence bound mode (⟨.other, found⟩ :: parts)
        else if sign.isAmong "*+?\x7b" then
          readSequence bound mode (← readRepetition mode sign parts)
        else if sign.char = '.' then
          let dot : Expression := .one fun c => mode.dotTakesAll || c ≠ '\n'
          readSequence bound mode (⟨.other, dot⟩ :: parts)
        else if sign.char = '(' then
          readSequence bound mode (← readGroup bound mode sign.position parts)
        else if sign.char = '^' then
          readSequence bound mode
            (⟨.anchor, if mode.byLines then .lineStart else .textStart⟩ :: parts)
        else if sign.char = '$' then
          readSequence bound mode
            (⟨.anchor, if mode.byLines then .lineEnd else .textEnd⟩ :: parts)
        else readSequence bound mode (⟨.other, mode.literal sign.char⟩ :: parts)

/-- Reads a group after its opening parenthesis and adds it to the parts of a sequence. -/
def readGroup : Nat → Mode → Nat → List Part → Reading (List Part)
  | 0, _, _, parts => return parts
  | bound + 1, mode, opening, parts => do
    match ← readOpening mode opening with
    | .comment =>
      skipComment opening
      return parts
    | .reference => return ⟨.other, ← readReference mode⟩ :: parts
    | .numbered name =>
      let index ← openGroup name
      let body ← readAlternatives bound mode
      closeParen opening
      changeGroups (·.close index body.width)
      return ⟨.other, .group index body⟩ :: parts
    | .plain inner =>
      let body ← readAlternatives bound inner
      closeParen opening
      return ⟨.other, body⟩ :: parts
    | .atomic =>
      let body ← readAlternatives bound mode
      closeParen opening
      return ⟨.other, .atomic body⟩ :: parts
    | .look back negated =>
      let outer := (← groups).lookBack
      if back && outer.isNone then
        changeGroups fun known => { known with lookBack := some known.next }
      let body ← readAlternatives bound mode
      changeGroups fun known => { known with lookBack := outer }
      closeParen opening
      return ⟨.other, if back then .behind negated body else .ahead negated body⟩ :: parts
    | .condition =>
      let index ← readCondition
      checkLookBack index
      let yes ← readSequence bound mode []
      let no ← if ← accept '|' then readSequence bound mode [] else pure .nothing
      if (← peek).any (·.plainly '|') then refuse .threeBranches 0
      closeParen opening
      return ⟨.other, .ifGroup index yes no⟩ :: parts
end

def read (text : List Char) : Except Fault Expression :=
  let all := signs 0 text
  let start : Scanner := ⟨all, text.length, ⟨[], [], none, []⟩⟩
  match (readAlternatives (4 * all.length + 4) .plain).run start with
  | .error fault => .error fault
  | .ok (expression, final) =>
    match final.rest with
    | paren :: _ => .error (.refused .closingParen paren.position)
    | [] =>
      match final.groups.asked.find? fun entry => final.groups.next ≤ entry.1 with
      | some (index, position) => .error (.refused (.noGroup index) position)
      | none => if expression.looksBackFixed then .ok expression else .error .looseLookBack

end SignatureIndex.Text.Expression
