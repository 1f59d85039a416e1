/-! Regular expressions with ordered choice. Besides characters, anchors, alternatives and
repetitions they have numbered groups, which later parts can refer to, looks ahead and back, and
parts that are never taken back. An expression is run with a continuation, which says whether the
rest suits; a refused way is taken back and the next one is tried. -/
namespace SignatureIndex.Text

inductive Manner where
  /-- As often as possible first. -/
  | greedy
  /-- As seldom as possible first. -/
  | sparing
  /-- As often as possible, and nothing is taken back. -/
  | possessive
  deriving DecidableEq, Repr

/-- The least and the largest number of characters that an expression takes. -/
structure Width where
  least : Nat
  most : Nat
  deriving DecidableEq, Repr

/-- A regular expression. -/
inductive Expression where
  /-- Nothing at all. -/
  | nothing
  /-- One character of a class. -/
  | one (accepts : Char → Bool)
  /-- The start of the text. -/
  | textStart
  /-- The start of the text or of a line. -/
  | lineStart
  /-- The end of the text, or the place before a line feed that ends it. -/
  | textEnd
  /-- The end of the text or of a line. -/
  | lineEnd
  /-- The first expression and then the second. -/
  | both (first second : Expression)
  /-- The first expression or, failing that, the second. -/
  | either (first second : Expression)
  /-- The expression repeated. -/
  | repeated (least most : Nat) (manner : Manner) (body : Expression)
  /-- The expression as a numbered group. -/
  | group (index : Nat) (body : Expression)
  /-- What a group took last, up to an equality of characters. -/
  | sameAs (index : Nat) (width : Width) (equal : Char → Char → Bool)
  /-- A place before which the expression matches, or does not. -/
  | ahead (negated : Bool) (body : Expression)
  /-- A place after which the expression matches, or does not. -/
  | behind (negated : Bool) (body : Expression)
  /-- The first expression if a group took part, else the second. -/
  | ifGroup (index : Nat) (yes no : Expression)
  /-- The expression, of which nothing is taken back. -/
  | atomic (body : Expression)

namespace Expression

/-- The number of repetitions that stands for any number. -/
def unlimited : Nat := 4294967295

def width : Expression → Width
  | one _ => ⟨1, 1⟩
  | both first second =>
    ⟨first.width.least + second.width.least, first.width.most + second.width.most⟩
  | either first second =>
    ⟨min first.width.least second.width.least, max first.width.most second.width.most⟩
  | repeated least most _ body => ⟨body.width.least * least, body.width.most * most⟩
  | group _ body => body.width
  | sameAs _ width _ => width
  | ifGroup _ yes no => ⟨min yes.width.least no.width.least, max yes.width.most no.width.most⟩
  | atomic body => body.width
  | _ => ⟨0, 0⟩

def looksBackFixed : Expression → Bool
  | both first second => first.looksBackFixed && second.looksBackFixed
  | either first second => first.looksBackFixed && second.looksBackFixed
  | repeated _ _ _ body => body.looksBackFixed
  | group _ body => body.looksBackFixed
  | ahead _ body => body.looksBackFixed
  | behind _ body => body.width.least = body.width.most && body.looksBackFixed
  | ifGroup _ yes no => yes.looksBackFixed && no.looksBackFixed
  | atomic body => body.looksBackFixed
  | _ => true

/-- A place in a text: the characters before it, nearest first, and those after it. -/
structure Spot where
  passed : List Char
  rest : List Char
  deriving DecidableEq

def Spot.back? : Nat → Spot → Option Spot
  | 0, spot => some spot
  | count + 1, ⟨c :: passed, rest⟩ => Spot.back? count ⟨passed, c :: rest⟩
  | _ + 1, ⟨[], _⟩ => none

/-- The text between a place and a later one. -/
def Spot.upTo (first last : Spot) : List Char :=
  first.rest.take (first.rest.length - last.rest.length)

abbrev Taken := List (Nat × List Char)

structure Finish where
  spot : Spot
  taken : Taken

/-- What is asked about the rest of a text. -/
abbrev Resume := Spot → Taken → Option Finish

abbrev Step := Spot → Taken → Resume → Option Finish

def repeatExactly (step : Step) : Nat → Step
  | 0, spot, taken, resume => resume spot taken
  | count + 1, spot, taken, resume =>
    step spot taken fun next taken => repeatExactly step count next taken resume

/-- Repeats a step at most so many times. A repetition that starts where the one before it started
is left out. The bound limits the steps; one more than the characters left is enough. -/
def repeatUpTo (step : Step) (sparing : Bool) : Nat → Nat → Option Spot → Step
  | 0, _, _, spot, taken, resume => resume spot taken
  | bound + 1, count, last, spot, taken, resume =>
    if count = 0 ∨ last = some spot then resume spot taken
    else
      let again (_ : Unit) := step spot taken fun next taken =>
        repeatUpTo step sparing bound (count - 1) (some spot) next taken resume
      if sparing then
        match resume spot taken with
        | some finish => some finish
        | none => again ()
      else
        match again () with
        | some finish => some finish
        | none => resume spot taken

/-- A step of which nothing is taken back. -/
def once (step : Step) : Step := fun spot taken resume =>
  match step spot taken fun next taken => some ⟨next, taken⟩ with
  | some finish => resume finish.spot finish.taken
  | none => none

def repeatStep (step : Step) (least most : Nat) (sparing : Bool) : Step :=
  fun spot taken resume =>
    repeatExactly step least spot taken fun next taken =>
      repeatUpTo step sparing (next.rest.length + 2) (most - least) none next taken resume

def followChars (equal : Char → Char → Bool) : List Char → Spot → Option Spot
  | [], spot => some spot
  | c :: more, ⟨passed, d :: rest⟩ =>
    if equal c d then followChars equal more ⟨d :: passed, rest⟩ else none
  | _ :: _, ⟨_, []⟩ => none

/-- Runs an expression at a place and gives the first answer of the continuation over the places
where the expression can end. -/
def run : Expression → Step
  | nothing, spot, taken, resume => resume spot taken
  | one accepts, spot, taken, resume =>
    match spot.rest with
    | [] => none
    | c :: rest => if accepts c then resume ⟨c :: spot.passed, rest⟩ taken else none
  | textStart, spot, taken, resume => if spot.passed = [] then resume spot taken else none
  | lineStart, spot, taken, resume =>
    if spot.passed = [] ∨ spot.passed.head? = some '\n' then resume spot taken else none
  | textEnd, spot, taken, resume =>
    if spot.rest = [] ∨ spot.rest = ['\n'] then resume spot taken else none
  | lineEnd, spot, taken, resume =>
    if spot.rest = [] ∨ spot.rest.head? = some '\n' then resume spot taken else none
  | both first second, spot, taken, resume =>
    first.run spot taken fun next taken => second.run next taken resume
  | either first second, spot, taken, resume =>
    match first.run spot taken resume with
    | some finish => some finish
    | none => second.run spot taken resume
  | repeated least most .greedy body, spot, taken, resume =>
    repeatStep body.run least most false spot taken resume
  | repeated least most .sparing body, spot, taken, resume =>
    repeatStep body.run least most true spot taken resume
  | repeated least most .possessive body, spot, taken, resume =>
    once (repeatStep (once body.run) least most false) spot taken resume
  | group index body, spot, taken, resume =>
    body.run spot taken fun next taken => resume next ((index, spot.upTo next) :: taken)
  | sameAs index _ equal, spot, taken, resume =>
    match taken.lookup index with
    | none => none
    | some text =>
      match followChars equal text spot with
      | none => none
      | some next => resume next taken
  | ahead negated body, spot, taken, resume =>
    match body.run spot taken fun next taken => some ⟨next, taken⟩ with
    | some finish => if negated then none else resume spot finish.taken
    | none => if negated then resume spot taken else none
  | behind negated body, spot, taken, resume =>
    let found := match spot.back? body.width.least with
      | none => none
      | some start => body.run start taken fun next taken => some ⟨next, taken⟩
    match found with
    | some finish => if negated then none else resume spot finish.taken
    | none => if negated then resume spot taken else none
  | ifGroup index yes no, spot, taken, resume =>
    if (taken.lookup index).isSome then yes.run spot taken resume else no.run spot taken resume
  | atomic body, spot, taken, resume => once body.run spot taken resume

/-- Whether an expression matches at a place of a text or at a later one. -/
def matchesFrom (expression : Expression) (passed : List Char) : List Char → Bool
  | [] => (expression.run ⟨passed, []⟩ [] fun next taken => some ⟨next, taken⟩).isSome
  | c :: rest =>
    (expression.run ⟨passed, c :: rest⟩ [] fun next taken => some ⟨next, taken⟩).isSome ||
      matchesFrom expression (c :: passed) rest

def occursIn (expression : Expression) (text : List Char) : Bool :=
  expression.matchesFrom [] text

end Expression

end SignatureIndex.Text
