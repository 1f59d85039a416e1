import SignatureIndex.Text.Blank
import SignatureIndex.Text.Letter
import SignatureIndex.Text.Quoted
import SignatureIndex.Value

/-! Reading program arguments by a grammar of options and positional arguments. Arguments are first
sorted into options, words and the double dash, after which everything is a word. Then positional
arguments and options are taken in turn, from left to right. -/
namespace SignatureIndex.CommandLine

open Text

/-- What an option does: it sets a switch, takes a value, or asks for help. -/
inductive OptionKind where
  | switch
  | value
  | help
  deriving DecidableEq, Repr

/-- An option with its names, the first of which may be short. -/
structure OptionRule where
  names : List String
  kind : OptionKind
  required : Bool
  deriving DecidableEq, Repr

def OptionRule.title (rule : OptionRule) : String :=
  "/".intercalate rule.names

/-- How many words a positional argument takes: one, any number, or a word out of some and then
everything that is left. -/
inductive Arity where
  | one
  | any
  | command (choices : List String)
  deriving DecidableEq, Repr

structure PositionalRule where
  name : String
  arity : Arity
  deriving DecidableEq, Repr

def PositionalRule.required (rule : PositionalRule) : Bool :=
  rule.arity ≠ .any

/-- A grammar: the program's name in messages, the positional argument, if there is one, and the
options. -/
structure Grammar where
  program : String
  positional : Option PositionalRule
  options : List OptionRule
  deriving DecidableEq, Repr

inductive UsageFault where
  | ambiguous (written : String) (candidates : List String)
  | missingValue (option : String)
  | unusedValue (option value : String)
  | unknownChoice (argument word : String) (choices : List String)
  | missing (names : List String)
  | unrecognized (words : List String)
  deriving DecidableEq, Repr

def UsageFault.message : UsageFault → String
  | ambiguous written candidates =>
    "ambiguous option: " ++ written ++ " could match " ++ ", ".intercalate candidates
  | missingValue option => "argument " ++ option ++ ": expected one argument"
  | unusedValue option value =>
    "argument " ++ option ++ ": ignored explicit argument " ++ quotedString value
  | unknownChoice argument word choices =>
    "argument " ++ argument ++ ": invalid choice: " ++ quotedString word ++ " (choose from " ++
      ", ".intercalate (choices.map quotedString) ++ ")"
  | missing names => "the following arguments are required: " ++ ", ".intercalate names
  | unrecognized words => "unrecognized arguments: " ++ " ".intercalate words

/-- Why arguments are not read to the end: a fault, or a wish for help. -/
inductive Halt where
  | usage (program : String) (fault : UsageFault)
  | help (program : String)
  deriving DecidableEq, Repr

/-- An option as written. `attached` is the text that came with it, after an equals sign or right
after a short name. An option that is not known has no rule. -/
structure Written where
  rule : Option OptionRule
  name : String
  attached : Option String
  deriving DecidableEq, Repr

inductive Role where
  | dashes
  | word
  | option (written : Written)
  deriving DecidableEq, Repr

structure Argument where
  text : String
  role : Role
  deriving DecidableEq, Repr

def Argument.isOption (argument : Argument) : Bool :=
  match argument.role with
  | .option _ => true
  | _ => false

namespace Grammar

def optionNames (grammar : Grammar) : List (String × OptionRule) :=
  grammar.options.flatMap fun rule => rule.names.map fun name => (name, rule)

def ruleNamed? (grammar : Grammar) (name : String) : Option OptionRule :=
  grammar.optionNames.lookup name

/-- A text cut at its first equals sign. -/
def cutAtEquals (text : String) : String × Option String :=
  let cs := text.toList
  match cs.dropWhile (· ≠ '=') with
  | [] => (text, none)
  | _ :: after => (String.ofList (cs.takeWhile (· ≠ '=')), some (String.ofList after))

/-- The options that an argument may stand for if it is none exactly: a start of a long name, or a
short name with text after it. -/
def candidates (grammar : Grammar) (text : String) : List Written :=
  match text.toList with
  | '-' :: '-' :: _ =>
    let (start, attached) := cutAtEquals text
    grammar.optionNames.filterMap fun (name, rule) =>
      if startsWith start.toList name.toList then some ⟨some rule, name, attached⟩
      else none
  | dash :: letter :: rest =>
    grammar.optionNames.filterMap fun (name, rule) =>
      if name.toList = [dash, letter] then some ⟨some rule, name, some (String.ofList rest)⟩
      else if startsWith text.toList name.toList then some ⟨some rule, name, none⟩
      else none
  | _ => []

/-- Whether a text looks like a negative number, with digits of any script. -/
def isNegativeNumber (text : List Char) : Bool :=
  let body := match text.reverse with
    | '\n' :: rest => rest.reverse
    | _ => text
  match body with
  | '-' :: rest =>
    let whole := rest.takeWhile isDecimal
    match rest.dropWhile isDecimal with
    | [] => !whole.isEmpty
    | '.' :: fraction => !fraction.isEmpty && fraction.all isDecimal
    | _ => false
  | _ => false

/-- What an argument before the double dash is taken for. A lone dash, a negative number and an
unknown option with a space in it are words. -/
def roleOf (grammar : Grammar) (text : String) : Except Halt Role :=
  match text.toList with
  | '-' :: _ :: _ =>
    match grammar.ruleNamed? text with
    | some rule => .ok (.option ⟨some rule, text, none⟩)
    | none =>
      let (name, attached) := cutAtEquals text
      match attached.bind fun _ => grammar.ruleNamed? name with
      | some rule => .ok (.option ⟨some rule, name, attached⟩)
      | none =>
        match grammar.candidates text with
        | [] =>
          if isNegativeNumber text.toList || text.toList.contains ' ' then .ok .word
          else .ok (.option ⟨none, text, none⟩)
        | [single] => .ok (.option single)
        | several => .error (.usage grammar.program (.ambiguous text (several.map (·.name))))
  | _ => .ok .word

def sort (grammar : Grammar) : List String → Except Halt (List Argument)
  | [] => .ok []
  | text :: rest =>
    if text = "--" then .ok (⟨text, .dashes⟩ :: rest.map fun word => ⟨word, .word⟩)
    else match grammar.roleOf text with
      | .error halt => .error halt
      | .ok role => (grammar.sort rest).map (⟨text, role⟩ :: ·)

end Grammar

/-- The value of an option. A lone double dash attached to an option takes its value away. -/
inductive OptionValue where
  | text (value : String)
  | withdrawn
  deriving DecidableEq, Repr

/-- The value that a text attached to an option stands for. -/
def OptionValue.ofAttached (text : String) : OptionValue :=
  if text = "--" then withdrawn else .text text

/-- The text of a value; a withdrawn value and the empty text are none. -/
def OptionValue.content? : OptionValue → Option String
  | .text value => if value = "" then none else some value
  | .withdrawn => none

/-- What was read: switches, values of options, the words of the positional argument once it was
taken, and what nothing was found for. -/
structure Parsed where
  switches : List String
  values : Entries OptionValue
  words : Option (List String)
  extras : List String

def Parsed.empty : Parsed := ⟨[], [], none, []⟩

def Parsed.value? (parsed : Parsed) (option : String) : Option OptionValue :=
  parsed.values.get? option

def Parsed.has (parsed : Parsed) (option : String) : Bool :=
  parsed.switches.contains option

namespace Grammar

/-- Takes one option with its value, if it has one. -/
def take (grammar : Grammar) (parsed : Parsed) (rule : OptionRule) (value : Option OptionValue) :
    Except Halt Parsed :=
  match rule.kind, value with
  | .help, _ => .error (.help grammar.program)
  | .switch, _ => .ok { parsed with switches := rule.title :: parsed.switches }
  | .value, some given => .ok { parsed with values := parsed.values.put rule.title given }
  | .value, none => .error (.usage grammar.program (.missingValue rule.title))

def takeAll (grammar : Grammar) (parsed : Parsed) :
    List (OptionRule × Option OptionValue) → Except Halt Parsed
  | [] => .ok parsed
  | (rule, value) :: rest =>
    match grammar.take parsed rule value with
    | .error halt => .error halt
    | .ok next => grammar.takeAll next rest

/-- What the letters written together after a short option come to: the options taken and the
number of words used up. -/
structure Cluster where
  taken : List (OptionRule × Option OptionValue)
  used : Nat

/-- An option without attached text: a switch alone, or an option with the word after it. -/
def detached (grammar : Grammar) (rule : OptionRule) (rest : List Argument) :
    Except Halt Cluster :=
  match rule.kind, rest with
  | .value, next :: _ =>
    if next.role = .word then .ok ⟨[(rule, some (.text next.text))], 1⟩
    else .error (.usage grammar.program (.missingValue rule.title))
  | .value, [] => .error (.usage grammar.program (.missingValue rule.title))
  | _, _ => .ok ⟨[(rule, none)], 0⟩

/-- The refusal of text attached to an option that takes none. -/
def refuse (grammar : Grammar) (rule : OptionRule) (text : List Char) : Except Halt Cluster :=
  .error (.usage grammar.program (.unusedValue rule.title (String.ofList text)))

/-- An option with text attached. The text is the option's value, or it goes on with further short
options if the option is a short one that takes no value. Nothing is taken if one of them is not
known. -/
def attachedTo (grammar : Grammar) (rest : List Argument) (rule : OptionRule) (isShort : Bool) :
    List Char → Except Halt Cluster
  | [] => if rule.kind = .value then .ok ⟨[(rule, some (.text ""))], 0⟩ else grammar.refuse rule []
  | letter :: more =>
    if rule.kind = .value then
      .ok ⟨[(rule, some (.ofAttached (String.ofList (letter :: more))))], 0⟩
    else if !isShort then grammar.refuse rule (letter :: more)
    else match grammar.ruleNamed? (String.ofList ['-', letter]) with
      | none => grammar.refuse rule (letter :: more)
      | some next =>
        let others := match more with
          | [] => grammar.detached next rest
          | c :: value => grammar.attachedTo rest next true (c :: value)
        others.map fun cluster => { cluster with taken := (rule, none) :: cluster.taken }
termination_by text => text.length

/-- Whether a name is a short one. -/
def isShort (name : String) : Bool :=
  name.toList[1]? ≠ some '-'

/-- Takes the option at the start of the arguments; gives what is left after it. -/
def takeOption (grammar : Grammar) (parsed : Parsed) (text : String) (written : Written)
    (rest : List Argument) : Except Halt (Parsed × List Argument) :=
  match written.rule with
  | none => .ok ({ parsed with extras := parsed.extras ++ [text] }, rest)
  | some rule =>
    let cluster := match written.attached with
      | none => grammar.detached rule rest
      | some attached =>
        grammar.attachedTo rest rule (isShort written.name) attached.toList
    match cluster with
    | .error halt => .error halt
    | .ok cluster => (grammar.takeAll parsed cluster.taken).map (·, rest.drop cluster.used)

/-- How many arguments the positional argument takes from the start, if it can be taken. -/
def reach? (arity : Arity) (arguments : List Argument) : Option Nat :=
  let lead := (arguments.takeWhile (·.role = .dashes)).length
  let after := arguments.drop lead
  match arity with
  | .any => some (arguments.takeWhile (!·.isOption)).length
  | .one =>
    match after with
    | first :: rest =>
      if first.role = .word then some (lead + 1 + (rest.takeWhile (·.role = .dashes)).length)
      else none
    | [] => none
  | .command _ =>
    match after with
    | first :: _ => if first.role = .word then some arguments.length else none
    | [] => none

/-- The words that a positional argument gets: without the first double dash, unless the rest of
the arguments is a command's. -/
def wordsFor (arity : Arity) (arguments : List Argument) : List String :=
  let texts := arguments.map (·.text)
  match arity with
  | .command _ => texts
  | _ => texts.erase "--"

/-- Takes the positional argument from the start, if it was not taken before and can be taken;
gives what is left. -/
def takePositional (grammar : Grammar) (parsed : Parsed) (arguments : List Argument) :
    Except Halt (Parsed × List Argument) :=
  match grammar.positional, parsed.words with
  | some rule, none =>
    match reach? rule.arity arguments with
    | none => .ok (parsed, arguments)
    | some count =>
      let words := wordsFor rule.arity (arguments.take count)
      let next := ({ parsed with words := some words }, arguments.drop count)
      match rule.arity, words with
      | .command choices, word :: _ =>
        if word ∈ choices then .ok next
        else .error (.usage grammar.program (.unknownChoice rule.name word choices))
      | _, _ => .ok next
  | _, _ => .ok (parsed, arguments)

def leave (parsed : Parsed) (arguments : List Argument) : Parsed :=
  { parsed with extras := parsed.extras ++ arguments.map (·.text) }

/-- Takes positional arguments and options in turn as long as there are options, and then the
positional argument that may follow them. The bound limits the steps; the number of arguments is
enough. -/
def run (grammar : Grammar) : Nat → Parsed → List Argument → Except Halt Parsed
  | 0, parsed, arguments => .ok (leave parsed arguments)
  | bound + 1, parsed, arguments =>
    match arguments with
    | ⟨text, .option written⟩ :: rest =>
      match grammar.takeOption parsed text written rest with
      | .error halt => .error halt
      | .ok (next, left) => grammar.run bound next left
    | _ =>
      match grammar.takePositional parsed arguments with
      | .error halt => .error halt
      | .ok (next, left) =>
        if left.length < arguments.length ∧ left.any (·.isOption) then grammar.run bound next left
        else if left.any (·.isOption) then
          grammar.run bound (leave next (left.takeWhile (!·.isOption)))
            (left.dropWhile (!·.isOption))
        else
          -- what the positional argument left is not looked at again
          .ok (leave next left)

/-- The names of required arguments that are missing, the positional one where it stands among the
options. -/
def missing (grammar : Grammar) (parsed : Parsed) : List String :=
  let positional := match grammar.positional with
    | some rule => if rule.required ∧ parsed.words.isNone then [rule.name] else []
    | none => []
  let options := grammar.options.filter fun rule =>
    rule.required && (parsed.value? rule.title).isNone
  positional ++ options.map OptionRule.title

/-- Reads arguments. What nothing was found for is left in the result. -/
def read (grammar : Grammar) (arguments : List String) : Except Halt Parsed :=
  match grammar.sort arguments with
  | .error halt => .error halt
  | .ok sorted =>
    match grammar.run (2 * sorted.length + 1) .empty sorted with
    | .error halt => .error halt
    | .ok parsed =>
      match grammar.missing parsed with
      | [] => .ok parsed
      | names => .error (.usage grammar.program (.missing names))

end Grammar

end SignatureIndex.CommandLine
