import SignatureIndex.Scan.Event
import SignatureIndex.Scan.LineShape
import SignatureIndex.Signature.Extract
import SignatureIndex.Signature.Table
import SignatureIndex.Source.Comment

/-! Scanning a script for the signatures of its members. Outside of braces every line stands for
itself. Inside, lines are joined until one ends a statement, opens a body, or starts with a
closing brace; the joined line carries the number of its first line. Declarations are read at
depth one only. A statement that the script never ends is dropped. -/
namespace SignatureIndex.Scan

open Text

/-- The depth at which members of a type are declared. -/
def memberDepth : Nat := 1

/-- What one script leaves for the next: brace depth, the open type, and how many logical lines
were read. -/
structure State where
  depth : Nat
  enclosing : Option Enclosing
  logicalLines : Nat
  deriving DecidableEq, Repr

def State.initial : State := ⟨0, none, 0⟩

/-- Whether a trimmed line continues on the next one at a depth. -/
def continues (depth : Nat) (line : List Char) : Bool :=
  decide (memberDepth ≤ depth) &&
    !(line.getLast?.any fun c => c = ';' || c = '\x7b') && line.head? != some '\x7d'

/-- Follows the braces of a logical line. A closing brace at depth zero stays there; one that
reaches depth zero leaves the open type. -/
def followBraces (line : Nat) (state : State) : List Char → State × List Event
  | [] => (state, [])
  | c :: rest =>
    if c = '\x7b' then
      let deeper := { state with depth := state.depth + 1 }
      let (final, events) := followBraces line deeper rest
      (final, .opened line deeper.depth :: events)
    else if c = '\x7d' then
      let depth := state.depth - 1
      let leaving := if depth = 0 then state.enclosing else none
      let shallower : State :=
        { state with depth, enclosing := if depth = 0 then none else state.enclosing }
      let (final, events) := followBraces line shallower rest
      (final, .closed line depth :: ((leaving.map (Event.left line)).toList ++ events))
    else followBraces line state rest

/-- What a member line gives: a signature, or the events that tell why not. -/
def readMember (text : List Char) (line : Nat) (enclosing : Option Enclosing)
    (source : Option String) : Option Signature × List Event :=
  if isElseIf text then (none, [.elseIf line text])
  else match Signature.extract text enclosing source (some line) with
    | .ok signature => (some signature, [])
    | .error (.reserved name) => (none, [.reservedName name line text])
    | .error .noDeclaration =>
      (none, if isCallShaped text then [.partialDeclaration line text] else [])

structure Outcome where
  signatures : List Signature
  state : State
  events : List Event

def readLogicalLine (state : State) (line : Nat) (text : List Char) (source : Option String) :
    Outcome :=
  let header := if state.depth = 0 then typeHeader? text else none
  let state₁ : State := {
    depth := state.depth
    enclosing := header.or state.enclosing
    logicalLines := state.logicalLines + 1 }
  let (signature, memberEvents) :=
    if state.depth = memberDepth then readMember text line state₁.enclosing source
    else (none, [.outsideMembers line state.depth text])
  let (final, braceEvents) := followBraces line state₁ text
  { signatures := signature.toList
    state := final
    events := (header.map (Event.header line)).toList ++ memberEvents ++ braceEvents ++
      (signature.map fun found => Event.found found.label line final.depth).toList }

/-- Lines waiting for the end of their statement: the number of the first, and the lines joined
by single spaces. -/
structure Pending where
  line : Nat
  text : List Char

def Pending.extend (pending : Option Pending) (line : Nat) (text : List Char) : Pending :=
  match pending with
  | none => ⟨line, text⟩
  | some earlier => ⟨earlier.line, earlier.text ++ ' ' :: text⟩

/-- Reads trimmed lines that are not blank, each with its number. -/
def readLines (source : Option String) :
    State → Option Pending → List (Nat × List Char) → Outcome
  | state, pending, [] =>
    ⟨[], state, (pending.map fun waiting => Event.unterminated waiting.line).toList⟩
  | state, pending, (line, text) :: rest =>
    let joined := Pending.extend pending line text
    if continues state.depth text then readLines source state (some joined) rest
    else
      let first := readLogicalLine state joined.line joined.text source
      let others := readLines source first.state none rest
      ⟨first.signatures ++ others.signatures, others.state, first.events ++ others.events⟩

/-- The lines of a script without comments, trimmed, with their numbers; blank ones are left
out. -/
def numberedLines (script : List Char) : List (Nat × List Char) :=
  ((List.splitOn '\n' (Source.stripComments script)).mapIdx fun index line =>
    (index + 1, trim line)) |>.filter fun entry => !entry.2.isEmpty

def readScript (state : State) (script : List Char) (source : Option String) : Outcome :=
  readLines source state none (numberedLines script)

/-- The signatures of a script read by itself. -/
def signatures (script : List Char) (source : Option String) : List Signature :=
  (readScript .initial script source).signatures

/-- Reads a script by itself and stores its signatures; gives the table, the number of signatures
found, and the events. -/
def intoTable (table : Table) (script : String) (source : Option String) :
    Table × Nat × List Event :=
  let outcome := readScript .initial script.toList source
  let count := outcome.signatures.length
  (table.storeAll outcome.signatures, count,
    .started source :: (outcome.events ++ [.finished count source]))

end SignatureIndex.Scan
