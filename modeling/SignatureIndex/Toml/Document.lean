import SignatureIndex.Toml.Scalar

/-! Documents of TOML: keys, lists, inline tables, table headers, and which tables may be opened or
extended. A document is a record, or it is refused. -/
namespace SignatureIndex.Toml

/-- A key with its dots resolved. -/
abbrev Key := List String

/-- Which tables are closed to what. Nothing may be added below a sealed key. An opened key may not
be opened by a header again, and keys with dots may not lead through it; keys that were reached
through dots count as opened from the next header on. -/
structure Marks where
  sealed : List Key
  opened : List Key
  waiting : List Key

namespace Marks

def unmarked : Marks := ⟨[], [], []⟩

/-- Whether a key lies at or below a sealed one. -/
def isSealed (marks : Marks) (key : Key) : Bool :=
  marks.sealed.any (·.isPrefixOf key)

def isOpened (marks : Marks) (key : Key) : Bool :=
  marks.opened.contains key

def noteSealed (marks : Marks) (key : Key) : Marks :=
  { marks with sealed := key :: marks.sealed }

def noteOpened (marks : Marks) (key : Key) : Marks :=
  { marks with opened := key :: marks.opened }

def settle (marks : Marks) : Marks :=
  ⟨marks.sealed, marks.waiting ++ marks.opened, []⟩

/-- Takes the marks off a key and everything below it. -/
def free (marks : Marks) (key : Key) : Marks :=
  let keep (other : Key) : Bool := !key.isPrefixOf other
  ⟨marks.sealed.filter keep, marks.opened.filter keep, marks.waiting⟩

end Marks

/-- Changes the table behind a key, which is made if it is absent. A list leads on to its last
table if lists may be entered. -/
def changeTable (enterLists : Bool) (change : Entries Value → Option (Entries Value)) :
    Key → Entries Value → Option (Entries Value)
  | [], fields => change fields
  | name :: rest, fields =>
    match fields.get? name with
    | none => (changeTable enterLists change rest []).map fun inner =>
        fields.put name (.record inner)
    | some (.record inner) => (changeTable enterLists change rest inner).map fun inner =>
        fields.put name (.record inner)
    | some (.list items) =>
      if enterLists then
        match items.getLast? with
        | some (.record inner) => (changeTable enterLists change rest inner).map fun inner =>
            fields.put name (.list (items.dropLast ++ [.record inner]))
        | _ => none
      else none
    | some _ => none

/-- Puts a value under a name that is free. -/
def putNew (name : String) (value : Value) (fields : Entries Value) : Option (Entries Value) :=
  match fields.get? name with
  | none => some (fields.put name value)
  | some _ => none

/-- Adds an empty table to the list under a name. -/
def addTable (name : String) (fields : Entries Value) : Option (Entries Value) :=
  match fields.get? name with
  | none => some (fields.put name (.list [.record []]))
  | some (.list items) => some (fields.put name (.list (items ++ [.record []])))
  | some _ => none

/-- Whether a value is a list or a table. -/
def isContainer : Value → Bool
  | .list _ => true
  | .record _ => true
  | _ => false

def isBareKeyChar (c : Char) : Bool :=
  isDigit c || decide ('a' ≤ c ∧ c ≤ 'z') || decide ('A' ≤ c ∧ c ≤ 'Z') || c = '-' || c = '_'

def readKeyPart (bound : Nat) (cs : List Char) : Read String :=
  match cs with
  | [] => none
  | '"' :: rest => (readBasic bound rest).map fun (text, after) => (String.ofList text, after)
  | '\'' :: rest => (readLiteral rest).map fun (text, after) => (String.ofList text, after)
  | c :: _ =>
    if isBareKeyChar c then
      some (String.ofList (cs.takeWhile isBareKeyChar), cs.dropWhile isBareKeyChar)
    else none

def readKey : Nat → List Char → Read Key
  | 0, _ => none
  | bound + 1, cs =>
    match readKeyPart bound cs with
    | none => none
    | some (part, rest) =>
      match skipSpace rest with
      | '.' :: more => (readKey bound (skipSpace more)).map fun (parts, after) =>
          (part :: parts, after)
      | after => some ([part], after)

/-- Drops a comment up to the end of its line; control characters in it are refused. -/
def skipComment : List Char → Option (List Char)
  | '#' :: rest =>
    if (rest.takeWhile (· ≠ '\n')).any isControl then none
    else some (rest.dropWhile (· ≠ '\n'))
  | cs => some cs

/-- Drops the blanks, line feeds and comments between the items of a list. -/
def skipFiller : Nat → List Char → Option (List Char)
  | 0, cs => some cs
  | bound + 1, cs =>
    match cs.dropWhile isSpaceOrNewline with
    | '#' :: rest =>
      match skipComment ('#' :: rest) with
      | none => none
      | some after => skipFiller bound after
    | after => some after

/-- A value without parts: a string, a truth value, a moment or a number. -/
def readScalar (bound : Nat) (cs : List Char) : Reading Value :=
  match cs with
  | '"' :: _ => (orMalformed (readText bound cs)).map fun (text, after) =>
      (.text (String.ofList text), after)
  | '\'' :: _ => (orMalformed (readText bound cs)).map fun (text, after) =>
      (.text (String.ofList text), after)
  | 't' :: 'r' :: 'u' :: 'e' :: rest => .ok (.bool true, rest)
  | 'f' :: 'a' :: 'l' :: 's' :: 'e' :: rest => .ok (.bool false, rest)
  | _ =>
    match readMoment cs with
    | some (some moment, rest) => .ok (.moment moment, rest)
    | some (none, _) => .error .malformed
    | none => readNumber cs

/-- The fields of an inline table so far, and its sealed keys. -/
structure Inline where
  fields : Entries Value
  marks : Marks

def Inline.put (inline : Inline) (key : Key) (value : Value) : Option Inline :=
  match key.getLast? with
  | none => none
  | some name =>
    if inline.marks.isSealed key then none
    else match changeTable false (putNew name value) key.dropLast inline.fields with
      | none => none
      | some fields =>
        some ⟨fields, if isContainer value then inline.marks.noteSealed key else inline.marks⟩

def listRoom : Nat := 2

def tableRoom : Nat := 3

/-- The room that has to be left in a list or an inline table. -/
def spareRoom : Nat := 2

mutual
/-- Reads a value for which there is so much room. The bound limits the steps. -/
def readValue : Nat → Nat → List Char → Reading Value
  | 0, _, _ => .error .malformed
  | bound + 1, room, cs =>
    match cs with
    | '[' :: rest =>
      if room < listRoom + spareRoom then .error .nesting
      else match skipFiller bound rest with
        | none => .error .malformed
        | some (']' :: after) => .ok (.list [], after)
        | some items => (readItems bound (room - listRoom) items).map fun (values, after) =>
            (.list values, after)
    | '\x7b' :: rest =>
      if room < tableRoom + spareRoom then .error .nesting
      else match skipSpace rest with
        | '\x7d' :: after => .ok (.record [], after)
        | fields =>
          (readFields bound (room - tableRoom) ⟨[], .unmarked⟩ fields).map fun (inline, after) =>
            (.record inline.fields, after)
    | _ => readScalar bound cs

/-- Reads the items of a list up to and with its closing bracket. -/
def readItems : Nat → Nat → List Char → Reading (List Value)
  | 0, _, _ => .error .malformed
  | bound + 1, room, cs =>
    match readValue bound room cs with
    | .error fault => .error fault
    | .ok (value, rest) =>
      match skipFiller bound rest with
      | some (']' :: after) => .ok ([value], after)
      | some (',' :: more) =>
        match skipFiller bound more with
        | none => .error .malformed
        | some (']' :: after) => .ok ([value], after)
        | some items => (readItems bound room items).map fun (values, after) =>
            (value :: values, after)
      | _ => .error .malformed

/-- Reads the fields of an inline table up to and with its closing brace. -/
def readFields : Nat → Nat → Inline → List Char → Reading Inline
  | 0, _, _, _ => .error .malformed
  | bound + 1, room, inline, cs =>
    match readKey bound cs with
    | some (key, '=' :: rest) =>
      match readValue bound room (skipSpace rest) with
      | .error fault => .error fault
      | .ok (value, afterValue) =>
        match inline.put key value with
        | none => .error .malformed
        | some extended =>
          match skipSpace afterValue with
          | '\x7d' :: after => .ok (extended, after)
          | ',' :: more => readFields bound room extended (skipSpace more)
          | _ => .error .malformed
    | _ => .error .malformed
end

/-- A document so far: its fields, its marks, and the table that key lines go to. -/
structure State where
  fields : Entries Value
  marks : Marks
  header : Key

/-- The proper starts of a key, without the empty one. -/
def properStarts (key : Key) : List Key :=
  (List.range' 1 (key.length - 1)).map key.take

def State.putLine (state : State) (key : Key) (value : Value) : Option State :=
  match key.getLast? with
  | none => none
  | some name =>
    let passed := (properStarts key).map (state.header ++ ·)
    let parent := state.header ++ key.dropLast
    if passed.any state.marks.isOpened || state.marks.isSealed parent then none
    else match changeTable true (putNew name value) parent state.fields with
      | none => none
      | some fields =>
        let marks := { state.marks with waiting := passed ++ state.marks.waiting }
        some { state with
          fields
          marks := if isContainer value then marks.noteSealed (state.header ++ key) else marks }

def State.openTable (state : State) (key : Key) : Option State :=
  if state.marks.isOpened key || state.marks.isSealed key then none
  else (changeTable true some key state.fields).map fun fields =>
    ⟨fields, state.marks.noteOpened key, key⟩

/-- A header that adds a table to a list. -/
def State.extendList (state : State) (key : Key) : Option State :=
  match key.getLast? with
  | none => none
  | some name =>
    if state.marks.isSealed key then none
    else (changeTable true (addTable name) key.dropLast state.fields).map fun fields =>
      ⟨fields, (state.marks.free key).noteOpened key, key⟩

def readHeader (bound : Nat) (state : State) (cs : List Char) : Read State :=
  let settled := { state with marks := state.marks.settle }
  match cs with
  | '[' :: rest =>
    match readKey bound (skipSpace rest) with
    | some (key, ']' :: ']' :: after) => (settled.extendList key).map (·, after)
    | _ => none
  | _ =>
    match readKey bound (skipSpace cs) with
    | some (key, ']' :: after) => (settled.openTable key).map (·, after)
    | _ => none

def readLine (bound room : Nat) (state : State) (cs : List Char) : Reading State :=
  match readKey bound cs with
  | some (key, '=' :: rest) =>
    match readValue bound room (skipSpace rest) with
    | .error fault => .error fault
    | .ok (value, after) => (orMalformed (state.putLine key value)).map (·, after)
  | _ => .error .malformed

/-- A statement: a header, a key line, or nothing before a comment. -/
def readStatement (bound room : Nat) (state : State) (cs : List Char) : Reading State :=
  match cs with
  | [] => .ok (state, [])
  | '#' :: _ => .ok (state, cs)
  | '[' :: rest => orMalformed (readHeader bound state rest)
  | c :: _ =>
    if isBareKeyChar c || c = '"' || c = '\'' then readLine bound room state cs
    else .error .malformed

/-- Reads statements, each on a line of its own, to the end. -/
def readStatements : Nat → Nat → State → List Char → Except Fault State
  | 0, _, _, _ => .error .malformed
  | bound + 1, room, state, cs =>
    match skipSpace cs with
    | [] => .ok state
    | '\n' :: rest => readStatements bound room state rest
    | statement =>
      match readStatement bound room state statement with
      | .error fault => .error fault
      | .ok (next, rest) =>
        match skipComment (skipSpace rest) with
        | none => .error .malformed
        | some [] => .ok next
        | some ('\n' :: after) => readStatements bound room next after
        | some _ => .error .malformed

/-- Makes line feeds of line ends that have a carriage return too. -/
def joinLineEnds : List Char → List Char
  | '\r' :: '\n' :: rest => '\n' :: joinLineEnds rest
  | c :: rest => c :: joinLineEnds rest
  | [] => []

/-- The fields of a document, where there is so much room for lists and inline tables in each
other. The bound limits the steps of every reader. -/
def readWithin (bound room : Nat) (text : List Char) : Except Fault (Entries Value) :=
  (readStatements bound room ⟨[], .unmarked, []⟩ (joinLineEnds text)).map State.fields

def stepsFor (text : List Char) : Nat :=
  2 * text.length + 2

def read (room : Nat) (text : List Char) : Except Fault (Entries Value) :=
  readWithin (stepsFor text) room text

end SignatureIndex.Toml
