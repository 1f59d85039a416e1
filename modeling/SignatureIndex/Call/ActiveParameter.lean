import SignatureIndex.Signature
import SignatureIndex.Text.Blank
import SignatureIndex.Text.Letter

/-! Which parameter an argument text has reached. Arguments are cut at commas. A named argument
takes the parameter it names, in full or by a start of the name, and the next argument without a
name goes on from there; no parameter is taken twice. -/
namespace SignatureIndex.Call

open Text

/-- The parameter that a name, possibly cut short, refers to: the first whose name is equal to it
up to case, else the first whose name starts with it. A blank name refers to none. -/
def matchParameter? (names : List String) (candidate : List Char) : Option Nat :=
  let folded := fold (trim candidate)
  if folded.isEmpty then none
  else
    let foldedNames := names.map fun name => fold name.toList
    (foldedNames.findIdx? (· = folded)).or (foldedNames.findIdx? (folded.isPrefixOf ·))

/-- The text before the first colon, if there is a colon. -/
def beforeColon? (slot : List Char) : Option (List Char) :=
  if slot.contains ':' then some (slot.takeWhile (· ≠ ':')) else none

/-- The least index from `start` on that is not taken. Among one more index than there are taken
ones, one is free. -/
def nextFree (taken : List Nat) (start : Nat) : Nat :=
  ((List.range' start (taken.length + 1)).find? fun index => !taken.contains index).getD start

/-- The parameters taken so far, and the index at which an argument without a name is tried. -/
structure Assignment where
  taken : List Nat
  next : Nat

def Assignment.take (names : List String) (state : Assignment) (slot : List Char) : Assignment :=
  match beforeColon? slot with
  | some name =>
    match matchParameter? names name with
    | some index => ⟨index :: state.taken, index + 1⟩
    | none => state
  | none =>
    let index := nextFree state.taken state.next
    ⟨index :: state.taken, index + 1⟩

/-- Whether a text starts like a name. -/
def startsName (text : List Char) : Bool :=
  text.head?.any fun c => isLetter c || c = '_'

/-- The parameter that the argument being typed names, by the text before its colon or by all of
it. -/
def namedByCurrent? (names : List String) (current : List Char) : Option Nat :=
  let candidate := trim ((beforeColon? current).getD current)
  if startsName candidate then matchParameter? names candidate else none

/-- The index of the parameter being typed; it may lie beyond the last one. -/
def activeParameter (names : List String) (arguments : List Char) : Nat :=
  let slots := List.splitOn ',' arguments
  let supplied := slots.dropLast
  let current := slots.getLast?.getD []
  let state := supplied.foldl (Assignment.take names) ⟨[], 0⟩
  (namedByCurrent? names current).getD (nextFree state.taken state.next)

end SignatureIndex.Call
