import SignatureIndex.Log
import SignatureIndex.Signature
import SignatureIndex.Text.Quoted

/-! What a scan tells about its progress, line by line. -/
namespace SignatureIndex.Scan

/-- One step of a scan worth telling. Lines count from one and name the first physical line of a
logical one. -/
inductive Event where
  | started (source : Option String)
  | header (line : Nat) (type : Enclosing)
  | elseIf (line : Nat) (text : List Char)
  | outsideMembers (line depth : Nat) (text : List Char)
  | partialDeclaration (line : Nat) (text : List Char)
  | reservedName (name : String) (line : Nat) (text : List Char)
  | opened (line depth : Nat)
  | closed (line depth : Nat)
  | left (line : Nat) (type : Enclosing)
  | found (label : String) (line depth : Nat)
  | unterminated (line : Nat)
  | finished (count : Nat) (source : Option String)
  deriving DecidableEq, Repr

namespace Event

/-- The name of a script in messages; a script without one, or with an empty one, is a text. -/
def sourceName : Option String → String
  | none => "<text>"
  | some name => if name = "" then "<text>" else name

def message : Event → String
  | started source => "Parsing " ++ sourceName source
  | header line type => "Line " ++ toString line ++ " detected " ++ type.describe
  | elseIf line text =>
    "Line " ++ toString line ++ " skipped (else if): " ++ String.ofList (Text.quoted text)
  | outsideMembers line depth text =>
    "Line " ++ toString line ++ " skipped (depth " ++ toString depth ++ "): " ++
      String.ofList (Text.quoted text)
  | partialDeclaration line text =>
    "Partial function match at line " ++ toString line ++ ": " ++ String.ofList (Text.quoted text)
  | reservedName name line text =>
    "Skipped reserved name " ++ Text.quotedString name ++ " at line " ++ toString line ++ ": " ++
      String.ofList (Text.quoted text)
  | opened line depth =>
    "Line " ++ toString line ++ " brace depth increased to " ++ toString depth
  | closed line depth =>
    "Line " ++ toString line ++ " brace depth decreased to " ++ toString depth
  | left line type => "Line " ++ toString line ++ " exited " ++ type.describe
  | found label line depth =>
    "Found function: " ++ label ++ " at line " ++ toString line ++ " (depth " ++
      toString depth ++ ")"
  | unterminated line => "Discarded unterminated statement starting at line " ++ toString line
  | finished count source =>
    "Parsed " ++ toString count ++ " functions from " ++ sourceName source

/-- The part of the program that tells an event. -/
def channel : Event → String
  | partialDeclaration .. => "parse.declarations"
  | reservedName .. => "parse.declarations"
  | _ => "parse.scanner"

def toLogLine (event : Event) : LogLine :=
  ⟨.debug, event.channel, event.message⟩

end Event

end SignatureIndex.Scan
