import SignatureIndex.Scan
import SignatureIndex.Signature.Record

/-! Scripts whose source, or declarations whose line, comes as a value of a data format. The values
are checked only for the sake of a signature: where none is found, nothing is refused. -/
namespace SignatureIndex

/-- The signature with the source and the line that values stand for. -/
def Signature.withOrigin (source line : Value) (signature : Signature) : Checked Signature :=
  (fun source line => { signature with source, line }) <$>
    Checked.inside "source" (.nullable .text source) <*>
      Checked.inside "line" (.nullable .integer line)

/-- The signature declared on a logical line, with its origin as values. -/
def Signature.extractFrom (text : List Char) (enclosing : Option Enclosing) (source line : Value) :
    Checked (Option Signature) :=
  match Signature.extract? text enclosing none none with
  | none => .valid none
  | some signature => some <$> signature.withOrigin source line

namespace Scan

/-- The source that a value stands for, if there are signatures to carry it. -/
def checkSource (signatures : List Signature) (source : Value) : Checked (Option String) :=
  if signatures.isEmpty then .valid none
  else Checked.inside "source" (.nullable .text source)

/-- Reads a whole script with its source as a value. -/
def readScriptFrom (state : State) (script : List Char) (source : Value) : Checked Outcome :=
  readScript state script <$> checkSource (readScript state script none).signatures source

/-- Reads a script by itself, with its source as a value, and stores its signatures; gives the table
and the number of signatures found. -/
def intoTableFrom (table : Table) (script : String) (source : Value) : Checked (Table × Nat) :=
  (fun source =>
      let (filled, count, _) := intoTable table script source
      (filled, count)) <$>
    checkSource (signatures script.toList none) source

end Scan

end SignatureIndex
