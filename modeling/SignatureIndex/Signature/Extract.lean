import SignatureIndex.Declaration
import SignatureIndex.Signature.Parameters

/-! From a declaration to a signature. -/
namespace SignatureIndex

open Text

inductive Rejection where
  /-- The line holds no declaration. -/
  | noDeclaration
  /-- The declared name is reserved. -/
  | reserved (name : String)
  deriving DecidableEq, Repr

namespace Signature

/-- The return type of a declaration, with the default for an empty one. -/
def returnTypeOf (declaration : Declaration) : String :=
  if declaration.returnType = "" then defaultReturnType else declaration.returnType

/-- The signature that a declaration stands for. -/
def ofDeclaration (declaration : Declaration) (enclosing : Option Enclosing)
    (source : Option String) (line : Option Int) : Signature where
  name := declaration.name
  key := keyOf declaration.name
  returnType := returnTypeOf declaration
  parameters := Parameter.list declaration.params.toList
  label := returnTypeOf declaration ++ " " ++ declaration.name ++ "(" ++ declaration.params ++ ")"
  documentation := documentationIn enclosing
  qualifiers := declaration.qualifiers
  source := source
  line := line

def extract (text : List Char) (enclosing : Option Enclosing) (source : Option String)
    (line : Option Int) : Except Rejection Signature :=
  match Declaration.read? text with
  | none => .error .noDeclaration
  | some declaration =>
    if declaration.name ∈ Declaration.reservedNames then .error (.reserved declaration.name)
    else .ok (ofDeclaration declaration enclosing source line)

/-- The signature declared on a logical line, without the reason why there is none. -/
def extract? (text : List Char) (enclosing : Option Enclosing) (source : Option String)
    (line : Option Int) : Option Signature :=
  (extract text enclosing source line).toOption

end Signature

end SignatureIndex
