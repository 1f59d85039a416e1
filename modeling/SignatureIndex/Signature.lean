import SignatureIndex.Text.CaseFold

/-! Function signatures: what a declaration says about a function, as an editor shows it. -/
namespace SignatureIndex

/-- The two kinds of type that have member functions. -/
inductive TypeKind where
  | classType
  | structType
  deriving DecidableEq, Repr

def TypeKind.keyword : TypeKind → String
  | .classType => "class"
  | .structType => "struct"

structure Enclosing where
  kind : TypeKind
  name : String
  deriving DecidableEq, Repr

/-- Kind and name of the type, as documentation shows them. -/
def Enclosing.describe (type : Enclosing) : String :=
  type.kind.keyword ++ " " ++ type.name

/-- One parameter of a function; positions count from zero. -/
structure Parameter where
  name : String
  declaredType : String
  position : Int
  deriving DecidableEq, Repr

/-- What is known about a function. `source` and `line` tell where it was declared. -/
structure Signature where
  name : String
  key : String
  returnType : String
  parameters : List Parameter
  label : String
  documentation : String
  qualifiers : List String
  source : Option String
  line : Option Int
  deriving DecidableEq, Repr

namespace Signature

def defaultReturnType : String := "void"

def plainDocumentation : String := "Built-in ZScript function"

/-- The documentation of a function declared in a type, or outside of any. -/
def documentationIn : Option Enclosing → String
  | none => plainDocumentation
  | some type => "Built-in function. Defined in: " ++ type.describe

/-- The key under which every spelling of a name is found. -/
def keyOf (name : String) : String :=
  Text.foldString name

def parameterNames (signature : Signature) : List String :=
  signature.parameters.map (·.name)

end Signature

structure Completion where
  name : String
  label : String
  documentation : String
  deriving DecidableEq, Repr

def Signature.completion (signature : Signature) : Completion :=
  ⟨signature.name, signature.label, signature.documentation⟩

end SignatureIndex
