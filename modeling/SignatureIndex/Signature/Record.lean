import SignatureIndex.Checked
import SignatureIndex.Signature

/-! Signatures as records: the form in which they are exported, and the check of a record that
claims to be one. Unknown fields are ignored, and all fields but name, key and label may be
absent. -/
namespace SignatureIndex

def Value.ofText? : Option String → Value
  | none => .null
  | some s => .text s

def Parameter.toValue (parameter : Parameter) : Value :=
  .record [
    ("name", .text parameter.name),
    ("declared_type", .text parameter.declaredType),
    ("position", .integer parameter.position)]

def Parameter.ofValue : Value → Checked Parameter :=
  Checked.record fun fields =>
    Parameter.mk <$> Checked.required "name" .text fields
      <*> Checked.required "declared_type" .text fields
      <*> Checked.required "position" .integer fields

namespace Signature

def toValue (signature : Signature) : Value :=
  .record [
    ("name", .text signature.name),
    ("key", .text signature.key),
    ("return_type", .text signature.returnType),
    ("parameters", .list (signature.parameters.map Parameter.toValue)),
    ("label", .text signature.label),
    ("documentation", .text signature.documentation),
    ("qualifiers", .list (signature.qualifiers.map .text)),
    ("source", .ofText? signature.source),
    ("line", match signature.line with
      | none => .null
      | some n => .integer n)]

def ofValue : Value → Checked Signature :=
  Checked.record fun fields =>
    Signature.mk <$> Checked.required "name" .text fields
      <*> Checked.required "key" .text fields
      <*> Checked.withDefault "return_type" defaultReturnType .text fields
      <*> Checked.withDefault "parameters" [] (.list Parameter.ofValue) fields
      <*> Checked.required "label" .text fields
      <*> Checked.withDefault "documentation" plainDocumentation .text fields
      <*> Checked.withDefault "qualifiers" [] (.list .text) fields
      <*> Checked.withDefault "source" none (.nullable .text) fields
      <*> Checked.withDefault "line" none (.nullable .integer) fields

end Signature

def TypeKind.ofKeyword? (keyword : String) : Option TypeKind :=
  [TypeKind.classType, TypeKind.structType].find? (·.keyword = keyword)

def TypeKind.ofValue : Value → Checked TypeKind
  | .text s =>
    match TypeKind.ofKeyword? s with
    | some kind => .valid kind
    | none => .fail .notChoice
  | _ => .fail .notChoice

/-- A record as an enclosing type. -/
def Enclosing.ofValue : Value → Checked Enclosing :=
  Checked.record fun fields =>
    Enclosing.mk <$> Checked.required "kind" TypeKind.ofValue fields
      <*> Checked.required "name" .text fields

end SignatureIndex
