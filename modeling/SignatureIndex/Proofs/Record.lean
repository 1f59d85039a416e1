import SignatureIndex.Proofs.Json
import SignatureIndex.Signature.Record

/-! A signature's record stands for the signature, in whatever order its fields come. -/
namespace SignatureIndex

namespace Checked

variable {α : Type} {check : Value → Checked α} {fields : Entries Value} {name : String}
  {value : Value} {result : α}

/-- A field passes its check if it is there with a value that does. -/
theorem required_eq_valid (hField : fields.get? name = some value)
    (hCheck : check value = .valid result) : required name check fields = .valid result := by
  simp only [required, hField, hCheck, inside]

theorem withDefault_eq_valid {fallback : α} (hField : fields.get? name = some value)
    (hCheck : check value = .valid result) :
    withDefault name fallback check fields = .valid result := by
  simp only [withDefault, hField, hCheck, inside]

/-- Items that each pass their check pass it as a list. -/
theorem items_map {items : List α} {toValue : α → Value}
    (h : ∀ item ∈ items, check (toValue item) = .valid item) (index : Nat) :
    Checked.items check index (items.map toValue) = .valid items := by
  induction items generalizing index with
  | nil => rfl
  | cons item rest ih =>
      obtain ⟨hItem, hRest⟩ := List.forall_mem_cons.mp h
      rw [List.map_cons, Checked.items, hItem, ih hRest]
      rfl

/-- A check that finds fields by their names does not depend on their order. -/
theorem record_sortFields {check : Entries Value → Checked α} (hNames : fields.keys.Nodup)
    (h : ∀ sorted : Entries Value,
      (∀ name, sorted.get? name = (fields.get? name).map Json.sortFields) →
        check sorted = .valid result) :
    Checked.record check (Json.sortFields (.record fields)) = .valid result := by
  rw [Json.sortFields, Json.sortFieldsOfFields_eq_map, Checked.record]
  refine h _ fun name => ?_
  rw [← Entries.get?_map]
  refine Entries.get?_eq_of_perm (List.mergeSort_perm _ Json.nameLe) ?_ name
  rw [Entries.keys, ((List.mergeSort_perm _ Json.nameLe).map _).nodup_iff, List.map_map]
  exact hNames

end Checked

namespace Parameter

/-- A parameter is read back from its record with sorted fields. -/
theorem ofValue_sortFields (parameter : Parameter) :
    ofValue (Json.sortFields parameter.toValue) = .valid parameter := by
  unfold ofValue toValue
  refine Checked.record_sortFields (by simp [Entries.keys]) fun fields hFields => ?_
  have hName : Checked.required "name" .text fields = .valid parameter.name :=
    Checked.required_eq_valid (hFields "name") rfl
  have hType : Checked.required "declared_type" .text fields = .valid parameter.declaredType :=
    Checked.required_eq_valid (hFields "declared_type") rfl
  have hPosition : Checked.required "position" .integer fields = .valid parameter.position :=
    Checked.required_eq_valid (hFields "position") rfl
  rw [hName, hType, hPosition]
  rfl

theorem plain_toValue {parameter : Parameter} (h : Json.isWord parameter.position = true) :
    Json.Plain 1 parameter.toValue := by
  refine .record (by simp [Entries.keys]) ?_
  simp only [List.forall_mem_cons, List.not_mem_nil, IsEmpty.forall_iff, implies_true, and_true]
  exact ⟨.text _, .text _, .integer h⟩

end Parameter

namespace Signature

/-- The whole numbers of a signature fit into words. -/
def HasWords (signature : Signature) : Prop :=
  (∀ parameter ∈ signature.parameters, Json.isWord parameter.position = true) ∧
    ∀ n ∈ signature.line, Json.isWord n = true

instance (signature : Signature) : Decidable signature.HasWords :=
  inferInstanceAs (Decidable (_ ∧ _))

/-- A signature is read back from its record with sorted fields. -/
theorem ofValue_sortFields (signature : Signature) :
    ofValue (Json.sortFields signature.toValue) = .valid signature := by
  unfold ofValue toValue
  refine Checked.record_sortFields (by simp [Entries.keys]) fun fields hFields => ?_
  have hName : Checked.required "name" .text fields = .valid signature.name :=
    Checked.required_eq_valid (hFields "name") rfl
  have hKey : Checked.required "key" .text fields = .valid signature.key :=
    Checked.required_eq_valid (hFields "key") rfl
  have hReturn : Checked.withDefault "return_type" defaultReturnType .text fields =
      .valid signature.returnType :=
    Checked.withDefault_eq_valid (hFields "return_type") rfl
  have hParameters : Checked.withDefault "parameters" [] (.list Parameter.ofValue) fields =
      .valid signature.parameters := by
    refine Checked.withDefault_eq_valid (hFields "parameters") ?_
    rw [Json.sortFields, Json.sortFieldsOfItems_eq_map, List.map_map]
    exact Checked.items_map (fun parameter _ => parameter.ofValue_sortFields) 0
  have hLabel : Checked.required "label" .text fields = .valid signature.label :=
    Checked.required_eq_valid (hFields "label") rfl
  have hDocumentation : Checked.withDefault "documentation" plainDocumentation .text fields =
      .valid signature.documentation :=
    Checked.withDefault_eq_valid (hFields "documentation") rfl
  have hQualifiers : Checked.withDefault "qualifiers" [] (.list .text) fields =
      .valid signature.qualifiers := by
    refine Checked.withDefault_eq_valid (hFields "qualifiers") ?_
    rw [Json.sortFields, Json.sortFieldsOfItems_eq_map, List.map_map]
    refine Checked.items_map (fun qualifier _ => ?_) 0
    rfl
  have hSource : Checked.withDefault "source" none (.nullable .text) fields =
      .valid signature.source := by
    refine Checked.withDefault_eq_valid (hFields "source") ?_
    cases signature.source <;> rfl
  have hLine : Checked.withDefault "line" none (.nullable .integer) fields =
      .valid signature.line := by
    refine Checked.withDefault_eq_valid (hFields "line") ?_
    cases signature.line <;> rfl
  rw [hName, hKey, hReturn, hParameters, hLabel, hDocumentation, hQualifiers, hSource, hLine]
  rfl

/-- The record of a signature can be written: it is three levels deep and its numbers are words.
-/
theorem plain_toValue {signature : Signature} (h : signature.HasWords) :
    Json.Plain 3 signature.toValue := by
  have hParameters : Json.Plain 2 (.list (signature.parameters.map Parameter.toValue)) := by
    refine .list fun value hValue => ?_
    obtain ⟨parameter, hParameter, rfl⟩ := List.mem_map.mp hValue
    exact Parameter.plain_toValue (h.1 parameter hParameter)
  have hQualifiers : Json.Plain 2 (.list (signature.qualifiers.map .text)) := by
    refine .list fun value hValue => ?_
    obtain ⟨qualifier, -, rfl⟩ := List.mem_map.mp hValue
    exact .text qualifier
  have hSource : Json.Plain 2 (.ofText? signature.source) := by
    cases signature.source with
    | none => exact .null
    | some source => exact .text source
  refine .record (by simp [Entries.keys]) ?_
  simp only [List.forall_mem_cons, List.not_mem_nil, IsEmpty.forall_iff, implies_true, and_true]
  refine ⟨.text _, .text _, .text _, hParameters, .text _, .text _, hQualifiers, hSource, ?_⟩
  cases hLine : signature.line with
  | none => exact .null
  | some n => exact .integer (h.2 n hLine)

end Signature

end SignatureIndex
