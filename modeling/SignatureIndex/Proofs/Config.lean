import SignatureIndex.Config
import SignatureIndex.Proofs.Lowercase

/-! What an accepted configuration looks like: each of its fields is the default or has passed the
check of the field. So every skipped extension starts with a dot and is in lower case already. -/
namespace SignatureIndex

open Text

namespace Checked

variable {α β : Type}

theorem exists_of_seq {first : Checked (α → β)} {second : Checked α} {result : β}
    (h : first <*> second = .valid result) :
    ∃ f value, first = .valid f ∧ second = .valid value ∧ f value = result := by
  change both first second = .valid result at h
  cases first with
  | invalid complaints => cases second <;> cases h
  | valid f =>
      cases second with
      | invalid complaints => cases h
      | valid value =>
          cases h
          exact ⟨f, value, rfl, rfl, rfl⟩

theorem exists_of_map {f : α → β} {check : Checked α} {result : β}
    (h : f <$> check = .valid result) : ∃ value, check = .valid value ∧ f value = result := by
  obtain ⟨g, value, hFunction, hCheck, hResult⟩ := exists_of_seq h
  cases hFunction
  exact ⟨value, hCheck, hResult⟩

/-- A field is absent and has its default, or its value has passed the check. -/
theorem withDefault_eq_valid_iff {name : String} {fallback result : α} {check : Value → Checked α}
    {fields : Entries Value} :
    withDefault name fallback check fields = .valid result ↔
      (fields.get? name = none ∧ result = fallback) ∨
        ∃ value, fields.get? name = some value ∧ check value = .valid result := by
  unfold withDefault
  cases fields.get? name with
  | none => simp [eq_comm]
  | some value =>
      cases hCheck : check value with
      | valid found => simp [inside, hCheck]
      | invalid complaints => simp [inside, hCheck]

end Checked

namespace Config

variable {value : Value} {config : Config}

/-- A configuration only comes from a record whose fields all pass their checks. -/
theorem exists_fields (h : ofValue value = .ok config) :
    ∃ fields, value = .record fields ∧ checkFields fields = .valid config := by
  unfold ofValue at h
  split at h
  · next fields =>
      refine ⟨fields, rfl, ?_⟩
      split at h
      · cases h
      · cases hCheck : checkFields fields with
        | valid found =>
            rw [hCheck] at h
            cases h
            rfl
        | invalid complaints =>
            rw [hCheck] at h
            cases h
  · cases h

/-- The fields are checked apart from each other. -/
theorem checkFields_eq_valid_iff {fields : Entries Value} :
    checkFields fields = .valid config ↔
      Checked.withDefault "gzdoom_pk3_path" none (.nullable .text) fields =
          .valid config.archive ∧
        Checked.withDefault "script_dir" defaultScriptDirectory checkDirectory fields =
          .valid config.scriptDirectory ∧
        Checked.withDefault "skip_extensions" defaultSkippedExtensions checkSkipped fields =
          .valid config.skippedExtensions ∧
        Checked.withDefault "language_id" Document.defaultLanguage .text fields =
          .valid config.language ∧
        Checked.withDefault "nested_gitignore" false .bool fields =
          .valid config.nestedIgnoreFiles ∧
        Checked.noOthers fieldNames fields = .valid () := by
  constructor
  · intro hCheck
    obtain ⟨_, others, hConfig, hOthers, rfl⟩ := Checked.exists_of_seq hCheck
    obtain ⟨_, hFields, rfl⟩ := Checked.exists_of_map hConfig
    obtain ⟨_, nested, hFour, hNested, rfl⟩ := Checked.exists_of_seq hFields
    obtain ⟨_, language, hThree, hLanguage, rfl⟩ := Checked.exists_of_seq hFour
    obtain ⟨_, extensions, hTwo, hExtensions, rfl⟩ := Checked.exists_of_seq hThree
    obtain ⟨_, directory, hOne, hDirectory, rfl⟩ := Checked.exists_of_seq hTwo
    obtain ⟨archive, hArchive, rfl⟩ := Checked.exists_of_map hOne
    exact ⟨hArchive, hDirectory, hExtensions, hLanguage, hNested, hOthers⟩
  · rintro ⟨hArchive, hDirectory, hExtensions, hLanguage, hNested, hOthers⟩
    rw [checkFields, hArchive, hDirectory, hExtensions, hLanguage, hNested, hOthers]
    rfl

/-- Each of the checked extensions is the form of a value that was given. -/
theorem exists_of_mem_checkExtensions {values : List Value} {extensions : List String}
    (h : checkExtensions values = .valid extensions) :
    ∀ extension ∈ extensions, ∃ given, extensionOf? given = some extension := by
  induction values generalizing extensions with
  | nil =>
      cases h
      simp
  | cons first rest ih =>
      rw [checkExtensions] at h
      cases hFirst : extensionOf? first with
      | none =>
          rw [hFirst] at h
          cases h
      | some extension =>
          cases hRest : checkExtensions rest with
          | invalid complaints =>
              rw [hFirst, hRest] at h
              cases h
          | valid others =>
              rw [hFirst, hRest] at h
              cases h
              exact List.forall_mem_cons.mpr ⟨⟨first, hFirst⟩, ih hRest⟩

/-- The form of an extension: a dot in front, and nothing that lower-casing changes. -/
structure IsNormal (extension : String) : Prop where
  dotted : extension.toList.head? = some '.'
  lowered : ∀ c ∈ extension.toList, IsLower c

theorem isLower_dot : IsLower '.' :=
  isLower_of_ascii (by decide) (by decide)

/-- Extensions are in normal form once they were checked. -/
theorem isNormal_of_extensionOf? {given : Value} {extension : String}
    (h : extensionOf? given = some extension) : IsNormal extension := by
  cases given with
  | text s =>
      have hAll : ∀ c ∈ lower (trim s.toList), IsLower c :=
        fun c hc => (isLower_of_mem_lower hc).1
      rw [extensionOf?] at h
      split at h
      · cases h
      · next rest hDotted =>
          cases h
          rw [hDotted] at hAll
          exact ⟨by simp, by simpa using hAll⟩
      · cases h
        refine ⟨by simp, ?_⟩
        rw [String.toList_ofList]
        exact List.forall_mem_cons.mpr ⟨isLower_dot, hAll⟩
  | _ => cases h

/-- Each skipped extension is the form of a value that was given. -/
theorem exists_of_mem_checkSkipped {given : Value} {extensions : List String}
    (h : checkSkipped given = .valid extensions) :
    ∀ extension ∈ extensions, ∃ given, extensionOf? given = some extension := by
  cases given with
  | list values => exact exists_of_mem_checkExtensions h
  | _ =>
      cases h
      simp

/-- Every skipped extension of an accepted configuration has passed the check. -/
theorem exists_of_mem_skippedExtensions (h : ofValue value = .ok config) :
    ∀ extension ∈ config.skippedExtensions, ∃ given, extensionOf? given = some extension := by
  intro extension hMem
  obtain ⟨fields, -, hFields⟩ := exists_fields h
  obtain ⟨-, -, hSkipped, -⟩ := checkFields_eq_valid_iff.mp hFields
  rcases Checked.withDefault_eq_valid_iff.mp hSkipped with ⟨-, hDefault⟩ | ⟨given, -, hGiven⟩
  · rw [hDefault] at hMem
    obtain rfl := List.mem_singleton.mp hMem
    exact ⟨.text ".txt", by decide +kernel⟩
  · exact exists_of_mem_checkSkipped hGiven extension hMem

/-- Every skipped extension of an accepted configuration is normal. -/
theorem isNormal_of_mem_skippedExtensions (h : ofValue value = .ok config) :
    ∀ extension ∈ config.skippedExtensions, IsNormal extension := by
  intro extension hMem
  obtain ⟨given, hGiven⟩ := exists_of_mem_skippedExtensions h extension hMem
  exact isNormal_of_extensionOf? hGiven

end Config

end SignatureIndex
