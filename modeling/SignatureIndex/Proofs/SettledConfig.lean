import SignatureIndex.Proofs.Config

/-! What a second check makes of a configuration that was accepted. It keeps everything but the
directory of scripts: blanks are taken off that name before slashes are, so a blank right inside the
slashes is left over, and only the second check takes it off. -/
namespace SignatureIndex

open Text

namespace Text

/-- A text stays as it is under trimming exactly if no blank is at its ends. -/
theorem trim_eq_self_iff {cs : List Char} : trim cs = cs ↔ ¬EdgedBy (isBlank · = true) cs := by
  constructor
  · rintro hTrim (⟨c, hHead, hBlank⟩ | ⟨c, hLast, hBlank⟩)
    · exact head?_trim c (hTrim.symm ▸ hHead) hBlank
    · exact getLast?_trim c (hTrim.symm ▸ hLast) hBlank
  · intro hSolid
    exact trim_of_solid (fun c hHead hBlank => hSolid (.inl ⟨c, hHead, hBlank⟩))
      fun c hLast hBlank => hSolid (.inr ⟨c, hLast, hBlank⟩)

theorem lower_eq_nil_iff {cs : List Char} : lower cs = [] ↔ cs = [] := by
  cases cs with
  | nil => exact iff_of_true rfl rfl
  | cons c rest =>
      obtain ⟨form, hForm, -, hLower⟩ := caseFree_isBlank.exists_form [] c rest
      simp [lower, hLower, hForm]

end Text

namespace Config

section Slashes

variable {cs : List Char}

/-- No slash is left at the ends. -/
theorem not_edgedBy_trimSlashes : ¬EdgedBy (· = '/') (trimSlashes cs) := by
  rintro (⟨c, hHead, hSlash⟩ | ⟨c, hLast, hSlash⟩)
  · exact head?_dropEndWhile c hHead (decide_eq_true hSlash)
  · exact getLast?_dropEndWhile c hLast (decide_eq_true hSlash)

/-- Only slashes are taken off. -/
theorem exists_slashes (cs : List Char) :
    ∃ front back, cs = front ++ (trimSlashes cs ++ back) ∧ (∀ c ∈ front, c = '/') ∧
      ∀ c ∈ back, c = '/' := by
  have hFront := List.takeWhile_append_dropWhile (p := fun c : Char => decide (c = '/')) (l := cs)
  refine ⟨cs.takeWhile (· = '/'), ((cs.dropWhile (· = '/')).reverse.takeWhile (· = '/')).reverse,
    ?_, ?_, ?_⟩
  · rw [trimSlashes, dropEndWhile, ← List.reverse_append, List.takeWhile_append_dropWhile,
      List.reverse_reverse, hFront]
  · intro c hc
    simpa using List.mem_takeWhile_imp hc
  · intro c hc
    simpa using List.mem_takeWhile_imp (List.mem_reverse.mp hc)

theorem trimSlashes_isInfix (cs : List Char) : trimSlashes cs <:+: cs := by
  obtain ⟨front, back, hCs, -, -⟩ := exists_slashes cs
  exact ⟨front, back, by rw [List.append_assoc, ← hCs]⟩

theorem trimSlashes_eq_nil_iff : trimSlashes cs = [] ↔ ∀ c ∈ cs, c = '/' := by
  obtain ⟨front, back, hCs, hFront, hBack⟩ := exists_slashes cs
  constructor
  · intro hNil c hc
    rw [hCs, hNil, List.nil_append, List.mem_append] at hc
    exact hc.elim (hFront c) (hBack c)
  · intro hAll
    by_contra hSome
    obtain ⟨c, rest, hCore⟩ := List.exists_cons_of_ne_nil hSome
    have hSlash : c = '/' := hAll c ((trimSlashes_isInfix cs).subset (hCore ▸ List.mem_cons_self))
    exact not_edgedBy_trimSlashes (.inl ⟨c, by rw [hCore]; rfl, hSlash⟩)

theorem trimSlashes_eq_self (h : ¬EdgedBy (· = '/') cs) : trimSlashes cs = cs := by
  have hReverse : cs.reverse.dropWhile (· = '/') = cs.reverse := by
    refine dropWhile_eq_self fun c hc hSlash => h (.inr ⟨c, ?_, of_decide_eq_true hSlash⟩)
    rwa [List.head?_reverse] at hc
  rw [trimSlashes, dropWhile_eq_self fun c hc hSlash => h (.inl ⟨c, hc, of_decide_eq_true hSlash⟩),
    dropEndWhile, hReverse, List.reverse_reverse]

/-- A text that starts with slashes and a blank behind them. -/
def OpensRecessed (cs : List Char) : Prop :=
  ∃ (count : Nat) (b : Char), isBlank b = true ∧ List.replicate (count + 1) '/' ++ [b] <+: cs

/-- A blank stands right inside the slashes at one of the ends. -/
def Recessed (cs : List Char) : Prop :=
  OpensRecessed cs ∨ OpensRecessed cs.reverse

theorem slash_not_isBlank : ¬isBlank '/' = true := by
  decide

/-- Behind the slashes that a solid text starts with, a blank comes next exactly if it is first
without them. -/
theorem opensRecessed_iff {outer core rest : List Char} (hOuter : ∀ c ∈ outer, c = '/')
    (hCore : core ≠ []) (hInner : ∀ c ∈ core.head?, c ≠ '/')
    (hSolid : ∀ c ∈ (outer ++ (core ++ rest)).head?, ¬isBlank c = true) :
    OpensRecessed (outer ++ (core ++ rest)) ↔ ∃ b ∈ core.head?, isBlank b = true := by
  obtain ⟨first, core, rfl⟩ := List.exists_cons_of_ne_nil hCore
  have hFirst : first ≠ '/' := hInner first rfl
  constructor
  · rintro ⟨count, b, hBlank, more, hMore⟩
    have hNotSlash : b ≠ '/' := fun hSlash => slash_not_isBlank (hSlash ▸ hBlank)
    rw [List.append_assoc, List.singleton_append, List.cons_append] at hMore
    have hSlashes : ∀ c ∈ List.replicate (count + 1) '/', c = '/' :=
      fun c hc => List.eq_of_mem_replicate hc
    obtain ⟨-, rfl, -⟩ := splitFirst_unique hSlashes hNotSlash hOuter hFirst hMore
    exact ⟨b, rfl, hBlank⟩
  · rintro ⟨b, hHead, hBlank⟩
    obtain rfl : first = b := Option.some.inj hHead
    cases outer with
    | nil => exact absurd hBlank (hSolid first rfl)
    | cons slash outer =>
        refine ⟨outer.length, first, hBlank, core ++ rest, ?_⟩
        rw [← List.eq_replicate_iff.mpr ⟨List.length_cons, hOuter⟩]
        simp

/-- A text is recessed exactly if blanks come out when its slashes are trimmed. -/
theorem recessed_iff (hSolid : ¬EdgedBy (isBlank · = true) cs) (hCore : trimSlashes cs ≠ []) :
    Recessed cs ↔ EdgedBy (isBlank · = true) (trimSlashes cs) := by
  obtain ⟨front, back, hCs, hFront, hBack⟩ := exists_slashes cs
  have hReverse : cs.reverse = back.reverse ++ ((trimSlashes cs).reverse ++ front.reverse) := by
    rw [← List.reverse_append, ← List.reverse_append, List.append_assoc, ← hCs]
  refine or_congr ?_ ?_
  · have hHead := fun c hc hBlank => hSolid (.inl ⟨c, hc, hBlank⟩)
    rw [hCs] at hHead
    nth_rewrite 1 [hCs]
    exact opensRecessed_iff hFront hCore
      (fun c hc hSlash => not_edgedBy_trimSlashes (.inl ⟨c, hc, hSlash⟩)) hHead
  · have hLast := fun c hc hBlank => hSolid (.inr ⟨c, hc, hBlank⟩)
    rw [← List.head?_reverse, hReverse] at hLast
    rw [hReverse, ← List.head?_reverse]
    refine opensRecessed_iff (fun c hc => hBack c (List.mem_reverse.mp hc)) (by simpa using hCore)
      (fun c hc hSlash => ?_) hLast
    rw [List.head?_reverse] at hc
    exact not_edgedBy_trimSlashes (.inr ⟨c, hc, hSlash⟩)

end Slashes

section Fields

variable {value : Value} {config : Config}

/-- A directory is refused if nothing but slashes and blanks is given, and settled otherwise. -/
theorem checkDirectory_text (s : String) :
    (trimSlashes (trim s.toList) = [] ∧
      checkDirectory (.text s) =
        .fail (.refused "script_dir must be a non-empty directory name")) ∨
    trimSlashes (trim s.toList) ≠ [] ∧
      checkDirectory (.text s) =
        .valid (String.ofList (lower (trimSlashes (trim s.toList)))) := by
  by_cases hNil : trimSlashes (trim s.toList) = []
  · refine .inl ⟨hNil, ?_⟩
    simp only [checkDirectory, Checked.text, hNil]
    rfl
  · refine .inr ⟨hNil, ?_⟩
    obtain ⟨c, rest, hLower⟩ := List.exists_cons_of_ne_nil (mt lower_eq_nil_iff.mp hNil)
    simp only [checkDirectory, Checked.text, hLower]

/-- A directory only comes from a text that holds more than slashes and blanks. -/
theorem exists_text_of_checkDirectory {given : Value} {directory : String}
    (h : checkDirectory given = .valid directory) :
    ∃ s, given = .text s ∧ trimSlashes (trim s.toList) ≠ [] ∧
      directory.toList = lower (trimSlashes (trim s.toList)) := by
  cases given with
  | text s =>
      rcases checkDirectory_text s with ⟨-, hFail⟩ | ⟨hCore, hValid⟩
      · rw [hFail] at h
        cases h
      · rw [hValid] at h
        rw [← Checked.valid.inj h, String.toList_ofList]
        exact ⟨s, rfl, hCore, rfl⟩
  | _ => cases h

/-- The check keeps the default directory. -/
theorem defaultScriptDirectory_kept :
    trimSlashes (trim defaultScriptDirectory.toList) ≠ [] ∧
      defaultScriptDirectory.toList =
        lower (trimSlashes (trim defaultScriptDirectory.toList)) ∧
      trim defaultScriptDirectory.toList = defaultScriptDirectory.toList := by
  decide +kernel

/-- The directory of an accepted configuration is made from a text, the default one too. -/
theorem exists_text_of_ofValue (h : ofValue value = .ok config) :
    ∃ s : String, trimSlashes (trim s.toList) ≠ [] ∧
      config.scriptDirectory.toList = lower (trimSlashes (trim s.toList)) := by
  obtain ⟨fields, -, hFields⟩ := exists_fields h
  obtain ⟨-, hDirectory, -⟩ := checkFields_eq_valid_iff.mp hFields
  rcases Checked.withDefault_eq_valid_iff.mp hDirectory with ⟨-, hDefault⟩ | ⟨given, -, hGiven⟩
  · obtain ⟨hCore, hLower, -⟩ := defaultScriptDirectory_kept
    exact ⟨defaultScriptDirectory, hCore, hDefault ▸ hLower⟩
  · obtain ⟨s, -, hText⟩ := exists_text_of_checkDirectory hGiven
    exact ⟨s, hText⟩

/-- The directory starts or ends with a blank exactly if it was given with a blank right inside of
slashes. -/
theorem edgedBy_scriptDirectory_iff (h : ofValue value = .ok config) :
    EdgedBy (isBlank · = true) config.scriptDirectory.toList ↔
      ∃ s, value.field? "script_dir" = some (.text s) ∧ Recessed (trim s.toList) := by
  obtain ⟨fields, rfl, hFields⟩ := exists_fields h
  obtain ⟨-, hDirectory, -⟩ := checkFields_eq_valid_iff.mp hFields
  rw [Value.field?]
  rcases Checked.withDefault_eq_valid_iff.mp hDirectory with
    ⟨hNone, hDefault⟩ | ⟨given, hSome, hGiven⟩
  · rw [hNone, hDefault]
    refine iff_of_false (trim_eq_self_iff.mp defaultScriptDirectory_kept.2.2) ?_
    rintro ⟨s, hSome, -⟩
    cases hSome
  · obtain ⟨s, rfl, hCore, hLower⟩ := exists_text_of_checkDirectory hGiven
    have hSolid : ¬EdgedBy (isBlank · = true) (trim s.toList) :=
      trim_eq_self_iff.mp (trim_trim s.toList)
    rw [hLower, caseFree_isBlank.edgedBy_lower, ← recessed_iff hSolid hCore, hSome]
    simp

/-- An extension that passed the check has no blank around it. -/
theorem trim_of_extensionOf? {given : Value} {extension : String}
    (h : extensionOf? given = some extension) : trim extension.toList = extension.toList := by
  cases given with
  | text s =>
      have hSolid : ¬EdgedBy (isBlank · = true) (lower (trim s.toList)) := by
        rw [caseFree_isBlank.edgedBy_lower]
        exact trim_eq_self_iff.mp (trim_trim s.toList)
      rw [extensionOf?] at h
      split at h
      · cases h
      · next rest hDotted =>
          rw [hDotted, ← trim_eq_self_iff] at hSolid
          rw [← Option.some.inj h, String.toList_ofList, hSolid]
      · next cs hEmpty _ =>
          rw [← Option.some.inj h, String.toList_ofList, trim_eq_self_iff]
          rintro (⟨c, hHead, hBlank⟩ | ⟨c, hLast, hBlank⟩)
          · obtain rfl : '.' = c := Option.some.inj hHead
            exact absurd hBlank (by decide)
          · rw [List.getLast?_cons_of_ne_nil hEmpty] at hLast
            exact hSolid (.inr ⟨c, hLast, hBlank⟩)
  | _ => cases h

/-- The check of an extension gives an extension that it keeps. -/
theorem extensionOf?_again {given : Value} {extension : String}
    (h : extensionOf? given = some extension) :
    extensionOf? (.text extension) = some extension := by
  obtain ⟨hDotted, hLowered⟩ := isNormal_of_extensionOf? h
  obtain ⟨rest, hRest⟩ := List.head?_eq_some_iff.mp hDotted
  rw [extensionOf?, trim_of_extensionOf? h, lower_of_isLower hLowered, hRest]
  simp only
  rw [← hRest, String.ofList_toList]

/-- Extensions that were checked pass the check again as they are. -/
theorem checkExtensions_again {extensions : List String}
    (h : ∀ extension ∈ extensions, ∃ given, extensionOf? given = some extension) :
    checkExtensions (extensions.map .text) = .valid extensions := by
  induction extensions with
  | nil => rfl
  | cons extension rest ih =>
      obtain ⟨⟨given, hGiven⟩, hRest⟩ := List.forall_mem_cons.mp h
      rw [List.map_cons, checkExtensions, extensionOf?_again hGiven, ih hRest]

/-- Checked again, an accepted configuration keeps everything but its directory. -/
theorem ofValue_toValue (h : ofValue value = .ok config) :
    (∀ directory, checkDirectory (.text config.scriptDirectory) = .valid directory →
      ofValue config.toValue = .ok { config with scriptDirectory := directory }) ∧
    ∀ problem, checkDirectory (.text config.scriptDirectory) = .fail problem →
      ofValue config.toValue = .error (.complaints [⟨["script_dir"], problem⟩]) := by
  obtain ⟨fields, hRecord⟩ : ∃ fields, config.toValue = .record fields := ⟨_, rfl⟩
  have hList : extensionsNotList fields = false := by
    rw [← Value.record.inj hRecord]
    rfl
  have hArchive : Checked.withDefault "gzdoom_pk3_path" none (.nullable .text) fields =
      .valid config.archive := by
    rw [← Value.record.inj hRecord, Checked.withDefault_eq_valid_iff]
    refine .inr ⟨_, rfl, ?_⟩
    cases config.archive with
    | none => rfl
    | some path => rfl
  have hDirectory : Checked.withDefault "script_dir" defaultScriptDirectory checkDirectory fields =
      .inside "script_dir" (checkDirectory (.text config.scriptDirectory)) := by
    rw [← Value.record.inj hRecord]
    rfl
  have hExtensions :
      Checked.withDefault "skip_extensions" defaultSkippedExtensions checkSkipped fields =
        .valid config.skippedExtensions := by
    rw [← Value.record.inj hRecord, Checked.withDefault_eq_valid_iff]
    exact .inr ⟨_, rfl, checkExtensions_again (exists_of_mem_skippedExtensions h)⟩
  have hLanguage : Checked.withDefault "language_id" Document.defaultLanguage .text fields =
      .valid config.language := by
    rw [← Value.record.inj hRecord]
    rfl
  have hNested : Checked.withDefault "nested_gitignore" false .bool fields =
      .valid config.nestedIgnoreFiles := by
    rw [← Value.record.inj hRecord]
    rfl
  have hOthers : Checked.noOthers fieldNames fields = .valid () := by
    rw [← Value.record.inj hRecord]
    rfl
  rw [hRecord, ofValue, hList]
  simp only [checkFields, hArchive, hDirectory, hExtensions, hLanguage, hNested, hOthers]
  refine ⟨fun directory hValid => ?_, fun problem hFail => ?_⟩
  · rw [hValid]
    rfl
  · rw [hFail]
    exact congrArg (fun found => (.error (.complaints found) : Except ConfigFault Config))
      (List.mergeSort_singleton _)

/-- The directory of an accepted configuration has a name, no slash around it and no capitals. -/
theorem scriptDirectory_of_ofValue (h : ofValue value = .ok config) :
    config.scriptDirectory ≠ "" ∧ ¬EdgedBy (· = '/') config.scriptDirectory.toList ∧
      ∀ c ∈ config.scriptDirectory.toList, IsLower c := by
  obtain ⟨s, hCore, hText⟩ := exists_text_of_ofValue h
  rw [hText, (caseFree_of_ascii (by decide)).edgedBy_lower]
  refine ⟨fun hEmpty => ?_, not_edgedBy_trimSlashes, fun c hc => (isLower_of_mem_lower hc).1⟩
  rw [hEmpty] at hText
  exact hCore (lower_eq_nil_iff.mp hText.symm)

/-- Checked again, the directory loses what is around it: no capitals are left to change. If only
slashes are left without the blanks, it is refused. -/
theorem ofValue_toValue_cases (h : ofValue value = .ok config) :
    ((∃ c ∈ trim config.scriptDirectory.toList, c ≠ '/') ∧
      ofValue config.toValue = .ok { config with
        scriptDirectory := String.ofList (trimSlashes (trim config.scriptDirectory.toList)) }) ∨
    (∀ c ∈ trim config.scriptDirectory.toList, c = '/') ∧
      ofValue config.toValue = .error (.complaints [⟨["script_dir"],
        .refused "script_dir must be a non-empty directory name"⟩]) := by
  obtain ⟨hKeeps, hRefuses⟩ := ofValue_toValue h
  rcases checkDirectory_text config.scriptDirectory with ⟨hNil, hFail⟩ | ⟨hCore, hValid⟩
  · exact .inr ⟨trimSlashes_eq_nil_iff.mp hNil, hRefuses _ hFail⟩
  · obtain ⟨-, -, hLower⟩ := scriptDirectory_of_ofValue h
    have hInside := (trimSlashes_isInfix _).trans (trim_isInfix config.scriptDirectory.toList)
    rw [lower_of_isLower fun c hc => hLower c (hInside.subset hc)] at hValid
    refine .inl ⟨?_, hKeeps _ hValid⟩
    by_contra hNone
    push Not at hNone
    exact hCore (trimSlashes_eq_nil_iff.mpr hNone)

/-- The second check keeps the configuration exactly if there is nothing to take off. -/
theorem ofValue_toValue_eq_self_iff (h : ofValue value = .ok config) :
    ofValue config.toValue = .ok config ↔
      ¬EdgedBy (isBlank · = true) config.scriptDirectory.toList := by
  obtain ⟨hName, hSlash, -⟩ := scriptDirectory_of_ofValue h
  rw [← trim_eq_self_iff]
  rcases ofValue_toValue_cases h with ⟨-, hAgain⟩ | ⟨hAll, hAgain⟩
  · rw [hAgain]
    constructor
    · intro hSame
      have hKept : trimSlashes (trim config.scriptDirectory.toList) =
          config.scriptDirectory.toList := by
        rw [← String.toList_ofList (l := trimSlashes _)]
        exact congrArg (fun config => config.scriptDirectory.toList) (Except.ok.inj hSame)
      have hLength := (trimSlashes_isInfix (trim config.scriptDirectory.toList)).length_le
      rw [hKept] at hLength
      exact (trim_isInfix _).eq_of_length_le hLength
    · intro hTrim
      rw [hTrim, trimSlashes_eq_self hSlash, String.ofList_toList]
  · rw [hAgain]
    refine iff_of_false (fun hSame => by cases hSame) fun hTrim => ?_
    -- a name of slashes alone would start with one
    rw [hTrim, ← trimSlashes_eq_nil_iff, trimSlashes_eq_self hSlash] at hAll
    exact hName (String.toList_eq_nil_iff.mp hAll)

end Fields

/-- What an accepted configuration is, and what a second check makes of it. Its extensions have a
dot in front, no blanks around them and no capitals; its directory has a name, no slashes around it
and no capitals. The second check gives the same configuration exactly if the directory neither
starts nor ends with a blank, and it does so exactly if it was given with a blank right inside of
slashes. In any case the second check only takes more off the directory, and refuses it if nothing
is left. -/
theorem settled_unless_recessed (value : Value) (config : Config)
    (h : ofValue value = .ok config) :
    (∀ extension ∈ config.skippedExtensions, extension.toList.head? = some '.' ∧
      ¬EdgedBy (isBlank · = true) extension.toList ∧
      lower extension.toList = extension.toList) ∧
    (config.scriptDirectory ≠ "" ∧ ¬EdgedBy (· = '/') config.scriptDirectory.toList ∧
      lower config.scriptDirectory.toList = config.scriptDirectory.toList) ∧
    (ofValue config.toValue = .ok config ↔
      ¬EdgedBy (isBlank · = true) config.scriptDirectory.toList) ∧
    (EdgedBy (isBlank · = true) config.scriptDirectory.toList ↔
      ∃ s, value.field? "script_dir" = some (.text s) ∧ Recessed (trim s.toList)) ∧
    (((∃ c ∈ trim config.scriptDirectory.toList, c ≠ '/') ∧
      ofValue config.toValue = .ok { config with
        scriptDirectory := String.ofList (trimSlashes (trim config.scriptDirectory.toList)) }) ∨
    (∀ c ∈ trim config.scriptDirectory.toList, c = '/') ∧
      ofValue config.toValue = .error (.complaints [⟨["script_dir"],
        .refused "script_dir must be a non-empty directory name"⟩])) := by
  obtain ⟨hName, hSlash, hLower⟩ := scriptDirectory_of_ofValue h
  refine ⟨fun extension hMem => ?_, ⟨hName, hSlash, lower_of_isLower hLower⟩,
    ofValue_toValue_eq_self_iff h, edgedBy_scriptDirectory_iff h, ofValue_toValue_cases h⟩
  obtain ⟨given, hGiven⟩ := exists_of_mem_skippedExtensions h extension hMem
  obtain ⟨hDotted, hLowered⟩ := isNormal_of_extensionOf? hGiven
  exact ⟨hDotted, trim_eq_self_iff.mp (trim_of_extensionOf? hGiven), lower_of_isLower hLowered⟩

/-- Blanks outside of the slashes, capitals, and an extension without a dot: the second check keeps
the result. -/
theorem padded_config_settled :
    let value : Value := .record [("script_dir", .text "\t//Scripts/A/ "),
      ("skip_extensions", .list [.text " TXT ", .text ".Md"])]
    let config : Config := { default with
      scriptDirectory := "scripts/a", skippedExtensions := [".txt", ".md"] }
    ofValue value = .ok config ∧ ofValue config.toValue = .ok config := by
  intro value config
  have hValue : ofValue value = .ok config := by decide +kernel
  refine ⟨hValue, (settled_unless_recessed value config hValue).2.2.1.mpr ?_⟩
  rw [← trim_eq_self_iff]
  decide

/-- A blank right inside of slashes is left over, so the directory is no bare name, and the second
check gives another configuration. Between two slashes the blank is all that is left, and the second
check refuses the directory. -/
theorem recessed_directory_not_settled :
    let name (directory : String) : Value := .record [("script_dir", .text directory)]
    ofValue (name "/ zscript") = .ok { default with scriptDirectory := " zscript" } ∧
      ofValue (toValue { default with scriptDirectory := " zscript" }) = .ok default ∧
      ofValue (name "/ /") = .ok { default with scriptDirectory := " " } ∧
      ofValue (toValue { default with scriptDirectory := " " }) =
        .error (.complaints [⟨["script_dir"],
          .refused "script_dir must be a non-empty directory name"⟩]) := by
  decide +kernel

end Config

end SignatureIndex
