import SignatureIndex.Archive
import SignatureIndex.Proofs.Config
import SignatureIndex.Proofs.Path

/-! Entries with a skipped extension. The extension of an entry is what stands behind the last dot
of its file name, with the dot, where something stands before and behind that dot. So a skipped
extension leaves out the entries whose names end in it only if it has one dot and no slash, and only
if it is not the whole file name; any other skipped extension leaves out nothing. -/
namespace SignatureIndex

open Text

namespace Path

section Suffix

variable {name stem letters : List Char}

/-- What stands behind the last dot is the suffix, with the dot, unless it is empty or the dot comes
first. -/
theorem suffixOf_append (hDot : '.' ∉ letters) : suffixOf (stem ++ '.' :: letters) =
    if stem = [] ∨ letters = [] then [] else '.' :: letters := by
  have hBehind : ∀ c ∈ letters.reverse, decide (c ≠ '.') = true := by
    intro c hc
    rw [List.mem_reverse] at hc
    exact decide_eq_true fun hEq => hDot (hEq ▸ hc)
  have hReverse : (stem ++ '.' :: letters).reverse = letters.reverse ++ '.' :: stem.reverse := by
    simp
  have hTake : (letters.reverse ++ '.' :: stem.reverse).takeWhile (· ≠ '.') = letters.reverse := by
    rw [List.takeWhile_append_of_pos hBehind]
    simp
  have hDrop : (letters.reverse ++ '.' :: stem.reverse).dropWhile (· ≠ '.') =
      '.' :: stem.reverse := by
    rw [List.dropWhile_append_of_pos hBehind]
    simp
  unfold suffixOf
  simp only [hReverse, hTake, hDrop]
  rcases letters.eq_nil_or_concat with rfl | ⟨front, last, rfl⟩
  · simp
  · rcases stem.eq_nil_or_concat with rfl | ⟨earlier, final, rfl⟩
    · simp
    · simp

theorem suffixOf_of_not_mem (hDot : '.' ∉ name) : suffixOf name = [] := by
  have hAll : ∀ c ∈ name.reverse, decide (c ≠ '.') = true := by
    intro c hc
    rw [List.mem_reverse] at hc
    exact decide_eq_true fun hEq => hDot (hEq ▸ hc)
  unfold suffixOf
  simp only [List.takeWhile_eq_self_iff.mpr hAll, List.dropWhile_eq_nil_iff.mpr hAll]
  cases name.reverse <;> rfl

/-- A text with a character splits at the last occurrence of it. -/
theorem exists_split_last {c : Char} (h : c ∈ name) :
    ∃ front back, name = front ++ c :: back ∧ c ∉ back := by
  obtain ⟨back, front, hSplit, hBack⟩ := List.eq_append_cons_of_mem (List.mem_reverse.mpr h)
  refine ⟨front.reverse, back.reverse, ?_, by simpa using hBack⟩
  simpa using congrArg List.reverse hSplit

/-- A suffix has letters behind its only dot. -/
theorem exists_of_suffixOf (h : suffixOf name ≠ []) :
    ∃ letters, suffixOf name = '.' :: letters ∧ letters ≠ [] ∧ '.' ∉ letters ∧
      ∀ c ∈ letters, c ∈ name := by
  by_cases hMem : '.' ∈ name
  · obtain ⟨stem, letters, rfl, hDot⟩ := exists_split_last hMem
    rw [suffixOf_append hDot] at h ⊢
    split at h
    · exact absurd rfl h
    · next hSome =>
        obtain ⟨-, hLetters⟩ := not_or.mp hSome
        refine ⟨letters, if_neg hSome, hLetters, hDot, fun c hc => ?_⟩
        simp [hc]
  · exact absurd (suffixOf_of_not_mem hMem) h

end Suffix

section FileName

variable {directory file letters : List Char}

/-- The last part of a path is its file name. -/
theorem name_ofString (hDirectory : directory = [] ∨ directory.getLast? = some '/')
    (hFile : IsPart (String.ofList file)) :
    (ofString (String.ofList (directory ++ file))).name = String.ofList file := by
  have hAlone : partsOf file = [String.ofList file] := by
    have hParts := @partsOf_intercalate [String.ofList file] (by simpa using hFile)
    simpa using hParts
  have hLast : (partsOf (directory ++ file)).getLast? = some (String.ofList file) := by
    rcases directory.eq_nil_or_concat with rfl | ⟨above, slash, rfl⟩
    · rw [List.nil_append, hAlone]
      rfl
    · obtain rfl : slash = '/' := by simpa using hDirectory
      have hParts : partsOf (above ++ '/' :: file) = partsOf above ++ partsOf file := by
        rw [partsOf, List.splitOn_append_cons_self, List.map_append, List.filter_append]
        rfl
      simp [hParts, hAlone]
  rw [name, ofString, String.toList_ofList, hLast]
  rfl

/-- A text is a directory and what stands behind its last slash. -/
theorem exists_directory (front : List Char) :
    ∃ directory stem, front = directory ++ stem ∧ '/' ∉ stem ∧
      (directory = [] ∨ directory.getLast? = some '/') := by
  by_cases hMem : '/' ∈ front
  · obtain ⟨above, stem, rfl, hStem⟩ := exists_split_last hMem
    exact ⟨above ++ ['/'], stem, by simp, hStem, by simp⟩
  · exact ⟨[], front, rfl, hMem, .inl rfl⟩

/-- A text that ends in a dot and some letters has them for a suffix, unless they are the whole file
name. -/
theorem suffix_ofString_append {front : List Char} (hLetters : letters ≠ []) (hDot : '.' ∉ letters)
    (hSlash : '/' ∉ letters) :
    (ofString (String.ofList (front ++ '.' :: letters))).suffix.toList =
      if front = [] ∨ front.getLast? = some '/' then [] else '.' :: letters := by
  obtain ⟨directory, stem, rfl, hStem, hDirectory⟩ := exists_directory front
  have hPart : IsPart (String.ofList (stem ++ '.' :: letters)) := by
    refine ⟨fun hEmpty => ?_, fun hSingle => ?_, by simp [hStem, hSlash]⟩
    · have hNil := congrArg String.toList hEmpty
      simp at hNil
    · have hLength := congrArg (fun text => text.toList.length) hSingle
      have hSome := List.length_pos_iff.mpr hLetters
      simp at hLength
      omega
  have hWhole : directory ++ stem = [] ∨ (directory ++ stem).getLast? = some '/' ↔ stem = [] := by
    constructor
    · rintro (hNil | hLast)
      · exact (List.append_eq_nil_iff.mp hNil).2
      · by_contra hSome
        rw [List.getLast?_append_of_ne_nil _ hSome] at hLast
        exact hStem (List.mem_of_mem_getLast? hLast)
    · rintro rfl
      rwa [List.append_nil]
  rw [List.append_assoc, suffix, name_ofString hDirectory hPart, String.toList_ofList,
    String.toList_ofList, suffixOf_append hDot]
  exact if_congr (by rw [hWhole, or_iff_left hLetters]) rfl rfl

theorem mem_of_mem_name {text : String} {c : Char} (h : c ∈ (ofString text).name.toList) :
    c ≠ '/' ∧ c ∈ text.toList := by
  rw [name, ofString] at h
  cases hLast : (partsOf text.toList).getLast? with
  | none =>
      rw [hLast] at h
      cases h
  | some part =>
      rw [hLast] at h
      obtain ⟨hPart, -⟩ := List.mem_filter.mp (List.mem_of_mem_getLast? hLast)
      obtain ⟨piece, hPiece, rfl⟩ := List.mem_map.mp hPart
      rw [Option.getD_some, String.toList_ofList] at h
      exact ne_and_mem_of_mem_splitOn hPiece h

/-- A suffix of a path has letters behind its only dot, and they are no slashes. -/
theorem exists_of_suffix {text : String} (h : (ofString text).suffix.toList ≠ []) :
    ∃ letters, (ofString text).suffix.toList = '.' :: letters ∧ letters ≠ [] ∧ '.' ∉ letters ∧
      ∀ c ∈ letters, c ≠ '/' ∧ c ∈ text.toList := by
  rw [suffix, String.toList_ofList] at h ⊢
  obtain ⟨letters, hSuffix, hSome, hDot, hMem⟩ := exists_of_suffixOf h
  exact ⟨letters, hSuffix, hSome, hDot, fun c hc => mem_of_mem_name (hMem c hc)⟩

end FileName

end Path

namespace Archive

/-- An extension that names can have: a dot and letters behind it, among which there is no further
dot and no slash in either direction. -/
def IsExtension (extension : List Char) : Prop :=
  ∃ letters, extension = '.' :: letters ∧ letters ≠ [] ∧ '.' ∉ letters ∧ '/' ∉ letters ∧
    '\\' ∉ letters

/-- The end of a directory in a name: its start, or a slash in either direction. -/
def EndsDirectory (front : List Char) : Prop :=
  front = [] ∨ front.getLast? = some '/' ∨ front.getLast? = some '\\'

instance (front : List Char) : Decidable (EndsDirectory front) :=
  inferInstanceAs (Decidable (_ ∨ _))

namespace Selection

/-- The name lies below the directory of the selection, in any case and with any slashes. -/
def Reaches (selection : Selection) (name : String) : Prop :=
  lower selection.directory.toList ++ ['/'] <+: replaceChar '\\' '/' (lower name.toList)

/-- The suffix that decides about a name. -/
def suffixOf (name : String) : List Char :=
  (Path.ofString (String.ofList (replaceChar '\\' '/' (lower name.toList)))).suffix.toList

section Names

variable {name : String} {extension front : List Char}

/-- The suffix of a name that ends in an extension is that extension, unless it is the whole file
name, which then has none. -/
theorem suffixOf_eq (hExtension : IsExtension extension)
    (hName : lower name.toList = front ++ extension) :
    (EndsDirectory front → suffixOf name = []) ∧
      (¬EndsDirectory front → suffixOf name = extension) := by
  obtain ⟨letters, rfl, hLetters, hDot, hSlash, hBack⟩ := hExtension
  have hKept : replaceChar '\\' '/' ('.' :: letters) = '.' :: letters :=
    replaceChar_of_not_mem (by simpa using hBack)
  have hTurned : replaceChar '\\' '/' (lower name.toList) =
      replaceChar '\\' '/' front ++ '.' :: letters := by
    rw [hName, replaceChar_append, hKept]
  have hEnds : replaceChar '\\' '/' front = [] ∨
      (replaceChar '\\' '/' front).getLast? = some '/' ↔ EndsDirectory front := by
    rcases front.eq_nil_or_concat with rfl | ⟨earlier, last, rfl⟩
    · simp [EndsDirectory, replaceChar]
    · by_cases hLast : last = '\\'
      · simp [EndsDirectory, replaceChar, hLast]
      · simp [EndsDirectory, replaceChar, hLast]
  have hSuffix : suffixOf name = if replaceChar '\\' '/' front = [] ∨
      (replaceChar '\\' '/' front).getLast? = some '/' then [] else '.' :: letters := by
    rw [suffixOf, hTurned]
    exact Path.suffix_ofString_append hLetters hDot hSlash
  rw [hSuffix]
  exact ⟨fun hWhole => if_pos (hEnds.mpr hWhole), fun hPart => if_neg fun h => hPart (hEnds.mp h)⟩

/-- Every suffix is an extension that names can have. -/
theorem isExtension_suffixOf (h : suffixOf name ≠ []) : IsExtension (suffixOf name) := by
  obtain ⟨letters, hSuffix, hLetters, hDot, hMem⟩ := Path.exists_of_suffix h
  refine ⟨letters, hSuffix, hLetters, hDot, fun hSlash => (hMem _ hSlash).1 rfl, fun hBack => ?_⟩
  have hTurned := (hMem _ hBack).2
  rw [String.toList_ofList] at hTurned
  obtain ⟨c, -, hc⟩ := List.mem_map.mp hTurned
  split at hc
  · exact absurd hc (by decide)
  · next hOther => exact hOther hc

end Names

variable {selection : Selection} {name : String}

/-- A name is selected if it is in reach and its suffix is not skipped. -/
theorem includes_iff
    (hNormal : ∀ extension ∈ selection.skippedExtensions, Config.IsNormal extension) :
    selection.includes name = true ↔ selection.Reaches name ∧
      ∀ extension ∈ selection.skippedExtensions, suffixOf name ≠ extension.toList := by
  have hSkipped : selection.skippedExtensions.map (fun extension => lower extension.toList) =
      selection.skippedExtensions.map String.toList :=
    List.map_congr_left fun extension hMem => lower_of_isLower (hNormal extension hMem).lowered
  unfold includes Reaches suffixOf
  rw [hSkipped, lower_replaceChar, Bool.and_eq_true, startsWith_iff, Bool.not_eq_true',
    ← Bool.not_eq_true, List.contains_iff_mem, List.mem_map]
  refine and_congr_right fun _ => ⟨fun hNone extension hMem hSame => ?_, ?_⟩
  · exact hNone ⟨extension, hMem, hSame.symm⟩
  · rintro hOther ⟨extension, hMem, hSame⟩
    exact hOther extension hMem hSame.symm

/-- Only names that are included are read as scripts. -/
theorem includes_of_mem_visitsOf {bytes : List UInt8} {headers : List Header}
    {script : Source.Script} (h : .script script ∈ visitsOf bytes selection headers) :
    selection.includes script.identifier = true := by
  induction headers with
  | nil => cases h
  | cons header rest ih =>
      rw [visitsOf] at h
      split at h
      · exact ih h
      · split at h
        · rcases List.mem_cons.mp h with hSkipped | hRest
          · cases hSkipped
          · exact ih hRest
        · next hIncluded =>
            split at h
            · cases List.mem_singleton.mp h
            · rcases List.mem_cons.mp h with hScript | hRest
              · cases hScript
                simpa using hIncluded
              · exact ih hRest

end Selection

/-- What skipped extensions leave out. With an accepted configuration, an entry whose name ends in a
skipped extension that names can have is left out, and no way through an archive reads it, unless
the extension is the whole file name: then the entry is a script wherever it lies below the
directory of scripts. A skipped extension with a second dot, with a slash or without letters changes
nothing. -/
theorem skipped_unless_whole_name (value : Value) (config : Config)
    (hConfig : Config.ofValue value = .ok config) :
    let selection : Selection := ⟨config.scriptDirectory, config.skippedExtensions⟩
    (∀ extension ∈ config.skippedExtensions, ∀ (name : String) (front : List Char),
      lower name.toList = front ++ extension.toList → IsExtension extension.toList →
      (¬EndsDirectory front → selection.includes name = false ∧
        ∀ (archive : Archive) (text : String), .script ⟨name, text⟩ ∉ archive.visits selection) ∧
      (EndsDirectory front → (selection.includes name = true ↔ selection.Reaches name))) ∧
    ∀ extension ∈ config.skippedExtensions, ¬IsExtension extension.toList → ∀ name,
      selection.includes name =
        Selection.includes ⟨config.scriptDirectory,
          config.skippedExtensions.filter (· ≠ extension)⟩ name := by
  intro selection
  have hNormal : ∀ extension ∈ selection.skippedExtensions, Config.IsNormal extension :=
    Config.isNormal_of_mem_skippedExtensions hConfig
  refine ⟨?_, ?_⟩
  · intro extension hMem name front hName hExtension
    obtain ⟨hWhole, hPart⟩ := Selection.suffixOf_eq hExtension hName
    refine ⟨fun hFront => ?_, fun hFront => ?_⟩
    · have hExcluded : selection.includes name = false := by
        rw [← Bool.not_eq_true, Selection.includes_iff hNormal]
        exact fun hIncluded => hIncluded.2 extension hMem (hPart hFront)
      refine ⟨hExcluded, fun archive text hScript => ?_⟩
      rw [Selection.includes_of_mem_visitsOf hScript] at hExcluded
      cases hExcluded
    · rw [Selection.includes_iff hNormal, hWhole hFront]
      refine and_iff_left fun other hOther hEmpty => ?_
      have hDotted := (hNormal other hOther).dotted
      rw [← hEmpty] at hDotted
      cases hDotted
  · intro extension hMem hOther name
    have hFewer : ∀ other ∈ config.skippedExtensions.filter (· ≠ extension),
        Config.IsNormal other := fun other hMem => hNormal other (List.mem_of_mem_filter hMem)
    rw [Bool.eq_iff_iff, Selection.includes_iff hNormal, Selection.includes_iff hFewer]
    refine and_congr_right fun _ => ⟨fun hAll other hKept => ?_, fun hKept other hAll => ?_⟩
    · exact hAll other (List.mem_of_mem_filter hKept)
    · by_cases hSame : other = extension
      · -- no suffix is of that form, and an extension is not empty
        rw [hSame]
        intro hSuffix
        have hDotted := (hNormal extension hMem).dotted
        rw [← hSuffix] at hOther hDotted
        refine hOther (Selection.isExtension_suffixOf fun hNil => ?_)
        rw [hNil] at hDotted
        cases hDotted
      · exact hKept other (List.mem_filter.mpr ⟨hAll, decide_eq_true hSame⟩)

/-- A skipped extension in capitals with blanks around it, and one with two dots. -/
theorem skipped_text_and_double_dot :
    let value : Value := .record [("skip_extensions", .list [.text " TXT ", .text "tar.gz"])]
    let config : Config := { Config.default with skippedExtensions := [".txt", ".tar.gz"] }
    let selection : Selection := ⟨config.scriptDirectory, config.skippedExtensions⟩
    Config.ofValue value = .ok config ∧
      lower "ZScript\\Notes.TXT".toList = "zscript\\notes".toList ++ ".txt".toList ∧
      selection.includes "ZScript\\Notes.TXT" = false ∧
      (selection.includes "ZScript\\.TXT" = true ↔ selection.Reaches "ZScript\\.TXT") ∧
      selection.includes "zscript/a.tar.gz" = true := by
  intro value config selection
  have hConfig : Config.ofValue value = .ok config := by decide +kernel
  have hText : IsExtension ".txt".toList :=
    ⟨['t', 'x', 't'], by decide, by decide, by decide, by decide, by decide⟩
  have hTwoDots : ¬IsExtension ".tar.gz".toList := by
    rintro ⟨letters, hLetters, -, hDot, -, -⟩
    exact hDot ((List.cons.inj hLetters).2 ▸ by decide)
  obtain ⟨hEnds, hIdle⟩ := skipped_unless_whole_name value config hConfig
  have hName : lower "ZScript\\Notes.TXT".toList = "zscript\\notes".toList ++ ".txt".toList := by
    decide +kernel
  have hDotName : lower "ZScript\\.TXT".toList = "zscript\\".toList ++ ".txt".toList := by
    decide +kernel
  refine ⟨hConfig, hName, ?_, ?_, ?_⟩
  · exact ((hEnds ".txt" (by decide) _ _ hName hText).1 (by decide)).1
  · exact (hEnds ".txt" (by decide) _ _ hDotName hText).2 (by decide)
  · rw [hIdle ".tar.gz" (by decide) hTwoDots]
    decide +kernel

/-- A file with no name but the extension is read although it ends in the extension: with the
default configuration an entry `zscript/.txt` is a script. -/
theorem whole_name_not_skipped :
    ¬ ∀ (value : Value) (config : Config), Config.ofValue value = .ok config →
      ∀ extension ∈ config.skippedExtensions, ∀ name : String,
        extension.toList <:+ lower name.toList →
        let selection : Selection := ⟨config.scriptDirectory, config.skippedExtensions⟩
        selection.includes name = false ∧
          ∀ (archive : Archive) (text : String),
            .script ⟨name, text⟩ ∉ archive.visits selection := by
  intro hAll
  have hNone := (hAll (.record []) .default (by decide +kernel) ".txt" (by decide) "zscript/.txt"
    (by decide +kernel)).1
  exact absurd hNone (by decide +kernel)

end Archive

end SignatureIndex
