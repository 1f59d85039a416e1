import SignatureIndex.Proofs.Declaration
import SignatureIndex.Proofs.LastWriter

/-! Reserved words and the table. A declaration whose name is a reserved word gives no signature,
but the name is compared as it is written, while the table finds names in any spelling. So a
reserved word is found in the table exactly if some script declares it with an upper-case letter in
it. -/
namespace SignatureIndex

open Text

/-- The name is the word with some of its letters in upper case. -/
def Respelled (word name : String) : Prop :=
  name ≠ word ∧ name.toList.map Char.toLower = word.toList

instance (word name : String) : Decidable (Respelled word name) :=
  inferInstanceAs (Decidable (_ ∧ _))

/-- Words are folded letter by letter. -/
theorem fold_of_isWord {text : List Char} (h : Declaration.IsWord text) :
    fold text = text.map Char.toLower := by
  have hChar : ∀ c ∈ text, foldChar c = [c.toLower] := by
    intro c hc
    have hHigh := (wordChar_bounds (h.2 c hc)).2
    rw [foldChar, if_pos (by omega)]
  rw [fold, List.flatMap_congr hChar, List.map_eq_flatMap]

/-- A reserved name is its own key. -/
theorem keyOf_of_mem_reservedNames {word : String} (h : word ∈ Declaration.reservedNames) :
    Signature.keyOf word = word := by
  revert word
  decide

/-- Only words that are not reserved become names of signatures. -/
theorem Signature.name_of_extract? {text : List Char} {enclosing : Option Enclosing}
    {source : Option String} {line : Option Int} {signature : Signature}
    (h : extract? text enclosing source line = some signature) :
    Declaration.IsWord signature.name.toList ∧ signature.name ∉ Declaration.reservedNames := by
  obtain ⟨declaration, hRead, hFree, rfl⟩ := Scan.exists_declaration_of_extract? h
  obtain ⟨_, _, parts, -, hValid, rfl⟩ := Declaration.read?_sound hRead
  refine ⟨?_, hFree⟩
  show Declaration.IsWord (String.ofList parts.name).toList
  rw [String.toList_ofList]
  exact hValid.name

namespace Table

theorem name_of_declared {script : Script} {signature : Signature}
    (h : signature ∈ declared script) :
    Declaration.IsWord signature.name.toList ∧ signature.name ∉ Declaration.reservedNames := by
  obtain ⟨_, _, _, hExtract⟩ := Scan.exists_extract?_of_mem_readScript h
  exact Signature.name_of_extract? hExtract

/-- What is declared under the key of a reserved word is named by another spelling of it. -/
theorem key_eq_reserved_iff {script : Script} {signature : Signature} {word : String}
    (h : signature ∈ declared script) (hWord : word ∈ Declaration.reservedNames) :
    signature.key = word ↔ Respelled word signature.name := by
  obtain ⟨hName, hFree⟩ := name_of_declared h
  have hKey : signature.key = String.ofList (signature.name.toList.map Char.toLower) := by
    rw [key_of_declared h, Signature.keyOf, foldString, fold_of_isWord hName]
  rw [hKey]
  constructor
  · intro hSame
    refine ⟨?_, ?_⟩
    · intro hExact
      exact hFree (hExact ▸ hWord)
    · rw [← hSame, String.toList_ofList]
  · intro hRespelled
    rw [hRespelled.2, String.ofList_toList]

section Scans

variable {scripts : List Script} {key : String}

/-- A key is in a scanned table exactly if some script declares it. -/
theorem isSome_atKey?_foldl_scan :
    ((scripts.foldl scan empty).atKey? key).isSome ↔
      ∃ script ∈ scripts, ∃ signature ∈ declared script, signature.key = key := by
  rw [foldl_scan, isSome_atKey?_storeAll]
  constructor
  · rintro (hNone | ⟨signature, hMem, hKey⟩)
    · cases hNone
    · obtain ⟨script, hScript, hDeclared⟩ := List.mem_flatMap.mp hMem
      exact ⟨script, hScript, signature, hDeclared, hKey⟩
  · rintro ⟨script, hScript, signature, hDeclared, hKey⟩
    exact .inr ⟨signature, List.mem_flatMap_of_mem hScript hDeclared, hKey⟩

/-- Every signature of a scanned table is declared by one of the scripts. -/
theorem exists_declared_of_mem_signatures {signature : Signature}
    (h : signature ∈ (scripts.foldl scan empty).signatures) :
    ∃ script ∈ scripts, signature ∈ declared script := by
  rw [foldl_scan] at h
  rcases mem_signatures_storeAll h with hNone | hFound
  · cases hNone
  · exact List.mem_flatMap.mp hFound

/-- A key is in the table exactly if some completion has a name with that key. -/
theorem exists_completion_iff :
    (∃ start, ∃ item ∈ (scripts.foldl scan empty).completions start,
      Signature.keyOf item.name = key) ↔ ((scripts.foldl scan empty).atKey? key).isSome := by
  constructor
  · rintro ⟨start, item, hItem, rfl⟩
    obtain ⟨entry, hEntry, rfl⟩ := List.mem_map.mp hItem
    have hMem : entry.2 ∈ (scripts.foldl scan empty).signatures :=
      List.mem_map_of_mem (List.mem_filter.mp hEntry).1
    obtain ⟨script, hScript, hDeclared⟩ := exists_declared_of_mem_signatures hMem
    rw [isSome_atKey?_foldl_scan]
    exact ⟨script, hScript, entry.2, hDeclared, key_of_declared hDeclared⟩
  · intro hFound
    obtain ⟨signature, hAt⟩ := Option.isSome_iff_exists.mp hFound
    obtain ⟨hMem, hKey⟩ := atKey?_eq_some_iff.mp hAt
    obtain ⟨script, -, hDeclared⟩ := exists_declared_of_mem_signatures hMem
    obtain ⟨entry, hEntry, rfl⟩ := List.mem_map.mp hMem
    -- the empty start is a start of every name
    refine ⟨"", entry.2.completion, ?_, ?_⟩
    · exact List.mem_map.mpr ⟨entry, List.mem_filter.mpr ⟨hEntry, rfl⟩, rfl⟩
    · rw [← hKey, key_of_declared hDeclared]
      rfl

/-- Reserved words in the table. No signature is named by a reserved word as it is written, but the
word is found exactly if some script declares it in another spelling. What is found is named by such
a spelling, and it is offered as a completion. -/
theorem reserved_word_found_iff (scripts : List Script) (word : String)
    (hWord : word ∈ Declaration.reservedNames) :
    let table := scripts.foldl scan empty
    let respelled := ∃ script ∈ scripts, ∃ signature ∈ declared script,
      Respelled word signature.name
    (∀ signature ∈ table.signatures, signature.name ∉ Declaration.reservedNames) ∧
    (table.contains word = true ↔ respelled) ∧
    (table.lookup? word = none ↔ ¬respelled) ∧
    (∀ signature, table.lookup? word = some signature → Respelled word signature.name) ∧
    ((∃ start, ∃ item ∈ table.completions start,
      Signature.keyOf item.name = Signature.keyOf word) ↔ respelled) := by
  intro table respelled
  have hKey : Signature.keyOf word = word := keyOf_of_mem_reservedNames hWord
  have hFound : (table.atKey? word).isSome ↔ respelled := by
    rw [isSome_atKey?_foldl_scan]
    apply exists_congr
    intro script
    apply and_congr_right
    intro _
    apply exists_congr
    intro signature
    exact and_congr_right fun hDeclared => key_eq_reserved_iff hDeclared hWord
  have hLookup : table.lookup? word = table.atKey? word := congrArg table.atKey? hKey
  refine ⟨?_, ?_, ?_, ?_, ?_⟩
  · intro signature hMem
    obtain ⟨script, -, hDeclared⟩ := exists_declared_of_mem_signatures hMem
    exact (name_of_declared hDeclared).2
  · rw [contains, hLookup, hFound]
  · rw [hLookup, ← hFound, Option.not_isSome_iff_eq_none]
  · intro signature hSome
    rw [hLookup, atKey?_eq_some_iff] at hSome
    obtain ⟨script, -, hDeclared⟩ := exists_declared_of_mem_signatures hSome.1
    exact (key_eq_reserved_iff hDeclared hWord).mp hSome.2
  · rw [exists_completion_iff, hKey, hFound]

end Scans

/-- A reserved word that is declared as it is written is not found, one that is declared with a
capital is. -/
theorem reserved_words_of_two_scripts :
    let first : Script := ("class A\n\x7b\nvoid if(int a);\nint Ok();\n\x7d", none)
    let second : Script := ("class B\n\x7b\nvoid While(int a);\n\x7d", some "b.zs")
    let table := [first, second].foldl scan empty
    "if" ∈ Declaration.reservedNames ∧ "while" ∈ Declaration.reservedNames ∧
      table.contains "if" = false ∧ table.contains "while" = true := by
  intro first second table
  have hIf : "if" ∈ Declaration.reservedNames := by decide
  have hWhile : "while" ∈ Declaration.reservedNames := by decide
  refine ⟨hIf, hWhile, ?_, ?_⟩
  · rw [← Bool.not_eq_true, (reserved_word_found_iff [first, second] "if" hIf).2.1]
    decide +kernel
  · apply (reserved_word_found_iff [first, second] "while" hWhile).2.1.mpr
    decide +kernel

/-- A function `If` is found under a reserved word. -/
theorem capital_reserved_word_found :
    ¬ ∀ (scripts : List Script) (word : String), word ∈ Declaration.reservedNames →
      let table := scripts.foldl scan empty
      table.contains word = false ∧ table.lookup? word = none ∧
        ∀ start, ∀ item ∈ table.completions start,
          Signature.keyOf item.name ≠ Signature.keyOf word := by
  intro hAll
  obtain ⟨hNone, -⟩ := hAll [("class A\n\x7b\n  void If(int a);\n\x7d", none)] "if" (by decide)
  have hFound : (empty.scan ("class A\n\x7b\n  void If(int a);\n\x7d", none)).contains "if" =
      true := by decide +kernel
  exact absurd (hFound.symm.trans hNone) (by decide)

end Table

end SignatureIndex
