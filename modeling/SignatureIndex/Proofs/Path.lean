import SignatureIndex.Path
import SignatureIndex.Proofs.Text

/-! Paths and their texts. A path that is read from a text has parts that are neither empty nor a
single dot and hold no slash. Such a path is read back from its own text, so two of them with the
same text are the same path. -/
namespace SignatureIndex.Path

open Text

/-- A path all of whose parts can stand between slashes. -/
def Proper (path : Path) : Prop :=
  ∀ part ∈ path.parts, IsPart part

/-- The parts of a text can stand in a path. -/
theorem isPart_of_mem_partsOf {text : List Char} {part : String} (h : part ∈ partsOf text) :
    IsPart part := by
  obtain ⟨hMem, hKept⟩ := List.mem_filter.mp h
  obtain ⟨piece, hPiece, rfl⟩ := List.mem_map.mp hMem
  simp only [Bool.and_eq_true, decide_eq_true_eq] at hKept
  refine ⟨hKept.1, hKept.2, ?_⟩
  rw [String.toList_ofList]
  exact not_mem_of_mem_splitOn hPiece

theorem proper_ofString (text : String) : (ofString text).Proper :=
  fun _ hPart => isPart_of_mem_partsOf hPart

/-- Proper paths are joined to a proper one. -/
theorem Proper.append {path other : Path} (hPath : path.Proper) (hOther : other.Proper) :
    (path.append other).Proper := by
  unfold Path.append
  split
  · exact hOther
  · intro part hPart
    rcases List.mem_append.mp hPart with hPart | hPart
    · exact hPath part hPart
    · exact hOther part hPart

theorem Proper.child {path : Path} (h : path.Proper) (name : String) : (path.child name).Proper :=
  h.append (proper_ofString name)

theorem Proper.parent {path : Path} (h : path.Proper) : path.parent.Proper :=
  fun part hPart => h part (List.dropLast_subset _ hPart)

/-- The parts of a joined text are the parts that were joined. -/
theorem partsOf_intercalate {parts : List String} (h : ∀ part ∈ parts, IsPart part) :
    partsOf ("/".intercalate parts).toList = parts := by
  unfold partsOf
  rw [String.toList_intercalate]
  change List.filter _ (List.map _ ((['/'].intercalate (parts.map String.toList)).splitOn '/')) = _
  by_cases hNil : parts = []
  · subst hNil
    rfl
  · rw [List.splitOn_intercalate '/' ?_ (by simpa using hNil)]
    · rw [List.map_map]
      have hSame : List.map (String.ofList ∘ String.toList) parts = parts := by simp
      rw [hSame, List.filter_eq_self]
      intro part hPart
      obtain ⟨hEmpty, hDot, -⟩ := h part hPart
      simp [hEmpty, hDot]
    · intro piece hPiece
      obtain ⟨part, hPart, rfl⟩ := List.mem_map.mp hPiece
      exact (h part hPart).2.2

/-- The start of a path adds no part. -/
theorem partsOf_start_append (start : PathStart) (text : List Char) :
    partsOf (start.text.toList ++ text) = partsOf text := by
  cases start <;> simp [partsOf, splitOn_cons_self, PathStart.text]

/-- A joined text starts with the first character of a part, which is no slash. -/
theorem head?_intercalate_ne_slash {parts : List String} (h : ∀ part ∈ parts, IsPart part) :
    ("/".intercalate parts).toList.head? ≠ some '/' := by
  cases parts with
  | nil => simp
  | cons first rest =>
      obtain ⟨hEmpty, -, hSlash⟩ := h first (List.mem_cons_self ..)
      cases hChars : first.toList with
      | nil => exact absurd (String.toList_eq_nil_iff.mp hChars) hEmpty
      | cons c cs =>
          have hc : c ≠ '/' := fun hEq => hSlash (by rw [hChars, hEq]; exact List.mem_cons_self ..)
          have hHead : ("/".intercalate (first :: rest)).toList.head? = some c := by
            rw [String.toList_intercalate, List.map_cons, hChars]
            cases rest <;> simp [List.intercalate]
          rw [hHead]
          simpa using hc

/-- The start of a path can be told from its text. -/
theorem startOf_start_append (start : PathStart) {text : List Char} (h : text.head? ≠ some '/') :
    startOf (start.text.toList ++ text) = start := by
  cases text with
  | nil => cases start <;> rfl
  | cons c rest =>
      have hc : c ≠ '/' := by simpa using h
      cases start <;> simp [PathStart.text, startOf, hc]

/-- A path is read back from its own text. -/
theorem ofString_toString {path : Path} (h : path.Proper) : ofString path.toString = path := by
  obtain ⟨start, parts⟩ := path
  have hParts := partsOf_intercalate h
  have hText := String.toList_append (s := start.text) (t := "/".intercalate parts)
  unfold Path.toString
  simp only
  split
  · next hEmpty =>
      obtain ⟨hStart, hJoined⟩ := String.append_eq_empty_iff.mp hEmpty
      rw [hJoined] at hParts
      cases start with
      | relative => exact congrArg (Path.mk .relative) hParts
      | slash => exact absurd hStart (by decide)
      | doubleSlash => exact absurd hStart (by decide)
  · rw [ofString, hText, partsOf_start_append, hParts,
      startOf_start_append start (head?_intercalate_ne_slash h)]

/-- Two paths with the same text are the same. -/
theorem toString_injective {path other : Path} (hPath : path.Proper) (hOther : other.Proper)
    (h : path.toString = other.toString) : path = other := by
  rw [← ofString_toString hPath, h, ofString_toString hOther]

end SignatureIndex.Path
