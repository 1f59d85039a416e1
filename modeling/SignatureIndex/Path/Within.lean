import SignatureIndex.Path
import SignatureIndex.Text.Utf8

/-! There are only finitely many paths whose text has at most a given number of bytes. The list of
them is far too long to be looked at; it is there to count with. -/
namespace SignatureIndex

open Text

noncomputable def allChars : List Char :=
  (List.range 0x110000).map Char.ofNat

theorem mem_allChars (c : Char) : c ∈ allChars := by
  refine List.mem_map.mpr ⟨c.toNat, List.mem_range.mpr ?_, Char.ofNat_toNat c⟩
  have := c.valid
  unfold UInt32.isValidChar Nat.isValidChar at this
  unfold Char.toNat
  omega

noncomputable def listsUpTo {α : Type} (items : List α) : Nat → List (List α)
  | 0 => [[]]
  | n + 1 => [] :: items.flatMap fun item => (listsUpTo items n).map (item :: ·)

theorem mem_listsUpTo {α : Type} {items : List α} {n : Nat} {list : List α}
    (hLength : list.length ≤ n) (hItems : ∀ item ∈ list, item ∈ items) :
    list ∈ listsUpTo items n := by
  induction n generalizing list with
  | zero => simp_all [listsUpTo]
  | succ n ih =>
      cases list with
      | nil => simp [listsUpTo]
      | cons item rest =>
          refine List.mem_cons_of_mem _ (List.mem_flatMap.mpr ⟨item, hItems item (by simp), ?_⟩)
          refine List.mem_map.mpr ⟨rest, ih (by simpa using hLength) fun other hOther => ?_, rfl⟩
          exact hItems other (List.mem_cons_of_mem _ hOther)

theorem utf8Bytes_length_pos (c : Char) : 0 < (utf8Bytes c).length := by
  unfold utf8Bytes
  simp only
  split
  · simp
  · split
    · simp
    · split <;> simp

theorem length_le_encodeUtf8 (cs : List Char) : cs.length ≤ (encodeUtf8 cs).length := by
  induction cs with
  | nil => simp
  | cons c rest ih =>
      have := utf8Bytes_length_pos c
      simp only [encodeUtf8, List.flatMap_cons, List.length_append, List.length_cons] at *
      omega

/-- Joined pieces are at least as long as each piece, and as their number less one. -/
theorem intercalate_bounds (sep : Char) (pieces : List (List Char)) :
    pieces.length ≤ ([sep].intercalate pieces).length + 1 ∧
      ∀ piece ∈ pieces, piece.length ≤ ([sep].intercalate pieces).length := by
  induction pieces with
  | nil => simp
  | cons first rest ih =>
      cases rest with
      | nil => simp [List.intercalate]
      | cons second rest =>
          rw [List.intercalate_cons_cons]
          simp only [List.length_append, List.length_cons, List.mem_cons, forall_eq_or_imp,
            List.length_nil] at *
          refine ⟨by omega, by omega, by omega, fun piece hPiece => ?_⟩
          have := ih.2.2 piece hPiece
          omega

namespace Path

/-- The paths with texts of so many bytes at most, and more. -/
noncomputable def within (size : Nat) : List Path :=
  let parts := (listsUpTo allChars size).map String.ofList
  [PathStart.relative, .slash, .doubleSlash].flatMap fun start =>
    (listsUpTo parts (size + 1)).map (Path.mk start)

theorem intercalate_length_le_utf8Size (path : Path) :
    ("/".intercalate path.parts).toList.length ≤ utf8Size path.toString := by
  refine Nat.le_trans ?_ (length_le_encodeUtf8 path.toString.toList)
  unfold Path.toString
  simp only
  split
  next hEmpty =>
    have := congrArg String.toList hEmpty
    simp_all
  next => simp

/-- The paths of at most so many bytes are all listed, so that counting them bounds a walk. -/
theorem mem_within {path : Path} {size : Nat} (hSize : utf8Size path.toString ≤ size) :
    path ∈ within size := by
  have hText := Nat.le_trans path.intercalate_length_le_utf8Size hSize
  rw [String.toList_intercalate] at hText
  have hBounds := intercalate_bounds '/' (path.parts.map String.toList)
  simp only [List.length_map, List.mem_map, forall_exists_index, and_imp,
    forall_apply_eq_imp_iff₂] at hBounds
  change (['/'].intercalate (path.parts.map String.toList)).length ≤ size at hText
  unfold within
  refine List.mem_flatMap.mpr ⟨path.start, by cases path.start <;> simp, ?_⟩
  refine List.mem_map.mpr ⟨path.parts, mem_listsUpTo (by omega) fun part hPart => ?_, rfl⟩
  refine List.mem_map.mpr ⟨part.toList, mem_listsUpTo ?_ fun c _ => mem_allChars c,
    String.ofList_toList⟩
  have := hBounds.2 part hPart
  omega

end Path

end SignatureIndex
