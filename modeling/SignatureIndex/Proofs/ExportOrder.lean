import SignatureIndex.Proofs.Export
import SignatureIndex.Proofs.LastWriter

/-! Exports keep no trace of a table's history. What is written depends only on which signature
stands under which key, and for scripts that share no key this does not depend on the order in which
they were scanned. -/
namespace SignatureIndex

namespace Table

/-- A change of a table. -/
inductive Change where
  | store (signature : Signature)
  | clear

def change (table : Table) : Change → Table
  | .store signature => table.store signature
  | .clear => .empty

/-- The table that a history of changes leads to. -/
def after (history : List Change) : Table :=
  history.foldl change empty

/-- The same signatures stand under the same keys. -/
def Agrees (first second : Table) : Prop :=
  ∀ key, first.atKey? key = second.atKey? key

/-- Tables agree exactly if they hold the same signatures. -/
theorem agrees_iff {first second : Table} :
    first.Agrees second ↔
      ∀ signature, signature ∈ first.signatures ↔ signature ∈ second.signatures := by
  constructor
  · intro h signature
    have hBoth := h signature.key
    constructor
    · intro hMem
      exact (atKey?_eq_some_iff.mp (hBoth ▸ atKey?_of_mem hMem)).1
    · intro hMem
      exact (atKey?_eq_some_iff.mp (hBoth ▸ atKey?_of_mem hMem)).1
  · intro h key
    ext signature
    rw [atKey?_eq_some_iff, atKey?_eq_some_iff, h]

section Scans

variable {scripts others : List Script} {table other : Table}

/-- No key is declared by both scripts. -/
def Apart (first second : Script) : Prop :=
  ∀ signature ∈ declared first, ∀ other ∈ declared second, signature.key ≠ other.key

instance (first second : Script) : Decidable (Apart first second) :=
  List.decidableBAll _ (declared first)

theorem Apart.symm {first second : Script} (h : Apart first second) : Apart second first :=
  fun signature hSignature other hOther hKeys => h other hOther signature hSignature hKeys.symm

/-- Agreeing tables stay so when the same scripts are scanned into them. -/
theorem Agrees.foldl_scan (h : table.Agrees other) (scripts : List Script) :
    (scripts.foldl scan table).Agrees (scripts.foldl scan other) := by
  intro key
  rw [Table.foldl_scan, Table.foldl_scan, atKey?_storeAll, atKey?_storeAll, h key]

/-- What a script declares under a key is not overwritten by a script apart from it. -/
theorem Apart.agrees_scan {first second : Script} (h : Apart first second) (table : Table) :
    ((table.scan first).scan second).Agrees ((table.scan second).scan first) := by
  intro key
  simp only [scan_eq, atKey?_storeAll]
  cases hFirst : (declared first).reverse.find? (fun signature => signature.key = key) with
  | none => rfl
  | some winner =>
      have hKey : winner.key = key := by simpa using List.find?_some hFirst
      have hWinner : winner ∈ declared first :=
        List.mem_reverse.mp (List.mem_of_find?_eq_some hFirst)
      have hNone : (declared second).reverse.find? (fun signature => signature.key = key) =
          none := by
        rw [List.find?_eq_none]
        intro signature hSignature hSame
        refine h winner hWinner signature (List.mem_reverse.mp hSignature) ?_
        rw [hKey, of_decide_eq_true hSame]
      rw [hNone]
      rfl

/-- Scripts that are apart from each other can be scanned in any order. -/
theorem agrees_of_perm (hPerm : scripts.Perm others) (hApart : scripts.Pairwise Apart)
    (table : Table) : (scripts.foldl scan table).Agrees (others.foldl scan table) := by
  induction hPerm generalizing table with
  | nil => exact fun _ => rfl
  | cons script _ ih => exact ih hApart.tail (table.scan script)
  | swap first second rest =>
      have hTwo : Apart second first := List.rel_of_pairwise_cons hApart List.mem_cons_self
      exact (hTwo.agrees_scan table).foldl_scan rest
  | trans hFirst _ ih ih' =>
      have hMiddle := hFirst.pairwise hApart Apart.symm
      exact fun key => (ih hApart table key).trans (ih' hMiddle table key)

end Scans

end Table

namespace Export

open Text Table

variable {first second table : Table}

/-- No signature stands twice in an export. -/
theorem nodup_sorted (table : Table) : (sorted table).Nodup := by
  refine (sorted_pairwise table).imp ?_
  rintro signature _ hLess rfl
  exact String.lt_irrefl _ hLess

/-- The order of an export is that of the keys, whatever the order in the table. -/
theorem sorted_eq_iff : sorted first = sorted second ↔ first.Agrees second := by
  rw [agrees_iff]
  constructor
  · intro h signature
    rw [← (sorted_perm first).mem_iff, h, (sorted_perm second).mem_iff]
  · intro h
    have hPerm : (sorted first).Perm (sorted second) := by
      rw [List.perm_ext_iff_of_nodup (nodup_sorted first) (nodup_sorted second)]
      intro signature
      rw [(sorted_perm first).mem_iff, (sorted_perm second).mem_iff, h]
    refine hPerm.eq_of_pairwise ?_ (sorted_pairwise first) (sorted_pairwise second)
    intro _ _ _ _ hLess hGreater
    exact absurd hGreater (String.lt_asymm hLess)

/-- A file that can be opened holds the text of the export, whether or not it ends early. -/
theorem readBytes_write {env : Environment} {path file : Path} (h : opened env path = .ok file)
    (table : Table) :
    (write env path table).2.readBytes file = .ok (encodeUtf8 (textOf table).1) := by
  obtain ⟨prepared, _, hTarget, hMade, hOpen⟩ := exists_prepared h
  obtain ⟨final, hFinal⟩ := Environment.exists_writeFile hOpen (encodeUtf8 (textOf table).1)
  have hWritten : (write env path table).2 = final := by
    simp only [textOf] at hFinal
    simp only [write, hTarget, hMade, writeRecords, hFinal]
    cases (linesOf ((sorted table).map Signature.toValue)).2 <;> rfl
  rw [hWritten]
  exact Environment.readBytes_of_writeFile hFinal

/-- Tables that cannot be told apart by their exports. Written to one place they give the same
answer and leave the same files, and wherever they are written their files hold the same bytes. -/
def Alike (first second : Table) : Prop :=
  (∀ env path, write env path first = write env path second) ∧
  ∀ env path file env' path' file', opened env path = .ok file → opened env' path' = .ok file' →
    ∃ bytes, (write env path first).2.readBytes file = .ok bytes ∧
      (write env' path' second).2.readBytes file' = .ok bytes

/-- Tables of the same export are alike. -/
theorem alike_of_sorted_eq (h : sorted first = sorted second) : Alike first second := by
  have hText : textOf first = textOf second := by rw [textOf, textOf, h]
  constructor
  · intro env path
    simp only [write, h]
  · intro env path file env' path' file' hOpened hOpened'
    exact ⟨_, readBytes_write hOpened first, hText ▸ readBytes_write hOpened' second⟩

/-- Alike tables have the same export. -/
theorem Alike.sorted_eq (h : Alike first second)
    (hFirst : ∀ signature ∈ first.signatures, signature.HasWords)
    (hSecond : ∀ signature ∈ second.signatures, signature.HasWords) :
    sorted first = sorted second := by
  let env : Environment := { tree := .empty, working := [], stands := rfl }
  have hOpened : opened env (.ofString "a") = .ok (.ofString "a") := by decide +kernel
  have hRead {table : Table} (hWords : ∀ signature ∈ table.signatures, signature.HasWords) :
      read (write env (.ofString "a") table).2 (.ofString "a") = .ok (sorted table) := by
    have hSorted : ∀ signature ∈ sorted table, signature.HasWords :=
      fun signature hMem => hWords signature ((sorted_perm table).mem_iff.mp hMem)
    obtain ⟨final, hWrite, hBytes⟩ := write_of_opened hSorted hOpened
    rw [hWrite]
    exact read_of_readBytes hSorted hBytes
  have hSame := hRead hFirst
  rw [h.1, hRead hSecond] at hSame
  exact (Except.ok.inj hSame).symm

/-- Exports forget how a table came about. Tables that agree are exported alike, whatever was
stored, overwritten and cleared on the way, so scripts that share no key give the same export in any
order. Nothing else is forgotten: tables of numbers in range that are exported alike agree. -/
theorem export_forgets_history :
    (∀ first second : List Change, (after first).Agrees (after second) →
      Alike (after first) (after second)) ∧
    (∀ scripts others : List Script, scripts.Pairwise Apart → scripts.Perm others →
      Alike (scripts.foldl scan .empty) (others.foldl scan .empty)) ∧
    ∀ first second : List Change, (∀ signature ∈ (after first).signatures, signature.HasWords) →
      (∀ signature ∈ (after second).signatures, signature.HasWords) →
        Alike (after first) (after second) → (after first).Agrees (after second) := by
  refine ⟨fun first second h => ?_, fun scripts others hApart hPerm => ?_,
    fun first second hFirst hSecond h => ?_⟩
  · exact alike_of_sorted_eq (sorted_eq_iff.mpr h)
  · exact alike_of_sorted_eq (sorted_eq_iff.mpr (agrees_of_perm hPerm hApart .empty))
  · exact sorted_eq_iff.mp (h.sorted_eq hFirst hSecond)

/-- Two scripts, the first of which overwrites a name of its own, scanned in both orders; and two
signatures stored in both orders, once after the table was cleared and once over another one. -/
theorem export_of_swapped_scripts :
    let first : Script := ("class A\n\x7b\nint F();\nint G();\nint f(int a);\n\x7d", some "a.zs")
    let second : Script := ("class B\n\x7b\nvoid E(int a);\n\x7d", none)
    let other := { awkward with key := "a" }
    let history : List Change := [.store other, .clear, .store awkward, .store other]
    let history' : List Change :=
      [.store other, .store { awkward with line := none }, .store awkward]
    [first, second].Pairwise Apart ∧
      ([first, second].foldl scan .empty).keys = ["f", "g", "e"] ∧
      ([second, first].foldl scan .empty).keys = ["e", "f", "g"] ∧
      Alike ([first, second].foldl scan .empty) ([second, first].foldl scan .empty) ∧
      (after history).keys = [awkward.key, "a"] ∧ (after history').keys = ["a", awkward.key] ∧
      (∀ signature ∈ (after history).signatures, signature.HasWords) ∧
      (∀ signature ∈ (after history').signatures, signature.HasWords) ∧
      Alike (after history) (after history') := by
  intro first second other history history'
  have hApart : [first, second].Pairwise Apart := by decide +kernel
  have hAgrees : (after history).Agrees (after history') := by
    intro key
    have hKeys : other.key ≠ awkward.key := by decide
    simp only [after, history, history', List.foldl_cons, List.foldl_nil, change, atKey?_store]
    by_cases hOther : key = other.key
    · simp [hOther, hKeys]
    · by_cases hSame : key = awkward.key
      · simp [hSame, hKeys.symm]
      · simp [hOther, hSame]
  exact ⟨hApart, by decide +kernel, by decide +kernel,
    export_forgets_history.2.1 _ _ hApart (.swap second first []), by decide +kernel,
    by decide +kernel, by decide +kernel, by decide +kernel,
    export_forgets_history.1 history history' hAgrees⟩

end Export

end SignatureIndex
