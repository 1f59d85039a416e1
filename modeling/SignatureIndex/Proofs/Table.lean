import Mathlib.Data.List.Induction
import SignatureIndex.Signature.Table

/-! What a signature table holds after signatures were stored in it: under each key the signature
stored last, and the keys in the order in which they came first. -/
namespace SignatureIndex

namespace Entries

variable {α : Type}

theorem get?_cons (first : String) (value : α) (rest : Entries α) (key : String) :
    get? ((first, value) :: rest) key = if key = first then some value else rest.get? key := by
  by_cases hKey : key = first
  · simp [get?, hKey]
  · simp [get?, List.lookup_cons, beq_eq_false_iff_ne.mpr hKey, hKey]

/-- Putting a value changes its own key only. -/
theorem get?_put (entries : Entries α) (key : String) (value : α) (other : String) :
    (entries.put key value).get? other =
      if other = key then some value else entries.get? other := by
  induction entries with
  | nil => exact get?_cons key value [] other
  | cons entry rest ih =>
      obtain ⟨first, stored⟩ := entry
      rw [put]
      by_cases hFirst : first = key
      · rw [if_pos hFirst, get?_cons, get?_cons, hFirst]
        split <;> rfl
      · rw [if_neg hFirst, get?_cons, get?_cons, ih]
        by_cases hOther : other = first
        · simp [hOther, hFirst]
        · simp [hOther]

theorem put_put_self (entries : Entries α) (key : String) (value other : α) :
    (entries.put key value).put key other = entries.put key other := by
  induction entries with
  | nil => simp [put]
  | cons entry rest ih =>
      by_cases hFirst : entry.1 = key
      · simp [put, hFirst]
      · simp [put, hFirst, ih]

/-- A value that only replaces another one can be put earlier. -/
theorem put_put_comm {entries : Entries α} {key other : String} (value more : α)
    (hOther : other ∈ entries.keys) (hKeys : other ≠ key) :
    (entries.put key value).put other more = (entries.put other more).put key value := by
  induction entries with
  | nil => cases hOther
  | cons entry rest ih =>
      by_cases hFirst : entry.1 = key
      · simp [put, hFirst, Ne.symm hKeys]
      · by_cases hSecond : entry.1 = other
        · simp [put, hSecond, hKeys]
        · have hRest : other ∈ keys rest := by
            simpa [keys, Ne.symm hSecond] using hOther
          simp [put, hFirst, hSecond, ih hRest]

/-- A key has a value exactly if it is one of the keys. -/
theorem isSome_get?_iff (entries : Entries α) (key : String) :
    (entries.get? key).isSome ↔ key ∈ entries.keys := by
  induction entries with
  | nil => simp [get?, keys]
  | cons entry rest ih =>
      obtain ⟨first, value⟩ := entry
      rw [get?_cons]
      by_cases hKey : key = first
      · simp [hKey, keys]
      · simpa [hKey, keys] using ih

/-- Where no key occurs twice, each entry is found under its key. -/
theorem get?_of_mem {entries : Entries α} {key : String} {value : α} (hKeys : entries.keys.Nodup)
    (h : (key, value) ∈ entries) : entries.get? key = some value := by
  induction entries with
  | nil => cases h
  | cons entry rest ih =>
      obtain ⟨first, stored⟩ := entry
      obtain ⟨hFirst, hRest⟩ := List.nodup_cons.mp hKeys
      rw [get?_cons]
      rcases List.mem_cons.mp h with hSame | hMem
      · cases hSame
        rw [if_pos rfl]
      · have hOther : key ≠ first := by
          rintro rfl
          exact hFirst (List.mem_map.mpr ⟨(key, value), hMem, rfl⟩)
        rw [if_neg hOther]
        exact ih hRest hMem

theorem mem_of_get? {entries : Entries α} {key : String} {value : α}
    (h : entries.get? key = some value) : (key, value) ∈ entries := by
  induction entries with
  | nil => cases h
  | cons entry rest ih =>
      obtain ⟨first, stored⟩ := entry
      rw [get?_cons] at h
      split at h
      · next hKey =>
          cases h
          rw [hKey]
          exact List.mem_cons_self
      · exact List.mem_cons_of_mem _ (ih h)

/-- Where no key occurs twice, the order of the entries does not matter. -/
theorem get?_eq_of_perm {entries other : Entries α} (hPerm : entries.Perm other)
    (hKeys : entries.keys.Nodup) (key : String) : entries.get? key = other.get? key := by
  have hOther : other.keys.Nodup := (hPerm.map _).nodup_iff.mp hKeys
  ext value
  constructor
  · intro h
    exact get?_of_mem hOther (hPerm.mem_iff.mp (mem_of_get? h))
  · intro h
    exact get?_of_mem hKeys (hPerm.mem_iff.mpr (mem_of_get? h))

theorem get?_map {β : Type} (entries : Entries α) (f : α → β) (key : String) :
    get? (entries.map fun entry => (entry.1, f entry.2)) key = (entries.get? key).map f := by
  induction entries with
  | nil => rfl
  | cons entry rest ih =>
      obtain ⟨first, value⟩ := entry
      rw [List.map_cons, get?_cons, get?_cons, ih]
      split <;> rfl

/-- A new key is added at the end. -/
theorem put_of_not_mem {entries : Entries α} {key : String} (value : α)
    (h : key ∉ entries.keys) : entries.put key value = entries ++ [(key, value)] := by
  induction entries with
  | nil => rfl
  | cons entry rest ih =>
      simp only [keys, List.map_cons, List.mem_cons, not_or] at h
      rw [put, if_neg (Ne.symm h.1), ih h.2, List.cons_append]

/-- Entries without a repeated key stay as they are if they are put one after the other. -/
theorem foldl_put {entries fields : Entries α} (h : (entries ++ fields).keys.Nodup) :
    fields.foldl (fun entries (key, value) => put key value entries) entries =
      entries ++ fields := by
  induction fields generalizing entries with
  | nil => simp
  | cons field rest ih =>
      obtain ⟨key, value⟩ := field
      have hKey : key ∉ entries.keys := by
        intro hMem
        rw [keys, List.map_append, List.nodup_append] at h
        exact h.2.2 key hMem key (by simp) rfl
      rw [List.append_cons] at h
      simp only [List.foldl_cons, put_of_not_mem value hKey, ih h, ← List.append_cons]

end Entries

namespace Table

/-- Storing a signature changes its own key only. -/
theorem atKey?_store (table : Table) (signature : Signature) (key : String) :
    (table.store signature).atKey? key =
      if key = signature.key then some signature else table.atKey? key :=
  Entries.get?_put table.entries signature.key signature key

theorem storeAll_append (table : Table) (first second : List Signature) :
    table.storeAll (first ++ second) = (table.storeAll first).storeAll second :=
  List.foldl_append

/-- After signatures were stored, the keys are those of before and of the signatures. -/
theorem isSome_atKey?_storeAll (table : Table) (signatures : List Signature) (key : String) :
    ((table.storeAll signatures).atKey? key).isSome ↔
      (table.atKey? key).isSome ∨ ∃ signature ∈ signatures, signature.key = key := by
  induction signatures generalizing table with
  | nil => simp [storeAll]
  | cons signature rest ih =>
      change (((table.store signature).storeAll rest).atKey? key).isSome ↔ _
      rw [ih, atKey?_store]
      by_cases hKey : key = signature.key
      · simp [hKey]
      · simp [hKey, Ne.symm hKey]

/-- The keys of a table, in order. -/
def keys (table : Table) : List String :=
  table.entries.keys

theorem isSome_atKey?_iff (table : Table) (key : String) :
    (table.atKey? key).isSome ↔ key ∈ table.keys :=
  table.entries.isSome_get?_iff key

/-- Storing a signature keeps the order of the keys, with a new one at the end. -/
theorem keys_store (table : Table) (signature : Signature) :
    (table.store signature).keys =
      if signature.key ∈ table.keys then table.keys else table.keys ++ [signature.key] :=
  table.entries.keys_put signature.key signature

/-- Every signature of a table stands under its own key. -/
theorem atKey?_of_mem {table : Table} {signature : Signature}
    (h : signature ∈ table.signatures) : table.atKey? signature.key = some signature := by
  obtain ⟨entry, hEntry, rfl⟩ := List.mem_map.mp h
  rw [← table.own entry hEntry]
  exact Entries.get?_of_mem table.distinct hEntry

/-- What stands under a key is the signature of the table with this key. -/
theorem atKey?_eq_some_iff {table : Table} {key : String} {signature : Signature} :
    table.atKey? key = some signature ↔ signature ∈ table.signatures ∧ signature.key = key := by
  constructor
  · intro hFound
    have hEntry := Entries.mem_of_get? hFound
    exact ⟨List.mem_map_of_mem hEntry, (table.own _ hEntry).symm⟩
  · rintro ⟨hMem, rfl⟩
    exact atKey?_of_mem hMem

theorem map_key (table : Table) : table.signatures.map (·.key) = table.keys := by
  rw [signatures, List.map_map]
  exact List.map_congr_left fun entry hEntry => (table.own entry hEntry).symm

/-- Keys that are new go to the end, in the order in which they come first. -/
theorem keys_storeAll (table : Table) (signatures : List Signature) :
    (table.storeAll signatures).keys =
      table.keys ++ ((signatures.map (·.key)).removeAll table.keys).eraseDups := by
  induction signatures generalizing table with
  | nil => simp [storeAll, List.removeAll]
  | cons signature rest ih =>
      change ((table.store signature).storeAll rest).keys = _
      rw [ih, keys_store, List.map_cons]
      by_cases hKey : signature.key ∈ table.keys
      · simp [hKey, List.removeAll]
      · simp [hKey, List.removeAll, List.eraseDups_cons, List.filter_filter, Bool.and_comm,
          beq_eq_decide]

/-- The last signature stored under a key is found there. -/
theorem atKey?_storeAll (table : Table) (signatures : List Signature) (key : String) :
    (table.storeAll signatures).atKey? key =
      (signatures.reverse.find? fun signature => signature.key = key).or (table.atKey? key) := by
  induction signatures generalizing table with
  | nil => simp [storeAll]
  | cons signature rest ih =>
      change ((table.store signature).storeAll rest).atKey? key = _
      rw [ih, atKey?_store, List.reverse_cons, List.find?_append, Option.or_assoc]
      by_cases hKey : signature.key = key
      · simp [hKey]
      · simp [hKey, Ne.symm hKey]

/-- Storing signatures adds no others. -/
theorem mem_signatures_storeAll {table : Table} {signatures : List Signature}
    {signature : Signature} (h : signature ∈ (table.storeAll signatures).signatures) :
    signature ∈ table.signatures ∨ signature ∈ signatures := by
  induction signatures generalizing table with
  | nil => exact .inl h
  | cons first rest ih =>
      rcases ih h with hTable | hRest
      · obtain ⟨entry, hEntry, rfl⟩ := List.mem_map.mp hTable
        rcases Entries.mem_put hEntry with rfl | hOld
        · exact .inr List.mem_cons_self
        · exact .inl (List.mem_map_of_mem hOld)
      · exact .inr (List.mem_cons_of_mem first hRest)

/-- What is stored last under its key may be stored first as well, if no new keys come between. -/
theorem store_storeAll_store {table : Table} (signature : Signature) (signatures : List Signature)
    (h : ∀ other ∈ signatures, other.key ∈ table.keys) :
    ((table.store signature).storeAll signatures).store signature =
      (table.storeAll signatures).store signature := by
  induction signatures generalizing table with
  | nil => exact Table.ext (Entries.put_put_self _ _ _ _)
  | cons first rest ih =>
      obtain ⟨hFirst, hRest⟩ := List.forall_mem_cons.mp h
      change (((table.store signature).store first).storeAll rest).store signature =
        ((table.store first).storeAll rest).store signature
      by_cases hKeys : first.key = signature.key
      · have hSame : (table.store signature).store first = table.store first := by
          refine Table.ext ?_
          simp only [store, hKeys, Entries.put_put_self]
        rw [hSame]
      · have hSwap : (table.store signature).store first = (table.store first).store signature :=
          Table.ext (Entries.put_put_comm _ _ hFirst hKeys)
        rw [hSwap]
        refine ih fun other hOther => ?_
        rw [keys_store, if_pos hFirst]
        exact hRest other hOther

/-- Storing the same signatures once more changes nothing. -/
theorem storeAll_storeAll (table : Table) (signatures : List Signature) :
    (table.storeAll signatures).storeAll signatures = table.storeAll signatures := by
  induction signatures using List.reverseRecOn with
  | nil => rfl
  | append_singleton earlier last ih =>
      have hKnown : ∀ other ∈ earlier, other.key ∈ (table.storeAll earlier).keys := by
        intro other hOther
        rw [← isSome_atKey?_iff, isSome_atKey?_storeAll]
        exact .inr ⟨other, hOther, rfl⟩
      calc (table.storeAll (earlier ++ [last])).storeAll (earlier ++ [last])
          = (((table.storeAll earlier).store last).storeAll earlier).store last := by
            rw [storeAll_append, storeAll_append]
            rfl
        _ = ((table.storeAll earlier).storeAll earlier).store last :=
            store_storeAll_store last earlier hKnown
        _ = table.storeAll (earlier ++ [last]) := by
            rw [ih, storeAll_append]
            rfl

end Table

end SignatureIndex
