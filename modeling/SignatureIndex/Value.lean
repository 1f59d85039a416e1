import SignatureIndex.Value.Binary64

/-! Values of the data formats that the program reads and writes, and keys with values in order of
first insertion. -/
namespace SignatureIndex

abbrev Entries (α : Type) := List (String × α)

namespace Entries

variable {α : Type}

/-- Puts a value under a key: in place if the key is present, else at the end. -/
def put (key : String) (value : α) : Entries α → Entries α
  | [] => [(key, value)]
  | entry :: rest =>
    if entry.1 = key then (key, value) :: rest else entry :: put key value rest

def get? (entries : Entries α) (key : String) : Option α :=
  List.lookup key entries

def keys (entries : Entries α) : List String :=
  entries.map (·.1)

theorem keys_put (entries : Entries α) (key : String) (value : α) :
    (entries.put key value).keys =
      if key ∈ entries.keys then entries.keys else entries.keys ++ [key] := by
  induction entries with
  | nil => simp [put, keys]
  | cons entry rest ih =>
      rw [put]
      by_cases hFirst : entry.1 = key
      · simp [keys, hFirst]
      · have hMem : key ∈ keys (entry :: rest) ↔ key ∈ keys rest := by
          simp [keys, Ne.symm hFirst]
        rw [if_neg hFirst]
        change entry.1 :: (put key value rest).keys = _
        by_cases hKey : key ∈ keys rest
        · rw [ih, if_pos hKey, if_pos (hMem.mpr hKey)]
          rfl
        · rw [ih, if_neg hKey, if_neg (mt hMem.mp hKey)]
          rfl

theorem nodup_keys_put {entries : Entries α} (h : entries.keys.Nodup) (key : String) (value : α) :
    (entries.put key value).keys.Nodup := by
  rw [keys_put]
  split
  · exact h
  · next hNew =>
      refine List.nodup_append.mpr ⟨h, List.nodup_cons.mpr ⟨List.not_mem_nil, .nil⟩, ?_⟩
      rintro key hKey other hOther rfl
      rw [List.mem_singleton.mp hOther] at hKey
      exact hNew hKey

theorem mem_put {entries : Entries α} {key : String} {value : α} {entry : String × α}
    (h : entry ∈ entries.put key value) : entry = (key, value) ∨ entry ∈ entries := by
  induction entries with
  | nil => exact .inl (List.mem_singleton.mp h)
  | cons first rest ih =>
      rw [put] at h
      split at h
      · rcases List.mem_cons.mp h with hSame | hRest
        · exact .inl hSame
        · exact .inr (List.mem_cons_of_mem first hRest)
      · rcases List.mem_cons.mp h with hSame | hRest
        · exact .inr (List.mem_cons.mpr (.inl hSame))
        · exact (ih hRest).imp_right (List.mem_cons_of_mem first)

end Entries

structure Date where
  year : Nat
  month : Nat
  day : Nat
  deriving DecidableEq, Repr

structure TimeOfDay where
  hour : Nat
  minute : Nat
  second : Nat
  microsecond : Nat
  deriving DecidableEq, Repr

/-- A date, a time of day, or both with an optional distance from universal time in minutes. -/
inductive Moment where
  | date (date : Date)
  | time (time : TimeOfDay)
  | dateTime (date : Date) (time : TimeOfDay) (offset : Option Int)
  deriving DecidableEq, Repr

/-- A value. Whole numbers and floating-point numbers are kept apart, and the fields of a record
keep their order. -/
inductive Value where
  | null
  | bool (b : Bool)
  | integer (n : Int)
  | real (x : Binary64)
  | text (s : String)
  | moment (m : Moment)
  | list (items : List Value)
  | record (fields : List (String × Value))

namespace Value

instance : Inhabited Value := ⟨.null⟩

def field? (value : Value) (name : String) : Option Value :=
  match value with
  | .record fields => Entries.get? fields name
  | _ => none

/-- The name of a value's kind, as messages show it. -/
def kindName : Value → String
  | .null => "NoneType"
  | .bool _ => "bool"
  | .integer _ => "int"
  | .real _ => "float"
  | .text _ => "str"
  | .moment (.date _) => "datetime.date"
  | .moment (.time _) => "datetime.time"
  | .moment (.dateTime _ _ _) => "datetime.datetime"
  | .list _ => "list"
  | .record _ => "dict"

/-- Whether a value says yes where a flag is asked for: all but null, false, zero and what is
empty. -/
def isSet : Value → Bool
  | .null => false
  | .bool b => b
  | .integer n => n ≠ 0
  | .real (.finite _ mantissa _) => mantissa ≠ 0
  | .text s => s ≠ ""
  | .list items => !items.isEmpty
  | .record fields => !fields.isEmpty
  | _ => true

end Value

end SignatureIndex
