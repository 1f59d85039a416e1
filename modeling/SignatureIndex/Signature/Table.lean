import SignatureIndex.Signature
import SignatureIndex.Value

/-! The signature table: at most one signature under each key, in the order in which the keys
were first stored. Storing under a key that is present replaces the signature in place. -/
namespace SignatureIndex

/-- A signature table: no key occurs twice, and each signature stands under its own key. -/
@[ext] structure Table where
  entries : Entries Signature
  distinct : entries.keys.Nodup
  own : ∀ entry ∈ entries, entry.1 = entry.2.key

namespace Table

def empty : Table where
  entries := []
  distinct := List.nodup_nil
  own := fun _ hNone => absurd hNone List.not_mem_nil

/-- Stores a signature under its own key. -/
def store (table : Table) (signature : Signature) : Table where
  entries := table.entries.put signature.key signature
  distinct := Entries.nodup_keys_put table.distinct signature.key signature
  own := fun entry hEntry => (Entries.mem_put hEntry).elim (fun hNew => by rw [hNew])
    (table.own entry)

def storeAll (table : Table) (signatures : List Signature) : Table :=
  signatures.foldl store table

def atKey? (table : Table) (key : String) : Option Signature :=
  table.entries.get? key

/-- The signature of a name, in any spelling of its case. -/
def lookup? (table : Table) (name : String) : Option Signature :=
  table.atKey? (Signature.keyOf name)

def contains (table : Table) (name : String) : Bool :=
  (table.lookup? name).isSome

def signatures (table : Table) : List Signature :=
  table.entries.map (·.2)

def size (table : Table) : Nat :=
  table.entries.length

/-- Completions for a typed start of a name, in table order. -/
def completions (table : Table) (start : String) : List Completion :=
  let folded := Text.fold start.toList
  (table.entries.filter fun entry => folded.isPrefixOf entry.1.toList).map (·.2.completion)

end Table

end SignatureIndex
