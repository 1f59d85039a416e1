import SignatureIndex.Proofs.LogicalLine
import SignatureIndex.Proofs.Table
import SignatureIndex.Source.Script

/-! Scripts scanned into a table. After any run of scans and clearings the table is an ordered map
of the signatures found since it was last cleared: under each key the signature found last, and the
keys in the order in which they were found first. Scanning the same scripts once more changes
nothing. -/
namespace SignatureIndex

/-- A signature is filed under the key of its name. -/
theorem Signature.key_of_extract? {text : List Char} {enclosing : Option Enclosing}
    {source : Option String} {line : Option Int} {signature : Signature}
    (h : extract? text enclosing source line = some signature) :
    signature.key = keyOf signature.name := by
  obtain ⟨declaration, -, -, rfl⟩ := Scan.exists_declaration_of_extract? h
  rfl

namespace Table

/-- A script with its source. -/
abbrev Script := String × Option String

/-- A named script, which is its own source. -/
def sourced (script : Source.Script) : Script :=
  (script.text, some script.identifier)

/-- What is done to a table. -/
inductive Operation where
  | scan (script : Script)
  | clear

/-- The table after a script was scanned into it. -/
def scan (table : Table) (script : Script) : Table :=
  (Scan.intoTable table script.1 script.2).1

def apply (table : Table) : Operation → Table
  | .scan script => table.scan script
  | .clear => .empty

def run (table : Table) (ops : List Operation) : Table :=
  ops.foldl apply table

/-- The signatures that a script declares. -/
def declared (script : Script) : List Signature :=
  Scan.signatures script.1.toList script.2

/-- How many signatures scripts declare. -/
def declaredCount : List Script → Nat
  | [] => 0
  | script :: rest => (declared script).length + declaredCount rest

/-- The signatures found since the table was last cleared. Earlier ones are given. -/
def foundSince (earlier : List Signature) : List Operation → List Signature
  | [] => earlier
  | .scan script :: rest => foundSince (earlier ++ declared script) rest
  | .clear :: rest => foundSince [] rest

/-- Scanning a script stores what it declares, in order. -/
theorem scan_eq (table : Table) (script : Script) :
    table.scan script = table.storeAll (declared script) :=
  rfl

theorem declaredCount_append (first second : List Script) :
    declaredCount (first ++ second) = declaredCount first + declaredCount second := by
  induction first with
  | nil => rw [List.nil_append, declaredCount, Nat.zero_add]
  | cons script rest ih => rw [List.cons_append, declaredCount, declaredCount, ih, Nat.add_assoc]

theorem key_of_declared {script : Script} {signature : Signature}
    (h : signature ∈ declared script) : signature.key = Signature.keyOf signature.name := by
  obtain ⟨_, _, _, hExtract⟩ := Scan.exists_extract?_of_mem_readScript h
  exact Signature.key_of_extract? hExtract

/-- After a run the table holds what was found since it was last cleared. -/
theorem run_storeAll (earlier : List Signature) (ops : List Operation) :
    run (empty.storeAll earlier) ops = empty.storeAll (foundSince earlier ops) := by
  induction ops generalizing earlier with
  | nil => rfl
  | cons op rest ih =>
      cases op with
      | scan script =>
          change run ((empty.storeAll earlier).scan script) rest = _
          rw [scan_eq, ← storeAll_append]
          exact ih (earlier ++ declared script)
      | clear => exact ih []

/-- Every signature found since is filed under the key of its name. -/
theorem key_of_foundSince {earlier : List Signature} {ops : List Operation}
    (hEarlier : ∀ signature ∈ earlier, signature.key = Signature.keyOf signature.name) :
    ∀ signature ∈ foundSince earlier ops,
      signature.key = Signature.keyOf signature.name := by
  induction ops generalizing earlier with
  | nil => exact hEarlier
  | cons op rest ih =>
      cases op with
      | scan script =>
          apply ih
          intro signature hMem
          rcases List.mem_append.mp hMem with hOld | hNew
          · exact hEarlier signature hOld
          · exact key_of_declared hNew
      | clear => exact ih fun _ hNone => absurd hNone List.not_mem_nil

/-- Scanning scripts one after the other stores all that they declare. -/
theorem foldl_scan (table : Table) (scripts : List Script) :
    scripts.foldl scan table = table.storeAll (scripts.flatMap declared) := by
  induction scripts generalizing table with
  | nil => rfl
  | cons script rest ih =>
      rw [List.foldl_cons, ih, scan_eq, ← storeAll_append, List.flatMap_cons]

theorem source_of_declared {script : Script} {signature : Signature}
    (h : signature ∈ declared script) : signature.source = script.2 := by
  obtain ⟨_, _, _, hExtract⟩ := Scan.exists_extract?_of_mem_readScript h
  obtain ⟨declaration, -, -, rfl⟩ := Scan.exists_declaration_of_extract? hExtract
  rfl

/-- Under a key that a later script declares, the table holds what a later script declares. -/
theorem exists_atKey?_of_later (table : Table) (earlier : List Script) {later : List Script}
    {script : Script} {signature : Signature} (hScript : script ∈ later)
    (hSignature : signature ∈ declared script) :
    ∃ winner, ((earlier ++ later).foldl scan table).atKey? signature.key = some winner ∧
      ∃ other ∈ later, winner ∈ declared other := by
  have hFound : ((later.flatMap declared).reverse.find? fun other =>
      other.key = signature.key).isSome := by
    rw [List.find?_isSome]
    exact ⟨signature, List.mem_reverse.mpr (List.mem_flatMap_of_mem hScript hSignature), by simp⟩
  obtain ⟨winner, hWinner⟩ := Option.isSome_iff_exists.mp hFound
  refine ⟨winner, ?_, ?_⟩
  · rw [List.foldl_append, foldl_scan, atKey?_storeAll, hWinner, Option.some_or]
  · exact List.mem_flatMap.mp (List.mem_reverse.mp (List.mem_of_find?_eq_some hWinner))

/-- The last writer wins. After a run each name leads to the signature found last under its key
since the table was last cleared, and the table lists its keys in the order in which they were found
first. A scan counts all signatures found, but only new keys make the table grow. Scanning scripts
once more leaves any table as it is. -/
theorem last_writer_wins (ops : List Operation) :
    let table := run empty ops
    let found := foundSince [] ops
    (table.keys.Nodup ∧ ∀ entry ∈ table.entries, entry.1 = entry.2.key ∧
      entry.2.key = Signature.keyOf entry.2.name ∧ table.lookup? entry.2.name = some entry.2) ∧
    (∀ name, table.lookup? name =
      found.reverse.find? fun signature => signature.key = Signature.keyOf name) ∧
    table.signatures.map (·.key) = (found.map (·.key)).eraseDups ∧
    (∀ script : Script,
      (Scan.intoTable table script.1 script.2).2.1 = (declared script).length ∧
      (table.scan script).size = table.size +
        (((declared script).map (·.key)).filter (· ∉ table.keys)).eraseDups.length) ∧
    ∀ (other : Table) (scripts : List Script),
      scripts.foldl scan (scripts.foldl scan other) = scripts.foldl scan other := by
  intro table found
  have hTable : table = empty.storeAll found := run_storeAll [] ops
  have hLookup (name : String) : table.lookup? name =
      found.reverse.find? fun signature => signature.key = Signature.keyOf name := by
    rw [lookup?, hTable, atKey?_storeAll]
    exact Option.or_none
  have hNames : ∀ signature ∈ found, signature.key = Signature.keyOf signature.name :=
    key_of_foundSince fun _ hNone => absurd hNone List.not_mem_nil
  refine ⟨⟨table.distinct, ?_⟩, hLookup, ?_, ?_, ?_⟩
  · intro entry hEntry
    have hAt := atKey?_of_mem (List.mem_map_of_mem hEntry)
    -- what the table holds under a key is among what was found
    have hFound : entry.2 ∈ found := by
      rw [hTable, atKey?_storeAll] at hAt
      exact List.mem_reverse.mp (List.mem_of_find?_eq_some (Option.or_none.symm.trans hAt))
    have hName := hNames entry.2 hFound
    refine ⟨table.own entry hEntry, hName, ?_⟩
    rw [lookup?, ← hName]
    exact atKey?_of_mem (List.mem_map_of_mem hEntry)
  · rw [map_key, hTable, keys_storeAll]
    simp [empty, keys, Entries.keys, List.removeAll]
  · intro script
    refine ⟨rfl, ?_⟩
    have hSize (any : Table) : any.size = any.keys.length := by
      rw [size, keys, Entries.keys, List.length_map]
    rw [hSize, hSize, scan_eq, keys_storeAll, List.length_append]
    simp [List.removeAll]
  · intro other scripts
    rw [foldl_scan, foldl_scan, storeAll_storeAll]

/-- A name found again in another spelling keeps its place and takes the new signature. -/
theorem last_writer_of_two_spellings :
    let first : Script := ("class A\n\x7b\nint F();\nint G();\n\x7d", none)
    let second : Script := ("class B\n\x7b\nvoid f(int a);\n\x7d", some "b.zs")
    let table := run empty [.scan second, .clear, .scan first, .scan second]
    table.signatures.map (·.key) = ["f", "g"] ∧
      (table.lookup? "F").map (·.label) = some "void f(int a)" := by
  intro first second table
  obtain ⟨-, hLookup, hOrder, -, -⟩ :=
    last_writer_wins [.scan second, .clear, .scan first, .scan second]
  rw [hLookup, hOrder]
  decide +kernel

end Table

end SignatureIndex
