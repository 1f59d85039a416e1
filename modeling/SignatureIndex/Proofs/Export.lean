import SignatureIndex.Export
import SignatureIndex.Proofs.FileTree
import SignatureIndex.Proofs.Record
import SignatureIndex.Proofs.Utf8

/-! An export holds one line for each entry of the table, and reading it gives the entries back in
the order of their keys. -/
namespace SignatureIndex

namespace Text

theorem unifyNewlines_eq_self {cs : List Char} (h : '\r' ∉ cs) : unifyNewlines cs = cs := by
  induction cs with
  | nil => rfl
  | cons c rest ih =>
      obtain ⟨hc, hRest⟩ := not_or.mp (mt List.mem_cons.mpr h)
      rw [unifyNewlines, ih hRest, if_neg (Ne.symm hc)]
      simp [Ne.symm hc]

/-- Lines that each end in a separator are the joined lines with an empty one at the end. -/
theorem flatMap_eq_intercalate (sep : Char) (lines : List (List Char)) :
    lines.flatMap (· ++ [sep]) = List.intercalate [sep] (lines ++ [[]]) := by
  induction lines with
  | nil => simp
  | cons line rest ih =>
      rw [List.flatMap_cons, ih, List.cons_append,
        List.intercalate_cons_of_ne_nil (by simp)]

/-- Lines that each end with a separator are followed by an empty piece. -/
theorem splitOn_flatMap {sep : Char} {lines : List (List Char)} (h : ∀ line ∈ lines, sep ∉ line) :
    List.splitOn sep (lines.flatMap (· ++ [sep])) = lines ++ [[]] := by
  rw [flatMap_eq_intercalate]
  refine List.splitOn_intercalate sep (fun piece hPiece => ?_) (by simp)
  rcases List.mem_append.mp hPiece with hLine | hEmpty
  · exact h piece hLine
  · rw [List.mem_singleton.mp hEmpty]
    exact List.not_mem_nil

/-- Lines without control characters are found again in the bytes of a file. -/
theorem ofBytes_flatMap {lines : List (List Char)}
    (h : ∀ line ∈ lines, ∀ c ∈ line, 0x20 ≤ c.toNat) :
    Lines.ofBytes (encodeUtf8 (lines.flatMap (· ++ ['\n']))) = ⟨lines ++ [[]], true⟩ := by
  have hAbsent {c : Char} (hc : c.toNat < 0x20) : ∀ line ∈ lines, c ∉ line := by
    intro line hLine hMem
    have := h line hLine c hMem
    omega
  have hReturn : '\r' ∉ lines.flatMap (· ++ ['\n']) := by
    intro hMem
    obtain ⟨line, hLine, hMem⟩ := List.mem_flatMap.mp hMem
    rcases List.mem_append.mp hMem with hMem | hFeed
    · exact hAbsent (by decide) line hLine hMem
    · exact absurd (List.mem_singleton.mp hFeed) (by decide)
  have hFeed : ∀ line ∈ lines, '\n' ∉ line := hAbsent (by decide)
  rw [Lines.ofBytes, decodeBlocks_encodeUtf8]
  simp only [unifyNewlines_eq_self hReturn, splitOn_flatMap hFeed]

end Text

namespace Export

open Text

/-- The text of a signature's line, without the line feed. -/
def lineOf (signature : Signature) : List Char :=
  Json.write (Json.sortFields signature.toValue)

/-- The bytes of a file that holds the lines of signatures. -/
def bytesOf (signatures : List Signature) : List UInt8 :=
  encodeUtf8 ((signatures.map lineOf).flatMap (· ++ ['\n']))

/-- The text of an export is one line for each signature. -/
theorem linesOf_map {signatures : List Signature}
    (h : ∀ signature ∈ signatures, signature.HasWords) :
    linesOf (signatures.map Signature.toValue) =
      ((signatures.map lineOf).flatMap (· ++ ['\n']), none) := by
  induction signatures with
  | nil => rfl
  | cons signature rest ih =>
      obtain ⟨hFirst, hRest⟩ := List.forall_mem_cons.mp h
      have hLine : line signature.toValue = .ok (lineOf signature ++ ['\n']) := by
        have hPlain := (Signature.plain_toValue hFirst).sortFields
        simp only [line, hPlain.unwritable?_eq_none (by decide : 3 ≤ nestingLimit), lineOf]
      simp only [List.map_cons, linesOf, hLine, ih hRest, List.flatMap_cons]

/-- A line of an export holds no control character, so that it is one line. -/
theorem toNat_of_mem_lineOf {signature : Signature} (h : signature.HasWords) {c : Char}
    (hc : c ∈ lineOf signature) : 0x20 ≤ c.toNat :=
  (Signature.plain_toValue h).sortFields.toNat_of_mem_write hc

theorem exists_sortFields (signature : Signature) :
    ∃ fields, Json.sortFields signature.toValue = .record fields :=
  ⟨_, by rw [Signature.toValue, Json.sortFields]⟩

/-- A line starts and ends with a brace. -/
theorem exists_lineOf (signature : Signature) :
    ∃ middle, lineOf signature = '\x7b' :: (middle ++ ['\x7d']) := by
  obtain ⟨fields, hFields⟩ := exists_sortFields signature
  exact ⟨_, by rw [lineOf, hFields, Json.write]⟩

/-- Lines of an export have no blanks at their ends. -/
theorem trim_lineOf (signature : Signature) : trim (lineOf signature) = lineOf signature := by
  obtain ⟨middle, hLine⟩ := exists_lineOf signature
  have hHead : ∀ c ∈ (lineOf signature).head?, ¬isBlank c = true := by
    intro c hc
    rw [hLine] at hc
    obtain rfl := Option.some.inj hc
    decide
  have hLast : ∀ c ∈ (lineOf signature).getLast?, ¬isBlank c = true := by
    intro c hc
    rw [hLine, ← List.cons_append, List.getLast?_concat] at hc
    obtain rfl := Option.some.inj hc
    decide
  exact trim_indent (List.forall_mem_nil _) hHead hLast

/-- A line of an export is read back as its record. -/
theorem read_lineOf {signature : Signature} (h : signature.HasWords) :
    Json.read readLimits (lineOf signature) = .ok (Json.sortFields signature.toValue) :=
  Json.read_write (Signature.plain_toValue h).sortFields (by decide) (by decide)

/-- The lines of an export are read back as their records. -/
theorem recordsIn_map {signatures : List Signature}
    (h : ∀ signature ∈ signatures, signature.HasWords) :
    recordsIn (signatures.map lineOf ++ [[]]) =
      .ok (signatures.map fun signature => Json.sortFields signature.toValue) := by
  induction signatures with
  | nil => rfl
  | cons signature rest ih =>
      obtain ⟨hFirst, hRest⟩ := List.forall_mem_cons.mp h
      have hRead := read_lineOf hFirst
      have hTrim := trim_lineOf signature
      obtain ⟨fields, hFields⟩ := exists_sortFields signature
      obtain ⟨middle, hLine⟩ := exists_lineOf signature
      rw [hLine] at hRead hTrim
      simp only [List.map_cons, List.cons_append, recordsIn, hLine, hTrim, hRead, hFields,
        ih hRest, Except.map]

/-- The records of an export are read back as their signatures. -/
theorem signaturesOf_map (signatures : List Signature) :
    signaturesOf (signatures.map fun signature => Json.sortFields signature.toValue) =
      .ok signatures := by
  induction signatures with
  | nil => rfl
  | cons signature rest ih =>
      rw [List.map_cons, signaturesOf, Signature.ofValue_sortFields, ih]
      rfl

/-- A file that holds the lines of signatures is read as these signatures. -/
theorem read_of_readBytes {signatures : List Signature}
    (h : ∀ signature ∈ signatures, signature.HasWords) {env : Environment} {file : Path}
    (hBytes : env.readBytes file = .ok (bytesOf signatures)) :
    read env file = .ok signatures := by
  have hLines : ∀ line ∈ signatures.map lineOf, ∀ c ∈ line, 0x20 ≤ c.toNat := by
    intro line hLine
    obtain ⟨signature, hSignature, rfl⟩ := List.mem_map.mp hLine
    exact fun _ => toNat_of_mem_lineOf (h signature hSignature)
  have hRead : readRecords env file =
      .ok (signatures.map fun signature => Json.sortFields signature.toValue) := by
    simp only [readRecords, Environment.readLines, hBytes, Except.map, bytesOf,
      ofBytes_flatMap hLines, recordsIn_map h, if_true]
  rw [read, hRead]
  exact signaturesOf_map signatures

/-- Sorting a table only reorders its signatures. -/
theorem sorted_perm (table : Table) : (sorted table).Perm table.signatures :=
  List.mergeSort_perm _ _

/-- The signatures of an export stand in the strict order of their keys. -/
theorem sorted_pairwise (table : Table) :
    (sorted table).Pairwise (·.key < ·.key) := by
  have hOrdered : (sorted table).Pairwise (·.key ≤ ·.key) := by
    have hPairwise := @List.pairwise_mergeSort Signature (fun a b => decide (a.key ≤ b.key))
      (fun a b c => by simpa using String.le_trans)
      (fun a b => by simpa using String.le_total a.key b.key) table.signatures
    simpa only [sorted, decide_eq_true_eq] using hPairwise
  have hDistinct : (sorted table).Pairwise (·.key ≠ ·.key) := by
    rw [← List.pairwise_map (R := (· ≠ ·))]
    change ((sorted table).map (·.key)).Nodup
    rw [((sorted_perm table).map _).nodup_iff, table.map_key]
    exact table.distinct
  refine hOrdered.imp₂ (fun a b hLe hNe => ?_) hDistinct
  exact String.not_le.mp fun hGe => hNe (String.le_antisymm hLe hGe)

/-- The file of an export if it can be opened: the directories on the way are made, and nothing is
written yet. -/
def opened (env : Environment) (path : Path) : Except Failure Path :=
  match target env path with
  | .error failure => .error failure
  | .ok file =>
    match env.makeDirectories file.parent with
    | (.error failure, _) => .error failure
    | (.ok (), prepared) => (prepared.writeFile file []).map fun _ => file

section Writing

variable {env : Environment} {path : Path} {table : Table}

/-- Records are written by one write of all their bytes. -/
theorem writeRecords_map {signatures : List Signature}
    (h : ∀ signature ∈ signatures, signature.HasWords) (env : Environment) (file : Path) :
    writeRecords env file (signatures.map Signature.toValue) =
      match env.writeFile file (bytesOf signatures) with
      | .error failure => (.error failure, env)
      | .ok written => (.ok (), written) := by
  simp only [writeRecords, linesOf_map h]
  rfl

/-- An export has one line for each entry of a table. -/
theorem length_sorted (table : Table) : (sorted table).length = table.size := by
  rw [(sorted_perm table).length_eq, Table.signatures, List.length_map, Table.size]

/-- A file that cannot be opened fails the export with this failure. -/
theorem write_of_opened_error (hWords : ∀ signature ∈ sorted table, signature.HasWords)
    {failure : Failure} (h : opened env path = .error failure) :
    (write env path table).1 = .error failure := by
  unfold opened at h
  unfold write
  cases hTarget : target env path with
  | error _ =>
      rw [hTarget] at h
      cases h
      rfl
  | ok file =>
      rcases hMade : env.makeDirectories file.parent with ⟨_ | _, prepared⟩
      · simp only [hTarget, hMade] at h ⊢
        cases h
        rfl
      · simp only [hTarget, hMade] at h ⊢
        cases hOpen : prepared.writeFile file [] with
        | error _ =>
            simp only [hOpen] at h
            cases h
            simp only [writeRecords_map hWords, Environment.writeFile_error hOpen]
        | ok _ =>
            simp only [hOpen] at h
            cases h

/-- A file that can be opened: where it is, and that its directory is there once it is made. -/
theorem exists_prepared {file : Path} (h : opened env path = .ok file) :
    ∃ prepared written, target env path = .ok file ∧
      env.makeDirectories file.parent = (.ok (), prepared) ∧
      prepared.writeFile file [] = .ok written := by
  unfold opened at h
  cases hTarget : target env path with
  | error _ =>
      rw [hTarget] at h
      cases h
  | ok target =>
      rcases hMade : env.makeDirectories target.parent with ⟨_ | _, prepared⟩
      · simp only [hTarget, hMade] at h
        cases h
      · simp only [hTarget, hMade] at h
        cases hOpen : prepared.writeFile target [] with
        | error _ =>
            simp only [hOpen] at h
            cases h
        | ok written =>
            simp only [hOpen] at h
            cases h
            exact ⟨prepared, written, rfl, hMade, hOpen⟩

/-- A file that can be opened takes the whole table. -/
theorem write_of_opened (hWords : ∀ signature ∈ sorted table, signature.HasWords)
    {file : Path} (h : opened env path = .ok file) :
    ∃ final, write env path table = (.ok table.size, final) ∧
      final.readBytes file = .ok (bytesOf (sorted table)) := by
  obtain ⟨prepared, _, hTarget, hMade, hOpen⟩ := exists_prepared h
  obtain ⟨final, hFinal⟩ := Environment.exists_writeFile hOpen (bytesOf (sorted table))
  refine ⟨final, ?_, Environment.readBytes_of_writeFile hFinal⟩
  simp only [write, hTarget, hMade, writeRecords_map hWords, hFinal, List.length_map,
    length_sorted]

end Writing

/-- An export is read back. If its file cannot be opened, writing fails with that failure. Otherwise
it gives the number of entries, the file has a line for each of them, and reading the file gives the
signatures of the table in the order of their keys. -/
theorem read_gives_back_table (env : Environment) (path : Path) (table : Table)
    (hWords : ∀ signature ∈ table.signatures, signature.HasWords) :
    (∀ failure, opened env path = .error failure →
      (write env path table).1 = .error failure) ∧
    ∀ file, opened env path = .ok file →
      ∃ final signatures, ∃ lines : List (List Char),
        write env path table = (.ok table.size, final) ∧
        read final file = .ok signatures ∧ signatures.Perm table.signatures ∧
        signatures.Pairwise (·.key < ·.key) ∧
        final.readBytes file = .ok (encodeUtf8 (lines.flatMap (· ++ ['\n']))) ∧
        lines.length = table.size ∧ ∀ line ∈ lines, line ≠ [] ∧ ∀ c ∈ line, 0x20 ≤ c.toNat := by
  have hSorted : ∀ signature ∈ sorted table, signature.HasWords := fun signature hSignature =>
    hWords signature ((sorted_perm table).mem_iff.mp hSignature)
  have hLines : ∀ line ∈ (sorted table).map lineOf, line ≠ [] ∧ ∀ c ∈ line, 0x20 ≤ c.toNat := by
    intro line hLine
    obtain ⟨signature, hSignature, rfl⟩ := List.mem_map.mp hLine
    obtain ⟨middle, hShape⟩ := exists_lineOf signature
    exact ⟨by simp [hShape], fun _ => toNat_of_mem_lineOf (hSorted signature hSignature)⟩
  refine ⟨fun failure hFailure => write_of_opened_error hSorted hFailure, fun file hFile => ?_⟩
  obtain ⟨final, hWrite, hBytes⟩ := write_of_opened hSorted hFile
  exact ⟨final, sorted table, (sorted table).map lineOf, hWrite, read_of_readBytes hSorted hBytes,
    sorted_perm table, sorted_pairwise table, hBytes, by rw [List.length_map, length_sorted],
    hLines⟩

/-- A signature whose texts hold what an export has to escape, and characters at which other readers
break lines. -/
def awkward : Signature where
  name := "Na\"me\\"
  key := "na\"me\\"
  returnType := "\u0000\u001f\u007f"
  parameters := [⟨"p\r\n", "\t\u0008\u000c", -0x8000000000000000⟩,
    ⟨"", "\u0085\u2028\u2029", 0xFFFFFFFFFFFFFFFF⟩]
  label := "\u00e9\ud7ff\uffff"
  documentation := "𝄞\n\n"
  qualifiers := ["/", " "]
  source := none
  line := some 0

theorem awkward_table_is_read_back :
    let env : Environment := { tree := .empty, working := [], stands := rfl }
    let table := (Table.empty.store awkward).store { awkward with key := "a", line := none }
    opened env (.ofString "out/a.jsonl") = .ok (.ofString "out/a.jsonl") ∧
    ∃ final signatures, write env (.ofString "out/a.jsonl") table = (.ok 2, final) ∧
      read final (.ofString "out/a.jsonl") = .ok signatures ∧
      signatures.Perm table.signatures ∧ signatures.Pairwise (·.key < ·.key) := by
  intro env table
  have hWords : ∀ signature ∈ table.signatures, signature.HasWords := by decide +kernel
  have hOpened : opened env (.ofString "out/a.jsonl") = .ok (.ofString "out/a.jsonl") := by
    decide +kernel
  obtain ⟨final, signatures, lines, hWrite, hRead, hPerm, hOrder, -⟩ :=
    (read_gives_back_table env (.ofString "out/a.jsonl") table hWords).2 _ hOpened
  exact ⟨hOpened, final, signatures, hWrite, hRead, hPerm, hOrder⟩

end Export

end SignatureIndex
