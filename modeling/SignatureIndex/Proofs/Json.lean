import SignatureIndex.Json.Reader
import SignatureIndex.Json.Writer
import SignatureIndex.Proofs.Table
import SignatureIndex.Proofs.Text

/-! Reading gives back what was written, for values without floating-point numbers and moments
whose records name no field twice. -/
namespace SignatureIndex.Json


section Strings

theorem hexNumber?_hexDigits : ∀ n < 0x20, hexNumber? (Text.hexDigits 4 n) = some n := by
  decide

theorem length_hexDigits : ∀ n < 0x20, (Text.hexDigits 4 n).length = 4 := by
  decide

theorem all_hexDigits : ∀ n < 0x20, (Text.hexDigits 4 n).all (0x20 ≤ ·.toNat) = true := by
  decide

/-- A character inside quotes has a short escape, four digits if it is another control character,
or stands for itself. -/
theorem writeChar_cases (c : Char) :
    (∃ escape, shortEscape? escape = some c ∧ 0x20 ≤ escape.toNat ∧ escape ≠ 'u' ∧
      writeChar c = ['\\', escape]) ∨
    (c.toNat < 0x20 ∧ writeChar c = '\\' :: 'u' :: Text.hexDigits 4 c.toNat) ∨
    (0x20 ≤ c.toNat ∧ c ≠ '"' ∧ c ≠ '\\' ∧ writeChar c = [c]) := by
  unfold writeChar
  split_ifs with hQuote hBack hTab hFeed hForm hReturn hControl
  · have hShort : shortEscape? c = some c := by rw [shortEscape?, if_pos (hQuote.imp_right .inl)]
    refine .inl ⟨c, hShort, ?_, ?_, rfl⟩ <;> rcases hQuote with rfl | rfl <;> decide
  · exact .inl ⟨'b', by simp [shortEscape?, hBack], by decide, by decide, rfl⟩
  · exact .inl ⟨'t', by simp [shortEscape?, hTab], by decide, by decide, rfl⟩
  · exact .inl ⟨'n', by simp [shortEscape?, hFeed], by decide, by decide, rfl⟩
  · exact .inl ⟨'f', by simp [shortEscape?, hForm], by decide, by decide, rfl⟩
  · exact .inl ⟨'r', by simp [shortEscape?, hReturn], by decide, by decide, rfl⟩
  · exact .inr (.inl ⟨hControl, rfl⟩)
  · obtain ⟨hQuote, hSlash⟩ := not_or.mp hQuote
    exact .inr (.inr ⟨by omega, hQuote, hSlash, rfl⟩)

/-- No control character is written. -/
theorem toNat_of_mem_writeChar {c d : Char} (h : d ∈ writeChar c) : 0x20 ≤ d.toNat := by
  rcases writeChar_cases c with ⟨escape, -, hEscape, -, hWritten⟩ | ⟨hControl, hWritten⟩ |
      ⟨hSelf, -, -, hWritten⟩
  · rw [hWritten] at h
    rcases List.mem_pair.mp h with rfl | rfl
    · decide
    · exact hEscape
  · rw [hWritten] at h
    rcases List.mem_cons.mp h with rfl | h
    · decide
    · rcases List.mem_cons.mp h with rfl | h
      · decide
      · simpa using List.all_eq_true.mp (all_hexDigits _ hControl) d h
  · rw [hWritten] at h
    rw [List.mem_singleton.mp h]
    exact hSelf

/-- A control character is read from its digits, whatever escape comes next. -/
theorem readString_control {n : Nat} (h : n < 0x20) (rest : List Char) :
    readString ('\\' :: 'u' :: Text.hexDigits 4 n ++ rest) =
      before (Char.ofNat n) (readString rest) := by
  have hCode := hexNumber?_hexDigits n h
  have hHigh : isHighSurrogate n = false := by simp [isHighSurrogate]; omega
  have hLow : isLowSurrogate n = false := by simp [isLowSurrogate]; omega
  have hChar : charOfCode n = Char.ofNat n := by simp [charOfCode, hHigh, hLow]
  match hDigits : Text.hexDigits 4 n, length_hexDigits n h with
  | [a, b, c, d], _ =>
      rw [hDigits] at hCode
      simp only [List.cons_append, List.nil_append]
      rw [readString]
      simp only [hCode]
      split
      · simp [hHigh, hChar]
      · rw [hChar]

/-- A character that was written is read back, escaped or not. -/
theorem readString_writeChar (c : Char) (rest : List Char) :
    readString (writeChar c ++ rest) = before c (readString rest) := by
  rcases writeChar_cases c with ⟨escape, hShort, -, hNotCode, hWritten⟩ | ⟨hControl, hWritten⟩ |
      ⟨hSelf, hQuote, hSlash, hWritten⟩
  · simp [hWritten, readString, hShort, hNotCode]
  · rw [hWritten, readString_control hControl, Char.ofNat_toNat]
  · rw [hWritten, List.singleton_append, readString]
    · rw [if_neg (not_or.mpr ⟨hSlash, by omega⟩)]
    all_goals simp_all

/-- A text that was written is read back up to its closing quote. -/
theorem readString_writeText (s : String) (rest : List Char) :
    readString (s.toList.flatMap writeChar ++ '"' :: rest) = some (s.toList, rest) := by
  induction s.toList with
  | nil => simp [readString]
  | cons c cs ih =>
      rw [List.flatMap_cons, List.append_assoc, readString_writeChar, ih]
      rfl

theorem toNat_of_mem_writeText {s : String} {c : Char} (h : c ∈ writeText s) : 0x20 ≤ c.toNat := by
  rw [writeText, List.mem_cons, List.mem_append, List.mem_flatMap, List.mem_singleton] at h
  rcases h with rfl | ⟨plain, -, h⟩ | rfl
  · decide
  · exact toNat_of_mem_writeChar h
  · decide

end Strings

/-- What may follow a value: nothing, the next value, or the end of a list or record. -/
def Ended (rest : List Char) : Prop :=
  ∀ c ∈ rest.head?, c = ',' ∨ c = ']' ∨ c = '\x7d'

/-- Text that starts neither with a blank nor with the end of a list or record. -/
def Starts (text : List Char) : Prop :=
  ∃ first more, text = first :: more ∧ isSpace first = false ∧ first ≠ ']' ∧ first ≠ '\x7d'

theorem skipSpace_cons {c : Char} (h : isSpace c = false) (rest : List Char) :
    skipSpace (c :: rest) = c :: rest :=
  List.dropWhile_cons_of_neg (by simp [h])

/-- Nothing is skipped before a value that was written. -/
theorem Starts.skipSpace {text : List Char} (h : Starts text) : skipSpace text = text := by
  obtain ⟨first, more, rfl, hSpace, -⟩ := h
  exact skipSpace_cons hSpace more

theorem Starts.append {text : List Char} (h : Starts text) (rest : List Char) :
    Starts (text ++ rest) := by
  obtain ⟨first, more, rfl, hFirst⟩ := h
  exact ⟨first, more ++ rest, rfl, hFirst⟩

theorem intercalate_cons (piece next : List Char) (rest : List (List Char)) :
    List.intercalate [','] (piece :: next :: rest) =
      piece ++ ',' :: List.intercalate [','] (next :: rest) := by
  rw [List.intercalate_cons_cons, List.append_assoc]
  rfl

theorem Starts.intercalate {piece : List Char} (h : Starts piece) (rest : List (List Char)) :
    Starts (List.intercalate [','] (piece :: rest)) := by
  cases rest with
  | nil => simpa using h
  | cons next rest =>
      rw [intercalate_cons]
      exact h.append _

section Numbers

variable {rest : List Char}

theorem isDigit_of_mem_toDigits {n : Nat} {c : Char} (h : c ∈ Nat.toDigits 10 n) :
    isDigit c = true := by
  have hDigit := Nat.isDigit_of_mem_toDigits (by decide) (by decide) h
  simpa [isDigit, Char.isDigit, Char.le_def] using hDigit

/-- Every number is written with at least one digit. -/
theorem exists_toDigits (n : Nat) :
    ∃ digit more, Nat.toDigits 10 n = digit :: more ∧ isDigit digit = true := by
  obtain ⟨digit, more, hDigits⟩ := List.exists_cons_of_ne_nil (@Nat.toDigits_ne_nil n 10)
  exact ⟨digit, more, hDigits, isDigit_of_mem_toDigits (by rw [hDigits]; exact List.mem_cons_self)⟩

theorem ne_of_isDigit {digit c : Char} (hDigit : isDigit digit = true) (h : isDigit c = false) :
    digit ≠ c := by
  rintro rfl
  rw [h] at hDigit
  cases hDigit

theorem isDigit_bounds {c : Char} (h : isDigit c = true) : 0x30 ≤ c.toNat ∧ c.toNat ≤ 0x39 := by
  simpa [isDigit, Char.le_def, UInt32.le_iff_toNat_le] using h

theorem isSpace_eq_false_of_isDigit {c : Char} (h : isDigit c = true) : isSpace c = false := by
  rw [Bool.eq_false_iff]
  intro hSpace
  simp only [isSpace, Bool.or_eq_true, decide_eq_true_eq] at hSpace
  rcases hSpace with ((rfl | rfl) | rfl) | rfl <;> cases h

/-- The digits of a number are read back as this number. -/
theorem decimal_toDigits (n : Nat) : decimal (Nat.toDigits 10 n) = n := by
  have h := @Nat.ofDigitChars_ten_toDigits n
  rw [Nat.ofDigitChars_eq_foldl] at h
  simpa only [decimal, Nat.mul_comm] using h

/-- Only zero is written with a zero in front. -/
theorem eq_zero_of_toDigits {n : Nat} {digits : List Char} (h : Nat.toDigits 10 n = '0' :: digits) :
    n = 0 := by
  induction n using Nat.strongRecOn generalizing digits with
  | ind n ih =>
      rw [Nat.toDigits_eq_if (by decide)] at h
      split at h
      · next hSmall =>
          have hNone : ∀ n < 10, n.digitChar = '0' → n = 0 := by decide
          exact hNone n hSmall (List.cons.inj h).1
      · next hLarge =>
          obtain ⟨first, more, hFront, -⟩ := exists_toDigits (n / 10)
          rw [hFront, List.cons_append] at h
          rw [(List.cons.inj h).1] at hFront
          have hZero := ih (n / 10) (by omega) hFront
          omega

/-- What follows a value is nothing, a comma or a closing bracket. -/
theorem Ended.cases (h : Ended rest) :
    rest = [] ∨ ∃ c more, rest = c :: more ∧ (c = ',' ∨ c = ']' ∨ c = '\x7d') := by
  cases rest with
  | nil => exact .inl rfl
  | cons c more => exact .inr ⟨c, more, rfl, h c rfl⟩

theorem Ended.readFraction (h : Ended rest) : readFraction rest = ([], rest) := by
  rcases h.cases with rfl | ⟨c, more, rfl, rfl | rfl | rfl⟩ <;> rfl

theorem Ended.readExponent (h : Ended rest) : readExponent rest = (none, rest) := by
  rcases h.cases with rfl | ⟨c, more, rfl, rfl | rfl | rfl⟩ <;> rfl

theorem Ended.readDigits (h : Ended rest) (n : Nat) :
    readDigits (Nat.toDigits 10 n ++ rest) = (Nat.toDigits 10 n, rest) := by
  have hRest : rest.takeWhile isDigit = [] ∧ rest.dropWhile isDigit = rest := by
    rcases h.cases with rfl | ⟨c, more, rfl, rfl | rfl | rfl⟩ <;> exact ⟨rfl, rfl⟩
  have hDigits : ∀ c ∈ Nat.toDigits 10 n, isDigit c = true := fun _ => isDigit_of_mem_toDigits
  rw [Json.readDigits, List.takeWhile_append_of_pos hDigits, List.dropWhile_append_of_pos hDigits,
    hRest.1, hRest.2, List.append_nil]

theorem Ended.readWhole? (h : Ended rest) (n : Nat) :
    readWhole? (Nat.toDigits 10 n ++ rest) = some (Nat.toDigits 10 n, rest) := by
  obtain ⟨first, more, hDigits, -⟩ := exists_toDigits n
  have hRead := h.readDigits n
  by_cases hFirst : first = '0'
  · subst hFirst
    rw [eq_zero_of_toDigits hDigits]
    rfl
  · rw [hDigits] at hRead ⊢
    rw [List.cons_append] at hRead ⊢
    unfold Json.readWhole?
    split
    · simp_all
    · simp [hRead]

/-- A number that was written is read back, up to what ends it. -/
theorem Ended.readUnsigned (h : Ended rest) {limits : Limits} {n : Nat}
    (hLimit : (Nat.toDigits 10 n).length ≤ limits.digits) (negative : Bool) :
    readUnsigned limits negative (Nat.toDigits 10 n ++ rest) =
      .ok (.integer (if negative then -n else n), rest) := by
  simp [Json.readUnsigned, h.readWhole?, h.readFraction, h.readExponent, Nat.not_lt.mpr hLimit,
    decimal_toDigits]

/-- A negative number is written as a minus sign and the digits of its size. -/
theorem write_integer (n : Int) :
    write (.integer n) =
      if 0 ≤ n then Nat.toDigits 10 n.natAbs else '-' :: Nat.toDigits 10 n.natAbs := by
  rw [write, Int.toString_eq_repr, Int.repr_eq_if]
  split
  · have hAbs : n.toNat = n.natAbs := by omega
    rw [Nat.toList_repr, hAbs]
  · have hAbs : (-n).toNat = n.natAbs := by omega
    simp [hAbs]

/-- No word for a value is mistaken for a number. -/
theorem exists_word_start {word : String} (h : word ∈ wordValues.map Prod.fst) :
    ∃ first second more, word.toList = first :: second :: more ∧ isDigit first = false ∧
      isDigit second = false := by
  simp only [wordValues, List.map_cons, List.map_nil, List.mem_cons, List.not_mem_nil, or_false]
    at h
  rcases h with rfl | rfl | rfl | rfl | rfl | rfl <;> exact ⟨_, _, _, rfl, rfl, rfl⟩

/-- What starts with a digit, after a minus sign or not, is no word. -/
theorem findSome?_wordValues {digit : Char} (hDigit : isDigit digit = true) {cs more : List Char}
    (h : cs = digit :: more ∨ cs = '-' :: digit :: more) :
    (wordValues.findSome? fun (word, value) => (afterWord? word cs).map (value, ·)) = none := by
  rw [List.findSome?_eq_none_iff]
  rintro ⟨word, value⟩ hWord
  obtain ⟨first, second, end', hStart, hFirst, hSecond⟩ :=
    exists_word_start (List.mem_map_of_mem (f := Prod.fst) hWord)
  have hPrefix : word.toList.isPrefixOf cs = false := by
    rcases h with rfl | rfl
    · simp [hStart, List.isPrefixOf, (ne_of_isDigit hDigit hFirst).symm]
    · simp [hStart, List.isPrefixOf, (ne_of_isDigit hDigit hSecond).symm]
  simp [afterWord?, hPrefix]

/-- A number is not taken for a word. -/
theorem readScalar_write_integer (h : Ended rest) {limits : Limits} {n : Int}
    (hLimit : (Nat.toDigits 10 n.natAbs).length ≤ limits.digits) :
    readScalar limits (write (.integer n) ++ rest) = .ok (.integer n, rest) := by
  obtain ⟨digit, more, hDigits, hDigit⟩ := exists_toDigits n.natAbs
  have hRead := h.readUnsigned hLimit
  rw [hDigits, List.cons_append] at hRead
  rw [write_integer, hDigits]
  split
  · next hSign =>
      have hMinus : digit ≠ '-' := ne_of_isDigit hDigit (by decide)
      have hAbs : (n.natAbs : Int) = n := by omega
      rw [List.cons_append]
      unfold readScalar
      rw [findSome?_wordValues hDigit (.inl rfl)]
      simp [hMinus, hRead, hAbs]
  · next hSign =>
      have hAbs : -(n.natAbs : Int) = n := by omega
      rw [List.cons_append, List.cons_append, readScalar, findSome?_wordValues hDigit (.inr rfl)]
      simp only [hRead, if_true, hAbs]

end Numbers

/-- Values that reading gives back: whole numbers are words, no record names a field twice, and at
most so many lists and records lie in each other. -/
inductive Plain : Nat → Value → Prop where
  | null {room : Nat} : Plain room .null
  | bool {room : Nat} (b : Bool) : Plain room (.bool b)
  | integer {room : Nat} {n : Int} (h : isWord n = true) : Plain room (.integer n)
  | text {room : Nat} (s : String) : Plain room (.text s)
  | list {room : Nat} {items : List Value} (hItems : ∀ item ∈ items, Plain room item) :
      Plain (room + 1) (.list items)
  | record {room : Nat} {fields : List (String × Value)} (hNames : (Entries.keys fields).Nodup)
      (hFields : ∀ field ∈ fields, Plain room field.2) : Plain (room + 1) (.record fields)

section Parts

theorem writeItems_eq_map (items : List Value) : writeItems items = items.map write := by
  induction items with
  | nil => rfl
  | cons item rest ih => rw [writeItems, ih, List.map_cons]

def writeField (field : String × Value) : List Char :=
  writeText field.1 ++ ':' :: write field.2

theorem writeFields_eq_map (fields : List (String × Value)) :
    writeFields fields = fields.map writeField := by
  induction fields with
  | nil => rfl
  | cons field rest ih => rw [writeFields, ih, List.map_cons, writeField]

theorem sortFieldsOfItems_eq_map (items : List Value) :
    sortFieldsOfItems items = items.map sortFields := by
  induction items with
  | nil => rfl
  | cons item rest ih => rw [sortFieldsOfItems, ih, List.map_cons]

theorem sortFieldsOfFields_eq_map (fields : List (String × Value)) :
    sortFieldsOfFields fields = fields.map fun field => (field.1, sortFields field.2) := by
  induction fields with
  | nil => rfl
  | cons field rest ih => rw [sortFieldsOfFields, ih, List.map_cons]

theorem unwritableItem?_eq_none_iff {room : Nat} {items : List Value} :
    unwritableItem? room items = none ↔ ∀ item ∈ items, unwritable? room item = none := by
  induction items with
  | nil => simp [unwritableItem?]
  | cons item rest ih => simp [unwritableItem?, ih]

theorem unwritableField?_eq_none_iff {room : Nat} {fields : List (String × Value)} :
    unwritableField? room fields = none ↔ ∀ field ∈ fields, unwritable? room field.2 = none := by
  induction fields with
  | nil => simp [unwritableField?]
  | cons field rest ih => simp [unwritableField?, ih]

end Parts

namespace Plain

variable {room : Nat} {value : Value}

/-- Whatever is plain within some room can be written within at least that room. -/
theorem unwritable?_eq_none (h : Plain room value) {more : Nat} (hMore : room ≤ more) :
    unwritable? more value = none := by
  induction h generalizing more with
  | null | bool | text => rw [unwritable?.eq_def]
  | integer h => rw [unwritable?, if_pos h]
  | list hItems ih =>
      rw [unwritable?, if_neg (by omega), unwritableItem?_eq_none_iff]
      exact fun item hItem => ih item hItem (by omega)
  | record hNames hFields ih =>
      rw [unwritable?, if_neg (by omega), unwritableField?_eq_none_iff]
      exact fun field hField => ih field hField (by omega)

/-- Sorting the fields of a plain value leaves it plain. -/
theorem sortFields (h : Plain room value) : Plain room (sortFields value) := by
  induction h with
  | null => exact .null
  | bool b => exact .bool b
  | integer h => exact .integer h
  | text s => exact .text s
  | list hItems ih =>
      rw [Json.sortFields, sortFieldsOfItems_eq_map]
      refine .list fun item hItem => ?_
      obtain ⟨unsorted, hUnsorted, rfl⟩ := List.mem_map.mp hItem
      exact ih unsorted hUnsorted
  | @record room fields hNames hFields ih =>
      rw [Json.sortFields, sortFieldsOfFields_eq_map]
      have hPerm := List.mergeSort_perm
        (fields.map fun field => (field.1, Json.sortFields field.2)) nameLe
      refine .record ?_ fun field hField => ?_
      · rw [Entries.keys, (hPerm.map _).nodup_iff, List.map_map]
        exact hNames
      · obtain ⟨unsorted, hUnsorted, rfl⟩ := List.mem_map.mp (hPerm.mem_iff.mp hField)
        exact ih unsorted hUnsorted

/-- The text of a value starts with a character of its own. -/
theorem starts_write (h : Plain room value) : Starts (write value) := by
  cases h with
  | null => exact ⟨_, _, rfl, by decide, by decide, by decide⟩
  | bool b => cases b <;> exact ⟨_, _, rfl, by decide, by decide, by decide⟩
  | @integer _ n =>
      obtain ⟨digit, more, hDigits, hDigit⟩ := exists_toDigits n.natAbs
      rw [write_integer, hDigits]
      split
      · exact ⟨digit, more, rfl, isSpace_eq_false_of_isDigit hDigit,
          ne_of_isDigit hDigit (by decide), ne_of_isDigit hDigit (by decide)⟩
      · exact ⟨_, _, rfl, by decide, by decide, by decide⟩
  | text s => exact ⟨_, _, rfl, by decide, by decide, by decide⟩
  | list hItems => exact ⟨_, _, rfl, by decide, by decide, by decide⟩
  | record hNames hFields => exact ⟨_, _, rfl, by decide, by decide, by decide⟩

/-- No control character gets in by brackets and commas. -/
theorem toNat_of_mem_joined {opening closing : Char} {pieces : List (List Char)} {c : Char}
    (hOpening : 0x20 ≤ opening.toNat) (hClosing : 0x20 ≤ closing.toNat)
    (hPieces : ∀ piece ∈ pieces, c ∈ piece → 0x20 ≤ c.toNat)
    (hc : c ∈ opening :: (List.intercalate [','] pieces ++ [closing])) : 0x20 ≤ c.toNat := by
  rw [List.mem_cons, List.mem_append, List.mem_singleton] at hc
  rcases hc with rfl | hc | rfl
  · exact hOpening
  · rcases Text.mem_intercalate hc with hComma | ⟨piece, hPiece, hc⟩
    · rw [List.mem_singleton.mp hComma]
      decide
    · exact hPieces piece hPiece hc
  · exact hClosing

/-- The text of a value holds no control character. -/
theorem toNat_of_mem_write (h : Plain room value) {c : Char} (hc : c ∈ write value) :
    0x20 ≤ c.toNat := by
  induction h with
  | null =>
      have hNull : (write .null).all (0x20 ≤ ·.toNat) = true := by decide
      simpa using List.all_eq_true.mp hNull c hc
  | bool b =>
      have hBool : ∀ b, (write (.bool b)).all (0x20 ≤ ·.toNat) = true := by decide
      simpa using List.all_eq_true.mp (hBool b) c hc
  | @integer _ n =>
      rw [write_integer] at hc
      have hDigits (h : c ∈ Nat.toDigits 10 n.natAbs) : 0x20 ≤ c.toNat := by
        exact Nat.le_trans (by decide) (isDigit_bounds (isDigit_of_mem_toDigits h)).1
      split at hc
      · exact hDigits hc
      · rcases List.mem_cons.mp hc with rfl | hc
        · decide
        · exact hDigits hc
  | text s => exact toNat_of_mem_writeText hc
  | list hItems ih =>
      rw [write, writeItems_eq_map] at hc
      refine toNat_of_mem_joined (by decide) (by decide) (fun piece hPiece => ?_) hc
      obtain ⟨item, hItem, rfl⟩ := List.mem_map.mp hPiece
      exact ih item hItem
  | record hNames hFields ih =>
      rw [write, writeFields_eq_map] at hc
      refine toNat_of_mem_joined (by decide) (by decide) (fun piece hPiece hc => ?_) hc
      obtain ⟨field, hField, rfl⟩ := List.mem_map.mp hPiece
      rw [writeField, List.mem_append, List.mem_cons] at hc
      rcases hc with hName | rfl | hValue
      · exact toNat_of_mem_writeText hName
      · decide
      · exact ih field hField hValue

end Plain

/-- A value that is read back from its text in so many lists and records, if the bound of the steps
allows for the text. -/
def Reads (limits : Limits) (depth : Nat) (value : Value) : Prop :=
  ∀ bound rest, (write value).length ≤ bound → Ended rest →
    readValue limits bound depth (write value ++ rest) = .ok (value, rest)

section Reading

variable {limits : Limits} {depth room : Nat}

theorem ended_comma (rest : List Char) : Ended (',' :: rest) := by
  simp [Ended]

/-- Values that are read back one by one are read back as a list. -/
theorem readItems_write {items : List Value} (hItems : items ≠ [])
    (hPlain : ∀ item ∈ items, Plain room item) (hReads : ∀ item ∈ items, Reads limits depth item)
    {bound : Nat} (hBound : (List.intercalate [','] (items.map write)).length < bound)
    (rest : List Char) :
    readItems limits bound depth (List.intercalate [','] (items.map write) ++ ']' :: rest) =
      .ok (items, rest) := by
  induction items generalizing bound with
  | nil => exact absurd rfl hItems
  | cons item others ih =>
      obtain ⟨bound, rfl⟩ := Nat.exists_eq_succ_of_ne_zero (Nat.ne_zero_of_lt hBound)
      obtain ⟨-, hPlain⟩ := List.forall_mem_cons.mp hPlain
      obtain ⟨hItem, hReads⟩ := List.forall_mem_cons.mp hReads
      rw [readItems]
      cases others with
      | nil =>
          simp only [List.map_cons, List.map_nil, List.intercalate_singleton] at hBound ⊢
          rw [hItem _ _ (by omega) (by simp [Ended])]
          rfl
      | cons next others =>
          have hNext :
              Starts (List.intercalate [','] ((next :: others).map write) ++ ']' :: rest) :=
            ((hPlain next List.mem_cons_self).starts_write.intercalate _).append _
          rw [List.map_cons, List.map_cons, intercalate_cons, ← List.map_cons, List.length_append,
            List.length_cons] at hBound
          rw [List.map_cons, List.map_cons, intercalate_cons, ← List.map_cons, List.append_assoc,
            List.cons_append, hItem _ _ (by omega) (ended_comma _)]
          simp only [skipSpace_cons (by decide : isSpace ',' = false), hNext.skipSpace,
            ih (by simp) hPlain hReads (by omega : _ < bound)]
          rfl

theorem starts_writeField (field : String × Value) : Starts (writeField field) :=
  ⟨'"', _, rfl, by decide, by decide, by decide⟩

/-- Fields whose values are read back one by one are read back as a record's. -/
theorem readFields_write {fields : List (String × Value)} (hFields : fields ≠ [])
    (hPlain : ∀ field ∈ fields, Plain room field.2)
    (hReads : ∀ field ∈ fields, Reads limits depth field.2)
    {bound : Nat} (hBound : (List.intercalate [','] (fields.map writeField)).length < bound)
    (rest : List Char) :
    readFields limits bound depth
        (List.intercalate [','] (fields.map writeField) ++ '\x7d' :: rest) =
      .ok (fields, rest) := by
  induction fields generalizing bound with
  | nil => exact absurd rfl hFields
  | cons field others ih =>
      obtain ⟨bound, rfl⟩ := Nat.exists_eq_succ_of_ne_zero (Nat.ne_zero_of_lt hBound)
      obtain ⟨hValue, hPlain⟩ := List.forall_mem_cons.mp hPlain
      obtain ⟨hField, hReads⟩ := List.forall_mem_cons.mp hReads
      -- A name and a colon come before the value, and then the text goes on as in a list.
      have hName (more : List Char) :
          writeField field ++ more = '"' :: (field.1.toList.flatMap writeChar ++
            '"' :: ':' :: (write field.2 ++ more)) := by
        simp [writeField, writeText]
      have hLength : (write field.2).length < (writeField field).length := by
        simp [writeField]
        omega
      cases others with
      | nil =>
          simp only [List.map_cons, List.map_nil, List.intercalate_singleton] at hBound ⊢
          rw [hName, readFields]
          simp only [readString_writeText, skipSpace_cons (by decide : isSpace ':' = false),
            (hValue.starts_write.append _).skipSpace]
          rw [hField _ _ (by omega) (by simp [Ended]), String.ofList_toList]
          rfl
      | cons next others =>
          have hNext :
              Starts (List.intercalate [','] ((next :: others).map writeField) ++ '\x7d' :: rest) :=
            ((starts_writeField next).intercalate _).append _
          rw [List.map_cons, List.map_cons, intercalate_cons, ← List.map_cons, List.length_append,
            List.length_cons] at hBound
          rw [List.map_cons, List.map_cons, intercalate_cons, ← List.map_cons, List.append_assoc,
            List.cons_append, hName, readFields]
          simp only [readString_writeText, skipSpace_cons (by decide : isSpace ':' = false),
            (hValue.starts_write.append _).skipSpace]
          rw [hField _ _ (by omega) (ended_comma _), String.ofList_toList]
          simp only [skipSpace_cons (by decide : isSpace ',' = false), hNext.skipSpace,
            ih (by simp) hPlain hReads (by omega : _ < bound)]
          rfl

/-- Fields with different names make up the record as they stand. -/
theorem recordOf_eq {fields : List (String × Value)} (h : (Entries.keys fields).Nodup) :
    recordOf fields = .record fields :=
  congrArg Value.record (Entries.foldl_put h)

/-- A number that fits into a word is within the limit on digits. -/
theorem length_toDigits_of_isWord {n : Int} (h : isWord n = true) :
    (Nat.toDigits 10 n.natAbs).length ≤ 20 := by
  simp only [isWord, decide_eq_true_eq] at h
  rw [Nat.length_toDigits_le_iff (by decide) (by decide)]
  omega

/-- What starts like no text, list or record is read as a scalar. -/
theorem readValue_of_scalar {first : Char} (hText : first ≠ '"') (hList : first ≠ '[')
    (hRecord : first ≠ '\x7b') (bound : Nat) (more : List Char) :
    readValue limits (bound + 1) depth (first :: more) = readScalar limits (first :: more) := by
  rw [readValue]
  all_goals simp_all

/-- A whole number that was written is read back. -/
theorem readValue_write_integer {n : Int} (hWord : isWord n = true)
    (hDigits : 20 ≤ limits.digits) {rest : List Char} (hRest : Ended rest) (bound : Nat) :
    readValue limits (bound + 1) depth (write (.integer n) ++ rest) = .ok (.integer n, rest) := by
  rw [← readScalar_write_integer hRest (Nat.le_trans (length_toDigits_of_isWord hWord) hDigits)]
  obtain ⟨digit, more, hToDigits, hDigit⟩ := exists_toDigits n.natAbs
  rw [write_integer, hToDigits]
  split
  · exact readValue_of_scalar (ne_of_isDigit hDigit (by decide)) (ne_of_isDigit hDigit (by decide))
      (ne_of_isDigit hDigit (by decide)) bound _
  · exact readValue_of_scalar (by decide) (by decide) (by decide) bound _

/-- For a value to be read back it is enough to look at a positive bound. -/
theorem Plain.reads_of_succ {value : Value} (h : Plain room value)
    (hSucc : ∀ bound rest, (write value).length ≤ bound + 1 → Ended rest →
      readValue limits (bound + 1) depth (write value ++ rest) = .ok (value, rest)) :
    Reads limits depth value := by
  intro bound rest hBound hRest
  obtain ⟨first, more, hStart, -⟩ := h.starts_write
  have hPositive : bound ≠ 0 := by
    rintro rfl
    simp [hStart] at hBound
  obtain ⟨bound, rfl⟩ := Nat.exists_eq_succ_of_ne_zero hPositive
  exact hSucc bound rest hBound hRest

theorem lt_of_enclosed {opening closing : Char} {text : List Char} {bound : Nat}
    (h : (opening :: (text ++ [closing])).length ≤ bound + 1) : text.length < bound := by
  rw [List.length_cons, List.length_append, List.length_singleton] at h
  omega

/-- A list is read back if its items are. -/
theorem reads_list {items : List Value} (hNesting : depth < limits.nesting)
    (hPlain : ∀ item ∈ items, Plain room item)
    (hReads : ∀ item ∈ items, Reads limits (depth + 1) item) :
    Reads limits depth (.list items) := by
  refine Plain.reads_of_succ (.list hPlain) fun bound rest hBound hRest => ?_
  rw [write, writeItems_eq_map] at hBound ⊢
  rw [List.cons_append, List.append_assoc, List.singleton_append, readValue, if_neg (by omega)]
  cases items with
  | nil => rfl
  | cons item others =>
      have hStart : Starts (List.intercalate [','] ((item :: others).map write) ++ ']' :: rest) :=
        ((hPlain item List.mem_cons_self).starts_write.intercalate _).append _
      have hRead := readItems_write (by simp) hPlain hReads (lt_of_enclosed hBound) rest
      rw [hStart.skipSpace]
      obtain ⟨first, more, hText, -, hClosing, -⟩ := hStart
      rw [hText] at hRead ⊢
      simp [hClosing, hRead, Except.map]

/-- A record is read back if its fields are. -/
theorem reads_record {fields : List (String × Value)} (hNesting : depth < limits.nesting)
    (hNames : (Entries.keys fields).Nodup) (hPlain : ∀ field ∈ fields, Plain room field.2)
    (hReads : ∀ field ∈ fields, Reads limits (depth + 1) field.2) :
    Reads limits depth (.record fields) := by
  refine Plain.reads_of_succ (.record hNames hPlain) fun bound rest hBound hRest => ?_
  rw [write, writeFields_eq_map] at hBound ⊢
  rw [List.cons_append, List.append_assoc, List.singleton_append, readValue, if_neg (by omega)]
  cases fields with
  | nil => rfl
  | cons field others =>
      have hStart :
          Starts (List.intercalate [','] ((field :: others).map writeField) ++ '\x7d' :: rest) :=
        ((starts_writeField field).intercalate _).append _
      have hRead := readFields_write (by simp) hPlain hReads (lt_of_enclosed hBound) rest
      rw [hStart.skipSpace]
      obtain ⟨first, more, hText, -, -, hClosing⟩ := hStart
      rw [hText] at hRead ⊢
      simp [hClosing, hRead, Except.map, recordOf_eq hNames]

/-- A plain value is read back if the limits allow for words and for its depth. -/
theorem Plain.reads {value : Value} (h : Plain room value) (hDigits : 20 ≤ limits.digits)
    (hNesting : depth + room ≤ limits.nesting) : Reads limits depth value := by
  induction h generalizing depth with
  | null => exact Plain.reads_of_succ (.null : Plain 0 _) fun bound rest _ _ => rfl
  | bool b =>
      refine Plain.reads_of_succ (.bool b : Plain 0 _) fun bound rest _ _ => ?_
      cases b <;> rfl
  | integer hWord =>
      exact Plain.reads_of_succ (.integer hWord : Plain 0 _) fun bound rest _ hRest =>
        readValue_write_integer hWord hDigits hRest bound
  | text s =>
      refine Plain.reads_of_succ (.text s : Plain 0 _) fun bound rest _ _ => ?_
      rw [write, writeText, List.cons_append, List.append_assoc, List.singleton_append, readValue,
        readString_writeText]
      simp [orMalformed, Except.map]
  | list hItems ih =>
      exact reads_list (by omega) hItems fun item hItem => ih item hItem (by omega)
  | record hNames hFields ih =>
      exact reads_record (by omega) hNames hFields fun field hField => ih field hField (by omega)

end Reading

/-- Reading gives back what was written. -/
theorem read_write {limits : Limits} {room : Nat} {value : Value} (h : Plain room value)
    (hDigits : 20 ≤ limits.digits) (hNesting : room ≤ limits.nesting) :
    read limits (write value) = .ok value := by
  have hRead := h.reads hDigits (by omega : 0 + room ≤ limits.nesting) ((write value).length + 1) []
    (by omega) (by simp [Ended])
  rw [List.append_nil] at hRead
  rw [read, h.starts_write.skipSpace, hRead]
  rfl

end SignatureIndex.Json
