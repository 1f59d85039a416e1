import SignatureIndex.Text.Lines

/-! Decoding gives back what was encoded, and where the bytes are cut into blocks does not matter:
the start of a character that a block ends with waits for the next block. Strict decoding accepts
nothing but what was encoded. -/
namespace SignatureIndex.Text

theorem toNat_toUInt8 {n : Nat} (h : n < 0x100) : n.toUInt8.toNat = n := by
  rw [Nat.toUInt8, UInt8.toNat_ofNat']
  omega

theorem toNat_bounds (c : Char) :
    c.toNat < 0xD800 ∨ (0xDFFF < c.toNat ∧ c.toNat < 0x110000) :=
  c.valid

/-- Continuation bytes that complete a code to a number, the first one in a range of its own. -/
inductive Continues : Nat → Nat → Nat → Nat → List UInt8 → Nat → Prop where
  | last {code low high n : Nat} {b : UInt8} (hLow : low ≤ b.toNat) (hHigh : b.toNat ≤ high)
      (hCode : code * 0x40 + b.toNat % 0x40 = n) : Continues code low high 0 [b] n
  | more {code low high more n : Nat} {b : UInt8} {tail : List UInt8} (hLow : low ≤ b.toNat)
      (hHigh : b.toNat ≤ high)
      (hTail : Continues (code * 0x40 + b.toNat % 0x40) 0x80 0xBF more tail n) :
      Continues code low high (more + 1) (b :: tail) n

section Continuation

variable {code low high more n : Nat} {tail : List UInt8}

/-- The continuation bytes of a code point are read back in front of any others. -/
theorem Continues.continuation_append (h : Continues code low high more tail n)
    (rest : List UInt8) : continuation code low high more (tail ++ rest) = (some n, rest) := by
  induction h with
  | last hLow hHigh hCode => simp [continuation, hLow, hHigh, hCode]
  | more hLow hHigh _ ih => simp [continuation, hLow, hHigh, ih]

/-- Bytes that end early use up all that is there. -/
theorem Continues.continuation_of_cut (h : Continues code low high more tail n)
    {front back : List UInt8} (hCut : tail = front ++ back) (hBack : back ≠ []) :
    continuation code low high more front = (none, []) := by
  induction h generalizing front with
  | last hLow hHigh hCode =>
      cases front with
      | nil => rfl
      | cons b front => simp_all
  | more hLow hHigh _ ih =>
      cases front with
      | nil => rfl
      | cons b front =>
          obtain ⟨rfl, hTail⟩ := List.cons.inj hCut
          simp [continuation, hLow, hHigh, ih hTail]

end Continuation

/-- A first byte and what it announces: the bytes of a character outside of ASCII. -/
def Announces (b : UInt8) (tail : List UInt8) (n : Nat) : Prop :=
  ∃ bits low high more, leadByte? b = some (bits, low, high, more) ∧
    Continues bits low high more tail n

/-- Two bytes announce and complete the code points from 128 on. -/
theorem announces_two {n : Nat} (hLow : 0x80 ≤ n) (hHigh : n < 0x800) :
    Announces (0xC0 + n / 0x40).toUInt8 [(0x80 + n % 0x40).toUInt8] n := by
  have hLead : (0xC0 + n / 0x40).toUInt8.toNat = 0xC0 + n / 0x40 := toNat_toUInt8 (by omega)
  have hLast : (0x80 + n % 0x40).toUInt8.toNat = 0x80 + n % 0x40 := toNat_toUInt8 (by omega)
  refine ⟨n / 0x40, 0x80, 0xBF, 0, ?_, .last (by omega) (by omega) (by omega)⟩
  rw [leadByte?, hLead, if_pos (by omega)]
  simp

/-- Three bytes announce and complete the code points from 2048 on that are no surrogates. -/
theorem announces_three {n : Nat} (hLow : 0x800 ≤ n)
    (hHigh : n < 0xD800 ∨ (0xDFFF < n ∧ n < 0x10000)) :
    Announces (0xE0 + n / 0x1000).toUInt8
      [(0x80 + n / 0x40 % 0x40).toUInt8, (0x80 + n % 0x40).toUInt8] n := by
  have hLead : (0xE0 + n / 0x1000).toUInt8.toNat = 0xE0 + n / 0x1000 := toNat_toUInt8 (by omega)
  have hSecond : (0x80 + n / 0x40 % 0x40).toUInt8.toNat = 0x80 + n / 0x40 % 0x40 :=
    toNat_toUInt8 (by omega)
  have hLast : (0x80 + n % 0x40).toUInt8.toNat = 0x80 + n % 0x40 := toNat_toUInt8 (by omega)
  -- The first and the last block before the surrogates narrow the range of the second byte.
  have hContinues {low high : Nat} (h : low ≤ 0x80 + n / 0x40 % 0x40)
      (h' : 0x80 + n / 0x40 % 0x40 ≤ high) :
      Continues (n / 0x1000) low high 1
        [(0x80 + n / 0x40 % 0x40).toUInt8, (0x80 + n % 0x40).toUInt8] n :=
    .more (by omega) (by omega) (.last (by omega) (by omega) (by omega))
  by_cases hFirst : n / 0x1000 = 0
  · refine ⟨n / 0x1000, 0xA0, 0xBF, 1, ?_, hContinues (by omega) (by omega)⟩
    rw [leadByte?, hLead, if_neg (by omega), if_pos (by omega), hFirst]
  · by_cases hSurrogate : n / 0x1000 = 0xD
    · refine ⟨n / 0x1000, 0x80, 0x9F, 1, ?_, hContinues (by omega) (by omega)⟩
      rw [leadByte?, hLead, if_neg (by omega), if_neg (by omega), if_pos (by omega), hSurrogate]
    · refine ⟨n / 0x1000, 0x80, 0xBF, 1, ?_, hContinues (by omega) (by omega)⟩
      rw [leadByte?, hLead, if_neg (by omega), if_neg (by omega), if_neg (by omega),
        if_pos (by omega)]
      simp

/-- Four bytes announce and complete the code points from 65536 on. -/
theorem announces_four {n : Nat} (hLow : 0x10000 ≤ n) (hHigh : n < 0x110000) :
    Announces (0xF0 + n / 0x40000).toUInt8
      [(0x80 + n / 0x1000 % 0x40).toUInt8, (0x80 + n / 0x40 % 0x40).toUInt8,
        (0x80 + n % 0x40).toUInt8] n := by
  have hLead : (0xF0 + n / 0x40000).toUInt8.toNat = 0xF0 + n / 0x40000 := toNat_toUInt8 (by omega)
  have hSecond : (0x80 + n / 0x1000 % 0x40).toUInt8.toNat = 0x80 + n / 0x1000 % 0x40 :=
    toNat_toUInt8 (by omega)
  have hThird : (0x80 + n / 0x40 % 0x40).toUInt8.toNat = 0x80 + n / 0x40 % 0x40 :=
    toNat_toUInt8 (by omega)
  have hLast : (0x80 + n % 0x40).toUInt8.toNat = 0x80 + n % 0x40 := toNat_toUInt8 (by omega)
  have hContinues {low high : Nat} (h : low ≤ 0x80 + n / 0x1000 % 0x40)
      (h' : 0x80 + n / 0x1000 % 0x40 ≤ high) :
      Continues (n / 0x40000) low high 2
        [(0x80 + n / 0x1000 % 0x40).toUInt8, (0x80 + n / 0x40 % 0x40).toUInt8,
          (0x80 + n % 0x40).toUInt8] n :=
    .more (by omega) (by omega) (.more (by omega) (by omega)
      (.last (by omega) (by omega) (by omega)))
  by_cases hFirst : n / 0x40000 = 0
  · refine ⟨n / 0x40000, 0x90, 0xBF, 2, ?_, hContinues (by omega) (by omega)⟩
    rw [leadByte?, hLead]
    simp [hFirst]
  · by_cases hLastPlane : n / 0x40000 = 4
    · refine ⟨n / 0x40000, 0x80, 0x8F, 2, ?_, hContinues (by omega) (by omega)⟩
      rw [leadByte?, hLead]
      simp [hLastPlane]
    · refine ⟨n / 0x40000, 0x80, 0xBF, 2, ?_, hContinues (by omega) (by omega)⟩
      rw [leadByte?, hLead, if_neg (by omega), if_neg (by omega), if_neg (by omega),
        if_neg (by omega), if_neg (by omega), if_pos (by omega)]
      simp

/-- A character is one ASCII byte, or a first byte with those it announces. -/
theorem utf8Bytes_cases (c : Char) :
    (utf8Bytes c = [c.toNat.toUInt8] ∧ c.toNat < 0x80) ∨
      ∃ b tail, utf8Bytes c = b :: tail ∧ Announces b tail c.toNat := by
  have hValid := toNat_bounds c
  by_cases hOne : c.toNat < 0x80
  · exact .inl ⟨by simp [utf8Bytes, hOne], hOne⟩
  · right
    by_cases hTwo : c.toNat < 0x800
    · refine ⟨_, _, ?_, announces_two (by omega) hTwo⟩
      simp [utf8Bytes, hOne, hTwo]
    · by_cases hThree : c.toNat < 0x10000
      · refine ⟨_, _, ?_, announces_three (by omega) (by omega)⟩
        simp [utf8Bytes, hOne, hTwo, hThree]
      · refine ⟨_, _, ?_, announces_four (by omega) (by omega)⟩
        simp [utf8Bytes, hOne, hTwo, hThree]

theorem not_ascii_of_leadByte? {b : UInt8} {lead : Nat × Nat × Nat × Nat}
    (h : leadByte? b = some lead) : ¬b.toNat < 0x80 := by
  intro hAscii
  rw [leadByte?, if_neg (by omega), if_neg (by omega), if_neg (by omega), if_neg (by omega),
    if_neg (by omega), if_neg (by omega), if_neg (by omega)] at h
  cases h

/-- The bytes of a character are read as the character, whatever comes after them. -/
theorem firstChar_utf8Bytes (c : Char) :
    ∃ b tail, utf8Bytes c = b :: tail ∧
      ∀ rest, firstChar b (tail ++ rest) = (some c, rest) := by
  rcases utf8Bytes_cases c with ⟨hBytes, hAscii⟩ | ⟨b, tail, hBytes, hAnnounces⟩
  · refine ⟨_, [], hBytes, fun rest => ?_⟩
    have hByte : c.toNat.toUInt8.toNat = c.toNat := toNat_toUInt8 (by omega)
    simp [firstChar, hByte, hAscii]
  · refine ⟨b, tail, hBytes, fun rest => ?_⟩
    obtain ⟨bits, low, high, more, hLead, hTail⟩ := hAnnounces
    simp [firstChar, not_ascii_of_leadByte? hLead, hLead, hTail.continuation_append]

/-- The start of a character's bytes is kept until the rest comes. -/
theorem decodeOpen?_of_cut {c : Char} {front back : List UInt8}
    (hCut : utf8Bytes c = front ++ back) (hBack : back ≠ []) :
    decodeOpen? front = some ([], front) := by
  cases front with
  | nil => rw [decodeOpen?]
  | cons b front =>
      rcases utf8Bytes_cases c with ⟨hBytes, -⟩ | ⟨b', tail, hBytes, hAnnounces⟩
      · rw [hBytes] at hCut
        simp_all
      · rw [hBytes] at hCut
        obtain ⟨rfl, hTailCut⟩ := List.cons.inj hCut
        obtain ⟨bits, low, high, more, hLead, hTail⟩ := hAnnounces
        rw [decodeOpen?]
        simp [firstChar, not_ascii_of_leadByte? hLead, hLead,
          hTail.continuation_of_cut hTailCut hBack]

/-- The bytes of a character are decoded in front of any others. -/
theorem decodeOpen?_utf8Bytes (c : Char) (rest : List UInt8) :
    decodeOpen? (utf8Bytes c ++ rest) =
      (decodeOpen? rest).map fun (text, pending) => (c :: text, pending) := by
  obtain ⟨b, tail, hBytes, hFirst⟩ := firstChar_utf8Bytes c
  rw [hBytes, List.cons_append, decodeOpen?, hFirst]

theorem encodeUtf8_cons (c : Char) (cs : List Char) :
    encodeUtf8 (c :: cs) = utf8Bytes c ++ encodeUtf8 cs :=
  List.flatMap_cons

/-- The bytes of a text up to a cut are read as characters of it, and those left over together with
the bytes after the cut are the rest of the text. -/
def ReadsUpTo (cs : List Char) (front back : List UInt8) : Prop :=
  ∃ done left pending, cs = done ++ left ∧ decodeOpen? front = some (done, pending) ∧
    pending ++ back = encodeUtf8 left ∧ (back = [] → pending = [])

/-- A cut anywhere in encoded text leaves whole characters and the start of at most one more. -/
theorem readsUpTo_of_encodeUtf8 {cs : List Char} {front back : List UInt8}
    (h : encodeUtf8 cs = front ++ back) : ReadsUpTo cs front back := by
  induction cs generalizing front with
  | nil =>
      obtain ⟨rfl, rfl⟩ := List.append_eq_nil_iff.mp h.symm
      exact ⟨[], [], [], rfl, by rw [decodeOpen?], rfl, fun _ => rfl⟩
  | cons c cs ih =>
      have hWhole (more : List UInt8) (hFront : front = utf8Bytes c ++ more)
          (hMore : encodeUtf8 cs = more ++ back) : ReadsUpTo (c :: cs) front back := by
        obtain ⟨done, left, pending, rfl, hDone, hPending⟩ := ih hMore
        refine ⟨c :: done, left, pending, rfl, ?_, hPending⟩
        rw [hFront, decodeOpen?_utf8Bytes, hDone, Option.map_some]
      rw [encodeUtf8_cons] at h
      rcases List.append_eq_append_iff.mp h with ⟨more, hFront, hMore⟩ | ⟨more, hBytes, hBack⟩
      · exact hWhole more hFront hMore
      · by_cases hMore : more = []
        · subst hMore
          exact hWhole [] (by simpa using hBytes.symm) hBack.symm
        · refine ⟨[], c :: cs, front, rfl, decodeOpen?_of_cut hBytes hMore, ?_, ?_⟩
          · rw [hBack, ← List.append_assoc, ← hBytes, encodeUtf8_cons]
          · intro hEmpty
            rw [hEmpty] at hBack
            exact absurd (List.append_eq_nil_iff.mp hBack.symm).1 hMore

theorem encodeUtf8_eq_nil_iff {cs : List Char} : encodeUtf8 cs = [] ↔ cs = [] := by
  cases cs with
  | nil => simp [encodeUtf8]
  | cons c cs =>
      obtain ⟨b, tail, hBytes, -⟩ := firstChar_utf8Bytes c
      simp [encodeUtf8_cons, hBytes]

/-- A text is read back from its bytes, block by block. -/
theorem decodeBlocks_of_encodeUtf8 {cs : List Char} {pending bytes : List UInt8}
    (h : pending ++ bytes = encodeUtf8 cs) (hPending : bytes = [] → pending = []) :
    decodeBlocks pending bytes = (cs, true) := by
  induction hLength : bytes.length using Nat.strongRecOn generalizing cs pending bytes with
  | ind length ih =>
      rw [decodeBlocks]
      split
      · next hEmpty =>
          obtain rfl := hPending hEmpty
          subst hEmpty
          rw [encodeUtf8_eq_nil_iff.mp h.symm]
          rfl
      · next hBytes =>
          rw [← List.take_append_drop blockSize bytes, ← List.append_assoc] at h
          obtain ⟨done, left, pending', rfl, hDone, hLeft, hNone⟩ := readsUpTo_of_encodeUtf8 h.symm
          have hShorter : (bytes.drop blockSize).length < length := by
            have hPos := List.length_pos_iff.mpr hBytes
            simp only [List.length_drop, blockSize]
            omega
          simp only [hDone, ih _ hShorter hLeft hNone rfl]

/-- Decoding block by block gives encoded text back, wherever the blocks end. -/
theorem decodeBlocks_encodeUtf8 (cs : List Char) : decodeBlocks [] (encodeUtf8 cs) = (cs, true) :=
  decodeBlocks_of_encodeUtf8 rfl fun _ => rfl

section Strict

variable {code low high more n : Nat} {bytes rest : List UInt8}

/-- Continuation bytes are read only from a well-formed sequence. -/
theorem exists_of_continuation (h : continuation code low high more bytes = (some n, rest)) :
    ∃ tail, bytes = tail ++ rest ∧ Continues code low high more tail n := by
  induction bytes generalizing code low high more with
  | nil => simp [continuation] at h
  | cons b bytes ih =>
      rw [continuation] at h
      split at h
      · next hRange =>
          cases more with
          | zero =>
              simp only [Prod.mk.injEq, Option.some.injEq] at h
              exact ⟨[b], by rw [h.2]; rfl, .last hRange.1 hRange.2 h.1⟩
          | succ more =>
              obtain ⟨tail, rfl, hTail⟩ := ih h
              exact ⟨b :: tail, rfl, .more hRange.1 hRange.2 hTail⟩
      · simp at h

/-- What a first byte announces. The range of the second byte keeps out the codes that fewer bytes
can hold, the surrogates and the codes that are too large. -/
theorem leadByte?_cases {b : UInt8} {bits : Nat} (h : leadByte? b = some (bits, low, high, more)) :
    0x80 ≤ low ∧ high ≤ 0xBF ∧
      ((more = 0 ∧ b.toNat = 0xC0 + bits ∧ 2 ≤ bits ∧ bits < 0x20) ∨
        (more = 1 ∧ b.toNat = 0xE0 + bits ∧ bits < 0x10 ∧ (bits = 0 → 0xA0 ≤ low) ∧
          (bits = 0xD → high ≤ 0x9F)) ∨
        more = 2 ∧ b.toNat = 0xF0 + bits ∧ bits ≤ 4 ∧ (bits = 0 → 0x90 ≤ low) ∧
          (bits = 4 → high ≤ 0x8F)) := by
  unfold leadByte? at h
  simp only at h
  repeat' split at h
  all_goals simp only [Option.some.injEq, Prod.mk.injEq, reduceCtorEq] at h <;> omega

theorem eq_toUInt8 {b : UInt8} (h : b.toNat = n) : b = n.toUInt8 := by
  rw [← h]
  exact UInt8.ofNat_toNat.symm

theorem toNat_ofNat (h : n < 0xD800 ∨ 0xDFFF < n ∧ n < 0x110000) : (Char.ofNat n).toNat = n := by
  rw [Char.ofNat, dif_pos h]
  rfl

/-- Bytes that announce a code are those of a character. -/
theorem Announces.eq_utf8Bytes {b : UInt8} {tail : List UInt8} (h : Announces b tail n) :
    b :: tail = utf8Bytes (Char.ofNat n) := by
  obtain ⟨bits, low, high, more, hLead, hTail⟩ := h
  obtain ⟨hLow, hHigh, ⟨rfl, hByte, hBits⟩ | ⟨rfl, hByte, hBits⟩ | ⟨rfl, hByte, hBits⟩⟩ :=
    leadByte?_cases hLead
  · obtain ⟨hLow', hHigh', hCode⟩ := hTail
    have hChar : (Char.ofNat n).toNat = n := toNat_ofNat (by omega)
    rw [utf8Bytes, hChar, if_neg (by omega), if_pos (by omega)]
    congr 1
    · exact eq_toUInt8 (by omega)
    · congr 1
      exact eq_toUInt8 (by omega)
  · cases hTail with
    | @more _ _ _ _ _ second _ hLow' hHigh' hTail =>
        cases hTail with
        | @last _ _ _ _ third hLow'' hHigh'' hCode =>
            have hChar : (Char.ofNat n).toNat = n := toNat_ofNat (by omega)
            rw [utf8Bytes, hChar, if_neg (by omega), if_neg (by omega), if_pos (by omega),
              eq_toUInt8 (b := b) (n := 0xE0 + n / 0x1000) (by omega),
              eq_toUInt8 (b := second) (n := 0x80 + n / 0x40 % 0x40) (by omega),
              eq_toUInt8 (b := third) (n := 0x80 + n % 0x40) (by omega)]
  · cases hTail with
    | @more _ _ _ _ _ second _ hLow' hHigh' hTail =>
        cases hTail with
        | @more _ _ _ _ _ third _ hLow'' hHigh'' hTail =>
            cases hTail with
            | @last _ _ _ _ fourth hLow''' hHigh''' hCode =>
                have hChar : (Char.ofNat n).toNat = n := toNat_ofNat (by omega)
                rw [utf8Bytes, hChar, if_neg (by omega), if_neg (by omega), if_neg (by omega),
                  eq_toUInt8 (b := b) (n := 0xF0 + n / 0x40000) (by omega),
                  eq_toUInt8 (b := second) (n := 0x80 + n / 0x1000 % 0x40) (by omega),
                  eq_toUInt8 (b := third) (n := 0x80 + n / 0x40 % 0x40) (by omega),
                  eq_toUInt8 (b := fourth) (n := 0x80 + n % 0x40) (by omega)]

/-- What is read as a character are its bytes. -/
theorem utf8Bytes_of_firstChar {b : UInt8} {after : List UInt8} {c : Char}
    (h : firstChar b rest = (some c, after)) : b :: rest = utf8Bytes c ++ after := by
  unfold firstChar at h
  split at h
  · next hAscii =>
      simp only [Prod.mk.injEq, Option.some.injEq] at h
      obtain ⟨rfl, rfl⟩ := h
      have hChar : (Char.ofNat b.toNat).toNat = b.toNat := toNat_ofNat (by omega)
      rw [utf8Bytes, hChar, if_pos hAscii, ← eq_toUInt8 rfl]
      rfl
  · split at h
    · simp at h
    · next bits low high more hLead =>
        simp only [Prod.mk.injEq, Option.map_eq_some_iff] at h
        obtain ⟨⟨n, hCode, rfl⟩, hAfter⟩ := h
        obtain ⟨tail, rfl, hTail⟩ := exists_of_continuation (Prod.ext hCode hAfter)
        rw [← Announces.eq_utf8Bytes ⟨bits, low, high, more, hLead, hTail⟩]
        rfl

theorem mapM_id_eq_some_iff {parts : List (Option Char)} {cs : List Char} :
    parts.mapM id = some cs ↔ parts = cs.map some := by
  induction parts generalizing cs with
  | nil => cases cs <;> simp
  | cons part parts ih =>
      rw [List.mapM_cons]
      cases cs with
      | nil => cases part <;> simp [Option.bind_eq_some_iff]
      | cons c cs => simp [Option.bind_eq_some_iff, ih]

theorem decodeParts_encodeUtf8 (cs : List Char) : decodeParts (encodeUtf8 cs) = cs.map some := by
  induction cs with
  | nil => rw [encodeUtf8, List.flatMap_nil, decodeParts, List.map_nil]
  | cons c cs ih =>
      obtain ⟨b, tail, hBytes, hFirst⟩ := firstChar_utf8Bytes c
      rw [encodeUtf8_cons, hBytes, List.cons_append, decodeParts, hFirst, ih, List.map_cons]

/-- Only encoded text is decoded without replacement. -/
theorem eq_encodeUtf8_of_decodeParts {cs : List Char} (h : decodeParts bytes = cs.map some) :
    bytes = encodeUtf8 cs := by
  induction cs generalizing bytes with
  | nil =>
      cases bytes with
      | nil => rfl
      | cons b rest =>
          rw [decodeParts] at h
          cases h
  | cons c cs ih =>
      cases bytes with
      | nil =>
          rw [decodeParts] at h
          cases h
      | cons b rest =>
          rw [decodeParts] at h
          obtain ⟨hFirst, hRest⟩ := List.cons.inj h
          rw [utf8Bytes_of_firstChar (Prod.ext hFirst rfl), encodeUtf8_cons, ← ih hRest]

/-- Strict decoding gives a text exactly for its bytes, so it refuses exactly the bytes of no
text. -/
theorem decodeStrict?_eq_some_iff {cs : List Char} :
    decodeStrict? bytes = some cs ↔ bytes = encodeUtf8 cs := by
  rw [decodeStrict?, mapM_id_eq_some_iff]
  constructor
  · exact eq_encodeUtf8_of_decodeParts
  · rintro rfl
    exact decodeParts_encodeUtf8 cs

end Strict
end SignatureIndex.Text
