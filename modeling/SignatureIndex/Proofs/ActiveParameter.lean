import Mathlib.Data.List.Forall2
import Mathlib.Data.List.Perm.Subperm
import Mathlib.Order.Bounds.Defs
import SignatureIndex.Proofs.CallHelp
import SignatureIndex.Proofs.ParameterList

/-! The parameters that arguments are given. A complete argument with a colon is given the parameter
it names, one without a colon the next that no earlier argument was given, so no parameter is given
away twice by position. The argument being typed is given the parameter it names, or else the next
free one. -/
namespace SignatureIndex.Call

open Text Declaration

section Names

variable {names : List String} {candidate : List Char} {index : Nat}

/-- The index is that of the first name that satisfies a condition. -/
def IsFirst (p : String → Prop) (names : List String) (index : Nat) : Prop :=
  (∃ name ∈ names[index]?, p name) ∧ ∀ earlier < index, ∀ other ∈ names[earlier]?, ¬p other

/-- A name refers to the first parameter that is equal to it up to case, and if there is none to the
first that starts with it. -/
def Refers (names : List String) (candidate : List Char) (index : Nat) : Prop :=
  let folded := fold (trim candidate)
  folded ≠ [] ∧
    (IsFirst (fun name => fold name.toList = folded) names index ∨
      (∀ name ∈ names, fold name.toList ≠ folded) ∧
        IsFirst (fun name => folded <+: fold name.toList) names index)

theorem IsFirst.lt_length {p : String → Prop} (h : IsFirst p names index) :
    index < names.length := by
  obtain ⟨⟨name, hName, -⟩, -⟩ := h
  exact (List.getElem?_eq_some_iff.mp hName).1

/-- The search for an index finds the first name of which the predicate holds. -/
theorem findIdx?_eq_some_iff_isFirst {p : String → Bool} :
    names.findIdx? p = some index ↔ IsFirst (fun name => p name = true) names index := by
  rw [List.findIdx?_eq_some_iff_getElem]
  constructor
  · rintro ⟨hLength, hName, hOthers⟩
    refine ⟨⟨names[index], List.getElem?_eq_getElem hLength, hName⟩, ?_⟩
    intro earlier hEarlier other hOther
    obtain ⟨_, rfl⟩ := List.getElem?_eq_some_iff.mp hOther
    exact hOthers earlier hEarlier
  · rintro ⟨⟨name, hName, hp⟩, hOthers⟩
    obtain ⟨hLength, rfl⟩ := List.getElem?_eq_some_iff.mp hName
    refine ⟨hLength, hp, ?_⟩
    intro earlier hEarlier
    exact hOthers earlier hEarlier _ (List.getElem?_eq_getElem _)

/-- A candidate is matched with the parameter that it refers to, and with no other. -/
theorem matchParameter?_eq_some_iff :
    matchParameter? names candidate = some index ↔ Refers names candidate index := by
  rw [matchParameter?, Refers]
  by_cases hEmpty : fold (trim candidate) = []
  · simp [hEmpty]
  · simp only [List.isEmpty_iff, hEmpty, if_false, List.findIdx?_map, Option.or_eq_some_iff,
      findIdx?_eq_some_iff_isFirst, List.findIdx?_eq_none_iff, Function.comp_apply,
      decide_eq_true_eq, decide_eq_false_iff_not, List.isPrefixOf_iff_prefix, ne_eq,
      not_false_eq_true, true_and]

theorem Refers.lt_length (h : Refers names candidate index) : index < names.length := by
  rcases h.2 with hExact | ⟨-, hStart⟩
  · exact hExact.lt_length
  · exact hStart.lt_length

end Names

section Slots

variable {names : List String} {slots : List (List Char)} {index : Nat}

/-- The search for a free index ends at the first one. -/
theorem nextFree_isLeast (taken : List Nat) (start : Nat) :
    IsLeast {index | start ≤ index ∧ index ∉ taken} (nextFree taken start) := by
  let isFree (index : Nat) : Bool := !taken.contains index
  obtain ⟨index, hFound⟩ :
      ∃ index, (List.range' start (taken.length + 1)).find? isFree = some index := by
    rw [← Option.isSome_iff_exists, List.find?_isSome]
    by_contra hNone
    -- one more index than there are taken ones cannot all be taken
    have hSubset : List.range' start (taken.length + 1) ⊆ taken := by
      intro index hMem
      by_contra hFree
      exact hNone ⟨index, hMem, by simpa [isFree] using hFree⟩
    have hLength := (List.subperm_of_subset List.nodup_range' hSubset).length_le
    rw [List.length_range'] at hLength
    omega
  obtain ⟨hFree, hMem, hFirst⟩ := List.find?_range'_eq_some.mp hFound
  rw [show nextFree taken start = index from congrArg (Option.getD · start) hFound]
  constructor
  · exact ⟨(List.mem_range'_1.mp hMem).1, by simpa [isFree] using hFree⟩
  · rintro other ⟨hStart, hOther⟩
    by_contra hLess
    have hTaken := hFirst other hStart (by omega)
    exact hOther (by simpa [isFree] using hTaken)

/-- What complete slots take. -/
def assignment (names : List String) (slots : List (List Char)) : Assignment :=
  slots.foldl (Assignment.take names) ⟨[], 0⟩

/-- The index that a slot is given behind others: that of the parameter it names, or without a colon
the next free one. -/
def given? (names : List String) (earlier : List (List Char)) (slot : List Char) : Option Nat :=
  match beforeColon? slot with
  | some name => matchParameter? names name
  | none => some (reached names earlier)

/-- One of the slots is given the index. -/
def Given (names : List String) (slots : List (List Char)) (index : Nat) : Prop :=
  ∃ earlier slot later, slots = earlier ++ slot :: later ∧ given? names earlier slot = some index

/-- One more complete slot takes its parameter, if it is given one, and moves on behind it. -/
theorem assignment_concat (names : List String) (earlier : List (List Char)) (slot : List Char) :
    assignment names (earlier ++ [slot]) =
      match given? names earlier slot with
      | some index => ⟨index :: (assignment names earlier).taken, index + 1⟩
      | none => assignment names earlier := by
  rw [assignment, List.foldl_append, List.foldl_cons, List.foldl_nil, Assignment.take, given?]
  cases beforeColon? slot with
  | none => rfl
  | some name => rfl

/-- A slot without a colon takes the parameter that comes next. -/
theorem given?_of_no_colon {slot : List Char} (h : ':' ∉ slot) (earlier : List (List Char)) :
    given? names earlier slot = some (reached names earlier) := by
  rw [given?, beforeColon?_eq_none_iff.mpr h]

/-- What is taken is what the slots were given. -/
theorem mem_taken_assignment :
    index ∈ (assignment names slots).taken ↔ Given names slots index := by
  induction slots using List.reverseRecOn with
  | nil => simp [assignment, Given]
  | append_singleton earlier slot ih =>
      have hSplit := @exists_split_append _ (given? names · · = some index) earlier slot
      rw [Given, hSplit, ← Given, ← ih, assignment_concat]
      cases given? names earlier slot with
      | none => simp
      | some first => simp [or_comm, eq_comm]

/-- The next free index was given to no slot. -/
theorem not_given_reached (names : List String) (slots : List (List Char)) :
    ¬Given names slots (reached names slots) := by
  rw [← mem_taken_assignment]
  exact (nextFree_isLeast _ _).1.2

/-- The next parameter is within a bound that the taken ones and the position keep to. -/
theorem reached_le {bound : Nat} (hTaken : ∀ index ∈ (assignment names slots).taken, index < bound)
    (hNext : (assignment names slots).next ≤ bound) : reached names slots ≤ bound :=
  (nextFree_isLeast _ _).2 ⟨hNext, fun hMem => (hTaken bound hMem).false⟩

/-- Slots that name parameters stay within them; only the others lead beyond. -/
theorem assignment_within (names : List String) (slots : List (List Char)) :
    (∀ index ∈ (assignment names slots).taken,
        index < names.length + slots.countP (':' ∉ ·)) ∧
      (assignment names slots).next ≤ names.length + slots.countP (':' ∉ ·) := by
  induction slots using List.reverseRecOn with
  | nil => simp [assignment]
  | append_singleton earlier slot ih =>
      obtain ⟨hTaken, hNext⟩ := ih
      have hGiven : ∀ index ∈ given? names earlier slot,
          index < names.length + (earlier ++ [slot]).countP (':' ∉ ·) := by
        intro index hIndex
        rw [List.countP_append]
        by_cases hColon : ':' ∈ slot
        · obtain ⟨name, hName⟩ := Option.ne_none_iff_exists'.mp
            (mt beforeColon?_eq_none_iff.mp (not_not.mpr hColon))
          rw [given?, hName] at hIndex
          have hLess := (matchParameter?_eq_some_iff.mp hIndex).lt_length
          omega
        · rw [given?_of_no_colon hColon] at hIndex
          cases hIndex
          have hReached := reached_le hTaken hNext
          rw [List.countP_singleton, if_pos (by simpa using hColon)]
          omega
      have hMore : earlier.countP (':' ∉ ·) ≤ (earlier ++ [slot]).countP (':' ∉ ·) := by
        rw [List.countP_append]
        omega
      rw [assignment_concat]
      cases hSlot : given? names earlier slot with
      | none =>
          refine ⟨fun index hIndex => ?_, hNext.trans (by omega)⟩
          have hLess := hTaken index hIndex
          omega
      | some first =>
          have hFirst := hGiven first hSlot
          refine ⟨fun index hIndex => ?_, hFirst⟩
          rcases List.mem_cons.mp hIndex with rfl | hEarlier
          · exact hFirst
          · have hLess := hTaken index hEarlier
            omega

end Slots

section Typed

variable {names : List String} {current : List Char} {index : Nat}

/-- The argument being typed names the parameter, by the text before its colon or by all of it,
which starts with a letter or an underscore. -/
def TypedName (names : List String) (current : List Char) (index : Nat) : Prop :=
  let candidate := trim ((beforeColon? current).getD current)
  (∃ c ∈ candidate.head?, isLetter c = true ∨ c = '_') ∧ Refers names candidate index

/-- The slot at the cursor names a parameter exactly when it is typed as its name. -/
theorem namedByCurrent?_eq_some_iff :
    namedByCurrent? names current = some index ↔ TypedName names current index := by
  rw [namedByCurrent?, TypedName]
  simp only [Option.ite_none_right_eq_some, matchParameter?_eq_some_iff, startsName,
    Option.any_eq_true, Bool.or_eq_true, decide_eq_true_eq, Option.mem_def]

theorem namedByCurrent?_eq_none (h : ∀ index, ¬TypedName names current index) :
    namedByCurrent? names current = none := by
  apply Option.eq_none_iff_forall_ne_some.mpr
  intro index hNamed
  exact h index (namedByCurrent?_eq_some_iff.mp hNamed)

end Typed

section FullNames

variable {names : List String} {index : Nat}

/-- The slot gives a value to the parameter by its full name, in any letter case. -/
def Supplies (names : List String) (index : Nat) (slot : List Char) : Prop :=
  ∃ name lead spelled gap value, names[index]? = some name ∧ fold spelled = fold name.toList ∧
    (∀ c ∈ lead, isBlank c = true) ∧ (∀ c ∈ gap, isBlank c = true) ∧
    slot = lead ++ (spelled ++ gap) ++ ':' :: value

theorem foldChar_of_isBlank {c : Char} (h : isBlank c = true) : foldChar c = [c] := by
  let codes := [0x20, 0x85, 0xA0, 0x1680, 0x2028, 0x2029, 0x202F, 0x205F, 0x3000] ++
    List.range' 0x09 5 ++ List.range' 0x1C 4 ++ List.range' 0x2000 11
  have hCodes : ∀ code ∈ codes, foldChar (Char.ofNat code) = [Char.ofNat code] := by
    decide +kernel
  have hMem : c.toNat ∈ codes := by
    rcases eq_or_ne c ' ' with rfl | hSpace
    · decide
    · simp only [isBlank, isAsciiBlank, Bool.or_eq_true, decide_eq_true_eq, hSpace, false_or] at h
      simp only [codes, List.mem_append, List.mem_cons, List.mem_range'_1, List.not_mem_nil]
      omega
  simpa using hCodes c.toNat hMem

theorem isWordChar_toLower {c : Char} (h : isWordChar c = true) :
    isWordChar c.toLower = true := by
  have hCodes : ∀ code ∈ List.range' 0x30 0x4B, isWordChar (Char.ofNat code) = true →
      isWordChar (Char.ofNat code).toLower = true := by
    decide +kernel
  have hBounds := wordChar_bounds h
  have hCode := hCodes c.toNat (List.mem_range'_1.mpr (by omega))
  rw [Char.ofNat_toNat] at hCode
  exact hCode h

/-- In any spelling of a word, a character that has no case is a word character. -/
theorem isWordChar_of_mem_spelling {text spelled : List Char} (hText : IsWord text)
    (hSpelled : fold spelled = fold text) {c : Char} (hc : c ∈ spelled)
    (hSame : foldChar c = [c]) : isWordChar c = true := by
  have hFold : c ∈ fold spelled := List.mem_flatMap.mpr ⟨c, hc, hSame ▸ List.mem_singleton_self c⟩
  rw [hSpelled, fold_of_isWord hText] at hFold
  obtain ⟨letter, hLetter, rfl⟩ := List.mem_map.mp hFold
  exact isWordChar_toLower (hText.2 letter hLetter)

/-- The text before the first colon is cut off there. -/
theorem beforeColon?_of_not_mem {front : List Char} (h : ':' ∉ front) (value : List Char) :
    beforeColon? (front ++ ':' :: value) = some front := by
  have hOther : ∀ c ∈ front, decide (c ≠ ':') = true := by
    intro c hc
    exact decide_eq_true fun hSame => h (hSame ▸ hc)
  rw [beforeColon?, if_pos (by simp), List.takeWhile_append_of_pos hOther,
    List.takeWhile_cons_of_neg (by simp), List.append_nil]

/-- Among names that differ up to case, a full name refers to its own parameter. -/
theorem refers_of_fold_eq {candidate : List Char} {name : String}
    (hDistinct : (names.map fun name => fold name.toList).Nodup)
    (hName : names[index]? = some name) (hFold : fold (trim candidate) = fold name.toList)
    (hNonempty : fold name.toList ≠ []) : Refers names candidate index := by
  refine ⟨hFold ▸ hNonempty, .inl ⟨⟨name, hName, hFold.symm⟩, ?_⟩⟩
  intro earlier hEarlier other hOther hSame
  obtain ⟨hLength, -⟩ := List.getElem?_eq_some_iff.mp hOther
  have hEq : (names.map fun name => fold name.toList)[earlier]? =
      (names.map fun name => fold name.toList)[index]? := by
    rw [List.getElem?_map, List.getElem?_map, hName, hOther, Option.map_some, Option.map_some,
      hSame, hFold]
  have hIndex := (List.getElem?_inj (by simpa using hLength) hDistinct).mp hEq
  omega

/-- A slot that supplies a parameter takes this one, whichever were taken before. -/
theorem Supplies.take {slot : List Char} (hWords : ∀ name ∈ names, IsWord name.toList)
    (hDistinct : (names.map fun name => fold name.toList).Nodup)
    (h : Supplies names index slot) (state : Assignment) :
    state.take names slot = ⟨index :: state.taken, index + 1⟩ := by
  obtain ⟨name, lead, spelled, gap, value, hName, hFold, hLead, hGap, rfl⟩ := h
  have hWord : IsWord name.toList := hWords name (List.mem_of_getElem? hName)
  have hPlain : ∀ c ∈ spelled, ¬isBlank c = true := by
    intro c hc hBlank
    exact not_isBlank_of_word
      (isWordChar_of_mem_spelling hWord hFold hc (foldChar_of_isBlank hBlank)) hBlank
  have hTrim : trim (lead ++ (spelled ++ gap)) = spelled :=
    trim_between hLead hGap (fun c hc => hPlain c (List.mem_of_mem_head? hc))
      (fun c hc => hPlain c (List.mem_of_mem_getLast? hc))
  have hColon : ':' ∉ lead ++ (spelled ++ gap) := by
    simp only [List.mem_append, not_or]
    refine ⟨fun hc => absurd (hLead _ hc) (by decide), fun hc => ?_,
      fun hc => absurd (hGap _ hc) (by decide)⟩
    exact absurd (isWordChar_of_mem_spelling hWord hFold hc (by decide)) (by decide)
  have hNonempty : fold name.toList ≠ [] := by
    rw [fold_of_isWord hWord]
    simpa using hWord.1
  have hRefers := refers_of_fold_eq hDistinct hName (by rw [hTrim, hFold]) hNonempty
  rw [Assignment.take, beforeColon?_of_not_mem hColon]
  simp only [matchParameter?_eq_some_iff.mpr hRefers]

/-- Slots that give values by full names take the parameters named, and go on behind the last. -/
theorem foldl_take_of_supplies (hWords : ∀ name ∈ names, IsWord name.toList)
    (hDistinct : (names.map fun name => fold name.toList).Nodup) {indices : List Nat}
    {slots : List (List Char)} (h : List.Forall₂ (Supplies names) indices slots)
    (state : Assignment) :
    slots.foldl (Assignment.take names) state =
      ⟨indices.reverse ++ state.taken, (indices.getLast?.map (· + 1)).getD state.next⟩ := by
  induction h generalizing state with
  | nil => rfl
  | @cons index slot indices slots hSlot _ ih =>
      rw [List.foldl_cons, hSlot.take hWords hDistinct, ih, List.getLast?_cons]
      cases indices.getLast? with
      | none => simp
      | some last => simp

/-- After slots that supply parameters, the next one is the least that follows the last and is
free. -/
theorem reached_of_supplies (hWords : ∀ name ∈ names, IsWord name.toList)
    (hDistinct : (names.map fun name => fold name.toList).Nodup) {indices : List Nat} {last : Nat}
    {slots : List (List Char)} (h : List.Forall₂ (Supplies names) (indices ++ [last]) slots) :
    IsLeast {index | last < index ∧ index ∉ indices ++ [last]} (reached names slots) := by
  have hLeast := nextFree_isLeast ((indices ++ [last]).reverse ++ []) (last + 1)
  have hState := foldl_take_of_supplies hWords hDistinct h ⟨[], 0⟩
  rw [List.getLast?_concat, Option.map_some, Option.getD_some] at hState
  simpa only [reached, hState, List.append_nil, List.mem_reverse, Nat.add_one_le_iff]
    using hLeast

end FullNames

/-- Declarations give names that are words to their parameters. -/
theorem isWord_of_mem_parameterNames {text : List Char} {enclosing : Option Enclosing}
    {source : Option String} {line : Option Int} {signature : Signature}
    (h : Signature.extract? text enclosing source line = some signature) :
    ∀ name ∈ signature.parameterNames, IsWord name.toList := by
  obtain ⟨declaration, -, -, rfl⟩ := Scan.exists_declaration_of_extract? h
  intro name hName
  obtain ⟨parameter, hParameter, rfl⟩ := List.mem_map.mp hName
  obtain ⟨position, hPosition, rfl⟩ := List.mem_mapIdx.mp hParameter
  exact Parameter.isWord_leadingName _

/-- No parameter is given away again by position. Each complete slot without a colon is given an
index that no earlier slot was given. If the slot being typed names a parameter, that is the active
one; otherwise the active one was given to no slot, lies beyond the parameters by at most the number
of slots without a colon, and if there are no colons is the number of commas. Behind slots that give
values by full names, it is the first behind the last of them that none of them names. -/
theorem activeParameter_named_or_free :
    (∀ text enclosing source line signature,
      Signature.extract? text enclosing source line = some signature →
        ∀ name ∈ signature.parameterNames, IsWord name.toList) ∧
    ∀ (signature : Signature) (arguments : List Char), ∃ supplied current,
      let names := signature.parameterNames
      let active := activeParameter names arguments
      List.splitOn ',' arguments = supplied ++ [current] ∧
      (∀ earlier slot later, supplied = earlier ++ slot :: later → ':' ∉ slot →
        ∃ index, given? names earlier slot = some index ∧ ¬Given names earlier index) ∧
      (∀ index, TypedName names current index →
        active = index ∧ index < signature.parameters.length) ∧
      ((∀ index, ¬TypedName names current index) →
        ¬Given names supplied active ∧
        active ≤ signature.parameters.length + supplied.countP (':' ∉ ·) ∧
        ((∀ slot ∈ supplied, ':' ∉ slot) → active = arguments.count ',')) ∧
      ∀ indices last, (∀ name ∈ names, IsWord name.toList) →
        (names.map fun name => fold name.toList).Nodup →
        List.Forall₂ (Supplies names) (indices ++ [last]) supplied →
        (∀ c ∈ current, isBlank c = true) →
        IsLeast {index | last < index ∧ index ∉ indices ++ [last]} active := by
  refine ⟨fun _ _ _ _ _ => isWord_of_mem_parameterNames, ?_⟩
  intro signature arguments
  obtain ⟨supplied, current, hSlots⟩ :
      ∃ supplied current, List.splitOn ',' arguments = supplied ++ [current] := by
    rcases (List.splitOn ',' arguments).eq_nil_or_concat with hNone | ⟨supplied, current, hSome⟩
    · have hLength := length_splitOn ',' arguments
      simp [hNone] at hLength
    · exact ⟨supplied, current, by rw [hSome, List.concat_eq_append]⟩
  refine ⟨supplied, current, ?_⟩
  intro names active
  have hCount : names.length = signature.parameters.length := List.length_map _
  have hActive : active = (namedByCurrent? names current).getD (reached names supplied) :=
    activeParameter_eq hSlots
  refine ⟨hSlots, ?_, ?_, ?_, ?_⟩
  · intro earlier slot later _ hColon
    exact ⟨_, given?_of_no_colon hColon earlier, not_given_reached names earlier⟩
  · intro index hNamed
    rw [hActive, namedByCurrent?_eq_some_iff.mpr hNamed, ← hCount]
    exact ⟨rfl, hNamed.2.lt_length⟩
  · intro hNone
    rw [namedByCurrent?_eq_none hNone, Option.getD_none] at hActive
    obtain ⟨hTaken, hNext⟩ := assignment_within names supplied
    rw [hActive, ← hCount]
    refine ⟨not_given_reached names supplied, reached_le hTaken hNext, ?_⟩
    intro hColon
    have hLength := length_splitOn ',' arguments
    rw [hSlots, List.length_append, List.length_singleton] at hLength
    rw [reached_eq_length hColon]
    omega
  · intro indices last hWords hDistinct hSupplied hBlank
    rw [hActive, namedByCurrent?_of_blank hBlank, Option.getD_none]
    exact reached_of_supplies hWords hDistinct hSupplied

/-- Behind values for the third and then the second parameter, the fourth is active, unless the
argument being typed names another one. -/
theorem activeParameter_behind_full_names :
    ∃ signature, Signature.extract? "void F(int a, int b, int c, int d);".toList none none none =
        some signature ∧
      List.Forall₂ (Supplies signature.parameterNames) [2, 1] ["C: 1".toList, " b : 2".toList] ∧
      activeParameter signature.parameterNames "C: 1, b : 2, ".toList = 3 ∧
      TypedName signature.parameterNames " A".toList 0 ∧
      activeParameter signature.parameterNames "C: 1, b : 2, A".toList = 0 := by
  let text := "void F(int a, int b, int c, int d);".toList
  obtain ⟨signature, hExtract⟩ :
      ∃ signature, Signature.extract? text none none none = some signature :=
    Option.isSome_iff_exists.mp (by decide +kernel)
  have hNames : signature.parameterNames = ["a", "b", "c", "d"] := by
    have hAll : (Signature.extract? text none none none).map (·.parameterNames) =
        some ["a", "b", "c", "d"] := by decide +kernel
    simpa [hExtract] using hAll
  have hBlank : ∀ c ∈ [' '], isBlank c = true := List.forall_mem_singleton.mpr (by decide)
  have hSupplies : List.Forall₂ (Supplies signature.parameterNames) [2, 1]
      ["C: 1".toList, " b : 2".toList] := by
    rw [hNames]
    refine .cons ⟨"c", [], ['C'], [], [' ', '1'], rfl, ?_, by simp, by simp, rfl⟩
      (.cons ⟨"b", [' '], ['b'], [' '], [' ', '2'], rfl, ?_, hBlank, hBlank, rfl⟩ .nil)
    · decide +kernel
    · decide +kernel
  have hTyped : TypedName signature.parameterNames " A".toList 0 := by
    rw [← namedByCurrent?_eq_some_iff, hNames]
    decide +kernel
  obtain ⟨hWords, hActive⟩ := activeParameter_named_or_free
  obtain ⟨supplied, current, hSlots, -, -, -, hNamed⟩ := hActive signature "C: 1, b : 2, ".toList
  have hText : List.splitOn ',' "C: 1, b : 2, ".toList =
      ["C: 1".toList, " b : 2".toList] ++ [[' ']] := by decide +kernel
  obtain ⟨rfl, hCurrent⟩ := List.append_inj' (hText.symm.trans hSlots) rfl
  cases hCurrent
  have hDistinct : (signature.parameterNames.map fun name => fold name.toList).Nodup := by
    rw [hNames]
    decide +kernel
  obtain ⟨⟨hAbove, hFree⟩, hLeast⟩ :=
    hNamed [2] 1 (hWords _ _ _ _ _ hExtract) hDistinct hSupplies hBlank
  have hThree := hLeast (show 1 < 3 ∧ 3 ∉ [2] ++ [1] by decide)
  have hOther : activeParameter signature.parameterNames "C: 1, b : 2, ".toList ≠ 2 := by
    intro hTwo
    rw [hTwo] at hFree
    exact hFree (by decide)
  obtain ⟨_, typed, hTypedSlots, -, hFirst, -⟩ := hActive signature "C: 1, b : 2, A".toList
  have hTypedText : List.splitOn ',' "C: 1, b : 2, A".toList =
      ["C: 1".toList, " b : 2".toList] ++ [" A".toList] := by decide +kernel
  obtain ⟨-, hLast⟩ := List.append_inj' (hTypedText.symm.trans hTypedSlots) rfl
  cases hLast
  exact ⟨signature, hExtract, hSupplies, by omega, hTyped, (hFirst 0 hTyped).1⟩

end SignatureIndex.Call
