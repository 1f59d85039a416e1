import SignatureIndex.Proofs.LogicalLine

/-! The type that a signature is attributed to. The open type is kept in one place, which a header
outside of braces fills and a closing brace that ends at depth zero empties, be it in the middle of
a line. So the type open at a logical line is the one of the last header before it, unless such a
brace came after that header. -/
namespace SignatureIndex.Scan

open Text

/-- In a text that starts at a depth some closing brace ends at depth zero. -/
def Closes (depth : Nat) (text : List Char) : Prop :=
  ∃ front back, text = front ++ '\x7d' :: back ∧ depthAfter depth (front ++ ['\x7d']) = 0

/-- The type header of a logical line that starts at a depth; inside braces no header counts. -/
def headerAt? (depth : Nat) (group : List Line) : Option Enclosing :=
  if depth = 0 then typeHeader? (joined group) else none

/-- The type that is open after logical lines: it has the last header, and no closing brace from the
line of the header on ends at depth zero. -/
def OpenAfter (groups : List (List Line)) (type : Enclosing) : Prop :=
  ∃ earlier header later, groups = earlier ++ header :: later ∧
    headerAt? (depthAfter 0 (charsOf earlier.flatten)) header = some type ∧
    (∀ between other rest, later = between ++ other :: rest →
      headerAt? (depthAfter 0 (charsOf (earlier ++ header :: between).flatten)) other = none) ∧
    ¬Closes (depthAfter 0 (charsOf earlier.flatten)) (charsOf (header :: later).flatten)

/-- A type is closed by the next character or behind it. -/
theorem closes_cons {depth : Nat} {c : Char} {rest : List Char} :
    Closes depth (c :: rest) ↔
      (c = '\x7d' ∧ braceStep depth c = 0) ∨ Closes (braceStep depth c) rest := by
  constructor
  · rintro ⟨front, back, hText, hZero⟩
    cases front with
    | nil =>
        obtain ⟨rfl, -⟩ := List.cons.inj hText
        exact .inl ⟨rfl, hZero⟩
    | cons d front =>
        obtain ⟨rfl, hRest⟩ := List.cons.inj hText
        exact .inr ⟨front, back, hRest, hZero⟩
  · intro h
    rcases h with ⟨rfl, hZero⟩ | ⟨front, back, rfl, hZero⟩
    · exact ⟨[], rest, rfl, hZero⟩
    · exact ⟨c :: front, back, rfl, hZero⟩

/-- A type is closed in a text or, from the depth behind it, in the text after it. -/
theorem closes_append {depth : Nat} {first second : List Char} :
    Closes depth (first ++ second) ↔
      Closes depth first ∨ Closes (depthAfter depth first) second := by
  induction first generalizing depth with
  | nil => simp [Closes, depthAfter]
  | cons c rest ih =>
      rw [List.cons_append, closes_cons, closes_cons, ih, or_assoc]
      rfl

/-- Following the braces of a text keeps the open type unless one closes it. -/
theorem foldl_typeStep_eq_some_iff {depth : Nat} {enclosing : Option Enclosing} {text : List Char}
    {type : Enclosing} :
    (text.foldl typeStep (depth, enclosing)).2 = some type ↔
      ¬Closes depth text ∧ enclosing = some type := by
  induction text generalizing depth enclosing with
  | nil => simp [Closes]
  | cons c rest ih =>
      rw [List.foldl_cons, typeStep, ih, closes_cons]
      by_cases hClose : c = '\x7d' ∧ braceStep depth c = 0
      · rw [if_pos hClose]
        constructor
        · intro h
          cases h.2
        · intro h
          exact absurd (.inl hClose) h.1
      · rw [if_neg hClose, or_iff_right hClose]

/-- What a logical line does to the depth and the open type. -/
def lineStep (current : Nat × Option Enclosing) (group : List Line) : Nat × Option Enclosing :=
  (depthAfter current.1 (charsOf group), enclosingAfter current.1 current.2 (joined group))

/-- Along logical lines the depth is that of their characters. -/
theorem foldl_lineStep_fst (current : Nat × Option Enclosing) (groups : List (List Line)) :
    (groups.foldl lineStep current).1 = depthAfter current.1 (charsOf groups.flatten) := by
  induction groups generalizing current with
  | nil => rfl
  | cons group rest ih =>
      rw [List.foldl_cons, ih, List.flatten_cons, charsOf_append, depthAfter_append]
      rfl

/-- A type is open behind a line that opens it, or that it is open before, and does not close it.
-/
theorem lineStep_eq_some_iff {current : Nat × Option Enclosing} {group : List Line}
    {type : Enclosing} :
    (lineStep current group).2 = some type ↔ ¬Closes current.1 (charsOf group) ∧
      (headerAt? current.1 group).or current.2 = some type := by
  have hSpace (step : Nat × Option Enclosing) : typeStep step ' ' = step := by
    simp [typeStep, braceStep]
  rw [lineStep, enclosingAfter, foldl_joined hSpace, foldl_typeStep_eq_some_iff]
  rfl

theorem charsOf_flatten_append_singleton (groups : List (List Line)) (group : List Line) :
    charsOf (groups ++ [group]).flatten = charsOf groups.flatten ++ charsOf group := by
  rw [List.flatten_append, charsOf_append, List.flatten_singleton]

/-- One more logical line closes the open type, opens another one, or leaves it open. -/
theorem openAfter_append_singleton {groups : List (List Line)} {group : List Line}
    {type : Enclosing} :
    OpenAfter (groups ++ [group]) type ↔
      ¬Closes (depthAfter 0 (charsOf groups.flatten)) (charsOf group) ∧
        (headerAt? (depthAfter 0 (charsOf groups.flatten)) group = some type ∨
          headerAt? (depthAfter 0 (charsOf groups.flatten)) group = none ∧
            OpenAfter groups type) := by
  constructor
  · rintro ⟨earlier, header, later, hGroups, hHeader, hLast, hOpen⟩
    rcases later.eq_nil_or_concat with rfl | ⟨later, last, rfl⟩
    · obtain ⟨rfl, hSame⟩ := List.append_inj' hGroups rfl
      cases hSame
      exact ⟨by simpa using hOpen, .inl hHeader⟩
    · rw [List.concat_eq_append] at hGroups hLast hOpen
      rw [← List.cons_append, ← List.append_assoc] at hGroups
      obtain ⟨rfl, hSame⟩ := List.append_inj' hGroups rfl
      cases hSame
      rw [← List.cons_append, charsOf_flatten_append_singleton, closes_append, not_or] at hOpen
      rw [List.flatten_append, charsOf_append, depthAfter_append]
      refine ⟨hOpen.2, .inr ⟨?_, earlier, header, later, rfl, hHeader, ?_, hOpen.1⟩⟩
      · have hNone := hLast later group [] rfl
        rwa [List.flatten_append, charsOf_append, depthAfter_append] at hNone
      · intro between other rest hLater
        exact hLast between other (rest ++ [group]) (by simp [hLater])
  · rintro ⟨hOpen, hHeader | ⟨hNone, earlier, header, later, rfl, hHeader, hLast, hEarlier⟩⟩
    · exact ⟨groups, group, [], rfl, hHeader, by simp, by simpa using hOpen⟩
    · refine ⟨earlier, header, later ++ [group], by simp, hHeader, ?_, ?_⟩
      · exact forall_split_append hLast hNone
      · rw [← List.cons_append, charsOf_flatten_append_singleton, closes_append, not_or]
        rw [List.flatten_append, charsOf_append, depthAfter_append] at hOpen
        exact ⟨hEarlier, hOpen⟩

/-- The open type that reading keeps is the one of the last header. -/
theorem foldl_lineStep_eq_some_iff {groups : List (List Line)} {type : Enclosing} :
    (groups.foldl lineStep (0, none)).2 = some type ↔ OpenAfter groups type := by
  induction groups using List.reverseRecOn with
  | nil => simp [OpenAfter]
  | append_singleton groups group ih =>
      rw [List.foldl_append, List.foldl_cons, List.foldl_nil, lineStep_eq_some_iff,
        openAfter_append_singleton, foldl_lineStep_fst, Option.or_eq_some_iff, ih]

/-- Where the depth is never zero, the open type stays as it is. -/
theorem foldl_lineStep_snd {current : Nat × Option Enclosing} {groups : List (List Line)}
    (h : ∀ front back, charsOf groups.flatten = front ++ back →
      depthAfter current.1 front ≠ 0) :
    (groups.foldl lineStep current).2 = current.2 := by
  induction groups generalizing current with
  | nil => rfl
  | cons group rest ih =>
      have hInside : current.1 ≠ 0 := h [] _ rfl
      have hStays : (lineStep current group).2 = current.2 := by
        ext type
        rw [lineStep_eq_some_iff, headerAt?, if_neg hInside, Option.none_or, and_iff_right_iff_imp]
        rintro - ⟨front, back, hChars, hZero⟩
        apply h (front ++ ['\x7d']) (back ++ charsOf rest.flatten) _ hZero
        rw [List.flatten_cons, charsOf_append, hChars]
        simp
      rw [List.foldl_cons, ih, hStays]
      intro front back hChars
      rw [lineStep, ← depthAfter_append]
      apply h (charsOf group ++ front) back
      rw [List.flatten_cons, charsOf_append, hChars, List.append_assoc]

/-- The plain documentation is that of functions outside of any type. -/
theorem documentationIn_eq_plain_iff {enclosing : Option Enclosing} :
    Signature.documentationIn enclosing = "Built-in ZScript function" ↔ enclosing = none := by
  cases enclosing with
  | none => exact ⟨fun _ => rfl, fun _ => rfl⟩
  | some type =>
      constructor
      · intro h
        have hLonger : "Built-in ZScript function".length <
            "Built-in function. Defined in: ".length := by decide +kernel
        have hLength : ("Built-in function. Defined in: " ++ type.describe).length = _ :=
          congrArg String.length h
        rw [String.length_append] at hLength
        exact absurd (Nat.le.intro hLength) (Nat.not_le.mpr hLonger)
      · intro h
        cases h

section Members

variable {source : Option String} {depth : Nat} {enclosing : Option Enclosing}
  {group left : List Line} {groups : List (List Line)} {signature : Signature}

/-- A signature of a logical line tells its number and the type that is open at it. -/
theorem documentation_of_member? (h : member? source depth enclosing group = some signature) :
    signature.line = some (firstNumber group : Int) ∧
      signature.documentation = Signature.documentationIn enclosing := by
  unfold member? at h
  split at h
  · obtain ⟨declaration, -, -, rfl⟩ := exists_declaration_of_extract? h
    exact ⟨rfl, rfl⟩
  · cases h

/-- A signature among logical lines belongs to one of them. -/
theorem exists_member?_of_mem (h : signature ∈ members source depth enclosing groups) :
    ∃ before group after, groups = before ++ group :: after ∧
      member? source (before.foldl lineStep (depth, enclosing)).1
        (before.foldl lineStep (depth, enclosing)).2 group = some signature := by
  induction groups generalizing depth enclosing with
  | nil => cases h
  | cons group rest ih =>
      rw [members, List.mem_append, Option.mem_toList] at h
      rcases h with hFirst | hRest
      · exact ⟨[], group, rest, rfl, hFirst⟩
      · obtain ⟨before, other, after, rfl, hMember⟩ := ih hRest
        exact ⟨group :: before, other, after, rfl, hMember⟩

/-- The first numbers of logical lines increase, so no earlier one has the number of a line. -/
theorem Segmentation.firstNumber_ne {script : List Char} {before after : List (List Line)}
    (h : Segmentation depth (numberedLines script) (before ++ group :: after) left) :
    ∀ other ∈ before, firstNumber other ≠ firstNumber group := by
  have hNumbers := firstNumbers_sublist fun _ hGroup => h.ne_nil hGroup
  have hIncreasing := numberedLines_increasing script
  rw [h.covers, List.map_append] at hIncreasing
  have hFirst := (hIncreasing.sublist (List.sublist_append_left _ _)).sublist hNumbers
  rw [List.map_append, List.pairwise_append] at hFirst
  intro other hOther
  have hLess := hFirst.2.2 _ (List.mem_map_of_mem hOther) (firstNumber group) (by simp)
  exact Nat.ne_of_lt hLess

end Members

/-- A signature of a script stands on a logical line, behind some others; its number tells which. -/
structure StandsOn (script : List Char) (source : Option String) (before : List (List Line))
    (group : List Line) (signature : Signature) : Prop where
  found : signature ∈ signatures script source
  line : signature.line = some (firstNumber group : Int)
  among : ∃ after left, Segmentation 0 (numberedLines script) (before ++ group :: after) left

section Attribution

variable {script : List Char} {source : Option String} {before : List (List Line)}
  {group : List Line} {signature : Signature}

/-- The signatures of a script are the members of its logical lines. -/
theorem signatures_eq_members {groups : List (List Line)} {left : List Line}
    (h : Segmentation 0 (numberedLines script) groups left) :
    signatures script source = members source 0 none groups :=
  (readLines_of_segmentation source h).1

/-- Every signature of a script stands on one of its logical lines. -/
theorem exists_standsOn (h : signature ∈ signatures script source) :
    ∃ before group, StandsOn script source before group signature := by
  obtain ⟨groups, left, hSegments⟩ :=
    Segmentation.exists_of_waiting 0 [] (numberedLines script) (by simp)
  rw [List.nil_append] at hSegments
  have hFound := h
  rw [signatures_eq_members hSegments] at hFound
  obtain ⟨before, group, after, rfl, hMember⟩ := exists_member?_of_mem hFound
  exact ⟨before, group, h, (documentation_of_member? hMember).1, after, left, hSegments⟩

/-- The logical line of a signature is the one that declares it. -/
theorem StandsOn.member? (h : StandsOn script source before group signature) :
    Scan.member? source (before.foldl lineStep (0, none)).1 (before.foldl lineStep (0, none)).2
      group = some signature := by
  obtain ⟨after, left, hSegments⟩ := h.among
  have hFound := h.found
  rw [signatures_eq_members hSegments] at hFound
  obtain ⟨before', group', after', hGroups, hMember⟩ := exists_member?_of_mem hFound
  have hNumber : firstNumber group' = firstNumber group := by
    have hLine := (documentation_of_member? hMember).1
    rw [h.line] at hLine
    exact (Int.ofNat.inj (Option.some.inj hLine)).symm
  -- the first numbers of logical lines differ, so the two lines are the same
  have hBefore := hSegments.firstNumber_ne
  rw [hGroups] at hSegments
  have hBefore' := hSegments.firstNumber_ne
  rw [hNumber] at hBefore'
  obtain ⟨rfl, rfl, -⟩ := splitFirst_unique hBefore (not_not.mpr rfl) hBefore'
    (not_not.mpr hNumber) hGroups
  exact hMember

/-- The documentation of a signature is the one of the type that is open at its line. -/
theorem StandsOn.documentation (h : StandsOn script source before group signature) :
    signature.documentation = Signature.documentationIn (before.foldl lineStep (0, none)).2 :=
  (documentation_of_member? h.member?).2

end Attribution

/-- Every signature of a script stands on one of its logical lines and is attributed to the type
that is open there: the one of the last header outside of braces, unless a closing brace at or after
that line has ended at depth zero. It has the plain documentation exactly if no type is open.
Signatures between which the depth is never zero have the same documentation. -/
theorem documentation_tells_open_type (script : List Char) (source : Option String) :
    (∀ signature ∈ signatures script source,
      ∃ before group, StandsOn script source before group signature) ∧
    (∀ before group signature, StandsOn script source before group signature →
      (∀ type, OpenAfter before type → signature.documentation =
        "Built-in function. Defined in: " ++ (type.kind.keyword ++ " " ++ type.name)) ∧
      (signature.documentation = "Built-in ZScript function" ↔ ∀ type, ¬OpenAfter before type)) ∧
    ∀ before first between second signature other,
      StandsOn script source before first signature →
      StandsOn script source (before ++ first :: between) second other →
      (∀ front back, charsOf (first :: between).flatten = front ++ back →
        depthAfter 0 (charsOf before.flatten ++ front) ≠ 0) →
      signature.documentation = other.documentation := by
  refine ⟨fun _ => exists_standsOn, ?_, ?_⟩
  · intro before group signature hStands
    rw [hStands.documentation]
    constructor
    · intro type hOpen
      rw [foldl_lineStep_eq_some_iff.mpr hOpen]
      rfl
    · rw [documentationIn_eq_plain_iff, Option.eq_none_iff_forall_ne_some]
      exact forall_congr' fun type => not_congr foldl_lineStep_eq_some_iff
  · intro before first between second signature other hFirst hSecond hInside
    have hStays : ((first :: between).foldl lineStep (before.foldl lineStep (0, none))).2 =
        (before.foldl lineStep (0, none)).2 := by
      apply foldl_lineStep_snd
      intro front back hChars
      rw [foldl_lineStep_fst, ← depthAfter_append]
      exact hInside front back hChars
    rw [hFirst.documentation, hSecond.documentation, List.foldl_append, hStays]

/-- The braces on the line of a header close its type, and so does a closing brace outside of all
braces; the header after that counts. -/
theorem documentation_of_closed_types :
    let script := "class A \x7b \x7d \x7b\nint F();\n\x7d\n".toList ++
      "class C\n\x7d\nstruct B\n\x7b\nint G();\n\x7d".toList
    ∃ first second, signatures script none = [first, second] ∧
      (∃ before group, StandsOn script none before group first ∧ ∀ type, ¬OpenAfter before type) ∧
      ∃ before group type, StandsOn script none before group second ∧ OpenAfter before type ∧
        second.documentation = "Built-in function. Defined in: struct B" := by
  intro script
  obtain ⟨hStands, hTells, -⟩ := documentation_tells_open_type script none
  have hDocumentation : (signatures script none).map (·.documentation) =
      ["Built-in ZScript function", "Built-in function. Defined in: struct B"] := by
    decide +kernel
  obtain ⟨first, rest, hFound, hFirst, hRest⟩ := List.map_eq_cons_iff.mp hDocumentation
  obtain ⟨second, rfl, hSecond⟩ := List.map_eq_singleton_iff.mp hRest
  refine ⟨first, second, hFound, ?_, ?_⟩
  · obtain ⟨before, group, hLine⟩ := hStands first (by simp [hFound])
    exact ⟨before, group, hLine, (hTells before group first hLine).2.mp hFirst⟩
  · obtain ⟨before, group, hLine⟩ := hStands second (by simp [hFound])
    have hOpen : ¬∀ type, ¬OpenAfter before type := by
      rw [← (hTells before group second hLine).2, hSecond]
      decide
    obtain ⟨type, hType⟩ := not_forall_not.mp hOpen
    exact ⟨before, group, type, hLine, hType, hSecond⟩

end SignatureIndex.Scan
