import SignatureIndex.Project.Lump
import SignatureIndex.Proofs.Descent

/-! Include directives and the case of names. In a tree without links an include directive names the
file below a directory whose names are its parts up to case. Where no directory holds two names that
differ in case alone there is at most one such file, and it is found exactly if it is there. The
search goes part by part and never back: the name that it takes for a part is the only one that can
stand for it. It fails only over a path that is too long to be looked at. -/
namespace SignatureIndex

open Text FileTree

namespace FileTree

/-- A tree without links. -/
def LinkFree (tree : FileTree) : Prop :=
  ∀ place target, tree.at? place ≠ some (.link target)

/-- No directory holds two names that differ in case alone. -/
def CaseApart (tree : FileTree) : Prop :=
  ∀ directory, ∀ name ∈ tree.namesAt directory, ∀ other ∈ tree.namesAt directory,
    foldString name = foldString other → name = other

end FileTree

namespace Project

/-- Names that are parts up to case, one by one. -/
def Spells (names parts : List String) : Prop :=
  names.map foldString = parts.map foldString

/-- What the search for parts may look at below a directory: names that spell the first parts with
the next part behind them as it is written, and names that spell all parts. -/
inductive Tried (tree : FileTree) (directory : Place) (parts : List String) :
    List String → Prop where
  | next {found front back : List String} {part : String} (hParts : parts = front ++ part :: back)
      (hFound : Spells found front) (present : (tree.at? (directory ++ found)).isSome) :
      Tried tree directory parts (found ++ [part])
  | last {found : List String} (hFound : Spells found parts)
      (present : (tree.at? (directory ++ found)).isSome) : Tried tree directory parts found

/-- The name in a directory that stands for a part. -/
def nameFor? (tree : FileTree) (directory : Place) (part : String) : Option String :=
  if (tree.at? (directory ++ [part])).isSome then some part
  else matchName? part (tree.namesAt directory)

/-- The names below a directory that stand for parts. -/
def spelling? (tree : FileTree) (directory : Place) : List String → Option (List String)
  | [] => some []
  | part :: rest =>
    match nameFor? tree directory part with
    | none => none
    | some name => (spelling? tree (directory ++ [name]) rest).map (name :: ·)

section Spelling

variable {tree : FileTree} {directory : Place} {part name : String} {names parts rest : List String}

/-- A spelling of parts starts with a name that folds like the first part. -/
theorem spells_cons :
    Spells names (part :: rest) ↔
      ∃ name others, names = name :: others ∧ foldString name = foldString part ∧
        Spells others rest := by
  cases names with
  | nil => simp [Spells]
  | cons name others => simp [Spells]

theorem Spells.cons (hName : foldString name = foldString part) (h : Spells names parts) :
    Spells (name :: names) (part :: parts) :=
  spells_cons.mpr ⟨name, names, rfl, hName, h⟩

theorem isSome_of_mem_namesAt (h : name ∈ tree.namesAt directory) :
    (tree.at? (directory ++ [name])).isSome :=
  Option.isSome_iff_exists.mpr (mem_namesAt_iff.mp h)

theorem mem_namesAt_of_isSome (h : (tree.at? (directory ++ [name])).isSome) :
    name ∈ tree.namesAt directory :=
  mem_namesAt_iff.mpr (Option.isSome_iff_exists.mp h)

/-- The name chosen for a part is there and folds like it. -/
theorem matchName?_sound (h : matchName? part names = some name) :
    name ∈ names ∧ foldString name = foldString part := by
  have hMem := List.mem_of_head? h
  rw [sortNames, List.mem_mergeSort, List.mem_filter] at hMem
  simpa using hMem

/-- A part is given a name wherever one folds like it. -/
theorem matchName?_complete (hMem : name ∈ names) (hName : foldString name = foldString part) :
    ∃ other, matchName? part names = some other := by
  rw [← Option.isSome_iff_exists, matchName?, List.isSome_head?]
  have hKept : name ∈ sortNames (names.filter fun name => foldString name = foldString part) := by
    rw [sortNames, List.mem_mergeSort, List.mem_filter]
    simpa using ⟨hMem, hName⟩
  exact List.ne_nil_of_mem hKept

/-- The name for a part stands in the directory and folds like it. -/
theorem nameFor?_sound (h : nameFor? tree directory part = some name) :
    (tree.at? (directory ++ [name])).isSome ∧ foldString name = foldString part := by
  rw [nameFor?] at h
  split at h
  · next hHere =>
      cases h
      exact ⟨hHere, rfl⟩
  · obtain ⟨hMem, hName⟩ := matchName?_sound h
    exact ⟨isSome_of_mem_namesAt hMem, hName⟩

/-- A name that is there as written is taken before any other. -/
theorem nameFor?_exact (h : (tree.at? (directory ++ [part])).isSome) :
    nameFor? tree directory part = some part := by
  rw [nameFor?, if_pos h]

/-- Where case tells no names apart, the name that stands for a part is the only one that can. -/
theorem nameFor?_complete (hApart : tree.CaseApart)
    (hHere : (tree.at? (directory ++ [name])).isSome) (hName : foldString name = foldString part) :
    nameFor? tree directory part = some name := by
  have hMem := mem_namesAt_of_isSome hHere
  have hOnly {other : String} (h : nameFor? tree directory part = some other) : other = name := by
    obtain ⟨hOther, hFold⟩ := nameFor?_sound h
    exact hApart _ _ (mem_namesAt_of_isSome hOther) _ hMem (hFold.trans hName.symm)
  by_cases hExact : (tree.at? (directory ++ [part])).isSome
  · have hPart := nameFor?_exact hExact
    exact hPart.trans (congrArg some (hOnly hPart))
  · obtain ⟨other, hOther⟩ := matchName?_complete hMem hName
    have hFor : nameFor? tree directory part = some other := by rw [nameFor?, if_neg hExact, hOther]
    exact hFor.trans (congrArg some (hOnly hFor))

/-- A spelling that is found folds like the parts and leads to something. -/
theorem spelling?_sound (h : spelling? tree directory parts = some names)
    (hDirectory : (tree.at? directory).isSome) :
    Spells names parts ∧ (tree.at? (directory ++ names)).isSome := by
  induction parts generalizing directory names with
  | nil =>
      cases h
      exact ⟨rfl, by simpa using hDirectory⟩
  | cons part rest ih =>
      rw [spelling?] at h
      split at h
      · cases h
      · next name hName =>
          obtain ⟨others, hOthers, rfl⟩ := Option.map_eq_some_iff.mp h
          obtain ⟨hHere, hFold⟩ := nameFor?_sound hName
          obtain ⟨hSpells, hLast⟩ := ih hOthers hHere
          exact ⟨hSpells.cons hFold, by simpa using hLast⟩

/-- With names apart but for case, whatever folds like the parts is what is found. -/
theorem spelling?_complete (hApart : tree.CaseApart)
    (hSpells : Spells names parts) (hHere : (tree.at? (directory ++ names)).isSome) :
    spelling? tree directory parts = some names := by
  induction parts generalizing directory names with
  | nil =>
      obtain rfl : names = [] := by simpa [Spells] using hSpells
      rfl
  | cons part rest ih =>
      obtain ⟨name, others, rfl, hName, hOthers⟩ := spells_cons.mp hSpells
      rw [List.append_cons] at hHere
      rw [spelling?, nameFor?_complete hApart (isSome_above hHere) hName]
      simp only [ih hOthers hHere, Option.map_some]

theorem Tried.cons (hName : foldString name = foldString part)
    (h : Tried tree (directory ++ [name]) rest names) :
    Tried tree directory (part :: rest) (name :: names) := by
  cases h with
  | @next found front back next hParts hFound present =>
      have hWhole : part :: rest = (part :: front) ++ next :: back := by
        rw [hParts, List.cons_append]
      exact .next hWhole (hFound.cons hName) (by simpa using present)
  | last hFound present => exact .last (hFound.cons hName) (by simpa using present)

end Spelling

/-- A part of an include directive that can be looked for, if it holds no null character. -/
structure Asked (name : String) : Prop where
  part : Path.IsPart name
  notUp : name ≠ ".."
  short : utf8Size name ≤ nameLimit

section Walk

variable {env : Environment} {base : Path} {place : Place} {found parts rest : List String}
  {part : String} {node : Node}

/-- A name that is not in the directory, or stands behind that of a file, leads to nothing. -/
theorem follow_absent (hOpen : env.tree.Accessible) (hLinks : env.tree.LinkFree)
    (hPlace : env.tree.at? place = some .directory)
    (hFound : env.tree.at? (place ++ found) = some node) (hPart : Asked part)
    (hAbsent : env.tree.at? (place ++ found ++ [part]) = none) (links : Nat) :
    env.tree.follow .target links place (found ++ [part]) = .ok (.free (place ++ found) part) ∨
      env.tree.follow .target links place (found ++ [part]) = .error .notDirectory := by
  obtain ⟨enter, hEnter⟩ := exists_enter env.tree .target links
  rw [hEnter]
  cases node with
  | directory =>
      left
      have hSought : env.tree.Sought .target (place ++ found) part [] :=
        ⟨hOpen .search _, hPart.part.1, hPart.part.2.1, hPart.notUp, by simp, hPart.short⟩
      rw [hOpen.followNames_below (by simp) hFound, hSought.followNames_none hAbsent, if_pos rfl]
  | link target => exact absurd hFound (hLinks _ target)
  | file bytes =>
      right
      have hSome : found ≠ [] := by
        rintro rfl
        simp [hPlace] at hFound
      obtain ⟨front, last, rfl⟩ : ∃ front last, found = front ++ [last] :=
        ⟨_, _, (List.dropLast_append_getLast hSome).symm⟩
      have hLast := isName_of_at? hFound last (by simp)
      rw [← List.append_assoc] at hFound
      rw [List.append_assoc, hOpen.followNames_below (by simp) (at?_above hFound (by simp)),
        List.singleton_append, (hOpen.sought (by simp) hLast).followNames_file hFound,
        if_neg (by simp)]

/-- Whether something is there under a part behind names that lead down to something. -/
theorem isPresent_below (hLinks : env.tree.LinkFree) (hBase : env.Enters base place)
    (hFound : env.tree.at? (place ++ found) = some node) (hPart : Asked part) :
    env.isPresent (base.below (found ++ [part])) =
      if Text.hasNull part = false ∧
          pathLimit < utf8Size (base.below (found ++ [part])).toString then
        .error (.file .nameTooLong (base.below (found ++ [part])).toString)
      else .ok (env.tree.at? (place ++ found ++ [part])).isSome := by
  rw [Environment.isPresent, Environment.holds]
  cases hThere : env.tree.at? (place ++ found ++ [part]) with
  | some other =>
      have hNull := (isName_of_at? hThere part (by simp)).nullFree
      have hNode := List.append_assoc place found [part] ▸ hThere
      rw [hBase.find_node
        (.inr ⟨rfl, fun target hLink => hLinks _ target (hLink ▸ hNode)⟩) hNode]
      by_cases hLong : pathLimit < utf8Size (base.below (found ++ [part])).toString
      · simp [hNull, hLong, Environment.meansAbsent]
      · simp [hLong]
  | none =>
      have hNames := isName_of_at? hFound
      have hParts : ∀ name ∈ found ++ [part], Path.IsPart name := by
        intro name hName
        rcases List.mem_append.mp hName with hName | hName
        · exact (hNames name (List.mem_append_right _ hName)).part
        · rw [List.mem_singleton.mp hName]
          exact hPart.part
      have hNull : (found ++ [part]).any Text.hasNull = Text.hasNull part := by
        have hFree : found.any Text.hasNull = false := by
          simpa using fun name hName => (hNames name (List.mem_append_right _ hName)).nullFree
        simp [hFree]
      obtain ⟨links, hFind⟩ :=
        hBase.find_below (by simp : Ending.target ≠ .creation) (by simp) hParts
      rw [hFind, hNull]
      cases hZero : Text.hasNull part with
      | true => simp [Environment.meansAbsent]
      | false =>
          by_cases hLong : pathLimit < utf8Size (base.below (found ++ [part])).toString
          · simp [hLong, Environment.meansAbsent]
          · rcases follow_absent hBase.accessible hLinks hBase.at? hFound hPart hThere links with
              hFree | hFile
            · simp [hLong, hFree]
            · simp [hLong, hFile, Environment.meansAbsent]

/-- What is listed under names that lead down to something. -/
theorem names_below (hLinks : env.tree.LinkFree) (hBase : env.Enters base place)
    (hFound : env.tree.at? (place ++ found) = some node) :
    env.names (base.below found) =
      if pathLimit < utf8Size (base.below found).toString then
        .error (.file .nameTooLong (base.below found).toString)
      else if node = .directory then .ok (env.tree.namesAt (place ++ found))
      else .error (.file .notDirectory (base.below found).toString) := by
  have hFind := hBase.find_node
    (.inr ⟨rfl, fun target hLink => hLinks _ target (hLink ▸ hFound)⟩) hFound
  rw [Environment.names, Environment.listed, hFind]
  by_cases hLong : pathLimit < utf8Size (base.below found).toString
  · simp only [hLong, if_true]
    rfl
  · cases node with
    | directory => simp [hLong, Environment.unlessRefused, hBase.accessible .content, Except.map]
    | file bytes => simp [hLong, Except.map]
    | link target => exact absurd hFound (hLinks _ target)

/-- One step of the search: it goes on to the name that stands for the part, unless the path with
the part behind it is too long to be looked at. -/
theorem walk_cons_cases (hLinks : env.tree.LinkFree) (hBase : env.Enters base place)
    (hFound : (env.tree.at? (place ++ found)).isSome) (hPart : Asked part) (rest : List String) :
    (pathLimit < utf8Size (base.below (found ++ [part])).toString ∧
      (walk env (base.below found) (part :: rest) =
          .error (.file .nameTooLong (base.below (found ++ [part])).toString) ∨
        walk env (base.below found) (part :: rest) = .ok none)) ∨
    walk env (base.below found) (part :: rest) =
      match nameFor? env.tree (place ++ found) part with
      | none => .ok none
      | some name => walk env (base.below (found ++ [name])) rest := by
  obtain ⟨node, hNode⟩ := Option.isSome_iff_exists.mp hFound
  have hChild {name : String} (h : Path.IsPart name) :
      (base.below found).child name = base.below (found ++ [name]) := by
    rw [Path.child_eq_below h, Path.below_below]
  have hPresent := isPresent_below hLinks hBase hNode hPart
  by_cases hStop : Text.hasNull part = false ∧
      pathLimit < utf8Size (base.below (found ++ [part])).toString
  · rw [if_pos hStop] at hPresent
    refine .inl ⟨hStop.2, .inl ?_⟩
    rw [walk, if_neg hPart.notUp]
    simp only [hChild hPart.part, hPresent]
  · rw [if_neg hStop] at hPresent
    cases hThere : (env.tree.at? (place ++ found ++ [part])).isSome with
    | true =>
        right
        rw [hThere] at hPresent
        rw [walk, if_neg hPart.notUp, nameFor?_exact hThere]
        simp only [hChild hPart.part, hPresent]
    | false =>
        rw [hThere] at hPresent
        have hListed := names_below hLinks hBase hNode
        by_cases hLong : pathLimit < utf8Size (base.below found).toString
        · have hMore := Environment.utf8Size_below_le base found [part]
          refine .inl ⟨Nat.lt_of_lt_of_le hLong hMore, .inr ?_⟩
          rw [if_pos hLong] at hListed
          rw [walk, if_neg hPart.notUp]
          simp only [hChild hPart.part, hPresent, hListed, Failure.isFile, if_true]
        · right
          rw [if_neg hLong] at hListed
          rw [walk, if_neg hPart.notUp, nameFor?, if_neg (hThere ▸ Bool.false_ne_true)]
          simp only [hChild hPart.part, hPresent, hListed]
          by_cases hDirectory : node = .directory
          · rw [if_pos hDirectory]
            cases hMatch : matchName? part (env.tree.namesAt (place ++ found)) with
            | none => simp only [hMatch]
            | some name =>
                obtain ⟨other, hOther⟩ := mem_namesAt_iff.mp (matchName?_sound hMatch).1
                simp only [hMatch, hChild (isName_of_at? hOther name (by simp)).part]
          · have hNone : matchName? part [] = none := by simp [matchName?, sortNames]
            rw [if_neg hDirectory, namesAt_eq_nil hNode hDirectory, hNone]
            rfl

/-- The whole search: it ends at the names that stand for the parts, unless it comes to a path that
is too long to be looked at. -/
theorem walk_cases (hLinks : env.tree.LinkFree) (hBase : env.Enters base place)
    (hFound : (env.tree.at? (place ++ found)).isSome) (hParts : ∀ part ∈ parts, Asked part) :
    (∃ names, Tried env.tree (place ++ found) parts names ∧
      pathLimit < utf8Size (base.below (found ++ names)).toString ∧
      (walk env (base.below found) parts =
          .error (.file .nameTooLong (base.below (found ++ names)).toString) ∨
        walk env (base.below found) parts = .ok none)) ∨
    walk env (base.below found) parts =
      .ok ((spelling? env.tree (place ++ found) parts).map fun names =>
        base.below (found ++ names)) := by
  induction parts generalizing found with
  | nil => exact .inr (by simp [walk, spelling?])
  | cons part rest ih =>
      obtain ⟨hPart, hRest⟩ := List.forall_mem_cons.mp hParts
      rcases walk_cons_cases hLinks hBase hFound hPart rest with ⟨hLong, hStops⟩ | hStep
      · have hTried := Tried.next (List.nil_append (part :: rest)).symm rfl (by simpa using hFound)
        exact .inl ⟨[part], hTried, hLong, hStops⟩
      · rw [hStep, spelling?]
        cases hFor : nameFor? env.tree (place ++ found) part with
        | none => exact .inr rfl
        | some name =>
            obtain ⟨hHere, hName⟩ := nameFor?_sound hFor
            rw [List.append_assoc] at hHere
            rcases ih hHere hRest with ⟨names, hTried, hLong, hStops⟩ | hWalk
            · rw [← List.append_assoc] at hTried
              rw [List.append_assoc] at hLong hStops
              exact .inl ⟨name :: names, hTried.cons hName, hLong, hStops⟩
            · right
              rw [← List.append_assoc] at hWalk
              simp only [hWalk, Option.map_map, Function.comp_def, List.append_assoc,
                List.singleton_append]

/-- Parts that are there as they are written are followed as they are written. -/
theorem walk_exact (hLinks : env.tree.LinkFree) (hBase : env.Enters base place)
    (hNode : env.tree.at? (place ++ (found ++ parts)) = some node)
    (hShort : utf8Size (base.below (found ++ parts)).toString ≤ pathLimit) :
    walk env (base.below found) parts = .ok (some (base.below (found ++ parts))) := by
  induction parts generalizing found with
  | nil => simp [walk]
  | cons part rest ih =>
      have hName := isName_of_at? hNode part (by simp)
      have hPart : Asked part := ⟨hName.part, hName.notUp, hName.short⟩
      rw [List.append_cons] at hNode hShort ⊢
      have hAll : (env.tree.at? (place ++ found ++ [part] ++ rest)).isSome := by
        rw [List.append_assoc place, List.append_assoc place, hNode]
        rfl
      have hFirst := isSome_above hAll
      have hFound := isSome_above hFirst
      rcases walk_cons_cases hLinks hBase hFound hPart rest with ⟨hLong, -⟩ | hStep
      · have hMore := Environment.utf8Size_below_le base (found ++ [part]) rest
        omega
      · rw [hStep, nameFor?_exact hFirst]
        exact ih hNode hShort

end Walk

section Include

variable {env : Environment} {base : Path} {place : Place} {target : String}

/-- The file that an include directive names is the one whose names stand for its parts, unless the
search comes to a path that is too long to be looked at. -/
theorem fileBelow?_cases (hLinks : env.tree.LinkFree) (hBase : env.Enters base place)
    (hParts : ∀ part ∈ Path.partsOf target.toList, Asked part) :
    (∃ names, Tried env.tree place (Path.partsOf target.toList) names ∧
      pathLimit < utf8Size (base.below names).toString ∧
      (fileBelow? env base target = .error (.file .nameTooLong (base.below names).toString) ∨
        fileBelow? env base target = .ok none)) ∨
    ∃ result, fileBelow? env base target = .ok result ∧ ∀ path, result = some path ↔
      ∃ names, spelling? env.tree place (Path.partsOf target.toList) = some names ∧
        env.tree.HoldsFile (place ++ names) ∧ path = base.below names := by
  have hPlace : (env.tree.at? (place ++ [])).isSome := by simp [hBase.at?]
  have hWalk := walk_cases hLinks hBase hPlace hParts
  simp only [List.append_nil, List.nil_append, Path.below_nil] at hWalk hPlace
  rcases hWalk with ⟨names, hTried, hLong, hError | hNone⟩ | hWalk
  · exact .inl ⟨names, hTried, hLong, .inl (by rw [fileBelow?, hError])⟩
  · exact .inl ⟨names, hTried, hLong, .inr (by rw [fileBelow?, hNone])⟩
  · cases hSpelling : spelling? env.tree place (Path.partsOf target.toList) with
    | none =>
        rw [hSpelling] at hWalk
        exact .inr ⟨none, by rw [fileBelow?, hWalk]; rfl, by simp⟩
    | some names =>
        rw [hSpelling, Option.map_some] at hWalk
        obtain ⟨hSpells, hHere⟩ := spelling?_sound hSpelling hPlace
        obtain ⟨node, hNode⟩ := Option.isSome_iff_exists.mp hHere
        rcases hBase.isFile_below hNode fun link hLink => hLinks _ link (hLink ▸ hNode) with
          ⟨hLong, hError⟩ | ⟨-, answer, hAnswer, hFile⟩
        · exact .inl ⟨names, .last hSpells hHere, hLong,
            .inl (by simp only [fileBelow?, hWalk, hError])⟩
        · refine .inr ⟨if answer then some (base.below names) else none,
            by simp only [fileBelow?, hWalk, hAnswer], fun path => ?_⟩
          cases answer with
          | true =>
              have hHolds := hFile.mp rfl
              simp [hHolds, eq_comm]
          | false =>
              have hNot : ¬env.tree.HoldsFile (place ++ names) :=
                fun hHolds => by simpa using hFile.mpr hHolds
              simp [hNot]

/-- A file that is there as the parts are written is found. -/
theorem fileBelow?_exact (hLinks : env.tree.LinkFree) (hBase : env.Enters base place)
    (hFile : env.tree.HoldsFile (place ++ Path.partsOf target.toList))
    (hShort : utf8Size (base.below (Path.partsOf target.toList)).toString ≤ pathLimit) :
    fileBelow? env base target = .ok (some (base.below (Path.partsOf target.toList))) := by
  obtain ⟨bytes, hNode⟩ := hFile
  have hWalk : walk env base (Path.partsOf target.toList) =
      .ok (some (base.below (Path.partsOf target.toList))) := by
    have hExact := @walk_exact env base place [] (Path.partsOf target.toList) (.file bytes)
      hLinks hBase hNode hShort
    rwa [Path.below_nil] at hExact
  rcases hBase.isFile_below hNode (by simp) with ⟨hLong, -⟩ | ⟨-, answer, hAnswer, hIff⟩
  · exact absurd hLong (Nat.not_lt.mpr hShort)
  · rw [hIff.mpr ⟨bytes, hNode⟩] at hAnswer
    simp only [fileBelow?, hWalk, hAnswer, if_true]

/-- An include is looked for below the root and then beside the file that holds it. -/
theorem resolveInclude_eq_some_iff {root including path : Path} :
    resolveInclude env root including target = .ok (some path) ↔
      fileBelow? env root target = .ok (some path) ∨
        fileBelow? env root target = .ok none ∧
          fileBelow? env including.parent target = .ok (some path) := by
  rw [resolveInclude]
  rcases fileBelow? env root target with failure | (_ | found) <;> simp

/-- An include is missing when it is neither below the root nor beside its file. -/
theorem resolveInclude_eq_none_iff {root including : Path} :
    resolveInclude env root including target = .ok none ↔
      fileBelow? env root target = .ok none ∧
        fileBelow? env including.parent target = .ok none := by
  rw [resolveInclude]
  rcases fileBelow? env root target with failure | (_ | found) <;> simp

/-- A single part whose path is too long makes the search fail. -/
theorem fileBelow?_of_long {part : String} (hLinks : env.tree.LinkFree)
    (hBase : env.Enters base place) (hParts : Path.partsOf target.toList = [part])
    (hPart : Asked part) (hNull : Text.hasNull part = false)
    (hLong : pathLimit < utf8Size (base.below [part]).toString) :
    fileBelow? env base target = .error (.file .nameTooLong (base.below [part]).toString) := by
  have hHere : env.tree.at? (place ++ []) = some .directory := by simpa using hBase.at?
  have hPresent := isPresent_below hLinks hBase hHere hPart
  rw [List.nil_append, if_pos ⟨hNull, hLong⟩] at hPresent
  rw [fileBelow?, hParts, walk, if_neg hPart.notUp]
  simp only [Path.child_eq_below hPart.part, hPresent]

/-- An include directive without double dots, in a tree without links in which nothing is refused.
Where no directory holds two names that differ in case alone, and no path that is tried is too long,
the file is found below the directory exactly if there is one whose names are the parts up to case,
and then it is that file. A file that is there as it is written is found even if others differ from
it in case alone, and what is found is always a file whose names are the parts up to case. The
search fails only over a path that is too long. The project's root comes before the directory of the
including file. -/
theorem include_ignores_case (hOpen : env.tree.Accessible) (hLinks : env.tree.LinkFree)
    (hBase : base.Proper) (hPlace : env.find .target base = .ok (.node place .directory))
    (hParts : ∀ part ∈ Path.partsOf target.toList, part ≠ ".." ∧ utf8Size part ≤ nameLimit) :
    (env.tree.CaseApart →
      (∀ names, Tried env.tree place (Path.partsOf target.toList) names →
        utf8Size (base.below names).toString ≤ pathLimit) →
      ∃ result, fileBelow? env base target = .ok result ∧ ∀ path, result = some path ↔
        ∃ names, Spells names (Path.partsOf target.toList) ∧ env.tree.HoldsFile (place ++ names) ∧
          path = base.below names) ∧
    (env.tree.HoldsFile (place ++ Path.partsOf target.toList) →
      utf8Size (base.below (Path.partsOf target.toList)).toString ≤ pathLimit →
      fileBelow? env base target = .ok (some (base.below (Path.partsOf target.toList)))) ∧
    (∀ path, fileBelow? env base target = .ok (some path) →
      ∃ names, Spells names (Path.partsOf target.toList) ∧ env.tree.HoldsFile (place ++ names) ∧
        path = base.below names) ∧
    (∀ failure, fileBelow? env base target = .error failure →
      ∃ names, Tried env.tree place (Path.partsOf target.toList) names ∧
        pathLimit < utf8Size (base.below names).toString ∧
        failure = .file .nameTooLong (base.below names).toString) ∧
    (∀ including path, resolveInclude env base including target = .ok (some path) ↔
      fileBelow? env base target = .ok (some path) ∨
        fileBelow? env base target = .ok none ∧
          fileBelow? env including.parent target = .ok (some path)) ∧
    (∀ including, resolveInclude env base including target = .ok none ↔
      fileBelow? env base target = .ok none ∧
        fileBelow? env including.parent target = .ok none) := by
  obtain ⟨hEnters, -⟩ := Environment.enters_of_find hOpen hBase hPlace
  have hNames : ∀ part ∈ Path.partsOf target.toList, Asked part :=
    fun part hPart => ⟨Path.isPart_of_mem_partsOf hPart, (hParts part hPart).1,
      (hParts part hPart).2⟩
  have hCases := fileBelow?_cases hLinks hEnters hNames
  have hThere : (env.tree.at? place).isSome := by simp [hEnters.at?]
  refine ⟨fun hApart hShort => ?_, fileBelow?_exact hLinks hEnters, fun path hPath => ?_,
    fun failure hFailure => ?_, fun _ _ => resolveInclude_eq_some_iff,
    fun _ => resolveInclude_eq_none_iff⟩
  · rcases hCases with ⟨names, hTried, hLong, -⟩ | ⟨result, hResult, hIff⟩
    · exact absurd hLong (Nat.not_lt.mpr (hShort names hTried))
    · refine ⟨result, hResult, fun path => (hIff path).trans (exists_congr fun names => ?_)⟩
      constructor
      · rintro ⟨hSpelling, hFile, rfl⟩
        exact ⟨(spelling?_sound hSpelling hThere).1, hFile, rfl⟩
      · rintro ⟨hSpells, hFile, rfl⟩
        obtain ⟨bytes, hNode⟩ := hFile
        exact ⟨spelling?_complete hApart hSpells (by simp [hNode]), ⟨bytes, hNode⟩, rfl⟩
  · rcases hCases with ⟨names, -, -, hError | hNone⟩ | ⟨result, hResult, hIff⟩
    · rw [hError] at hPath
      cases hPath
    · rw [hNone] at hPath
      cases hPath
    · rw [hResult] at hPath
      obtain ⟨names, hSpelling, hFile, rfl⟩ := (hIff path).mp (Except.ok.inj hPath)
      exact ⟨names, (spelling?_sound hSpelling hThere).1, hFile, rfl⟩
  · rcases hCases with ⟨names, hTried, hLong, hError | hNone⟩ | ⟨result, hResult, -⟩
    · rw [hError] at hFailure
      exact ⟨names, hTried, hLong, (Except.error.inj hFailure).symm⟩
    · rw [hNone] at hFailure
      cases hFailure
    · rw [hResult] at hFailure
      cases hFailure

end Include

section Samples

/-- A directory tree in which names differ from those in include directives. -/
def mixedCase : Environment where
  tree := .ofEntries
    [(["Actors"], .directory), (["Actors", "Imp.zs"], .file []), (["actors.zs"], .file [])]
  working := []
  stands := rfl

/-- Names of one directory are apart if the places of the tree are. -/
theorem caseApart_of_nodes {tree : FileTree}
    (h : ∀ entry ∈ tree.nodes, ∀ other ∈ tree.nodes, entry.1.dropLast = other.1.dropLast →
      entry.1.getLast?.map foldString = other.1.getLast?.map foldString → entry.1 = other.1) :
    tree.CaseApart := by
  have hEntry {directory : Place} {name : String} (hName : name ∈ tree.namesAt directory) :
      ∃ entry ∈ tree.nodes, entry.1 = directory ++ [name] := by
    obtain ⟨node, hNode⟩ := mem_namesAt_iff.mp hName
    exact ⟨_, mem_nodes_of_at? hNode (by simp), rfl⟩
  intro directory name hName other hOther hFold
  obtain ⟨first, hFirst, hPlace⟩ := hEntry hName
  obtain ⟨second, hSecond, hSame⟩ := hEntry hOther
  have hEqual := h first hFirst second hSecond (by simp [hPlace, hSame])
    (by simp [hPlace, hSame, hFold])
  simpa [hPlace, hSame] using hEqual

theorem mixedCase_accessible : mixedCase.tree.Accessible :=
  accessible_ofEntries _

theorem mixedCase_linkFree : mixedCase.tree.LinkFree := by
  intro place target hLink
  have hPlace : place ≠ [] := by
    rintro rfl
    cases hLink
  have hNodes : mixedCase.tree.nodes = [(["Actors"], .directory),
      (["Actors", "Imp.zs"], .file []), (["actors.zs"], .file [])] := by decide +kernel
  simpa [hNodes] using mem_nodes_of_at? hLink hPlace

/-- What is tried below the root of a tree is a place of the tree, with a part behind it or not. -/
theorem Tried.mem_nodes {tree : FileTree} {parts names : List String}
    (h : Tried tree [] parts names) :
    ∃ found ∈ [] :: tree.nodes.map Prod.fst, ∃ last ∈ [] :: parts.map ([·]),
      names = found ++ last := by
  have hMem {found : List String} (present : (tree.at? ([] ++ found)).isSome) :
      found ∈ [] :: tree.nodes.map Prod.fst := by
    by_cases hRoot : found = []
    · simp [hRoot]
    · obtain ⟨node, hNode⟩ := Option.isSome_iff_exists.mp present
      exact List.mem_cons_of_mem _ (List.mem_map_of_mem (mem_nodes_of_at? hNode hRoot))
  cases h with
  | @next found _ _ part hParts _ present =>
      exact ⟨found, hMem present, [part], by simp [hParts], rfl⟩
  | last _ present => exact ⟨names, hMem present, [], by simp, by simp⟩

/-- Parts in other case, and dots between them, still lead to the file. -/
theorem mixedCase_include :
    fileBelow? mixedCase ⟨.slash, []⟩ "ACTORS/./imp.ZS" =
      .ok (some ⟨.slash, ["Actors", "Imp.zs"]⟩) := by
  have hParts : Path.partsOf "ACTORS/./imp.ZS".toList = ["ACTORS", "imp.ZS"] := by decide +kernel
  have hApart : mixedCase.tree.CaseApart := caseApart_of_nodes (by decide +kernel)
  have hSizes : ∀ found ∈ [] :: mixedCase.tree.nodes.map Prod.fst,
      ∀ last ∈ [[], ["ACTORS"], ["imp.ZS"]],
      utf8Size (Path.below ⟨.slash, []⟩ (found ++ last)).toString ≤ pathLimit := by
    decide +kernel
  obtain ⟨hFound, -⟩ := @include_ignores_case mixedCase ⟨.slash, []⟩ [] "ACTORS/./imp.ZS"
    mixedCase_accessible mixedCase_linkFree (by simp [Path.Proper]) (by decide +kernel)
    (by rw [hParts]; decide +kernel)
  obtain ⟨result, hResult, hIff⟩ := hFound hApart fun names hTried => by
    rw [hParts] at hTried
    obtain ⟨found, hFound, last, hLast, rfl⟩ := hTried.mem_nodes
    exact hSizes found hFound last hLast
  have hSpells : Spells ["Actors", "Imp.zs"] ["ACTORS", "imp.ZS"] := by
    unfold Spells
    decide +kernel
  rw [hResult, (hIff ⟨.slash, ["Actors", "Imp.zs"]⟩).mpr
    ⟨["Actors", "Imp.zs"], hParts ▸ hSpells, ⟨[], rfl⟩, rfl⟩]

/-- A path that leads to the root in nearly as many bytes as a path may have. -/
def longWay : Path :=
  ⟨.relative, (List.replicate 409 ["Actors", ".."]).flatten⟩

theorem longWay_enters : mixedCase.Enters longWay [] := by
  refine ⟨mixedCase_accessible, fun part hPart => ?_, by decide +kernel, by decide +kernel⟩
  obtain ⟨pair, hPair, hMem⟩ := List.mem_flatten.mp hPart
  rw [List.eq_of_mem_replicate hPair] at hMem
  obtain rfl | rfl : part = "Actors" ∨ part = ".." := by simpa using hMem
  all_goals
    unfold Path.IsPart
    decide +kernel

theorem utf8Size_longWay : utf8Size longWay.toString = 4089 := by
  have hSize := Environment.utf8Size_intercalate_succ (by decide +kernel : longWay.parts ≠ [])
  have hSum : Environment.weight longWay.parts = 4090 := by decide +kernel
  have hStart : utf8Size longWay.start.text = 0 := by decide
  rw [Environment.utf8Size_toString]
  omega

theorem utf8Size_longWay_below : utf8Size (longWay.below ["actors.zs"]).toString = 4099 := by
  have hSize := Environment.utf8Size_intercalate_succ
    (by decide +kernel : (longWay.below ["actors.zs"]).parts ≠ [])
  have hSum : Environment.weight (longWay.below ["actors.zs"]).parts = 4100 := by
    decide +kernel
  have hStart : utf8Size (longWay.below ["actors.zs"]).start.text = 0 := by decide
  rw [Environment.utf8Size_toString]
  omega

/-- A file below a directory, spelled as it is, is not found if the path of the directory leaves no
room for its name. -/
theorem longWay_include :
    mixedCase.find .target longWay = .ok (.node [] .directory) ∧
      mixedCase.tree.HoldsFile ["actors.zs"] ∧
      fileBelow? mixedCase longWay "actors.zs" =
        .error (.file .nameTooLong (longWay.below ["actors.zs"]).toString) := by
  have hParts : Path.partsOf "actors.zs".toList = ["actors.zs"] := by decide +kernel
  have hName : IsName "actors.zs" := by decide +kernel
  have hPart : Asked "actors.zs" := ⟨hName.part, hName.notUp, hName.short⟩
  refine ⟨?_, ⟨[], rfl⟩, ?_⟩
  · rw [Environment.find_eq_follow mixedCase_accessible longWay_enters.proper,
      longWay_enters.nullFree,
      longWay_enters.follows, utf8Size_longWay, if_neg Bool.false_ne_true, if_neg (by decide)]
  · have hLong : pathLimit < utf8Size (longWay.below ["actors.zs"]).toString := by
      rw [utf8Size_longWay_below]
      decide
    exact fileBelow?_of_long mixedCase_linkFree longWay_enters hParts hPart hName.nullFree hLong

end Samples

end Project

end SignatureIndex
