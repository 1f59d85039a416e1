import SignatureIndex.Path.Within
import SignatureIndex.Proofs.FileTree
import SignatureIndex.Proofs.Path

/-! Paths below a directory. Where nothing is refused, what is found under a path that goes on from
a directory's path depends only on what stands below that directory, however the directory's own
path leads to it. Only the length of the text still counts. -/
namespace SignatureIndex

open Text

namespace Path

section Below

variable {path : Path} {name : String} {front back names : List String}

theorem below_nil : path.below [] = path := by
  rw [below, List.append_nil]

theorem below_below : (path.below front).below back = path.below (front ++ back) := by
  simp only [below, List.append_assoc]

theorem ofString_of_isPart (h : IsPart name) : ofString name = ⟨.relative, [name]⟩ := by
  have hProper : Proper ⟨.relative, [name]⟩ := by simpa [Proper] using h
  have hText : Path.toString ⟨.relative, [name]⟩ = name := by
    simp [Path.toString, PathStart.text, h.1]
  simpa only [hText] using ofString_toString hProper

/-- For a single name, the child of a path is what is directly below it. -/
theorem child_eq_below (h : IsPart name) : path.child name = path.below [name] := by
  rw [child, ofString_of_isPart h]
  rfl

/-- Names put below a proper path keep it proper. -/
theorem Proper.below (h : path.Proper) (hNames : ∀ name ∈ names, IsPart name) :
    (path.below names).Proper :=
  List.forall_mem_append.mpr ⟨h, hNames⟩

theorem isAbsolute_below : (path.below names).isAbsolute = path.isAbsolute := rfl

end Below

end Path

namespace FileTree

/-- A file stands at a place. -/
def HoldsFile (tree : FileTree) (place : Place) : Prop :=
  ∃ bytes, tree.at? place = some (.file bytes)

section Follow

variable {tree : FileTree} {ending : Ending} {place : Place} {name : String}
  {names back : List String} {enter : Place → List String → Except FileError Found}

theorem IsName.ne_dots (h : IsName name) : name ≠ "" ∧ name ≠ "." ∧ name ≠ ".." :=
  ⟨h.part.1, h.part.2.1, h.notUp⟩

/-- Every name of an accessible tree can be looked for. -/
theorem Accessible.sought (h : tree.Accessible) (hEnding : ending ≠ .creation)
    (hName : IsName name) : tree.Sought ending place name names :=
  ⟨h .search place, hName.part.1, hName.part.2.1, hName.notUp, fun hMake => hEnding hMake.1,
    hName.short⟩

/-- Looking up with any number of links left is the walk over names with some way to enter links.
-/
theorem exists_enter (tree : FileTree) (ending : Ending) (links : Nat) :
    ∃ enter, tree.follow ending links = tree.followNames ending enter := by
  cases links with
  | zero => exact ⟨_, rfl⟩
  | succ links => exact ⟨_, rfl⟩

/-- Empty names and single dots stay where they are. -/
theorem Accessible.followNames_stays (h : tree.Accessible)
    (hNames : ∀ name ∈ names, name = "" ∨ name = ".") (back : List String) :
    tree.followNames ending enter place (names ++ back) =
      tree.followNames ending enter place back := by
  induction names with
  | nil => rfl
  | cons name names ih =>
      obtain ⟨rfl | rfl, hRest⟩ := List.forall_mem_cons.mp hNames
      · exact ih hRest
      · rw [List.cons_append, followNames_dot (h .search place), ih hRest]

/-- Names that lead down to a directory are followed to it. -/
theorem Accessible.followNames_below (h : tree.Accessible) (hEnding : ending ≠ .creation)
    (hNode : tree.at? (place ++ names) = some .directory) (back : List String) :
    tree.followNames ending enter place (names ++ back) =
      tree.followNames ending enter (place ++ names) back := by
  induction names generalizing place with
  | nil => simp
  | cons name names ih =>
      rw [List.append_cons] at hNode
      have hName := isName_of_at? hNode name (by simp)
      have hFirst : tree.at? (place ++ [name]) = some .directory := by
        cases names with
        | nil => simpa using hNode
        | cons next names => exact at?_above hNode (by simp)
      have hRest := ih hNode
      rw [List.append_assoc] at hRest
      rw [List.cons_append, (h.sought hEnding hName).followNames_directory hFirst]
      exact hRest

/-- Names that lead down to something are followed to it, to a link only if it is asked for. -/
theorem Accessible.follow_below (h : tree.Accessible) {links : Nat} {node : Node}
    (hEnding : ending = .name ∨ ending = .target ∧ ∀ target, node ≠ .link target)
    (hNode : tree.at? (place ++ names) = some node) (hNames : names ≠ []) :
    tree.follow ending links place names = .ok (.node (place ++ names) node) := by
  have hMade : ending ≠ .creation := by
    rintro rfl
    simp at hEnding
  obtain ⟨enter, hEnter⟩ := exists_enter tree ending links
  obtain ⟨front, last, rfl⟩ : ∃ front last, names = front ++ [last] :=
    ⟨_, _, (List.dropLast_append_getLast hNames).symm⟩
  have hLast := isName_of_at? hNode last (by simp)
  rw [← List.append_assoc] at hNode ⊢
  have hFront := at?_above hNode (by simp)
  rw [hEnter, h.followNames_below hMade hFront]
  cases node with
  | file bytes => rw [(h.sought hMade hLast).followNames_file hNode, if_pos rfl]
  | directory =>
      rw [(h.sought hMade hLast).followNames_directory hNode]
      rfl
  | link target =>
      have hName : ending = .name := by simpa using hEnding
      rw [(h.sought hMade hLast).followNames_link hNode, if_pos ⟨rfl, hName⟩]

/-- Where names lead to a directory, more names lead on from there. -/
theorem Follows.append {enter' : Place → List String → Except FileError Found}
    (hEnding : ending ≠ .creation) (hBack : back ≠ []) {directory : Place} {found : Found}
    (hHere : ∃ links,
      tree.followNames ending enter' place back = tree.follow ending links place back)
    (hEnter : ∀ start names, enter start names = .ok (.node place .directory) →
      ∃ links, enter' start (names ++ back) = tree.follow ending links place back)
    (h : Follows tree .target enter directory names found)
    (hFound : found = .node place .directory) :
    ∃ links, tree.followNames ending enter' directory (names ++ back) =
      tree.follow ending links place back := by
  have hMore {directory : Place} {name : String} {names : List String}
      (hName : tree.Sought .target directory name names) :
      tree.Sought ending directory name (names ++ back) :=
    ⟨hName.searched, hName.nonempty, hName.notDot, hName.notUp, fun hMake => hEnding hMake.1,
      hName.short⟩
  induction h with
  | done =>
      cases hFound
      exact hHere
  | blank _ ih => exact ih hFound
  | dot hSearched _ ih =>
      rw [List.cons_append, followNames_dot hSearched]
      exact ih hFound
  | up hSearched _ ih =>
      rw [List.cons_append, followNames_up hSearched]
      exact ih hFound
  | down hName hNode _ ih =>
      rw [List.cons_append, (hMore hName).followNames_directory hNode]
      exact ih hFound
  | free | file | last => cases hFound
  | link hName _ hNode within =>
      rw [List.cons_append, (hMore hName).followNames_link hNode, if_neg (by simp [hBack]),
        ← List.append_assoc]
      exact hEnter _ _ (hFound ▸ within)

/-- A path through a directory goes on from there, with some number of links left. -/
theorem follow_append {links : Nat} (hEnding : ending ≠ .creation) (hBack : back ≠ [])
    {directory : Place}
    (h : tree.follow .target links directory names = .ok (.node place .directory)) :
    ∃ fewer, tree.follow ending links directory (names ++ back) =
      tree.follow ending fewer place back := by
  induction links generalizing directory names with
  | zero =>
      exact (follows_of_followNames h).append hEnding hBack ⟨0, rfl⟩
        (fun _ _ hNone => by cases hNone) rfl
  | succ links ih =>
      exact (follows_of_followNames h).append hEnding hBack ⟨links + 1, rfl⟩ (fun _ _ => ih) rfl

end Follow

end FileTree

namespace Environment

open FileTree

section Texts

variable {path : Path} {front back names : List String}

theorem hasNull_append (first second : String) :
    hasNull (first ++ second) = (hasNull first || hasNull second) := by
  simp [hasNull, String.toList_append]

theorem hasNull_intercalate (parts : List String) :
    hasNull ("/".intercalate parts) = parts.any hasNull := by
  have hText : ("/".intercalate parts).toList = List.intercalate ['/'] (parts.map String.toList) :=
    String.toList_intercalate ..
  rw [Bool.eq_iff_iff, hasNull, hText, List.contains_iff_mem, List.any_eq_true]
  constructor
  · intro hNull
    rcases mem_intercalate hNull with hSlash | ⟨piece, hPiece, hMem⟩
    · exact absurd hSlash (by decide)
    · obtain ⟨part, hPart, rfl⟩ := List.mem_map.mp hPiece
      exact ⟨part, hPart, List.contains_iff_mem.mpr hMem⟩
  · rintro ⟨part, hPart, hNull⟩
    have hPiece : part.toList ∈ parts.map String.toList := List.mem_map.mpr ⟨part, hPart, rfl⟩
    exact (isInfix_intercalate hPiece).subset (List.contains_iff_mem.mp hNull)

/-- The text of a path holds a null character exactly if one of its parts does. -/
theorem hasNull_toString (path : Path) : hasNull path.toString = path.parts.any hasNull := by
  have hStart : hasNull path.start.text = false := by cases path.start <;> decide
  have hText : hasNull (path.start.text ++ "/".intercalate path.parts) =
      path.parts.any hasNull := by
    rw [hasNull_append, hStart, hasNull_intercalate, Bool.false_or]
  rw [Path.toString]
  split
  · next hEmpty =>
      rw [hEmpty] at hText
      rw [← hText]
      decide
  · exact hText

theorem utf8Size_append (first second : String) :
    utf8Size (first ++ second) = utf8Size first + utf8Size second := by
  simp [utf8Size, encodeUtf8, String.toList_append]

theorem utf8Size_pos {text : String} (h : text ≠ "") : 0 < utf8Size text := by
  have hLength := length_le_encodeUtf8 text.toList
  have hSome : text.toList ≠ [] := by simpa using h
  have := List.length_pos_iff.mpr hSome
  rw [utf8Size]
  omega

theorem intercalate_prefix_append (sep : List Char) (first second : List (List Char)) :
    List.intercalate sep first <+: List.intercalate sep (first ++ second) := by
  induction first with
  | nil => exact List.nil_prefix
  | cons piece rest ih =>
      cases rest with
      | nil =>
          cases second with
          | nil => exact List.prefix_rfl
          | cons next second => exact ⟨sep ++ List.intercalate sep (next :: second), by simp⟩
      | cons next rest =>
          rw [List.cons_append, List.cons_append, List.intercalate_cons_cons,
            List.intercalate_cons_cons]
          exact (List.prefix_append_right_inj _).mpr ih

/-- A longer list of parts has no shorter text. -/
theorem utf8Size_intercalate_le (front back : List String) :
    utf8Size ("/".intercalate front) ≤ utf8Size ("/".intercalate (front ++ back)) := by
  obtain ⟨rest, hRest⟩ := intercalate_prefix_append ['/'] (front.map String.toList)
    (back.map String.toList)
  have hText (parts : List String) :
      ("/".intercalate parts).toList = List.intercalate ['/'] (parts.map String.toList) :=
    String.toList_intercalate ..
  rw [utf8Size, utf8Size, hText, hText, List.map_append, ← hRest, encodeUtf8, encodeUtf8,
    List.flatMap_append, List.length_append]
  exact Nat.le_add_right _ _

/-- The room that names take in a path, each with a slash. -/
def weight (names : List String) : Nat :=
  names.foldr (fun name rest => utf8Size name + 1 + rest) 0

theorem weight_cons (name : String) (names : List String) :
    weight (name :: names) = utf8Size name + 1 + weight names :=
  rfl

theorem weight_append (front back : List String) :
    weight (front ++ back) = weight front + weight back := by
  induction front with
  | nil => exact (Nat.zero_add _).symm
  | cons name front ih =>
      rw [List.cons_append, weight_cons, weight_cons, ih]
      omega

/-- The size of joined parts: one more byte for each part, but for the last. -/
theorem utf8Size_intercalate_succ {parts : List String} (h : parts ≠ []) :
    utf8Size ("/".intercalate parts) + 1 = weight parts := by
  induction parts with
  | nil => exact absurd rfl h
  | cons part rest ih =>
      cases rest with
      | nil =>
          have hJoined : "/".intercalate [part] = part := by
            apply String.toList_inj.mp
            simp
          rw [hJoined]
          rfl
      | cons next rest =>
          have hJoined : "/".intercalate (part :: next :: rest) =
              part ++ ("/" ++ "/".intercalate (next :: rest)) := by
            apply String.toList_inj.mp
            simp only [String.toList_append, String.toList_intercalate, List.map_cons,
              List.intercalate_cons_cons, List.append_assoc]
          have hSlash : utf8Size "/" = 1 := by decide
          rw [weight_cons, ← ih (by simp), hJoined, utf8Size_append, utf8Size_append, hSlash]
          omega

/-- The names in a text take as much room as the text. -/
theorem weight_namesOf (text : String) : weight (namesOf text) = utf8Size text + 1 := by
  have hSome : namesOf text ≠ [] := by
    simp [namesOf, List.splitOn_ne_nil]
  have hText : "/".intercalate (namesOf text) = text := by
    apply String.toList_inj.mp
    rw [String.toList_intercalate, namesOf, List.map_map]
    simp [Function.comp_def]
  rw [← utf8Size_intercalate_succ hSome, hText]

/-- The size of a path is that of its start and its joined parts; the empty path has a dot. -/
theorem utf8Size_toString (path : Path) :
    utf8Size path.toString =
      max 1 (utf8Size path.start.text + utf8Size ("/".intercalate path.parts)) := by
  rw [← utf8Size_append, Path.toString]
  split
  · next hEmpty =>
      rw [hEmpty]
      decide
  · next hSome => exact (Nat.max_eq_right (utf8Size_pos hSome)).symm

/-- The text of a longer path is not shorter. -/
theorem utf8Size_below_le (path : Path) (front back : List String) :
    utf8Size (path.below front).toString ≤ utf8Size (path.below (front ++ back)).toString := by
  have hJoined := utf8Size_intercalate_le (path.parts ++ front) back
  rw [List.append_assoc] at hJoined
  rw [utf8Size_toString, utf8Size_toString]
  simp only [Path.below]
  omega

theorem toString_of_absolute (h : path.isAbsolute = true) :
    path.toString = path.start.text ++ "/".intercalate path.parts := by
  have hText : path.start.text ++ "/".intercalate path.parts ≠ "" := by
    intro hEmpty
    have hStart := (String.append_eq_empty_iff.mp hEmpty).1
    cases hKind : path.start with
    | relative => simp [Path.isAbsolute, hKind] at h
    | slash => exact absurd (hKind ▸ hStart) (by decide)
    | doubleSlash => exact absurd (hKind ▸ hStart) (by decide)
  simp only [Path.toString, hText, if_false]

theorem head?_toString (h : path.isAbsolute = true) : path.toString.toList.head? = some '/' := by
  rw [toString_of_absolute h, String.toList_append]
  cases hKind : path.start with
  | relative => simp [Path.isAbsolute, hKind] at h
  | slash => rfl
  | doubleSlash => rfl

theorem namesOf_slash (text : String) : namesOf ("/" ++ text) = "" :: namesOf text := by
  have hText : ("/" ++ text).toList = '/' :: text.toList := String.toList_append ..
  rw [namesOf, hText, splitOn_cons_self]
  rfl

/-- The names of joined parts are the parts. -/
theorem namesOf_intercalate {parts : List String} (h : ∀ part ∈ parts, Path.IsPart part) :
    namesOf ("/".intercalate parts) = if parts = [] then [""] else parts := by
  split
  · next hNone =>
      subst hNone
      decide
  · next hSome =>
      have hSlash : ∀ piece ∈ parts.map String.toList, '/' ∉ piece := by
        intro piece hPiece
        obtain ⟨part, hPart, rfl⟩ := List.mem_map.mp hPiece
        exact (h part hPart).2.2
      rw [namesOf, String.toList_intercalate]
      change ((List.splitOn '/' (List.intercalate ['/'] (parts.map String.toList))).map _) = _
      rw [List.splitOn_intercalate '/' hSlash (by simpa using hSome)]
      simp

/-- The text of a path, as the file tree takes it apart: at first names that lead nowhere else, and
then the parts. -/
theorem exists_namesOf_toString (hPath : path.Proper) :
    ∃ lead, (∀ name ∈ lead, name = "" ∨ name = ".") ∧
      namesOf path.toString = lead ++ path.parts := by
  obtain ⟨start, parts⟩ := path
  have hNames := namesOf_intercalate hPath
  by_cases hNone : parts = []
  · subst hNone
    cases start with
    | relative => exact ⟨["."], by simp, by decide⟩
    | slash => exact ⟨["", ""], by simp, by decide⟩
    | doubleSlash => exact ⟨["", "", ""], by simp, by decide⟩
  · rw [if_neg hNone] at hNames
    cases start with
    | relative =>
        have hSome : "/".intercalate parts ≠ "" := by
          intro hEmpty
          rw [hEmpty] at hNames
          exact (hPath "" (hNames ▸ by decide)).1 rfl
        refine ⟨[], by simp, ?_⟩
        simpa [Path.toString, PathStart.text, hSome] using hNames
    | slash =>
        refine ⟨[""], by simp, ?_⟩
        rw [toString_of_absolute rfl]
        exact (namesOf_slash _).trans (congrArg ("" :: ·) hNames)
    | doubleSlash =>
        have hText : PathStart.doubleSlash.text = "/" ++ "/" := by decide
        refine ⟨["", ""], by simp, ?_⟩
        rw [toString_of_absolute rfl, hText, String.append_assoc, namesOf_slash, namesOf_slash,
          hNames]
        rfl

end Texts

/-- The place where a path starts. -/
def startPlace (env : Environment) (path : Path) : Place :=
  if path.isAbsolute then [] else env.working

section Find

variable {env : Environment} {path : Path} {ending : Ending} {place : Place}

/-- A path written as text starts at the same place as the path. -/
theorem startPlace_eq (hPath : path.Proper) :
    (if path.toString.toList.head? = some '/' then [] else env.working) = env.startPlace path := by
  rw [startPlace]
  by_cases hAbsolute : path.isAbsolute = true
  · rw [if_pos (head?_toString hAbsolute), if_pos hAbsolute]
  · have hStart : path.start = .relative := by simpa [Path.isAbsolute] using hAbsolute
    have hHead := Path.head?_intercalate_ne_slash hPath
    have hText : path.toString.toList.head? ≠ some '/' := by
      rw [Path.toString, hStart]
      simp only [PathStart.text, String.empty_append]
      split
      · decide
      · exact hHead
    rw [if_neg hText, if_neg hAbsolute]

theorem at?_startPlace (env : Environment) (path : Path) :
    env.tree.at? (env.startPlace path) = some .directory := by
  rw [startPlace]
  split
  · rfl
  · exact env.stands

/-- What a proper path leads to is found by following its parts, unless its text holds a null
character or is too long. -/
theorem find_eq_follow (hOpen : env.tree.Accessible) (hPath : path.Proper) :
    env.find ending path =
      if path.parts.any hasNull then .error .nullCharacter
      else if pathLimit < utf8Size path.toString then
        .error (.file .nameTooLong path.toString)
      else match env.tree.follow ending linkLimit (env.startPlace path) path.parts with
        | .ok found => .ok found
        | .error error => .error (.file error path.toString) := by
  obtain ⟨lead, hLead, hNames⟩ := exists_namesOf_toString hPath
  have hFollow (start : Place) : env.tree.follow ending linkLimit start (namesOf path.toString) =
      env.tree.follow ending linkLimit start path.parts := by
    rw [hNames]
    exact hOpen.followNames_stays hLead path.parts
  rw [find, findText, hasNull_toString]
  split
  · rfl
  · simp only [FileTree.find, startPlace_eq hPath, hFollow, gt_iff_lt]
    by_cases hLong : pathLimit < utf8Size path.toString
    · simp only [hLong, if_true]
    · cases env.tree.follow ending linkLimit (env.startPlace path) path.parts with
      | ok found => simp only [hLong, if_false]
      | error error => simp only [hLong, if_false]

/-- A path leads to a directory, if only its text is not too long. -/
structure Enters (env : Environment) (path : Path) (place : Place) : Prop where
  accessible : env.tree.Accessible
  proper : path.Proper
  nullFree : path.parts.any hasNull = false
  follows : env.tree.follow .target linkLimit (env.startPlace path) path.parts =
    .ok (.node place .directory)

/-- A path that leads to a directory enters it and is short enough for the system. -/
theorem enters_of_find (hOpen : env.tree.Accessible) (hPath : path.Proper)
    (h : env.find .target path = .ok (.node place .directory)) :
    env.Enters path place ∧ utf8Size path.toString ≤ pathLimit := by
  rw [find_eq_follow hOpen hPath] at h
  split at h
  · cases h
  · next hNull =>
      split at h
      · cases h
      · next hLong =>
          split at h
          · next found hFollow =>
              cases h
              exact ⟨⟨hOpen, hPath, by simpa using hNull, hFollow⟩, Nat.le_of_not_lt hLong⟩
          · cases h

/-- The parts of a path that enters a directory are plain names. -/
theorem Enters.plain (h : env.Enters path place) : Plain path.parts := by
  intro part hPart
  exact ⟨(h.proper part hPart).2.2, by simpa using List.any_eq_false.mp h.nullFree part hPart⟩

/-- Where a path enters there is a directory. -/
theorem Enters.at? (h : env.Enters path place) : env.tree.at? place = some .directory :=
  follow_sound (env.at?_startPlace path) h.plain h.follows

/-- Looking below a directory: the names are followed from its place, whatever path led there. -/
theorem Enters.find_below {names : List String} (h : env.Enters path place)
    (hEnding : ending ≠ .creation) (hNames : names ≠ [])
    (hParts : ∀ name ∈ names, Path.IsPart name) :
    ∃ links, env.find ending (path.below names) =
      if names.any hasNull then .error .nullCharacter
      else if pathLimit < utf8Size (path.below names).toString then
        .error (.file .nameTooLong (path.below names).toString)
      else match env.tree.follow ending links place names with
        | .ok found => .ok found
        | .error error => .error (.file error (path.below names).toString) := by
  obtain ⟨links, hLinks⟩ := follow_append hEnding hNames h.follows
  have hFollow : env.tree.follow ending linkLimit (env.startPlace (path.below names))
      (path.below names).parts = env.tree.follow ending links place names := hLinks
  refine ⟨links, ?_⟩
  rw [find_eq_follow h.accessible (h.proper.below hParts), hFollow]
  simp only [Path.below, List.any_append, h.nullFree, Bool.false_or]

/-- What stands below a directory is found there, a link only if it is asked for. -/
theorem Enters.find_node {names : List String} {node : Node} (h : env.Enters path place)
    (hEnding : (ending = .name ∧ names ≠ []) ∨ ending = .target ∧ ∀ target, node ≠ .link target)
    (hNode : env.tree.at? (place ++ names) = some node) :
    env.find ending (path.below names) =
      if pathLimit < utf8Size (path.below names).toString then
        .error (.file .nameTooLong (path.below names).toString)
      else .ok (.node (place ++ names) node) := by
  by_cases hNames : names = []
  · subst hNames
    obtain ⟨rfl, -⟩ : ending = .target ∧ ∀ target, node ≠ .link target := by simpa using hEnding
    rw [List.append_nil, h.at?] at hNode
    cases hNode
    rw [Path.below_nil, List.append_nil, find_eq_follow h.accessible h.proper, h.nullFree,
      h.follows]
    rfl
  · have hMade : ending ≠ .creation := by
      rintro rfl
      simp at hEnding
    have hName : ∀ name ∈ names, IsName name :=
      fun name hMem => isName_of_at? hNode name (List.mem_append_right _ hMem)
    have hNull : names.any hasNull = false := by
      simpa using fun name hMem => (hName name hMem).nullFree
    obtain ⟨links, hFind⟩ := h.find_below hMade hNames fun name hMem => (hName name hMem).part
    rw [hFind, hNull, h.accessible.follow_below (hEnding.imp_left And.left) hNode hNames]
    rfl

/-- A directory below another one can be listed, unless its path is too long. -/
theorem Enters.listed_below {names : List String} (h : env.Enters path place)
    (hNode : env.tree.at? (place ++ names) = some .directory) :
    env.listed (path.below names) =
      if pathLimit < utf8Size (path.below names).toString then
        .error (.file .nameTooLong (path.below names).toString)
      else .ok (place ++ names) := by
  rw [listed, h.find_node (.inr ⟨rfl, by simp⟩) hNode]
  by_cases hLong : pathLimit < utf8Size (path.below names).toString
  · simp only [hLong, if_true]
  · simp only [hLong, if_false, unlessRefused, h.accessible .content]

/-- Whether a file is found below a directory, where no link stands. -/
theorem Enters.isFile_below {names : List String} {node : Node} (h : env.Enters path place)
    (hNode : env.tree.at? (place ++ names) = some node) (hLink : ∀ target, node ≠ .link target) :
    (pathLimit < utf8Size (path.below names).toString ∧
      env.isFile (path.below names) =
        .error (.file .nameTooLong (path.below names).toString)) ∨
    utf8Size (path.below names).toString ≤ pathLimit ∧
      ∃ answer, env.isFile (path.below names) = .ok answer ∧
        (answer = true ↔ env.tree.HoldsFile (place ++ names)) := by
  have hFind := h.find_node (.inr ⟨rfl, hLink⟩) hNode
  rw [isFile, holds, hFind]
  by_cases hLong : pathLimit < utf8Size (path.below names).toString
  · exact .inl ⟨hLong, by simp [hLong, meansAbsent]⟩
  · refine .inr ⟨Nat.le_of_not_lt hLong, ?_⟩
    rw [if_neg hLong]
    cases node with
    | file bytes => exact ⟨true, rfl, iff_of_true rfl ⟨bytes, hNode⟩⟩
    | directory => exact ⟨false, rfl, by simp [HoldsFile, hNode]⟩
    | link target => exact absurd rfl (hLink target)

end Find

end Environment

end SignatureIndex
