import SignatureIndex.Environment.Change
import SignatureIndex.Proofs.Text

/-! What following names through a file tree can come to, as a relation, and what follows from it. A
path leads to something that is there, or to a name that is free in a directory. A file that was
written is found again under its path, through the same links, and holds what was written. Making
directories changes nothing that is there. -/
namespace SignatureIndex

open Text

namespace FileTree

section Nodes

variable {tree : FileTree} {place : Place} {name : String} {names : List String} {node : Node}

theorem mem_nodes_of_at? (h : tree.at? place = some node) (hPlace : place ≠ []) :
    (place, node) ∈ tree.nodes := by
  rw [at?, nodeAt?, if_neg hPlace] at h
  obtain ⟨before, after, hSplit, -⟩ := List.lookup_eq_some_iff.mp h
  simp [hSplit]

theorem exists_at?_of_mem {entry : Place × Node} (h : entry ∈ tree.nodes) :
    ∃ node, tree.at? entry.1 = some node := by
  rw [at?, nodeAt?]
  split
  · exact ⟨_, rfl⟩
  · rw [← Option.isSome_iff_exists, List.lookup_isSome_iff]
    exact ⟨entry, h, by simp⟩

/-- The names of a place are such as can be looked for. -/
theorem isName_of_at? (h : tree.at? place = some node) : ∀ name ∈ place, IsName name := by
  by_cases hRoot : place = []
  · simp [hRoot]
  · exact (tree.legal _ (mem_nodes_of_at? h hRoot)).named

/-- Above every node there is a directory. -/
theorem at?_dropLast (h : tree.at? place = some node) :
    tree.at? place.dropLast = some .directory := by
  by_cases hRoot : place = []
  · rw [hRoot]
    rfl
  · exact (tree.legal _ (mem_nodes_of_at? h hRoot)).housed

/-- What stands above something is a directory. -/
theorem at?_above (h : tree.at? (place ++ names) = some node) (hNames : names ≠ []) :
    tree.at? place = some .directory := by
  induction names using List.reverseRecOn generalizing node with
  | nil => exact absurd rfl hNames
  | append_singleton front last ih =>
      have hAbove := at?_dropLast h
      rw [← List.append_assoc, List.dropLast_concat] at hAbove
      cases front with
      | nil => simpa using hAbove
      | cons first front => exact ih hAbove (by simp)

/-- Above every node there are nodes all the way up. -/
theorem isSome_above (h : (tree.at? (place ++ names)).isSome) : (tree.at? place).isSome := by
  by_cases hNames : names = []
  · simpa [hNames] using h
  · obtain ⟨node, hNode⟩ := Option.isSome_iff_exists.mp h
    simp [at?_above hNode hNames]

theorem nullFree_of_link {target : String} (h : tree.at? place = some (.link target)) :
    hasNull target = false := by
  have hPlace : place ≠ [] := by
    rintro rfl
    cases h
  simpa [Node.isSound] using (tree.legal _ (mem_nodes_of_at? h hPlace)).sound

/-- The names in a directory are the last names of the nodes directly below it. -/
theorem mem_namesAt_iff :
    name ∈ tree.namesAt place ↔ ∃ node, tree.at? (place ++ [name]) = some node := by
  rw [namesAt, List.mem_filterMap]
  constructor
  · rintro ⟨entry, hEntry, hName⟩
    rw [nameIn?] at hName
    split at hName
    · next hPlace =>
        have hWhole := List.dropLast_append_getLast? name hName
        rw [← hPlace, hWhole]
        exact exists_at?_of_mem hEntry
    · cases hName
  · rintro ⟨node, hNode⟩
    exact ⟨_, mem_nodes_of_at? hNode (by simp), by simp [nameIn?]⟩

/-- Nothing stands below anything but a directory. -/
theorem namesAt_eq_nil (h : tree.at? place = some node) (hOther : node ≠ .directory) :
    tree.namesAt place = [] := by
  refine List.eq_nil_iff_forall_not_mem.mpr fun name hName => hOther ?_
  obtain ⟨below, hBelow⟩ := mem_namesAt_iff.mp hName
  exact Option.some.inj (h.symm.trans (at?_above hBelow (by simp)))

/-- Putting an admitted node changes the tree at its place only. -/
theorem at?_put (h : tree.Admits place node) (other : Place) :
    (tree.put place node).at? other = if other = place then some node else tree.at? other := by
  rw [put, dif_pos h]
  exact nodeAt?_withNode h.inside node tree.nodes other

theorem refusal_put (tree : FileTree) (place : Place) (node : Node) :
    (tree.put place node).refusal = tree.refusal := by
  rw [put]
  split
  · rfl
  · rfl

end Nodes

/-- Nothing in a tree is refused. -/
def Accessible (tree : FileTree) : Prop :=
  ∀ access place, tree.refusal access place = none

/-- The tree that some entries make, each put where those before it let it stand. -/
def ofEntries (entries : List (Place × Node)) : FileTree :=
  entries.foldl (fun tree entry => tree.put entry.1 entry.2) empty

theorem accessible_ofEntries (entries : List (Place × Node)) : (ofEntries entries).Accessible := by
  have hPuts (tree : FileTree) (h : tree.Accessible) :
      (entries.foldl (fun tree entry => tree.put entry.1 entry.2) tree).Accessible := by
    induction entries generalizing tree with
    | nil => exact h
    | cons entry rest ih =>
        refine ih _ fun access place => ?_
        rw [refusal_put]
        exact h access place
  exact hPuts empty fun _ _ => rfl

/-- A name is looked for in a directory, with other names to come. -/
structure Sought (tree : FileTree) (ending : Ending) (directory : Place) (name : String)
    (rest : List String) : Prop where
  searched : tree.refusal .search directory = none
  nonempty : name ≠ ""
  notDot : name ≠ "."
  notUp : name ≠ ".."
  unslashed : ¬(ending = .creation ∧ rest ≠ [] ∧ rest.all (· = ""))
  short : utf8Size name ≤ nameLimit

/-- What names lead to from a directory, where `enter` goes on from a link. -/
inductive Follows (tree : FileTree) (ending : Ending)
    (enter : Place → List String → Except FileError Found) :
    Place → List String → Found → Prop where
  | done (directory : Place) : Follows tree ending enter directory [] (.node directory .directory)
  | blank {directory : Place} {names : List String} {found : Found}
      (rest : Follows tree ending enter directory names found) :
      Follows tree ending enter directory ("" :: names) found
  | dot {directory : Place} {names : List String} {found : Found}
      (hSearched : tree.refusal .search directory = none)
      (rest : Follows tree ending enter directory names found) :
      Follows tree ending enter directory ("." :: names) found
  | up {directory : Place} {names : List String} {found : Found}
      (hSearched : tree.refusal .search directory = none)
      (rest : Follows tree ending enter directory.dropLast names found) :
      Follows tree ending enter directory (".." :: names) found
  | down {directory : Place} {name : String} {names : List String} {found : Found}
      (hName : tree.Sought ending directory name names)
      (hNode : tree.at? (directory ++ [name]) = some .directory)
      (rest : Follows tree ending enter (directory ++ [name]) names found) :
      Follows tree ending enter directory (name :: names) found
  | free {directory : Place} {name : String} (hName : tree.Sought ending directory name [])
      (hNode : tree.at? (directory ++ [name]) = none) :
      Follows tree ending enter directory [name] (.free directory name)
  | file {directory : Place} {name : String} {bytes : List UInt8}
      (hName : tree.Sought ending directory name [])
      (hNode : tree.at? (directory ++ [name]) = some (.file bytes)) :
      Follows tree ending enter directory [name] (.node (directory ++ [name]) (.file bytes))
  | last {directory : Place} {name target : String} (hName : tree.Sought ending directory name [])
      (hEnding : ending = .name) (hNode : tree.at? (directory ++ [name]) = some (.link target)) :
      Follows tree ending enter directory [name] (.node (directory ++ [name]) (.link target))
  | link {directory : Place} {name target : String} {names : List String} {found : Found}
      (hName : tree.Sought ending directory name names) (hMore : ¬(names = [] ∧ ending = .name))
      (hNode : tree.at? (directory ++ [name]) = some (.link target))
      (within : enter (linkStart directory target) (namesOf target ++ names) = .ok found) :
      Follows tree ending enter directory (name :: names) found

section Follows

variable {tree : FileTree} {ending : Ending}
  {enter : Place → List String → Except FileError Found} {directory : Place} {name : String}
  {names : List String} {found : Found}

/-- Behind a name that stands for nothing the walk ends, free if it was the last one. -/
theorem Sought.followNames_none (h : tree.Sought ending directory name names)
    (hNode : tree.at? (directory ++ [name]) = none) :
    tree.followNames ending enter directory (name :: names) =
      if names = [] then .ok (.free directory name) else .error .notFound := by
  rw [followNames, if_neg h.nonempty]
  simp only [h.searched, hNode]
  rw [if_neg h.notDot, if_neg h.notUp, if_neg h.unslashed, if_neg (Nat.not_lt.mpr h.short)]

/-- A walk goes into a directory. -/
theorem Sought.followNames_directory (h : tree.Sought ending directory name names)
    (hNode : tree.at? (directory ++ [name]) = some .directory) :
    tree.followNames ending enter directory (name :: names) =
      tree.followNames ending enter (directory ++ [name]) names := by
  rw [followNames, if_neg h.nonempty]
  simp only [h.searched, hNode]
  rw [if_neg h.notDot, if_neg h.notUp, if_neg h.unslashed, if_neg (Nat.not_lt.mpr h.short)]

/-- A walk ends at a file, which has to be the last name. -/
theorem Sought.followNames_file {bytes : List UInt8} (h : tree.Sought ending directory name names)
    (hNode : tree.at? (directory ++ [name]) = some (.file bytes)) :
    tree.followNames ending enter directory (name :: names) =
      if names = [] then .ok (.node (directory ++ [name]) (.file bytes))
      else .error .notDirectory := by
  rw [followNames, if_neg h.nonempty]
  simp only [h.searched, hNode]
  rw [if_neg h.notDot, if_neg h.notUp, if_neg h.unslashed, if_neg (Nat.not_lt.mpr h.short)]

/-- A walk enters a link, unless it is the last name and asked for itself. -/
theorem Sought.followNames_link {target : String} (h : tree.Sought ending directory name names)
    (hNode : tree.at? (directory ++ [name]) = some (.link target)) :
    tree.followNames ending enter directory (name :: names) =
      if names = [] ∧ ending = .name then .ok (.node (directory ++ [name]) (.link target))
      else enter (linkStart directory target) (namesOf target ++ names) := by
  rw [followNames, if_neg h.nonempty]
  simp only [h.searched, hNode]
  rw [if_neg h.notDot, if_neg h.notUp, if_neg h.unslashed, if_neg (Nat.not_lt.mpr h.short)]

theorem followNames_dot (h : tree.refusal .search directory = none) (names : List String) :
    tree.followNames ending enter directory ("." :: names) =
      tree.followNames ending enter directory names := by
  rw [followNames, if_neg (by decide)]
  simp only [h, if_true]

theorem followNames_up (h : tree.refusal .search directory = none) (names : List String) :
    tree.followNames ending enter directory (".." :: names) =
      tree.followNames ending enter directory.dropLast names := by
  rw [followNames, if_neg (by decide)]
  simp only [h, if_true]
  rw [if_neg (by decide)]

theorem Follows.followNames (h : Follows tree ending enter directory names found) :
    tree.followNames ending enter directory names = .ok found := by
  induction h with
  | done directory => rfl
  | blank _ ih => exact ih
  | dot hSearched _ ih => rw [followNames_dot hSearched, ih]
  | up hSearched _ ih => rw [followNames_up hSearched, ih]
  | down hName hNode _ ih => rw [hName.followNames_directory hNode, ih]
  | free hName hNode => rw [hName.followNames_none hNode, if_pos rfl]
  | file hName hNode => rw [hName.followNames_file hNode, if_pos rfl]
  | last hName hEnding hNode => rw [hName.followNames_link hNode, if_pos ⟨rfl, hEnding⟩]
  | link hName hMore hNode within => rw [hName.followNames_link hNode, if_neg hMore, within]

/-- A walk goes on only from directories that can be searched. -/
theorem searched_of_followNames (hEmpty : name ≠ "")
    (h : tree.followNames ending enter directory (name :: names) = .ok found) :
    tree.refusal .search directory = none := by
  rw [FileTree.followNames, if_neg hEmpty] at h
  cases hSearched : tree.refusal .search directory with
  | none => rfl
  | some refusal =>
      rw [hSearched] at h
      cases h

/-- A name other than the dots is looked for. -/
theorem sought_of_followNames (hEmpty : name ≠ "") (hDot : name ≠ ".") (hUp : name ≠ "..")
    (h : tree.followNames ending enter directory (name :: names) = .ok found) :
    tree.Sought ending directory name names := by
  have hSearched := searched_of_followNames hEmpty h
  rw [FileTree.followNames, if_neg hEmpty] at h
  simp only [hSearched] at h
  rw [if_neg hDot, if_neg hUp] at h
  split at h
  · cases h
  · next hSlash =>
      split at h
      · cases h
      · next hShort => exact ⟨hSearched, hEmpty, hDot, hUp, hSlash, Nat.le_of_not_lt hShort⟩

/-- Every walk that comes to an end is one of the relation. -/
theorem follows_of_followNames (h : tree.followNames ending enter directory names = .ok found) :
    Follows tree ending enter directory names found := by
  induction names generalizing directory with
  | nil =>
      cases h
      exact .done directory
  | cons name rest ih =>
      by_cases hEmpty : name = ""
      · subst hEmpty
        exact .blank (ih h)
      have hSearched := searched_of_followNames hEmpty h
      by_cases hDot : name = "."
      · subst hDot
        rw [followNames_dot hSearched] at h
        exact .dot hSearched (ih h)
      by_cases hUp : name = ".."
      · subst hUp
        rw [followNames_up hSearched] at h
        exact .up hSearched (ih h)
      have hName := sought_of_followNames hEmpty hDot hUp h
      cases hNode : tree.at? (directory ++ [name]) with
      | none =>
          rw [hName.followNames_none hNode] at h
          split at h
          · next hRest =>
              cases h
              subst hRest
              exact .free hName hNode
          · cases h
      | some node =>
          cases node with
          | directory =>
              rw [hName.followNames_directory hNode] at h
              exact .down hName hNode (ih h)
          | file bytes =>
              rw [hName.followNames_file hNode] at h
              split at h
              · next hRest =>
                  cases h
                  subst hRest
                  exact .file hName hNode
              · cases h
          | link target =>
              rw [hName.followNames_link hNode] at h
              split at h
              · next hLast =>
                  cases h
                  obtain ⟨rfl, hEnding⟩ := hLast
                  exact .last hName hEnding hNode
              · next hMore => exact .link hName hMore hNode h

/-- The relation is the graph of the walk over names. -/
theorem followNames_eq_ok_iff :
    tree.followNames ending enter directory names = .ok found ↔
      Follows tree ending enter directory names found :=
  ⟨follows_of_followNames, Follows.followNames⟩

end Follows

/-- No name holds a slash or a null character. -/
def Plain (names : List String) : Prop :=
  ∀ name ∈ names, '/' ∉ name.toList ∧ hasNull name = false

/-- What was found is there, or a name that can be used is free in a directory. -/
def Found.Sound (tree : FileTree) : Found → Prop
  | .node place stored => tree.at? place = some stored
  | .free directory name =>
    tree.at? directory = some .directory ∧ IsName name ∧ tree.at? (directory ++ [name]) = none

section Sound

variable {tree : FileTree} {ending : Ending}
  {enter : Place → List String → Except FileError Found} {directory place : Place}
  {names : List String} {found : Found}

theorem Plain.append {first second : List String} (hFirst : Plain first) (hSecond : Plain second) :
    Plain (first ++ second) :=
  List.forall_mem_append.mpr ⟨hFirst, hSecond⟩

/-- The names of a text without null characters are plain. -/
theorem plain_namesOf {text : String} (h : hasNull text = false) : Plain (namesOf text) := by
  intro name hName
  obtain ⟨piece, hPiece, rfl⟩ := List.mem_map.mp hName
  rw [hasNull, String.toList_ofList, ← Bool.not_eq_true, List.contains_iff_mem]
  refine ⟨not_mem_of_mem_splitOn hPiece, fun hNull => ?_⟩
  have hMem := (ne_and_mem_of_mem_splitOn hPiece hNull).2
  rw [hasNull, ← Bool.not_eq_true, List.contains_iff_mem] at h
  exact h hMem

/-- A link is followed from a directory of the tree. -/
theorem at?_linkStart (h : tree.at? directory = some .directory) (target : String) :
    tree.at? (linkStart directory target) = some .directory := by
  rw [linkStart]
  split
  · rfl
  · exact h

/-- A walk leads to what the tree has there, if entering links does. -/
theorem Follows.sound (h : Follows tree ending enter directory names found)
    (hEnter : ∀ start names found, tree.at? start = some .directory → Plain names →
      enter start names = .ok found → found.Sound tree)
    (hDirectory : tree.at? directory = some .directory) (hNames : Plain names) :
    found.Sound tree := by
  induction h with
  | done directory => exact hDirectory
  | blank _ ih | dot _ _ ih => exact ih hDirectory (List.forall_mem_cons.mp hNames).2
  | up _ _ ih => exact ih (at?_dropLast hDirectory) (List.forall_mem_cons.mp hNames).2
  | down _ hNode _ ih => exact ih hNode (List.forall_mem_cons.mp hNames).2
  | free hName hNode =>
      obtain ⟨hSlash, hNull⟩ := hNames _ List.mem_cons_self
      exact ⟨hDirectory,
        ⟨⟨hName.nonempty, hName.notDot, hSlash⟩, hName.notUp, hName.short, hNull⟩, hNode⟩
  | file _ hNode => exact hNode
  | last _ _ hNode => exact hNode
  | link _ _ hNode within =>
      exact hEnter _ _ _ (at?_linkStart hDirectory _)
        ((plain_namesOf (nullFree_of_link hNode)).append (List.forall_mem_cons.mp hNames).2) within

/-- Looking up names leads to what the tree has there. -/
theorem follow_sound {links : Nat} (hDirectory : tree.at? directory = some .directory)
    (hNames : Plain names) (h : tree.follow ending links directory names = .ok found) :
    found.Sound tree := by
  induction links generalizing directory names found with
  | zero =>
      refine (follows_of_followNames h).sound (fun _ _ _ _ _ hNone => ?_) hDirectory hNames
      cases hNone
  | succ links ih =>
      exact (follows_of_followNames h).sound (fun _ _ _ => ih) hDirectory hNames

/-- The place that a file to be written takes. -/
def Found.target? : Found → Option Place
  | .node _ .directory => none
  | .node place _ => some place
  | .free directory name => some (directory ++ [name])

/-- What was found can be replaced by a file, unless it is a directory or a link. -/
theorem Found.Sound.admits (h : found.Sound tree) (hTarget : found.target? = some place)
    (bytes : List UInt8) : tree.Admits place (.file bytes) := by
  cases found with
  | node here stored =>
      have hNode : tree.at? here = some stored := h
      cases stored with
      | directory => cases hTarget
      | file _ | link _ =>
          cases hTarget
          have hInside : place ≠ [] := by
            rintro rfl
            cases hNode
          refine ⟨hInside, ⟨isName_of_at? hNode, at?_dropLast hNode, rfl⟩, fun hOther => ?_⟩
          rw [hNode] at hOther
          cases hOther
  | free directory name =>
      obtain ⟨hDirectory, hName, hNone⟩ := h
      cases hTarget
      refine ⟨by simp, ⟨?_, ?_, rfl⟩, fun hOther => ?_⟩
      · exact List.forall_mem_append.mpr
          ⟨isName_of_at? hDirectory, List.forall_mem_singleton.mpr hName⟩
      · rw [List.dropLast_concat]
        exact hDirectory
      · rw [hNone] at hOther
        cases hOther

end Sound

section Written

variable {tree : FileTree} {place : Place} {bytes : List UInt8}
  {enter enter' : Place → List String → Except FileError Found} {directory : Place}
  {names : List String} {found : Found}

/-- No link stands at a place. -/
def Unlinked (tree : FileTree) (place : Place) : Prop :=
  ∀ target, tree.at? place ≠ some (.link target)

/-- What a file to be made is put over is no link: links are followed. -/
theorem Follows.unlinked (h : Follows tree .creation enter directory names found)
    (hEnter : ∀ start names found, enter start names = .ok found →
      found.target? = some place → tree.Unlinked place)
    (hTarget : found.target? = some place) : tree.Unlinked place := by
  induction h with
  | done => cases hTarget
  | blank _ ih | dot _ _ ih | up _ _ ih | down _ _ _ ih => exact ih hTarget
  | free _ hNode | file _ hNode =>
      cases hTarget
      intro target hLink
      rw [hNode] at hLink
      cases hLink
  | last _ hEnding => cases hEnding
  | link _ _ _ within => exact hEnter _ _ _ within hTarget

/-- A place to be written is no link: the links before it were followed. -/
theorem follow_unlinked {links : Nat}
    (h : tree.follow .creation links directory names = .ok found)
    (hTarget : found.target? = some place) : tree.Unlinked place := by
  induction links generalizing directory names found with
  | zero =>
      refine (follows_of_followNames h).unlinked (fun _ _ _ hNone => ?_) hTarget
      cases hNone
  | succ links ih => exact (follows_of_followNames h).unlinked (fun _ _ _ => ih) hTarget

/-- No directory or link on the way to a file that is written is that file itself. So the way stays
the same. -/
theorem Follows.put (h : Follows tree .creation enter directory names found)
    (hAdmits : tree.Admits place (.file bytes)) (hLink : tree.Unlinked place)
    (hEnter : ∀ start names found, enter start names = .ok found → found.target? = some place →
      enter' start names = .ok (.node place (.file bytes)))
    (hTarget : found.target? = some place) :
    Follows (tree.put place (.file bytes)) .target enter' directory names
      (.node place (.file bytes)) := by
  have hRefusal := tree.refusal_put place (.file bytes)
  have hSought {directory : Place} {name : String} {names : List String}
      (hName : tree.Sought .creation directory name names) :
      (tree.put place (.file bytes)).Sought .target directory name names :=
    ⟨hRefusal ▸ hName.searched, hName.nonempty, hName.notDot, hName.notUp, by simp, hName.short⟩
  have hSelf : (tree.put place (.file bytes)).at? place = some (.file bytes) := by
    rw [at?_put hAdmits, if_pos rfl]
  induction h with
  | done => cases hTarget
  | blank _ ih => exact .blank (ih hTarget)
  | dot hSearched _ ih => exact .dot (hRefusal ▸ hSearched) (ih hTarget)
  | up hSearched _ ih => exact .up (hRefusal ▸ hSearched) (ih hTarget)
  | down hName hNode _ ih =>
      exact .down (hSought hName) (at?_put_of_directory (.file bytes) hNode) (ih hTarget)
  | free hName | file hName =>
      cases hTarget
      exact .file (hSought hName) hSelf
  | last _ hEnding => cases hEnding
  | @link directory name target names found hName _ hNode within =>
      have hOther : directory ++ [name] ≠ place := by
        rintro rfl
        exact hLink target hNode
      refine .link (hSought hName) (by simp) ?_ (hEnter _ _ _ within hTarget)
      rw [at?_put hAdmits, if_neg hOther, hNode]

/-- Behind a write the same names lead to the file that was written. -/
theorem follow_put {links : Nat} (h : tree.follow .creation links directory names = .ok found)
    (hAdmits : tree.Admits place (.file bytes)) (hLink : tree.Unlinked place)
    (hTarget : found.target? = some place) :
    (tree.put place (.file bytes)).follow .target links directory names =
      .ok (.node place (.file bytes)) := by
  induction links generalizing directory names found with
  | zero =>
      refine ((follows_of_followNames h).put hAdmits hLink (fun _ _ _ hNone => ?_)
        hTarget).followNames
      cases hNone
  | succ links ih =>
      exact ((follows_of_followNames h).put hAdmits hLink (fun _ _ _ => ih) hTarget).followNames

end Written

/-- A tree with more directories: everything else is as it was. -/
def Grows (tree later : FileTree) : Prop :=
  ∀ place, later.at? place = tree.at? place ∨
    tree.at? place = none ∧ later.at? place = some .directory

theorem Grows.refl (tree : FileTree) : tree.Grows tree := fun _ => .inl rfl

theorem Grows.trans {tree middle later : FileTree} (h : tree.Grows middle)
    (hLater : middle.Grows later) : tree.Grows later := by
  intro place
  rcases h place with hSame | ⟨hNone, hMade⟩
  · rw [← hSame]
    exact hLater place
  · rcases hLater place with hSame | ⟨hFree, -⟩
    · exact .inr ⟨hNone, hSame.trans hMade⟩
    · rw [hMade] at hFree
      cases hFree

/-- A directory that is made where nothing was only adds to the tree. -/
theorem grows_put {tree : FileTree} {place : Place} (h : tree.at? place = none) :
    tree.Grows (tree.put place .directory) := by
  intro other
  by_cases hAdmits : tree.Admits place .directory
  · rw [at?_put hAdmits]
    split
    · next hSame => exact .inr ⟨hSame ▸ h, rfl⟩
    · exact .inl rfl
  · rw [put, dif_neg hAdmits]
    exact .inl rfl

end FileTree

namespace Environment

variable {env written : Environment} {path : Path} {bytes : List UInt8}

theorem unlessRefused_eq_ok_iff {α : Type} {place : Place} {result : Except Failure α} {value : α} :
    env.unlessRefused place path result = .ok value ↔
      env.tree.refusal .content place = none ∧ result = .ok value := by
  unfold unlessRefused
  split
  · next hRefusal => simp [hRefusal]
  · next hNone => simp [hNone]

/-- What a path leads to, as the file tree follows the names in its text. -/
theorem find_eq_ok_iff {ending : FileTree.Ending} {found : FileTree.Found} :
    env.find ending path = .ok found ↔
      hasNull path.toString = false ∧ utf8Size path.toString ≤ FileTree.pathLimit ∧
        env.tree.follow ending FileTree.linkLimit
          (if path.toString.toList.head? = some '/' then [] else env.working)
          (FileTree.namesOf path.toString) = .ok found := by
  unfold find findText FileTree.find
  by_cases hNull : hasNull path.toString = true
  · simp [hNull]
  · by_cases hLong : utf8Size path.toString > FileTree.pathLimit
    · simp [hNull, hLong, Nat.not_le.mpr hLong]
    · rw [if_neg hNull, if_neg hLong]
      simp only [Bool.not_eq_true] at hNull
      simp only [hNull, Nat.le_of_not_lt hLong, true_and]
      split
      · next hFound => simp [hFound]
      · next hError => simp [hError]

/-- The place where a text is followed from is a directory. -/
theorem at?_start (env : Environment) (text : String) :
    env.tree.at? (if text.toList.head? = some '/' then [] else env.working) =
      some .directory := by
  split
  · rfl
  · exact env.stands

/-- What a path leads to is there, or is a free name. -/
theorem find_sound {ending : FileTree.Ending} {found : FileTree.Found}
    (h : env.find ending path = .ok found) : found.Sound env.tree := by
  obtain ⟨hNull, -, hFollow⟩ := find_eq_ok_iff.mp h
  exact FileTree.follow_sound (env.at?_start _) (FileTree.plain_namesOf hNull) hFollow

/-- A directory can be listed if a path leads to it and that is not refused. -/
theorem listed_eq_ok_iff {place : Place} :
    env.listed path = .ok place ↔
      env.find .target path = .ok (.node place .directory) ∧
        env.tree.refusal .content place = none := by
  unfold listed
  split
  · next hFind => simp [hFind]
  · next hFind => simp [hFind]
  · next found hFind =>
      simp only [unlessRefused_eq_ok_iff, hFind, Except.ok.injEq, FileTree.Found.node.injEq,
        and_true]
      constructor
      · rintro ⟨hOpen, rfl⟩
        exact ⟨rfl, hOpen⟩
      · rintro ⟨rfl, hOpen⟩
        exact ⟨hOpen, rfl⟩
  · next hOther hFind => simpa [hFind] using fun _ hNode => (hOther hNode).elim

/-- Writing a file succeeds where the path has a place for it and the content is not refused. -/
theorem writeFile_eq_ok_iff :
    env.writeFile path bytes = .ok written ↔
      ∃ found place, env.find .creation path = .ok found ∧ found.target? = some place ∧
        env.tree.refusal .content place = none ∧ written = env.withNode place (.file bytes) := by
  unfold writeFile
  cases hFound : env.find .creation path with
  | error failure => simp
  | ok found =>
      match found with
      | .node place .directory => simp [FileTree.Found.target?]
      | .node place (.file old) =>
          simp [FileTree.Found.target?, make, unlessRefused_eq_ok_iff, @eq_comm _ written]
      | .node place (.link target) =>
          simp [FileTree.Found.target?, make, unlessRefused_eq_ok_iff, @eq_comm _ written]
      | .free directory name =>
          simp [FileTree.Found.target?, make, unlessRefused_eq_ok_iff, @eq_comm _ written]

/-- Whether a file can be written does not depend on what is written. -/
theorem exists_writeFile (h : env.writeFile path bytes = .ok written) (other : List UInt8) :
    ∃ final, env.writeFile path other = .ok final := by
  obtain ⟨found, place, hFound, hTarget, hOpen, -⟩ := writeFile_eq_ok_iff.mp h
  exact ⟨_, writeFile_eq_ok_iff.mpr ⟨found, place, hFound, hTarget, hOpen, rfl⟩⟩

theorem make_error {place : Place} {node other : Node} {failure : Failure}
    (h : env.make path place node = .error failure) :
    env.make path place other = .error failure := by
  unfold make unlessRefused at h ⊢
  split at h
  · exact h
  · cases h

/-- Whether a file can be written does not depend on what is written. -/
theorem writeFile_error {failure : Failure} (h : env.writeFile path bytes = .error failure)
    (other : List UInt8) : env.writeFile path other = .error failure := by
  unfold writeFile at h ⊢
  split at h
  · exact h
  · exact h
  · exact make_error h
  · exact make_error h

/-- What was written is found again and can be read, and nothing else has changed. -/
theorem find_of_writeFile (h : env.writeFile path bytes = .ok written) :
    ∃ place, written.find .target path = .ok (.node place (.file bytes)) ∧
      written.tree.refusal .content place = none ∧
      ∀ other, other ≠ place → written.tree.at? other = env.tree.at? other := by
  obtain ⟨found, place, hFound, hTarget, hOpen, rfl⟩ := writeFile_eq_ok_iff.mp h
  have hAdmits := (find_sound hFound).admits hTarget bytes
  obtain ⟨hNull, hSize, hFollow⟩ := find_eq_ok_iff.mp hFound
  refine ⟨place, find_eq_ok_iff.mpr ⟨hNull, hSize, ?_⟩, ?_, fun other hOther => ?_⟩
  · exact FileTree.follow_put hFollow hAdmits (FileTree.follow_unlinked hFollow hTarget) hTarget
  · exact (congrFun (congrFun (env.tree.refusal_put place (.file bytes)) _) _).trans hOpen
  · exact (FileTree.at?_put hAdmits other).trans (if_neg hOther)

/-- What was written is read back. -/
theorem readBytes_of_writeFile (h : env.writeFile path bytes = .ok written) :
    written.readBytes path = .ok bytes := by
  obtain ⟨place, hFind, hOpen, -⟩ := find_of_writeFile h
  simp only [readBytes, hFind, unlessRefused, hOpen]

theorem makeDirectory_grows {made : Environment} (h : env.makeDirectory path = .ok made) :
    env.tree.Grows made.tree := by
  unfold makeDirectory at h
  split at h
  · cases h
  · cases h
  · next directory name hFree =>
      obtain ⟨-, hMade⟩ := unlessRefused_eq_ok_iff.mp h
      cases hMade
      exact FileTree.grows_put (find_sound hFree).2.2

/-- Making directories only adds to the tree, also where it fails midway. -/
theorem makeDirectories_grows (env : Environment) (path : Path) :
    env.tree.Grows (env.makeDirectories path).2.tree := by
  fun_induction env.makeDirectories path with
  | case1 path made hMade => exact makeDirectory_grows hMade
  | case2 | case8 | case9 => exact .refl _
  | case3 path text hMissing hRoot failure above hAbove ih
  | case5 path text hMissing hRoot above hAbove later hAgain ih
  | case6 path text hMissing hRoot above hAbove error later hError hAgain ih
  | case7 path text hMissing hRoot above hAbove failure hOther hFile hAgain ih =>
      rw [hAbove] at ih
      exact ih
  | case4 path text hMissing hRoot above hAbove made hMade ih =>
      rw [hAbove] at ih
      exact ih.trans (makeDirectory_grows hMade)

end Environment

end SignatureIndex
