import SignatureIndex.Failure
import SignatureIndex.Path
import SignatureIndex.Text.Utf8

/-! A tree of files, directories and symbolic links, and the way a path is followed through it.
Places are lists of names from the root. A path is followed name by name: links are replaced by
their targets, at most forty of them, and double dots lead to the directory that really holds the
current one. Every tree is legal: its names are such as can be looked for, and everything stands in
a directory. -/
namespace SignatureIndex

open Text

inductive Node where
  | file (bytes : List UInt8)
  | link (target : String)
  | directory
  deriving DecidableEq, Repr

/-- A link's target holds no null character. -/
def Node.isSound : Node → Bool
  | link target => !hasNull target
  | _ => true

/-- A place in a tree: the names that lead there from the root. -/
abbrev Place := List String

/-- What is done at a place: names are looked for in a directory, or what is there is listed, read,
written or made. -/
inductive Access where
  | search
  | content
  deriving DecidableEq, Repr

namespace FileTree

/-- The longest name, in bytes. -/
def nameLimit : Nat := 255

/-- The longest path, in bytes. -/
def pathLimit : Nat := 4095

/-- The most links followed for one path. -/
def linkLimit : Nat := 40

/-- A name that can stand in a directory. -/
structure IsName (name : String) : Prop where
  part : Path.IsPart name
  notUp : name ≠ ".."
  short : utf8Size name ≤ nameLimit
  nullFree : hasNull name = false

instance : DecidablePred IsName := fun name =>
  decidable_of_iff
    (Path.IsPart name ∧ name ≠ ".." ∧ utf8Size name ≤ nameLimit ∧ hasNull name = false)
    ⟨fun ⟨part, notUp, short, nullFree⟩ => ⟨part, notUp, short, nullFree⟩,
      fun h => ⟨h.part, h.notUp, h.short, h.nullFree⟩⟩

/-- What stands at a place, where the nodes below the root are given. -/
def nodeAt? (nodes : List (Place × Node)) (place : Place) : Option Node :=
  if place = [] then some .directory else nodes.lookup place

/-- An entry that can stand among others: it is in a directory, and its names can be looked for. -/
structure Legal (nodes : List (Place × Node)) (entry : Place × Node) : Prop where
  named : ∀ name ∈ entry.1, IsName name
  housed : nodeAt? nodes entry.1.dropLast = some .directory
  sound : entry.2.isSound = true

instance (nodes : List (Place × Node)) : DecidablePred (Legal nodes) := fun entry =>
  decidable_of_iff
    ((∀ name ∈ entry.1, IsName name) ∧ nodeAt? nodes entry.1.dropLast = some .directory ∧
      entry.2.isSound = true)
    ⟨fun ⟨named, housed, sound⟩ => ⟨named, housed, sound⟩,
      fun h => ⟨h.named, h.housed, h.sound⟩⟩

end FileTree

/-- A file tree; the root is always there. An access to what is there may be refused. -/
structure FileTree where
  nodes : List (Place × Node)
  refusal : Access → Place → Option Refusal := fun _ _ => none
  legal : ∀ entry ∈ nodes, FileTree.Legal nodes entry

namespace FileTree

def empty : FileTree where
  nodes := []
  legal := fun _ hNone => absurd hNone List.not_mem_nil

def at? (tree : FileTree) (place : Place) : Option Node :=
  nodeAt? tree.nodes place

/-- Whether a node can be put at a place: its name is free or stands for no directory, unless the
node is one too, and a directory holds it. -/
structure Admits (tree : FileTree) (place : Place) (node : Node) : Prop where
  inside : place ≠ []
  legal : Legal tree.nodes (place, node)
  kept : tree.at? place = some .directory → node = .directory

instance (tree : FileTree) (place : Place) (node : Node) : Decidable (tree.Admits place node) :=
  decidable_of_iff
    (place ≠ [] ∧ Legal tree.nodes (place, node) ∧
      (tree.at? place = some .directory → node = .directory))
    ⟨fun ⟨inside, legal, kept⟩ => ⟨inside, legal, kept⟩, fun h => ⟨h.inside, h.legal, h.kept⟩⟩

/-- The nodes with one at a place, over what was there. -/
def withNode (place : Place) (node : Node) : List (Place × Node) → List (Place × Node)
  | [] => [(place, node)]
  | entry :: rest =>
    if entry.1 = place then (place, node) :: rest else entry :: withNode place node rest

/-- Putting a node changes what is read at its own place and nowhere else. -/
theorem nodeAt?_withNode {place : Place} (hPlace : place ≠ []) (node : Node)
    (nodes : List (Place × Node)) (other : Place) :
    nodeAt? (withNode place node nodes) other =
      if other = place then some node else nodeAt? nodes other := by
  have hCons (entry : Place × Node) (rest : List (Place × Node)) :
      (entry :: rest).lookup other =
        if other = entry.1 then some entry.2 else rest.lookup other := by
    obtain ⟨first, stored⟩ := entry
    by_cases h : other = first
    · simp [h]
    · simp [List.lookup_cons, h, beq_eq_false_iff_ne.mpr h]
  have hLookup : (withNode place node nodes).lookup other =
      if other = place then some node else nodes.lookup other := by
    induction nodes with
    | nil => exact hCons (place, node) []
    | cons entry rest ih =>
        rw [withNode]
        by_cases hEntry : entry.1 = place
        · rw [if_pos hEntry, hCons, hCons, hEntry]
          split <;> rfl
        · rw [if_neg hEntry, hCons, hCons, ih]
          by_cases hOther : other = entry.1
          · simp [hOther, hEntry]
          · simp [hOther]
  by_cases hRoot : other = []
  · simp [nodeAt?, hRoot, Ne.symm hPlace]
  · simp [nodeAt?, hRoot, hLookup]

theorem mem_withNode {place : Place} {node : Node} {nodes : List (Place × Node)}
    {entry : Place × Node} (h : entry ∈ withNode place node nodes) :
    entry = (place, node) ∨ entry ∈ nodes := by
  induction nodes with
  | nil => exact .inl (List.mem_singleton.mp h)
  | cons first rest ih =>
      rw [withNode] at h
      split at h
      · exact (List.mem_cons.mp h).imp_right (List.mem_cons_of_mem first)
      · rcases List.mem_cons.mp h with rfl | hRest
        · exact .inr List.mem_cons_self
        · exact (ih hRest).imp_right (List.mem_cons_of_mem first)

/-- Where a node can be put, the directories of before are directories still. -/
theorem Admits.nodeAt?_directory {tree : FileTree} {place other : Place} {node : Node}
    (h : tree.Admits place node) (hOther : nodeAt? tree.nodes other = some .directory) :
    nodeAt? (withNode place node tree.nodes) other = some .directory := by
  rw [nodeAt?_withNode h.inside]
  split
  · next hSame => rw [h.kept (hSame ▸ hOther)]
  · exact hOther

/-- A table stays legal when an admitted node is put into it. -/
theorem Admits.legal_withNode {tree : FileTree} {place : Place} {node : Node}
    (h : tree.Admits place node) :
    ∀ entry ∈ withNode place node tree.nodes, Legal (withNode place node tree.nodes) entry := by
  intro entry hEntry
  have hLegal : Legal tree.nodes entry := by
    rcases mem_withNode hEntry with rfl | hOld
    · exact h.legal
    · exact tree.legal entry hOld
  exact ⟨hLegal.named, h.nodeAt?_directory hLegal.housed, hLegal.sound⟩

/-- Puts a node at a place, over what was there, if it can stand there. -/
def put (tree : FileTree) (place : Place) (node : Node) : FileTree :=
  if h : tree.Admits place node then
    { tree with nodes := withNode place node tree.nodes, legal := h.legal_withNode }
  else tree

/-- No put takes a directory away. -/
theorem at?_put_of_directory {tree : FileTree} {place other : Place} (node : Node)
    (h : tree.at? other = some .directory) : (tree.put place node).at? other = some .directory := by
  rw [put]
  split
  · next hAdmits => exact hAdmits.nodeAt?_directory h
  · exact h

theorem nodeAt?_filter {place other : Place} (h : other ≠ place) (nodes : List (Place × Node)) :
    nodeAt? (nodes.filter fun entry => entry.1 ≠ place) other = nodeAt? nodes other := by
  have hLookup : (nodes.filter fun entry => entry.1 ≠ place).lookup other = nodes.lookup other := by
    induction nodes with
    | nil => rfl
    | cons entry rest ih =>
        obtain ⟨first, stored⟩ := entry
        by_cases hFirst : first = place
        · rw [List.filter_cons_of_neg (by simpa using hFirst), ih, List.lookup_cons,
            beq_eq_false_iff_ne.mpr (hFirst ▸ h)]
        · rw [List.filter_cons_of_pos (by simpa using hFirst), List.lookup_cons, List.lookup_cons,
            ih]
  rw [nodeAt?, nodeAt?, hLookup]

/-- A table stays legal when a node that is no directory is taken out. -/
theorem legal_filter {tree : FileTree} {place : Place} (h : tree.at? place ≠ some .directory) :
    ∀ entry ∈ tree.nodes.filter fun entry => entry.1 ≠ place,
      Legal (tree.nodes.filter fun entry => entry.1 ≠ place) entry := by
  intro entry hEntry
  have hLegal := tree.legal entry (List.mem_filter.mp hEntry).1
  have hOther : entry.1.dropLast ≠ place := by
    intro hSame
    exact h (hSame ▸ hLegal.housed)
  exact ⟨hLegal.named, (nodeAt?_filter hOther _).trans hLegal.housed, hLegal.sound⟩

/-- Takes a node away that is no directory. -/
def erase (tree : FileTree) (place : Place) : FileTree :=
  if h : tree.at? place = some .directory then tree
  else { tree with
    nodes := tree.nodes.filter fun entry => entry.1 ≠ place
    legal := legal_filter h }

/-- No erasure takes a directory away. -/
theorem at?_erase_of_directory {tree : FileTree} {place other : Place}
    (h : tree.at? other = some .directory) : (tree.erase place).at? other = some .directory := by
  rw [erase]
  split
  · exact h
  · next hPlace =>
      have hOther : other ≠ place := by
        intro hSame
        exact hPlace (hSame ▸ h)
      exact (nodeAt?_filter hOther _).trans h

def nameIn? (directory place : Place) : Option String :=
  if place.dropLast = directory then place.getLast? else none

def namesAt (tree : FileTree) (directory : Place) : List String :=
  tree.nodes.filterMap fun entry => nameIn? directory entry.1

inductive Found where
  /-- To something that exists. -/
  | node (place : Place) (node : Node)
  /-- To a name that is free in an existing directory. -/
  | free (directory : Place) (name : String)
  deriving DecidableEq, Repr

/-- The names in a link's target or a path. -/
def namesOf (text : String) : List String :=
  (List.splitOn '/' text.toList).map String.ofList

/-- Where the target of a link in a directory is followed from. -/
def linkStart (directory : Place) (target : String) : Place :=
  if target.toList.head? = some '/' then [] else directory

/-- What an access asks for at the end of a path. -/
inductive Ending where
  /-- The last name itself, even if it is a link. -/
  | name
  /-- What the last name leads to. -/
  | target
  /-- What the last name leads to, which is made if it is absent and must be no directory. -/
  | creation
  deriving DecidableEq, Repr

/-- Follows names from a directory up to a link that is to be followed, where `enter` goes on. After
any other name than a directory's no name may come, and where a file is to be made no slash may
come after the last name. -/
def followNames (tree : FileTree) (ending : Ending)
    (enter : Place → List String → Except FileError Found) (directory : Place) :
    List String → Except FileError Found
  | [] => .ok (.node directory .directory)
  | name :: rest =>
    if name = "" then followNames tree ending enter directory rest
    else match tree.refusal .search directory with
      | some refusal => .error (.refused refusal)
      | none =>
        if name = "." then followNames tree ending enter directory rest
        else if name = ".." then followNames tree ending enter directory.dropLast rest
        else if ending = .creation ∧ rest ≠ [] ∧ rest.all (· = "") then .error .isDirectory
        else if utf8Size name > nameLimit then .error .nameTooLong
        else
          let place := directory ++ [name]
          match tree.at? place with
          | none => if rest = [] then .ok (.free directory name) else .error .notFound
          | some .directory => followNames tree ending enter place rest
          | some (.file bytes) =>
            if rest = [] then .ok (.node place (.file bytes)) else .error .notDirectory
          | some (.link target) =>
            if rest = [] ∧ ending = .name then .ok (.node place (.link target))
            else enter (linkStart directory target) (namesOf target ++ rest)

/-- Follows names from a directory, through at most so many links. -/
def follow (tree : FileTree) (ending : Ending) : Nat → Place → List String → Except FileError Found
  | 0 => tree.followNames ending fun _ _ => .error .tooManyLinks
  | links + 1 => tree.followNames ending (follow tree ending links)

def find (tree : FileTree) (working : Place) (ending : Ending) (path : String) :
    Except FileError Found :=
  if utf8Size path > pathLimit then .error .nameTooLong
  else
    let start := if path.toList.head? = some '/' then [] else working
    follow tree ending linkLimit start (namesOf path)

end FileTree

end SignatureIndex
