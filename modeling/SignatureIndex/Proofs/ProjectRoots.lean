import SignatureIndex.Proofs.Pass
import SignatureIndex.Proofs.RealPlace
import SignatureIndex.Workspace

/-! The project roots in a directory, for any test that tells which paths are ignored. They are the
directories reached through directories alone that hold a root lump which is a file and is not
ignored, in order and each once, and they lie inside the directory. There is a result exactly if
everything below the directory can be looked at and there is room for the directories inside of one
another: a link is not entered and does not count, but what it leads to is looked at before that is
known, and a link whose target cannot be looked at leaves the whole search without a result. -/
namespace SignatureIndex

open Text FileTree

namespace Workspace

open Project

/-- A directory that holds a root lump which counts. -/
def IsRoot (env : Environment) (directory : Path) (place : Place) (counts : Path → Prop)
    (root : Path) : Prop :=
  ∃ names lump, root = directory.below names ∧
    env.tree.at? (place ++ names) = some .directory ∧
    env.tree.HoldsFile (place ++ (names ++ [lump])) ∧ isRootLump lump = true ∧
    counts (directory.below (names ++ [lump]))

/-- A search of a directory comes to its end: there is room for the directories inside of one
another, whether a path leads to a file has an answer for everything below, and whatever else is
asked about a file has one. -/
def Answers (env : Environment) (directory : Path) (place : Place) (asked : Path → Prop) : Prop :=
  (∀ names, env.tree.at? (place ++ names) = some .directory →
    names.length ≤ env.stack.directories) ∧
  ∀ names name, (env.tree.at? (place ++ (names ++ [name]))).isSome →
    (∃ file, env.isFile (directory.below (names ++ [name])) = .ok file) ∧
    (env.tree.HoldsFile (place ++ (names ++ [name])) → asked (directory.below (names ++ [name])))

/-- Whether a root lump is ignored has an answer. -/
def IgnoreTold (ignores : Path → Except Failure Bool) (path : Path) : Prop :=
  isRootLump path.name = true → ∃ ignored, ignores path = .ok ignored

/-- Whether a file lies inside a directory has an answer, and for those inside whether they are
ignored has one. -/
def Told (env : Environment) (directory : Path) (ignores : Path → Except Failure Bool)
    (path : Path) : Prop :=
  ∃ inside, isWithin env path directory = .ok inside ∧ (inside = true → IgnoreTold ignores path)

section Tests

variable {env : Environment} {directory path : Path} {names : List String} {name : String}
  {ignores : Path → Except Failure Bool}

/-- A path that cannot be looked up ends the search for root lumps. -/
theorem includesLump_of_error {failure : Failure} (h : env.isFile path = .error failure) :
    includesLump env directory ignores path = .error failure := by
  rw [includesLump, h]
  rfl

/-- A path counts if it passes all the tests. -/
theorem includesLump_eq_true_iff :
    includesLump env directory ignores path = .ok true ↔
      (env.isFile path = .ok true ∧ env.isLink path = .ok false) ∧ isRootLump path.name = true ∧
        isWithin env path directory = .ok true ∧ ignores path = .ok false := by
  rw [includesLump]
  rcases env.isFile path with failure | (_ | _)
  · simp [bind, Except.bind]
  · simp [bind, Except.bind, pure, Except.pure]
  · rcases env.isLink path with failure | (_ | _)
    · simp [bind, Except.bind]
    · rcases isWithin env path directory with failure | (_ | _)
      · simp [bind, Except.bind]
      · simp [bind, Except.bind, pure, Except.pure]
      · cases isRootLump path.name with
        | false => simp [bind, Except.bind, pure, Except.pure]
        | true =>
            rcases ignores path with failure | (_ | _) <;>
              simp [bind, Except.bind, pure, Except.pure]
    · simp [bind, Except.bind, pure, Except.pure]

/-- The tests are made one after the other, and the first that refuses a path decides. -/
theorem exists_includesLump_iff :
    (∃ counts, includesLump env directory ignores path = .ok counts) ↔
      ∃ file, env.isFile path = .ok file ∧ (file = true →
        ∃ link, env.isLink path = .ok link ∧ (link = false → Told env directory ignores path)) := by
  rw [includesLump]
  unfold Told IgnoreTold
  rcases env.isFile path with failure | (_ | _)
  · simp [bind, Except.bind]
  · simp [bind, Except.bind, pure, Except.pure]
  · rcases env.isLink path with failure | (_ | _)
    · simp [bind, Except.bind]
    · rcases isWithin env path directory with failure | (_ | _)
      · simp [bind, Except.bind]
      · simp [bind, Except.bind, pure, Except.pure]
      · cases isRootLump path.name with
        | false => simp [bind, Except.bind, pure, Except.pure]
        | true =>
            rcases ignores path with failure | ignored <;>
              simp [bind, Except.bind, pure, Except.pure]
    · simp [bind, Except.bind, pure, Except.pure]

/-- Items can be filtered exactly if the test has an answer for each. -/
theorem exists_filterM?_iff {α : Type} {test : α → Except Failure Bool} {items : List α} :
    (∃ kept, filterM? test items = .ok kept) ↔
      ∀ item ∈ items, ∃ answer, test item = .ok answer := by
  induction items with
  | nil => simp [filterM?]
  | cons item rest ih =>
      rw [List.forall_mem_cons, ← ih, filterM?]
      rcases test item with failure | answer
      · simp
      · rcases filterM? test rest with failure | kept <;> simp

theorem name_below : (directory.below (names ++ [name])).name = name := by
  simp [Path.below, Path.name, ← List.append_assoc]

theorem parent_below : (directory.below (names ++ [name])).parent = directory.below names := by
  simp [Path.below, Path.parent, ← List.append_assoc]

end Tests

section Sweeps

variable {choose : Path → Sweep} {items : List Path} {path : Path} {first second : Sweep}

/-- Two sweeps end well if both do. -/
theorem Sweep.stop_append :
    (first.append second).stop = none ↔ first.stop = none ∧ second.stop = none := by
  unfold append
  split
  · next hStop => simp [hStop]
  · next hNone => simp [hNone]

theorem Sweep.paths_append (h : first.stop = none) :
    (first.append second).paths = first.paths ++ second.paths := by
  unfold append
  rw [h]

/-- A choice ends well if it does for each item. -/
theorem stop_chooseFrom :
    (chooseFrom choose items).stop = none ↔ ∀ item ∈ items, (choose item).stop = none := by
  induction items with
  | nil => simp [chooseFrom]
  | cons item rest ih => rw [chooseFrom, Sweep.stop_append, ih, List.forall_mem_cons]

/-- What a choice finds are the paths of its items. -/
theorem mem_chooseFrom (h : (chooseFrom choose items).stop = none) :
    path ∈ (chooseFrom choose items).paths ↔ ∃ item ∈ items, path ∈ (choose item).paths := by
  induction items with
  | nil => simp [chooseFrom]
  | cons item rest ih =>
      rw [chooseFrom] at h ⊢
      obtain ⟨hFirst, hRest⟩ := Sweep.stop_append.mp h
      rw [Sweep.paths_append hFirst, List.mem_append, ih hRest, List.exists_mem_cons_iff]

end Sweeps

section Walk

variable {env : Environment} {directory path : Path} {place : Place} {names : List String}
  {room : Nat}

/-- The directories under some names have paths that are not too long, and there is room for those
inside of one another. -/
def Clear (env : Environment) (directory : Path) (place : Place) (room : Nat)
    (names : List String) : Prop :=
  ∀ more, env.tree.at? (place ++ (names ++ more)) = some .directory →
    more.length < room ∧ utf8Size (directory.below (names ++ more)).toString ≤ pathLimit

/-- The directories of a directory. -/
theorem mem_inner :
    path ∈ ((env.tree.namesAt (place ++ names)).filter (entersName env (place ++ names))).map
        (fun name => (directory.below names).below [name]) ↔
      ∃ name, env.tree.at? (place ++ (names ++ [name])) = some .directory ∧
        path = directory.below (names ++ [name]) := by
  simp only [List.mem_map, List.mem_filter, entersName, decide_eq_true_eq, mem_namesAt_iff,
    Path.below_below, List.append_assoc]
  constructor
  · rintro ⟨name, ⟨-, hNode⟩, rfl⟩
    exact ⟨name, hNode, rfl⟩
  · rintro ⟨name, hNode, rfl⟩
    exact ⟨name, ⟨⟨_, hNode⟩, hNode⟩, rfl⟩

theorem at?_first {name : String} {more : List String}
    (h : env.tree.at? (place ++ (names ++ name :: more)) = some .directory) :
    env.tree.at? (place ++ (names ++ [name])) = some .directory := by
  by_cases hNone : more = []
  · rwa [hNone] at h
  · exact at?_above (by simpa using h) hNone

/-- A directory is clear within more room if it is short enough and those inside are clear. -/
theorem clear_succ_iff (hNode : env.tree.at? (place ++ names) = some .directory) :
    Clear env directory place (room + 1) names ↔
      utf8Size (directory.below names).toString ≤ pathLimit ∧
        ∀ name, env.tree.at? (place ++ (names ++ [name])) = some .directory →
          Clear env directory place room (names ++ [name]) := by
  constructor
  · intro h
    refine ⟨by simpa using (h [] (by simpa using hNode)).2, fun name _ more hMore => ?_⟩
    rw [List.append_assoc, List.singleton_append] at hMore ⊢
    obtain ⟨hLess, hShort⟩ := h (name :: more) hMore
    exact ⟨by simpa using hLess, hShort⟩
  · rintro ⟨hShort, h⟩ more hMore
    cases more with
    | nil => exact ⟨room.succ_pos, by simpa using hShort⟩
    | cons name more =>
        obtain ⟨hLess, hLong⟩ := h name (at?_first hMore) more (by simpa using hMore)
        exact ⟨by simpa using hLess, by simpa using hLong⟩

/-- One step of the walk: a directory comes before those inside of it. -/
theorem directories_succ (hEnters : env.Enters directory place)
    (hNode : env.tree.at? (place ++ names) = some .directory)
    (hShort : utf8Size (directory.below names).toString ≤ pathLimit) :
    directories env (room + 1) (directory.below names) =
      Sweep.append ⟨[directory.below names], none⟩ (chooseFrom (directories env room)
        (((env.tree.namesAt (place ++ names)).filter (entersName env (place ++ names))).map
          fun name => (directory.below names).below [name])) := by
  rw [directories, hEnters.listed_below hNode, if_neg (Nat.not_lt.mpr hShort)]

/-- The walk comes to its end if every directory can be listed and there is room for it. -/
theorem stop_directories (hEnters : env.Enters directory place)
    (hNode : env.tree.at? (place ++ names) = some .directory) :
    (directories env room (directory.below names)).stop = none ↔
      Clear env directory place room names := by
  induction room generalizing names with
  | zero =>
      refine iff_of_false (by simp [directories]) fun h => ?_
      exact absurd (h [] (by simpa using hNode)).1 (Nat.not_lt_zero _)
  | succ room ih =>
      rw [clear_succ_iff hNode]
      by_cases hLong : pathLimit < utf8Size (directory.below names).toString
      · refine iff_of_false ?_ fun h => Nat.not_lt.mpr h.1 hLong
        rw [directories, hEnters.listed_below hNode, if_pos hLong, Sweep.stop_append]
        simp [Sweep.ofFailure, Failure.isDenied]
      · have hShort := Nat.le_of_not_lt hLong
        rw [directories_succ hEnters hNode hShort, Sweep.stop_append, stop_chooseFrom]
        simp only [mem_inner, hShort, true_and]
        constructor
        · intro h name hInner
          exact (ih hInner).mp (h _ ⟨name, hInner, rfl⟩)
        · rintro h path ⟨name, hInner, rfl⟩
          exact (ih hInner).mpr (h name hInner)

/-- The walk finds the directories that are reached through directories alone. -/
theorem mem_directories (hEnters : env.Enters directory place)
    (hNode : env.tree.at? (place ++ names) = some .directory)
    (h : Clear env directory place room names) :
    path ∈ (directories env room (directory.below names)).paths ↔
      ∃ more, env.tree.at? (place ++ (names ++ more)) = some .directory ∧
        path = directory.below (names ++ more) := by
  induction room generalizing names with
  | zero => exact absurd (h [] (by simpa using hNode)).1 (Nat.not_lt_zero _)
  | succ room ih =>
      have hStop := (stop_directories hEnters hNode).mpr h
      obtain ⟨hShort, hBelow⟩ := (clear_succ_iff hNode).mp h
      rw [directories_succ hEnters hNode hShort] at hStop ⊢
      rw [Sweep.paths_append rfl, List.singleton_append, List.mem_cons,
        mem_chooseFrom (Sweep.stop_append.mp hStop).2]
      simp only [mem_inner]
      constructor
      · rintro (rfl | ⟨item, ⟨name, hInner, rfl⟩, hPath⟩)
        · exact ⟨[], by simpa using hNode, by simp⟩
        · obtain ⟨more, hMore, rfl⟩ := (ih hInner (hBelow name hInner)).mp hPath
          exact ⟨name :: more, by simpa using hMore, by simp⟩
      · rintro ⟨more, hMore, rfl⟩
        cases more with
        | nil => exact .inl (by simp)
        | cons name more =>
            have hInner := at?_first hMore
            exact .inr ⟨_, ⟨name, hInner, rfl⟩,
              (ih hInner (hBelow name hInner)).mpr ⟨more, by simpa using hMore, by simp⟩⟩

/-- The entries of a directory that can be listed. -/
theorem entries_below (hEnters : env.Enters directory place)
    (hNode : env.tree.at? (place ++ names) = some .directory)
    (hShort : utf8Size (directory.below names).toString ≤ pathLimit) :
    entries env (directory.below names) =
      ⟨(env.tree.namesAt (place ++ names)).map fun name => directory.below (names ++ [name]),
        none⟩ := by
  rw [entries, Environment.names, hEnters.listed_below hNode, if_neg (Nat.not_lt.mpr hShort)]
  simp only [Except.map, Path.below_below]

/-- The walk through the directories of a whole directory. -/
theorem mem_directories_root (hEnters : env.Enters directory place)
    (h : Clear env directory place room []) :
    path ∈ (directories env room directory).paths ↔
      ∃ names, env.tree.at? (place ++ names) = some .directory ∧ path = directory.below names := by
  have hNode : env.tree.at? (place ++ []) = some .directory :=
    (List.append_nil place).symm ▸ hEnters.at?
  simpa [Path.below_nil] using @mem_directories env directory path place [] room hEnters hNode h

/-- In directories that can be listed, everything is found. -/
theorem chooseFrom_entries (hEnters : env.Enters directory place)
    (h : Clear env directory place room []) :
    let found := chooseFrom (entries env) (directories env room directory).paths
    found.stop = none ∧ ∀ path, path ∈ found.paths ↔
      ∃ names name, (env.tree.at? (place ++ (names ++ [name]))).isSome ∧
        path = directory.below (names ++ [name]) := by
  intro found
  have hEntries {names : List String}
      (hInner : env.tree.at? (place ++ names) = some .directory) :=
    entries_below hEnters hInner (h names hInner).2
  have hNone : found.stop = none := by
    rw [stop_chooseFrom]
    intro path hPath
    obtain ⟨names, hInner, rfl⟩ := (mem_directories_root hEnters h).mp hPath
    rw [hEntries hInner]
  refine ⟨hNone, fun path => ?_⟩
  rw [mem_chooseFrom hNone]
  constructor
  · rintro ⟨inner, hMem, hPath⟩
    obtain ⟨names, hInner, rfl⟩ := (mem_directories_root hEnters h).mp hMem
    rw [hEntries hInner] at hPath
    obtain ⟨name, hName, rfl⟩ := List.mem_map.mp hPath
    refine ⟨names, name, ?_, rfl⟩
    rw [← List.append_assoc]
    exact Option.isSome_iff_exists.mpr (mem_namesAt_iff.mp hName)
  · rintro ⟨names, name, hThere, rfl⟩
    rw [← List.append_assoc] at hThere
    obtain ⟨node, hBelow⟩ := Option.isSome_iff_exists.mp hThere
    have hInner := at?_above hBelow (by simp)
    refine ⟨directory.below names, (mem_directories_root hEnters h).mpr ⟨names, hInner, rfl⟩, ?_⟩
    rw [hEntries hInner]
    exact List.mem_map_of_mem (mem_namesAt_iff.mpr ⟨node, hBelow⟩)

/-- A search of a directory comes to its end exactly if the walk through the directories does, and
finds everything below. -/
theorem search_entries (hEnters : env.Enters directory place)
    (hPlace : env.find .target directory = .ok (.node place .directory)) :
    let found := search env room (entries env) directory
    (found.stop = none ↔ Clear env directory place (room + 1) []) ∧
      (found.stop = none → ∀ path, path ∈ found.paths ↔
        ∃ names name, (env.tree.at? (place ++ (names ++ [name]))).isSome ∧
          path = directory.below (names ++ [name])) := by
  have hHere : env.isDirectory directory = .ok true := by
    simp [Environment.isDirectory, Environment.holds, hPlace]
  have hStop := @stop_directories env directory place [] (room + 1) hEnters
    ((List.append_nil place).symm ▸ hEnters.at?)
  rw [Path.below_nil] at hStop
  intro found
  have hFound : found =
      (chooseFrom (entries env) (directories env (room + 1) directory).paths).append
        ⟨[], (directories env (room + 1) directory).stop⟩ := by
    simp only [found, search, hHere]
  constructor
  · rw [hFound, Sweep.stop_append, ← hStop]
    exact ⟨And.right, fun h => ⟨(chooseFrom_entries hEnters (hStop.mp h)).1, h⟩⟩
  · intro hNone
    rw [hFound, Sweep.stop_append] at hNone
    rw [hFound, Sweep.paths_append hNone.1, List.append_nil]
    exact (chooseFrom_entries hEnters (hStop.mp hNone.2)).2

end Walk

section Search

variable {env : Environment} {directory : Path} {place : Place} {names : List String}
  {name : String} {ignores : Path → Except Failure Bool}

/-- Whether something below a directory is a link. -/
theorem isLink_below {node : Node} (hEnters : env.Enters directory place)
    (hNode : env.tree.at? (place ++ (names ++ [name])) = some node)
    (hShort : utf8Size (directory.below (names ++ [name])).toString ≤ pathLimit) :
    ∃ link, env.isLink (directory.below (names ++ [name])) = .ok link ∧
      (link = true ↔ ∃ target, node = .link target) := by
  rw [Environment.isLink, Environment.holds,
    hEnters.find_node (.inl ⟨rfl, by simp⟩) hNode, if_neg (Nat.not_lt.mpr hShort)]
  cases node with
  | file bytes => exact ⟨false, rfl, by simp⟩
  | directory => exact ⟨false, rfl, by simp⟩
  | link target => exact ⟨true, rfl, by simp⟩

/-- Where the test for files has an answer, the path is not too long. -/
theorem short_of_isFile {node : Node} {file : Bool} (hEnters : env.Enters directory place)
    (hNode : env.tree.at? (place ++ (names ++ [name])) = some node)
    (h : env.isFile (directory.below (names ++ [name])) = .ok file) :
    utf8Size (directory.below (names ++ [name])).toString ≤ pathLimit := by
  have hNames := fun part hPart => isName_of_at? hNode part (List.mem_append_right _ hPart)
  have hNull : (names ++ [name]).any Text.hasNull = false := by
    rw [List.any_eq_false]
    exact fun part hPart => by simp [(hNames part hPart).nullFree]
  obtain ⟨links, hFind⟩ := hEnters.find_below (by simp : Ending.target ≠ .creation) (by simp)
    fun part hPart => (hNames part hPart).part
  refine Nat.le_of_not_lt fun hLong => ?_
  rw [Environment.isFile, Environment.holds, hFind, hNull, if_neg (by simp), if_pos hLong] at h
  cases h

/-- Where the test for files has an answer, it and the test for links tell the files below a
directory from everything else. -/
theorem isFile_cases {node : Node} {file : Bool} (hEnters : env.Enters directory place)
    (hNode : env.tree.at? (place ++ (names ++ [name])) = some node)
    (h : env.isFile (directory.below (names ++ [name])) = .ok file) :
    (env.tree.HoldsFile (place ++ (names ++ [name])) ∧ file = true ∧
      env.isLink (directory.below (names ++ [name])) = .ok false) ∨
    ¬env.tree.HoldsFile (place ++ (names ++ [name])) ∧
      (file = false ∨ env.isLink (directory.below (names ++ [name])) = .ok true) := by
  have hShort := short_of_isFile hEnters hNode h
  obtain ⟨link, hLink, hIsLink⟩ := isLink_below hEnters hNode hShort
  by_cases hPlain : ∀ target, node ≠ .link target
  · obtain rfl : link = false := by
      rw [← Bool.not_eq_true, hIsLink]
      rintro ⟨target, hTarget⟩
      exact hPlain target hTarget
    rcases hEnters.isFile_below hNode hPlain with ⟨hLong, -⟩ | ⟨-, answer, hAnswer, hFile⟩
    · exact absurd hLong (Nat.not_lt.mpr hShort)
    · obtain rfl : file = answer := Except.ok.inj (h.symm.trans hAnswer)
      cases file with
      | true => exact .inl ⟨hFile.mp rfl, rfl, hLink⟩
      | false => exact .inr ⟨fun hHolds => by simpa using hFile.mpr hHolds, .inl rfl⟩
  · obtain ⟨target, hTarget⟩ : ∃ target, node = .link target := by simpa using hPlain
    obtain rfl : link = true := hIsLink.mpr ⟨target, hTarget⟩
    refine .inr ⟨?_, .inr hLink⟩
    rintro ⟨bytes, hBytes⟩
    rw [hNode, hTarget] at hBytes
    cases hBytes

/-- What counts below a directory. -/
theorem includesLump_below_iff (hEnters : env.Enters directory place)
    (hThere : (env.tree.at? (place ++ (names ++ [name]))).isSome)
    (hAnswer : ∃ file, env.isFile (directory.below (names ++ [name])) = .ok file) :
    includesLump env directory ignores (directory.below (names ++ [name])) = .ok true ↔
      env.tree.HoldsFile (place ++ (names ++ [name])) ∧ isRootLump name = true ∧
        isWithin env (directory.below (names ++ [name])) directory = .ok true ∧
        ignores (directory.below (names ++ [name])) = .ok false := by
  obtain ⟨node, hNode⟩ := Option.isSome_iff_exists.mp hThere
  obtain ⟨file, hFile⟩ := hAnswer
  rw [includesLump_eq_true_iff, name_below]
  refine and_congr_left fun _ => ?_
  rcases isFile_cases hEnters hNode hFile with ⟨hHolds, rfl, hLink⟩ | ⟨hNot, rfl | hLink⟩
  · exact iff_of_true ⟨hFile, hLink⟩ hHolds
  · exact iff_of_false (fun h => by simp [hFile] at h) hNot
  · exact iff_of_false (fun h => by simp [hLink] at h) hNot

/-- The search has an answer for something below a directory if its tests have. -/
theorem exists_includesLump_below_iff (hEnters : env.Enters directory place)
    (hThere : (env.tree.at? (place ++ (names ++ [name]))).isSome) :
    (∃ counts,
      includesLump env directory ignores (directory.below (names ++ [name])) = .ok counts) ↔
      (∃ file, env.isFile (directory.below (names ++ [name])) = .ok file) ∧
      (env.tree.HoldsFile (place ++ (names ++ [name])) →
        Told env directory ignores (directory.below (names ++ [name]))) := by
  obtain ⟨node, hNode⟩ := Option.isSome_iff_exists.mp hThere
  rw [exists_includesLump_iff, ← exists_and_right]
  refine exists_congr fun file => and_congr_right fun hFile => ?_
  rcases isFile_cases hEnters hNode hFile with ⟨hHolds, rfl, hLink⟩ | ⟨hNot, rfl | hLink⟩
  · simp [hHolds, hLink]
  · simp [hNot]
  · simp [hNot, hLink]

/-- The roots are the directories of the lumps that a completed search finds and the filter lets
in. -/
theorem rootsUnless_eq_ok_iff {roots : List Path} :
    rootsUnless env directory ignores = .ok roots ↔
      (search env env.stack.directories (entries env) directory).stop = none ∧
        ∃ lumps, filterM? (includesLump env directory ignores)
            (search env env.stack.directories (entries env) directory).paths = .ok lumps ∧
          roots = sortBelow directory (lumps.map Path.parent) := by
  rw [rootsUnless]
  rcases hLumps : filterM? (includesLump env directory ignores)
      (search env env.stack.directories (entries env) directory).paths with failure | lumps
  · simp [bind, Except.bind]
  · cases hStop : (search env env.stack.directories (entries env) directory).stop with
    | none => simp [bind, Except.bind, pure, Except.pure, eq_comm]
    | some failure => simp [bind, Except.bind]

/-- There is a result exactly if every test has an answer and there is room for the directories. -/
theorem exists_rootsUnless_iff (hEnters : env.Enters directory place)
    (hPlace : env.find .target directory = .ok (.node place .directory)) :
    (∃ roots, rootsUnless env directory ignores = .ok roots) ↔
      Answers env directory place (Told env directory ignores) := by
  obtain ⟨hStop, hPaths⟩ := @search_entries env directory place env.stack.directories hEnters hPlace
  have hRoots : (∃ roots, rootsUnless env directory ignores = .ok roots) ↔
      (search env env.stack.directories (entries env) directory).stop = none ∧
        ∃ lumps, filterM? (includesLump env directory ignores)
          (search env env.stack.directories (entries env) directory).paths = .ok lumps := by
    simp only [rootsUnless_eq_ok_iff]
    constructor
    · rintro ⟨_, hNone, lumps, hLumps, -⟩
      exact ⟨hNone, lumps, hLumps⟩
    · rintro ⟨hNone, lumps, hLumps⟩
      exact ⟨_, hNone, lumps, hLumps, rfl⟩
  rw [hRoots, exists_filterM?_iff]
  constructor
  · rintro ⟨hNone, h⟩
    refine ⟨fun names hNode => Nat.le_of_lt_succ (hStop.mp hNone names hNode).1,
      fun names name hThere => ?_⟩
    exact (exists_includesLump_below_iff hEnters hThere).mp
      (h _ ((hPaths hNone _).mpr ⟨names, name, hThere, rfl⟩))
  · rintro ⟨hRoom, h⟩
    have hNone := hStop.mpr fun names hNode => by
      refine ⟨Nat.lt_succ_of_le (hRoom names hNode), ?_⟩
      induction names using List.reverseRecOn with
      | nil =>
          rw [List.nil_append, Path.below_nil]
          exact (Environment.enters_of_find hEnters.accessible hEnters.proper hPlace).2
      | append_singleton front last =>
          obtain ⟨file, hFile⟩ := (h front last (Option.isSome_iff_exists.mpr ⟨_, hNode⟩)).1
          exact short_of_isFile hEnters hNode hFile
    refine ⟨hNone, fun path hPath => ?_⟩
    obtain ⟨names, name, hThere, rfl⟩ := (hPaths hNone path).mp hPath
    exact (exists_includesLump_below_iff hEnters hThere).mpr (h names name hThere)

theorem mem_sortBelow {paths : List Path} {path : Path} :
    path ∈ sortBelow directory paths ↔ path ∈ paths := by
  rw [sortBelow, List.mem_mergeSort, List.mem_eraseDups]

/-- The result holds the roots and nothing else. -/
theorem mem_rootsUnless_iff {roots : List Path} {root : Path} (hEnters : env.Enters directory place)
    (hPlace : env.find .target directory = .ok (.node place .directory))
    (h : rootsUnless env directory ignores = .ok roots) :
    root ∈ roots ↔ IsRoot env directory place
      (fun path => isWithin env path directory = .ok true ∧ ignores path = .ok false) root := by
  obtain ⟨-, hAnswers⟩ := (exists_rootsUnless_iff hEnters hPlace).mp ⟨roots, h⟩
  obtain ⟨hNone, lumps, hLumps, rfl⟩ := rootsUnless_eq_ok_iff.mp h
  have hPaths := (search_entries hEnters hPlace).2 hNone
  rw [mem_sortBelow, List.mem_map]
  constructor
  · rintro ⟨path, hPath, rfl⟩
    obtain ⟨hMem, hCounts⟩ := (mem_filterM?_iff hLumps).mp hPath
    obtain ⟨names, lump, hThere, rfl⟩ := (hPaths path).mp hMem
    obtain ⟨⟨bytes, hNode⟩, hLump, hKept⟩ :=
      (includesLump_below_iff hEnters hThere (hAnswers names lump hThere).1).mp hCounts
    have hAbove : env.tree.at? (place ++ names) = some .directory := by
      rw [← List.append_assoc] at hNode
      exact at?_above hNode (by simp)
    exact ⟨names, lump, parent_below, hAbove, ⟨bytes, hNode⟩, hLump, hKept⟩
  · rintro ⟨names, lump, rfl, -, ⟨bytes, hNode⟩, hLump, hKept⟩
    have hThere : (env.tree.at? (place ++ (names ++ [lump]))).isSome := by simp [hNode]
    refine ⟨directory.below (names ++ [lump]), (mem_filterM?_iff hLumps).mpr ⟨?_, ?_⟩, parent_below⟩
    · exact (hPaths _).mpr ⟨names, lump, hThere, rfl⟩
    · exact (includesLump_below_iff hEnters hThere (hAnswers names lump hThere).1).mpr
        ⟨⟨bytes, hNode⟩, hLump, hKept⟩

/-- The way from a directory to a path below it is the names between them. -/
theorem relativeTo?_below :
    (directory.below names).relativeTo? directory = some ⟨.relative, names⟩ := by
  simp [Path.relativeTo?, Path.below]

theorem relativeText_below :
    relativeText directory (directory.below names) = (Path.mk .relative names).toString := by
  rw [relativeText, relativeTo?_below, Option.getD_some]

theorem nodup_eraseDups (paths : List Path) : paths.eraseDups.Nodup := by
  match paths with
  | [] => simp
  | path :: rest =>
      rw [List.eraseDups_cons, List.nodup_cons]
      exact ⟨by simp [List.mem_eraseDups], nodup_eraseDups _⟩
termination_by paths.length
decreasing_by exact Nat.lt_succ_of_le (List.length_filter_le _ _)

/-- Paths whose texts are apart are sorted strictly. -/
theorem sortBelow_pairwise {paths : List Path}
    (h : ∀ path ∈ paths, ∀ other ∈ paths,
      relativeText directory path = relativeText directory other → path = other) :
    (sortBelow directory paths).Pairwise fun path other =>
      relativeText directory path < relativeText directory other := by
  have hOrdered : (sortBelow directory paths).Pairwise fun path other =>
      relativeText directory path ≤ relativeText directory other := by
    have hPairwise := @List.pairwise_mergeSort Path
      (fun a b => decide (relativeText directory a ≤ relativeText directory b))
      (fun a b c => by simpa using String.le_trans)
      (fun a b => by simpa using String.le_total _ _) paths.eraseDups
    simp only [decide_eq_true_eq] at hPairwise
    exact hPairwise
  have hDistinct : (sortBelow directory paths).Pairwise (· ≠ ·) := by
    change (sortBelow directory paths).Nodup
    rw [sortBelow, (List.mergeSort_perm _ _).nodup_iff]
    exact nodup_eraseDups paths
  refine (hOrdered.and hDistinct).imp_of_mem fun {path other} hPath hOther hBoth => ?_
  refine String.not_le.mp fun hGe => hBoth.2 ?_
  exact h path (mem_sortBelow.mp hPath) other (mem_sortBelow.mp hOther)
    (String.le_antisymm hBoth.1 hGe)

/-- The roots are in order, each once. -/
theorem rootsUnless_pairwise {roots : List Path} (hEnters : env.Enters directory place)
    (hPlace : env.find .target directory = .ok (.node place .directory))
    (h : rootsUnless env directory ignores = .ok roots) :
    roots.Pairwise fun root other =>
      relativeText directory root < relativeText directory other := by
  have hRoot {root : Path} (hRoot : root ∈ roots) :
      ∃ names, (Path.mk .relative names).Proper ∧ root = directory.below names := by
    obtain ⟨names, lump, rfl, -, ⟨bytes, hNode⟩, -⟩ :=
      (mem_rootsUnless_iff hEnters hPlace h).mp hRoot
    exact ⟨names, fun name hName => (isName_of_at? hNode name (by simp [hName])).part, rfl⟩
  obtain ⟨-, lumps, -, rfl⟩ := rootsUnless_eq_ok_iff.mp h
  refine sortBelow_pairwise fun path hPath other hOther hText => ?_
  obtain ⟨names, hNames, rfl⟩ := hRoot (mem_sortBelow.mpr hPath)
  obtain ⟨others, hOthers, rfl⟩ := hRoot (mem_sortBelow.mpr hOther)
  rw [relativeText_below, relativeText_below] at hText
  cases Path.toString_injective hNames hOthers hText
  rfl

/-- What is no link lies inside the directory. -/
theorem isWithin_below {node : Node} (hReach : env.tree.InReach) (hNear : env.Near directory place)
    (hLinks : linkLimit ≤ env.stack.links) (hDirectory : directory.Proper)
    (hPlace : env.find .target directory = .ok (.node place .directory))
    (hNode : env.tree.at? (place ++ names) = some node) (hLink : ∀ target, node ≠ .link target) :
    isWithin env (directory.below names) directory = .ok true := by
  have hReal := Environment.resolveWithin_below hReach hNear hDirectory hPlace hLinks
    ((List.append_nil place).symm ▸ Environment.find_sound hPlace) (by simp)
  have hBelow := Environment.resolveWithin_below hReach hNear hDirectory hPlace hLinks hNode hLink
  rw [Path.below_nil, List.append_nil] at hReal
  have hInside : (Path.mk .slash (place ++ names)).relativeTo? ⟨.slash, place⟩ =
      some ⟨.relative, names⟩ := @relativeTo?_below ⟨.slash, place⟩ names
  simp only [isWithin, Environment.resolve, hReal, hBelow, hInside, Option.isSome_some]

end Search

section Filters

variable {env : Environment} {directory path : Path}

/-- Every ignore file that is read has its matcher among those that are used. -/
theorem exists_matcher_of_mem {paths : List Path} {matchers : List Ignore.Matcher}
    (h : readIgnoreFiles env paths = .ok matchers) (hPath : path ∈ paths) :
    ∃ matcher ∈ matchers, Ignore.readFile env path = .ok matcher := by
  induction paths generalizing matchers with
  | nil => cases hPath
  | cons first rest ih =>
      rw [readIgnoreFiles] at h
      split at h
      · cases h
      · next matcher hMatcher =>
          rcases hRest : readIgnoreFiles env rest with failure | others
          · simp [hRest, Except.map] at h
          · simp only [hRest, Except.map, Except.ok.injEq] at h
            subst h
            rcases List.mem_cons.mp hPath with rfl | hPath
            · exact ⟨matcher, List.mem_cons_self, hMatcher⟩
            · obtain ⟨other, hOther, hRead⟩ := ih hRest hPath
              exact ⟨other, List.mem_cons_of_mem _ hOther, hRead⟩

/-- A path that is not ignored is ignored by no file. -/
theorem anyIgnores_false {matchers : List Ignore.Matcher} {matcher : Ignore.Matcher}
    (h : Ignore.anyIgnores env path matchers = .ok false) (hMatcher : matcher ∈ matchers) :
    matcher.ignores env path ≠ .ok true := by
  induction matchers with
  | nil => cases hMatcher
  | cons first rest ih =>
      rw [Ignore.anyIgnores] at h
      rcases List.mem_cons.mp hMatcher with rfl | hRest
      · intro hIgnores
        simp [hIgnores] at h
      · split at h
        · cases h
        · exact ih h hRest
        · exact ih h hRest
        · exact ih h hRest
        · cases h

/-- The ignore file of a directory is among all the ignore files in it and below. -/
theorem mem_ignoreFiles {paths : List Path} (h : ignoreFiles env directory = .ok paths)
    (hFile : env.isFile (directory.child ignoreFileName) = .ok true) :
    directory.child ignoreFileName ∈ paths := by
  simp only [ignoreFiles] at h
  split at h
  · cases h
  · rcases hKept : filterM? env.isFile (directory.child ignoreFileName ::
        (search env env.stack.ignoreFiles (ignoreFile env) directory).paths) with failure | kept
    · rw [hKept] at h
      cases h
    · rw [hKept] at h
      cases h
      rw [mem_sortBelow, mem_filterM?_iff hKept]
      exact ⟨List.mem_cons_self, hFile⟩

/-- What the ignore files in a directory and below it let pass, the directory's own does not
ignore. -/
theorem ignores_of_nested {inner outer : Filter} (hInner : filterOf env directory true = .ok inner)
    (hOuter : filterOf env directory false = .ok outer)
    (h : inner.ignores env path = .ok false) : outer.ignores env path ≠ .ok true := by
  rw [filterOf] at hInner hOuter
  simp only [if_true, Bool.false_eq_true, if_false] at hInner hOuter
  split at hInner
  · cases hInner
  · next paths hPaths =>
      rcases hRead : readIgnoreFiles env paths with failure | matchers
      · simp [hRead, Except.map] at hInner
      · simp only [hRead, Except.map, Except.ok.injEq] at hInner
        subst hInner
        split at hOuter
        · cases hOuter
        · cases hOuter
          simp [Filter.ignores]
        · next hFile =>
            obtain ⟨matcher, hMem, hMatcher⟩ :=
              exists_matcher_of_mem hRead (mem_ignoreFiles hPaths hFile)
            simp only [hMatcher, Except.map, Except.ok.injEq] at hOuter
            subst hOuter
            exact anyIgnores_false h hMem

end Filters

/-- The roots of a directory are those that its filter does not ignore. -/
theorem projectRoots_eq_ok_iff {env : Environment} {directory : Path} {nested : Bool}
    {roots : List Path} :
    projectRoots env directory nested = .ok roots ↔
      ∃ filter, filterOf env directory nested = .ok filter ∧
        rootsUnless env directory (filter.ignores env) = .ok roots := by
  rw [projectRoots]
  rcases filterOf env directory nested with failure | filter
  · simp [bind, Except.bind]
  · simp [bind, Except.bind]

section Roots

variable {env : Environment} {directory : Path} {place : Place}
  (hEnters : env.Enters directory place)
  (hPlace : env.find .target directory = .ok (.node place .directory))

include hEnters hPlace

/-- Where every file lies inside, whether it does need not be asked. -/
theorem rootsUnless_of_inside
    (hInside : ∀ names, env.tree.HoldsFile (place ++ names) →
      isWithin env (directory.below names) directory = .ok true)
    (ignores : Path → Except Failure Bool) :
    ((∃ roots, rootsUnless env directory ignores = .ok roots) ↔
      Answers env directory place (IgnoreTold ignores)) ∧
    ∀ roots, rootsUnless env directory ignores = .ok roots → ∀ root, root ∈ roots ↔
      IsRoot env directory place (fun path => ignores path = .ok false) root := by
  constructor
  · rw [exists_rootsUnless_iff hEnters hPlace]
    refine and_congr_right fun _ => forall₃_congr fun names name _ => and_congr_right fun _ => ?_
    exact imp_congr_right fun hFile => by simp [Told, hInside _ hFile]
  · intro roots hRoots root
    rw [mem_rootsUnless_iff hEnters hPlace hRoots]
    refine exists₂_congr fun names lump => and_congr_right fun _ => and_congr_right fun _ => ?_
    exact and_congr_right fun hFile => by simp [hInside _ hFile]

/-- With all ignore files nothing is found that is not found with the directory's own alone. -/
theorem mem_projectRoots_of_nested {inner outer : List Path}
    (hInner : projectRoots env directory true = .ok inner)
    (hOuter : projectRoots env directory false = .ok outer) {root : Path} (hRoot : root ∈ inner) :
    root ∈ outer := by
  obtain ⟨innerFilter, hInnerFilter, hInnerRoots⟩ := projectRoots_eq_ok_iff.mp hInner
  obtain ⟨outerFilter, hOuterFilter, hOuterRoots⟩ := projectRoots_eq_ok_iff.mp hOuter
  obtain ⟨-, hAnswers⟩ := (exists_rootsUnless_iff hEnters hPlace).mp ⟨outer, hOuterRoots⟩
  obtain ⟨names, lump, hName, hAbove, hFile, hLump, hInside, hKept⟩ :=
    (mem_rootsUnless_iff hEnters hPlace hInnerRoots).mp hRoot
  -- the directory's own ignore file has an answer for the lump, and it is the same
  have hThere : (env.tree.at? (place ++ (names ++ [lump]))).isSome := by
    obtain ⟨bytes, hNode⟩ := hFile
    simp [hNode]
  obtain ⟨inside, hSame, hAsked⟩ := (hAnswers names lump hThere).2 hFile
  obtain rfl : true = inside := Except.ok.inj (hInside.symm.trans hSame)
  obtain ⟨ignored, hIgnored⟩ := hAsked rfl (name_below.symm ▸ hLump)
  have hPasses := ignores_of_nested hInnerFilter hOuterFilter hKept
  cases ignored with
  | true => exact absurd hIgnored hPasses
  | false =>
      exact (mem_rootsUnless_iff hEnters hPlace hOuterRoots).mpr
        ⟨names, lump, hName, hAbove, hFile, hLump, hInside, hIgnored⟩

end Roots

/-- The project roots in a directory, for any test that tells which paths are ignored. There is a
result exactly if every test that is made has an answer and there is room for the directories inside
of one another. Then it is sorted strictly by the text as seen from the directory, and holds exactly
the directories, reached through directories alone, with a root lump that is a file, lies inside,
and is not ignored. Where every place can be looked at, and the directory's path leaves room for the
links that it goes through, it need not be asked what lies inside: every file does, and every root.
The ignore files of a directory give such a test, and with all of them nothing is found that is not
found with the directory's own alone. -/
theorem roots_exact_ordered_contained {env : Environment} {directory : Path} {place : Place}
    (hOpen : env.tree.Accessible) (hDirectory : directory.Proper)
    (hPlace : env.find .target directory = .ok (.node place .directory)) :
    (∀ ignores, (∃ roots, rootsUnless env directory ignores = .ok roots) ↔
      Answers env directory place (Told env directory ignores)) ∧
    (∀ ignores roots, rootsUnless env directory ignores = .ok roots →
      (roots.Pairwise fun root other =>
        relativeText directory root < relativeText directory other) ∧
      ∀ root, root ∈ roots ↔ IsRoot env directory place
        (fun path => isWithin env path directory = .ok true ∧ ignores path = .ok false) root) ∧
    (env.tree.InReach → env.Near directory place → linkLimit ≤ env.stack.links →
      ∀ ignores,
        ((∃ roots, rootsUnless env directory ignores = .ok roots) ↔
          Answers env directory place (IgnoreTold ignores)) ∧
        ∀ roots, rootsUnless env directory ignores = .ok roots →
          (∀ root, root ∈ roots ↔
            IsRoot env directory place (fun path => ignores path = .ok false) root) ∧
          ∀ root ∈ roots, isWithin env root directory = .ok true) ∧
    (∀ nested roots, projectRoots env directory nested = .ok roots ↔
      ∃ filter, filterOf env directory nested = .ok filter ∧
        rootsUnless env directory (filter.ignores env) = .ok roots) ∧
    ∀ inner outer, projectRoots env directory true = .ok inner →
      projectRoots env directory false = .ok outer → ∀ root ∈ inner, root ∈ outer := by
  obtain ⟨hEnters, -⟩ := Environment.enters_of_find hOpen hDirectory hPlace
  refine ⟨fun ignores => exists_rootsUnless_iff hEnters hPlace, fun ignores roots hRoots =>
    ⟨rootsUnless_pairwise hEnters hPlace hRoots,
      fun root => mem_rootsUnless_iff hEnters hPlace hRoots⟩,
    fun hReach hNear hLinks ignores => ?_, fun nested roots => projectRoots_eq_ok_iff,
    fun inner outer hInner hOuter root hRoot =>
      mem_projectRoots_of_nested hEnters hPlace hInner hOuter hRoot⟩
  have hInside (names : List String) (hFile : env.tree.HoldsFile (place ++ names)) :
      isWithin env (directory.below names) directory = .ok true := by
    obtain ⟨bytes, hNode⟩ := hFile
    exact isWithin_below hReach hNear hLinks hDirectory hPlace hNode (by simp)
  obtain ⟨hAnswers, hExact⟩ := rootsUnless_of_inside hEnters hPlace hInside ignores
  refine ⟨hAnswers, fun roots hRoots => ⟨hExact roots hRoots, fun root hRoot => ?_⟩⟩
  obtain ⟨names, -, rfl, hNode, -⟩ := (hExact roots hRoots root).mp hRoot
  exact isWithin_below hReach hNear hLinks hDirectory hPlace hNode (by simp)

section Samples

/-- A project and a link to its directory. -/
def aliasedProject : Environment where
  tree := .ofEntries [(["mod"], .directory), (["mod", "ZScript.txt"], .file []),
    (["alias"], .link "mod")]
  working := []
  stands := rfl

theorem aliasedProject_roots :
    rootsUnless aliasedProject ⟨.relative, []⟩ (Filter.nothing.ignores aliasedProject) =
        .ok [⟨.relative, ["mod"]⟩] ∧
      (∀ root, root ∈ [Path.mk .relative ["mod"]] ↔ IsRoot aliasedProject ⟨.relative, []⟩ []
        (fun path => Filter.nothing.ignores aliasedProject path = .ok false) root) ∧
      isWithin aliasedProject ⟨.relative, ["mod"]⟩ ⟨.relative, []⟩ = .ok true := by
  have hOpen : aliasedProject.tree.Accessible := accessible_ofEntries _
  have hReach : aliasedProject.tree.InReach := ⟨hOpen, by decide +kernel⟩
  have hNear : aliasedProject.Near ⟨.relative, []⟩ [] := by
    refine .inr fun count hLeads link target _ => ?_
    cases hLeads
    rw [Nat.zero_mul]
    decide
  have hRoots : rootsUnless aliasedProject ⟨.relative, []⟩
      (Filter.nothing.ignores aliasedProject) = .ok [⟨.relative, ["mod"]⟩] := by decide +kernel
  obtain ⟨-, -, hInReach, -⟩ := @roots_exact_ordered_contained aliasedProject ⟨.relative, []⟩ []
    hOpen (by simp [Path.Proper]) (by decide +kernel)
  obtain ⟨-, hExact⟩ := hInReach hReach hNear (by decide) (Filter.nothing.ignores aliasedProject)
  obtain ⟨hMem, hInside⟩ := hExact _ hRoots
  exact ⟨hRoots, hMem, hInside _ List.mem_cons_self⟩

/-- A project, and a link to a name that is longer than a name may be. -/
def unreadableLink : Environment where
  tree := .ofEntries [(["x"], .link (String.ofList (List.replicate 256 'n'))),
    (["mod"], .directory), (["mod", "zscript.zs"], .file [])]
  working := []
  stands := rfl

/-- A link to a name that is too long cannot be followed. -/
theorem follow_link_of_long {tree : FileTree} {place : Place} {name : String} {cs : List Char}
    {links : Nat} (hOpen : tree.Accessible)
    (hNode : tree.at? (place ++ [name]) = some (.link (String.ofList cs)))
    (hSlash : List.splitOn '/' cs = [cs]) (hLong : nameLimit < (encodeUtf8 cs).length) :
    tree.follow .target (links + 1) place [name] = .error .nameTooLong := by
  have hNames : namesOf (String.ofList cs) = [String.ofList cs] := by
    rw [namesOf, String.toList_ofList, hSlash]
    rfl
  have hSize : utf8Size (String.ofList cs) > nameLimit := by
    rwa [utf8Size, String.toList_ofList]
  have hDots {dots : String} (hDots : utf8Size dots ≤ nameLimit) : String.ofList cs ≠ dots := by
    rintro rfl
    omega
  have hName := isName_of_at? hNode name (by simp)
  obtain ⟨enter, hEnter⟩ := exists_enter tree .target links
  change tree.followNames .target (tree.follow .target links) place [name] = _
  rw [(hOpen.sought (by simp) hName).followNames_link hNode, if_neg (by simp), hNames,
    List.append_nil, hEnter, followNames, if_neg (hDots (by decide))]
  simp only [hOpen .search, hDots (by decide : utf8Size "." ≤ nameLimit),
    hDots (by decide : utf8Size ".." ≤ nameLimit), if_false, reduceCtorEq, false_and]
  rw [if_pos hSize]

/-- A path that is followed to an error other than an absence cannot be looked at. -/
theorem isFile_of_follow_error {env : Environment} {path : Path} {error : FileError}
    (hOpen : env.tree.Accessible) (hPath : path.Proper)
    (hNull : path.parts.any Text.hasNull = false)
    (hShort : utf8Size path.toString ≤ pathLimit)
    (hFollow : env.tree.follow .target linkLimit (env.startPlace path) path.parts = .error error)
    (hError : Environment.meansAbsent (.file error path.toString) = false) :
    env.isFile path = .error (.file error path.toString) := by
  have hFind : env.find .target path = .error (.file error path.toString) := by
    rw [Environment.find_eq_follow hOpen hPath, hNull, hFollow, if_neg Bool.false_ne_true,
      if_neg (Nat.not_lt.mpr hShort)]
  simp only [Environment.isFile, Environment.holds, hFind, hError, Bool.false_eq_true, if_false]

/-- Where the first path that is found cannot be looked at, there is no result. -/
theorem projectRoots_of_isFile_error {env : Environment} {directory path : Path} {nested : Bool}
    {filter : Filter} {rest : List Path} {failure : Failure}
    (hFilter : filterOf env directory nested = .ok filter)
    (hFound : (search env env.stack.directories (entries env) directory).paths = path :: rest)
    (hFile : env.isFile path = .error failure) :
    projectRoots env directory nested = .error failure := by
  have hTest : filterM? (includesLump env directory (filter.ignores env)) (path :: rest) =
      .error failure := by
    simp only [filterM?, includesLump_of_error hFile]
  simp only [projectRoots, hFilter, rootsUnless, hFound, bind, Except.bind, hTest]

/-- What a search of the directory meets. -/
theorem unreadableLink_meets :
    unreadableLink.tree.at? ([] ++ ["x"]) =
        some (.link (String.ofList (List.replicate 256 'n'))) ∧
      unreadableLink.tree.at? ["mod"] = some .directory ∧
      unreadableLink.tree.at? ["mod", "zscript.zs"] = some (.file []) ∧
      unreadableLink.isFile (Path.child ⟨.relative, []⟩ ignoreFileName) = .ok false ∧
      (search unreadableLink unreadableLink.stack.directories (entries unreadableLink)
        ⟨.relative, []⟩).paths = [⟨.relative, ["x"]⟩, ⟨.relative, ["mod"]⟩,
          ⟨.relative, ["mod", "zscript.zs"]⟩] := by
  decide +kernel

/-- Looking at what the link leads to fails. -/
theorem unreadableLink_isFile :
    unreadableLink.isFile ⟨.relative, ["x"]⟩ =
      .error (.file .nameTooLong (Path.mk .relative ["x"]).toString) := by
  have hOpen : unreadableLink.tree.Accessible := by apply accessible_ofEntries
  have hPart : Path.IsPart "x" := by decide
  exact isFile_of_follow_error hOpen (by simpa [Path.Proper] using hPart) (by decide)
    (by decide +kernel)
    (follow_link_of_long hOpen unreadableLink_meets.1 (by decide +kernel) (by decide +kernel)) rfl

/-- The project next to the link is a root, and the search for roots fails over the link. -/
theorem unreadableLink_roots :
    IsRoot unreadableLink ⟨.relative, []⟩ [] (fun _ => True) ⟨.relative, ["mod"]⟩ ∧
      projectRoots unreadableLink ⟨.relative, []⟩ false =
        .error (.file .nameTooLong (Path.mk .relative ["x"]).toString) := by
  obtain ⟨-, hDirectory, hLump, hIgnore, hFound⟩ := unreadableLink_meets
  constructor
  · exact ⟨["mod"], "zscript.zs", rfl, hDirectory, ⟨[], hLump⟩, by decide +kernel, trivial⟩
  · have hFilter : filterOf unreadableLink ⟨.relative, []⟩ false = .ok .nothing := by
      simp only [filterOf, Bool.false_eq_true, if_false, hIgnore]
    exact projectRoots_of_isFile_error hFilter hFound unreadableLink_isFile

end Samples

end Workspace

end SignatureIndex
