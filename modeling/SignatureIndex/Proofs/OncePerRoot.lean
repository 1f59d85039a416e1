import SignatureIndex.Proofs.Boundary
import SignatureIndex.Proofs.RealPlace
import SignatureIndex.Proofs.Remembered

/-! Projects are read once. A document that is opened asks for the project in the nearest directory
above it that holds a root lump. Roots are only ever added to those a session remembers, and only by
a report without errors, so a project that could not be read is asked for again, and one that is
remembered is not. What is remembered is the settled form of the settled path of the root. The two
are the same wherever all paths are in reach of the file tree, and there a project is read once by
opening documents, however their paths are written. -/
namespace SignatureIndex

namespace Project

/-- A directory holds a root lump directly. -/
def HoldsLump (env : Environment) (directory : Path) : Prop :=
  ∃ names, env.names directory = .ok names ∧ ∃ name ∈ names, isRootLump name = true ∧
    env.isFile (directory.child name) = .ok true

theorem mem_sortNames {names : List String} {name : String} :
    name ∈ sortNames names ↔ name ∈ names :=
  (List.mergeSort_perm names _).mem_iff

/-- The list of root lumps has an item exactly if the directory holds one. -/
theorem rootLumps_ne_nil_iff {env : Environment} {directory : Path} {lumps : List Path}
    (h : rootLumps env directory = .ok lumps) : lumps ≠ [] ↔ HoldsLump env directory := by
  unfold rootLumps at h
  unfold HoldsLump
  split at h
  · next hNames =>
      split at h
      · cases h
        simp [hNames]
      · cases h
  · next names hNames =>
      simp only [hNames, Except.ok.injEq, exists_eq_left']
      constructor
      · intro hLumps
        obtain ⟨lump, hLump⟩ := List.exists_mem_of_ne_nil lumps hLumps
        obtain ⟨hMem, hFile⟩ := (mem_filterM?_iff h).mp hLump
        obtain ⟨name, hName, rfl⟩ := List.mem_map.mp hMem
        obtain ⟨hName, hLumpName⟩ := List.mem_filter.mp hName
        exact ⟨name, mem_sortNames.mp hName, hLumpName, hFile⟩
      · rintro ⟨name, hName, hLumpName, hFile⟩
        have hMem := (mem_filterM?_iff h).mpr ⟨List.mem_map_of_mem
          (List.mem_filter.mpr ⟨mem_sortNames.mpr hName, hLumpName⟩), hFile⟩
        exact List.ne_nil_of_mem hMem

/-- What holds a root lump is a directory of the file tree. -/
theorem HoldsLump.exists_place {env : Environment} {directory : Path}
    (h : HoldsLump env directory) :
    ∃ place, env.find .target directory = .ok (.node place .directory) := by
  obtain ⟨names, hNames, -⟩ := h
  unfold Environment.names at hNames
  cases hListed : env.listed directory with
  | error failure =>
      rw [hListed] at hNames
      cases hNames
  | ok place => exact ⟨place, (Environment.listed_eq_ok_iff.mp hListed).1⟩

end Project

namespace Session

open Project

/-- The part of a path up to one of its directories. -/
def above (real : Path) (count : Nat) : Path :=
  ⟨real.start, real.parts.take count⟩

/-- The nearest directory above what a path leads to that holds a root lump. -/
def NearestRoot (env : Environment) (path root : Path) : Prop :=
  ∃ real count, env.resolveHome path = .ok real ∧ count < real.parts.length ∧
    root = above real count ∧ HoldsLump env root ∧
    ∀ nearer, count < nearer → nearer < real.parts.length → ¬ HoldsLump env (above real nearer)

section Search

variable {env : Environment} {real : Path}

/-- The search among the directories above a path, of which those from some length on were passed
over. -/
theorem rootAmong_above {length : Nat} {found : Option Path}
    (h : rootAmong env ((List.range length).reverse.map (above real)) = .ok found) (root : Path) :
    found = some root ↔ ∃ count < length, root = above real count ∧ HoldsLump env root ∧
      ∀ nearer, count < nearer → nearer < length → ¬ HoldsLump env (above real nearer) := by
  induction length with
  | zero =>
      cases h
      simp
  | succ length ih =>
      rw [List.range_succ, List.reverse_append, List.reverse_singleton, List.singleton_append,
        List.map_cons, rootAmong] at h
      split at h
      · cases h
      · next hNone =>
          have hFree : ¬ HoldsLump env (above real length) := by
            simp [← rootLumps_ne_nil_iff hNone]
          rw [ih h]
          constructor
          · rintro ⟨count, hCount, rfl, hHolds, hNearer⟩
            refine ⟨count, by omega, rfl, hHolds, fun nearer hLess hLength => ?_⟩
            rcases Nat.lt_succ_iff_lt_or_eq.mp hLength with hLess' | rfl
            · exact hNearer nearer hLess hLess'
            · exact hFree
          · rintro ⟨count, hCount, rfl, hHolds, hNearer⟩
            rcases Nat.lt_succ_iff_lt_or_eq.mp hCount with hLess | rfl
            · exact ⟨count, hLess, rfl, hHolds, fun nearer hMore hLength =>
                hNearer nearer hMore (by omega)⟩
            · exact absurd hHolds hFree
      · next first others hSome =>
          have hHolds : HoldsLump env (above real length) := by
            simp [← rootLumps_ne_nil_iff hSome]
          cases h
          rw [Option.some.injEq]
          constructor
          · rintro rfl
            exact ⟨length, by omega, rfl, hHolds, fun nearer hMore hLength => by omega⟩
          · rintro ⟨count, hCount, rfl, -, hNearer⟩
            rcases Nat.lt_succ_iff_lt_or_eq.mp hCount with hLess | rfl
            · exact absurd hHolds (hNearer length hLess (by omega))
            · rfl

/-- The root of a path is the nearest directory that holds a root lump. -/
theorem projectRoot_eq_some_iff {path : Path} {found : Option Path}
    (h : projectRoot env path = .ok found) (root : Path) :
    found = some root ↔ NearestRoot env path root := by
  unfold projectRoot at h
  unfold NearestRoot
  split at h
  · cases h
  · next real hReal =>
      rw [rootAmong_above h root]
      simp [hReal]

end Search

/-- An operation, and the surroundings that it meets. -/
structure Turn where
  env : Environment
  op : Operation

/-- The session after some turns. -/
def play (session : Session) (turns : List Turn) : Session :=
  turns.foldl (fun before turn => turn.op.apply turn.env before) session

namespace Operation

/-- An operation gives a report without errors. -/
def Clean (env : Environment) (session : Session) (op : Operation) : Prop :=
  ∃ report, op.result env session = .ok (some report) ∧ report.ok = true

/-- An operation opens a document of a language whose project has a root. -/
def Opens (env : Environment) (language : String) (op : Operation) (root : Path) : Prop :=
  ∃ text, op = .openDocument (some language) (some text) ∧ text ≠ "" ∧
    projectRoot env (.ofString text) = .ok (some root)

end Operation

/-- A turn reads the project in a directory because one of its documents is opened. -/
def Turn.Reads (session : Session) (turn : Turn) (place : Place) : Prop :=
  (∃ root, turn.op.Opens turn.env session.config.language root ∧
    turn.env.find .target root = .ok (.node place .directory)) ∧
  turn.op.Clean turn.env session

section Projects

variable {env : Environment} {session : Session} {path root : Path}

theorem isDirectory_of_directory? (h : directory? env path = some root) :
    env.isDirectory root = .ok true := by
  unfold directory? at h
  split at h
  · split at h
    · next hDirectory =>
        cases h
        exact hDirectory
    · cases h
  · cases h

/-- A project that can be read as a whole gives a report without errors. -/
theorem parseProject_of_readable? (h : readable? env path = some root) (clear : Bool) :
    ∃ report, (session.parseProject env path clear).result = .ok report ∧ report.ok = true := by
  obtain ⟨hRoot, hKept⟩ := Option.filter_eq_some_iff.mp h
  obtain ⟨hNone, hSome⟩ := Bool.and_eq_true_iff.mp hKept
  obtain ⟨known, hKnown⟩ := Option.isSome_iff_exists.mp hSome
  have hPass := parse_failure env root (if clear then .empty else session.table)
  rw [Option.isNone_iff_eq_none.mp hNone] at hPass
  simp only [parseProject, resolveHome_of_directory? hRoot, isDirectory_of_directory? hRoot]
  rcases hParse : Project.parse env root (if clear then .empty else session.table) [] with
    ⟨pass, failure⟩
  rw [hParse] at hPass
  cases hPass
  simp only [knownAs?_eq_some_iff.mp hKnown]
  exact ⟨_, rfl, projectReport_ok root pass⟩

/-- What is told of a failed project does not depend on the session or on how far it got. -/
theorem tellProjectFailure_result_eq (session other : Session) (root : Path) (pass later : Pass)
    (failure : Failure) :
    (other.tellProjectFailure root later failure).result =
      (session.tellProjectFailure root pass failure).result := by
  unfold tellProjectFailure
  cases failure.isFile with
  | true => rfl
  | false => rfl

/-- What reading a project tells does not depend on the session, or on whether it is emptied. -/
theorem parseProject_result_eq (other : Session) (clear clear' : Bool) :
    (other.parseProject env path clear').result = (session.parseProject env path clear).result := by
  unfold parseProject
  cases env.resolveHome path with
  | error failure => rfl
  | ok root =>
      rcases hIs : env.isDirectory root with failure | (_ | _)
      · simp only [hIs, unchanged]
      · simp only [hIs, unchanged]
      · simp only [hIs]
        obtain ⟨found, hFound⟩ := Project.parse_storeAll env root []
        rw [hFound, hFound (if clear then .empty else session.table)]
        rcases Project.parse env root .empty [] with ⟨pass, _ | failure⟩
        · cases hKnown : env.resolveHome root with
          | error failure => exact tellProjectFailure_result_eq _ _ _ _ _ _
          | ok known => rfl
        · exact tellProjectFailure_result_eq _ _ _ _ _ _

end Projects

section Documents

variable {env : Environment} {session : Session} {text : String} {root known : Path}

/-- Opening a document reads the project that it asks for, unless that is remembered. -/
theorem openDocument_of_root (hText : text ≠ "")
    (hRoot : projectRoot env (.ofString text) = .ok (some root))
    (hKnown : env.resolveHome root = .ok known) :
    session.openDocument env (some session.config.language) (some text) =
      if known.toString ∈ session.parsedRoots then session.unchanged (.ok none) []
      else
        let outcome := session.parseProject env root false
        ⟨outcome.result.map some, outcome.session, outcome.log⟩ := by
  have hFilter : (some text).filter (· ≠ "") = some text := by simp [Option.filter, hText]
  simp only [openDocument, hFilter, hRoot, hKnown, ne_eq, not_true, if_false]

/-- What opening a document reports does not depend on the table. -/
theorem openDocument_result_withTable (table : Table) (language path : Option String) :
    ((session.withTable table).openDocument env language path).result =
      (session.openDocument env language path).result := by
  have hConfig : (session.withTable table).config = session.config := rfl
  unfold openDocument
  cases path.filter (· ≠ "") with
  | none => rfl
  | some text =>
      by_cases hLanguage : language = some session.config.language
      · simp only [hConfig, hLanguage, ne_eq, not_true, if_false]
        rcases projectRoot env (.ofString text) with failure | (_ | root)
        · rfl
        · rfl
        · cases hKnown : env.resolveHome root with
          | error failure => simp only [hKnown, unchanged]
          | ok known =>
              simp only [hKnown]
              by_cases hMem : known.toString ∈ session.parsedRoots
              · have hSame : known.toString ∈ (session.withTable table).parsedRoots := hMem
                rw [if_pos hMem, if_pos hSame, unchanged, unchanged]
              · have hSame : known.toString ∉ (session.withTable table).parsedRoots := hMem
                rw [if_neg hMem, if_neg hSame]
                exact congrArg (Except.map some)
                  (parseProject_result_eq (session.withTable table) false false)
      · simp only [hConfig, ne_eq, hLanguage, not_false_eq_true, if_true, unchanged]

end Documents

section Turns

variable {env : Environment} {session : Session} {op : Operation} {root known : Path}

/-- An operation remembers one more root or none. -/
theorem apply_parsedRoots (env : Environment) (session : Session) (op : Operation) :
    (op.apply env session).parsedRoots =
      remember session.parsedRoots (op.remembers? env session) := by
  obtain ⟨found, hFound⟩ := apply_acts env session op
  have hSame : op.apply env session = _ := hFound session.table
  rw [hSame]

/-- An operation that reads a project reports what reading this project reports. -/
theorem result_of_project? {path : Path} (h : op.project? env session = some path) :
    ∃ clear, op.result env session = (session.parseProject env path clear).result.map some := by
  cases op with
  | parseProject asked clear =>
      cases h
      exact ⟨clear, rfl⟩
  | openDocument language asked =>
      refine ⟨false, ?_⟩
      simp only [Operation.project?, documentProject?] at h
      simp only [Operation.result, openDocument]
      cases hText : asked.filter (· ≠ "") with
      | none =>
          rw [hText] at h
          cases h
      | some text =>
          simp only [hText] at h
          simp only
          split at h
          · cases h
          · next hLanguage =>
              rw [if_neg hLanguage]
              split at h
              · next found hFound =>
                  simp only [hFound]
                  split at h
                  · next real hReal =>
                      split at h
                      · cases h
                      · next hNew =>
                          cases h
                          simp only [hReal, if_neg hNew]
                  · cases h
              · cases h
  | parseArchive asked => cases h
  | listFiles asked count => cases h
  | parseFile asked clear => cases h

/-- An operation that completes a project reports no error. -/
theorem clean_of_completes? (h : op.completes? env session = some root) :
    op.Clean env session := by
  obtain ⟨path, hPath, hReadable⟩ := Option.bind_eq_some_iff.mp h
  obtain ⟨clear, hResult⟩ := result_of_project? hPath
  obtain ⟨report, hReport, hOk⟩ := parseProject_of_readable? hReadable clear
  exact ⟨report, by rw [hResult, hReport, Except.map], hOk⟩

/-- Only a report without errors adds a root. -/
theorem parsedRoots_of_not_clean (h : ¬ op.Clean env session) :
    (op.apply env session).parsedRoots = session.parsedRoots := by
  have hNone : op.remembers? env session = none := by
    refine Option.eq_none_iff_forall_ne_some.mpr fun known hKnown => h ?_
    obtain ⟨root, hRoot, -⟩ := remembers?_eq_some hKnown
    exact clean_of_completes? hRoot
  rw [apply_parsedRoots, hNone]
  rfl

/-- An operation that is not clean changes the table only. -/
theorem apply_of_not_clean (h : ¬ op.Clean env session) :
    ∃ table, op.apply env session = session.withTable table := by
  have hRoots := parsedRoots_of_not_clean h
  have hConfig : (op.apply env session).config = session.config := apply_config session op
  refine ⟨(op.apply env session).table, ?_⟩
  generalize op.apply env session = after at hRoots hConfig
  rw [withTable, ← hRoots, ← hConfig]

/-- Roots stay remembered. -/
theorem parsedRoots_subset_play (session : Session) (turns : List Turn) :
    session.parsedRoots ⊆ (play session turns).parsedRoots := by
  induction turns generalizing session with
  | nil => exact List.Subset.refl _
  | cons turn rest ih =>
      intro name hName
      exact ih _ ((mem_parsedRoots_apply session turn.op name).mpr (.inr hName))

/-- A remembered project is not read again. -/
theorem idle_of_remembered (hOpens : op.Opens env session.config.language root)
    (hKnown : env.resolveHome root = .ok known) (hMem : known.toString ∈ session.parsedRoots) :
    op.result env session = .ok none ∧ op.apply env session = session := by
  obtain ⟨text, rfl, hText, hRoot⟩ := hOpens
  have hOutcome := (openDocument_of_root hText hRoot hKnown).trans (if_pos hMem)
  exact ⟨congrArg Outcome.result hOutcome, congrArg Outcome.session hOutcome⟩

/-- A document whose project could not be read can be opened again as if for the first time. -/
theorem result_after_not_clean (hOpens : op.Opens env session.config.language root)
    (h : ¬ op.Clean env session) (later : Environment) :
    op.result later (op.apply env session) = op.result later session := by
  obtain ⟨table, hAfter⟩ := apply_of_not_clean h
  obtain ⟨text, rfl, -⟩ := hOpens
  rw [hAfter]
  exact openDocument_result_withTable table _ _

/-- What a project that was read is remembered by: its root's path is settled twice. -/
theorem remembers?_of_clean (hOpens : op.Opens env session.config.language root)
    (hKnown : env.resolveHome root = .ok known) (hClean : op.Clean env session) :
    known.toString ∉ session.parsedRoots ∧ op.remembers? env session = knownAs? env known := by
  have hNew : known.toString ∉ session.parsedRoots := by
    intro hMem
    obtain ⟨report, hReport, -⟩ := hClean
    rw [(idle_of_remembered hOpens hKnown hMem).1] at hReport
    cases hReport
  refine ⟨hNew, ?_⟩
  obtain ⟨text, rfl, hText, hRoot⟩ := hOpens
  obtain ⟨report, hReport, hOk⟩ := hClean
  obtain ⟨-, hTold⟩ := ends_openDocument env session (some session.config.language) (some text)
  have hCompletes := ((hTold _ hReport).2 report rfl).mp hOk
  obtain ⟨read, hRead⟩ := Option.isSome_iff_exists.mp hCompletes
  obtain ⟨path, hPath, hDirectory, -⟩ := completes?_eq_some hRead
  have hFilter : (some text).filter (· ≠ "") = some text := by simp [Option.filter, hText]
  simp only [Operation.project?, documentProject?, hFilter, hRoot, hKnown, hNew, ne_eq, not_true,
    if_false, Option.some.injEq] at hPath
  subst hPath
  have hSame := resolveHome_of_directory? hDirectory
  rw [hKnown, Except.ok.injEq] at hSame
  rw [Operation.remembers?, hRead, Option.bind_some, hSame]

/-- A document is opened with a proper root. -/
theorem opens_proper (hOpens : op.Opens env session.config.language root) : root.Proper := by
  obtain ⟨text, -, -, hRoot⟩ := hOpens
  exact projectRoot_proper (Path.proper_ofString text) hRoot

/-- A project that was read is remembered by its settled path exactly if that settles to itself. -/
theorem remembered_iff_of_clean (hOpens : op.Opens env session.config.language root)
    (hKnown : env.resolveHome root = .ok known) (hClean : op.Clean env session) :
    known.toString ∈ (op.apply env session).parsedRoots ↔ env.resolveHome known = .ok known := by
  obtain ⟨hNew, hRemembers⟩ := remembers?_of_clean hOpens hKnown hClean
  have hProper := Environment.resolveHome_proper (opens_proper hOpens) hKnown
  rw [mem_parsedRoots_apply, hRemembers]
  simp only [hNew, or_false, knownAs?_eq_some_iff]
  constructor
  · rintro ⟨settled, hSettled, hName⟩
    rwa [Path.toString_injective (Environment.resolveHome_proper hProper hSettled) hProper hName]
      at hSettled
  · intro hSettled
    exact ⟨known, hSettled, rfl⟩

/-- The project of a document is in a directory of the file tree. -/
theorem opens_exists_place (hOpens : op.Opens env session.config.language root) :
    ∃ place, env.find .target root = .ok (.node place .directory) := by
  obtain ⟨text, -, -, hRoot⟩ := hOpens
  obtain ⟨-, -, -, -, -, hHolds, -⟩ := (projectRoot_eq_some_iff hRoot root).mp rfl
  exact hHolds.exists_place

/-- A document is opened with an absolute root. -/
theorem opens_isAbsolute (hOpens : op.Opens env session.config.language root) :
    root.isAbsolute = true := by
  obtain ⟨text, -, -, hRoot⟩ := hOpens
  obtain ⟨real, count, hReal, -, rfl, -⟩ := (projectRoot_eq_some_iff hRoot root).mp rfl
  have hAbsolute : real.isAbsolute = true := Environment.resolveHome_isAbsolute hReal
  exact hAbsolute

/-- The root of a document that was opened without errors has a real form. -/
theorem exists_known_of_clean (hOpens : op.Opens env session.config.language root)
    (hClean : op.Clean env session) : ∃ known, env.resolveHome root = .ok known := by
  obtain ⟨text, rfl, hText, hRoot⟩ := hOpens
  obtain ⟨report, hReport, -⟩ := hClean
  have hFilter : (some text).filter (· ≠ "") = some text := by simp [Option.filter, hText]
  cases hKnown : env.resolveHome root with
  | ok known => exact ⟨known, rfl⟩
  | error failure =>
      simp only [Operation.result, openDocument, hFilter, hRoot, hKnown, ne_eq, not_true, if_false,
        unchanged] at hReport
      cases hReport

/-- In reach of the file tree, a project that was read by a turn is not read by a later one. -/
theorem not_reads_again {first second : Turn} {between : List Turn} {place : Place}
    (hFirst : first.env.tree.InReach) (hSecond : second.env.tree.InReach)
    (hReads : first.Reads session place) :
    ¬ second.Reads (play session (first :: between)) place := by
  rintro ⟨⟨again, hOpens, hPlace⟩, hAgain⟩
  obtain ⟨⟨root, hRoot, hFound⟩, hClean⟩ := hReads
  obtain ⟨known, hKnown⟩ := exists_known_of_clean hRoot hClean
  obtain rfl := Environment.eq_of_resolveHome hFirst (opens_isAbsolute hRoot)
    (opens_proper hRoot) hFound hKnown
  have hSettled := Environment.resolveHome_place hFirst (Environment.find_sound hFound)
  have hMem := (remembered_iff_of_clean hRoot hKnown hClean).mpr hSettled
  obtain ⟨other, hOther⟩ := exists_known_of_clean hOpens hAgain
  obtain rfl := Environment.eq_of_resolveHome hSecond (opens_isAbsolute hOpens)
    (opens_proper hOpens) hPlace hOther
  have hLater := parsedRoots_subset_play (first.op.apply first.env session) between hMem
  obtain ⟨report, hReport, -⟩ := hAgain
  rw [(idle_of_remembered hOpens hOther hLater).1] at hReport
  cases hReport

end Turns

/-- The roots that a session remembers. They are only added, whatever surroundings the operations
meet, and only by a report without errors. The root of a document's project is the nearest directory
above it that holds a root lump. If the root is remembered, then opening the document does nothing.
If the project cannot be read, then opening the document again does what it would have done before;
if it is read, then its root is remembered exactly if the settled path of the root settles to
itself. Where all paths are in reach of the file tree, the project in a directory is read at most
once by opening its documents, under whatever paths. -/
theorem project_read_once (session : Session) :
    (∀ turns, session.parsedRoots ⊆ (play session turns).parsedRoots) ∧
    (∀ env op, ¬ Operation.Clean env session op →
      (op.apply env session).parsedRoots = session.parsedRoots) ∧
    (∀ env path found, projectRoot env path = .ok found →
      ∀ root, found = some root ↔ NearestRoot env path root) ∧
    (∀ env op root, Operation.Opens env session.config.language op root →
      (∃ place, env.find .target root = .ok (.node place .directory)) ∧
      (¬ op.Clean env session →
        ∀ later, op.result later (op.apply env session) = op.result later session) ∧
      ∀ known, env.resolveHome root = .ok known →
        (known.toString ∈ session.parsedRoots →
          op.result env session = .ok none ∧ op.apply env session = session) ∧
        (op.Clean env session →
          (known.toString ∈ (op.apply env session).parsedRoots ↔
            env.resolveHome known = .ok known))) ∧
    ∀ (front between : List Turn) (first second : Turn) (place : Place),
      first.env.tree.InReach → second.env.tree.InReach → first.Reads (play session front) place →
        ¬ second.Reads (play session (front ++ first :: between)) place := by
  refine ⟨parsedRoots_subset_play session, fun env op => parsedRoots_of_not_clean,
    fun env path found => projectRoot_eq_some_iff, ?_, ?_⟩
  · intro env op root hOpens
    refine ⟨opens_exists_place hOpens, result_after_not_clean hOpens, fun known hKnown => ?_⟩
    exact ⟨idle_of_remembered hOpens hKnown, remembered_iff_of_clean hOpens hKnown⟩
  · intro front between first second place hFirst hSecond hReads
    rw [play, List.foldl_append]
    exact not_reads_again hFirst hSecond hReads

/-- Opens another document of the small project, by a path with a detour. -/
def openingBeside : Operation :=
  .openDocument (some "zscript") (some "mod/../mod/b.zs")

/-- Opening a document of a project twice reads the project once. -/
theorem small_project_read_once :
    let first : Turn := ⟨smallProject, openingSmall⟩
    let second : Turn := ⟨smallProject, openingBeside⟩
    let between : List Turn := [⟨smallProject, .parseFile "/other.zs" true⟩]
    let session := start .default .empty
    smallProject.tree.InReach ∧ first.Reads session ["mod"] ∧
      openingBeside.Opens smallProject "zscript" (.ofString "/mod") ∧
      ¬ second.Reads (play session (first :: between)) ["mod"] ∧
      openingBeside.result smallProject (openingSmall.apply smallProject session) = .ok none := by
  intro first second between session
  have hReach : smallProject.tree.InReach :=
    ⟨FileTree.accessible_ofEntries _, by decide +kernel⟩
  have hPlace : smallProject.find .target (.ofString "/mod") = .ok (.node ["mod"] .directory) := by
    decide +kernel
  have hOpens : openingSmall.Opens smallProject "zscript" (.ofString "/mod") :=
    ⟨"/mod/zscript.zs", rfl, by decide, projectRoot_smallProject⟩
  have hBeside : openingBeside.Opens smallProject "zscript" (.ofString "/mod") :=
    ⟨"mod/../mod/b.zs", rfl, by decide, by decide +kernel⟩
  have hClean : openingSmall.Clean smallProject session :=
    clean_of_completes? completes?_openingSmall
  have hReads : first.Reads session ["mod"] := ⟨⟨_, hOpens, hPlace⟩, hClean⟩
  obtain ⟨-, -, -, hOpen, hOnce⟩ := project_read_once session
  have hKnown := ((hOpen _ _ _ hOpens).2.2 _ resolveHome_smallProject).2 hClean
  obtain ⟨-, -, -, hLater, -⟩ := project_read_once (openingSmall.apply smallProject session)
  refine ⟨hReach, hReads, hBeside, hOnce [] between first second _ hReach hReach hReads, ?_⟩
  refine (((hLater _ _ _ ?_).2.2 _ resolveHome_smallProject).1 (hKnown.mpr
    resolveHome_smallProject)).1
  rw [apply_config]
  exact hBeside

end Session

end SignatureIndex
