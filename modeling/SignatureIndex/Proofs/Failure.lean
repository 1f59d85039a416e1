import SignatureIndex.Archive
import SignatureIndex.Proofs.Pass

/-! Which failures a computation can end with. A path can lead to an unknown home directory, hold a
null character, run in a circle of links, use up the stack or be refused by the file tree. An
archive can be faulty, and four kinds of faults are not among those that an archive's own failures
cover. -/
namespace SignatureIndex

/-- A computation can only fail in certain ways. -/
def FailsOnly {ε α : Type} (allowed : ε → Prop) (result : Except ε α) : Prop :=
  ∀ failure, result = .error failure → allowed failure

namespace FailsOnly

variable {ε α β : Type} {allowed more : ε → Prop} {result : Except ε α}

theorem ok (value : α) : FailsOnly allowed (.ok value : Except ε α) := by
  intro failure h
  cases h

theorem error {failure : ε} (h : allowed failure) :
    FailsOnly allowed (.error failure : Except ε α) := by
  intro other hOther
  cases hOther
  exact h

theorem mono (h : FailsOnly allowed result) (hMore : ∀ failure, allowed failure → more failure) :
    FailsOnly more result :=
  fun failure hFailure => hMore failure (h failure hFailure)

/-- A sequence fails only as its steps do. -/
theorem bind {next : α → Except ε β} (h : FailsOnly allowed result)
    (hNext : ∀ value, FailsOnly allowed (next value)) : FailsOnly allowed (result >>= next) := by
  cases result with
  | error failure => exact .error (h failure rfl)
  | ok value => exact hNext value

theorem map (f : α → β) (h : FailsOnly allowed result) : FailsOnly allowed (result.map f) := by
  cases result with
  | error failure => exact .error (h failure rfl)
  | ok value => exact .ok (f value)

/-- A check that ends a computation with a failure of its own. -/
theorem guard {condition : Prop} [Decidable condition] {failure : ε} {next : PUnit → Except ε α}
    (hFailure : allowed failure) (hNext : FailsOnly allowed (next ⟨⟩)) :
    FailsOnly allowed (if condition then .error failure >>= next else next ⟨⟩) := by
  split
  · exact .error hFailure
  · exact hNext

end FailsOnly

namespace FileTree

variable {tree : FileTree} {ending : Ending}

/-- What a lookup can be refused for. -/
def LookupError (ending : Ending) : FileError → Prop
  | .notFound | .notDirectory | .nameTooLong | .tooManyLinks | .refused _ => True
  | .isDirectory => ending = .creation
  | _ => False

/-- Going along names fails as a lookup may, if entering links does. -/
theorem followNames_failsOnly {enter : Place → List String → Except FileError Found}
    (hEnter : ∀ start names, FailsOnly (LookupError ending) (enter start names))
    (directory : Place) (names : List String) :
    FailsOnly (LookupError ending) (tree.followNames ending enter directory names) := by
  induction names generalizing directory with
  | nil => exact .ok _
  | cons name rest ih =>
      rw [followNames]
      split
      · exact ih directory
      · split
        · exact .error trivial
        · split
          · exact ih directory
          · split
            · exact ih directory.dropLast
            · split
              · next hSlash => exact .error hSlash.1
              · split
                · exact .error trivial
                · simp only
                  split
                  · split
                    · exact .ok _
                    · exact .error trivial
                  · exact ih _
                  · split
                    · exact .ok _
                    · exact .error trivial
                  · split
                    · exact .ok _
                    · exact hEnter _ _

/-- Looking up names fails in the ways of a lookup, whatever links there are. -/
theorem follow_failsOnly (links : Nat) (directory : Place) (names : List String) :
    FailsOnly (LookupError ending) (tree.follow ending links directory names) := by
  induction links generalizing directory names with
  | zero =>
      have hLinks : LookupError ending .tooManyLinks := trivial
      exact followNames_failsOnly (fun _ _ => .error hLinks) directory names
  | succ links ih => exact followNames_failsOnly ih directory names

theorem find_failsOnly (working : Place) (path : String) :
    FailsOnly (LookupError ending) (tree.find working ending path) := by
  unfold find
  split
  · exact .error trivial
  · exact follow_failsOnly _ _ _

end FileTree

namespace Environment

open FileTree (LookupError)

variable (env : Environment)

/-- What can go wrong with one path. -/
def PathFailure : Failure → Prop
  | .nullCharacter | .unknownHome | .linkLoop _ | .stackOverflow | .file _ _ => True
  | _ => False

/-- What can go wrong when the real form of a path is looked for. -/
def SettleFailure : Failure → Prop
  | .nullCharacter | .unknownHome | .linkLoop _ | .stackOverflow | .file (.refused _) _ => True
  | _ => False

/-- The errors of a lookup that do not mean that nothing is there. -/
def Withholds : FileError → Prop
  | .nameTooLong | .refused _ => True
  | _ => False

theorem SettleFailure.pathFailure {failure : Failure} (h : SettleFailure failure) :
    PathFailure failure := by
  cases failure with
  | nullCharacter | unknownHome | linkLoop text | stackOverflow | file error path => trivial
  | _ => cases h

/-- Looking up a path also fails for a null character, and tells the path otherwise. -/
theorem find_failsOnly (ending : FileTree.Ending) (path : Path) :
    FailsOnly (fun failure => failure = .nullCharacter ∨
      ∃ error, LookupError ending error ∧ failure = .file error path.toString)
      (env.find ending path) := by
  unfold find findText
  split
  · exact .error (.inl rfl)
  · split
    · exact .ok _
    · next error hError =>
        exact .error (.inr ⟨error, FileTree.find_failsOnly _ _ _ hError, rfl⟩)

/-- A test on a path fails as the lookup does, unless that means that nothing is there. -/
theorem holds_eq_error_iff {test : Node → Bool} {path : Path} {failure : Failure} :
    env.holds .target test path = .error failure ↔
      env.find .target path = .error failure ∧ meansAbsent failure = false := by
  unfold holds
  cases env.find .target path with
  | ok found => cases found <;> simp
  | error other =>
      cases hAbsent : meansAbsent other with
      | true =>
          simp only [hAbsent, if_true, reduceCtorEq, Except.error.injEq, false_iff, not_and]
          rintro rfl
          simp [hAbsent]
      | false =>
          simp only [hAbsent, Bool.false_eq_true, if_false, Except.error.injEq]
          constructor
          · rintro rfl
            exact ⟨rfl, hAbsent⟩
          · exact And.left

/-- A test on a path fails only over a name that is too long, or over a refused access. -/
theorem holds_failsOnly (test : Node → Bool) (path : Path) :
    FailsOnly (fun failure => ∃ error, Withholds error ∧ failure = .file error path.toString)
      (env.holds .target test path) := by
  intro failure h
  obtain ⟨hFind, hAbsent⟩ := env.holds_eq_error_iff.mp h
  rcases env.find_failsOnly .target path _ hFind with rfl | ⟨error, hError, rfl⟩
  · cases hAbsent
  · refine ⟨error, ?_, rfl⟩
    cases error with
    | nameTooLong | refused refusal => trivial
    | notFound | notDirectory | tooManyLinks => cases hAbsent
    | isDirectory | alreadyExists | invalidArgument => cases hError

theorem unlessRefused_failsOnly {α : Type} {allowed : Failure → Prop} {place : Place} {path : Path}
    {result : Except Failure α} (h : FailsOnly allowed result)
    (hRefused : ∀ refusal, allowed (.file (.refused refusal) path.toString)) :
    FailsOnly allowed (env.unlessRefused place path result) := by
  unfold unlessRefused
  split
  · exact .error (hRefused _)
  · exact h

/-- Listing a directory fails for its path or as the file tree refuses it. -/
theorem names_failsOnly (path : Path) :
    FailsOnly (fun failure => failure = .nullCharacter ∨ failure.isFile) (env.names path) := by
  refine .map _ ?_
  unfold listed
  split
  · next failure hFailure =>
      rcases env.find_failsOnly .target path _ hFailure with rfl | ⟨error, -, rfl⟩
      · exact .error (.inl rfl)
      · exact .error (.inr rfl)
  · exact .error (.inr rfl)
  · exact env.unlessRefused_failsOnly (.ok _) fun _ => .inr rfl
  · exact .error (.inr rfl)

/-- Reading a file fails for its path or as the file tree refuses it. -/
theorem readBytes_failsOnly (path : Path) :
    FailsOnly (fun failure => failure = .nullCharacter ∨ failure.isFile) (env.readBytes path) := by
  unfold readBytes
  split
  · next failure hFailure =>
      rcases env.find_failsOnly .target path _ hFailure with rfl | ⟨error, -, rfl⟩
      · exact .error (.inl rfl)
      · exact .error (.inr rfl)
  · exact .error (.inr rfl)
  · exact env.unlessRefused_failsOnly (.ok _) fun _ => .inr rfl
  · exact env.unlessRefused_failsOnly (.error (.inr rfl)) fun _ => .inr rfl

/-- What is a file can be read, unless that is refused. -/
theorem readBytes_of_isFile {path : Path} (h : env.isFile path = .ok true) :
    FailsOnly (fun failure => ∃ refusal, failure = .file (.refused refusal) path.toString)
      (env.readBytes path) := by
  unfold isFile holds at h
  unfold readBytes
  split at h
  · next place node hFind =>
      cases node with
      | file bytes =>
          rw [hFind]
          exact env.unlessRefused_failsOnly (.ok _) fun refusal => ⟨refusal, rfl⟩
      | link target => cases h
      | directory => cases h
  · cases h
  · split at h
    · cases h
    · cases h

/-- Only a null character or an unknown user makes a home directory fail. -/
theorem expandHome_failsOnly (path : Path) :
    FailsOnly (fun failure => failure = .nullCharacter ∨ failure = .unknownHome)
      (env.expandHome path) := by
  unfold expandHome
  split
  · split
    · split
      · exact .error (.inl rfl)
      · split
        · exact .error (.inr rfl)
        · split
          · exact .error (.inr rfl)
          · exact .ok _
    · exact .ok _
  · exact .ok _

theorem linkTarget?_failsOnly (path : Path) :
    FailsOnly SettleFailure (env.linkTarget? path) := by
  unfold linkTarget?
  split
  · split
    · next hNull =>
        subst hNull
        exact .error trivial
    · exact .ok _
  · exact env.unlessRefused_failsOnly (.ok _) fun _ => trivial
  · exact .ok _

/-- Going along the names of a real path fails as settling may, if entering links does. -/
theorem followNames_failsOnly
    {enter : Links → Path → Path → List String → Except Failure Reached}
    (hEnter : ∀ links next start names,
      FailsOnly SettleFailure (enter links next start names))
    (links : Links) (path : Path) (names : List String) :
    FailsOnly SettleFailure (env.followNames enter links path names) := by
  induction names generalizing links path with
  | nil => exact .ok _
  | cons name rest ih =>
      rw [followNames]
      split
      · exact ih links path
      · split
        · exact ih links (stepBack path)
        · simp only
          split
          · next failure hFailure => exact .error (env.linkTarget?_failsOnly _ _ hFailure)
          · exact ih links _
          · split
            · exact ih links _
            · exact .ok _
            · split
              · next failure hFailure => exact .error (hEnter _ _ _ _ _ hFailure)
              · split
                · exact ih _ _
                · exact .ok _

/-- Following a real path fails in the ways of settling a path. -/
theorem followReal_failsOnly (room : Nat) (links : Links) (path : Path) (names : List String) :
    FailsOnly SettleFailure (env.followReal room links path names) := by
  induction room generalizing links path names with
  | zero =>
      have hOver : SettleFailure .stackOverflow := trivial
      exact env.followNames_failsOnly (fun _ _ _ _ => .error hOver) links path names
  | succ room ih =>
      exact env.followNames_failsOnly (fun _ _ _ _ => ih _ _ _) links path names

theorem resolveWithin_failsOnly (room : Nat) (path : Path) :
    FailsOnly SettleFailure (env.resolveWithin room path) := by
  unfold resolveWithin settled
  split
  · next failure hFailure => exact .error (env.followReal_failsOnly _ _ _ _ _ hFailure)
  · simp only
    split
    · exact .error trivial
    · exact .error trivial
    · exact .ok _

/-- The real form of a path is not missed for what the file tree holds there, unless the tree
refuses to tell. -/
theorem resolveHomeWithin_failsOnly (room : Nat) (path : Path) :
    FailsOnly SettleFailure (env.resolveHomeWithin room path) := by
  unfold resolveHomeWithin
  split
  · next failure hFailure =>
      rcases env.expandHome_failsOnly _ _ hFailure with rfl | rfl
      · exact .error trivial
      · exact .error trivial
  · exact env.resolveWithin_failsOnly room _

/-- The real form of a path fails in the ways of settling a path. -/
theorem resolveHome_failsOnly (path : Path) : FailsOnly SettleFailure (env.resolveHome path) :=
  env.resolveHomeWithin_failsOnly _ path

end Environment

namespace Project

open Environment (PathFailure SettleFailure Withholds)

variable (env : Environment)

/-- What can go wrong when files are looked for. -/
def SearchFailure (failure : Failure) : Prop :=
  failure = .nullCharacter ∨ ∃ error path, Withholds error ∧ failure = .file error path

theorem filterM?_failsOnly {α : Type} {allowed : Failure → Prop} {test : α → Except Failure Bool}
    (hTest : ∀ item, FailsOnly allowed (test item)) (items : List α) :
    FailsOnly allowed (filterM? test items) := by
  induction items with
  | nil => exact .ok _
  | cons item rest ih =>
      rw [filterM?]
      split
      · next failure hFailure => exact .error (hTest item failure hFailure)
      · split
        · next failure hFailure => exact .error (ih failure hFailure)
        · exact .ok _

theorem holds_searchFailure (test : Node → Bool) (path : Path) :
    FailsOnly SearchFailure (env.holds .target test path) :=
  (env.holds_failsOnly test path).mono fun _ ⟨error, hError, hFailure⟩ =>
    .inr ⟨error, _, hError, hFailure⟩

/-- Looking for root lumps fails only as a search for files does. -/
theorem rootLumps_failsOnly (directory : Path) :
    FailsOnly SearchFailure (rootLumps env directory) := by
  unfold rootLumps
  split
  · next failure hFailure =>
      split
      · exact .ok _
      · next hOther =>
          exact .error (.inl ((env.names_failsOnly _ _ hFailure).resolve_right hOther))
  · exact filterM?_failsOnly (holds_searchFailure env _) _

theorem walk_failsOnly (current : Path) (parts : List String) :
    FailsOnly SearchFailure (walk env current parts) := by
  induction parts generalizing current with
  | nil => exact .ok _
  | cons part rest ih =>
      rw [walk]
      split
      · exact ih _
      · simp only
        split
        · next failure hFailure => exact .error (holds_searchFailure env _ _ _ hFailure)
        · exact ih _
        · split
          · next failure hFailure =>
              split
              · exact .ok _
              · next hOther =>
                  exact .error (.inl ((env.names_failsOnly _ _ hFailure).resolve_right hOther))
          · split
            · exact .ok _
            · exact ih _

theorem fileBelow?_failsOnly (base : Path) (relative : String) :
    FailsOnly SearchFailure (fileBelow? env base relative) := by
  unfold fileBelow?
  split
  · next failure hFailure => exact .error (walk_failsOnly env _ _ _ hFailure)
  · exact .ok _
  · split
    · next failure hFailure => exact .error (holds_searchFailure env _ _ _ hFailure)
    · exact .ok _

/-- Looking for the file of a task fails only as a search for files does. -/
theorem Task.path?_failsOnly (root : Path) (task : Task) :
    FailsOnly SearchFailure (task.path? env root) := by
  cases task with
  | read path => exact .ok _
  | follow depth including target =>
      change FailsOnly SearchFailure (resolveInclude env root including target)
      unfold resolveInclude
      split
      · next failure hFailure => exact .error (fileBelow?_failsOnly env _ _ _ hFailure)
      · exact .ok _
      · exact fileBelow?_failsOnly env _ _

theorem SearchFailure.pathFailure {failure : Failure} (h : SearchFailure failure) :
    PathFailure failure := by
  rcases h with rfl | ⟨error, path, -, rfl⟩
  · trivial
  · trivial

theorem Task.realPath_failsOnly (task : Task) (path : Path) :
    FailsOnly SettleFailure (task.realPath env path) := by
  unfold Task.realPath
  split
  · exact .error trivial
  · exact env.resolveHomeWithin_failsOnly _ path

/-- What ends a pass early is a failure of some path. -/
theorem Fails.pathFailure {root : Path} {moment : Moment} {final : Pass} {failure : Failure}
    (h : Fails env root moment final failure) : PathFailure failure := by
  cases h with
  | find hPath => exact (Task.path?_failsOnly env root _ _ hPath).pathFailure
  | resolve hPath hReal => exact (Task.realPath_failsOnly env _ _ _ hReal).pathFailure
  | read hPath hReal hNew hRead =>
      rcases (env.readBytes_failsOnly _).map _ _ hRead with rfl | hFile
      · trivial
      · cases failure with
        | file error path => trivial
        | _ => cases hFile

/-- A run from any moment ends early only for a failure of some path. -/
theorem run_pathFailure (root : Path) {failure : Failure} (moment : Moment)
    (h : (run env root moment.1 moment.2).2 = some failure) : PathFailure failure := by
  induction moment using (step_wellFounded env root).induction with
  | h moment ih =>
      obtain ⟨pass, tasks⟩ := moment
      cases tasks with
      | nil =>
          rw [run] at h
          cases h
      | cons task rest =>
          rcases step_or_fails env root pass task rest with ⟨later, hStep⟩ | ⟨_, _, hFails⟩
          · rw [run_eq_of_step hStep] at h
            exact ih later hStep h
          · rw [run_eq_of_fails hFails] at h
            cases h
            exact hFails.pathFailure

/-- A pass over a project ends early only for a failure of some path. -/
theorem parse_pathFailure {root : Path} {table : Table} {visited : List Place} {failure : Failure}
    (h : (parse env root table visited).2 = some failure) : PathFailure failure := by
  unfold parse at h
  simp only at h
  split at h
  · next hLumps =>
      cases h
      exact (rootLumps_failsOnly env root _ hLumps).pathFailure
  · next lumps hLumps =>
      split at h
      · next final other hRun =>
          cases h
          refine run_pathFailure env root (.initial table visited, lumps.map .read) ?_
          rw [hRun]
      · cases h

end Project

namespace Archive

/-- What can go wrong when an archive is opened. -/
def OpeningFailure : Failure → Prop
  | .archiveOpening _ _ | .nullCharacter | .undecodable | .archiveVersion _ => True
  | _ => False

/-- What can go wrong when an entry is read. -/
def EntryFailure : Failure → Prop
  | .archiveEntry _ _ | .archiveOffset | .undecodable | .archiveData _ => True
  | _ => False

theorem nameText_failsOnly (flags : Nat) (bytes : List UInt8) :
    FailsOnly (· = .undecodable) (nameText flags bytes) := by
  unfold nameText
  split
  · split
    · exact .ok _
    · exact .error rfl
  · exact .ok _

theorem opening_failsOnly {α : Type} (path : String) (result : Except ArchiveFault α) :
    FailsOnly OpeningFailure (opening path result) := by
  cases result with
  | error fault => exact .error trivial
  | ok value => exact .ok value

theorem readHeader_failsOnly (path : String) (moved : Int) (data : List UInt8) :
    FailsOnly OpeningFailure (readHeader path moved data) := by
  unfold readHeader
  refine .guard trivial <| .guard trivial ?_
  refine .bind ((nameText_failsOnly _ _).mono ?_) fun fullName => .guard trivial ?_
  · rintro _ rfl
    trivial
  · exact .bind (opening_failsOnly _ _) fun extent => .ok _

theorem readHeaders_failsOnly (path : String) (moved : Int) (size bound taken : Nat)
    (data : List UInt8) :
    FailsOnly OpeningFailure (readHeaders path moved size bound taken data) := by
  induction bound generalizing taken data with
  | zero => exact .ok _
  | succ bound ih =>
      rw [readHeaders]
      split
      · exact .ok _
      · split
        · next failure hFailure => exact .error (readHeader_failsOnly _ _ _ _ hFailure)
        · exact .map _ (ih _ _)

/-- The directory of an archive fails only as opening an archive may. -/
theorem readDirectory_failsOnly (path : String) (bytes : List UInt8) :
    FailsOnly OpeningFailure (readDirectory path bytes) := by
  unfold readDirectory
  refine .bind (opening_failsOnly _ _) fun record => .guard trivial ?_
  exact .bind (readHeaders_failsOnly _ _ _ _ _ _) fun headers => .ok _

/-- Opening an archive fails in the ways that are listed. -/
theorem ofFile_failsOnly (env : Environment) (path : Path) :
    FailsOnly OpeningFailure (ofFile env path) := by
  unfold ofFile
  split
  · exact .error trivial
  · next failure hOther hFailure =>
      rcases env.readBytes_failsOnly _ _ hFailure with rfl | hFile
      · exact .error trivial
      · cases failure with
        | file error text => exact absurd rfl (hOther error text)
        | _ => cases hFile
  · exact .map _ (readDirectory_failsOnly _ _)

theorem locateData_failsOnly (bytes : List UInt8) (header : Header) :
    FailsOnly EntryFailure (locateData bytes header) := by
  unfold locateData failEntry
  refine .guard trivial <| .guard trivial <| .guard trivial <| .guard trivial <| .guard trivial <|
    .guard trivial ?_
  refine .bind ((nameText_failsOnly _ _).mono ?_) fun text => ?_
  · rintro _ rfl
    trivial
  · exact .guard trivial <| .guard trivial <| .guard trivial (.ok _)

/-- Expanding an entry fails only as reading an entry may. -/
theorem expand_failsOnly (header : Header) (data : List UInt8) :
    FailsOnly EntryFailure (expand header data) := by
  unfold expand failEntry
  split
  · exact .ok _
  · split
    · split
      · exact .ok _
      · exact .error trivial
    · split
      · split
        · exact .ok _
        · exact .error trivial
      · split
        · split
          · exact .ok _
          · exact .error trivial
        · exact .error trivial

/-- Reading an entry as text fails in the ways that are listed. -/
theorem readEntryText_failsOnly (bytes : List UInt8) (header : Header) :
    FailsOnly EntryFailure (readEntryText bytes header) := by
  unfold readEntryText
  refine .map _ ?_
  unfold readEntry
  split
  · next failure hFailure => exact .error (locateData_failsOnly _ _ _ hFailure)
  · split
    · next failure hFailure => exact .error (expand_failsOnly _ _ _ hFailure)
    · simp only
      split
      · exact .ok _
      · exact .error trivial

/-- Whatever ends the way through entries is a failure to read one. -/
theorem mem_visitsOf_failed {bytes : List UInt8} {selection : Selection} {headers : List Header}
    {failure : Failure} (h : .failed failure ∈ visitsOf bytes selection headers) :
    EntryFailure failure := by
  induction headers with
  | nil => cases h
  | cons header rest ih =>
      rw [visitsOf] at h
      split at h
      · exact ih h
      · split at h
        · rcases List.mem_cons.mp h with hSkipped | hRest
          · cases hSkipped
          · exact ih hRest
        · split at h
          · next other hOther =>
              cases List.mem_singleton.mp h
              exact readEntryText_failsOnly _ _ _ hOther
          · rcases List.mem_cons.mp h with hScript | hRest
            · cases hScript
            · exact ih hRest

end Archive

end SignatureIndex
