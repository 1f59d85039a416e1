import SignatureIndex.Environment.Resolve
import SignatureIndex.Proofs.Path

/-! The walk along the names of a real path, as a relation with one case for each kind of name, and
what follows by induction on it: the real form of a proper path is proper, whatever links lead to.
While names are followed no part holds a slash; empty parts and dots are left out at the end. -/
namespace SignatureIndex.Environment

open Text

/-- What names lead to from a real path, where `enter` goes on from a link that was not met
before. -/
inductive Reaches (env : Environment)
    (enter : Links → Path → Path → List String → Except Failure Reached) :
    Links → Path → List String → Reached → Prop where
  | done (links : Links) (path : Path) : Reaches env enter links path [] ⟨path, true, links⟩
  | stay {links : Links} {path : Path} {name : String} {names : List String} {reached : Reached}
      (hName : name = "" ∨ name = ".") (rest : Reaches env enter links path names reached) :
      Reaches env enter links path (name :: names) reached
  | up {links : Links} {path : Path} {names : List String} {reached : Reached}
      (rest : Reaches env enter links (stepBack path) names reached) :
      Reaches env enter links path (".." :: names) reached
  | plain {links : Links} {path : Path} {name : String} {names : List String} {reached : Reached}
      (hName : name ≠ "" ∧ name ≠ "." ∧ name ≠ "..")
      (hTarget : env.linkTarget? (path.below [name]) = .ok none)
      (rest : Reaches env enter links (path.below [name]) names reached) :
      Reaches env enter links path (name :: names) reached
  | known {links : Links} {path known : Path} {name target : String} {names : List String}
      {reached : Reached} (hName : name ≠ "" ∧ name ≠ "." ∧ name ≠ "..")
      (hTarget : env.linkTarget? (path.below [name]) = .ok (some target))
      (hKnown : links.lookup (path.below [name]) = some (some known))
      (rest : Reaches env enter links known names reached) :
      Reaches env enter links path (name :: names) reached
  | loop {links : Links} {path : Path} {name target : String} {names : List String}
      (hName : name ≠ "" ∧ name ≠ "." ∧ name ≠ "..")
      (hTarget : env.linkTarget? (path.below [name]) = .ok (some target))
      (hPending : links.lookup (path.below [name]) = some none) :
      Reaches env enter links path (name :: names)
        ⟨withNames (path.below [name]) names, false, links⟩
  | entered {links : Links} {path : Path} {name target : String} {names : List String}
      {inner reached : Reached} (hName : name ≠ "" ∧ name ≠ "." ∧ name ≠ "..")
      (hTarget : env.linkTarget? (path.below [name]) = .ok (some target))
      (hNew : links.lookup (path.below [name]) = none)
      (within : enter links (path.below [name]) (targetStart path target)
        (FileTree.namesOf target) = .ok inner)
      (hComplete : inner.complete = true)
      (rest : Reaches env enter ((path.below [name], some inner.path) :: inner.links) inner.path
        names reached) :
      Reaches env enter links path (name :: names) reached
  | stopped {links : Links} {path : Path} {name target : String} {names : List String}
      {inner : Reached} (hName : name ≠ "" ∧ name ≠ "." ∧ name ≠ "..")
      (hTarget : env.linkTarget? (path.below [name]) = .ok (some target))
      (hNew : links.lookup (path.below [name]) = none)
      (within : enter links (path.below [name]) (targetStart path target)
        (FileTree.namesOf target) = .ok inner)
      (hStopped : inner.complete = false) :
      Reaches env enter links path (name :: names)
        ⟨withNames inner.path names, false, inner.links⟩

section Reaches

variable {env : Environment} {enter : Links → Path → Path → List String → Except Failure Reached}
  {links : Links} {path : Path} {names : List String} {reached : Reached}

/-- Every walk along a real path that comes to an end is one of the relation. -/
theorem reaches_of_followNames (h : env.followNames enter links path names = .ok reached) :
    Reaches env enter links path names reached := by
  induction names generalizing links path with
  | nil =>
      cases h
      exact .done links path
  | cons name rest ih =>
      rw [followNames] at h
      split at h
      · next hStay => exact .stay hStay (ih h)
      · next hStay =>
          split at h
          · next hUp =>
              subst hUp
              exact .up (ih h)
          · next hUp =>
              have hName : name ≠ "" ∧ name ≠ "." ∧ name ≠ ".." :=
                ⟨fun hEmpty => hStay (.inl hEmpty), fun hDot => hStay (.inr hDot), hUp⟩
              simp only at h
              split at h
              · cases h
              · next hTarget => exact .plain hName hTarget (ih h)
              · next target hTarget =>
                  split at h
                  · next known hKnown => exact .known hName hTarget hKnown (ih h)
                  · next hPending =>
                      cases h
                      exact .loop hName hTarget hPending
                  · next hNew =>
                      split at h
                      · cases h
                      · next inner hInner =>
                          split at h
                          · next hComplete =>
                              exact .entered hName hTarget hNew hInner hComplete (ih h)
                          · next hStopped =>
                              cases h
                              exact .stopped hName hTarget hNew hInner (by simpa using hStopped)

theorem Reaches.followNames (h : Reaches env enter links path names reached) :
    env.followNames enter links path names = .ok reached := by
  induction h with
  | done => rfl
  | stay hName _ ih =>
      rw [Environment.followNames, if_pos hName]
      exact ih
  | up _ ih => exact ih
  | plain hName hTarget _ ih =>
      rw [Environment.followNames, if_neg (not_or.mpr ⟨hName.1, hName.2.1⟩), if_neg hName.2.2]
      simp only [hTarget, ih]
  | known hName hTarget hKnown _ ih =>
      rw [Environment.followNames, if_neg (not_or.mpr ⟨hName.1, hName.2.1⟩), if_neg hName.2.2]
      simp only [hTarget, hKnown, ih]
  | loop hName hTarget hPending =>
      rw [Environment.followNames, if_neg (not_or.mpr ⟨hName.1, hName.2.1⟩), if_neg hName.2.2]
      simp only [hTarget, hPending]
  | entered hName hTarget hNew within hComplete _ ih =>
      rw [Environment.followNames, if_neg (not_or.mpr ⟨hName.1, hName.2.1⟩), if_neg hName.2.2]
      simp only [hTarget, hNew, within, hComplete, if_true, ih]
  | stopped hName hTarget hNew within hStopped =>
      rw [Environment.followNames, if_neg (not_or.mpr ⟨hName.1, hName.2.1⟩), if_neg hName.2.2]
      simp only [hTarget, hNew, within, hStopped, Bool.false_eq_true, if_false]

end Reaches

/-- No name holds a slash. -/
def SlashFree (names : List String) : Prop :=
  ∀ name ∈ names, '/' ∉ name.toList

/-- Where links lead, no part holds a slash. -/
def LinksFree (links : Links) : Prop :=
  ∀ entry ∈ links, ∀ reached ∈ entry.2, SlashFree reached.parts

/-- What was reached, and where the links lead, has no part that holds a slash. -/
def Reached.Free (reached : Reached) : Prop :=
  SlashFree reached.path.parts ∧ LinksFree reached.links

section Follow

variable {env : Environment}

theorem SlashFree.append {first second : List String} (hFirst : SlashFree first)
    (hSecond : SlashFree second) : SlashFree (first ++ second) :=
  List.forall_mem_append.mpr ⟨hFirst, hSecond⟩

/-- A name without slashes below a path brings no slash. -/
theorem SlashFree.below {path : Path} {name : String} (h : SlashFree path.parts)
    (hName : '/' ∉ name.toList) : SlashFree (path.below [name]).parts :=
  h.append (List.forall_mem_singleton.mpr hName)

theorem slashFree_namesOf (text : String) : SlashFree (FileTree.namesOf text) := by
  intro name hName
  obtain ⟨piece, hPiece, rfl⟩ := List.mem_map.mp hName
  rw [String.toList_ofList]
  exact not_mem_of_mem_splitOn hPiece

theorem slashFree_stepBack {path : Path} (h : SlashFree path.parts) :
    SlashFree (stepBack path).parts := by
  have hDots : SlashFree [".."] := by
    unfold SlashFree
    decide
  unfold stepBack
  split
  · split
    · exact h
    · exact hDots
  · split
    · exact h.append hDots
    · exact fun name hName => h name (List.dropLast_subset _ hName)

theorem slashFree_withNames {path : Path} {names : List String} (h : SlashFree path.parts)
    (hNames : SlashFree names) : SlashFree (withNames path names).parts := by
  unfold withNames
  split
  · exact hNames
  · exact h.append hNames

theorem slashFree_targetStart {path : Path} (h : SlashFree path.parts) (target : String) :
    SlashFree (targetStart path target).parts := by
  unfold targetStart
  split
  · exact fun _ hName => absurd hName List.not_mem_nil
  · exact h

theorem mem_of_lookup {links : Links} {path : Path} {known : Option Path}
    (h : links.lookup path = some known) : (path, known) ∈ links := by
  obtain ⟨before, after, hSplit, -⟩ := List.lookup_eq_some_iff.mp h
  simp [hSplit]

/-- A walk brings no slash into a path, if entering links does not. -/
theorem Reaches.free {enter : Links → Path → Path → List String → Except Failure Reached}
    (hEnter : ∀ links next start names reached, LinksFree links → SlashFree start.parts →
      SlashFree names → enter links next start names = .ok reached → reached.Free)
    {links : Links} {path : Path} {names : List String} {reached : Reached}
    (h : Reaches env enter links path names reached) (hLinks : LinksFree links)
    (hPath : SlashFree path.parts) (hNames : SlashFree names) : reached.Free := by
  have hInner {links : Links} {path : Path} {name target : String} {inner : Reached}
      (within : enter links (path.below [name]) (targetStart path target)
        (FileTree.namesOf target) = .ok inner)
      (hLinks : LinksFree links) (hPath : SlashFree path.parts) : inner.Free :=
    hEnter _ _ _ _ _ hLinks (slashFree_targetStart hPath target) (slashFree_namesOf target) within
  induction h with
  | done => exact ⟨hPath, hLinks⟩
  | stay _ _ ih => exact ih hLinks hPath (List.forall_mem_cons.mp hNames).2
  | up _ ih => exact ih hLinks (slashFree_stepBack hPath) (List.forall_mem_cons.mp hNames).2
  | plain _ _ _ ih =>
      obtain ⟨hName, hRest⟩ := List.forall_mem_cons.mp hNames
      exact ih hLinks (hPath.below hName) hRest
  | known _ _ hKnown _ ih =>
      exact ih hLinks (hLinks _ (mem_of_lookup hKnown) _ rfl) (List.forall_mem_cons.mp hNames).2
  | loop =>
      obtain ⟨hName, hRest⟩ := List.forall_mem_cons.mp hNames
      exact ⟨slashFree_withNames (hPath.below hName) hRest, hLinks⟩
  | entered _ _ _ within _ _ ih =>
      obtain ⟨hReached, hMet⟩ := hInner within hLinks hPath
      refine ih (List.forall_mem_cons.mpr ⟨?_, hMet⟩) hReached (List.forall_mem_cons.mp hNames).2
      intro reached hSame
      cases hSame
      exact hReached
  | stopped _ _ _ within =>
      obtain ⟨hReached, hMet⟩ := hInner within hLinks hPath
      exact ⟨slashFree_withNames hReached (List.forall_mem_cons.mp hNames).2, hMet⟩

/-- No slash gets into a name of a real path, however many links there are. -/
theorem followReal_free (room : Nat) {links : Links} {path : Path} {names : List String}
    {reached : Reached} (hLinks : LinksFree links) (hPath : SlashFree path.parts)
    (hNames : SlashFree names) (h : env.followReal room links path names = .ok reached) :
    reached.Free := by
  induction room generalizing links path names reached with
  | zero =>
      refine (reaches_of_followNames h).free (fun _ _ _ _ _ _ _ _ hNone => ?_) hLinks hPath hNames
      cases hNone
  | succ room ih =>
      refine (reaches_of_followNames h).free ?_ hLinks hPath hNames
      intro links next start names reached hLinks hStart hNames hReached
      refine ih (List.forall_mem_cons.mpr ⟨?_, hLinks⟩) hStart hNames hReached
      intro _ hNone
      cases hNone

end Follow

section Proper

variable {env : Environment} {path real : Path}

theorem workingPath_proper (env : Environment) : env.workingPath.Proper :=
  Path.proper_ofString _

/-- Settling double dots adds no part but double dots. -/
theorem mem_settleDots {absolute : Bool} {kept parts : List String} {part : String}
    (h : part ∈ Path.settleDots absolute kept parts) :
    part = ".." ∨ part ∈ kept ∨ part ∈ parts := by
  induction parts generalizing kept with
  | nil =>
      rw [Path.settleDots, List.mem_reverse] at h
      exact .inr (.inl h)
  | cons first rest ih =>
      rw [Path.settleDots.eq_def] at h
      simp only at h
      split at h
      · split at h
        · rcases ih h with hDots | hKept | hRest
          · exact .inl hDots
          · split at hKept
            · cases hKept
            · exact .inl (List.mem_singleton.mp hKept)
          · exact .inr (.inr (List.mem_cons_of_mem first hRest))
        · next last earlier =>
            split at h
            · rcases ih h with hDots | hKept | hRest
              · exact .inl hDots
              · rcases List.mem_cons.mp hKept with hDots | hKept
                · exact .inl hDots
                · exact .inr (.inl hKept)
              · exact .inr (.inr (List.mem_cons_of_mem first hRest))
            · rcases ih h with hDots | hKept | hRest
              · exact .inl hDots
              · exact .inr (.inl (List.mem_cons_of_mem last hKept))
              · exact .inr (.inr (List.mem_cons_of_mem first hRest))
      · rcases ih h with hDots | hKept | hRest
        · exact .inl hDots
        · rcases List.mem_cons.mp hKept with rfl | hKept
          · exact .inr (.inr List.mem_cons_self)
          · exact .inr (.inl hKept)
        · exact .inr (.inr (List.mem_cons_of_mem first hRest))

/-- A proper path below a proper directory is proper. -/
theorem absoluteFrom_proper {directory : Path} (hDirectory : directory.Proper)
    (hPath : path.Proper) : (Path.absoluteFrom directory path).Proper := by
  intro part hPart
  rcases mem_settleDots hPart with rfl | hNone | hWhole
  · unfold Path.IsPart
    decide
  · cases hNone
  · exact hDirectory.append hPath part hWhole

theorem expandHome_proper (hPath : path.Proper) (h : env.expandHome path = .ok real) :
    real.Proper := by
  unfold expandHome at h
  split at h
  · next first rest =>
      split at h
      · split at h
        · cases h
        · split at h
          · cases h
          · next home hHome =>
              split at h
              · cases h
              · have hBase := Path.proper_ofString (trimHome home)
                rw [← Except.ok.inj h]
                refine List.forall_mem_append.mpr ⟨hBase, ?_⟩
                exact fun part hPart => hPath part (List.mem_cons_of_mem first hPart)
      · cases h
        exact hPath
  · cases h
    exact hPath

/-- A settled path is taken from the working directory, without empty names and dots. -/
theorem settled_eq_ok {reached : Path} (h : env.settled reached = .ok real) :
    real = Path.absoluteFrom env.workingPath
      ⟨reached.start, reached.parts.filter fun part => part ≠ "" && part ≠ "."⟩ := by
  unfold settled at h
  simp only at h
  split at h
  · cases h
  · cases h
  · exact (Except.ok.inj h).symm

theorem settled_proper {reached : Path} (hFree : SlashFree reached.parts)
    (h : env.settled reached = .ok real) : real.Proper := by
  rw [settled_eq_ok h]
  -- empty parts and dots were left out, so what was reached is proper
  refine absoluteFrom_proper env.workingPath_proper fun part hPart => ?_
  obtain ⟨hMem, hKept⟩ := List.mem_filter.mp hPart
  simp only [Bool.and_eq_true, decide_eq_true_eq] at hKept
  exact ⟨hKept.1, hKept.2, hFree part hMem⟩

/-- The real form of a proper path is proper. -/
theorem resolve_proper (hPath : path.Proper) (h : env.resolve path = .ok real) : real.Proper := by
  unfold resolve resolveWithin at h
  split at h
  · cases h
  · next reached hReached =>
      have hFree : reached.Free := by
        refine followReal_free _ ?_ ?_ (fun part hPart => (hPath part hPart).2.2) hReached
        · exact fun _ hLink => absurd hLink List.not_mem_nil
        · unfold origin
          split
          all_goals exact fun _ hPart => absurd hPart List.not_mem_nil
      exact settled_proper hFree.1 h

/-- The real form of a proper path is proper. -/
theorem resolveHome_proper (hPath : path.Proper) (h : env.resolveHome path = .ok real) :
    real.Proper := by
  unfold resolveHome resolveHomeWithin at h
  split at h
  · cases h
  · next expanded hExpanded => exact resolve_proper (expandHome_proper hPath hExpanded) h

theorem workingPath_isAbsolute (env : Environment) : env.workingPath.isAbsolute = true := by
  unfold workingPath Path.ofString Path.isAbsolute
  rw [String.toList_append]
  change decide (Path.startOf ('/' :: _) ≠ .relative) = true
  unfold Path.startOf
  split <;> simp_all

/-- The real form of a path is absolute. -/
theorem resolve_isAbsolute (h : env.resolve path = .ok real) : real.isAbsolute = true := by
  unfold resolve resolveWithin at h
  split at h
  · cases h
  · rw [settled_eq_ok h]
    unfold Path.absoluteFrom Path.append
    split
    · next hOther => exact hOther
    · exact env.workingPath_isAbsolute

theorem resolveHome_isAbsolute (h : env.resolveHome path = .ok real) : real.isAbsolute = true := by
  unfold resolveHome resolveHomeWithin at h
  split at h
  · cases h
  · exact resolve_isAbsolute h

end Proper

end SignatureIndex.Environment
