import SignatureIndex.Environment

/-! The real form of a path: absolute, with every link replaced by what it leads to and every
double dot settled. Names that do not exist are kept. -/
namespace SignatureIndex.Environment

/-- One step back: a double dot after a real path. -/
def stepBack (path : Path) : Path :=
  match path.parts.getLast? with
  | none => if path.isAbsolute then path else ⟨path.start, [".."]⟩
  | some last =>
    if last = ".." then ⟨path.start, path.parts ++ [".."]⟩
    else ⟨path.start, path.parts.dropLast⟩

/-- A path and the names still to come. An empty name before others starts at the root again. -/
def withNames (path : Path) (names : List String) : Path :=
  match names with
  | "" :: _ :: _ => ⟨Path.startOf ("/".intercalate names).toList, names⟩
  | _ => path.below names

/-- Links met so far, each with what it leads to once that is known. -/
abbrev Links := List (Path × Option Path)

/-- The outcome of following names: the path reached, whether no loop was met, and the links. -/
structure Reached where
  path : Path
  complete : Bool
  links : Links

/-- The target of the link at a path, if a link is found there. -/
def linkTarget? (env : Environment) (path : Path) : Except Failure (Option String) :=
  match env.find .name path with
  | .error failure => if failure = .nullCharacter then .error failure else .ok none
  | .ok (.node place (.link target)) => env.unlessRefused place path (.ok (some target))
  | .ok _ => .ok none

/-- Where the target of a link in a directory is followed from. -/
def targetStart (directory : Path) (target : String) : Path :=
  if target.toList.head? = some '/' then ⟨.slash, []⟩ else directory

/-- Follows names from a real path. A link that was not met before is entered with the links met so
far, its own path, and where its target starts and leads. A link whose own target is still being
followed closes a loop; then the names still to come are appended as they are. -/
def followNames (env : Environment)
    (enter : Links → Path → Path → List String → Except Failure Reached) (links : Links)
    (path : Path) : List String → Except Failure Reached
  | [] => .ok ⟨path, true, links⟩
  | name :: rest =>
    if name = "" ∨ name = "." then followNames env enter links path rest
    else if name = ".." then followNames env enter links (stepBack path) rest
    else
      let next := path.below [name]
      match env.linkTarget? next with
      | .error failure => .error failure
      | .ok none => followNames env enter links next rest
      | .ok (some target) =>
        match links.lookup next with
        | some (some reached) => followNames env enter links reached rest
        | some none => .ok ⟨withNames next rest, false, links⟩
        | none =>
          match enter links next (targetStart path target) (FileTree.namesOf target) with
          | .error failure => .error failure
          | .ok inner =>
            if inner.complete then
              followNames env enter ((next, some inner.path) :: inner.links) inner.path rest
            else .ok ⟨withNames inner.path rest, false, inner.links⟩

/-- Follows names from a real path. There is room for so many links inside of one another. -/
def followReal (env : Environment) : Nat → Links → Path → List String → Except Failure Reached
  | 0 => env.followNames fun _ _ _ _ => .error .stackOverflow
  | room + 1 => env.followNames fun links next start names =>
      followReal env room ((next, none) :: links) start names

/-- The path that was reached, in full. Fails if its links go in a circle, or if there is a null
character behind such a circle, where no name was looked for. -/
def settled (env : Environment) (reached : Path) : Except Failure Path :=
  let real := Path.absoluteFrom env.workingPath
    ⟨reached.start, reached.parts.filter fun part => part ≠ "" && part ≠ "."⟩
  match env.find .target real with
  | .error (.file .tooManyLinks text) => .error (.linkLoop text)
  | .error .nullCharacter => .error .nullCharacter
  | _ => .ok real

/-- Where a path is followed from: the root or the working directory. -/
def origin (path : Path) : Path :=
  if path.isAbsolute then ⟨.slash, []⟩ else ⟨.relative, []⟩

/-- The real form of a path, where there is room for so many links inside of one another. -/
def resolveWithin (env : Environment) (room : Nat) (path : Path) : Except Failure Path :=
  match env.followReal room [] (origin path) path.parts with
  | .error failure => .error failure
  | .ok reached => env.settled reached.path

def resolve (env : Environment) (path : Path) : Except Failure Path :=
  env.resolveWithin env.stack.links path

/-- The real form of a path after the home directory is filled in, where there is room for so many
links inside of one another. -/
def resolveHomeWithin (env : Environment) (room : Nat) (path : Path) : Except Failure Path :=
  match env.expandHome path with
  | .error failure => .error failure
  | .ok expanded => env.resolveWithin room expanded

/-- The real form of a path after the home directory is filled in. -/
def resolveHome (env : Environment) (path : Path) : Except Failure Path :=
  env.resolveHomeWithin env.stack.links path

section Room

variable {env : Environment}

/-- Whatever an inner search answers, but for a stack that is used up, the outer search makes of
it. -/
theorem followNames_congr {enter more : Links → Path → Path → List String → Except Failure Reached}
    (hEnter : ∀ links next start names, enter links next start names ≠ .error .stackOverflow →
      more links next start names = enter links next start names)
    {links : Links} {path : Path} {names : List String}
    (h : env.followNames enter links path names ≠ .error .stackOverflow) :
    env.followNames more links path names = env.followNames enter links path names := by
  induction names generalizing links path with
  | nil => rfl
  | cons name rest ih =>
      rw [followNames] at h ⊢
      rw [followNames]
      split
      · next hStay =>
          rw [if_pos hStay] at h
          exact ih h
      · next hStay =>
          rw [if_neg hStay] at h
          split
          · next hUp =>
              rw [if_pos hUp] at h
              exact ih h
          · next hUp =>
              rw [if_neg hUp] at h
              simp only at h ⊢
              cases hTarget : env.linkTarget? (path.below [name]) with
              | error failure => rfl
              | ok target =>
                  rw [hTarget] at h
                  cases target with
                  | none => exact ih h
                  | some target =>
                      simp only at h ⊢
                      cases hKnown : links.lookup (path.below [name]) with
                      | some known =>
                          rw [hKnown] at h
                          cases known with
                          | some reached => exact ih h
                          | none => rfl
                      | none =>
                          simp only [hKnown] at h ⊢
                          generalize targetStart path target = start at h ⊢
                          have hSame : more links (path.below [name]) start
                              (FileTree.namesOf target) =
                              enter links (path.below [name]) start (FileTree.namesOf target) := by
                            refine hEnter _ _ _ _ fun hOver => h ?_
                            rw [hOver]
                          rw [hSame]
                          cases hInner : enter links (path.below [name]) start
                              (FileTree.namesOf target) with
                          | error failure => rfl
                          | ok inner =>
                              rw [hInner] at h
                              simp only at h ⊢
                              by_cases hComplete : inner.complete = true
                              · rw [if_pos hComplete] at h
                                rw [if_pos hComplete, if_pos hComplete]
                                exact ih h
                              · rw [if_neg hComplete, if_neg hComplete]

/-- A step more of room changes nothing once a walk has not run out of it. -/
theorem followReal_succ {room : Nat} {links : Links} {path : Path} {names : List String}
    (h : env.followReal room links path names ≠ .error .stackOverflow) :
    env.followReal (room + 1) links path names = env.followReal room links path names := by
  induction room generalizing links path names with
  | zero => exact followNames_congr (fun _ _ _ _ hNot => absurd rfl hNot) h
  | succ room ih => exact followNames_congr (fun _ _ _ _ hNot => ih hNot) h

/-- More room changes nothing, unless the stack was used up. -/
theorem resolveWithin_of_le {room more : Nat} (hRoom : room ≤ more) {path : Path}
    (h : env.resolveWithin room path ≠ .error .stackOverflow) :
    env.resolveWithin more path = env.resolveWithin room path := by
  induction hRoom with
  | refl => rfl
  | @step more _ ih =>
      rw [← ih] at h ⊢
      unfold resolveWithin at h ⊢
      rw [followReal_succ]
      intro hOver
      rw [hOver] at h
      exact h rfl

/-- What the real form is within less room, it is within the room that the stack has. -/
theorem resolveHome_of_within {room : Nat} (hRoom : room ≤ env.stack.links) {path real : Path}
    (h : env.resolveHomeWithin room path = .ok real) : env.resolveHome path = .ok real := by
  unfold resolveHome
  unfold resolveHomeWithin at h ⊢
  split at h
  · cases h
  · exact (resolveWithin_of_le hRoom (by simp [h])).trans h

end Room

end SignatureIndex.Environment
