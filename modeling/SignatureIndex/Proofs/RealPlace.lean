import SignatureIndex.Proofs.Descent
import SignatureIndex.Proofs.Resolve

/-! The real form of a path that leads to a directory. A path is followed in two ways. The file tree
goes through its names and replaces every link by its target, up to a number of links. The real form
is found by looking at one path without links after the other, from the root or from the working
directory, with the links that were met kept in mind, and a link that is met inside its own target
counts as a loop. If every place of the tree has a path that can be looked at, and the path that is
followed leaves room for the targets of the links, both ways end at the same place. Then a directory
has one real form, whatever path leads to it, and that is its own real form; and the names of what
stands below the directory are kept. -/
namespace SignatureIndex

open Text

namespace FileTree

/-- Names lead from a directory to another one, through so many links. -/
inductive Leads (tree : FileTree) : Nat → Place → List String → Place → Prop where
  | done (directory : Place) : Leads tree 0 directory [] directory
  | stay {count : Nat} {directory final : Place} {name : String} {names : List String}
      (hName : name = "" ∨ name = ".") (rest : Leads tree count directory names final) :
      Leads tree count directory (name :: names) final
  | up {count : Nat} {directory final : Place} {names : List String}
      (rest : Leads tree count directory.dropLast names final) :
      Leads tree count directory (".." :: names) final
  | down {count : Nat} {directory final : Place} {name : String} {names : List String}
      (hNode : tree.at? (directory ++ [name]) = some .directory)
      (rest : Leads tree count (directory ++ [name]) names final) :
      Leads tree count directory (name :: names) final
  | link {inner count : Nat} {directory reached final : Place} {name target : String}
      {names : List String} (hNode : tree.at? (directory ++ [name]) = some (.link target))
      (within : Leads tree inner (linkStart directory target) (namesOf target) reached)
      (rest : Leads tree count reached names final) :
      Leads tree (inner + count + 1) directory (name :: names) final

section Leads

variable {tree : FileTree} {count other : Nat} {directory final : Place} {name : String}
  {names : List String} {node : Node}

theorem isName_child (h : tree.at? (directory ++ [name]) = some node) : IsName name :=
  isName_of_at? h name (by simp)

/-- Empty names and single dots lead nowhere else. -/
theorem leads_stay (hName : name = "" ∨ name = ".") :
    Leads tree count directory (name :: names) final ↔ Leads tree count directory names final := by
  refine ⟨fun h => ?_, .stay hName⟩
  cases h with
  | stay _ rest => exact rest
  | up => simp at hName
  | down hNode | link hNode =>
      have hOther := (isName_child hNode).ne_dots
      exact absurd hName (not_or.mpr ⟨hOther.1, hOther.2.1⟩)

theorem leads_up :
    Leads tree count directory (".." :: names) final ↔
      Leads tree count directory.dropLast names final := by
  refine ⟨fun h => ?_, .up⟩
  cases h with
  | stay hName => simp at hName
  | up rest => exact rest
  | down hNode | link hNode => exact absurd rfl (isName_child hNode).notUp

theorem leads_down (hNode : tree.at? (directory ++ [name]) = some .directory) :
    Leads tree count directory (name :: names) final ↔
      Leads tree count (directory ++ [name]) names final := by
  obtain ⟨hEmpty, hDot, hUp⟩ := (isName_child hNode).ne_dots
  refine ⟨fun h => ?_, .down hNode⟩
  cases h with
  | stay hOther => exact absurd hOther (not_or.mpr ⟨hEmpty, hDot⟩)
  | up => exact absurd rfl hUp
  | down _ rest => exact rest
  | link hOther =>
      rw [hNode] at hOther
      cases hOther

/-- Through a link, names lead on from where its target leads. -/
theorem exists_of_leads_link {target : String}
    (hNode : tree.at? (directory ++ [name]) = some (.link target))
    (h : Leads tree count directory (name :: names) final) :
    ∃ inner outer reached, Leads tree inner (linkStart directory target) (namesOf target) reached ∧
      Leads tree outer reached names final ∧ count = inner + outer + 1 := by
  obtain ⟨hEmpty, hDot, hUp⟩ := (isName_child hNode).ne_dots
  cases h with
  | stay hOther => exact absurd hOther (not_or.mpr ⟨hEmpty, hDot⟩)
  | up => exact absurd rfl hUp
  | down hOther =>
      rw [hNode] at hOther
      cases hOther
  | link hSame within rest =>
      rw [hNode] at hSame
      cases hSame
      exact ⟨_, _, _, within, rest, rfl⟩

/-- Names lead to one place only, through one number of links. -/
theorem Leads.unique {final' : Place} (h : Leads tree count directory names final)
    (h' : Leads tree other directory names final') : count = other ∧ final = final' := by
  induction h generalizing other final' with
  | done directory =>
      cases h'
      exact ⟨rfl, rfl⟩
  | stay hName _ ih => exact ih ((leads_stay hName).mp h')
  | up _ ih => exact ih (leads_up.mp h')
  | down hNode _ ih => exact ih ((leads_down hNode).mp h')
  | link hNode _ _ ihWithin ihRest =>
      obtain ⟨inner, outer, reached, hWithin, hRest, rfl⟩ := exists_of_leads_link hNode h'
      obtain ⟨rfl, rfl⟩ := ihWithin hWithin
      obtain ⟨rfl, rfl⟩ := ihRest hRest
      exact ⟨rfl, rfl⟩

/-- Where one way ends another one can begin. -/
theorem Leads.append {middle : Place} {more : List String}
    (h : Leads tree count directory names middle) (h' : Leads tree other middle more final) :
    Leads tree (count + other) directory (names ++ more) final := by
  induction h with
  | done => simpa using h'
  | stay hName _ ih => exact .stay hName (ih h')
  | up _ ih => exact .up (ih h')
  | down hNode _ ih => exact .down hNode (ih h')
  | @link inner count _ _ _ _ _ _ hNode within _ _ ih =>
      have hCount : inner + (count + other) + 1 = inner + count + 1 + other := by omega
      exact hCount ▸ .link hNode within (ih h')

/-- A way along names can be parted anywhere, with the links that it takes. -/
theorem Leads.split {front back : List String}
    (h : Leads tree count directory (front ++ back) final) :
    ∃ first second middle, Leads tree first directory front middle ∧
      Leads tree second middle back final ∧ first + second = count := by
  induction front generalizing count directory with
  | nil => exact ⟨0, count, directory, .done directory, h, Nat.zero_add count⟩
  | cons name front ih =>
      cases h with
      | stay hName rest =>
          obtain ⟨first, second, middle, hFront, hBack, hCount⟩ := ih rest
          exact ⟨first, second, middle, .stay hName hFront, hBack, hCount⟩
      | up rest =>
          obtain ⟨first, second, middle, hFront, hBack, hCount⟩ := ih rest
          exact ⟨first, second, middle, .up hFront, hBack, hCount⟩
      | down hNode rest =>
          obtain ⟨first, second, middle, hFront, hBack, hCount⟩ := ih rest
          exact ⟨first, second, middle, .down hNode hFront, hBack, hCount⟩
      | link hNode within rest =>
          obtain ⟨first, second, middle, hFront, hBack, hCount⟩ := ih rest
          exact ⟨_, second, middle, .link hNode within hFront, hBack, by omega⟩

/-- What names lead to from a directory is a directory. -/
theorem Leads.at? (h : Leads tree count directory names final)
    (hDirectory : tree.at? directory = some .directory) : tree.at? final = some .directory := by
  induction h with
  | done => exact hDirectory
  | stay _ _ ih => exact ih hDirectory
  | up _ ih => exact ih (at?_dropLast hDirectory)
  | down hNode _ ih => exact ih hNode
  | link _ _ _ ihWithin ihRest => exact ihRest (ihWithin (at?_linkStart hDirectory _))

/-- The names of a directory lead to it from the root, through no link. -/
theorem leads_of_at? (h : tree.at? final = some .directory) : Leads tree 0 [] final final := by
  induction final using List.reverseRecOn with
  | nil => exact .done []
  | append_singleton front last ih =>
      exact (ih (at?_above h (by simp))).append (.down h (.done _))

/-- Without links no link is met. -/
theorem Leads.count_eq_zero (h : Leads tree count directory names final)
    (hNone : ∀ place target, tree.at? place ≠ some (.link target)) : count = 0 := by
  induction h with
  | done => rfl
  | stay _ _ ih | up _ ih | down _ _ ih => exact ih
  | link hNode => exact absurd hNode (hNone _ _)

/-- The way of the file tree to a directory. -/
theorem Follows.exists_leads {enter : Place → List String → Except FileError Found} {links : Nat}
    {found : Found} (h : Follows tree .target enter directory names found)
    (hFound : found = .node final .directory)
    (hEnter : ∀ start names, enter start names = .ok (.node final .directory) →
      ∃ count < links, Leads tree count start names final) :
    ∃ count ≤ links, Leads tree count directory names final := by
  induction h with
  | done =>
      cases hFound
      exact ⟨0, Nat.zero_le _, .done _⟩
  | blank _ ih =>
      obtain ⟨count, hCount, hLeads⟩ := ih hFound
      exact ⟨count, hCount, .stay (.inl rfl) hLeads⟩
  | dot _ _ ih =>
      obtain ⟨count, hCount, hLeads⟩ := ih hFound
      exact ⟨count, hCount, .stay (.inr rfl) hLeads⟩
  | up _ _ ih =>
      obtain ⟨count, hCount, hLeads⟩ := ih hFound
      exact ⟨count, hCount, .up hLeads⟩
  | down _ hNode _ ih =>
      obtain ⟨count, hCount, hLeads⟩ := ih hFound
      exact ⟨count, hCount, .down hNode hLeads⟩
  | free | file | last => cases hFound
  | link _ _ hNode within =>
      obtain ⟨count, hCount, hLeads⟩ := hEnter _ _ (hFound ▸ within)
      obtain ⟨first, second, middle, hWithin, hLater, hSum⟩ := hLeads.split
      exact ⟨_, by omega, .link hNode hWithin hLater⟩

/-- Whatever a lookup finds is led to, by no more links than it may follow. -/
theorem exists_leads_of_follow {links : Nat}
    (h : tree.follow .target links directory names = .ok (.node final .directory)) :
    ∃ count ≤ links, Leads tree count directory names final := by
  induction links generalizing directory names with
  | zero => exact (follows_of_followNames h).exists_leads rfl fun _ _ hNone => by cases hNone
  | succ links ih =>
      refine (follows_of_followNames h).exists_leads rfl fun _ _ hEnter => ?_
      obtain ⟨count, hCount, hLeads⟩ := ih hEnter
      exact ⟨count, Nat.lt_succ_of_le hCount, hLeads⟩

/-- Where no link is met, names are followed to the end and on from there. -/
theorem Leads.followNames {ending : Ending} {enter : Place → List String → Except FileError Found}
    (h : Leads tree count directory names final) (hCount : count = 0) (hOpen : tree.Accessible)
    (hEnding : ending ≠ .creation) (back : List String) :
    tree.followNames ending enter directory (names ++ back) =
      tree.followNames ending enter final back := by
  induction h with
  | done => rfl
  | stay hName _ ih =>
      rw [List.cons_append, ← ih hCount]
      exact hOpen.followNames_stays (List.forall_mem_singleton.mpr hName) _
  | up _ ih => rw [List.cons_append, followNames_up (hOpen _ _), ih hCount]
  | down hNode _ ih =>
      rw [List.cons_append,
        (hOpen.sought hEnding (isName_child hNode)).followNames_directory hNode, ih hCount]
  | link => exact absurd hCount (Nat.succ_ne_zero _)

end Leads

/-- Every place has a path that can be looked at: nothing is refused, and no path is too long. -/
structure InReach (tree : FileTree) : Prop where
  accessible : tree.Accessible
  short : ∀ entry ∈ tree.nodes, utf8Size (Path.mk .slash entry.1).toString ≤ pathLimit

theorem InReach.of_at? {tree : FileTree} {place : Place} {node : Node} (h : tree.InReach)
    (hNode : tree.at? place = some node) :
    utf8Size (Path.mk .slash place).toString ≤ pathLimit := by
  by_cases hRoot : place = []
  · subst hRoot
    decide
  · exact h.short (place, node) (mem_nodes_of_at? hNode hRoot)

end FileTree

namespace Environment

open FileTree

/-- A path that leads to a directory without any link, with double dots at its start only. -/
inductive Spells (env : Environment) : Path → Place → Prop where
  | root : Spells env ⟨.slash, []⟩ []
  | working : Spells env ⟨.relative, []⟩ env.working
  | up {parts : List String} {place : Place} (hUps : ∀ part ∈ parts, part = "..")
      (below : Spells env ⟨.relative, parts⟩ place) :
      Spells env ⟨.relative, parts ++ [".."]⟩ place.dropLast
  | down {path : Path} {place : Place} {name : String} (above : Spells env path place)
      (hNode : env.tree.at? (place ++ [name]) = some .directory) :
      Spells env (path.below [name]) (place ++ [name])

section Spells

variable {env : Environment} {path : Path} {place other : Place} {name target : String}
  {node : Node}

/-- A path that spells a place leads to a directory there. -/
theorem Spells.at? (h : env.Spells path place) : env.tree.at? place = some .directory := by
  induction h with
  | root => rfl
  | working => exact env.stands
  | up _ _ ih => exact at?_dropLast ih
  | down _ hNode => exact hNode

theorem Spells.leads (h : env.Spells path place) :
    env.tree.Leads 0 (env.startPlace path) path.parts place := by
  induction h with
  | root | working => exact .done _
  | up _ _ ih => exact ih.append (.up (.done _))
  | down _ hNode ih => exact ih.append (.down hNode (.done _))

/-- A path spells one place at most. -/
theorem Spells.unique (h : env.Spells path place) (h' : env.Spells path other) : place = other :=
  (h.leads.unique h'.leads).2

/-- From the root a place is spelled by its names alone. -/
theorem Spells.eq_of_absolute (h : env.Spells path place) (hPath : path.isAbsolute = true) :
    path = ⟨.slash, place⟩ := by
  induction h with
  | root => rfl
  | working | up => cases hPath
  | down _ _ ih =>
      rw [ih hPath]
      rfl

/-- A path that spells a place holds names and steps up only. -/
theorem Spells.parts (h : env.Spells path place) :
    ∀ part ∈ path.parts, part = ".." ∨ IsName part := by
  induction h with
  | root | working => simp
  | up _ _ ih => exact List.forall_mem_append.mpr ⟨ih, by simp⟩
  | down _ hNode ih =>
      exact List.forall_mem_append.mpr
        ⟨ih, List.forall_mem_singleton.mpr (.inr (isName_child hNode))⟩

theorem Spells.enters (h : env.Spells path place) (hOpen : env.tree.Accessible) :
    env.Enters path place := by
  refine ⟨hOpen, fun part hPart => ?_, ?_, ?_⟩
  · rcases h.parts part hPart with rfl | hName
    · unfold Path.IsPart
      decide
    · exact hName.part
  · rw [List.any_eq_false]
    intro part hPart
    rcases h.parts part hPart with rfl | hName
    · decide
    · simp [hName.nullFree]
  · obtain ⟨enter, hEnter⟩ := exists_enter env.tree .target linkLimit
    have hFollow := @Leads.followNames _ _ _ _ _ .target enter h.leads rfl hOpen (by simp) []
    rw [List.append_nil] at hFollow
    rw [hEnter, hFollow]
    rfl

/-- A step back from a path spells the place above. -/
theorem Spells.stepBack (h : env.Spells path place) :
    env.Spells (stepBack path) place.dropLast := by
  cases h with
  | root => exact .root
  | working => exact .up (by simp) .working
  | @up parts place hUps below =>
      have hAll : ∀ part ∈ parts ++ [".."], part = ".." :=
        List.forall_mem_append.mpr ⟨hUps, by simp⟩
      have hBack : Environment.stepBack ⟨.relative, parts ++ [".."]⟩ =
          ⟨.relative, parts ++ [".."] ++ [".."]⟩ := by simp [Environment.stepBack]
      rw [hBack]
      exact .up hAll (.up hUps below)
  | @down path place name above hNode =>
      have hUp := (isName_child hNode).notUp
      have hBack : Environment.stepBack (path.below [name]) = path := by
        simp [Environment.stepBack, Path.below, hUp]
      rw [hBack, List.dropLast_concat]
      exact above

/-- The target of a link is spelled from where the link stands. -/
theorem Spells.targetStart (h : env.Spells path place) (target : String) :
    env.Spells (targetStart path target) (linkStart place target) := by
  unfold Environment.targetStart FileTree.linkStart
  split
  · exact .root
  · exact h

/-- Below a spelled directory, what is no link has no target. -/
theorem Spells.linkTarget?_of_plain (h : env.Spells path place) (hOpen : env.tree.Accessible)
    {names : List String} (hNames : names ≠ [])
    (hNode : env.tree.at? (place ++ names) = some node) (hLink : ∀ target, node ≠ .link target) :
    env.linkTarget? (path.below names) = .ok none := by
  rw [linkTarget?, (h.enters hOpen).find_node (.inl ⟨rfl, hNames⟩) hNode]
  by_cases hLong : pathLimit < utf8Size (path.below names).toString
  · simp [hLong]
  · cases node with
    | file bytes => simp [hLong]
    | directory => simp [hLong]
    | link target => exact absurd rfl (hLink target)

/-- Below a spelled directory, a link has its target, if the path is short enough. -/
theorem Spells.linkTarget?_of_link (h : env.Spells path place) (hOpen : env.tree.Accessible)
    (hNode : env.tree.at? (place ++ [name]) = some (.link target))
    (hShort : utf8Size (path.below [name]).toString ≤ pathLimit) :
    env.linkTarget? (path.below [name]) = .ok (some target) := by
  rw [linkTarget?, (h.enters hOpen).find_node (.inl ⟨rfl, by simp⟩) hNode,
    if_neg (Nat.not_lt.mpr hShort)]
  simp only [unlessRefused, hOpen .content]

/-- The names of a place lead to it from the root. -/
theorem spells_slash (h : env.tree.at? place = some .directory) :
    env.Spells ⟨.slash, place⟩ place := by
  induction place using List.reverseRecOn with
  | nil => exact .root
  | append_singleton front last ih =>
      have hFront : env.tree.at? front = some .directory := at?_above h (by simp)
      exact .down (ih hFront) h

end Spells

/-- A path from the root, or one that leaves so much room. -/
def Fits (path : Path) (extra : Nat) : Prop :=
  path.isAbsolute = true ∨ weight path.parts + extra ≤ pathLimit + 1

/-- What was reached from a path is a path from the root, or is longer by so much at most. -/
def Gains (path reached : Path) (extra : Nat) : Prop :=
  reached.isAbsolute = true ∨
    path.isAbsolute = false ∧ weight reached.parts ≤ weight path.parts + extra

section Fits

variable {path middle reached : Path} {first second : Nat}

theorem Fits.mono (h : Fits path second) (hLess : first ≤ second) : Fits path first :=
  h.imp_right fun hRoom => by omega

/-- What a path gains is taken from the room that it leaves. -/
theorem Fits.after (h : Fits path (first + second)) (hGains : Gains path reached first) :
    Fits reached second := by
  rcases hGains with hAbsolute | ⟨hRelative, hWeight⟩
  · exact .inl hAbsolute
  · rcases h with hAbsolute | hRoom
    · rw [hRelative] at hAbsolute
      cases hAbsolute
    · exact .inr (by omega)

theorem Gains.refl (path : Path) : Gains path path 0 := by
  cases hPath : path.isAbsolute with
  | true => exact .inl hPath
  | false => exact .inr ⟨hPath, Nat.le_refl _⟩

theorem Gains.mono (h : Gains path reached first) (hLess : first ≤ second) :
    Gains path reached second :=
  h.imp_right fun ⟨hRelative, hWeight⟩ => ⟨hRelative, by omega⟩

theorem Gains.trans (h : Gains path middle first) (h' : Gains middle reached second) :
    Gains path reached (first + second) := by
  rcases h' with hAbsolute | ⟨hMiddle, hWeight⟩
  · exact .inl hAbsolute
  · rcases h with hAbsolute | ⟨hRelative, hLess⟩
    · rw [hMiddle] at hAbsolute
      cases hAbsolute
    · exact .inr ⟨hRelative, by omega⟩

theorem gains_below (path : Path) (name : String) :
    Gains path (path.below [name]) (utf8Size name + 1) := by
  cases hPath : path.isAbsolute with
  | true => exact .inl hPath
  | false => exact .inr ⟨hPath, (weight_append path.parts [name]).le⟩

theorem gains_stepBack (path : Path) : Gains path (stepBack path) (utf8Size ".." + 1) := by
  cases hPath : path.isAbsolute with
  | true =>
      refine .inl ?_
      unfold stepBack
      split
      · rw [if_pos hPath]
        exact hPath
      · split <;> exact hPath
  | false =>
      refine .inr ⟨hPath, ?_⟩
      unfold stepBack
      split
      · next hNone =>
          rw [hPath, if_neg (by simp)]
          simp [weight]
      · next last hLast =>
          split
          · exact (weight_append path.parts [".."]).le
          · have hWhole := congrArg weight (List.dropLast_append_getLast? last hLast)
            rw [weight_append] at hWhole
            simp only
            omega

/-- A link starts at the root, or its target is followed on from the path. -/
theorem gains_targetStart (path : Path) (target : String) :
    Gains path (targetStart path target) 0 := by
  unfold targetStart
  split
  · exact .inl rfl
  · exact .refl path

end Fits

/-- The text of a path that leaves room for a name in it is short enough. -/
theorem Spells.short_below {env : Environment} {path : Path} {place : Place} {name : String}
    {node : Node} (h : env.Spells path place) (hReach : env.tree.InReach)
    (hNode : env.tree.at? (place ++ [name]) = some node) (hFits : Fits path (utf8Size name + 1)) :
    utf8Size (path.below [name]).toString ≤ pathLimit := by
  rcases hFits with hAbsolute | hRoom
  · rw [h.eq_of_absolute hAbsolute]
    exact hReach.of_at? hNode
  · by_cases hAbsolute : path.isAbsolute = true
    · rw [h.eq_of_absolute hAbsolute]
      exact hReach.of_at? hNode
    · have hStart : path.start = .relative := by simpa [Path.isAbsolute] using hAbsolute
      have hSize := @utf8Size_intercalate_succ (path.parts ++ [name]) (by simp)
      rw [weight_append, weight_cons] at hSize
      have hEmpty : utf8Size PathStart.relative.text = 0 := by decide
      have hNone : weight [] = 0 := rfl
      rw [utf8Size_toString]
      simp only [Path.below, hStart, hEmpty]
      have hLimit : 1 ≤ pathLimit := by decide
      omega

section Memory

variable {env : Environment} {links : Links} {longest : Nat}

/-- Where the links that were followed lead is kept in mind rightly. -/
def Recalled (env : Environment) (longest : Nat) (links : Links) : Prop :=
  ∀ path directory name target known, env.Spells path directory →
    env.tree.at? (directory ++ [name]) = some (.link target) →
    links.lookup (path.below [name]) = some (some known) →
      ∃ count place, env.tree.Leads count (linkStart directory target) (namesOf target) place ∧
        env.Spells known place ∧ Gains path known ((count + 1) * (longest + 1))

/-- The links whose targets are still being followed take at least so many links. -/
def Pending (env : Environment) (links : Links) (count : Nat) : Prop :=
  ∀ path directory name target inner place, env.Spells path directory →
    env.tree.at? (directory ++ [name]) = some (.link target) →
    links.lookup (path.below [name]) = some none →
    env.tree.Leads inner (linkStart directory target) (namesOf target) place → count ≤ inner

/-- The targets of the same links are still being followed. -/
def SamePending (links others : Links) : Prop :=
  ∀ path, others.lookup path = some none ↔ links.lookup path = some none

/-- A path is looked up behind the entries of other paths. -/
theorem lookup_cons_ne {path other : Path} {reached : Option Path} (h : other ≠ path) :
    List.lookup other ((path, reached) :: links) = links.lookup other := by
  rw [List.lookup_cons, beq_eq_false_iff_ne.mpr h]

theorem lookup_cons_same (path : Path) (reached : Option Path) :
    List.lookup path ((path, reached) :: links) = some reached := by
  rw [List.lookup_cons, beq_self_eq_true]

theorem below_singleton_inj {path other : Path} {name otherName : String}
    (h : other.below [otherName] = path.below [name]) : other = path ∧ otherName = name := by
  obtain ⟨start, parts⟩ := path
  obtain ⟨otherStart, otherParts⟩ := other
  obtain ⟨rfl, hParts⟩ := Path.mk.inj h
  obtain ⟨rfl, hNames⟩ := List.append_inj' hParts rfl
  cases hNames
  exact ⟨rfl, rfl⟩

theorem Pending.mono {count less : Nat} (h : Pending env links count) (hLess : less ≤ count) :
    Pending env links less :=
  fun _ _ _ _ _ _ hSpells hNode hLookup hLeads =>
    Nat.le_trans hLess (h _ _ _ _ _ _ hSpells hNode hLookup hLeads)

section Link

variable {path : Path} {directory place : Place} {name target : String} {inner : Nat}
  (hSpells : env.Spells path directory)
  (hNode : env.tree.at? (directory ++ [name]) = some (.link target))
  (hWithin : env.tree.Leads inner (linkStart directory target) (namesOf target) place)

include hSpells hNode hWithin

/-- Entering a link: its own target takes as many links as it takes. -/
theorem Pending.enter {count : Nat} (h : Pending env links count) (hLess : inner ≤ count) :
    Pending env ((path.below [name], none) :: links) inner := by
  intro other otherPlace otherName otherTarget needed reached hOther hLink hLookup hLeads
  by_cases hSame : other.below [otherName] = path.below [name]
  · obtain ⟨rfl, rfl⟩ := below_singleton_inj hSame
    obtain rfl := hOther.unique hSpells
    rw [hNode] at hLink
    cases hLink
    exact Nat.le_of_eq (hWithin.unique hLeads).1
  · rw [lookup_cons_ne hSame] at hLookup
    exact Nat.le_trans hLess (h _ _ _ _ _ _ hOther hLink hLookup hLeads)

/-- Leaving a link: where it led to is kept in mind. -/
theorem Recalled.leave {reached : Path} (h : Recalled env longest links)
    (hReached : env.Spells reached place)
    (hGains : Gains path reached ((inner + 1) * (longest + 1))) :
    Recalled env longest ((path.below [name], some reached) :: links) := by
  intro other otherPlace otherName otherTarget known hOther hLink hLookup
  by_cases hSame : other.below [otherName] = path.below [name]
  · rw [hSame, lookup_cons_same] at hLookup
    cases hLookup
    obtain ⟨rfl, rfl⟩ := below_singleton_inj hSame
    obtain rfl := hOther.unique hSpells
    rw [hNode] at hLink
    cases hLink
    exact ⟨inner, place, hWithin, hReached, hGains⟩
  · rw [lookup_cons_ne hSame] at hLookup
    exact h _ _ _ _ _ hOther hLink hLookup

end Link

/-- Entering a link leaves what is recalled of the others. -/
theorem Recalled.enter (h : Recalled env longest links) (path : Path) :
    Recalled env longest ((path, none) :: links) := by
  intro other directory name target known hSpells hNode hLookup
  by_cases hSame : other.below [name] = path
  · rw [hSame, lookup_cons_same] at hLookup
    cases hLookup
  · rw [lookup_cons_ne hSame] at hLookup
    exact h _ _ _ _ _ hSpells hNode hLookup

/-- A link that was entered and left is not pending any more, and the others are as before. -/
theorem SamePending.leave {path reached : Path} {met : Links} (hNew : links.lookup path = none)
    (h : SamePending ((path, none) :: links) met) :
    SamePending links ((path, some reached) :: met) := by
  intro other
  by_cases hSame : other = path
  · subst hSame
    simp [hNew]
  · rw [lookup_cons_ne hSame, h other, lookup_cons_ne hSame]

/-- Links with the same ones pending keep what is known of these. -/
theorem SamePending.pending {others : Links} {count : Nat} (h : SamePending links others)
    (hPending : Pending env links count) : Pending env others count :=
  fun _ _ _ _ _ _ hSpells hNode hLookup hLeads =>
    hPending _ _ _ _ _ _ hSpells hNode ((h _).mp hLookup) hLeads

end Memory

/-- How the target of a link is followed, where there is room for so many links inside of one
another. -/
def inside (env : Environment) (room : Nat) (links : Links) (next start : Path)
    (names : List String) : Except Failure Reached :=
  match room with
  | 0 => .error .stackOverflow
  | room + 1 => env.followReal room ((next, none) :: links) start names

theorem followReal_eq (env : Environment) (room : Nat) :
    env.followReal room = env.followNames (env.inside room) := by
  cases room with
  | zero => rfl
  | succ room => rfl

section Real

variable {env : Environment} {longest room : Nat} {links : Links} {path : Path} {name : String}
  {place : Place}

/-- What following names for the real form comes to, where they lead to a directory: a path to it
without links, and the same links still pending. -/
structure Arrives (env : Environment) (longest room : Nat) (links : Links) (path : Path)
    (names : List String) (final : Place) (extra : Nat) (reached : Path) (met : Links) : Prop where
  reaches : Reaches env (env.inside room) links path names ⟨reached, true, met⟩
  spells : env.Spells reached final
  gains : Gains path reached extra
  recalled : Recalled env longest met
  same : SamePending links met

/-- What following one name for the real form comes to: what stands behind the name is followed from
a path without links, and the same links are still pending. -/
structure Passes (env : Environment) (longest room : Nat) (links : Links) (path : Path)
    (name : String) (place : Place) (extra : Nat) (reached : Path) (met : Links) : Prop where
  reaches : ∀ {names : List String} {final : Reached},
    Reaches env (env.inside room) met reached names final →
      Reaches env (env.inside room) links path (name :: names) final
  spells : env.Spells reached place
  gains : Gains path reached extra
  recalled : Recalled env longest met
  same : SamePending links met

/-- A name and then the names behind it. -/
theorem Passes.arrives {first second : Nat} {reached last : Path} {met after : Links}
    {middle final : Place} {names : List String}
    (h : Passes env longest room links path name middle first reached met)
    (hRest : Arrives env longest room met reached names final second last after) :
    Arrives env longest room links path (name :: names) final (first + second) last after where
  reaches := h.reaches hRest.reaches
  spells := hRest.spells
  gains := h.gains.trans hRest.gains
  recalled := hRest.recalled
  same other := (hRest.same other).trans (h.same other)

theorem Arrives.mono {first second : Nat} {reached : Path} {met : Links} {final : Place}
    {names : List String} (h : Arrives env longest room links path names final first reached met)
    (hLess : first ≤ second) :
    Arrives env longest room links path names final second reached met :=
  { h with gains := h.gains.mono hLess }

section Names

variable (room) (hSpells : env.Spells path place) (hRecalled : Recalled env longest links)

include hSpells hRecalled

theorem passes_stay (hName : name = "" ∨ name = ".") :
    Passes env longest room links path name place (utf8Size name + 1) path links where
  reaches h := .stay hName h
  spells := hSpells
  gains := (Gains.refl path).mono (Nat.zero_le _)
  recalled := hRecalled
  same _ := Iff.rfl

theorem passes_up :
    Passes env longest room links path ".." place.dropLast (utf8Size ".." + 1) (stepBack path)
      links where
  reaches h := .up h
  spells := hSpells.stepBack
  gains := gains_stepBack path
  recalled := hRecalled
  same _ := Iff.rfl

theorem passes_down (hOpen : env.tree.Accessible)
    (hNode : env.tree.at? (place ++ [name]) = some .directory) :
    Passes env longest room links path name (place ++ [name]) (utf8Size name + 1)
      (path.below [name]) links where
  reaches h := .plain (isName_child hNode).ne_dots
    (hSpells.linkTarget?_of_plain hOpen (List.cons_ne_nil name []) hNode (by simp)) h
  spells := .down hSpells hNode
  gains := gains_below path name
  recalled := hRecalled
  same _ := Iff.rfl

end Names

section Link

variable {inner : Nat} {middle : Place} {target : String}
  (hSpells : env.Spells path place)
  (hNode : env.tree.at? (place ++ [name]) = some (.link target))
  (hTarget : env.linkTarget? (path.below [name]) = .ok (some target))
  (hWithin : env.tree.Leads inner (linkStart place target) (namesOf target) middle)

include hSpells hNode hTarget hWithin

/-- Where a link leads that was followed before is known. -/
theorem passes_known {known : Path} (hRecalled : Recalled env longest links)
    (hLookup : links.lookup (path.below [name]) = some (some known)) :
    Passes env longest room links path name middle ((inner + 1) * (longest + 1)) known links := by
  obtain ⟨count, there, hLeads, hKnown, hGains⟩ := hRecalled _ _ _ _ _ hSpells hNode hLookup
  obtain ⟨rfl, rfl⟩ := hWithin.unique hLeads
  exact {
    reaches h := .known (isName_child hNode).ne_dots hTarget hLookup h
    spells := hKnown
    gains := hGains
    recalled := hRecalled
    same _ := Iff.rfl }

/-- The target of a new link is followed with the link itself pending, and where it led to is kept
in mind. -/
theorem passes_new {reached : Path} {met : Links} (hLong : utf8Size target ≤ longest)
    (hLookup : links.lookup (path.below [name]) = none)
    (hInner : Arrives env longest room ((path.below [name], none) :: links)
      (targetStart path target) (namesOf target) middle
      (weight (namesOf target) + inner * (longest + 1)) reached met) :
    Passes env longest (room + 1) links path name middle ((inner + 1) * (longest + 1)) reached
      ((path.below [name], some reached) :: met) := by
  have hGains : Gains path reached ((inner + 1) * (longest + 1)) := by
    refine ((gains_targetStart path target).trans hInner.gains).mono ?_
    rw [weight_namesOf, Nat.succ_mul]
    omega
  have hEntered : env.inside (room + 1) links (path.below [name]) (targetStart path target)
      (namesOf target) = .ok ⟨reached, true, met⟩ := by
    rw [inside, followReal_eq]
    exact hInner.reaches.followNames
  exact {
    reaches h := .entered (isName_child hNode).ne_dots hTarget hLookup hEntered rfl h
    spells := hInner.spells
    gains := hGains
    recalled := hInner.recalled.leave hSpells hNode hWithin hInner.spells hGains
    same := hInner.same.leave hLookup }

end Link

/-- Where names lead to a directory, following them for the real form ends there, and no link is met
inside its own target: that would take more links than it takes. -/
theorem exists_arrives (hReach : env.tree.InReach)
    (hLong : ∀ place target, env.tree.at? place = some (.link target) → utf8Size target ≤ longest)
    {count : Nat} {directory final : Place} {names : List String}
    (h : env.tree.Leads count directory names final) (hSpells : env.Spells path directory)
    (hFits : Fits path (weight names + count * (longest + 1)))
    (hRecalled : Recalled env longest links) (hPending : Pending env links count)
    (hRoom : count ≤ room) :
    ∃ reached met, Arrives env longest room links path names final
      (weight names + count * (longest + 1)) reached met := by
  induction h generalizing room links path with
  | done directory =>
      exact ⟨path, links, .done links path, hSpells, (Gains.refl path).mono (Nat.zero_le _),
        hRecalled, fun _ => Iff.rfl⟩
  | stay hName _ ih =>
      rw [weight_cons, Nat.add_assoc] at hFits ⊢
      have hPasses := passes_stay room hSpells hRecalled hName
      obtain ⟨reached, met, hRest⟩ :=
        ih hPasses.spells (hFits.after hPasses.gains) hPasses.recalled hPending hRoom
      exact ⟨reached, met, hPasses.arrives hRest⟩
  | up _ ih =>
      rw [weight_cons, Nat.add_assoc] at hFits ⊢
      have hPasses := passes_up room hSpells hRecalled
      obtain ⟨reached, met, hRest⟩ :=
        ih hPasses.spells (hFits.after hPasses.gains) hPasses.recalled hPending hRoom
      exact ⟨reached, met, hPasses.arrives hRest⟩
  | down hNode _ ih =>
      rw [weight_cons, Nat.add_assoc] at hFits ⊢
      have hPasses := passes_down room hSpells hRecalled hReach.accessible hNode
      obtain ⟨reached, met, hRest⟩ :=
        ih hPasses.spells (hFits.after hPasses.gains) hPasses.recalled hPending hRoom
      exact ⟨reached, met, hPasses.arrives hRest⟩
  | @link inner count directory middle final name target names hNode within rest ihWithin ihRest =>
      have hTarget := hSpells.linkTarget?_of_link hReach.accessible hNode
        (hSpells.short_below hReach hNode (hFits.mono (by rw [weight_cons]; omega)))
      -- what the link and the links in its target can add to the path, and the room for the rest
      have hLess : (inner + 1) * (longest + 1) + (weight names + count * (longest + 1)) ≤
          weight (name :: names) + (inner + count + 1) * (longest + 1) := by
        rw [weight_cons, Nat.add_right_comm inner count 1, Nat.add_mul (inner + 1) count]
        omega
      have hBoth := hFits.mono hLess
      have hFewer : Pending env links count := hPending.mono (by omega)
      obtain ⟨reached, met, hPasses⟩ : ∃ reached met, Passes env longest room links path name middle
          ((inner + 1) * (longest + 1)) reached met := by
        rcases hLookup : links.lookup (path.below [name]) with _ | (_ | known)
        · obtain ⟨less, rfl⟩ : ∃ less, room = less + 1 := ⟨room - 1, by omega⟩
          have hOwn : weight (namesOf target) + inner * (longest + 1) ≤
              (inner + 1) * (longest + 1) := by
            rw [weight_namesOf, Nat.succ_mul]
            have := hLong _ _ hNode
            omega
          obtain ⟨reached, met, hInner⟩ := ihWithin (hSpells.targetStart target)
            (Fits.after (hBoth.mono (by omega)) (gains_targetStart path target))
            (hRecalled.enter (path.below [name])) (hPending.enter hSpells hNode within (by omega))
            (by omega : inner ≤ less)
          exact ⟨reached, _,
            passes_new hSpells hNode hTarget within (hLong _ _ hNode) hLookup hInner⟩
        · -- the link is pending: following it again takes more links than following it
          have hAtLeast := hPending _ _ _ _ _ _ hSpells hNode hLookup within
          omega
        · exact ⟨known, links, passes_known hSpells hNode hTarget within hRecalled hLookup⟩
      obtain ⟨last, after, hRest⟩ := ihRest hPasses.spells (hBoth.after hPasses.gains)
        hPasses.recalled (hPasses.same.pending hFewer) (by omega : count ≤ room)
      exact ⟨last, after, (hPasses.arrives hRest).mono hLess⟩

end Real

section Below

variable {env : Environment} {path real : Path} {place : Place} {names : List String} {node : Node}
  {links : Links} {enter : Links → Path → Path → List String → Except Failure Reached}

/-- Names go on from what was reached, unless a loop was met. -/
theorem Reaches.append {front back : List String} {reached final : Reached}
    (h : Reaches env enter links path front reached) (hComplete : reached.complete = true)
    (hBack : Reaches env enter reached.links reached.path back final) :
    Reaches env enter links path (front ++ back) final := by
  induction h with
  | done => exact hBack
  | stay hName _ ih => exact .stay hName (ih hComplete hBack)
  | up _ ih => exact .up (ih hComplete hBack)
  | plain hName hTarget _ ih => exact .plain hName hTarget (ih hComplete hBack)
  | known hName hTarget hKnown _ ih => exact .known hName hTarget hKnown (ih hComplete hBack)
  | loop | stopped => cases hComplete
  | entered hName hTarget hNew within hInner _ ih =>
      exact .entered hName hTarget hNew within hInner (ih hComplete hBack)

/-- Below a directory names are followed as they are, up to a link. -/
theorem Spells.reaches_below (h : env.Spells path place) (hOpen : env.tree.Accessible)
    (hNode : env.tree.at? (place ++ names) = some node) (hLink : ∀ target, node ≠ .link target) :
    Reaches env enter links path names ⟨path.below names, true, links⟩ := by
  induction names generalizing path place with
  | nil =>
      rw [Path.below_nil]
      exact .done links path
  | cons name rest ih =>
      rw [List.append_cons] at hNode
      have hName := (isName_of_at? hNode name (by simp)).ne_dots
      by_cases hLast : rest = []
      · subst hLast
        rw [List.append_nil] at hNode
        have hPlain := h.linkTarget?_of_plain hOpen (List.cons_ne_nil name []) hNode hLink
        exact .plain hName hPlain (.done links _)
      · have hHere : env.tree.at? (place ++ [name]) = some .directory := at?_above hNode hLast
        have hPlain := h.linkTarget?_of_plain hOpen (List.cons_ne_nil name []) hHere (by simp)
        have hRest := ih (.down h hHere) hNode
        rw [Path.below_below] at hRest
        exact .plain hName hPlain hRest

/-- Names without steps up stay when dots are settled. -/
theorem settleDots_append {absolute : Bool} {kept parts : List String}
    (hNames : ∀ name ∈ names, name ≠ "..") :
    Path.settleDots absolute kept (parts ++ names) =
      Path.settleDots absolute kept parts ++ names := by
  induction parts generalizing kept with
  | nil =>
      rw [List.nil_append, Path.settleDots]
      induction names generalizing kept with
      | nil => simp [Path.settleDots]
      | cons name rest ih =>
          obtain ⟨hName, hRest⟩ := List.forall_mem_cons.mp hNames
          rw [Path.settleDots.eq_def]
          simp [hName, ih hRest]
  | cons part rest ih =>
      rw [List.cons_append, Path.settleDots.eq_def,
        Path.settleDots.eq_def absolute kept (part :: rest)]
      simp only
      split
      · split
        · exact ih
        · split <;> exact ih
      · exact ih

/-- Settling double dots ends where the file tree ends, if there are no links. -/
theorem settleDots_of_leads {tree : FileTree} {count : Nat} {directory final : Place}
    (h : tree.Leads count directory names final) (hCount : count = 0)
    (hDirectory : tree.at? directory = some .directory)
    (hNames : ∀ name ∈ names, name ≠ "" ∧ name ≠ ".") :
    Path.settleDots true directory.reverse names = final := by
  induction h with
  | done => rw [Path.settleDots, List.reverse_reverse]
  | stay hName =>
      have hFirst := hNames _ List.mem_cons_self
      exact absurd hName (not_or.mpr hFirst)
  | @up count directory final names _ ih =>
      have hRest := ih hCount (at?_dropLast hDirectory) (List.forall_mem_cons.mp hNames).2
      rw [Path.settleDots.eq_def]
      rcases List.eq_nil_or_concat directory with rfl | ⟨front, last, rfl⟩
      · simpa using hRest
      · have hLast : last ≠ ".." := (isName_of_at? hDirectory last (by simp)).notUp
        simpa [hLast] using hRest
  | down hNode _ ih =>
      have hRest := ih hCount hNode (List.forall_mem_cons.mp hNames).2
      rw [Path.settleDots.eq_def]
      simpa [(isName_child hNode).notUp] using hRest
  | link => exact absurd hCount (Nat.succ_ne_zero _)

theorem workingPath_eq (env : Environment) : env.workingPath = ⟨.slash, env.working⟩ := by
  have hProper : (Path.mk .slash env.working).Proper :=
    fun name hName => (isName_of_at? env.stands name hName).part
  have hText := toString_of_absolute (rfl : (Path.mk .slash env.working).isAbsolute = true)
  rw [← Path.ofString_toString hProper, hText]
  rfl

/-- A path without links in full: the names of its place. -/
theorem Spells.absoluteFrom (h : env.Spells path place) (hNames : ∀ name ∈ names, IsName name) :
    Path.absoluteFrom env.workingPath (path.below names) = ⟨.slash, place ++ names⟩ := by
  have hDots : ∀ name ∈ names, name ≠ ".." := fun name hName => (hNames name hName).notUp
  have hParts : ∀ part ∈ path.parts, part ≠ "" ∧ part ≠ "." := by
    intro part hPart
    rcases h.parts part hPart with rfl | hName
    · decide
    · exact ⟨hName.part.1, hName.part.2.1⟩
  by_cases hAbsolute : path.isAbsolute = true
  · obtain rfl := h.eq_of_absolute hAbsolute
    have hSettled := settleDots_of_leads h.leads rfl rfl hParts
    unfold Path.absoluteFrom Path.append
    rw [Path.isAbsolute_below, if_pos hAbsolute]
    exact congrArg (Path.mk _) ((settleDots_append hDots).trans (congrArg (· ++ names) hSettled))
  · obtain ⟨start, parts⟩ := path
    obtain rfl : start = .relative := by simpa [Path.isAbsolute] using hAbsolute
    have hWorking : ∀ name ∈ env.working, name ≠ "" ∧ name ≠ "." := fun name hName =>
      ⟨(isName_of_at? env.stands name hName).part.1, (isName_of_at? env.stands name hName).part.2.1⟩
    have hLeads := (leads_of_at? env.stands).append h.leads
    have hSettled := settleDots_of_leads hLeads rfl rfl
      (List.forall_mem_append.mpr ⟨hWorking, hParts⟩)
    rw [workingPath_eq]
    unfold Path.absoluteFrom Path.append
    rw [if_neg (by simp [Path.isAbsolute, Path.below])]
    refine congrArg (Path.mk _) (Eq.trans ?_ (congrArg (· ++ names) hSettled))
    rw [← settleDots_append hDots]
    simp [Path.below]

/-- A spelled path without a link at its end is settled as its place. -/
theorem Spells.settled (h : env.Spells path place) (hOpen : env.tree.Accessible)
    (hNode : env.tree.at? (place ++ names) = some node) (hLink : ∀ target, node ≠ .link target) :
    env.settled (path.below names) = .ok ⟨.slash, place ++ names⟩ := by
  have hNames : ∀ name ∈ names, IsName name :=
    fun name hName => isName_of_at? hNode name (List.mem_append_right _ hName)
  have hKept : ((path.below names).parts.filter fun part => part ≠ "" && part ≠ ".") =
      (path.below names).parts := by
    refine List.filter_eq_self.mpr fun part hPart => ?_
    rcases List.mem_append.mp hPart with hPart | hName
    · rcases h.parts part hPart with rfl | hName
      · decide
      · simp [hName.ne_dots]
    · simp [(hNames part hName).ne_dots]
  have hFind := ((spells_slash h.at?).enters hOpen).find_node (.inr ⟨rfl, hLink⟩) hNode
  change env.find .target ⟨.slash, place ++ names⟩ = _ at hFind
  unfold Environment.settled
  rw [hKept, h.absoluteFrom hNames]
  simp only [hFind]
  by_cases hLong : pathLimit < utf8Size ((Path.mk .slash place).below names).toString
  · simp only [hLong, if_true]
  · simp only [hLong, if_false]

end Below

/-- A path from the root, or one whose text leaves room for the targets of the links that it goes
through on the way to a place. A path that goes through no link is of that kind. -/
def Near (env : Environment) (path : Path) (place : Place) : Prop :=
  path.isAbsolute = true ∨ ∀ count, env.tree.Leads count (env.startPlace path) path.parts place →
    ∀ link target, env.tree.at? link = some (.link target) →
      utf8Size path.toString + count * (utf8Size target + 1) ≤ pathLimit

section Resolve

variable {env : Environment} {path real : Path} {place : Place} {names : List String} {node : Node}

/-- The targets of a tree have a longest one. -/
theorem exists_longest (tree : FileTree) :
    ∃ longest, ∀ place target, tree.at? place = some (.link target) →
      utf8Size target ≤ longest := by
  have hNodes (nodes : List (Place × Node)) : ∃ longest, ∀ place target,
      (place, Node.link target) ∈ nodes → utf8Size target ≤ longest := by
    induction nodes with
    | nil => exact ⟨0, by simp⟩
    | cons entry rest ih =>
        obtain ⟨longest, hRest⟩ := ih
        obtain ⟨here, node⟩ := entry
        cases node with
        | link own =>
            refine ⟨max longest (utf8Size own), fun place target hMem => ?_⟩
            rcases List.mem_cons.mp hMem with hSame | hMem
            · cases hSame
              exact Nat.le_max_right _ _
            · exact Nat.le_trans (hRest place target hMem) (Nat.le_max_left _ _)
        | file | directory =>
            exact ⟨longest, fun place target hMem => hRest place target (by simpa using hMem)⟩
  obtain ⟨longest, hLong⟩ := hNodes tree.nodes
  refine ⟨longest, fun place target hNode => hLong place target (mem_nodes_of_at? hNode ?_)⟩
  rintro rfl
  cases hNode

theorem weight_parts_le (path : Path) : weight path.parts ≤ utf8Size path.toString + 1 := by
  by_cases hNone : path.parts = []
  · rw [hNone]
    exact Nat.zero_le _
  · rw [← utf8Size_intercalate_succ hNone, utf8Size_toString]
    omega

/-- Near the links, the path leaves room for the targets of those that are met. -/
theorem Near.exists_longest {count : Nat} (h : env.Near path place)
    (hSize : utf8Size path.toString ≤ pathLimit)
    (hLeads : env.tree.Leads count (env.startPlace path) path.parts place) :
    ∃ longest, (∀ place target, env.tree.at? place = some (.link target) →
        utf8Size target ≤ longest) ∧
      (path.isAbsolute = true ∨ weight path.parts + count * (longest + 1) ≤ pathLimit + 1) := by
  have hWeight := weight_parts_le path
  obtain ⟨longest, hLong⟩ := Environment.exists_longest env.tree
  rcases h with hAbsolute | hNear
  · exact ⟨longest, hLong, .inl hAbsolute⟩
  · cases count with
    | zero =>
        refine ⟨longest, hLong, .inr ?_⟩
        rw [Nat.zero_mul]
        omega
    | succ others =>
        -- the room that is left, shared by the links on the way
        let share := (pathLimit - utf8Size path.toString) / (others + 1)
        have hShare {link : Place} {target : String}
            (hLink : env.tree.at? link = some (.link target)) : utf8Size target + 1 ≤ share := by
          have := hNear _ hLeads link target hLink
          rw [Nat.mul_comm] at this
          exact (Nat.le_div_iff_mul_le (by omega : 0 < others + 1)).mpr (by omega)
        have hSome : ∃ link target, env.tree.at? link = some (.link target) := by
          by_contra hNone
          push Not at hNone
          exact absurd (hLeads.count_eq_zero hNone) others.succ_ne_zero
        obtain ⟨link, target, hLink⟩ := hSome
        have hPositive := hShare hLink
        have hRoom : (others + 1) * share ≤ pathLimit - utf8Size path.toString :=
          Nat.mul_div_le _ _
        refine ⟨share - 1, fun place target hNode => Nat.le_sub_one_of_lt (hShare hNode), .inr ?_⟩
        rw [Nat.sub_add_cancel (by omega)]
        omega

/-- The real form of what stands below a directory that a path leads to: the names of its place. -/
theorem resolveWithin_of_leads (hReach : env.tree.InReach) {longest count room : Nat}
    (hLong : ∀ place target, env.tree.at? place = some (.link target) → utf8Size target ≤ longest)
    (hFits : path.isAbsolute = true ∨ weight path.parts + count * (longest + 1) ≤ pathLimit + 1)
    (hRoom : count ≤ room) (h : env.tree.Leads count (env.startPlace path) path.parts place)
    (hNode : env.tree.at? (place ++ names) = some node) (hLink : ∀ target, node ≠ .link target) :
    env.resolveWithin room (path.below names) = .ok ⟨.slash, place ++ names⟩ := by
  have hSpells : env.Spells (origin path) (env.startPlace path) := by
    by_cases hAbsolute : path.isAbsolute = true
    · simpa [origin, startPlace, hAbsolute] using Spells.root
    · simpa [origin, startPlace, hAbsolute] using Spells.working
  have hStart : Fits (origin path) (weight path.parts + count * (longest + 1)) := by
    unfold origin
    rcases hFits with hAbsolute | hSize
    · rw [if_pos hAbsolute]
      exact .inl rfl
    · split
      · exact .inl rfl
      · exact .inr ((Nat.zero_add _).trans_le hSize)
  have hRecalled : Recalled env longest [] := by
    intro _ _ _ _ _ _ _ hNone
    cases hNone
  have hPending : Pending env [] count := by
    intro _ _ _ _ _ _ _ _ hNone
    cases hNone
  obtain ⟨reached, met, hArrives⟩ :=
    exists_arrives hReach hLong h hSpells hStart hRecalled hPending hRoom
  have hWhole := hArrives.reaches.append rfl
    (hArrives.spells.reaches_below hReach.accessible hNode hLink)
  have hFollow : env.followReal room [] (origin (path.below names)) (path.below names).parts =
      .ok ⟨reached.below names, true, met⟩ := by
    rw [followReal_eq]
    exact hWhole.followNames
  rw [resolveWithin, hFollow]
  exact hArrives.spells.settled hReach.accessible hNode hLink

/-- A directory that is found is led to from the start of its path. -/
theorem exists_leads_of_find (hOpen : env.tree.Accessible) (hProper : path.Proper)
    (h : env.find .target path = .ok (.node place .directory)) :
    ∃ count ≤ linkLimit, env.tree.Leads count (env.startPlace path) path.parts place :=
  exists_leads_of_follow (enters_of_find hOpen hProper h).1.follows

/-- What stands below a directory is known by its place, whatever path leads to the directory. -/
theorem resolveWithin_below (hReach : env.tree.InReach) (hNear : env.Near path place)
    (hProper : path.Proper) (h : env.find .target path = .ok (.node place .directory))
    {room : Nat} (hRoom : linkLimit ≤ room) (hNode : env.tree.at? (place ++ names) = some node)
    (hLink : ∀ target, node ≠ .link target) :
    env.resolveWithin room (path.below names) = .ok ⟨.slash, place ++ names⟩ := by
  obtain ⟨count, hCount, hLeads⟩ := exists_leads_of_find hReach.accessible hProper h
  obtain ⟨longest, hLong, hFits⟩ :=
    hNear.exists_longest (enters_of_find hReach.accessible hProper h).2 hLeads
  exact resolveWithin_of_leads hReach hLong hFits (Nat.le_trans hCount hRoom) hLeads hNode hLink

theorem expandHome_of_absolute (h : path.isAbsolute = true) : env.expandHome path = .ok path := by
  obtain ⟨start, parts⟩ := path
  cases start with
  | relative => cases h
  | slash => rfl
  | doubleSlash => rfl

/-- The directory at a path has no other real form than the path of its place, whatever links lead
to it. -/
theorem eq_of_resolveHome (hReach : env.tree.InReach) (hPath : path.isAbsolute = true)
    (hProper : path.Proper) (h : env.find .target path = .ok (.node place .directory))
    (hReal : env.resolveHome path = .ok real) : real = ⟨.slash, place⟩ := by
  have hNode : env.tree.at? (place ++ []) = some .directory := by
    rw [List.append_nil]
    exact find_sound h
  have hPlace := resolveWithin_below hReach (.inl hPath) hProper h
    (Nat.le_max_right env.stack.links linkLimit) hNode (by simp)
  unfold resolveHome resolveHomeWithin at hReal
  simp only [expandHome_of_absolute hPath] at hReal
  have hMore := resolveWithin_of_le (Nat.le_max_left env.stack.links linkLimit)
    (by simp [hReal] : env.resolveWithin env.stack.links path ≠ .error .stackOverflow)
  rw [Path.below_nil, hMore, hReal, List.append_nil] at hPlace
  exact Except.ok.inj hPlace

/-- The path of a directory's place is its own real form. -/
theorem resolveHome_place (hReach : env.tree.InReach)
    (h : env.tree.at? place = some .directory) :
    env.resolveHome ⟨.slash, place⟩ = .ok ⟨.slash, place⟩ := by
  obtain ⟨longest, hLong⟩ := exists_longest env.tree
  have hPlace := @resolveWithin_of_leads env ⟨.slash, place⟩ place [] .directory hReach longest 0
    env.stack.links hLong (.inl rfl) (Nat.zero_le _) (leads_of_at? h) (by simpa using h) (by simp)
  rw [Path.below_nil, List.append_nil] at hPlace
  unfold resolveHome resolveHomeWithin
  rw [expandHome_of_absolute rfl]
  exact hPlace

end Resolve

end Environment

end SignatureIndex
