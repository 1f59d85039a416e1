import SignatureIndex.Text.Blank

/-! Ignore rules: one line of an ignore file, and the expression it stands for. Runs of stars next
to something other than a slash count as one star. A rule that ends in a slash concerns
directories, one with a slash elsewhere is tied to the directory of its file, and one that starts
with an exclamation mark takes files back in. -/
namespace SignatureIndex.Ignore

open Text

structure Rule where
  negated : Bool
  directoryOnly : Bool
  anchored : Bool
  expression : List Char
  deriving DecidableEq, Repr

inductive Line where
  /-- A blank line, a comment, or the root alone. -/
  | silent
  | rule (rule : Rule)
  /-- A pattern of which nothing is left. -/
  | empty
  deriving DecidableEq, Repr

/-- After a character other than a slash, two or more stars become one. -/
def joinStarsAfter : List Char → List Char
  | c :: '*' :: '*' :: rest =>
    if c = '/' then c :: joinStarsAfter ('*' :: '*' :: rest)
    else c :: '*' :: joinStarsAfter (rest.dropWhile (· = '*'))
  | c :: rest => c :: joinStarsAfter rest
  | [] => []
termination_by cs => cs.length
decreasing_by
  · simp
  · have := (List.dropWhile_suffix (· = '*') (l := rest)).length_le
    simp only [List.length_cons]
    omega
  · simp

/-- Before a character other than a slash, two or more stars become one. Before a slash or at the
end a longer run becomes two. -/
def joinStarsBefore : List Char → List Char
  | '*' :: '*' :: rest =>
    match _h : rest.dropWhile (· = '*') with
    | d :: after =>
      if d = '/' then '*' :: '*' :: joinStarsBefore (d :: after)
      else '*' :: d :: joinStarsBefore after
    | [] => ['*', '*']
  | c :: rest => c :: joinStarsBefore rest
  | [] => []
termination_by cs => cs.length
decreasing_by
  · have hLength := (List.dropWhile_suffix (· = '*') (l := rest)).length_le
    simp only [_h, List.length_cons] at hLength ⊢
    omega
  · have hLength := (List.dropWhile_suffix (· = '*') (l := rest)).length_le
    simp only [_h, List.length_cons] at hLength ⊢
    omega
  · simp

/-- Takes spaces off the end. A space after a backslash stays, loses the backslash, and keeps the
spaces before it from being taken off. The first two characters are not looked at. -/
def trimSpaces (pattern : List Char) : List Char :=
  go true pattern.reverse []
where
  /-- Goes back from the end; `kept` is what stays behind the place reached. -/
  go (strip : Bool) : List Char → List Char → List Char
    | ' ' :: '\\' :: c :: rest, kept => go false (c :: rest) (' ' :: kept)
    | ' ' :: b :: c :: rest, kept => go strip (b :: c :: rest) (if strip then kept else ' ' :: kept)
    | rest, kept => rest.reverse ++ kept

/-- Characters that are escaped when they stand for themselves. -/
def isSpecial (c : Char) : Bool :=
  "()[]\x7b\x7d?*+-|^$\\.&~# \t\n\r\x0b\x0c".toList.contains c

/-- The expression for a character that stands for itself. -/
def literal (c : Char) : List Char :=
  if isSpecial c then ['\\', c] else [c]

/-- The members of a class as an expression writes them: backslashes doubled, slashes dropped. -/
def memberText (members : List Char) : List Char :=
  members.flatMap fun c => if c = '\\' then ['\\', '\\'] else if c = '/' then [] else [c]

/-- A class, with an exclamation mark at its start for the complement and a caret taken literally.
Nothing comes of a class without members. -/
def classText? (members : List Char) : Option (List Char) :=
  match memberText members with
  | [] => none
  | '!' :: rest => some ('[' :: '^' :: rest ++ [']'])
  | '^' :: rest => some ('[' :: '\\' :: '^' :: rest ++ [']'])
  | all => some ('[' :: all ++ [']'])

/-- The members of a class after its opening bracket, and what follows its closing bracket. A
closing bracket at the start, or right after the exclamation mark, is a member. -/
def splitClass? (rest : List Char) : Option (List Char × List Char) :=
  let (mark, afterMark) := match rest with
    | '!' :: more => (['!'], more)
    | _ => ([], rest)
  let (bracket, afterBracket) := match afterMark with
    | ']' :: more => ([']'], more)
    | _ => ([], afterMark)
  match afterBracket.dropWhile (· ≠ ']') with
  | _ :: after => some (mark ++ bracket ++ afterBracket.takeWhile (· ≠ ']'), after)
  | [] => none

theorem splitClass?_length {rest members after : List Char}
    (h : splitClass? rest = some (members, after)) : after.length ≤ rest.length := by
  unfold splitClass? at h
  split at h
  next mark afterMark hMark =>
  split at h
  next bracket afterBracket hBracket =>
  have hFirst : afterMark.length ≤ rest.length := by
    split at hMark <;> (cases hMark; simp)
  have hSecond : afterBracket.length ≤ afterMark.length := by
    split at hBracket <;> (cases hBracket; simp)
  split at h
  · next c final hFound =>
      cases h
      have hThird := (List.dropWhile_suffix (· ≠ ']') (l := afterBracket)).length_le
      rw [hFound] at hThird
      simp only [List.length_cons] at hThird
      omega
  · cases h

/-- The expression of a pattern between its anchors; nothing comes of an empty class. -/
def bodyText? : List Char → Option (List Char)
  | [] => some []
  | '*' :: '*' :: '/' :: rest => (bodyText? rest).map ("(.*[/])?".toList ++ ·)
  | '*' :: '*' :: rest => (bodyText? rest).map (".*".toList ++ ·)
  | '*' :: rest => (bodyText? rest).map ("[^/]*".toList ++ ·)
  | '?' :: rest => (bodyText? rest).map ("[^/]".toList ++ ·)
  | '/' :: rest => (bodyText? rest).map ("[/]".toList ++ ·)
  | '[' :: rest =>
    match _h : splitClass? rest with
    | none => (bodyText? rest).map ("\\[".toList ++ ·)
    | some (members, after) =>
      match classText? members with
      | none => none
      | some text => (bodyText? after).map (text ++ ·)
  | c :: rest => (bodyText? rest).map (literal c ++ ·)
termination_by cs => cs.length
decreasing_by
  all_goals
    first
    | (have hLength := splitClass?_length (by assumption)
       simp only [List.length_cons]
       omega)
    | (simp only [List.length_cons]; omega)

def expression? (negated directoryOnly anchored : Bool) (pattern : List Char) :
    Option (List Char) :=
  (bodyText? pattern).map fun body =>
    (if anchored then "^" else "(^|[/])").toList ++ body ++
      (if !directoryOnly then "$" else if negated then "/$" else "($|\\/)").toList

/-- The pattern without its first character if that is a slash; nothing comes of an empty one. -/
def dropSlash? : List Char → Option (List Char)
  | [] => none
  | '/' :: rest => some rest
  | cs => some cs

/-- The pattern without two stars at its start, and whether they were there. -/
def dropStars? : List Char → Option (List Char × Bool)
  | [] => none
  | '*' :: '*' :: rest => some (rest, true)
  | cs => some (cs, false)

def dropLastSlash? (pattern : List Char) : Option (List Char) :=
  match pattern.getLast? with
  | none => none
  | some c => some (if c = '/' then pattern.dropLast else pattern)

/-- The pattern without the backslash before a mark that would have a meaning at the start; a
backslash alone comes to nothing. -/
def unescapeStart? : List Char → Option (List Char)
  | [] => none
  | ['\\'] => none
  | '\\' :: c :: rest => some (if c = '#' ∨ c = '!' then c :: rest else '\\' :: c :: rest)
  | cs => some cs

/-- The rule of a pattern whose stars were joined; nothing if no pattern is left. -/
def ruleOf? (negated : Bool) (pattern : List Char) : Option Rule := do
  let last ← pattern.getLast?
  let directoryOnly := decide (last = '/')
  let slashInside := pattern.dropLast.contains '/'
  let (rest, unanchored) ← dropStars? (← dropSlash? pattern)
  let unescaped ← unescapeStart? (← dropLastSlash? (← dropSlash? rest))
  let anchored := slashInside && !unanchored
  let expression ← expression? negated directoryOnly anchored (trimSpaces unescaped)
  return { negated, directoryOnly, anchored, expression }

def readLine (line : List Char) : Line :=
  if (trim line).isEmpty || line.head? = some '#' then .silent
  else
    let (negated, rest) := match line with
      | '!' :: more => (true, more)
      | _ => (false, line)
    let pattern := joinStarsBefore (joinStarsAfter rest)
    if trimEnd pattern = ['/'] then .silent
    else match ruleOf? negated pattern with
      | some rule => .rule rule
      | none => .empty

end SignatureIndex.Ignore
