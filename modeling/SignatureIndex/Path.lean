import SignatureIndex.Text.Blank

/-! Paths as written: leading slashes and the parts between slashes. Empty parts and single dots
are dropped, double dots are kept, since what they lead to depends on the links in a file tree. -/
namespace SignatureIndex

open Text

/-- How a path starts: with a part, with a slash, or with exactly two slashes, which are kept. -/
inductive PathStart where
  | relative
  | slash
  | doubleSlash
  deriving DecidableEq, Repr

def PathStart.text : PathStart → String
  | relative => ""
  | slash => "/"
  | doubleSlash => "//"

structure Path where
  start : PathStart
  parts : List String
  deriving DecidableEq, Repr

namespace Path

/-- The parts between slashes, without empty ones and single dots. -/
def partsOf (text : List Char) : List String :=
  ((List.splitOn '/' text).map String.ofList).filter fun part => part ≠ "" && part ≠ "."

/-- How a text starts. Three slashes or more count as one. -/
def startOf : List Char → PathStart
  | '/' :: '/' :: '/' :: _ => .slash
  | '/' :: '/' :: _ => .doubleSlash
  | '/' :: _ => .slash
  | _ => .relative

def ofString (text : String) : Path :=
  ⟨startOf text.toList, partsOf text.toList⟩

/-- The path as text; the empty relative path is a dot. -/
def toString (path : Path) : String :=
  let text := path.start.text ++ "/".intercalate path.parts
  if text = "" then "." else text

instance : ToString Path := ⟨toString⟩

def isAbsolute (path : Path) : Bool :=
  path.start ≠ .relative

/-- What can stand between the slashes of a path. -/
def IsPart (part : String) : Prop :=
  part ≠ "" ∧ part ≠ "." ∧ '/' ∉ part.toList

instance : DecidablePred IsPart := fun part =>
  inferInstanceAs (Decidable (part ≠ "" ∧ part ≠ "." ∧ '/' ∉ part.toList))

def below (path : Path) (names : List String) : Path :=
  ⟨path.start, path.parts ++ names⟩

/-- The path followed by another one, which wins if it is absolute. -/
def append (path other : Path) : Path :=
  if other.isAbsolute then other else path.below other.parts

/-- The path followed by the path that a text writes. -/
def child (path : Path) (name : String) : Path :=
  path.append (ofString name)

/-- The last part; a path without parts has the empty name. -/
def name (path : Path) : String :=
  path.parts.getLast?.getD ""

/-- The end of a name from its last dot on, unless the dot is its first or last character. -/
def suffixOf (name : List Char) : List Char :=
  let reversed := name.reverse
  match reversed.takeWhile (· ≠ '.'), reversed.dropWhile (· ≠ '.') with
  | [], _ => []
  | _, [] => []
  | _, [_] => []
  | ending, dot :: _ => dot :: ending.reverse

def suffix (path : Path) : String :=
  String.ofList (suffixOf path.name.toList)

def parent (path : Path) : Path :=
  ⟨path.start, path.parts.dropLast⟩

/-- All paths got by leaving off parts at the end, longest first. -/
def parents (path : Path) : List Path :=
  (List.range path.parts.length).reverse.map fun count => ⟨path.start, path.parts.take count⟩

def relativeTo? (path base : Path) : Option Path :=
  if path.start = base.start ∧ base.parts.isPrefixOf path.parts then
    some ⟨.relative, path.parts.drop base.parts.length⟩
  else none

/-- Settles double dots by the text alone: each takes back the part before it, and those at the
root are dropped. -/
def settleDots (absolute : Bool) : List String → List String → List String
  | kept, [] => kept.reverse
  | kept, part :: rest =>
    if part = ".." then
      match kept with
      | [] => settleDots absolute (if absolute then [] else [".."]) rest
      | last :: earlier =>
        if last = ".." then settleDots absolute (".." :: kept) rest
        else settleDots absolute earlier rest
    else settleDots absolute (part :: kept) rest

/-- The absolute form of a path seen from a directory, with double dots settled by the text. -/
def absoluteFrom (directory path : Path) : Path :=
  let whole := directory.append path
  ⟨whole.start, settleDots true [] whole.parts⟩

end Path

end SignatureIndex
