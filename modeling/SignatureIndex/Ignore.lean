import SignatureIndex.Environment
import SignatureIndex.Ignore.Rule
import SignatureIndex.Text.Expression.Reader

/-! Ignore files: their rules, and whether they ignore a path. A rule is looked for in the path
seen from the directory of its file. Without negated rules any match ignores; with one, the last
rule that matches decides. -/
namespace SignatureIndex.Ignore

open Text

/-- The rules of a file, and the directory they are seen from. -/
structure Matcher where
  base : Path
  rules : List Rule

/-- The rules of lines; a line of which nothing is left is refused. -/
def readLines : List (List Char) → Except Failure (List Rule)
  | [] => .ok []
  | line :: rest =>
    match readLine line with
    | .empty => .error .emptyRule
    | .silent => readLines rest
    | .rule rule => (readLines rest).map (rule :: ·)

/-- Reads an ignore file. Lines before ill-formed bytes are read first. -/
def readFile (env : Environment) (path : Path) : Except Failure Matcher :=
  match env.readLines path with
  | .error failure => .error failure
  | .ok read =>
    match readLines read.lines with
    | .error failure => .error failure
    | .ok rules =>
      if read.intact then .ok ⟨Path.absoluteFrom env.workingPath path.parent, rules⟩
      else .error .undecodable

/-- The failure that a fault of a rule's expression comes to. -/
def ruleFailure : Expression.Fault → Failure
  | .largeCount => .largeRepetition
  | .longCount digits => .longNumber digits
  | fault => .malformedRule fault.message

def Rule.occursIn (rule : Rule) (relative : String) : Except Failure Bool :=
  match Expression.read rule.expression with
  | .error fault => .error (ruleFailure fault)
  | .ok expression => .ok (expression.occursIn relative.toList)

/-- The first of some rules that occurs in a path. The path must lie below the rules' directory as
soon as there is a rule. -/
def firstMatch (base path : Path) : List Rule → Except Failure (Option Rule)
  | [] => .ok none
  | rule :: rest =>
    match path.relativeTo? base with
    | none => .error (.outside path.toString base.toString)
    | some relative =>
      match rule.occursIn relative.toString with
      | .error failure => .error failure
      | .ok true => .ok (some rule)
      | .ok false => firstMatch base path rest

def Matcher.ignores (env : Environment) (matcher : Matcher) (path : Path) :
    Except Failure Bool :=
  let absolute := Path.absoluteFrom env.workingPath path
  if matcher.rules.any (·.negated) then
    (firstMatch matcher.base absolute matcher.rules.reverse).map fun last =>
      last.any fun rule => !rule.negated
  else (firstMatch matcher.base absolute matcher.rules).map Option.isSome

/-- Whether one of several files ignores a path; files of directories that do not hold the path do
not count, nor does a file from a rule on that has a number with too many digits. -/
def anyIgnores (env : Environment) (path : Path) : List Matcher → Except Failure Bool
  | [] => .ok false
  | matcher :: rest =>
    match matcher.ignores env path with
    | .ok true => .ok true
    | .ok false => anyIgnores env path rest
    | .error (.outside _ _) => anyIgnores env path rest
    | .error (.longNumber _) => anyIgnores env path rest
    | .error failure => .error failure

end SignatureIndex.Ignore
