import SignatureIndex.Text.Quoted

/-! Why the text of a regular expression is refused. -/
namespace SignatureIndex.Text.Expression

inductive Refusal where
  /-- A class is not closed. -/
  | openClass
  /-- A range of characters runs backwards. -/
  | badRange (written : String)
  /-- A group is not closed. -/
  | openGroup
  /-- A closing parenthesis closes nothing. -/
  | closingParen
  /-- A repetition has nothing before it. -/
  | nothingToRepeat
  /-- A repetition follows another one. -/
  | repeatedTwice
  /-- A repetition has a least number above its largest. -/
  | bounds
  /-- The text ends within the opening of a group. -/
  | textEnds
  /-- A group is of an unknown kind. -/
  | unknownKind (written : String)
  /-- A comment is not closed. -/
  | openComment
  /-- A group has no name. -/
  | noName
  /-- The name of a group is not closed. -/
  | openName (closing : Char)
  /-- The name of a group is no name. -/
  | badName (name : String)
  /-- A group of that name is not known. -/
  | unknownName (name : String)
  /-- A group is referred to before it is closed. -/
  | openReference
  /-- A group of the same look back is referred to. -/
  | sameLookBack
  /-- A name is given twice. -/
  | nameTwice (name : String) (index earlier : Nat)
  /-- A condition asks for group zero. -/
  | groupZero
  /-- A condition asks for a group that is not there. -/
  | noGroup (index : Nat)
  /-- A condition has three branches. -/
  | threeBranches
  /-- The flag for a locale is used. -/
  | localeFlag
  /-- Flags for different kinds of text are mixed. -/
  | mixedFlags
  /-- Flags are not ended. -/
  | openFlags
  /-- A flag is not known. -/
  | unknownFlag
  /-- A flag that only a whole expression can have is turned on. -/
  | wholeFlagOn
  /-- A flag that only a whole expression can have is turned off. -/
  | wholeFlagOff
  /-- No flag is turned off. -/
  | noFlag
  /-- A flag for the kind of text is turned off. -/
  | kindFlagOff
  /-- Flags to be turned off are not ended. -/
  | openFlagsOff
  /-- A flag is turned on and off. -/
  | flagOnAndOff
  /-- Flags for the whole expression stand in its middle. -/
  | lateFlags
  deriving DecidableEq, Repr

def Refusal.message : Refusal → String
  | openClass => "unterminated character set"
  | badRange written => "bad character range " ++ written
  | openGroup => "missing ), unterminated subpattern"
  | closingParen => "unbalanced parenthesis"
  | nothingToRepeat => "nothing to repeat"
  | repeatedTwice => "multiple repeat"
  | bounds => "min repeat greater than max repeat"
  | textEnds => "unexpected end of pattern"
  | unknownKind written => "unknown extension ?" ++ written
  | openComment => "missing ), unterminated comment"
  | noName => "missing group name"
  | openName closing => "missing " ++ String.ofList [closing] ++ ", unterminated name"
  | badName name => "bad character in group name " ++ quotedString name
  | unknownName name => "unknown group name " ++ quotedString name
  | openReference => "cannot refer to an open group"
  | sameLookBack => "cannot refer to group defined in the same lookbehind subpattern"
  | nameTwice name index earlier =>
    "redefinition of group name " ++ quotedString name ++ " as group " ++ toString index ++
      "; was group " ++ toString earlier
  | groupZero => "bad group number"
  | noGroup index => "invalid group reference " ++ toString index
  | threeBranches => "conditional backref with more than two branches"
  | localeFlag => "bad inline flags: cannot use 'L' flag with a str pattern"
  | mixedFlags => "bad inline flags: flags 'a', 'u' and 'L' are incompatible"
  | openFlags => "missing -, : or )"
  | unknownFlag => "unknown flag"
  | wholeFlagOn => "bad inline flags: cannot turn on global flag"
  | wholeFlagOff => "bad inline flags: cannot turn off global flag"
  | noFlag => "missing flag"
  | kindFlagOff => "bad inline flags: cannot turn off flags 'a', 'u' and 'L'"
  | openFlagsOff => "missing :"
  | flagOnAndOff => "bad inline flags: flag turned on and off"
  | lateFlags => "global flags not at the start of the expression"

inductive Fault where
  /-- Something is wrong at a position. -/
  | refused (refusal : Refusal) (position : Nat)
  /-- A look back has no fixed width. -/
  | looseLookBack
  /-- A number of repetitions is too large. -/
  | largeCount
  /-- A number of repetitions has too many digits. -/
  | longCount (digits : Nat)
  deriving DecidableEq, Repr

def Fault.message : Fault → String
  | refused refusal position => refusal.message ++ " at position " ++ toString position
  | looseLookBack => "look-behind requires fixed-width pattern"
  | largeCount => "the repetition number is too large"
  | longCount digits => "the repetition number has " ++ toString digits ++ " digits"

end SignatureIndex.Text.Expression
