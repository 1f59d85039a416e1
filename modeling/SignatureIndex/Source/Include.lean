import SignatureIndex.Source.Comment
import SignatureIndex.Text.Blank
import SignatureIndex.Text.Pattern

/-! Include directives of a script: a line that starts with `#include`, in any case, and names a
path in double quotes. Directives inside comments do not count. -/
namespace SignatureIndex.Source

open Text

/-- A character of the directive's keyword. Without regard to case the letter i has two further
forms, the dotted capital and the dotless small letter. -/
def keywordChar (c : Char) : Pattern :=
  .one fun d => d.toLower = c ||
    (c = 'i' && (d.toNat = 0x130 || d.toNat = 0x131))

/-- What stands before the path: keyword, blanks, and the opening quote. -/
def directiveOpening : Pattern :=
  .all [.all ("#include".toList.map keywordChar), .atLeastOnce (.one isBlank), .text "\""]

/-- The path of a directive that starts at a place, and the place after its closing quote. Before
it stand only blanks from the start of a line on; they may include line feeds, as those after the
keyword may. -/
def directiveAt? (place : Cursor) : Option (List Char × Cursor) :=
  Pattern.lineStart.run place fun start =>
    directiveOpening.run (start.skip isBlank) fun opened =>
      (Pattern.atLeastOnce (.one (· ≠ '"'))).run opened fun closing =>
        (Pattern.text "\"").run closing fun after => some (opened.upTo closing, after)

/-- A path as the rest of the library reads it: trimmed, with forward slashes. -/
def includePath (raw : List Char) : List Char :=
  replaceChar '\\' '/' (trim raw)

/-- The paths of the include directives of a script, in order and with repetitions. -/
def includes (script : List Char) : List (List Char) :=
  ((Cursor.start (stripComments script)).findAll directiveAt?).map includePath

end SignatureIndex.Source
