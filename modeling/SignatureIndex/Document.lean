import SignatureIndex.Call.ActiveParameter
import SignatureIndex.Call.Context
import SignatureIndex.Log
import SignatureIndex.Signature.Table
import SignatureIndex.Source.Script
import SignatureIndex.Text.Pattern
import SignatureIndex.Text.Quoted

/-! What an editor asks about the document at the cursor: help for the call being typed, and
completions for the word being typed. -/
namespace SignatureIndex

open Text

/-- A document as the editor shows it. Line and character count from zero; without a character
the cursor stands at the end of its line. -/
structure Document where
  text : String
  line : Int
  character : Option Int
  language : Option String
  path : Option String

/-- Help for a call: the candidate signatures, the one to show, and the parameter reached. -/
structure SignatureHelp where
  signatures : List Signature
  activeSignature : Nat
  activeParameter : Nat

namespace Document

/-- The language served unless a config names another. -/
def defaultLanguage : String := "zscript"

/-- The text of the cursor's line before the cursor; empty if there is no such line. -/
def textBeforeCursor (document : Document) : List Char :=
  let lines := List.splitOn '\n' document.text.toList
  if document.line < 0 then []
  else match lines[document.line.toNat]? with
    | none => []
    | some line =>
      match document.character with
      | none => line
      | some stop => Source.sliceTo line stop

/-- The word that ends at the end of a text: possibly empty right after a word, and nothing where
no word starts or ends. A line feed at the very end does not count. -/
def wordPrefix? (text : List Char) : Option (List Char) :=
  (Cursor.start text).findFirst fun place =>
    (Pattern.both (.wordEdge isWordChar) (.many (.one isWordChar))).run place fun stop =>
      Pattern.textEnd.run stop fun _ => some (place.upTo stop)

def channel : String := "query.providers"

/-- Help for the call around the cursor, with what is logged on the way. -/
def signatureHelp (document : Document) (table : Table) (language : String) :
    Option SignatureHelp × List LogLine :=
  if document.language ≠ some language then (none, [])
  else match Call.context? document.textBeforeCursor with
    | none => (none, [])
    | some context =>
      match table.lookup? context.name with
      | none =>
        (none, [⟨.debug, channel, "No signature found for function: " ++ context.name⟩])
      | some signature =>
        let active := Call.activeParameter signature.parameterNames context.arguments.toList
        (some ⟨[signature], 0, active⟩,
          [⟨.debug, channel, "Providing signature help for " ++ context.name ++
            ", active param index: " ++ toString active⟩])

/-- Completions for the word at the cursor, with what is logged on the way. -/
def completions (document : Document) (table : Table) (language : String) :
    List Completion × List LogLine :=
  if document.language ≠ some language then ([], [])
  else match wordPrefix? document.textBeforeCursor with
    | none => ([], [])
    | some word =>
      let items := table.completions (String.ofList word)
      (items, [⟨.debug, channel, "Providing " ++ toString items.length ++
        " completion items for prefix: " ++ String.ofList (quoted word)⟩])

end Document

end SignatureIndex
