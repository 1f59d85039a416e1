import SignatureIndex.Text.Blank

/-! A script with the name it is known by: a file path or the name of an archive entry. -/
namespace SignatureIndex.Source

open Text

/-- The items before a stop; a negative stop counts from the end. -/
def sliceTo {α : Type} (items : List α) (stop : Int) : List α :=
  if stop < 0 then items.take (items.length - stop.natAbs) else items.take stop.toNat

structure Script where
  identifier : String
  text : String

/-- The first lines of a script, each trimmed; a negative count leaves that many off the end, and
without a count they are all lines. -/
def Script.head (script : Script) (count : Option Int) : List String :=
  let lines := List.splitOn '\n' script.text.toList
  let shown := match count with
    | none => lines
    | some stop => sliceTo lines stop
  shown.map fun line => String.ofList (trim line)

def previewCount : Option Int := some 20

end SignatureIndex.Source
