import SignatureIndex.Text.Lowercase

/-! Characters that are equal up to case, one by one: those with the same lower-case form of one
character, and those in a few classes beside it. -/
namespace SignatureIndex.Text

def simpleLower (c : Char) : Char :=
  if c.toNat = 0x130 then 'i' else shiftCase lowerShifts c

/-- Lower-case characters that share an upper-case form. -/
def caseClasses : List (List Nat) := [
  [0x69, 0x131], [0x73, 0x17F], [0xB5, 0x3BC], [0x345, 0x3B9, 0x1FBE], [0x390, 0x1FD3],
  [0x3B0, 0x1FE3], [0x3B2, 0x3D0], [0x3B5, 0x3F5], [0x3B8, 0x3D1], [0x3BA, 0x3F0], [0x3C0, 0x3D6],
  [0x3C1, 0x3F1], [0x3C2, 0x3C3], [0x3C6, 0x3D5], [0x432, 0x1C80], [0x434, 0x1C81],
  [0x43E, 0x1C82], [0x441, 0x1C83], [0x442, 0x1C84, 0x1C85], [0x44A, 0x1C86], [0x463, 0x1C87],
  [0x1C88, 0xA64B], [0x1E61, 0x1E9B], [0xFB05, 0xFB06]]

/-- The codes that one of the runs moves to a code. -/
def movedTo (code : Nat) : List Nat :=
  lowerShifts.filterMap fun run =>
    let source := (code - run.shift : Int).toNat
    if run.covers source ∧ (source : Int) + run.shift = code then some source else none

/-- The codes that stand for a character when case does not count. -/
def caseVariants (c : Char) : List Nat :=
  let small := (simpleLower c).toNat
  let related := (caseClasses.find? (·.contains small)).getD [small]
  related.flatMap fun code => code :: ((if code = 0x69 then [0x130] else []) ++ movedTo code)

/-- The codes that stand for a character when the case of ASCII letters does not count. -/
def asciiCaseVariants (c : Char) : List Nat :=
  [c.toNat, c.toLower.toNat, c.toUpper.toNat]

end SignatureIndex.Text
