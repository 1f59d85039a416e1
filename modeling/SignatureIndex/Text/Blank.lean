/-! Blank characters, trimming, and splitting at blanks. Two notions of blank are kept
apart: the six ASCII blanks separate the parts of a declaration, and all blanks of Unicode
are trimmed from lines, paths and parameters. -/
namespace SignatureIndex.Text

/-- The ASCII blanks: space, tab, line feed, vertical tab, form feed, carriage return. -/
def isAsciiBlank (c : Char) : Bool :=
  c = ' ' || decide (0x09 ≤ c.toNat ∧ c.toNat ≤ 0x0D)

/-- The blanks of Unicode, together with the four ASCII information separators. -/
def isBlank (c : Char) : Bool :=
  isAsciiBlank c || decide (0x1C ≤ c.toNat ∧ c.toNat ≤ 0x1F) ||
    c.toNat = 0x85 || c.toNat = 0xA0 || c.toNat = 0x1680 ||
    decide (0x2000 ≤ c.toNat ∧ c.toNat ≤ 0x200A) ||
    c.toNat = 0x2028 || c.toNat = 0x2029 || c.toNat = 0x202F || c.toNat = 0x205F ||
    c.toNat = 0x3000

/-- Drops the characters at the end that satisfy `p`. -/
def dropEndWhile (p : Char → Bool) (cs : List Char) : List Char :=
  (cs.reverse.dropWhile p).reverse

def trim (cs : List Char) : List Char :=
  dropEndWhile isBlank (cs.dropWhile isBlank)

def trimEnd (cs : List Char) : List Char :=
  dropEndWhile isBlank cs

/-- The maximal runs of characters that are not blank. -/
def words : List Char → List (List Char)
  | [] => []
  | c :: rest =>
    if isBlank c then words rest
    else match rest with
      | [] => [[c]]
      | d :: _ =>
        if isBlank d then [c] :: words rest
        else match words rest with
          | [] => [[c]]
          | word :: more => (c :: word) :: more

/-- Replaces every `old` by `new`. -/
def replaceChar (old new : Char) (cs : List Char) : List Char :=
  cs.map fun c => if c = old then new else c

/-- The rest after a leading `word`, if the text starts with it. -/
def dropLead? : List Char → List Char → Option (List Char)
  | [], cs => some cs
  | _ :: _, [] => none
  | w :: word, c :: cs => if w = c then dropLead? word cs else none

/-- Whether `word` stands at the start of the text. -/
def startsWith (word cs : List Char) : Bool :=
  (dropLead? word cs).isSome

theorem dropLead?_eq_some_iff {word cs rest : List Char} :
    dropLead? word cs = some rest ↔ cs = word ++ rest := by
  induction word generalizing cs with
  | nil => simp [dropLead?]
  | cons w word ih =>
      cases cs with
      | nil => simp [dropLead?]
      | cons c cs =>
          by_cases h : w = c
          · subst h
            simp [dropLead?, ih]
          · simp only [dropLead?, h, if_false, List.cons_append, List.cons.injEq]
            constructor
            · intro hNone
              cases hNone
            · intro hCons
              exact absurd hCons.1.symm h

end SignatureIndex.Text
