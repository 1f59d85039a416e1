/-! Comments of a script. A block comment leaves its line feeds behind, so every line keeps its
number; a line comment leaves nothing. Quoted strings are not recognised: a comment mark inside
one starts a comment. -/
namespace SignatureIndex.Source

/-- The text after the first end mark of a block comment, with the number of line feeds before
it; nothing if the comment is never closed. -/
def blockEnd? : List Char → Option (Nat × List Char)
  | [] => none
  | '*' :: '/' :: rest => some (0, rest)
  | c :: rest =>
    match blockEnd? rest with
    | none => none
    | some (feeds, after) => some (if c = '\n' then feeds + 1 else feeds, after)

theorem blockEnd?_length {cs after : List Char} {feeds : Nat}
    (h : blockEnd? cs = some (feeds, after)) : after.length < cs.length := by
  fun_induction blockEnd? cs generalizing feeds after with
  | case1 => cases h
  | case2 rest =>
      cases h
      simp only [List.length_cons]
      omega
  | case3 => cases h
  | case4 c rest _ feeds' after' hEnd ih =>
      cases h
      have := ih hEnd
      simp only [List.length_cons]
      omega

/-- Replaces every closed block comment by the line feeds in it. -/
def blankBlocks : List Char → List Char
  | [] => []
  | '/' :: '*' :: rest =>
    match _hEnd : blockEnd? rest with
    | some (feeds, after) => List.replicate feeds '\n' ++ blankBlocks after
    | none => '/' :: blankBlocks ('*' :: rest)
  | c :: rest => c :: blankBlocks rest
termination_by cs => cs.length
decreasing_by
  · have := blockEnd?_length _hEnd
    simp only [List.length_cons]
    omega
  · simp
  · simp

/-- Removes every line comment, up to and without the line feed that ends it. -/
def dropLineComments : List Char → List Char
  | [] => []
  | '/' :: '/' :: rest => dropLineComments (rest.dropWhile (· ≠ '\n'))
  | c :: rest => c :: dropLineComments rest
termination_by cs => cs.length
decreasing_by
  · have := (List.dropWhile_sublist (fun c : Char => decide (c ≠ '\n')) (l := rest)).length_le
    simp only [List.length_cons]
    omega
  · simp

/-- Removes block comments and then line comments. -/
def stripComments (cs : List Char) : List Char :=
  dropLineComments (blankBlocks cs)

end SignatureIndex.Source
