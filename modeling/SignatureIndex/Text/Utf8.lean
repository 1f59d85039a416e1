/-! UTF-8: bytes of a text, and a text from bytes. Ill-formed bytes are either refused or
replaced; a replacement stands for the longest start of a character that the bytes still
allowed, or for one byte if they allowed none. -/
namespace SignatureIndex.Text

def utf8Bytes (c : Char) : List UInt8 :=
  let n := c.toNat
  if n < 0x80 then [n.toUInt8]
  else if n < 0x800 then [(0xC0 + n / 0x40).toUInt8, (0x80 + n % 0x40).toUInt8]
  else if n < 0x10000 then
    [(0xE0 + n / 0x1000).toUInt8, (0x80 + n / 0x40 % 0x40).toUInt8, (0x80 + n % 0x40).toUInt8]
  else
    [(0xF0 + n / 0x40000).toUInt8, (0x80 + n / 0x1000 % 0x40).toUInt8,
      (0x80 + n / 0x40 % 0x40).toUInt8, (0x80 + n % 0x40).toUInt8]

def encodeUtf8 (cs : List Char) : List UInt8 :=
  cs.flatMap utf8Bytes

def utf8Size (s : String) : Nat :=
  (encodeUtf8 s.toList).length

def hasNull (text : String) : Bool :=
  text.toList.contains (Char.ofNat 0)

/-- What a first byte announces: the bits it carries, the range of the second byte, and how many
further bytes follow after the second. -/
def leadByte? (b : UInt8) : Option (Nat × Nat × Nat × Nat) :=
  let n := b.toNat
  if 0xC2 ≤ n ∧ n ≤ 0xDF then some (n - 0xC0, 0x80, 0xBF, 0)
  else if n = 0xE0 then some (0, 0xA0, 0xBF, 1)
  else if n = 0xED then some (0xD, 0x80, 0x9F, 1)
  else if 0xE1 ≤ n ∧ n ≤ 0xEF then some (n - 0xE0, 0x80, 0xBF, 1)
  else if n = 0xF0 then some (0, 0x90, 0xBF, 2)
  else if 0xF1 ≤ n ∧ n ≤ 0xF3 then some (n - 0xF0, 0x80, 0xBF, 2)
  else if n = 0xF4 then some (4, 0x80, 0x8F, 2)
  else none

/-- Reads the continuation bytes after a first byte: the character's code, or nothing if they end
early, and the bytes not used. -/
def continuation (code low high more : Nat) : List UInt8 → Option Nat × List UInt8
  | [] => (none, [])
  | b :: rest =>
    if low ≤ b.toNat ∧ b.toNat ≤ high then
      let code' := code * 0x40 + b.toNat % 0x40
      match more with
      | 0 => (some code', rest)
      | more + 1 => continuation code' 0x80 0xBF more rest
    else (none, b :: rest)

theorem continuation_length (code low high more : Nat) (bytes : List UInt8) :
    (continuation code low high more bytes).2.length ≤ bytes.length := by
  induction bytes generalizing code low high more with
  | nil => simp [continuation]
  | cons b rest ih =>
      simp only [continuation]
      split
      · cases more with
        | zero => simp
        | succ more => exact Nat.le_succ_of_le (ih _ _ _ _)
      · simp

/-- The first character of non-empty bytes, nothing where they are ill-formed, and the rest. -/
def firstChar (b : UInt8) (rest : List UInt8) : Option Char × List UInt8 :=
  if b.toNat < 0x80 then (some (Char.ofNat b.toNat), rest)
  else match leadByte? b with
    | none => (none, rest)
    | some (bits, low, high, more) =>
      let (code?, rest') := continuation bits low high more rest
      (code?.map Char.ofNat, rest')

theorem firstChar_length (b : UInt8) (rest : List UInt8) :
    (firstChar b rest).2.length ≤ rest.length := by
  unfold firstChar
  split
  · simp
  · split
    · simp
    · exact continuation_length _ _ _ _ _

/-- The characters of a byte sequence, with nothing in place of each ill-formed part. -/
def decodeParts : List UInt8 → List (Option Char)
  | [] => []
  | b :: rest =>
    (firstChar b rest).1 :: decodeParts (firstChar b rest).2
termination_by bytes => bytes.length
decreasing_by
  have := firstChar_length b rest
  simp only [List.length_cons]
  omega

/-- Decodes bytes and puts U+FFFD for each ill-formed part. -/
def decodeReplacing (bytes : List UInt8) : List Char :=
  (decodeParts bytes).map (·.getD (Char.ofNat 0xFFFD))

def decodeStrict? (bytes : List UInt8) : Option (List Char) :=
  (decodeParts bytes).mapM id

/-- Turns carriage returns, alone or before a line feed, into line feeds. -/
def unifyNewlines : List Char → List Char
  | [] => []
  | '\r' :: '\n' :: rest => '\n' :: unifyNewlines rest
  | c :: rest => (if c = '\r' then '\n' else c) :: unifyNewlines rest

end SignatureIndex.Text
