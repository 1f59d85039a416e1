import SignatureIndex.Text.Printable

/-! Quoted form of a text, as messages show it: single quotes unless only double quotes avoid an
escape, backslash escapes, and hexadecimal escapes for what has no visible form. -/
namespace SignatureIndex.Text

/-- The digits of a number in base sixteen, padded with zeros to a width. -/
def hexDigits (width n : Nat) : List Char :=
  let digits := Nat.toDigits 16 n
  List.replicate (width - digits.length) '0' ++ digits

def quoteFor (cs : List Char) : Char :=
  if cs.contains '\'' && !cs.contains '"' then '"' else '\''

/-- One character inside quotes. -/
def quoteChar (quote c : Char) : List Char :=
  if c = quote ∨ c = '\\' then ['\\', c]
  else if c = '\t' then ['\\', 't']
  else if c = '\n' then ['\\', 'n']
  else if c = '\r' then ['\\', 'r']
  else if isPrintable c then [c]
  else if c.toNat < 0x100 then '\\' :: 'x' :: hexDigits 2 c.toNat
  else if c.toNat < 0x10000 then '\\' :: 'u' :: hexDigits 4 c.toNat
  else '\\' :: 'U' :: hexDigits 8 c.toNat

def quoted (cs : List Char) : List Char :=
  let quote := quoteFor cs
  quote :: (cs.flatMap (quoteChar quote) ++ [quote])

def quotedString (s : String) : String :=
  String.ofList (quoted s.toList)

/-- The quoted form of raw bytes: everything outside printable ASCII is escaped. -/
def quotedBytes (bytes : List UInt8) : String :=
  let cs := bytes.map fun b => Char.ofNat b.toNat
  let quote := quoteFor cs
  let one (c : Char) : List Char :=
    if 0x80 ≤ c.toNat then '\\' :: 'x' :: hexDigits 2 c.toNat else quoteChar quote c
  String.ofList ('b' :: quote :: (cs.flatMap one ++ [quote]))

end SignatureIndex.Text
