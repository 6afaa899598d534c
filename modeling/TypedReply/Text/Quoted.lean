import TypedReply.Text.Printable

/-!
# Quoted text

The quoted form of a text stands between single quotes, or between double quotes when it holds
single quotes only. The quote and the backslash are escaped by a backslash; line feed, carriage
return and tab have letter escapes; every other unprintable character is written by its code point
in two, four or eight hexadecimal digits.
-/

namespace TypedReply.Text

/-- The lower-case hexadecimal digit of a number below sixteen. -/
def hexDigit (n : Nat) : Char :=
  if n < 10 then Char.ofNat (48 + n) else Char.ofNat (87 + n)

/-- The last `width` hexadecimal digits of a number, most significant first. -/
def hexDigits : Nat → Nat → List Char
  | 0, _ => []
  | width + 1, n => hexDigits width (n / 16) ++ [hexDigit (n % 16)]

/-- The escape of an unprintable character by its code point. -/
def codeEscape (code : Nat) : List Char :=
  if code ≤ 0xFF then '\\' :: 'x' :: hexDigits 2 code
  else if code ≤ 0xFFFF then '\\' :: 'u' :: hexDigits 4 code
  else '\\' :: 'U' :: hexDigits 8 code

/-- One character between the quotes. -/
def quotedChar (quote c : Char) : List Char :=
  if c = quote || c = '\\' then ['\\', c]
  else if c = '\n' then ['\\', 'n']
  else if c = '\r' then ['\\', 'r']
  else if c = '\t' then ['\\', 't']
  else if isPrintable c then [c]
  else codeEscape c.toNat

/-- Double quotes are used exactly for a text with single quotes and no double quote. -/
def quoteMark (cs : List Char) : Char :=
  if cs.contains '\'' && !cs.contains '"' then '"' else '\''

/-- The quoted form of a text. -/
def quotedChars (cs : List Char) : List Char :=
  let quote := quoteMark cs
  quote :: (cs.flatMap (quotedChar quote) ++ [quote])

def quoted (text : String) : String := String.ofList (quotedChars text.toList)

/-- The quoted form of a sequence of bytes: every byte outside printable ASCII is escaped. -/
def quotedBytes (bytes : List UInt8) : String :=
  let cs := bytes.map fun byte => Char.ofNat byte.toNat
  let quote := quoteMark cs
  let one (c : Char) : List Char :=
    if c.toNat < 0x80 then quotedChar quote c else codeEscape c.toNat
  String.ofList ('b' :: quote :: (cs.flatMap one ++ [quote]))

end TypedReply.Text
