import TypedReply.Digest.Sha256
import TypedReply.Json.Text

/-!
# Stable JSON

Text that does not depend on the order of keys, and a short fingerprint of it.
-/

namespace TypedReply.Json

/-- The style of stable text: sorted keys, items on lines of their own. -/
def stable : Style := ⟨some 2, [','], [':', ' '], true⟩

/-- The style of the text that a fingerprint is taken of: sorted keys and no blanks. -/
def compact : Style := ⟨none, [','], [':'], true⟩

def stableText (value : Value) : Outcome String := text stable value

/-- The first `digits` hexadecimal digits of the hash of a text. -/
def fingerprintOf (digits : Nat) (content : String) : String :=
  let bytes := Sha256.hash content.toUTF8.toList
  String.ofList ((bytes.flatMap fun byte => Text.hexDigits 2 byte.toNat).take digits)

/-- A short hash of a value that does not depend on the order of keys. -/
def fingerprint (value : Value) : Outcome String :=
  (text compact value).map (fingerprintOf 16)

end TypedReply.Json
