import TypedReply.Reference.Rfc3339
import TypedReply.Error

/-!
# What a record class refuses

The problems that a record class finds in the values of its fields, and their messages.
-/

namespace TypedReply

/-- What a length is counted of. -/
inductive Sized where
  | text
  | list
  | set
  | frozenset
  | tuple
  | dictionary

namespace Sized

/-- The words for what has a length. -/
def subject : Sized → String
  | .text => "String"
  | .list => "List"
  | .set => "Set"
  | .frozenset => "Frozenset"
  | .tuple => "Tuple"
  | .dictionary => "Dictionary"

/-- The words for an amount. -/
def amount (sized : Sized) (n : Nat) : String :=
  let unit := match sized with
    | .text => " character"
    | _ => " item"
  Value.natText n ++ unit ++ (if n = 1 then "" else "s")

/-- The words for the length found, which texts do not report. -/
def found (sized : Sized) (actual : Nat) : String :=
  match sized with
  | .text => ""
  | _ => " after validation, not " ++ Value.natText actual

/-- The words for a length found too large. A set stops counting at the first item too many. -/
def excess (sized : Sized) (actual : Nat) : String :=
  match sized with
  | .set => " after validation, not more"
  | .frozenset => " after validation, not more"
  | other => other.found actual

end Sized

/-- Why a class refuses a value. -/
inductive Problem where
  | missing
  | notInteger
  | integerText
  | integerFraction
  | integerSize
  | notFinite
  | notBoolean
  | booleanWord
  | notNumber
  | numberText
  | notText
  /-- Bytes that are no UTF-8. -/
  | undecodable
  | notBytes
  | notDate
  | dateText (error : StampError)
  /-- A text that is neither a date nor a datetime. -/
  | dateFromText (error : StampError)
  /-- A datetime for a date with a time of day other than midnight. -/
  | inexactDate
  | notDateTime
  | dateTimeText (error : StampError)
  /-- A text that is neither a datetime nor a date. -/
  | dateTimeFromText (error : StampError)
  | notNone
  | notList
  | notSet
  | notFrozenset
  | notTuple
  | notDictionary
  /-- An item of a set that cannot be one. -/
  | notHashable
  | notRecord (className : String)
  /-- None of the expected values, given by their rendered forms. -/
  | notExpected (expected : List String)
  | below (bound : Value)
  | above (bound : Value)
  | tooShort (sized : Sized) (least actual : Nat)
  | tooLong (sized : Sized) (most actual : Nat)

namespace Problem

/-- Alternatives, the last set off by a word. -/
def alternatives : List String → String
  | [] => ""
  | [single] => single
  | several => ", ".intercalate several.dropLast ++ " or " ++ several.getLastD ""

/-- The text of a bound. -/
def boundText : Value → String
  | .float x => x.plainDisplay
  | .datetime t =>
    let isUtc := t.offset = some .utc
    let written := Iso.dateTimeText 'T' (if isUtc then { t with offset := none } else t)
    String.ofList (written ++ (if isUtc then ['Z'] else []))
  | bound => bound.display

/-- The message of a problem. -/
def message : Problem → String
  | .missing => "Field required"
  | .notInteger => "Input should be a valid integer"
  | .integerText => "Input should be a valid integer, unable to parse string as an integer"
  | .integerFraction => "Input should be a valid integer, got a number with a fractional part"
  | .integerSize => "Unable to parse input string as an integer, exceeded maximum size"
  | .notFinite => "Input should be a finite number"
  | .notBoolean => "Input should be a valid boolean"
  | .booleanWord => "Input should be a valid boolean, unable to interpret input"
  | .notNumber => "Input should be a valid number"
  | .numberText => "Input should be a valid number, unable to parse string as a number"
  | .notText => "Input should be a valid string"
  | .undecodable =>
    "Input should be a valid string, unable to parse raw data as a unicode string"
  | .notBytes => "Input should be a valid bytes"
  | .notDate => "Input should be a valid date"
  | .dateText error => "Input should be a valid date in the format YYYY-MM-DD, " ++ error.text
  | .dateFromText error => "Input should be a valid date or datetime, " ++ error.text
  | .inexactDate =>
    "Datetimes provided to dates should have zero time - e.g. be exact dates"
  | .notDateTime => "Input should be a valid datetime"
  | .dateTimeText error => "Input should be a valid datetime, " ++ error.text
  | .dateTimeFromText error => "Input should be a valid datetime or date, " ++ error.text
  | .notNone => "Input should be None"
  | .notList => "Input should be a valid list"
  | .notSet => "Input should be a valid set"
  | .notFrozenset => "Input should be a valid frozenset"
  | .notTuple => "Input should be a valid tuple"
  | .notDictionary => "Input should be a valid dictionary"
  | .notHashable => "Set items should be hashable"
  | .notRecord className => "Input should be a valid dictionary or instance of " ++ className
  | .notExpected expected => "Input should be " ++ alternatives expected
  | .below bound => "Input should be greater than or equal to " ++ boundText bound
  | .above bound => "Input should be less than or equal to " ++ boundText bound
  | .tooShort sized least actual =>
    sized.subject ++ " should have at least " ++ sized.amount least ++ sized.found actual
  | .tooLong sized most actual =>
    sized.subject ++ " should have at most " ++ sized.amount most ++ sized.excess actual

end Problem

end TypedReply
