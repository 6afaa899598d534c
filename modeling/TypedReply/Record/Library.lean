import TypedReply.Record.Catalog

/-!
# The library of record classes

Record classes are built and make their instances by means of a library, which is a parameter: it is
given by what it answers, and whatever is to hold of its answers is assumed where it is used.
-/

namespace TypedReply

/-- A value refused by a class: where, what was found there, and why. -/
structure Refusal where
  path : Path
  received : Value
  message : String

/-- Why a class makes no instance. -/
inductive Rejection where
  | refused (refusal : Refusal)
  | fault (fault : Fault)

/-- What a library of record classes answers. -/
structure ClassLibrary where
  /-- The documentation of the class that all others extend. -/
  baseDoc : Option String
  /-- Why no class can have the given fields. -/
  objection? : List ClassField → Option Fault
  /-- Whether a value is within the limits of a field. -/
  allows : ClassField → Value → Bool
  /-- What a class makes of a value. -/
  validate : Catalog → ClassKey → Value → Except Rejection Value

def ClassLibrary.docOf (library : ClassLibrary) (cls : RecordClass) : Option String :=
  if cls.key = .base then library.baseDoc else cls.doc

end TypedReply
