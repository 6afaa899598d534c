import TypedReply.Error
import TypedReply.Text.LowerCase

/-!
# Options

The options of schema compilation, read from explicit settings, else from the environment, else from
the defaults.
-/

namespace TypedReply

/-- The environment settings that options are read from. -/
structure Environment where
  defsKey : Option String
  structDescriptions : Option String
  maxDepth : Option String

/-- The options of schema compilation. -/
structure Options where
  /-- The key under which a document holds its definitions. -/
  defsKey : String
  /-- Whether structs are described. -/
  structDescriptions : Bool
  /-- The greatest nesting depth that is not reported. -/
  maxDepth : Int

namespace Options

def defaults : Options := ⟨"$defs", true, 5⟩

instance : Inhabited Options := ⟨defaults⟩

def refPrefix (options : Options) : String := "#/" ++ options.defsKey ++ "/"

def onWords : List String := ["1", "true", "yes", "on"]

def offWords : List String := ["0", "false", "no", "off"]

/-- The Boolean of an environment setting. -/
def flag (setting : String) (fallback : Bool) : Option String → Outcome Bool
  | none => .ok fallback
  | some raw =>
    let word := String.ofList (Text.lower (Text.trim raw.toList))
    if onWords.contains word then .ok true
    else if offWords.contains word then .ok false
    else .fault (.invalidFlag setting raw)

/-- The integer of an environment setting; a blank setting counts as none. -/
def integer (setting : String) (fallback : Int) : Option String → Outcome Int
  | none => .ok fallback
  | some raw =>
    if (Text.trim raw.toList).isEmpty then .ok fallback
    else
      match Numeral.integer? (Text.trimBy Numeral.isMargin raw.toList) with
      | some n => .ok n
      | none => .fault (.invalidInteger setting raw)

/-- The environment setting for struct descriptions. -/
def flagSetting : String := "TYPEBRIDGE_STRUCT_DESCRIPTIONS"

/-- The environment setting for the nesting depth. -/
def depthSetting : String := "TYPEBRIDGE_MAX_SCHEMA_DEPTH"

def nonEmpty (text : Option String) : Option String := text.filter (· ≠ "")

/-- The options of an environment; explicit settings win over it. -/
def ofEnvironment (env : Environment) (defsKey : Option String) (structDescriptions : Option Bool)
    (maxDepth : Option Int) : Outcome Options := do
  let defsKey := (nonEmpty defsKey <|> nonEmpty env.defsKey).getD defaults.defsKey
  let structDescriptions ← structDescriptions.elim
    (flag flagSetting defaults.structDescriptions env.structDescriptions) .ok
  let maxDepth ← maxDepth.elim (integer depthSetting defaults.maxDepth env.maxDepth) .ok
  .ok ⟨defsKey, structDescriptions, maxDepth⟩

end Options

end TypedReply
