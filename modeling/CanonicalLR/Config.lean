import CanonicalLR.Build
import CanonicalLR.Json.Display
import CanonicalLR.Text.Lowercase

/-!
# Configurations from fields

A configuration is read from two optional fields.  A void value keeps the standard choice; any
other value is taken as text, in lower case, and must name a choice.  The conflict policy is read
before the strategy.
-/

namespace CanonicalLR

/-- The name of a policy. -/
def ConflictPolicy.name : ConflictPolicy → String
  | .overwrite => "overwrite"
  | .error => "error"

/-- The policy with a given name. -/
def ConflictPolicy.ofName? (name : String) : Option ConflictPolicy :=
  [overwrite, error].find? fun policy => policy.name = name

/-- The name of a strategy. -/
def FirstStrategy.name : FirstStrategy → String
  | .guarded => "guarded"
  | .fixedPoint => "fixed_point"

/-- The strategy with a given name. -/
def FirstStrategy.ofName? (name : String) : Option FirstStrategy :=
  [guarded, fixedPoint].find? fun strategy => strategy.name = name

/-- A value that names no choice. -/
inductive ConfigError where
  | unknownPolicy (name : List CodePoint)
  | unknownStrategy (name : List CodePoint)
deriving DecidableEq, Repr

/-- The explanation of a bad value. -/
def ConfigError.message : ConfigError → String
  | unknownPolicy name => Text.quoted name ++ " is not a valid ConflictPolicy"
  | unknownStrategy name => Text.quoted name ++ " is not a valid FirstStrategy"

namespace Config

/-- The name that a value gives. -/
def nameOf (value : Json) : List CodePoint := Text.lower value.display

/-- The policy that a value chooses. -/
def readPolicy (value : Json) : Except ConfigError ConflictPolicy :=
  if value.isVoid then .ok standard.conflictPolicy
  else
    match (Text.ofPoints? (nameOf value)).bind ConflictPolicy.ofName? with
    | some policy => .ok policy
    | none => .error (.unknownPolicy (nameOf value))

/-- The strategy that a value chooses. -/
def readStrategy (value : Json) : Except ConfigError FirstStrategy :=
  if value.isVoid then .ok standard.firstStrategy
  else
    match (Text.ofPoints? (nameOf value)).bind FirstStrategy.ofName? with
    | some strategy => .ok strategy
    | none => .error (.unknownStrategy (nameOf value))

/-- The configuration that two values choose. -/
def read (policy strategy : Json) : Except ConfigError Config :=
  match readPolicy policy with
  | .error e => .error e
  | .ok conflictPolicy =>
    match readStrategy strategy with
    | .error e => .error e
    | .ok firstStrategy => .ok ⟨conflictPolicy, firstStrategy⟩

/-- The configuration in the fields `conflict_policy` and `first_strategy` of an object. -/
def ofFields (fields : Json) : Except ConfigError Config :=
  read (fields.field "conflict_policy") (fields.field "first_strategy")

end Config

end CanonicalLR
