import BondSvd.Binary64.Scalar
import BondSvd.Binary64.Reading
import BondSvd.Policy
import BondSvd.Text.Blank

/-! The policy that environment variables ask for. Each recognised variable replaces one
default; a value that cannot be used is ignored with a warning. -/
namespace BondSvd

/-- Variables with the bytes of their values. -/
abbrev Environment := List (String × ByteArray)

/-- The text of a variable. One whose bytes are no UTF-8 counts as unset. -/
def Environment.text? (env : Environment) (name : String) : Option String :=
  (env.lookup name).bind String.fromUTF8?

/-- Why a variable was ignored. -/
inductive PolicyWarning
  | unreadable (name raw : String)
  | factorRange (factor : Float)
  | notBoolean (raw : String)

def PolicyWarning.message : PolicyWarning → String
  | .unreadable name raw => s!"ignoring {name}={raw}: could not parse value"
  | .factorRange factor =>
    s!"ignoring MPS_SVD_MUL_FACTOR={Binary64.text factor}: must be a finite value > 1"
  | .notBoolean raw => s!"ignoring MPS_SVD_VALIDATE={raw}: expected a boolean"

namespace Policy

/-- Decimal digits with an optional plus sign, for a number below `2 ^ 64`. -/
def readWord? (chars : List Char) : Option UInt64 :=
  let digits := match chars with
    | '+' :: digits => digits
    | digits => digits
  if digits.isEmpty ∨ ¬digits.all Char.isDigit then none
  else
    let value := Binary64.digitsValue digits
    if value < UInt64.size then some (UInt64.ofNat value) else none

/-- A word for true or false, in letters of either case. All letters of these words are
ASCII, and no other character has one of them as its lower case. -/
def readFlag? (chars : List Char) : Option Bool :=
  let word := String.ofList ((Text.strip chars).map Char.toLower)
  if word ∈ ["1", "true", "yes", "on"] then some true
  else if word ∈ ["0", "false", "no", "off"] then some false
  else none

/-- What a variable says about a setting: the value, or why it is ignored. -/
def readVariable {β : Type} (env : Environment) (name : String) (read? : List Char → Option β) :
    Option β × List PolicyWarning :=
  match env.text? name with
  | none => (none, [])
  | some raw => match read? (Text.strip raw.toList) with
    | some value => (some value, [])
    | none => (none, [.unreadable name raw])

/-- A factor has to be finite and larger than one. -/
def readFactor (env : Environment) : Option Float × List PolicyWarning :=
  match readVariable env "MPS_SVD_MUL_FACTOR" fun chars => Binary64.read? (String.ofList chars) with
  | (some factor, warnings) =>
    if 1 < factor ∧ factor.isFinite then (some factor, warnings)
    else (none, warnings ++ [.factorRange factor])
  | (none, warnings) => (none, warnings)

def readValidate (env : Environment) : Option Bool × List PolicyWarning :=
  match env.text? "MPS_SVD_VALIDATE" with
  | none => (none, [])
  | some raw => match readFlag? raw.toList with
    | some flag => (some flag, [])
    | none => (none, [.notBoolean raw])

/-- The defaults with the variables applied, and the warnings in their order. -/
def ofEnvironment (env : Environment) : Policy Float × List PolicyWarning :=
  let readFloat (name : String) := readVariable env name fun chars =>
    Binary64.read? (String.ofList chars)
  let retries := readVariable env "MPS_SVD_MAX_RETRIES" readWord?
  let factor := readFactor env
  let validate := readValidate env
  let absCutoff := readFloat "MPS_SVD_ABS_CUTOFF"
  let relCutoff := readFloat "MPS_SVD_REL_CUTOFF"
  let base : Policy Float := {}
  ({ base with
      maxRetries := retries.1.getD base.maxRetries
      rescaleFactor := factor.1.getD base.rescaleFactor
      validate := validate.1.getD base.validate
      absCutoff := absCutoff.1.getD base.absCutoff
      relCutoff := relCutoff.1.getD base.relCutoff },
    retries.2 ++ factor.2 ++ validate.2 ++ absCutoff.2 ++ relCutoff.2)

end Policy
end BondSvd
