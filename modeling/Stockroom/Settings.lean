import Stockroom.Text.Blank
import Stockroom.Text.Digits
import Stockroom.Text.Quoted
import Stockroom.Toml

/-!
# Settings

What a shop applies to every unit of work it opens. Settings start from the standard ones, take what a
TOML document gives, and then what two override variables give.
-/

namespace Stockroom

structure Settings where
  /-- The mode of every unit of work; without it the plan decides. -/
  readOnly : Option Bool := none
  /-- Whether a load fails when something it asks for is not there. -/
  strict : Bool := true
  /-- How long a lock request may wait, in milliseconds. -/
  waitMillis : UInt64 := 1500
deriving DecidableEq

inductive SettingsError where
  /-- There is no file of this name. -/
  | missingFile (path : String)
  | malformed
  | invalidValue (name value : String)
deriving DecidableEq

def SettingsError.message : SettingsError → String
  | .missingFile path =>
    s!"failed to read config file {path}: No such file or directory (os error 2)"
  | .malformed => "failed to parse config"
  | .invalidValue name value => s!"invalid value {Text.quoted value} for {name}"

namespace Settings

def standard : Settings := {}

/-! ## Documents -/

/-- Sets one field, unless the key is unknown or the value is of another kind. -/
def setField? (s : Settings) : String × Toml.Scalar → Option Settings
  | ("read_only", .boolean b) => some { s with readOnly := some b }
  | ("raise_on_not_found", .boolean b) => some { s with strict := b }
  | ("wait_timeout_ms", .integer n) =>
    if 0 ≤ n then some { s with waitMillis := UInt64.ofNat n.toNat } else none
  | _ => none

/-- The standard settings with what a document gives in their place. -/
def ofToml (text : String) : Except SettingsError Settings :=
  match (Toml.parse? text).bind fun entries => entries.foldlM setField? standard with
  | some s => .ok s
  | none => .error .malformed

/-- The settings of a file, given its contents if it exists. -/
def ofFile (path : String) : Option String → Except SettingsError Settings
  | some text => ofToml text
  | none => .error (.missingFile path)

/-! ## Overrides -/

def strictVariable : String := "SHOP_UOW_RAISE_ON_NOT_FOUND"

def waitVariable : String := "SHOP_UOW_WAIT_TIMEOUT_MS"

/-- The truth value of a word, in any case and with blank characters around it. -/
def truth? (value : String) : Option Bool :=
  let word := String.ofList ((Text.trim value.toList).map Char.toLower)
  if word ∈ ["1", "true", "yes"] then some true
  else if word ∈ ["0", "false", "no"] then some false
  else none

/-- The milliseconds a decimal number spells, with blank characters around it and at most one plus
sign before it. -/
def millis? (value : String) : Option UInt64 :=
  let digits := match Text.trim value.toList with
    | '+' :: cs => cs
    | cs => cs
  if digits.isEmpty then none
  else
    (Digits.read? 10 0 digits).bind fun n =>
      if n < UInt64.size then some (UInt64.ofNat n) else none

/-- What an override variable says, or what stands if it is not set. -/
def valueOf {α : Type} (lookup : String → Option String) (name : String)
    (read? : String → Option α) (standing : α) : Except SettingsError α :=
  match lookup name with
  | none => .ok standing
  | some value =>
    match read? value with
    | some a => .ok a
    | none => .error (.invalidValue name value)

/-- The settings with what the override variables give in their place. -/
def override (s : Settings) (lookup : String → Option String) : Except SettingsError Settings := do
  let strict ← valueOf lookup strictVariable truth? s.strict
  let waitMillis ← valueOf lookup waitVariable millis? s.waitMillis
  return { s with strict, waitMillis }

end Settings

end Stockroom
