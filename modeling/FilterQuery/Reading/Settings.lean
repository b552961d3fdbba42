import FilterQuery.Number.Whole
import FilterQuery.Reading.Words
import FilterQuery.Settings

/-!
# Reading settings

Settings are read by their names, whatever the case of the letters, and names that are no setting
do not count.  An integer may be written as text, or be a truth value or a fraction without
decimals.  Whatever spelling a setting was given by, an issue names it as it is called.
-/

namespace FilterQuery.Reading

open Number

/-- The integer that a text denotes. -/
def typedInteger (s : String) : Reading Int :=
  match readWhole s with
  | .ok n => pure n
  | .error .malformed => fail .unreadableInteger
  | .error .tooLong => fail .integerTooLong

/-- The bound that the size of a fraction has to stay below in order to be taken as an integer. -/
def wholeBound : Nat := Nat.pow 2 63

/-- The integer that a fraction without decimals is. -/
def wholeFraction (x : Binary64) : Reading Int :=
  if !x.isFinite then fail .notFinite
  else if !x.isWhole then fail .fractional
  else if x.integerPart.natAbs < wholeBound then pure x.integerPart
  else fail .integerTooLong

/-- An integer. -/
def wholeNumber : Input → Reading Int
  | .int n => pure n
  | .bool b => pure (if b then 1 else 0)
  | .float x => wholeFraction x
  | .text s => typedInteger s
  | .bytes octets => typedInteger (Text.decodeOctets octets)
  | _ => fail .notInteger

/-- A relation by its exact word. -/
def relationKeyword : Input → Reading Relation
  | .text word =>
      match Relation.ofKeyword? word with
      | some relation => pure relation
      | none => fail .notAnOption
  | _ => fail .notAnOption

/-- What is given for a setting: under its own name, or else under the first name that differs
from it only in the case of letters. -/
def given? (name : String) (fields : List (String × Input)) : Option Input :=
  (Input.get? name fields).or
    ((fields.find? fun (key, _) => key.toLower == name.toLower).map (·.2))

/-- A setting, which keeps its default if nothing is given for it. -/
def setting {α : Type} (name : String) (fields : List (String × Input)) (default : α)
    (read : Input → Reading α) : Reading α :=
  match given? name fields with
  | some input => (read input).within (.field name)
  | none => pure default

/-- Settings, where those that are not named keep their defaults. -/
def settings (fields : List (String × Input)) : Reading Settings :=
  let default : Settings := {}
  Settings.mk
    <$> setting "SUGGEST_DEFAULT_SIZE" fields default.suggestDefaultSize wholeNumber
    <*> setting "SUGGEST_MAX_SIZE" fields default.suggestMaxSize wholeNumber
    <*> setting "DEFAULT_RELATION" fields default.defaultRelation relationKeyword
    <*> setting "ID_PREFIX" fields default.idStem text
    <*> setting "LOG_LEVEL" fields default.logLevel text

end FilterQuery.Reading
