import FilterQuery.Relation

/-!
# Settings

What a deployment may adjust: how many suggestions are given, which relation joins parts that
state none, how identifiers begin, and how much is logged.

Main results:

- `Settings.one_le_suggestLimit`: whatever the settings are, one suggestion may be asked for.
-/

namespace FilterQuery

/-- The adjustable values, with their defaults. -/
structure Settings where
  suggestDefaultSize : Int := 100
  suggestMaxSize : Int := 1000
  defaultRelation : Relation := .and
  idStem : String := "filter"
  logLevel : String := "WARNING"
deriving DecidableEq, Repr

/-- The most suggestions that are ever given. -/
def Settings.suggestLimit (settings : Settings) : Int :=
  max 1 settings.suggestMaxSize

/-- Whatever the settings are, one suggestion may be asked for. -/
theorem Settings.one_le_suggestLimit (settings : Settings) : 1 ≤ settings.suggestLimit :=
  Int.le_max_left 1 settings.suggestMaxSize

end FilterQuery
