import FilterQuery.Settings
import FilterQuery.Text.Upper

/-!
# Logging

Loggers are named under one root, and the level at which they write is named by a word, in any
case of its letters.
-/

namespace FilterQuery.Logging

/-- The name of the root of all loggers. -/
def rootName : String := "filter_composer"

/-- The full name of a logger. -/
def loggerName (name : String) : String :=
  if rootName.toList.isPrefixOf name.toList then name else rootName ++ "." ++ name

/-- The levels at which messages are logged. -/
def levels : List String :=
  ["CRITICAL", "FATAL", "ERROR", "WARN", "WARNING", "INFO", "DEBUG", "NOTSET"]

/-- The level that is asked for, the one of the settings if none is. -/
def level (settings : Settings) (asked : Option String) : String :=
  Text.upper ((asked.filter fun word => !word.isEmpty).getD settings.logLevel)

end FilterQuery.Logging
