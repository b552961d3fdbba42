import FilterQuery.Filter.Preview
import FilterQuery.Json.Writer
import FilterQuery.Logging
import FilterQuery.Submission
import FilterQuery.Table.Csv
import FilterQuery.Text.Terminal

/-!
# The command line

Four commands work on files: `compile` prints the query document of a filter, `preview` prints the
filter for people, `fields` lists the fields of a sample and `values` suggests values of a field.
A filter file holds JSON, or rows if its name ends in `.csv`.

Options may stand before and after the arguments of a command.  An unknown command is found out
first, then an unknown log level, then whatever is wrong with the arguments of the command.
-/

namespace FilterQuery.CommandLine

open Number

/-- What is to be done. -/
inductive Command where
  | compile (path : String) (flat : Bool) (label : Option String)
  | preview (path : String) (flat markup : Bool)
  | fields (path : String)
  | values (path field : String) (search : Option String) (size : Option Int)
deriving DecidableEq, Repr

/-- Why nothing is done, or not all of it. -/
inductive Failure where
  /-- The arguments are not understood. -/
  | usage
  | unknownLogLevel (level : String)
  | filterFileNotFound (path : String)
  | dataFileNotFound (path : String)
  /-- The file does not describe a filter. -/
  | invalidFilterFile (path : String)
  /-- The path leads to a folder. -/
  | folder
  /-- The file does not hold a table. -/
  | noTable (fault : Csv.TableFault)
  | nothingUsable
  | lookupFailed (notices : List Notice)
  | digitLimit (limit : DigitLimit)
deriving DecidableEq, Repr

/-- What is printed: a text, and warnings apart from it. -/
structure Output where
  text : String
  warnings : List String := []
deriving DecidableEq, Repr

namespace Failure

/-- The exit code of a failure. -/
def exitCode : Failure → Nat
  | usage => 2
  | _ => 1

/-- What is printed about a failure. -/
def text : Failure → String
  | filterFileNotFound path => "Filter file not found: " ++ path
  | dataFileNotFound path => "Data file not found: " ++ path
  | invalidFilterFile path => "Invalid filter file " ++ path
  | nothingUsable => "No usable filters"
  | lookupFailed notices => String.intercalate "\n" (notices.map Notice.message)
  | usage | unknownLogLevel _ | folder | noTable _ | digitLimit _ => ""

end Failure

/-! ## Paths -/

/-- The parts of a path between its slashes. -/
def segments : List Char → List (List Char)
  | [] => [[]]
  | c :: rest =>
      match segments rest with
      | [] => [[c]]
      | part :: parts => if c = '/' then [] :: part :: parts else (c :: part) :: parts

/-- The parts of a path that lead somewhere. -/
def steps (path : String) : List String :=
  (segments path.toList).filterMap fun part =>
    if part == [] || part == ['.'] then none else some (String.ofList part)

/-- The slashes that a path without the parts that lead nowhere starts with: two of them are kept,
and more count as one. -/
def leadingSlashes (path : String) : String :=
  match (path.toList.takeWhile (· == '/')).length with
  | 0 => ""
  | 2 => "//"
  | _ => "/"

/-- A path without the parts that lead nowhere. -/
def tidyPath (path : String) : String :=
  let tidy := leadingSlashes path ++ String.intercalate "/" (steps path)
  if tidy.isEmpty then "." else tidy

/-- Whether the name of a file ends in `.csv`, in any case of the letters. -/
def isCsv (path : String) : Bool :=
  let name := (((steps path).getLast?).getD "").toList.map Char.toLower
  ".csv".toList.isSuffixOf name && 4 < name.length

/-! ## Arguments -/

/-- An option of a command. -/
inductive OptionKind where
  /-- An option that is followed by a value. -/
  | valued (name : String)
  /-- An option that stands alone. -/
  | flag (name : String)
deriving DecidableEq, Repr

/-- What has been found in the arguments of a command. -/
structure Arguments where
  positional : List String := []
  values : List (String × String) := []
  flags : List String := []
deriving DecidableEq, Repr

namespace Arguments

/-- The value of an option; of several the last one counts. -/
def value? (arguments : Arguments) (name : String) : Option String :=
  arguments.values.reverse.lookup name

/-- Whether a flag is set. -/
def has (arguments : Arguments) (name : String) : Bool :=
  arguments.flags.contains name

/-- One more positional argument. -/
def withPositional (arguments : Arguments) (argument : String) : Arguments :=
  { arguments with positional := arguments.positional ++ [argument] }

/-- One more option with its value. -/
def withValue (arguments : Arguments) (name value : String) : Arguments :=
  { arguments with values := arguments.values ++ [(name, value)] }

end Arguments

/-- The parts of an argument before and after its first equals sign. -/
def splitEquals (argument : String) : String × Option String :=
  let characters := argument.toList
  let name := String.ofList (characters.takeWhile (· != '='))
  match characters.dropWhile (· != '=') with
  | [] => (name, none)
  | _ :: value => (name, some (String.ofList value))

/-- Whether an argument is an option: it starts with a dash and is not a dash alone. -/
def isOption (argument : String) : Bool :=
  argument.toList.head? == some '-' && argument != "-"

/-- Reads one option.  `options` gives the options by their spellings.  The value of an option is
the rest of the argument, or else the next argument. -/
def readOption (options : List (String × OptionKind)) (argument : String) (rest : List String)
    (found : Arguments) : Except Failure (Arguments × List String) :=
  let long := "--".toList.isPrefixOf argument.toList
  let (name, attached) :=
    if long then splitEquals argument
    else
      let (name, tail) := (argument.toList.take 2, argument.toList.drop 2)
      (String.ofList name, if tail.isEmpty then none else some (String.ofList tail))
  match options.lookup name, attached, rest with
  | some (.flag flag), none, _ => .ok ({ found with flags := found.flags ++ [flag] }, rest)
  | some (.valued option), some value, _ => .ok (found.withValue option value, rest)
  | some (.valued option), none, value :: rest => .ok (found.withValue option value, rest)
  | _, _, _ => .error .usage

/-- Reads arguments.  Two dashes end the options; `interspersed` says whether options may follow
an argument.  Every step takes at least one argument, so their count is enough fuel. -/
def readArguments (options : List (String × OptionKind)) (interspersed : Bool) :
    Nat → List String → Arguments → Except Failure (Arguments × List String)
  | 0, rest, found => .ok (found, rest)
  | _, [], found => .ok (found, [])
  | fuel + 1, argument :: rest, found =>
      if argument == "--" then .ok (found, rest)
      else if isOption argument then do
        let (found, rest) ← readOption options argument rest found
        readArguments options interspersed fuel rest found
      else if interspersed then
        readArguments options interspersed fuel rest (found.withPositional argument)
      else .ok (found, argument :: rest)

/-- The options and the arguments of a command. -/
def commandArguments (options : List (String × OptionKind)) (arguments : List String) :
    Except Failure Arguments := do
  let (found, rest) ← readArguments options true arguments.length arguments {}
  return { found with positional := found.positional ++ rest }

/-- The names of the commands. -/
def commandNames : List String := ["compile", "preview", "fields", "values"]

/-- The command of a name with its arguments. -/
def readCommand (name : String) (arguments : List String) : Except Failure Command := do
  match name with
  | "compile" =>
      let options := [("--flat", .flag "flat"), ("--label", .valued "label")]
      let found ← commandArguments options arguments
      match found.positional with
      | [path] => return .compile path (found.has "flat") (found.value? "label")
      | _ => .error .usage
  | "preview" =>
      let options := [("--flat", .flag "flat"), ("--html", .flag "html")]
      let found ← commandArguments options arguments
      match found.positional with
      | [path] => return .preview path (found.has "flat") (found.has "html")
      | _ => .error .usage
  | "fields" =>
      let found ← commandArguments [] arguments
      match found.positional with
      | [path] => return .fields path
      | _ => .error .usage
  | "values" =>
      let options := [("--search", .valued "search"), ("-s", .valued "search"),
        ("--size", .valued "size"), ("-n", .valued "size")]
      let found ← commandArguments options arguments
      match found.positional, found.value? "size" with
      | [path, field], none => return .values path field (found.value? "search") none
      | [path, field], some size =>
          match readWhole size with
          | .ok size => return .values path field (found.value? "search") (some size)
          | .error _ => .error .usage
      | _, _ => .error .usage
  | _ => .error .usage

/-- The command that the arguments of the program ask for. -/
def plan (settings : Settings) (arguments : List String) : Except Failure Command := do
  let (found, rest) ←
    readArguments [("--log-level", .valued "log-level")] false arguments.length arguments {}
  match rest with
  | [] => .error .usage
  | name :: rest =>
      if !commandNames.contains name then .error .usage
      else
        let level := Logging.level settings (found.value? "log-level")
        if !Logging.levels.contains level then .error (.unknownLogLevel level)
        else readCommand name rest

/-- The file that a command reads. -/
def Command.path : Command → String
  | compile path _ _ | preview path _ _ | fields path | values path _ _ _ => path

/-! ## Commands -/

/-- What a path leads to. -/
inductive Entry where
  | absent
  | folder
  | file (contents : String)
deriving DecidableEq, Repr

/-- Whether data in a file is a list. -/
def isList : Input → Bool
  | .list _ => true
  | _ => false

/-- The filter that data in a file describes: rows if it is a list or said to be flat, a tree if
it has a root, and otherwise a node. -/
def fileFilter (default : Relation) (flat : Bool) (data : Input) : Reading Filter :=
  if flat || isList data then Filter.rows <$> Reading.rows data
  else if hasRoot data then (fun tree => Filter.tree tree.root) <$> Reading.tree default data
  else (fun node => Filter.tree (some node)) <$> Reading.node default data
where
  /-- Whether data is an object with a root. -/
  hasRoot : Input → Bool
    | .object fields => (Input.get? "root" fields).isSome
    | _ => false

/-- The data in a filter file. -/
def fileData (path contents : String) : Except Failure Input :=
  if isCsv path then
    match Csv.rows contents with
    | .ok rows => .ok (.list rows)
    | .error fault => .error (.noTable fault)
  else
    match Json.read contents with
    | .ok value => .ok (.ofValue value)
    | .error .malformed => .error (.invalidFilterFile (tidyPath path))
    | .error (.digitLimit limit) => .error (.digitLimit limit)

/-- The filter in a file. -/
def loadFilter (settings : Settings) (ids : IdSupply) (path : String) (flat : Bool) :
    Entry → Except Failure Filter
  | .absent => .error (.filterFileNotFound (tidyPath path))
  | .folder => .error .folder
  | .file contents => do
      let data ← fileData path contents
      match (fileFilter settings.defaultRelation flat data).run ids with
      | .ok (filter, _) => return filter
      | .error _ => .error (.invalidFilterFile (tidyPath path))

/-- The sample in a file. -/
def loadSample (path : String) : Entry → Except Failure Table
  | .absent => .error (.dataFileNotFound (tidyPath path))
  | .folder => .error .folder
  | .file contents => (Csv.sample contents).mapError .noTable

/-- Prints the query document of a filter, or its submission if there is a label. -/
def compile (settings : Settings) (filter : Filter) (label : Option String) :
    Except Failure Output :=
  match label with
  | some label =>
      match filter.submit settings.defaultRelation (some label) with
      | .ok (some submission) => .ok { text := Json.pretty submission.payload }
      | .ok none => .error .nothingUsable
      | .error limit => .error (.digitLimit limit)
  | none =>
      match (filter.compile settings.defaultRelation).run with
      | .ok (clause, warnings) =>
          .ok { text := Json.pretty (queryDocument clause)
                warnings := warnings.map fun notice => "warning: " ++ notice.message }
      | .error limit => .error (.digitLimit limit)

/-- Prints a filter for people. -/
def preview (settings : Settings) (filter : Filter) (markup : Bool) : Except Failure Output :=
  let style := if markup then Style.markup else Style.plain
  match filter.preview style settings.defaultRelation none with
  | .ok text => .ok { text := if text.isEmpty then "(empty)" else text }
  | .error limit => .error (.digitLimit limit)

/-- Prints suggestions for a field of a sample, a line each. -/
def values (settings : Settings) (table : Table) (field : String) (search : Option String)
    (size : Option Int) : Except Failure Output :=
  let lookup (request : Suggestion.Request) : Id (Except Error (List Value)) :=
    (table.lookup request.field request.term (some request.size)).map fun texts =>
      texts.map Value.text
  match Suggestion.suggest settings lookup field none search size .null with
  | .ok (.success texts _) => .ok { text := String.intercalate "\n" texts }
  | .ok (.failure notices _) => .error (.lookupFailed notices)
  | .error limit => .error (.digitLimit limit)

/-- Performs a command on what its path leads to. -/
def perform (settings : Settings) (ids : IdSupply) (entry : Entry) :
    Command → Except Failure Output
  | .compile path flat label => do
      let filter ← loadFilter settings ids path flat entry
      compile settings filter label
  | .preview path flat markup => do
      let filter ← loadFilter settings ids path flat entry
      preview settings filter markup
  | .fields path => do
      let table ← loadSample path entry
      return { text := String.intercalate "\n" table.fields }
  | .values path field search size => do
      let table ← loadSample path entry
      values settings table field search size

/-- A text as a command prints it, with the end of its last line. -/
def printed (text : String) : String :=
  Text.printed (text ++ "\n")

end FilterQuery.CommandLine
