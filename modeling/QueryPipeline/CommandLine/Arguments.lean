import QueryPipeline.CommandLine.Settings
import QueryPipeline.Text

/-!
# Arguments

The arguments of the program: at most one query, and options that each take one value.  A value is
attached to its option or is the next argument; behind `--` every argument is a query.

* `Argument.ofText` says what an argument is by itself;
* `Request.ofArguments` reads all arguments from left to right.  The first one that cannot be read is
  a usage fault, unless the version or help was asked for before it.
-/

namespace QueryPipeline

/-- The options with a value. -/
inductive OptionName where
  | collection
  | file
  | format
  | verbosity
deriving DecidableEq, Repr

namespace OptionName

/-- The option with the given long name. -/
def ofLong? (name : String) : Option OptionName :=
  if name = "collection" then some collection
  else if name = "file" then some file
  else if name = "format" then some format
  else if name = "verbosity" then some verbosity
  else none

/-- The option with the given letter. -/
def ofShort? (letter : Char) : Option OptionName :=
  if letter = 'c' then some collection
  else if letter = 'f' then some file
  else if letter = 'v' then some verbosity
  else none

end OptionName

/-- How much the help says. -/
inductive HelpDetail where
  /-- One line about each argument. -/
  | brief
  /-- All that there is to say about each argument. -/
  | full
deriving DecidableEq, Repr

/-- What an argument is by itself. -/
inductive Argument where
  | query (text : String)
  | option (name : OptionName) (value : Option String)
  | version
  | help (detail : HelpDetail)
  | endOfOptions
  | unknown
deriving DecidableEq, Repr

namespace Argument

/-- Whether an argument is written like an option; a lone dash is not. -/
def isDashed (text : String) : Bool :=
  Text.startsWith '-' text && text ≠ "-"

/-- An argument behind two dashes: a long name, perhaps with a value behind an equals sign. -/
def ofLong (text : String) : Argument :=
  match Text.cut '=' text with
  | some (name, value) => ((OptionName.ofLong? name).map fun o => option o (some value)).getD unknown
  | none =>
    if text = "version" then version
    else if text = "help" then help .full
    else ((OptionName.ofLong? text).map fun o => option o none).getD unknown

/-- An argument behind one dash: a letter, perhaps with a value that may follow an equals sign. -/
def ofShort (text : String) : Argument :=
  match text.toList with
  | [] => unknown
  | letter :: rest =>
    if letter = 'V' then version
    else if letter = 'h' then help .brief
    else match OptionName.ofShort? letter with
      | none => unknown
      | some o => match rest with
        | [] => option o none
        | '=' :: value => option o (some (String.ofList value))
        | value => option o (some (String.ofList value))

/-- What an argument is by itself. -/
def ofText (text : String) : Argument :=
  if isDashed text then
    match Text.after '-' text with
    | none => query text
    | some rest => match Text.after '-' rest with
      | none => ofShort rest
      | some "" => endOfOptions
      | some name => ofLong name
  else query text

end Argument

/-- What a run is asked to do. -/
structure Invocation where
  query : Option String
  settingsFile : Option String
  settings : Settings
deriving DecidableEq, Repr

namespace Invocation

/-- Nothing is asked for yet. -/
def none : Invocation :=
  ⟨.none, .none, Settings.none⟩

/-- Sets the query, which can be given once. -/
def setQuery? (i : Invocation) (text : String) : Option Invocation :=
  if i.query.isSome then .none else some { i with query := some text }

/-- Sets an option, which can be given once, to a value that it allows. -/
def setOption? (i : Invocation) (name : OptionName) (value : String) : Option Invocation :=
  match name with
  | .collection =>
    if i.settings.collection.isSome then .none
    else some { i with settings := { i.settings with collection := some value } }
  | .file =>
    if i.settingsFile.isSome then .none else some { i with settingsFile := some value }
  | .format =>
    if i.settings.format.isSome then .none
    else (Format.ofLabel? value).map fun format =>
      { i with settings := { i.settings with format := some format } }
  | .verbosity =>
    if i.settings.verbosity.isSome then .none
    else (Verbosity.ofLabel? value).map fun level =>
      { i with settings := { i.settings with verbosity := some level } }

end Invocation

/-- What the arguments of a run come to. -/
inductive Request where
  /-- The arguments cannot be read, or there are none. -/
  | usage
  | version
  | help (detail : HelpDetail)
  | run (i : Invocation)
deriving DecidableEq, Repr

namespace Request

/-- The arguments behind the end of the options. -/
def ofQueries (i : Invocation) : List String → Request
  | [] => if i = Invocation.none then usage else run i
  | text :: rest => match i.setQuery? text with
    | none => usage
    | some i => ofQueries i rest

/-- Reads arguments behind those that have been read. -/
def ofRest (i : Invocation) : List String → Request
  | [] => if i = Invocation.none then usage else run i
  | text :: rest =>
    match Argument.ofText text with
    | .unknown => usage
    | .version => version
    | .help detail => help detail
    | .endOfOptions => ofQueries i rest
    | .query text => match i.setQuery? text with
      | none => usage
      | some i => ofRest i rest
    | .option name (some value) => match i.setOption? name value with
      | none => usage
      | some i => ofRest i rest
    | .option name none => match rest with
      | [] => usage
      | value :: rest =>
        if Argument.isDashed value then usage
        else match i.setOption? name value with
          | none => usage
          | some i => ofRest i rest

/-- Reads the arguments of a run. -/
def ofArguments (arguments : List String) : Request :=
  ofRest Invocation.none arguments

end Request

end QueryPipeline
