import QueryPipeline.CommandLine.Help
import QueryPipeline.Query.Compile

/-!
# Runs of the program

What a run prints and how it ends, given its arguments and the settings file that they name.

* `Invocation.effective` fills in from the file what the command line leaves open;
* `Invocation.result` is the text of the pipeline, or the failure;
* `Outcome.ofRequest` is the run as seen from outside.
-/

namespace QueryPipeline

/-- What is found under the name of a settings file. -/
inductive SettingsFile where
  | missing
  | unreadable
  | text (content : String)
deriving DecidableEq, Repr

/-- Why a run prints no pipeline. -/
inductive Failure where
  /-- The settings file cannot be read. -/
  | settingsFile (name : String)
  | noQuery
  | query (e : QueryError)
deriving DecidableEq, Repr

/-- What is printed about a failure; behind the name of a file the line is not ended. -/
def Failure.message : Failure → String
  | settingsFile name => "Error: Failed to load configuration file: " ++ name
  | noQuery => "Error: No query provided\n"
  | query e => "Error: " ++ e.message ++ "\n"

namespace SettingsFile

/-- The settings of a file; a missing file, which is made empty, sets nothing. -/
def settings? : SettingsFile → Option Settings
  | missing => some Settings.none
  | unreadable => none
  | text content => Settings.ofText? content

end SettingsFile

namespace Invocation

/-- The settings of the command line, filled in from the settings file if one is named. -/
def effective (i : Invocation) (file : String → SettingsFile) : Except Failure Settings :=
  match i.settingsFile with
  | .none => .ok i.settings
  | some name => match (file name).settings? with
    | .none => .error (.settingsFile name)
    | some settings => .ok (i.settings.orElse settings)

/-- The text of the pipeline of a query under the given settings. -/
def print (query : Option String) (settings : Settings) : Except Failure String :=
  match query with
  | .none => .error .noQuery
  | some query => match compile (CompileOptions.standard settings.collection) query with
    | .error e => .error (.query e)
    | .ok pipeline => .ok (pipeline.render (settings.format.getD .mql) ++ "\n")

/-- The text that a run prints. -/
def result (i : Invocation) (file : String → SettingsFile) : Except Failure String :=
  (i.effective file).bind (print i.query)

/-- The settings file that a run makes: the one it names, if that is missing. -/
def madeFile (i : Invocation) (file : String → SettingsFile) : Option String :=
  i.settingsFile.filter fun name => file name = .missing

end Invocation

/-- A run as seen from outside. -/
structure Outcome where
  /-- The exit code. -/
  exit : UInt8
  output : String
  /-- What is printed about a failure. -/
  failure : Option String
  /-- The empty file that is made. -/
  madeFile : Option String
deriving DecidableEq, Repr

/-- The name and the version of the program. -/
def versionText : String :=
  "pipeql-cli 0.1.0\n"

/-- The outcome of what the arguments ask for. -/
def Outcome.ofRequest (file : String → SettingsFile) : Request → Outcome
  | .usage => ⟨2, "", none, none⟩
  | .version => ⟨0, versionText, none, none⟩
  | .help detail => ⟨0, detail.text, none, none⟩
  | .run i => match i.result file with
    | .ok text => ⟨0, text, none, i.madeFile file⟩
    | .error failure => ⟨1, "", some failure.message, i.madeFile file⟩

/-- The outcome of a run with the given arguments. -/
def runProgram (arguments : List String) (file : String → SettingsFile) : Outcome :=
  Outcome.ofRequest file (Request.ofArguments arguments)

end QueryPipeline
