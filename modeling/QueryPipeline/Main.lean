import QueryPipeline.CommandLine.Run

/-!
# The program

Reads the settings file that the arguments name, runs, prints, and ends with the exit code.
-/

namespace QueryPipeline

/-- Makes an empty file and the directories above it. -/
def makeFile (name : String) : IO Unit := do
  let above := (Text.split '/' name).dropLast
  unless above = [] ∨ above = [""] do
    IO.FS.createDirAll ("/".intercalate above)
  IO.FS.writeFile name ""

/-- Looks a settings file up; a missing one is made, or else counts as unreadable. -/
def findSettingsFile (name : String) : IO SettingsFile := do
  try
    let content ← IO.FS.readFile name
    pure (.text content)
  catch
    | .noFileOrDirectory .. =>
      try
        makeFile name
        pure .missing
      catch _ => pure .unreadable
    | _ => pure .unreadable

/-- The settings file of a request, under any name. -/
def settingsFileOf : Request → IO (String → SettingsFile)
  | .run i => match i.settingsFile with
    | some name => do
      let found ← findSettingsFile name
      pure fun _ => found
    | none => pure fun _ => .missing
  | _ => pure fun _ => .missing

/-- Prints an outcome and gives its exit code. -/
def report (outcome : Outcome) : IO UInt32 := do
  IO.print outcome.output
  match outcome.failure with
  | some text => IO.eprint text
  | none => pure ()
  pure outcome.exit.toUInt32

end QueryPipeline

/-- Runs the program. -/
def main (arguments : List String) : IO UInt32 := do
  let request := QueryPipeline.Request.ofArguments arguments
  let file ← QueryPipeline.settingsFileOf request
  QueryPipeline.report (QueryPipeline.Outcome.ofRequest file request)
