import QueryPipeline.Rendering
import QueryPipeline.Toml.Document

/-!
# Settings

What can be set both on the command line and in a settings file: the collection, the format and how
much is logged.

* `Settings.orElse` fills in what one source leaves open from another;
* `Settings.ofTable?` takes the settings out of a file; keys of other names do not matter.
-/

namespace QueryPipeline

/-- How much is logged. -/
inductive Verbosity where
  | trace
  | debug
  | info
  | warn
  | error
deriving DecidableEq, Repr

namespace Verbosity

/-- All levels, from the most that is logged to the least. -/
def all : List Verbosity :=
  [trace, debug, info, warn, error]

/-- The name of a level. -/
def label : Verbosity → String
  | trace => "trace"
  | debug => "debug"
  | info => "info"
  | warn => "warn"
  | error => "error"

/-- The level of the given name. -/
def ofLabel? (label : String) : Option Verbosity :=
  all.find? fun level => level.label = label

end Verbosity

/-- Settings, each of which may be left open. -/
structure Settings where
  collection : Option String
  format : Option Format
  verbosity : Option Verbosity
deriving DecidableEq, Repr

namespace Settings

/-- No settings. -/
def none : Settings :=
  ⟨.none, .none, .none⟩

/-- The settings of `s`, and those of `t` where `s` leaves them open. -/
def orElse (s t : Settings) : Settings :=
  ⟨s.collection.or t.collection, s.format.or t.format, s.verbosity.or t.verbosity⟩

/-! ### Reading a file -/

/-- A text. -/
def readText? : Toml.Item → Option String
  | .string s => some s
  | _ => .none

/-- Whether an item holds no others. -/
def isVoid : Toml.Item → Bool
  | .array items => items.isEmpty
  | .inlineTable entries => entries.isEmpty
  | .table _ entries => entries.isEmpty
  | _ => false

/-- A name out of a list of names: a text, or a table with that name as its only key and no content. -/
def readName? : Toml.Item → Option String
  | .string s => some s
  | .inlineTable [(name, item)] => if isVoid item then some name else .none
  | .table _ [(name, item)] => if isVoid item then some name else .none
  | _ => .none

/-- The item of a key as a setting: a setting that is left open, or the setting if it can be read. -/
def readSetting? {α : Type} (read : Toml.Item → Option α) (t : Toml.Table) (key : String) :
    Option (Option α) :=
  match t.get? key with
  | .none => some .none
  | some item => (read item).map some

/-- The settings in the table of a file. -/
def ofTable? (t : Toml.Table) : Option Settings := do
  let collection ← readSetting? readText? t "collection"
  let format ← readSetting? (fun item => (readName? item).bind Format.ofLabel?) t "format"
  let verbosity ← readSetting? (fun item => (readName? item).bind Verbosity.ofLabel?) t "verbosity"
  pure ⟨collection, format, verbosity⟩

/-- The settings in the text of a file. -/
def ofText? (text : String) : Option Settings :=
  (Toml.Table.read? text).bind ofTable?

end Settings

end QueryPipeline
