import QueryPipeline.CommandLine.Run
import QueryPipeline.Proofs.CommandLines

/-!
# Runs under effective settings

A run is one call of the compiler.  What it prints and how it ends depends on nothing but the query, the
collection and the format that are in effect, wherever they come from and however they are spelled.

* `Invocation.FileSets` — what the settings file sets that a run names;
* **`Answers`** — how a run ends that compiles a query under a collection and prints it in a format;
* `answers_ofRequest` — every run whose settings file can be read ends like that;
* **`answers_of_accepted`** — whole command lines, and what they have in common.
-/

namespace QueryPipeline

/-! ### Settings in effect -/

/-- What is set by the settings file that a run names.  A file that is missing sets nothing, and neither
does a run that names none. -/
inductive Invocation.FileSets (i : Invocation) (file : String → SettingsFile) : Settings → Prop
  | unnamed (hname : i.settingsFile = .none) : FileSets i file Settings.none
  | missing {name : String} (hname : i.settingsFile = some name) (hfile : file name = .missing) :
    FileSets i file Settings.none
  | read {name content : String} {s : Settings} (hname : i.settingsFile = some name)
    (hfile : file name = .text content) (hread : Settings.ofText? content = some s) :
    FileSets i file s

/-- **How a run ends** that compiles a query for a collection and prints the pipeline in a format: its
exit code, what it prints, and what it prints about a failure. -/
inductive Answers (query collection : Option String) (format : Option Format) : Outcome → Prop
  | noQuery (hquery : query = none) (made : Option String) :
    Answers query collection format ⟨1, "", some "Error: No query provided\n", made⟩
  | refused {text : String} {e : QueryError} (hquery : query = some text)
    (hcompile : compile (.standard collection) text = .error e) (made : Option String) :
    Answers query collection format ⟨1, "", some ("Error: " ++ e.message ++ "\n"), made⟩
  | printed {text : String} {p : Pipeline} (hquery : query = some text)
    (hcompile : compile (.standard collection) text = .ok p) (made : Option String) :
    Answers query collection format ⟨0, p.render (format.getD .mql) ++ "\n", none, made⟩

namespace Invocation

variable {i : Invocation} {file : String → SettingsFile}

/-- The command line goes before the file, and a file that cannot be read leaves nothing in effect. -/
theorem effective_eq_ok_iff {settings : Settings} :
    i.effective file = .ok settings ↔ ∃ s, i.FileSets file s ∧ settings = i.settings.orElse s := by
  have hnone : i.settings.orElse Settings.none = i.settings := by
    simp [Settings.orElse, Settings.none]
  constructor
  · intro h
    rw [effective] at h
    split at h
    · rename_i hname
      cases h
      exact ⟨Settings.none, .unnamed hname, hnone.symm⟩
    · rename_i name hname
      split at h
      · cases h
      · rename_i s hread
        cases h
        refine ⟨s, ?_, rfl⟩
        cases hfile : file name with
        | missing =>
          rw [hfile] at hread
          cases hread
          exact FileSets.missing hname hfile
        | unreadable =>
          rw [hfile] at hread
          cases hread
        | text content =>
          rw [hfile] at hread
          exact FileSets.read hname hfile hread
  · rintro ⟨s, hsets, rfl⟩
    cases hsets with
    | unnamed hname =>
      rw [effective, hname, hnone]
    | missing hname hfile =>
      rw [effective, hname]
      simp only [hfile, SettingsFile.settings?]
    | read hname hfile hread =>
      rw [effective, hname]
      simp only [hfile, SettingsFile.settings?, hread]

end Invocation

/-! ### Runs -/

/-- **A run is a call of the compiler** under the settings that are in effect. -/
theorem answers_ofRequest {i : Invocation} {file : String → SettingsFile} {s : Settings}
    (hfile : i.FileSets file s) :
    Answers i.query (i.settings.collection.or s.collection) (i.settings.format.or s.format)
      (Outcome.ofRequest file (.run i)) := by
  have hresult : i.result file = Invocation.print i.query (i.settings.orElse s) := by
    rw [Invocation.result, Invocation.effective_eq_ok_iff.mpr ⟨s, hfile, rfl⟩]
    rfl
  rw [Outcome.ofRequest, hresult]
  cases hquery : i.query with
  | none => exact Answers.noQuery rfl _
  | some text =>
    rw [Invocation.print]
    cases hcompile : compile (.standard (i.settings.orElse s).collection) text with
    | error e => exact Answers.refused rfl hcompile _
    | ok p => exact Answers.printed rfl hcompile _

/-- What is in effect decides what is printed and how the run ends. -/
theorem Answers.eq {query collection : Option String} {format : Option Format} {o o' : Outcome}
    (h : Answers query collection format o) (h' : Answers query collection format o') :
    o'.exit = o.exit ∧ o'.output = o.output ∧ o'.failure = o.failure := by
  cases h with
  | noQuery hquery =>
    cases h' with
    | noQuery => exact ⟨rfl, rfl, rfl⟩
    | refused hquery' => cases hquery.symm.trans hquery'
    | printed hquery' => cases hquery.symm.trans hquery'
  | refused hquery hcompile =>
    cases h' with
    | noQuery hquery' => cases hquery.symm.trans hquery'
    | refused hquery' hcompile' =>
      cases hquery.symm.trans hquery'
      cases hcompile.symm.trans hcompile'
      exact ⟨rfl, rfl, rfl⟩
    | printed hquery' hcompile' =>
      cases hquery.symm.trans hquery'
      cases hcompile.symm.trans hcompile'
  | printed hquery hcompile =>
    cases h' with
    | noQuery hquery' => cases hquery.symm.trans hquery'
    | refused hquery' hcompile' =>
      cases hquery.symm.trans hquery'
      cases hcompile.symm.trans hcompile'
    | printed hquery' hcompile' =>
      cases hquery.symm.trans hquery'
      cases hcompile.symm.trans hcompile'
      exact ⟨rfl, rfl, rfl⟩

theorem runProgram_of_run {args : List String} {i : Invocation} (h : Request.ofArguments args = .run i)
    (file : String → SettingsFile) : runProgram args file = Outcome.ofRequest file (.run i) := by
  rw [runProgram, h]

/-- **The program is the compiler under the settings in effect.**  A command line that makes a run gives
a query and options, each once at most, in one of their spellings.  The run compiles that query for the
collection, and prints the pipeline in the format, that the command line gives, or else the settings
file, or else none does.  No other run with the same query, collection and format in effect can be told
from it by what is printed and how it ends, wherever they come from and whatever else is set; and no
order and no spelling of what is given makes any difference. -/
theorem answers_of_accepted {args : List String} {i : Invocation}
    (hrun : Request.ofArguments args = .run i) {file : String → SettingsFile} {s : Settings}
    (hfile : i.FileSets file s) :
    Answers i.query (i.settings.collection.or s.collection) (i.settings.format.or s.format)
        (runProgram args file)
      ∧ (∀ args' i' file' s', Request.ofArguments args' = .run i' → i'.FileSets file' s' →
          i'.query = i.query →
          i'.settings.collection.or s'.collection = i.settings.collection.or s.collection →
          i'.settings.format.or s'.format = i.settings.format.or s.format →
          (runProgram args' file').exit = (runProgram args file).exit
            ∧ (runProgram args' file').output = (runProgram args file).output
            ∧ (runProgram args' file').failure = (runProgram args file).failure)
      ∧ (∃ givens, Spells args givens ∧ givens ≠ [] ∧ i.Holds givens)
      ∧ ∀ givens args' givens', Spells args givens → Spells args' givens' → givens'.Perm givens →
          runProgram args' file = runProgram args file := by
  have hanswers := answers_ofRequest hfile
  rw [← runProgram_of_run hrun] at hanswers
  refine ⟨hanswers, ?_, Request.ofArguments_eq_run_iff.mp hrun, ?_⟩
  · intro args' i' file' s' hrun' hfile' hquery hcollection hformat
    have hanswers' := answers_ofRequest hfile'
    rw [← runProgram_of_run hrun', hquery, hcollection, hformat] at hanswers'
    exact hanswers.eq hanswers'
  · intro givens args' givens' hspells hspells' hperm
    rw [runProgram_of_run hrun,
      runProgram_of_run (Request.ofArguments_of_perm hspells hspells' hperm hrun)]

/-- A collection on the command line and in the file, and a format in the file; the format on the command
line as well; the same arguments in another order and in other spellings. -/
theorem answers_of_accepted_both_sources :
    ∃ file : String → SettingsFile,
      file "s.toml" = .text "collection = \"orders\"\nformat = \"json\"\n"
      ∧ Answers (some "f_+orders") (some "users") (some .json)
        (runProgram ["-f", "s.toml", "--collection=users", "f_+orders"] file)
      ∧ (runProgram ["--format", "json", "-v=trace", "-cusers", "--", "f_+orders"] file).output
        = (runProgram ["-f", "s.toml", "--collection=users", "f_+orders"] file).output
      ∧ runProgram ["f_+orders", "-c", "users", "--file=s.toml"] file
        = runProgram ["-f", "s.toml", "--collection=users", "f_+orders"] file := by
  have hrun : Request.ofArguments ["-f", "s.toml", "--collection=users", "f_+orders"]
      = .run ⟨some "f_+orders", some "s.toml", ⟨some "users", none, none⟩⟩ := by decide +kernel
  have hrun' : Request.ofArguments ["--format", "json", "-v=trace", "-cusers", "--", "f_+orders"]
      = .run ⟨some "f_+orders", none, ⟨some "users", some .json, some .trace⟩⟩ := by decide +kernel
  have hread : Settings.ofText? "collection = \"orders\"\nformat = \"json\"\n"
      = some ⟨some "orders", some .json, none⟩ := by decide +kernel
  have hspells : Spells ["-f", "s.toml", "--collection=users", "f_+orders"]
      [.option .file "s.toml", .option .collection "users", .query "f_+orders"] :=
    .separate (Argument.ofText_eq_option_iff.mp (by decide)) (by decide)
      (.attached (Argument.ofText_eq_option_iff.mp (by decide)) (.query (by decide) .nil))
  have hspells' : Spells ["f_+orders", "-c", "users", "--file=s.toml"]
      [.query "f_+orders", .option .collection "users", .option .file "s.toml"] :=
    .query (by decide) (.separate (Argument.ofText_eq_option_iff.mp (by decide)) (by decide)
      (.attached (Argument.ofText_eq_option_iff.mp (by decide)) .nil))
  obtain ⟨file, hcontent⟩ : ∃ file : String → SettingsFile,
      file "s.toml" = .text "collection = \"orders\"\nformat = \"json\"\n" := ⟨fun _ => _, rfl⟩
  have hfile : Invocation.FileSets ⟨some "f_+orders", some "s.toml", ⟨some "users", none, none⟩⟩ file
      ⟨some "orders", some .json, none⟩ := .read rfl hcontent hread
  obtain ⟨hanswers, hother, -, hsame⟩ := answers_of_accepted hrun hfile
  exact ⟨file, hcontent, hanswers, (hother _ _ file _ hrun' (.unnamed rfl) rfl rfl rfl).2.1,
    hsame _ _ _ hspells hspells' (by decide)⟩

end QueryPipeline
