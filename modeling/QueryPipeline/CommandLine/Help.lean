import QueryPipeline.CommandLine.Arguments

/-!
# Help

What the program prints about its arguments when it is asked for help.  The brief help has a line for each
argument, the full help a block of paragraphs.

* `HelpEntry` is one argument as the help explains it;
* `HelpDetail.text` is the whole help.
-/

namespace QueryPipeline

/-- One argument as the help explains it. -/
structure HelpEntry where
  /-- How the argument is written. -/
  form : String
  /-- What the brief help says about it. -/
  summary : String
  /-- What the full help says about it. -/
  paragraphs : List String
  /-- The values that are allowed if these are few; what a value means is empty if it is not explained. -/
  choices : List (String × String)

namespace HelpEntry

/-! ### The arguments -/

/-- An argument with any value or none, about which there is one sentence to say. -/
def plain (form summary : String) : HelpEntry :=
  ⟨form, summary, [summary], []⟩

/-- The query. -/
def query : HelpEntry :=
  plain "[QUERY]" "The query string to compile, e.g. `m_status=Pending&f_+orders&p_id,-secret`"

/-- What a format prints. -/
def meaning : Format → String
  | .mql => "One stage document per line"
  | .json => "The whole pipeline as a single relaxed extended JSON array"
  | .pretty => "Indented relaxed extended JSON"

/-- The options. -/
def options : List HelpEntry :=
  [⟨"-f, --file <CONFIG_FILE>", "The path to a configuration file (optional)",
      ["The path to a configuration file (optional).",
        "Command line arguments specified in addition to a configuration file take precedence over "
          ++ "configuration file values."], []⟩,
    plain "-c, --collection <COLLECTION>" ("The collection the pipeline runs against. Needed to infer the "
      ++ "local side of collection joins (`f_+orders`)"),
    ⟨"    --format <FORMAT>", "How to print the pipeline", ["How to print the pipeline.", "Default: mql"],
      Format.all.map fun format => (format.label, meaning format)⟩,
    { plain "-v, --verbosity <VERBOSITY>" ("The logging level (optional). Falls back to the LOG_LEVEL "
        ++ "environment variable, then to warn") with
      choices := Verbosity.all.map fun level => (level.label, "") },
    ⟨"-h, --help", "Print help (see more with '--help')", ["Print help (see a summary with '-h')"], []⟩,
    plain "-V, --version" "Print version"]

/-! ### Layout -/

/-- A text with blanks behind it up to a width. -/
def padTo (width : Nat) (s : String) : String :=
  s ++ String.ofList (List.replicate (width - s.length) ' ')

/-- The length of the longest text. -/
def widest (texts : List String) : Nat :=
  (texts.map String.length).foldl max 0

/-- The values that are allowed, between brackets. -/
def bracketed (e : HelpEntry) : String :=
  "[possible values: " ++ ", ".intercalate (e.choices.map Prod.fst) ++ "]"

/-- The line of an entry, with its form as wide as those of the other entries. -/
def line (width : Nat) (e : HelpEntry) : String :=
  "  " ++ padTo width e.form ++ "  " ++ e.summary
    ++ (if e.choices.isEmpty then "" else " " ++ e.bracketed)

/-- A new line inside a block. -/
def newLine : String :=
  "\n          "

/-- The values that are allowed, each on a line with its meaning. -/
def choiceLines (e : HelpEntry) : String :=
  let width := widest (e.choices.map Prod.fst) + 1
  newLine ++ "Possible values:"
    ++ String.join (e.choices.map fun choice =>
      newLine ++ "- " ++ padTo width (choice.1 ++ ":") ++ " " ++ choice.2)

/-- The block of an entry. -/
def block (e : HelpEntry) : String :=
  let isExplained := e.choices.any fun choice => choice.2 ≠ ""
  let paragraphs := if e.choices.isEmpty || isExplained then e.paragraphs else e.paragraphs ++ [e.bracketed]
  "  " ++ e.form ++ newLine ++ (newLine ++ newLine).intercalate paragraphs
    ++ (if isExplained then "\n" ++ e.choiceLines else "")

end HelpEntry

namespace HelpDetail

/-- Entries one below the other. -/
def layout (entries : List HelpEntry) : HelpDetail → String
  | brief => "\n".intercalate (entries.map (HelpEntry.line (HelpEntry.widest (entries.map HelpEntry.form))))
  | full => "\n\n".intercalate (entries.map HelpEntry.block)

/-- The help. -/
def text (detail : HelpDetail) : String :=
  "Usage: pipeql [OPTIONS] [QUERY]\n\nArguments:\n" ++ detail.layout [HelpEntry.query]
    ++ "\n\nOptions:\n" ++ detail.layout HelpEntry.options ++ "\n"

end HelpDetail

end QueryPipeline
