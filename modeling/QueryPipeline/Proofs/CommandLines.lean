import QueryPipeline.CommandLine.Arguments
import QueryPipeline.Proofs.Cutting

/-!
# Command lines

Which arguments make a run, without a reader of arguments.  A command line gives a query and options
with a value; it may give them in any order and spell every option in any of its ways, but it gives
each of them once at most.

* `OptionName.Writes` — the ways to write an option, with its value or without it;
* **`Spells`** — the command lines that give something;
* `Invocation.Holds` — an invocation that comes to what is given, in whatever order it is given;
* `Argument.ofText_eq_option_iff` — what is read of one argument;
* **`Request.ofArguments_eq_run_iff`** — the command lines that make a run are those that spell
  something, and it is the run that comes to what they give.
-/

namespace QueryPipeline

/-! ### The language of command lines -/

namespace OptionName

/-- The name of an option behind two dashes. -/
def long : OptionName → String
  | collection => "collection"
  | file => "file"
  | format => "format"
  | verbosity => "verbosity"

/-- The letter of an option behind one dash, if it has one. -/
def letter? : OptionName → Option Char
  | collection => some 'c'
  | file => some 'f'
  | format => none
  | verbosity => some 'v'

/-- One argument that is an option: by itself, so that its value has to follow, or with its value. -/
inductive Writes (name : OptionName) : Option String → String → Prop
  | long : Writes name none ("--" ++ name.long)
  | longEquals (value : String) : Writes name (some value) ("--" ++ (name.long ++ "=" ++ value))
  | letter {c : Char} (h : name.letter? = some c) : Writes name none ("-" ++ String.singleton c)
  | letterEquals {c : Char} (h : name.letter? = some c) (value : String) :
    Writes name (some value) ("-" ++ (String.singleton c ++ "=" ++ value))
  | letterValue {c : Char} (h : name.letter? = some c) {value : String} (hne : value ≠ "")
    (hplain : Text.startsWith '=' value = false) :
    Writes name (some value) ("-" ++ (String.singleton c ++ value))

end OptionName

/-- One thing that a command line gives. -/
inductive Given where
  | query (text : String)
  | option (name : OptionName) (value : String)
deriving DecidableEq, Repr

namespace Given

/-- What it is given for: an option, or else the query. -/
def slot : Given → Option OptionName
  | query _ => none
  | option name _ => some name

/-- The text that is given. -/
def text : Given → String
  | query text => text
  | option _ value => value

end Given

/-- The arguments that spell what is given, in this order.  Neither a query nor a value that follows its
option is written like an option itself; behind two dashes everything is a query. -/
inductive Spells : List String → List Given → Prop
  | nil : Spells [] []
  | query {text : String} {rest : List String} {givens : List Given}
    (htext : Argument.isDashed text = false) (hrest : Spells rest givens) :
    Spells (text :: rest) (.query text :: givens)
  | attached {name : OptionName} {value text : String} {rest : List String} {givens : List Given}
    (htext : name.Writes (some value) text) (hrest : Spells rest givens) :
    Spells (text :: rest) (.option name value :: givens)
  | separate {name : OptionName} {value text : String} {rest : List String} {givens : List Given}
    (htext : name.Writes none text) (hvalue : Argument.isDashed value = false)
    (hrest : Spells rest givens) : Spells (text :: value :: rest) (.option name value :: givens)
  | queries (texts : List String) : Spells ("--" :: texts) (texts.map .query)

namespace Invocation

/-- What an invocation holds for a slot, as it is written on the command line. -/
def text? (i : Invocation) : Option OptionName → Option String
  | .none => i.query
  | some .collection => i.settings.collection
  | some .file => i.settingsFile
  | some .format => i.settings.format.map Format.label
  | some .verbosity => i.settings.verbosity.map Verbosity.label

/-- **An invocation comes to what is given** if it holds for each slot the one text that is given for it,
or nothing if none is. -/
def Holds (i : Invocation) (givens : List Given) : Prop :=
  ∀ slot, (givens.filter fun given => given.slot = slot).map Given.text = (i.text? slot).toList

end Invocation

/-! ### Single arguments -/

namespace OptionName

theorem ofLong?_eq_some_iff {text : String} {name : OptionName} :
    ofLong? text = some name ↔ text = name.long := by
  constructor
  · intro h
    rw [ofLong?] at h
    split_ifs at h with htext htext htext htext
    all_goals
      cases h
      exact htext
  · rintro rfl
    cases name <;> decide

theorem ofShort?_eq_some_iff {c : Char} {name : OptionName} :
    ofShort? c = some name ↔ name.letter? = some c := by
  constructor
  · intro h
    rw [ofShort?] at h
    split_ifs at h with hc hc hc
    all_goals
      cases h
      rw [hc]
      rfl
  · intro h
    cases name <;> cases h <;> decide

end OptionName

namespace Argument

open OptionName

theorem isDashed_iff {text : String} :
    isDashed text = true ↔ ∃ rest, rest ≠ "" ∧ text = "-" ++ rest := by
  rw [isDashed, Bool.and_eq_true, Text.startsWith_iff, decide_eq_true_iff]
  constructor
  · rintro ⟨⟨rest, rfl⟩, hne⟩
    refine ⟨rest, ?_, rfl⟩
    rintro rfl
    exact hne (by decide)
  · rintro ⟨rest, hne, rfl⟩
    refine ⟨⟨rest, rfl⟩, ?_⟩
    intro hdash
    have hlist := congrArg String.toList hdash
    simp at hlist
    exact hne hlist

theorem ofText_of_not_isDashed {text : String} (h : isDashed text = false) :
    ofText text = query text := by
  rw [ofText, h]
  rfl

/-- Behind one dash there is a letter. -/
theorem ofText_dash {rest : String} (hne : rest ≠ "") (hplain : Text.after '-' rest = none) :
    ofText ("-" ++ rest) = ofShort rest := by
  have hfirst : Text.after '-' ("-" ++ rest) = some rest := Text.after_eq_some_iff.mpr rfl
  rw [ofText, if_pos (isDashed_iff.mpr ⟨rest, hne, rfl⟩), hfirst]
  simp only [hplain]

/-- Behind two dashes there is a long name. -/
theorem ofText_dashes {name : String} (hne : name ≠ "") : ofText ("--" ++ name) = ofLong name := by
  have hdashes : "--" ++ name = "-" ++ ("-" ++ name) := by
    rw [← String.append_assoc]
    rfl
  have hfirst : Text.after '-' ("--" ++ name) = some ("-" ++ name) := Text.after_eq_some_iff.mpr hdashes
  have hsecond : Text.after '-' ("-" ++ name) = some name := Text.after_eq_some_iff.mpr rfl
  rw [ofText, if_pos (isDashed_iff.mpr ⟨"-" ++ name, by simp, hdashes⟩), hfirst]
  simp only [hsecond]

/-- An argument is no option, ends the options, or has one dash or two in front. -/
theorem cases_dash (text : String) :
    isDashed text = false ∨ text = "--" ∨ (∃ name, name ≠ "" ∧ text = "--" ++ name)
      ∨ ∃ rest, rest ≠ "" ∧ Text.after '-' rest = none ∧ text = "-" ++ rest := by
  cases hdashed : isDashed text with
  | false => exact Or.inl rfl
  | true =>
    obtain ⟨rest, hne, rfl⟩ := isDashed_iff.mp hdashed
    cases hafter : Text.after '-' rest with
    | none => exact Or.inr (Or.inr (Or.inr ⟨rest, hne, hafter, rfl⟩))
    | some name =>
      rw [Text.after_eq_some_iff.mp hafter, ← String.append_assoc]
      by_cases hname : name = ""
      · rw [hname]
        exact Or.inr (Or.inl (by decide))
      · exact Or.inr (Or.inr (Or.inl ⟨name, hname, rfl⟩))

theorem getD_map_option_iff {found : Option OptionName} {name : OptionName} {v v' : Option String} :
    (found.map fun o => option o v).getD unknown = option name v' ↔ found = some name ∧ v = v' := by
  cases found with
  | none => simp
  | some o => simp

/-- No long name holds an equals sign, is empty, or asks for the version or for help. -/
theorem long_excludes (name : OptionName) :
    '=' ∉ name.long.toList ∧ name.long ≠ "" ∧ name.long ≠ "version" ∧ name.long ≠ "help" := by
  cases name <;> decide

theorem writes_of_ofLong {text : String} {name : OptionName} {v : Option String}
    (h : ofLong text = option name v) : name.Writes v ("--" ++ text) := by
  rw [ofLong] at h
  split at h
  · rename_i front value hcut
    obtain ⟨rfl, -⟩ := Text.cut_eq_some_iff.mp hcut
    obtain ⟨hfront, rfl⟩ := getD_map_option_iff.mp h
    rw [ofLong?_eq_some_iff.mp hfront]
    exact Writes.longEquals value
  · split_ifs at h
    · obtain ⟨hfound, rfl⟩ := getD_map_option_iff.mp h
      rw [ofLong?_eq_some_iff.mp hfound]
      exact Writes.long

theorem writes_of_ofShort {text : String} {name : OptionName} {v : Option String}
    (h : ofShort text = option name v) : name.Writes v ("-" ++ text) := by
  rw [ofShort] at h
  split at h
  · cases h
  rename_i c rest htext
  have hparts : text = String.singleton c ++ String.ofList rest := by
    apply String.toList_inj.mp
    simp [htext]
  rw [hparts]
  -- the letter asks neither for the version nor for help, and it is not unknown
  split_ifs at h
  split at h
  · cases h
  rename_i found hfound
  have hletter := ofShort?_eq_some_iff.mp hfound
  split at h
  · cases h
    simpa using Writes.letter hletter
  · rename_i value
    cases h
    have hequals : String.singleton c ++ String.ofList ('=' :: value)
        = String.singleton c ++ "=" ++ String.ofList value := by
      apply String.toList_inj.mp
      simp
    rw [hequals]
    exact Writes.letterEquals hletter _
  · rename_i hne hplain
    cases h
    refine Writes.letterValue hletter ?_ ?_
    · simpa using hne
    · rw [Bool.eq_false_iff]
      intro hstart
      obtain ⟨value, hvalue⟩ := Text.startsWith_iff.mp hstart
      apply hplain value.toList
      simpa using congrArg String.toList hvalue

/-- An option whose letter has the given characters behind it: they are its value, less one leading
equals sign. -/
def optionBefore (name : OptionName) : List Char → Argument
  | [] => option name none
  | '=' :: value => option name (some (String.ofList value))
  | value => option name (some (String.ofList value))

theorem ofText_letter {name : OptionName} {c : Char} (h : name.letter? = some c) (rest : String) :
    ofText ("-" ++ (String.singleton c ++ rest)) = optionBefore name rest.toList := by
  have hchar : c ≠ '-' ∧ c ≠ 'V' ∧ c ≠ 'h' := by
    cases name <;> cases h <;> decide
  have hlist : (String.singleton c ++ rest).toList = c :: rest.toList := by simp
  have hplain : Text.after '-' (String.singleton c ++ rest) = none := by
    rw [Text.after, hlist]
    exact if_neg hchar.1
  rw [ofText_dash (by simp) hplain, ofShort, hlist]
  simp only [if_neg hchar.2.1, if_neg hchar.2.2, ofShort?_eq_some_iff.mpr h]
  rfl

theorem ofText_of_writes {text : String} {name : OptionName} {v : Option String}
    (h : name.Writes v text) : ofText text = option name v := by
  obtain ⟨hequals, hne, hversion, hhelp⟩ := long_excludes name
  cases h with
  | long =>
    rw [ofText_dashes hne, ofLong, Text.cut_of_not_mem hequals]
    simp only [if_neg hversion, if_neg hhelp]
    exact getD_map_option_iff.mpr ⟨ofLong?_eq_some_iff.mpr rfl, rfl⟩
  | longEquals value =>
    have hcut : Text.cut '=' (name.long ++ "=" ++ value) = some (name.long, value) :=
      Text.cut_append value hequals
    rw [ofText_dashes (by simp), ofLong, hcut]
    exact getD_map_option_iff.mpr ⟨ofLong?_eq_some_iff.mpr rfl, rfl⟩
  | letter hletter =>
    have htext := ofText_letter hletter ""
    rwa [String.append_empty] at htext
  | letterEquals hletter value =>
    have hlist : ("=" ++ value).toList = '=' :: value.toList := by simp
    rw [String.append_assoc, ofText_letter hletter, hlist, optionBefore, String.ofList_toList]
  | @letterValue c hletter value hnonempty hplain =>
    rw [ofText_letter hletter]
    cases hlist : value.toList with
    | nil => exact absurd (String.toList_inj.mp hlist) hnonempty
    | cons first others =>
      have hfirst : first ≠ '=' := by
        rintro rfl
        simp [Text.startsWith, hlist] at hplain
      rw [optionBefore, ← hlist, String.ofList_toList]
      · simp
      · intro value heq
        exact hfirst (List.cons.inj heq).1

/-- **One argument is read as an option** exactly if it is written as one. -/
theorem ofText_eq_option_iff {text : String} {name : OptionName} {v : Option String} :
    ofText text = option name v ↔ name.Writes v text := by
  refine ⟨fun h => ?_, ofText_of_writes⟩
  obtain hplain | rfl | ⟨rest, hne, rfl⟩ | ⟨rest, hne, hafter, rfl⟩ := cases_dash text
  · rw [ofText_of_not_isDashed hplain] at h
    cases h
  · exact absurd h (by simp [show ofText "--" = endOfOptions by decide])
  · rw [ofText_dashes hne] at h
    exact writes_of_ofLong h
  · rw [ofText_dash hne hafter] at h
    exact writes_of_ofShort h

/-- Whether an argument is an option, even an unknown one, and neither a query nor the end of the options. -/
def isOption : Argument → Bool
  | query _ => false
  | endOfOptions => false
  | _ => true

theorem isOption_ofLong (text : String) : (ofLong text).isOption = true := by
  have hnamed : ∀ (found : Option OptionName) (v : Option String),
      ((found.map fun o => option o v).getD unknown).isOption = true := by
    intro found v
    cases found with
    | none => rfl
    | some name => rfl
  rw [ofLong]
  split
  · exact hnamed _ _
  · split_ifs
    · rfl
    · rfl
    · exact hnamed _ _

theorem isOption_ofShort (text : String) : (ofShort text).isOption = true := by
  rw [ofShort]
  split
  · rfl
  split_ifs
  · rfl
  · rfl
  split
  · rfl
  · split
    all_goals rfl

/-- What is written like an option is one, unless it ends the options. -/
theorem ofText_of_isDashed {text : String} (h : isDashed text = true) :
    text = "--" ∨ (ofText text).isOption = true := by
  obtain hplain | rfl | ⟨rest, hne, rfl⟩ | ⟨rest, hne, hafter, rfl⟩ := cases_dash text
  · rw [h] at hplain
    cases hplain
  · exact Or.inl rfl
  · rw [ofText_dashes hne]
    exact Or.inr (isOption_ofLong rest)
  · rw [ofText_dash hne hafter]
    exact Or.inr (isOption_ofShort rest)

theorem ofText_eq_query_iff {text text' : String} :
    ofText text = query text' ↔ isDashed text = false ∧ text' = text := by
  cases hdashed : isDashed text with
  | false =>
    rw [ofText_of_not_isDashed hdashed]
    simp [eq_comm]
  | true =>
    refine ⟨fun hquery => ?_, fun hplain => absurd hplain.1 (by decide)⟩
    obtain rfl | hoption := ofText_of_isDashed hdashed
    · exact absurd hquery (by simp [show ofText "--" = endOfOptions by decide])
    · rw [hquery] at hoption
      cases hoption

theorem ofText_eq_endOfOptions_iff {text : String} : ofText text = endOfOptions ↔ text = "--" := by
  refine ⟨fun hend => ?_, fun htext => htext ▸ by decide⟩
  cases hdashed : isDashed text with
  | false =>
    rw [ofText_of_not_isDashed hdashed] at hend
    cases hend
  | true =>
    refine (ofText_of_isDashed hdashed).resolve_right fun hoption => ?_
    rw [hend] at hoption
    cases hoption

end Argument

/-! ### Reading what is given -/

namespace Invocation

/-- Takes in one thing that is given. -/
def give? (i : Invocation) : Given → Option Invocation
  | .query text => i.setQuery? text
  | .option name value => i.setOption? name value

end Invocation

namespace Request

open Invocation (give?)

/-- What a command line comes to that is read to its end. -/
def ofTaken : Option Invocation → Request
  | none => usage
  | some i => if i = Invocation.none then usage else run i

theorem ofTaken_eq_run_iff {taken : Option Invocation} {i : Invocation} :
    ofTaken taken = run i ↔ taken = some i ∧ i ≠ Invocation.none := by
  cases taken with
  | none => simp [ofTaken]
  | some j =>
    rw [ofTaken]
    split
    · rename_i hj
      simpa [hj] using Eq.symm
    · rename_i hj
      simp only [run.injEq, Option.some.injEq]
      exact ⟨fun h => ⟨h, h ▸ hj⟩, fun h => h.1⟩

theorem ofQueries_eq (i : Invocation) (texts : List String) :
    ofQueries i texts = ofTaken ((texts.map Given.query).foldlM give? i) := by
  induction texts generalizing i with
  | nil => rfl
  | cons text texts ih =>
    rw [ofQueries, List.map_cons, List.foldlM_cons, give?]
    cases i.setQuery? text with
    | none => rfl
    | some i => exact ih i

/-- **What is given is taken in from left to right**, whatever was taken in before. -/
theorem ofRest_of_spells {args : List String} {givens : List Given} (h : Spells args givens)
    (i : Invocation) : ofRest i args = ofTaken (givens.foldlM give? i) := by
  induction h generalizing i with
  | nil => rfl
  | @query text rest givens htext _ ih =>
    rw [ofRest, Argument.ofText_of_not_isDashed htext, List.foldlM_cons, give?]
    dsimp only
    cases i.setQuery? text with
    | none => rfl
    | some i => exact ih i
  | @attached name value text rest givens htext _ ih =>
    rw [ofRest, Argument.ofText_of_writes htext, List.foldlM_cons, give?]
    dsimp only
    cases i.setOption? name value with
    | none => rfl
    | some i => exact ih i
  | @separate name value text rest givens htext hvalue _ ih =>
    rw [ofRest, Argument.ofText_of_writes htext, List.foldlM_cons, give?]
    simp only [hvalue]
    cases i.setOption? name value with
    | none => rfl
    | some i => exact ih i
  | queries texts =>
    rw [ofRest, Argument.ofText_eq_endOfOptions_iff.mpr rfl]
    exact ofQueries_eq i texts

/-- A command line that makes a run spells something. -/
theorem exists_spells {args : List String} {i j : Invocation} (h : ofRest i args = run j) :
    ∃ givens, Spells args givens := by
  fun_induction ofRest i args with
  | case2 => exact ⟨[], Spells.nil⟩
  | case6 i text rest htext =>
    rw [Argument.ofText_eq_endOfOptions_iff] at htext
    exact ⟨rest.map Given.query, htext ▸ Spells.queries rest⟩
  | case8 i text rest text' htext i' _ ih =>
    obtain ⟨givens, hgivens⟩ := ih h
    obtain ⟨hplain, rfl⟩ := Argument.ofText_eq_query_iff.mp htext
    exact ⟨.query _ :: givens, Spells.query hplain hgivens⟩
  | case10 i text rest name value htext i' _ ih =>
    obtain ⟨givens, hgivens⟩ := ih h
    exact ⟨.option name value :: givens,
      Spells.attached (Argument.ofText_eq_option_iff.mp htext) hgivens⟩
  | case14 i text name htext value rest hvalue i' _ ih =>
    obtain ⟨givens, hgivens⟩ := ih h
    exact ⟨.option name value :: givens, Spells.separate (Argument.ofText_eq_option_iff.mp htext)
      (Bool.eq_false_iff.mpr hvalue) hgivens⟩
  | _ => cases h

end Request

/-! ### Invocations that come to what is given -/

theorem Format.ofLabel?_eq_some_iff {text : String} {format : Format} :
    Format.ofLabel? text = some format ↔ format.label = text := by
  refine ⟨fun h => by simpa using List.find?_some h, ?_⟩
  rintro rfl
  cases format <;> decide

theorem Verbosity.ofLabel?_eq_some_iff {text : String} {level : Verbosity} :
    Verbosity.ofLabel? text = some level ↔ level.label = text := by
  refine ⟨fun h => by simpa using List.find?_some h, ?_⟩
  rintro rfl
  cases level <;> decide

namespace Invocation

/-- An invocation is determined by what it holds for every slot. -/
theorem ext_text? {i j : Invocation} (h : ∀ slot, i.text? slot = j.text? slot) : i = j := by
  obtain ⟨query, file, collection, format, verbosity⟩ := i
  obtain ⟨query', file', collection', format', verbosity'⟩ := j
  have hformat : format = format' := by
    refine Option.map_injective (fun f g hfg => ?_) (h (some .format))
    have hlabel : Format.ofLabel? f.label = some g := Format.ofLabel?_eq_some_iff.mpr hfg.symm
    exact Option.some.inj ((Format.ofLabel?_eq_some_iff.mpr rfl).symm.trans hlabel)
  have hverbosity : verbosity = verbosity' := by
    refine Option.map_injective (fun f g hfg => ?_) (h (some .verbosity))
    have hlabel : Verbosity.ofLabel? f.label = some g := Verbosity.ofLabel?_eq_some_iff.mpr hfg.symm
    exact Option.some.inj ((Verbosity.ofLabel?_eq_some_iff.mpr rfl).symm.trans hlabel)
  obtain rfl : query = query' := h .none
  obtain rfl : file = file' := h (some .file)
  obtain rfl : collection = collection' := h (some .collection)
  rw [hformat, hverbosity]

theorem ite_isSome_eq_some_iff {α β : Type} {held : Option α} {set : Option β} {b : β} :
    (if held.isSome then .none else set) = some b ↔ held = .none ∧ set = some b := by
  cases held with
  | none => simp
  | some a => simp

/-- What holds for every slot holds for the query and each option. -/
theorem forall_slot {p : Option OptionName → Prop} (query : p .none) (collection : p (some .collection))
    (file : p (some .file)) (format : p (some .format)) (verbosity : p (some .verbosity)) :
    ∀ slot, p slot
  | .none => query
  | some .collection => collection
  | some .file => file
  | some .format => format
  | some .verbosity => verbosity

/-- **What is given is put into its slot**, which was free before, and nowhere else. -/
theorem of_give? {i j : Invocation} {given : Given} (h : i.give? given = some j) :
    i.text? given.slot = .none
      ∧ ∀ slot, j.text? slot = if slot = given.slot then some given.text else i.text? slot := by
  cases given with
  | query text =>
    obtain ⟨hfree, hset⟩ := ite_isSome_eq_some_iff.mp h
    cases hset
    exact ⟨hfree, forall_slot rfl rfl rfl rfl rfl⟩
  | option name value =>
    cases name with
    | collection =>
      obtain ⟨hfree, hset⟩ := ite_isSome_eq_some_iff.mp h
      cases hset
      exact ⟨hfree, forall_slot rfl rfl rfl rfl rfl⟩
    | file =>
      obtain ⟨hfree, hset⟩ := ite_isSome_eq_some_iff.mp h
      cases hset
      exact ⟨hfree, forall_slot rfl rfl rfl rfl rfl⟩
    | format =>
      obtain ⟨hfree, hset⟩ := ite_isSome_eq_some_iff.mp h
      obtain ⟨format, hformat, rfl⟩ := Option.map_eq_some_iff.mp hset
      obtain rfl := Format.ofLabel?_eq_some_iff.mp hformat
      exact ⟨Option.map_eq_none_iff.mpr hfree, forall_slot rfl rfl rfl rfl rfl⟩
    | verbosity =>
      obtain ⟨hfree, hset⟩ := ite_isSome_eq_some_iff.mp h
      obtain ⟨level, hlevel, rfl⟩ := Option.map_eq_some_iff.mp hset
      obtain rfl := Verbosity.ofLabel?_eq_some_iff.mp hlevel
      exact ⟨Option.map_eq_none_iff.mpr hfree, forall_slot rfl rfl rfl rfl rfl⟩

/-- What some invocation holds can be given to every other one whose slot is free. -/
theorem exists_give? {i j : Invocation} {given : Given} (hfree : i.text? given.slot = .none)
    (hallowed : j.text? given.slot = some given.text) : ∃ i', i.give? given = some i' := by
  cases given with
  | query text => exact ⟨_, ite_isSome_eq_some_iff.mpr ⟨hfree, rfl⟩⟩
  | option name value =>
    cases name with
    | collection => exact ⟨_, ite_isSome_eq_some_iff.mpr ⟨hfree, rfl⟩⟩
    | file => exact ⟨_, ite_isSome_eq_some_iff.mpr ⟨hfree, rfl⟩⟩
    | format =>
      obtain ⟨format, -, hlabel⟩ := Option.map_eq_some_iff.mp hallowed
      have hformat : Format.ofLabel? value = some format := Format.ofLabel?_eq_some_iff.mpr hlabel
      exact ⟨_, ite_isSome_eq_some_iff.mpr
        ⟨Option.map_eq_none_iff.mp hfree, Option.map_eq_some_iff.mpr ⟨format, hformat, rfl⟩⟩⟩
    | verbosity =>
      obtain ⟨level, -, hlabel⟩ := Option.map_eq_some_iff.mp hallowed
      have hlevel : Verbosity.ofLabel? value = some level := Verbosity.ofLabel?_eq_some_iff.mpr hlabel
      exact ⟨_, ite_isSome_eq_some_iff.mpr
        ⟨Option.map_eq_none_iff.mp hfree, Option.map_eq_some_iff.mpr ⟨level, hlevel, rfl⟩⟩⟩

/-! ### What is given as a whole -/

theorem text?_none : ∀ slot, Invocation.none.text? slot = .none :=
  forall_slot rfl rfl rfl rfl rfl

theorem holds_none : Invocation.none.Holds [] :=
  fun slot => (congrArg Option.toList (text?_none slot)).symm

/-- **Giving one more thing.** -/
theorem Holds.give? {i j : Invocation} {givens : List Given} (hi : i.Holds givens) {given : Given}
    (h : i.give? given = some j) : j.Holds (givens ++ [given]) := by
  obtain ⟨hfree, hset⟩ := of_give? h
  intro slot
  rw [List.filter_append, List.map_append, hi slot, hset slot]
  by_cases hslot : slot = given.slot
  · rw [if_pos hslot, hslot, hfree]
    simp
  · rw [if_neg hslot]
    simp [Ne.symm hslot]

/-- At most one invocation comes to what is given. -/
theorem Holds.eq {i j : Invocation} {givens : List Given} (hi : i.Holds givens)
    (hj : j.Holds givens) : i = j := by
  apply ext_text?
  intro slot
  apply Option.ext
  intro text
  rw [← Option.mem_toList, ← Option.mem_toList, ← hi slot, ← hj slot]

/-- Where something is given, nothing else is given for its slot. -/
theorem Holds.of_append_cons {j : Invocation} {before givens : List Given} {given : Given}
    (hj : j.Holds (before ++ given :: givens)) :
    before.filter (fun other => other.slot = given.slot) = []
      ∧ j.text? given.slot = some given.text := by
  have hslot := hj given.slot
  rw [List.filter_append, List.filter_cons_of_pos (by simp), List.map_append, List.map_cons] at hslot
  cases htext : j.text? given.slot with
  | none =>
    rw [htext] at hslot
    simp at hslot
  | some text =>
    rw [htext, Option.toList_some, List.append_eq_singleton_iff] at hslot
    obtain ⟨hnone, hone⟩ | ⟨-, hnone⟩ := hslot
    · exact ⟨List.map_eq_nil_iff.mp hnone, congrArg some (List.cons.inj hone).1.symm⟩
    · cases hnone

/-- **All that is given is taken in** exactly by the invocation that comes to it, whatever was taken in
before. -/
theorem foldlM_give?_iff {i j : Invocation} {before givens : List Given} (hi : i.Holds before) :
    givens.foldlM Invocation.give? i = some j ↔ j.Holds (before ++ givens) := by
  induction givens generalizing i before with
  | nil =>
    rw [List.append_nil]
    constructor
    · intro h
      cases h
      exact hi
    · intro hj
      rw [hi.eq hj]
      rfl
  | cons given givens ih =>
    rw [List.foldlM_cons, List.append_cons]
    constructor
    · intro h
      obtain ⟨i', hgive, hrest⟩ := Option.bind_eq_some_iff.mp h
      exact (ih (hi.give? hgive)).mp hrest
    · intro hj
      obtain ⟨hnone, htext⟩ := Holds.of_append_cons (List.append_cons before given givens ▸ hj)
      have hfree : i.text? given.slot = .none := by
        have hslot := hi given.slot
        rw [hnone] at hslot
        exact Option.toList_eq_nil_iff.mp hslot.symm
      obtain ⟨i', hgive⟩ := exists_give? hfree htext
      exact Option.bind_eq_some_iff.mpr ⟨i', hgive, (ih (hi.give? hgive)).mpr hj⟩

theorem Holds.ne_none_iff {i : Invocation} {givens : List Given} (hi : i.Holds givens) :
    i ≠ Invocation.none ↔ givens ≠ [] := by
  refine not_congr ⟨fun hnone => ?_, fun hnil => ?_⟩
  · cases givens with
    | nil => rfl
    | cons given givens =>
      have hfirst : i.Holds ([] ++ given :: givens) := hi
      have htext := hfirst.of_append_cons.2
      rw [hnone, text?_none] at htext
      cases htext
  · rw [hnil] at hi
    exact hi.eq holds_none

/-- The order in which things are given does not matter. -/
theorem Holds.perm {i : Invocation} {givens givens' : List Given} (hi : i.Holds givens)
    (h : givens'.Perm givens) : i.Holds givens' := by
  intro slot
  have hperm := (h.filter fun given => given.slot = slot).map Given.text
  rw [hi slot] at hperm
  cases htext : i.text? slot with
  | none =>
    rw [htext] at hperm
    exact List.perm_nil.mp hperm
  | some text =>
    rw [htext] at hperm
    exact List.perm_singleton.mp hperm

end Invocation

namespace Request

open Invocation

theorem ofArguments_of_spells {args : List String} {givens : List Given} (h : Spells args givens)
    {i : Invocation} : ofArguments args = run i ↔ givens ≠ [] ∧ i.Holds givens := by
  rw [ofArguments, ofRest_of_spells h, ofTaken_eq_run_iff, foldlM_give?_iff holds_none,
    List.nil_append, and_comm]
  exact and_congr_left fun hi => hi.ne_none_iff

/-- **Command lines that make a run.**  They are those that spell something, and the run is the one that
comes to what they give. -/
theorem ofArguments_eq_run_iff {args : List String} {i : Invocation} :
    ofArguments args = run i ↔ ∃ givens, Spells args givens ∧ givens ≠ [] ∧ i.Holds givens := by
  constructor
  · intro h
    obtain ⟨givens, hspells⟩ := exists_spells h
    exact ⟨givens, hspells, (ofArguments_of_spells hspells).mp h⟩
  · rintro ⟨givens, hspells, hgivens⟩
    exact (ofArguments_of_spells hspells).mpr hgivens

/-- A command line that gives the same things in another order, or spells them in another way, makes the
same run. -/
theorem ofArguments_of_perm {args args' : List String} {givens givens' : List Given}
    (h : Spells args givens) (h' : Spells args' givens') (hperm : givens'.Perm givens) {i : Invocation}
    (hrun : ofArguments args = run i) : ofArguments args' = run i := by
  obtain ⟨hne, hi⟩ := (ofArguments_of_spells h).mp hrun
  refine (ofArguments_of_spells h').mpr ⟨?_, hi.perm hperm⟩
  rintro rfl
  exact hne (List.nil_perm.mp hperm)

end Request

end QueryPipeline
