import QueryPipeline.Proofs.Projection
import QueryPipeline.Proofs.Validity

/-!
# Writing pipelines as queries

A pipeline without joins can be written as a query: a segment for each stage, with the digits of numbers
and with quotes around texts.  What is written is read back as the same pipeline, under any collection and
any operators.

* `Value.write?`, `Clause.write?`, `FieldList.write?`, `Stage.write?`, **`Pipeline.write?`** — the writers;
* **`Stage.IsWritable`** — the stages that can be written, which hold none of the separators;
* `Stage.segment` — the segment that a stage is read as;
* **`Value.exists_write`**, **`Clause.exists_write`**, **`FieldList.exists_write`**,
  **`Stage.exists_write`** — what is written is read back;
* **`compile_write`** — whole pipelines.
-/

namespace QueryPipeline

open Reading

/-! ### Texts without separators -/

namespace Text

/-- A text without any of the given characters. -/
def Lacks (cs : List Char) (s : String) : Prop :=
  ∀ c ∈ cs, c ∉ s.toList

instance (cs : List Char) (s : String) : Decidable (Lacks cs s) :=
  List.decidableBAll (fun c => c ∉ s.toList) cs

variable {cs : List Char}

theorem Lacks.mono {cs' : List Char} {s : String} (h : Lacks cs s) (hsub : cs' ⊆ cs) :
    Lacks cs' s :=
  fun c hc => h c (hsub hc)

theorem Lacks.append {a b : String} (ha : Lacks cs a) (hb : Lacks cs b) : Lacks cs (a ++ b) := by
  intro c hc hmem
  rw [String.toList_append] at hmem
  obtain hmem | hmem := List.mem_append.mp hmem
  · exact ha c hc hmem
  · exact hb c hc hmem

theorem lacks_append_iff {a b : String} : Lacks cs (a ++ b) ↔ Lacks cs a ∧ Lacks cs b := by
  refine ⟨fun h => ⟨fun c hc hmem => h c hc ?_, fun c hc hmem => h c hc ?_⟩, fun h => h.1.append h.2⟩
  · rw [String.toList_append]
    exact List.mem_append_left _ hmem
  · rw [String.toList_append]
    exact List.mem_append_right _ hmem

theorem Lacks.intercalate (sep : Char) (hsep : Lacks cs (String.singleton sep))
    {pieces : List String} (h : ∀ piece ∈ pieces, Lacks cs piece) :
    Lacks cs ((String.singleton sep).intercalate pieces) := by
  induction pieces with
  | nil =>
    intro c _ hmem
    rw [String.intercalate_nil] at hmem
    exact absurd hmem List.not_mem_nil
  | cons piece rest ih =>
    obtain ⟨hpiece, hrest⟩ := List.forall_mem_cons.mp h
    cases rest with
    | nil =>
      rw [String.intercalate_singleton]
      exact hpiece
    | cons next rest =>
      rw [String.intercalate_cons_cons]
      exact (hpiece.append hsep).append (ih hrest)

/-- What a text lacks, the pieces that it is joined from lack too. -/
theorem Lacks.of_intercalate (sep : Char) {pieces : List String}
    (h : Lacks cs ((String.singleton sep).intercalate pieces)) : ∀ piece ∈ pieces, Lacks cs piece := by
  induction pieces with
  | nil => exact fun _ hpiece => absurd hpiece List.not_mem_nil
  | cons piece rest ih =>
    cases rest with
    | nil =>
      rw [String.intercalate_singleton] at h
      exact List.forall_mem_singleton.mpr h
    | cons next rest =>
      rw [String.intercalate_cons_cons, lacks_append_iff, lacks_append_iff] at h
      exact List.forall_mem_cons.mpr ⟨h.1.1, ih h.2⟩

/-- What a text lacks, the pieces that it is cut into lack too. -/
theorem Lacks.of_mem_split {sep : Char} {s piece : String} (h : Lacks cs s)
    (hpiece : piece ∈ split sep s) : Lacks cs piece := by
  rw [← intercalate_split sep s] at h
  exact h.of_intercalate sep piece hpiece

/-- Pieces that are not empty are found again between the separators that join them. -/
theorem items_intercalate {sep : Char} {pieces : List String}
    (h : ∀ piece ∈ pieces, piece ≠ "" ∧ sep ∉ piece.toList) :
    items sep ((String.singleton sep).intercalate pieces) = pieces := by
  cases pieces with
  | nil => rw [String.intercalate_nil, items_empty]
  | cons piece rest =>
    rw [items, split_intercalate (List.cons_ne_nil _ _) fun p hp => (h p hp).2, List.filter_eq_self]
    intro p hp
    exact decide_eq_true (h p hp).1

end Text

/-! ### The writers -/

/-- The token of a boolean, a whole number or a text. -/
def Value.write? : Value → Option String
  | .bool true => some "true"
  | .bool false => some "false"
  | .int32 n => some (String.ofList (Decimal.writeInt n.toInt))
  | .int64 n => some (String.ofList (Decimal.writeInt n.toInt))
  | .string s => some (if s = "" then "" else "'" ++ s ++ "'")
  | _ => none

/-- A field as a clause. -/
def Clause.write? (field : String × Value) : Option String :=
  field.2.write?.map fun value => field.1 ++ "=" ++ value

/-- A field as a token of a field list, with a minus if it has the turned number. -/
def FieldList.write? (plain turned : Int32) (field : String × Value) : Option String :=
  if field.2 = .int32 plain then some field.1
  else if field.2 = .int32 turned then some ("-" ++ field.1)
  else none

/-- The arguments of a stage; joins are not written. -/
def Stage.arguments? : Stage → Option String
  | unwind path => some ("$" ++ path)
  | limit n => some (String.ofList (Decimal.writeInt n.toInt))
  | skip n => some (String.ofList (Decimal.writeInt n.toInt))
  | sample n => some (String.ofList (Decimal.writeInt n.toInt))
  | matching body => (body.mapM Clause.write?).map fun texts => ",".intercalate texts
  | addFields body => (body.mapM Clause.write?).map fun texts => ",".intercalate texts
  | project body => (body.mapM (FieldList.write? 1 0)).map fun texts => ",".intercalate texts
  | sort body => (body.mapM (FieldList.write? 1 (-1))).map fun texts => ",".intercalate texts
  | count name => some name
  | lookup _ => none

/-- A stage as a segment. -/
def Stage.write? (stage : Stage) : Option String :=
  stage.arguments?.map fun args => stage.kind.code ++ "_" ++ args

/-- Stages as a query. -/
def Pipeline.write? (stages : Pipeline) : Option String :=
  (stages.mapM Stage.write?).map fun texts => "&".intercalate texts

/-! ### What can be written -/

/-- The values that clauses are written with: a number of 64 bits only if it needs them, and a text only
without separators. -/
inductive Value.IsWritable : Value → Prop
  | bool (b : Bool) : IsWritable (.bool b)
  | int32 (n : Int32) : IsWritable (.int32 n)
  | int64 {n : Int64} (hwide : Literal.IsWide n) : IsWritable (.int64 n)
  | string {s : String} (hplain : Text.Lacks ['&', ',', '|', '='] s) : IsWritable (.string s)

namespace Stage

/-- A body that is written as clauses. -/
structure IsClauseBody (body : Document) : Prop where
  ne_nil : body ≠ []
  holds : body.Holds Value.IsWritable
  lacks : ∀ field ∈ body, Text.Lacks ['&', ',', '|', '='] field.1

/-- A body that is written as a field list with two numbers; a name behind the plain one does not start
with a minus. -/
structure IsFieldBody (plain turned : Int32) (body : Document) : Prop where
  ne_nil : body ≠ []
  holds : body.Holds fun v => v = .int32 plain ∨ v = .int32 turned
  lacks : ∀ field ∈ body, Text.Lacks ['&', ','] field.1
  unsigned : ∀ field ∈ body, field.2 = .int32 plain → Text.startsWith '-' field.1 = false

/-- The stages that are written. -/
def IsWritable : Stage → Prop
  | unwind path => path ≠ "" ∧ Text.Lacks ['&'] path
  | limit n => 1 ≤ n.toInt
  | skip n => 0 ≤ n.toInt
  | sample n => 1 ≤ n.toInt
  | matching body => IsClauseBody body
  | addFields body => IsClauseBody body
  | project body => IsFieldBody 1 0 body
  | sort body => IsFieldBody 1 (-1) body
  | count name => Grammar.IsCountField name ∧ Text.Lacks ['&'] name
  | lookup _ => False

end Stage

/-! ### Lists of pieces -/

/-- Pieces that are written one by one and read back one by one, are written and read back as a list. -/
theorem exists_write_mapM {α β ι : Type} {write : α → Option String}
    {read : ι → String → Except QueryError β} {result : α → β} {p : String → Prop} {as : List α}
    (h : ∀ a ∈ as, ∃ text, write a = some text ∧ p text ∧ ∀ i, read i text = .ok (result a)) :
    ∃ texts, as.mapM write = some texts ∧ (∀ text ∈ texts, p text)
      ∧ ∀ i, texts.mapM (read i) = .ok (as.map result) := by
  induction as with
  | nil => exact ⟨[], rfl, fun _ htext => absurd htext List.not_mem_nil, fun _ => rfl⟩
  | cons a as ih =>
    obtain ⟨hfirst, hrest⟩ := List.forall_mem_cons.mp h
    obtain ⟨text, hwrite, hp, hread⟩ := hfirst
    obtain ⟨texts, hwrites, hps, hreads⟩ := ih hrest
    refine ⟨text :: texts, ?_, List.forall_mem_cons.mpr ⟨hp, hps⟩, fun i => ?_⟩
    · rw [List.mapM_cons, hwrite, hwrites]
      rfl
    · rw [mapM_cons_eq, hread, hreads]
      rfl

/-- Pieces that hold no comma and no ampersand are found again between commas. -/
theorem exists_write_items {α β ι : Type} {write : α → Option String}
    {read : ι → String → Except QueryError β} {result : α → β} {as : List α}
    (h : ∀ a ∈ as, ∃ text, write a = some text ∧ (text ≠ "" ∧ Text.Lacks ['&', ','] text)
      ∧ ∀ i, read i text = .ok (result a)) :
    ∃ text, (as.mapM write).map (fun texts => ",".intercalate texts) = some text
      ∧ Text.Lacks ['&'] text ∧ ∀ i, (Text.items ',' text).mapM (read i) = .ok (as.map result) := by
  obtain ⟨texts, hwrite, htexts, hread⟩ := exists_write_mapM h
  have hitems : Text.items ',' (",".intercalate texts) = texts :=
    Text.items_intercalate fun text htext =>
      ⟨(htexts text htext).1, (htexts text htext).2 ',' (by decide)⟩
  refine ⟨",".intercalate texts, by rw [hwrite]; rfl, ?_, fun i => ?_⟩
  · exact Text.Lacks.intercalate ',' (by decide) fun text htext =>
      (htexts text htext).2.mono (by decide)
  · rw [hitems, hread]

/-! ### Values -/

/-- The digits of a number and its sign are no separators. -/
theorem Decimal.not_mem_writeInt {c : Char} (hdigit : c.isDigit = false) (hsign : c ≠ '-') (n : Int) :
    c ∉ writeInt n := by
  have hdigits : c ∉ Nat.toDigits 10 n.natAbs := by
    intro hmem
    rw [List.all_eq_true.mp (all_isDigit_toDigits _) c hmem] at hdigit
    cases hdigit
  rw [writeInt]
  split
  · exact fun hmem => (List.mem_cons.mp hmem).elim hsign hdigits
  · exact hdigits

theorem Decimal.lacks_writeInt {cs : List Char} (h : cs.all (fun c => ! c.isDigit && c != '-') = true)
    (n : Int) : Text.Lacks cs (String.ofList (writeInt n)) := by
  intro c hc
  have hchar := List.all_eq_true.mp h c hc
  rw [Bool.and_eq_true, Bool.not_eq_true', bne_iff_ne] at hchar
  rw [String.toList_ofList]
  exact not_mem_writeInt hchar.1 hchar.2 n

theorem Clause.isPath_of_not_mem {text : String} (h : '.' ∉ text.toList) : isPath text = false := by
  have hdot : text.toList.contains '.' = false := by simpa using h
  rw [isPath, hdot]
  rfl

theorem Clause.readValue_of_writeInt {n : Int} {v : Value}
    (h : Literal.coerce (String.ofList (Decimal.writeInt n)) = v) (operators : Registry) (key : String) :
    readValue operators key (String.ofList (Decimal.writeInt n)) = .ok v
      ∧ path? (String.ofList (Decimal.writeInt n)) = none := by
  have hplain : Text.Lacks ['$', '.'] (String.ofList (Decimal.writeInt n)) :=
    Decimal.lacks_writeInt (by decide) n
  rw [← h]
  exact readValue_of_token (application?_of_not_mem (hplain '$' (by decide)))
    (isPath_of_not_mem (hplain '.' (by decide))) operators key

/-- Between quotes nothing is an operator or a path. -/
theorem Clause.readValue_of_quoted {s : String} (h : s ≠ "") (operators : Registry) (key : String) :
    readValue operators key ("'" ++ s ++ "'") = .ok (.string s) ∧ path? ("'" ++ s ++ "'") = none := by
  have hquoted : Literal.quoted? ("'" ++ s ++ "'") = some s :=
    Literal.quoted?_eq_some_iff.mpr ⟨h, rfl⟩
  rw [← Literal.coerce_of_quoted h rfl]
  apply readValue_of_token
  · rw [application?, hquoted]
    rfl
  · rw [isPath, hquoted]
    simp

/-- **A value that is written** holds no separator and is read back. -/
theorem Value.exists_write {v : Value} (h : v.IsWritable) :
    ∃ text, v.write? = some text ∧ Text.Lacks ['&', ',', '|', '='] text
      ∧ ∀ operators key, Clause.readValue operators key text = .ok v ∧ Clause.path? text = none := by
  cases h with
  | bool b =>
    cases b with
    | true =>
      exact ⟨"true", rfl, by decide, Clause.readValue_of_token (by decide) (by decide)⟩
    | false =>
      exact ⟨"false", rfl, by decide, Clause.readValue_of_token (by decide) (by decide)⟩
  | int32 n =>
    refine ⟨_, rfl, Decimal.lacks_writeInt (by decide) _, Clause.readValue_of_writeInt ?_⟩
    exact Literal.coerce_of_isNumberText (Literal.IsNumberText.int32 String.toList_ofList)
  | int64 hwide =>
    refine ⟨_, rfl, Decimal.lacks_writeInt (by decide) _, Clause.readValue_of_writeInt ?_⟩
    exact Literal.coerce_of_isNumberText (Literal.IsNumberText.int64 String.toList_ofList hwide)
  | @string s hplain =>
    by_cases hs : s = ""
    · subst hs
      exact ⟨"", rfl, hplain, Clause.readValue_of_token (by decide) (by decide)⟩
    · refine ⟨"'" ++ s ++ "'", by rw [write?, if_neg hs], ?_, Clause.readValue_of_quoted hs⟩
      exact ((by decide : Text.Lacks ['&', ',', '|', '='] "'").append hplain).append (by decide)

/-! ### Clauses -/

theorem Document.insert_of_not_mem {d : Document} {key : String} (h : key ∉ keys d) (value : Value) :
    insert d key value = d ++ [(key, value)] := by
  induction d with
  | nil => rfl
  | cons field d ih =>
    obtain ⟨k, v⟩ := field
    rw [keys_cons, List.mem_cons, not_or] at h
    rw [insert, if_neg (Ne.symm h.1), ih h.2, List.cons_append]

theorem Document.insertAll_of_nodup {d : Document} {fields : List (String × Value)}
    (h : (keys (d ++ fields)).Nodup) : insertAll d fields = d ++ fields := by
  induction fields generalizing d with
  | nil => exact (List.append_nil d).symm
  | cons field fields ih =>
    have hfield : field.1 ∉ keys d := by
      rw [keys, List.map_append, List.map_cons, List.nodup_append] at h
      exact fun hmem => h.2.2 _ hmem _ List.mem_cons_self rfl
    show insertAll (insert d field.1 field.2) fields = d ++ field :: fields
    rw [insert_of_not_mem hfield, ih]
    · rw [List.append_assoc, List.singleton_append]
    · rwa [List.append_assoc, List.singleton_append]

/-- A document with distinct names is the document of its fields. -/
theorem Document.ofFields_of_nodup {d : Document} (h : (keys d).Nodup) : ofFields d = d :=
  insertAll_of_nodup (d := []) h

namespace Clause

/-- A field as a group of one clause. -/
def groupOf (field : String × Value) : List Clause :=
  [⟨field.1, field.2, none⟩]

/-- **A field that is written as a clause** is read back as a group of its own. -/
theorem exists_write {field : String × Value} (hkey : field.1 ≠ "")
    (hlacks : Text.Lacks ['&', ',', '|', '='] field.1) (hvalue : field.2.IsWritable) :
    ∃ text, write? field = some text ∧ (text ≠ "" ∧ Text.Lacks ['&', ','] text)
      ∧ ∀ operators, readGroup operators text = .ok (groupOf field) := by
  obtain ⟨value, hwrite, hplain, hread⟩ := Value.exists_write hvalue
  have hlist : Text.Lacks ['&', ',', '|'] (field.1 ++ "=" ++ value) :=
    ((hlacks.mono (by decide)).append (by decide)).append (hplain.mono (by decide))
  have hclause : Grammar.IsClause (field.1 ++ "=" ++ value) field.1 value :=
    ⟨rfl, hlacks '=' (by decide), hplain '=' (by decide), hkey⟩
  refine ⟨_, by rw [write?, hwrite]; rfl, ⟨?_, hlist.mono (by decide)⟩, fun operators => ?_⟩
  · intro hempty
    have hlength := congrArg String.toList hempty
    simp at hlength
  · obtain ⟨hok, hpath⟩ := hread operators field.1
    rw [readGroup, Text.split_of_not_mem (hlist '|' (by decide)), mapM_cons_eq,
      Acceptance.read_of_isClause hclause, hok, hpath]
    rfl

/-- A clause that stands alone in a segment is its only group. -/
theorem readGroups_of_lacks {text : String} (hne : text ≠ "") (hlacks : Text.Lacks [',', '|'] text)
    (operators : Registry) :
    readGroups operators text = (read operators text).map fun clause => [[clause]] := by
  rw [readGroups, Text.items_of_not_mem (hlacks ',' (by decide)) hne, mapM_cons_eq, readGroup,
    Text.split_of_not_mem (hlacks '|' (by decide)), mapM_cons_eq]
  cases read operators text with
  | error e => rfl
  | ok clause => rfl

theorem body_map_groupOf (fields : List (String × Value)) :
    body (fields.map groupOf) = Document.ofFields fields := by
  rw [body, List.foldl_map]
  rfl

theorem paths_map_groupOf (fields : List (String × Value)) : paths (fields.map groupOf) = [] := by
  rw [paths, List.filterMap_eq_nil_iff]
  intro clause hclause
  obtain ⟨group, hgroup, hmem⟩ := List.mem_flatten.mp hclause
  obtain ⟨field, -, rfl⟩ := List.mem_map.mp hgroup
  rw [List.mem_singleton.mp hmem]

/-- **A body that is written as clauses** is read back. -/
theorem exists_write_body {b : Document} (h : Stage.IsClauseBody b) :
    ∃ text, (b.mapM write?).map (fun texts => ",".intercalate texts) = some text
      ∧ Text.Lacks ['&'] text
      ∧ ∀ operators, ∃ groups, readGroups operators text = .ok groups
        ∧ body groups = b ∧ paths groups = [] := by
  obtain ⟨text, hwrite, hlacks, hread⟩ := exists_write_items fun field hfield =>
    exists_write (h.holds.named field.1 (List.mem_map_of_mem hfield)) (h.lacks field hfield)
      (h.holds.values field hfield)
  refine ⟨text, hwrite, hlacks, fun operators => ⟨b.map groupOf, hread operators, ?_, ?_⟩⟩
  · rw [body_map_groupOf, Document.ofFields_of_nodup h.holds.nodup]
  · exact paths_map_groupOf b

end Clause

/-! ### Field lists -/

namespace FieldList

variable {plain turned : Int32}

/-- **A field that is written as a token** is read back. -/
theorem exists_write {field : String × Value} (hname : field.1 ≠ "")
    (hlacks : Text.Lacks ['&', ','] field.1)
    (hvalue : field.2 = .int32 plain ∨ field.2 = .int32 turned)
    (hunsigned : field.2 = .int32 plain → Text.startsWith '-' field.1 = false) :
    ∃ text, write? plain turned field = some text ∧ (text ≠ "" ∧ Text.Lacks ['&', ','] text)
      ∧ ∀ _ : Unit, readField text = .ok (field.1, decide (field.2 = .int32 plain)) := by
  by_cases hplain : field.2 = .int32 plain
  · have hstart := hunsigned hplain
    have hafter : Text.after '-' field.1 = none := by
      rw [← Text.isSome_after] at hstart
      simpa using hstart
    refine ⟨field.1, by rw [write?, if_pos hplain], ⟨hname, hlacks⟩, fun _ => ?_⟩
    rw [readField_eq, fieldName, hafter, Option.getD_none, if_neg hname, hstart, decide_eq_true hplain]
    rfl
  · have hafter : Text.after '-' ("-" ++ field.1) = some field.1 := Text.after_eq_some_iff.mpr rfl
    have hstart : Text.startsWith '-' ("-" ++ field.1) = true := by
      rw [← Text.isSome_after, hafter]
      rfl
    refine ⟨"-" ++ field.1, ?_, ⟨?_, ?_⟩, fun _ => ?_⟩
    · rw [write?, if_neg hplain, if_pos (hvalue.resolve_left hplain)]
    · intro hempty
      have hlist := congrArg String.toList hempty
      simp at hlist
    · exact (by decide : Text.Lacks ['&', ','] "-").append hlacks
    · rw [readField_eq, fieldName, hafter, Option.getD_some, if_neg hname, hstart,
        decide_eq_false hplain]
      rfl

/-- **A body that is written as a field list** is read back. -/
theorem exists_write_body {b : Document} (h : Stage.IsFieldBody plain turned b) :
    ∃ text, (b.mapM (write? plain turned)).map (fun texts => ",".intercalate texts) = some text
      ∧ Text.Lacks ['&'] text
      ∧ ∃ fields, FieldList.read text = .ok fields ∧ toDocument plain turned fields = b := by
  obtain ⟨text, hwrite, hlacks, hread⟩ := exists_write_items fun field hfield =>
    exists_write (h.holds.named field.1 (List.mem_map_of_mem hfield)) (h.lacks field hfield)
      (h.holds.values field hfield) (h.unsigned field hfield)
  refine ⟨text, hwrite, hlacks, _, hread (), ?_⟩
  have hfields : (b.map fun field => (field.1, decide (field.2 = .int32 plain))).map
        (fun field => (field.1, Value.int32 (if field.2 then plain else turned))) = b := by
    rw [List.map_map]
    refine (List.map_congr_left fun field hfield => ?_).trans (List.map_id b)
    show (field.1, Value.int32 (if decide (field.2 = .int32 plain) then plain else turned)) = field
    by_cases hplain : field.2 = .int32 plain
    · rw [decide_eq_true hplain, if_pos rfl, ← hplain]
    · rw [decide_eq_false hplain, if_neg (by decide),
        ← (h.holds.values field hfield).resolve_left hplain]
  exact (congrArg Document.ofFields hfields).trans (Document.ofFields_of_nodup h.holds.nodup)

end FieldList

/-! ### Stages -/

theorem Segment.ofBody_of_ne_nil {stage : Document → Stage} {body : Document} (h : body ≠ []) :
    ofBody stage body = [stage body] := by
  cases body with
  | nil => exact absurd rfl h
  | cons field body => rfl

/-- The digits of an amount are read back. -/
theorem Segment.readAmount_writeInt (kind : StageKind) {least : Int} {n : Int64} (h : least ≤ n.toInt) :
    readAmount kind least (String.ofList (Decimal.writeInt n.toInt)) = .ok n := by
  have hfilter : (some n).filter (fun n => least ≤ n.toInt) = some n :=
    Option.filter_eq_some_iff.mpr ⟨rfl, decide_eq_true h⟩
  rw [readAmount, String.toList_ofList, Literal.readInt64?_writeInt, hfilter]

/-- A code, an underscore and arguments are read as the arguments of the kind. -/
theorem Segment.read_code (options : CompileOptions) (kind : StageKind) (args : String) :
    read options (kind.code ++ "_" ++ args) = readArguments options args kind := by
  have hcode : '_' ∉ kind.code.toList := by cases kind <;> decide
  have hsplit : splitCode (kind.code ++ "_" ++ args) = (kind.code, args) :=
    splitCode_eq_iff.mpr ⟨hcode, Or.inl rfl⟩
  rw [read, hsplit, StageKind.ofCode?_code]

namespace Stage

/-- The segment that a stage is read as. -/
def segment : Stage → Segment
  | project body => .projection body
  | stage => .fixed [stage] []

/-- The arguments of a stage are read back, one case for each kind. -/
theorem exists_arguments {stage : Stage} (h : stage.IsWritable) :
    ∃ args, stage.arguments? = some args ∧ Text.Lacks ['&'] args
      ∧ ∀ options, Segment.readArguments options args stage.kind = .ok stage.segment := by
  cases stage with
  | unwind path =>
    obtain ⟨hne, hplain⟩ := h
    have hafter : Text.after '$' ("$" ++ path) = some path := Text.after_eq_some_iff.mpr rfl
    refine ⟨_, rfl, (by decide : Text.Lacks ['&'] "$").append hplain, fun options => ?_⟩
    rw [kind, Segment.readArguments, Segment.readUnwind, hafter, Option.getD_some, if_neg hne]
    rfl
  | limit n =>
    refine ⟨_, rfl, Decimal.lacks_writeInt (by decide) _, fun options => ?_⟩
    rw [kind, Segment.readArguments, Segment.readAmount_writeInt .limit h]
    rfl
  | skip n =>
    refine ⟨_, rfl, Decimal.lacks_writeInt (by decide) _, fun options => ?_⟩
    rw [kind, Segment.readArguments, Segment.readAmount_writeInt .skip h]
    rfl
  | sample n =>
    refine ⟨_, rfl, Decimal.lacks_writeInt (by decide) _, fun options => ?_⟩
    rw [kind, Segment.readArguments, Segment.readAmount_writeInt .sample h]
    rfl
  | matching body =>
    obtain ⟨args, hwrite, hplain, hread⟩ := Clause.exists_write_body h
    refine ⟨args, hwrite, hplain, fun options => ?_⟩
    obtain ⟨groups, hgroups, hbody, -⟩ := hread options.operators
    rw [kind, Segment.readArguments, hgroups]
    show Except.ok (Segment.fixed (Segment.ofBody .matching (Clause.body groups)) []) = _
    rw [hbody, Segment.ofBody_of_ne_nil h.ne_nil]
    rfl
  | addFields body =>
    obtain ⟨args, hwrite, hplain, hread⟩ := Clause.exists_write_body h
    refine ⟨args, hwrite, hplain, fun options => ?_⟩
    obtain ⟨groups, hgroups, hbody, hpaths⟩ := hread options.operators
    rw [kind, Segment.readArguments, hgroups]
    show Except.ok (Segment.fixed (Segment.ofBody .addFields (Clause.body groups))
      (Clause.paths groups)) = _
    rw [hbody, hpaths, Segment.ofBody_of_ne_nil h.ne_nil]
    rfl
  | project body =>
    obtain ⟨args, hwrite, hplain, fields, hfields, hbody⟩ := FieldList.exists_write_body h
    refine ⟨args, hwrite, hplain, fun options => ?_⟩
    rw [kind, Segment.readArguments, hfields, ← hbody]
    rfl
  | sort body =>
    obtain ⟨args, hwrite, hplain, fields, hfields, hbody⟩ := FieldList.exists_write_body h
    refine ⟨args, hwrite, hplain, fun options => ?_⟩
    rw [kind, Segment.readArguments, hfields]
    show Except.ok (Segment.fixed (Segment.ofBody .sort (FieldList.toDocument 1 (-1) fields)) []) = _
    rw [hbody, Segment.ofBody_of_ne_nil h.ne_nil]
    rfl
  | count name =>
    obtain ⟨hname, hplain⟩ := h
    refine ⟨_, rfl, hplain, fun options => ?_⟩
    rw [kind, Segment.readArguments, Segment.readCount,
      if_neg fun hfault => Acceptance.not_isCountField_iff.mpr hfault hname]
    rfl
  | lookup join => exact absurd h id

/-- **A stage that is written** is read back. -/
theorem exists_write {stage : Stage} (h : stage.IsWritable) :
    ∃ text, stage.write? = some text ∧ (text ≠ "" ∧ '&' ∉ text.toList)
      ∧ ∀ options, Segment.read options text = .ok stage.segment := by
  obtain ⟨args, hargs, hplain, hread⟩ := exists_arguments h
  have hcode : Text.Lacks ['&'] (stage.kind.code ++ "_") := by cases stage.kind <;> decide
  refine ⟨_, by rw [write?, hargs]; rfl, ⟨fun hempty => ?_, ?_⟩, fun options => ?_⟩
  · have hlist := congrArg String.toList hempty
    simp at hlist
  · exact hcode.append hplain '&' (by decide)
  · rw [Segment.read_code, hread]

/-- A stage that can be written is what its segment emits where no path is kept. -/
theorem stages_segment {stage : Stage} (h : stage.IsWritable) :
    stage.segment.stages OrderedSet.empty = [stage] ∧ stage.segment.paths = [] := by
  cases stage with
  | project body =>
    refine ⟨?_, rfl⟩
    show Segment.ofBody .project (body ++ []) = _
    rw [List.append_nil, Segment.ofBody_of_ne_nil h.ne_nil]
  | _ => exact ⟨rfl, rfl⟩

end Stage

/-- **A run of stages** is what their segments emit: nothing is lifted on the way. -/
theorem Segment.stagesOf_map_segment {stages : List Stage} (h : ∀ stage ∈ stages, stage.IsWritable) :
    stagesOf OrderedSet.empty (stages.map Stage.segment) = stages := by
  induction stages with
  | nil => rfl
  | cons stage rest ih =>
    obtain ⟨hstage, hrest⟩ := List.forall_mem_cons.mp h
    obtain ⟨hstages, hpaths⟩ := Stage.stages_segment hstage
    rw [List.map_cons, stagesOf, hstages, hpaths, OrderedSet.union_nil, ih hrest, List.singleton_append]

/-! ### Pipelines -/

/-- **What is written compiles to what was written**, under any options, with the projection that drops
the identity behind it. -/
theorem compile_write {stages : Pipeline} (hne : stages ≠ [])
    (h : ∀ stage ∈ stages, stage.IsWritable) :
    ∃ query, stages.write? = some query
      ∧ ∀ options, compile options query = .ok (stages ++ [.project [("_id", .int32 0)]]) := by
  obtain ⟨texts, hwrite, htexts, hread⟩ := exists_write_mapM fun stage hstage =>
    Stage.exists_write (h stage hstage)
  have hitems : Text.items '&' ("&".intercalate texts) = texts := Text.items_intercalate htexts
  refine ⟨"&".intercalate texts, by rw [Pipeline.write?, hwrite]; rfl, fun options => ?_⟩
  have hquery : "&".intercalate texts ≠ "" := by
    intro hempty
    rw [hempty, Text.items_empty] at hitems
    have hlength := length_of_mapM (hread options)
    rw [← hitems, List.length_map] at hlength
    exact hne (List.length_eq_zero_iff.mp hlength)
  rw [compile, if_neg hquery, readSegments, hitems, hread]
  show Except.ok (assemble (stages.map Stage.segment)) = _
  rw [assemble, Segment.stagesOf_map_segment h]
  rfl

/-- Names and texts with dots, dollars, quotes and minus signs in them. -/
theorem compile_write_quoted :
    ∃ stages : Pipeline,
      stages = [.unwind "$a.b",
        .matching [("k.$x", .string "it's a.b$1"), ("n", .int64 (-9999999999)), ("e", .string "")],
        .project [("-y", .int32 0), ("z_", .int32 1)], .limit 9223372036854775807]
      ∧ stages.write?
        = some "u_$$a.b&m_k.$x='it's a.b$1',n=-9999999999,e=&p_--y,z_&l_9223372036854775807"
      ∧ compile (.standard none)
          "u_$$a.b&m_k.$x='it's a.b$1',n=-9999999999,e=&p_--y,z_&l_9223372036854775807"
        = .ok (stages ++ [.project [("_id", .int32 0)]]) := by
  have hunwind : (Stage.unwind "$a.b").IsWritable := ⟨by decide, by decide⟩
  have hmatching : (Stage.matching [("k.$x", .string "it's a.b$1"), ("n", .int64 (-9999999999)),
      ("e", .string "")]).IsWritable := by
    refine ⟨by decide, ⟨by decide +kernel, by decide +kernel, ?_⟩, by decide +kernel⟩
    exact List.forall_mem_cons.mpr ⟨.string (by decide), List.forall_mem_cons.mpr
      ⟨.int64 (Or.inl (by decide)), List.forall_mem_singleton.mpr (.string (by decide))⟩⟩
  have hproject : (Stage.project [("-y", .int32 0), ("z_", .int32 1)]).IsWritable :=
    ⟨by decide, ⟨by decide +kernel, by decide +kernel, by decide +kernel⟩, by decide +kernel,
      by decide +kernel⟩
  have hlimit : (Stage.limit 9223372036854775807).IsWritable := by
    show (1 : Int) ≤ (9223372036854775807 : Int64).toInt
    decide
  have hwritable := List.forall_mem_cons.mpr ⟨hunwind, List.forall_mem_cons.mpr ⟨hmatching,
    List.forall_mem_cons.mpr ⟨hproject, List.forall_mem_singleton.mpr hlimit⟩⟩⟩
  obtain ⟨query, hwrite, hcompile⟩ := compile_write (List.cons_ne_nil _ _) hwritable
  have htext : Pipeline.write? [.unwind "$a.b", .matching [("k.$x", .string "it's a.b$1"),
      ("n", .int64 (-9999999999)), ("e", .string "")], .project [("-y", .int32 0), ("z_", .int32 1)],
      .limit 9223372036854775807]
    = some "u_$$a.b&m_k.$x='it's a.b$1',n=-9999999999,e=&p_--y,z_&l_9223372036854775807" := by
    decide +kernel
  have hquery := Option.some.inj (hwrite.symm.trans htext)
  rw [hquery] at hcompile
  exact ⟨_, rfl, htext, hcompile _⟩

end QueryPipeline
