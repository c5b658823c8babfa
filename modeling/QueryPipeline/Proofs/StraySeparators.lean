import Mathlib.Logic.Relation
import QueryPipeline.Proofs.Cutting
import QueryPipeline.Proofs.Reading

/-!
# Separators that count for nothing

Pieces without text are skipped between ampersands, and between the commas of every segment that takes a
list.  A separator at an end or next to another one therefore changes nothing, wherever it stands and
however many there are: the pipeline is the same, and so is the fault.

* `Text.AddsSeparator` — one more separator, at an end or next to one that is there;
* **`Query.AddsStray`** — one more ampersand in a query, or one more comma in one of its lists;
* **`Segment.read_of_items`** — a list is read by its items;
* **`compile_of_addsStray`** — one more separator, and **`compile_of_strays`** — any number of them.
-/

namespace QueryPipeline

open Reading

namespace Text

/-- The second text is the first with one more separator: at its start, at its end, or next to one that
is there. -/
inductive AddsSeparator (sep : Char) : String → String → Prop
  | start (s : String) : AddsSeparator sep s (String.singleton sep ++ s)
  | finish (s : String) : AddsSeparator sep s (s ++ String.singleton sep)
  | beside (a b : String) :
    AddsSeparator sep (a ++ String.singleton sep ++ b)
      (a ++ String.singleton sep ++ String.singleton sep ++ b)

theorem items_singleton_append (sep : Char) (s : String) :
    items sep (String.singleton sep ++ s) = items sep s := by
  have h := items_append sep "" s
  rwa [String.empty_append, items_empty, List.nil_append] at h

theorem items_append_singleton (sep : Char) (s : String) :
    items sep (s ++ String.singleton sep) = items sep s := by
  have h := items_append sep s ""
  rwa [String.append_empty, items_empty, List.append_nil] at h

/-- One more separator adds no item. -/
theorem AddsSeparator.items_eq {sep : Char} {s s' : String} (h : AddsSeparator sep s s') :
    items sep s' = items sep s := by
  cases h with
  | start => exact items_singleton_append sep s
  | finish => exact items_append_singleton sep s
  | beside a b => rw [items_append, items_append_singleton, items_append]

theorem AddsSeparator.ne_empty {sep : Char} {s s' : String} (h : AddsSeparator sep s s') :
    s' ≠ "" := by
  cases h with
  | start => simp
  | finish => simp
  | beside a b => simp

end Text

/-! ### Lists between commas -/

/-- The codes of the segments whose arguments are lists between commas. -/
def StageKind.listCodes : List String :=
  ["m", "a", "p", "s", "f"]

/-- A segment that takes a list is read by its items. -/
theorem Segment.read_of_items (options : CompileOptions) {code args args' : String}
    (hcode : code ∈ StageKind.listCodes) (h : Text.items ',' args' = Text.items ',' args) :
    Segment.read options (code ++ "_" ++ args') = Segment.read options (code ++ "_" ++ args) := by
  have hplain : '_' ∉ code.toList := by
    simp only [StageKind.listCodes, List.mem_cons, List.not_mem_nil, or_false] at hcode
    obtain rfl | rfl | rfl | rfl | rfl := hcode
    all_goals decide
  have hsplit : ∀ args, Segment.splitCode (code ++ "_" ++ args) = (code, args) :=
    fun args => Segment.splitCode_eq_iff.mpr ⟨hplain, Or.inl rfl⟩
  have hargs : ∀ kind : StageKind, kind.code = code →
      Segment.readArguments options args' kind = Segment.readArguments options args kind := by
    intro kind hkind
    rw [← hkind] at hcode
    cases kind with
    | matching | addFields =>
      rw [Segment.readArguments, Segment.readArguments, Clause.readGroups, Clause.readGroups, h]
    | project | sort =>
      rw [Segment.readArguments, Segment.readArguments, FieldList.read, FieldList.read, h]
    | lookup =>
      rw [Segment.readArguments, Segment.readArguments, JoinSpec.readAll, JoinSpec.readAll, h]
    | _ => exact absurd hcode (by decide)
  rw [Segment.read, Segment.read, hsplit, hsplit]
  cases hkind : StageKind.ofCode? code with
  | none => rfl
  | some kind => exact hargs kind (StageKind.code_of_ofCode? hkind)

/-! ### Queries -/

/-- The second query is the first with one more separator: an ampersand, or a comma in the arguments of
a segment that takes a list. -/
inductive Query.AddsStray : String → String → Prop
  | ampersand {query query' : String} (h : Text.AddsSeparator '&' query query') :
    AddsStray query query'
  | comma {query query' code args args' : String} {before after : List String}
    (hcode : code ∈ StageKind.listCodes) (hargs : Text.AddsSeparator ',' args args')
    (h : Text.split '&' query = before ++ (code ++ "_" ++ args) :: after)
    (h' : Text.split '&' query' = before ++ (code ++ "_" ++ args') :: after) :
    AddsStray query query'

theorem Segment.append_ne_empty (code args : String) : code ++ "_" ++ args ≠ "" := by
  simp

/-- The segments around a piece that is not empty. -/
theorem Text.items_of_split {sep : Char} {s piece : String} {before after : List String}
    (h : split sep s = before ++ piece :: after) (hpiece : piece ≠ "") :
    items sep s = before.filter (fun piece => piece ≠ "")
      ++ piece :: after.filter (fun piece => piece ≠ "") := by
  rw [items, h, List.filter_append, List.filter_cons_of_pos (by simpa using hpiece)]

/-- No piece of a text has the separator in it. -/
theorem Text.not_mem_of_split {sep : Char} {s piece : String} {before after : List String}
    (h : split sep s = before ++ piece :: after) : sep ∉ piece.toList := by
  refine not_mem_of_mem_split (s := s) ?_
  rw [h]
  exact List.mem_append_right _ List.mem_cons_self

/-- What holds of the pieces of a list still does if one is put in the place of another. -/
theorem forall_mem_replace {α : Type} {p : α → Prop} {a a' : α} {before after : List α}
    (h : ∀ b ∈ before ++ a :: after, p b) (ha' : p a') : ∀ b ∈ before ++ a' :: after, p b := by
  intro b hb
  rcases List.mem_append.mp hb with hb | hb
  · exact h b (List.mem_append_left _ hb)
  rcases List.mem_cons.mp hb with rfl | hb
  · exact ha'
  · exact h b (List.mem_append_right _ (List.mem_cons_of_mem _ hb))

/-- One piece of a text can be put in the place of another. -/
theorem Text.split_replace {sep : Char} {s piece piece' : String} {before after : List String}
    (h : split sep s = before ++ piece :: after) (hpiece : sep ∉ piece'.toList) :
    split sep ((String.singleton sep).intercalate (before ++ piece' :: after))
      = before ++ piece' :: after := by
  have hpieces : ∀ p ∈ before ++ piece :: after, sep ∉ p.toList := by
    rw [← h]
    exact fun p hp => not_mem_of_mem_split hp
  exact split_intercalate (by simp) (forall_mem_replace hpieces hpiece)

/-- A text with a piece that is not empty is not empty. -/
theorem Text.ne_empty_of_split {sep : Char} {s piece : String} {before after : List String}
    (h : split sep s = before ++ piece :: after) (hpiece : piece ≠ "") : s ≠ "" := by
  rintro rfl
  have hmem : piece ∈ split sep "" := by
    rw [h]
    exact List.mem_append_right _ List.mem_cons_self
  rw [split_empty, List.mem_singleton] at hmem
  exact hpiece hmem

/-- A list is read as before if one of its pieces is put in the place of another that is read as it. -/
theorem mapM_replace {α β ε : Type} {read : α → Except ε β} {a a' : α} (h : read a' = read a)
    (before after : List α) :
    (before ++ a' :: after).mapM read = (before ++ a :: after).mapM read := by
  rw [mapM_append_eq, mapM_append_eq, mapM_cons_eq, mapM_cons_eq, h]

/-- The segments of a query are read as before if one of them is put in the place of another that is read
as it. -/
theorem readSegments_replace (options : CompileOptions) {query query' text text' : String}
    {before after : List String} (h : Text.split '&' query = before ++ text :: after)
    (h' : Text.split '&' query' = before ++ text' :: after) (htext : text ≠ "") (htext' : text' ≠ "")
    (hread : Segment.read options text' = Segment.read options text) :
    readSegments options query' = readSegments options query := by
  rw [readSegments, readSegments, Text.items_of_split h htext, Text.items_of_split h' htext']
  exact mapM_replace hread _ _

/-- **One more separator** in a query changes neither the pipeline nor the fault. -/
theorem compile_of_addsStray (options : CompileOptions) {query query' : String} (hquery : query ≠ "")
    (h : Query.AddsStray query query') :
    query' ≠ "" ∧ compile options query' = compile options query := by
  have hsame : query' ≠ "" ∧ readSegments options query' = readSegments options query := by
    cases h with
    | ampersand h =>
      refine ⟨h.ne_empty, ?_⟩
      rw [readSegments, readSegments, h.items_eq]
    | @comma code args args' before after hcode hargs h h' =>
      have hne := Segment.append_ne_empty code args
      have hne' := Segment.append_ne_empty code args'
      exact ⟨Text.ne_empty_of_split h' hne', readSegments_replace options h h' hne hne'
        (Segment.read_of_items options hcode hargs.items_eq)⟩
  refine ⟨hsame.1, ?_⟩
  rw [compile, compile, if_neg hsame.1, if_neg hquery, hsame.2]

/-- **Stray separators never matter.**  Any number of separators at the ends of a query, or of one of its
lists, or next to others, leave what it compiles to as it is: the same pipeline, or the same fault. -/
theorem compile_of_strays (options : CompileOptions) {query query' : String} (hquery : query ≠ "")
    (h : Relation.ReflTransGen Query.AddsStray query query') :
    compile options query' = compile options query := by
  have hrun : query' ≠ "" ∧ compile options query' = compile options query := by
    induction h with
    | refl => exact ⟨hquery, rfl⟩
    | tail _ hstep ih =>
      obtain ⟨hne, hsame⟩ := ih
      obtain ⟨hne', hsame'⟩ := compile_of_addsStray options hne hstep
      exact ⟨hne', hsame'.trans hsame⟩
  exact hrun.2

/-- Ampersands at the start and inside, and commas at both ends of a list of joins that fails. -/
theorem compile_of_strays_failing_join :
    compile (.standard none) "&m_a=1&&f_,+x,y,," = compile (.standard none) "m_a=1&f_+x,y,"
      ∧ compile (.standard none) "m_a=1&f_+x,y,"
        = .error (.malformedJoin "+x" JoinFault.noLocalName.message) := by
  have hfirst : Query.AddsStray "m_a=1&f_+x,y," "&m_a=1&f_+x,y," :=
    .ampersand (.start "m_a=1&f_+x,y,")
  have hsecond : Query.AddsStray "&m_a=1&f_+x,y," "&m_a=1&&f_+x,y," :=
    .ampersand (.beside "&m_a=1" "f_+x,y,")
  have hthird : Query.AddsStray "&m_a=1&&f_+x,y," "&m_a=1&&f_,+x,y," :=
    @Query.AddsStray.comma _ _ "f" "+x,y," ",+x,y," ["", "m_a=1", ""] [] (by decide)
      (.start "+x,y,") (by decide +kernel) (by decide +kernel)
  have hfourth : Query.AddsStray "&m_a=1&&f_,+x,y," "&m_a=1&&f_,+x,y,," :=
    @Query.AddsStray.comma _ _ "f" ",+x,y," ",+x,y,," ["", "m_a=1", ""] [] (by decide)
      (.beside ",+x,y" "") (by decide +kernel) (by decide +kernel)
  refine ⟨compile_of_strays (.standard none) (by decide) ?_, by decide +kernel⟩
  exact ((Relation.ReflTransGen.single hfirst).tail hsecond).tail hthird |>.tail hfourth

/-- The empty query matches every document, and an ampersand in it is no segment that does. -/
example : compile (.standard none) "" ≠ compile (.standard none) "&" := by
  decide +kernel

end QueryPipeline
