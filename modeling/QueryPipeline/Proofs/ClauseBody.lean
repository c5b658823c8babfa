import QueryPipeline.Proofs.Listing
import QueryPipeline.Proofs.Lifting

/-!
# The body that groups of clauses make

The body is put together group by group, and what a group does to it depends on the groups before: a
clause replaces the value of its key, the first choice opens `$or`, and every later choice is added to
`$and`.  This module gives the finished body at once.

* `Clause.entryNames` — the entry that each group belongs to, group by group;
* `Clause.finalValue` — what an entry holds in the end;
* **`Clause.Holds`** — the invariant of the loop over the groups, with `holds_insertGroup` for one group
  and `holds_body` for all of them;
* **`stages_of_groups`** — the body of a match or of added fields.
-/

namespace QueryPipeline

open Reading

namespace Clause

/-! ### The finished body -/

/-- The groups of several alternatives. -/
def choices (groups : List (List Clause)) : List (List Clause) :=
  groups.filter fun group => 2 ≤ group.length

/-- The clauses that are groups of their own. -/
def singles (groups : List (List Clause)) : List Clause :=
  (groups.filter fun group => group.length = 1).flatten

/-- The alternatives of a choice, each as a document of one field. -/
def alternatives (group : List Clause) : Value :=
  .array (group.map fun clause => .document [(clause.key, clause.value)])

/-- The entry that a group belongs to: that of its key for a single clause, `$or` for the first choice,
and `$and` for every other one. -/
def entryName (before : List (List Clause)) : List Clause → String
  | [clause] => clause.key
  | _ => if choices before = [] then "$or" else "$and"

/-- The entries that groups belong to, behind the groups `before`. -/
def entryNames (before : List (List Clause)) : List (List Clause) → List String
  | [] => []
  | group :: rest => entryName before group :: entryNames (before ++ [group]) rest

/-- A choice as a document of its own. -/
def choiceDocument (group : List Clause) : Value :=
  .document [("$or", alternatives group)]

/-- The list of the choices behind the first, if there are any. -/
def laterChoices (groups : List (List Clause)) : Option Value :=
  if groups = [] then none else some (.array (groups.map choiceDocument))

/-- What an entry holds in the end: `$or` the alternatives of the first choice, `$and` a document for
every other choice, and a key the value of the last single clause with this key. -/
def finalValue (groups : List (List Clause)) (name : String) : Option Value :=
  if name = "$or" then (choices groups).head?.map alternatives
  else if name = "$and" then laterChoices (choices groups).tail
  else ((singles groups).reverse.find? fun clause => clause.key = name).map Clause.value

/-- The body of groups: every entry once, where it first arises. -/
def finished (groups : List (List Clause)) : Document :=
  Document.listing (entryNames [] groups).eraseDups (finalValue groups)

/-! ### One more group -/

theorem entryNames_append (before groups : List (List Clause)) (group : List Clause) :
    entryNames before (groups ++ [group])
      = entryNames before groups ++ [entryName (before ++ groups) group] := by
  induction groups generalizing before with
  | nil =>
    rw [List.append_nil]
    rfl
  | cons first rest ih =>
    rw [List.cons_append, entryNames, ih, entryNames, List.append_assoc]
    rfl

theorem choices_append_single (groups : List (List Clause)) (clause : Clause) :
    choices (groups ++ [[clause]]) = choices groups := by
  simp [choices]

theorem choices_append_choice (groups : List (List Clause)) {group : List Clause}
    (h : 2 ≤ group.length) : choices (groups ++ [group]) = choices groups ++ [group] := by
  simp [choices, h]

theorem singles_append_single (groups : List (List Clause)) (clause : Clause) :
    singles (groups ++ [[clause]]) = singles groups ++ [clause] := by
  simp [singles]

theorem singles_append_choice (groups : List (List Clause)) {group : List Clause}
    (h : 2 ≤ group.length) : singles (groups ++ [group]) = singles groups := by
  have hone : group.length ≠ 1 := by omega
  simp [singles, hone]

/-- A single clause changes the entry of its key. -/
theorem finalValue_append_single (groups : List (List Clause)) {clause : Clause}
    (hor : clause.key ≠ "$or") (hand : clause.key ≠ "$and") (name : String) :
    finalValue (groups ++ [[clause]]) name
      = if name = clause.key then some clause.value else finalValue groups name := by
  rw [finalValue, choices_append_single, singles_append_single, List.reverse_append,
    List.reverse_singleton, List.singleton_append, List.find?_cons]
  by_cases hname : name = clause.key
  · rw [if_neg (hname ▸ hor), if_neg (hname ▸ hand), if_pos hname]
    simp [hname]
  · have hkey : decide (clause.key = name) = false := by simpa using fun h => hname h.symm
    rw [if_neg hname, hkey]
    rfl

/-- The first choice makes the entry `$or`. -/
theorem finalValue_append_first (groups : List (List Clause)) {group : List Clause}
    (h : 2 ≤ group.length) (hnone : choices groups = []) (name : String) :
    finalValue (groups ++ [group]) name
      = if name = "$or" then some (alternatives group) else finalValue groups name := by
  rw [finalValue, finalValue, choices_append_choice groups h, singles_append_choice groups h, hnone]
  by_cases hor : name = "$or"
  · rw [if_pos hor, if_pos hor]
    rfl
  · rw [if_neg hor, if_neg hor, if_neg hor]
    rfl

/-- Every other choice is added to the entry `$and`. -/
theorem finalValue_append_later (groups : List (List Clause)) {group : List Clause}
    (h : 2 ≤ group.length) {first : List Clause} {rest : List (List Clause)}
    (hchoices : choices groups = first :: rest) (name : String) :
    finalValue (groups ++ [group]) name
      = if name = "$and" then some (.array (rest.map choiceDocument ++ [choiceDocument group]))
        else finalValue groups name := by
  rw [finalValue, finalValue, choices_append_choice groups h, singles_append_choice groups h, hchoices]
  by_cases hor : name = "$or"
  · subst hor
    rw [if_pos rfl, if_neg (by decide), if_pos rfl]
    rfl
  · rw [if_neg hor, if_neg hor]
    by_cases hand : name = "$and"
    · rw [if_pos hand, if_pos hand, List.cons_append, List.tail_cons, laterChoices,
        if_neg (by simp), List.map_append]
      rfl
    · rw [if_neg hand, if_neg hand, if_neg hand]

/-! ### The loop over the groups -/

/-- The body `d` holds what the groups put into it. -/
structure Holds (d : Document) (groups : List (List Clause)) : Prop where
  keys_eq : Document.keys d = (entryNames [] groups).eraseDups
  get?_eq : ∀ name, Document.get? d name = finalValue groups name

theorem holds_nil : Holds [] [] := by
  refine ⟨rfl, fun name => ?_⟩
  show none = finalValue [] name
  rw [finalValue]
  split
  · rfl
  · split
    · rfl
    · rfl

/-- One more entry stands behind the others unless it is there. -/
theorem keys_insert_entryName {d : Document} {groups : List (List Clause)} (h : Holds d groups)
    (group : List Clause) (value : Value) :
    Document.keys (Document.insert d (entryName groups group) value)
      = (entryNames [] (groups ++ [group])).eraseDups := by
  have hnames := entryNames_append [] groups group
  rw [List.nil_append] at hnames
  have hfold : ∀ names : List String, names.eraseDups = names.foldl addNew [] := by
    intro names
    rw [foldl_addNew, List.removeAll_nil, List.nil_append]
  rw [Document.keys_insert, h.keys_eq, hnames, hfold, hfold, List.foldl_append]
  rfl

theorem contains_or_iff {d : Document} {groups : List (List Clause)} (h : Holds d groups) :
    Document.contains d "$or" = true ↔ choices groups ≠ [] := by
  have hget : (Document.get? d "$or").isSome ↔ choices groups ≠ [] := by
    rw [h.get?_eq, finalValue, if_pos rfl]
    cases choices groups with
    | nil => simp
    | cons first rest => simp
  rw [Document.contains, decide_eq_true_iff, ← Document.isSome_get?_iff, hget]

theorem insertChoice_of_first {d : Document} (h : ¬ Document.contains d "$or" = true)
    (group : List Clause) :
    insertChoice d (group.map fun clause => .document clause.toDocument)
      = Document.insert d "$or" (alternatives group) := by
  rw [insertChoice, if_neg h]
  rfl

theorem insertChoice_of_later {d : Document} (h : Document.contains d "$or" = true)
    {rest : List (List Clause)} (hand : Document.get? d "$and" = laterChoices rest)
    (group : List Clause) :
    insertChoice d (group.map fun clause => .document clause.toDocument)
      = Document.insert d "$and" (.array (rest.map choiceDocument ++ [choiceDocument group])) := by
  rw [insertChoice, if_pos h, hand]
  cases rest with
  | nil => rfl
  | cons second rest => rfl

/-- A choice is added to a body that holds the groups before it. -/
theorem holds_insertChoice {d : Document} {groups : List (List Clause)} (h : Holds d groups)
    {group : List Clause} (hlength : 2 ≤ group.length)
    (hname : entryName groups group = if choices groups = [] then "$or" else "$and") :
    Holds (insertChoice d (group.map fun clause => .document clause.toDocument))
      (groups ++ [group]) := by
  have hkeys := keys_insert_entryName h group
  rw [hname] at hkeys
  cases hfirst : choices groups with
  | nil =>
    have hcontains : ¬ Document.contains d "$or" = true := by
      rw [contains_or_iff h, hfirst]
      simp
    rw [hfirst, if_pos rfl] at hkeys
    rw [insertChoice_of_first hcontains]
    refine ⟨hkeys _, fun name => ?_⟩
    rw [Document.get?_insert, finalValue_append_first groups hlength hfirst, h.get?_eq]
  | cons first rest =>
    have hcontains : Document.contains d "$or" = true := by
      rw [contains_or_iff h, hfirst]
      simp
    have hand : Document.get? d "$and" = laterChoices rest := by
      rw [h.get?_eq, finalValue, if_neg (by decide), if_pos rfl, hfirst, List.tail_cons]
    rw [hfirst, if_neg (by simp)] at hkeys
    rw [insertChoice_of_later hcontains hand]
    refine ⟨hkeys _, fun name => ?_⟩
    rw [Document.get?_insert, finalValue_append_later groups hlength hfirst, h.get?_eq]

/-- **One group.**  Putting a group into a body that holds the groups before it makes a body that holds
it as well. -/
theorem holds_insertGroup {d : Document} {groups : List (List Clause)} (h : Holds d groups)
    {group : List Clause} (hgroup : group ≠ [])
    (hplain : ∀ clause, group = [clause] → clause.key ≠ "$or" ∧ clause.key ≠ "$and") :
    Holds (insertGroup d group) (groups ++ [group]) := by
  match group, hgroup with
  | [clause], _ =>
    obtain ⟨hor, hand⟩ := hplain clause rfl
    refine ⟨keys_insert_entryName h [clause] clause.value, fun name => ?_⟩
    show Document.get? (Document.insert d clause.key clause.value) name = _
    rw [Document.get?_insert, finalValue_append_single groups hor hand, h.get?_eq]
  | clause :: clause' :: clauses, _ =>
    have hlength : 2 ≤ (clause :: clause' :: clauses).length := by
      rw [List.length_cons, List.length_cons]
      omega
    exact holds_insertChoice h hlength rfl

/-- **All groups.**  The body of groups holds what the groups put into it. -/
theorem holds_body {groups : List (List Clause)} (hgroups : ∀ group ∈ groups, group ≠ [])
    (hplain : ∀ clause, [clause] ∈ groups → clause.key ≠ "$or" ∧ clause.key ≠ "$and") :
    Holds (body groups) groups := by
  -- the induction is on the groups that are still to come, behind any that are in the body
  have hloop : ∀ (rest before : List (List Clause)) (d : Document), Holds d before →
      (∀ group ∈ rest, group ≠ []) →
      (∀ clause, [clause] ∈ rest → clause.key ≠ "$or" ∧ clause.key ≠ "$and") →
      Holds (rest.foldl insertGroup d) (before ++ rest) := by
    intro rest
    induction rest with
    | nil =>
      intro before d hd _ _
      rw [List.append_nil]
      exact hd
    | cons group rest ih =>
      intro before d hd hne hkeys
      have hstep : Holds (insertGroup d group) (before ++ [group]) := by
        refine holds_insertGroup hd (hne group List.mem_cons_self) ?_
        intro clause hclause
        exact hkeys clause (hclause ▸ List.mem_cons_self)
      have hrest := ih (before ++ [group]) (insertGroup d group) hstep
        (fun g hg => hne g (List.mem_cons_of_mem _ hg))
        (fun clause hclause => hkeys clause (List.mem_cons_of_mem _ hclause))
      rwa [List.append_assoc, List.singleton_append] at hrest
  exact hloop groups [] [] holds_nil hgroups hplain

theorem body_eq_finished {groups : List (List Clause)} (hgroups : ∀ group ∈ groups, group ≠ [])
    (hplain : ∀ clause, [clause] ∈ groups → clause.key ≠ "$or" ∧ clause.key ≠ "$and") :
    body groups = finished groups := by
  have hholds := holds_body hgroups hplain
  exact Document.eq_listing hholds.keys_eq fun name _ => hholds.get?_eq name

/-! ### Groups that are read -/

theorem ne_nil_of_readGroup {operators : Registry} {text : String} {group : List Clause}
    (h : readGroup operators text = .ok group) : group ≠ [] := by
  intro hgroup
  have hlength := length_of_mapM h
  rw [hgroup, List.length_nil] at hlength
  exact Text.split_ne_nil '|' text (List.length_eq_zero_iff.mp hlength.symm)

theorem ne_nil_of_mem_of_readGroups {operators : Registry} {args : String}
    {groups : List (List Clause)} (h : readGroups operators args = .ok groups) :
    ∀ group ∈ groups, group ≠ [] :=
  forall_of_mapM (fun _ _ _ hgroup => ne_nil_of_readGroup hgroup) h

/-- There is no group exactly if every piece between commas is empty. -/
theorem eq_nil_iff_of_readGroups {operators : Registry} {args : String}
    {groups : List (List Clause)} (h : readGroups operators args = .ok groups) :
    groups = [] ↔ ∀ piece ∈ Text.split ',' args, piece = "" := by
  have hlength := length_of_mapM h
  have hempty : groups = [] ↔ Text.items ',' args = [] := by
    rw [← List.length_eq_zero_iff, hlength, List.length_eq_zero_iff]
  rw [hempty, Text.items, List.filter_eq_nil_iff]
  simp

theorem keys_finished {groups : List (List Clause)} (hgroups : ∀ group ∈ groups, group ≠ [])
    (hplain : ∀ clause, [clause] ∈ groups → clause.key ≠ "$or" ∧ clause.key ≠ "$and") :
    Document.keys (finished groups) = (entryNames [] groups).eraseDups := by
  rw [← body_eq_finished hgroups hplain]
  exact (holds_body hgroups hplain).keys_eq

theorem finished_eq_nil_iff {groups : List (List Clause)} (hgroups : ∀ group ∈ groups, group ≠ [])
    (hplain : ∀ clause, [clause] ∈ groups → clause.key ≠ "$or" ∧ clause.key ≠ "$and") :
    finished groups = [] ↔ groups = [] := by
  cases groups with
  | nil => simp [finished, entryNames, Document.listing]
  | cons group groups =>
    have hkeys := keys_finished hgroups hplain
    rw [entryNames, List.eraseDups_cons] at hkeys
    have hne : finished (group :: groups) ≠ [] := by
      intro h
      rw [h] at hkeys
      exact absurd hkeys (by simp)
    simp [hne]

end Clause

/-! ### The body of a match or of added fields -/

/-- **The body of groups.**  Where no single clause has the key `$or` or `$and`, the body has exactly
these entries, each where it first arises: the key of every single clause with its last value, `$or`
with the alternatives of the first choice, and `$and` with a document for each choice behind it.  There
is no stage exactly if there is no group. -/
theorem stages_of_groups (options : CompileOptions) {args : String} {groups : List (List Clause)}
    (h : Clause.readGroups options.operators args = .ok groups)
    (hplain : ∀ clause, [clause] ∈ groups → clause.key ≠ "$or" ∧ clause.key ≠ "$and") :
    Segment.readArguments options args .matching
        = .ok (.fixed (Segment.ofBody .matching (Clause.finished groups)) [])
    ∧ Segment.readArguments options args .addFields
        = .ok (.fixed (Segment.ofBody .addFields (Clause.finished groups)) (Clause.paths groups))
    ∧ Document.keys (Clause.finished groups) = (Clause.entryNames [] groups).eraseDups
    ∧ ∀ stage : Document → Stage, Segment.ofBody stage (Clause.finished groups) = []
        ↔ ∀ piece ∈ Text.split ',' args, piece = "" := by
  have hgroups := Clause.ne_nil_of_mem_of_readGroups h
  have hbody := Clause.body_eq_finished hgroups hplain
  refine ⟨?_, ?_, Clause.keys_finished hgroups hplain, ?_⟩
  · rw [Segment.readArguments, h, ← hbody]
    rfl
  · rw [Segment.readArguments, h, ← hbody]
    rfl
  · intro stage
    rw [Segment.ofBody_eq_nil_iff, Clause.finished_eq_nil_iff hgroups hplain,
      Clause.eq_nil_iff_of_readGroups h]

/-- Two choices with a key before and behind the second, whose last value counts. -/
theorem stages_of_groups_interleaved :
    Segment.readArguments (.standard none) "a=1|b=x,k=1,c=2|d=y,k=3" .matching
      = .ok (.fixed [.matching [
          ("$or", .array [.document [("a", .int32 1)], .document [("b", .string "x")]]),
          ("k", .int32 3),
          ("$and", .array [.document [("$or", .array [.document [("c", .int32 2)],
            .document [("d", .string "y")]])]])]] []) := by
  have hgroups : Clause.readGroups (CompileOptions.standard none).operators "a=1|b=x,k=1,c=2|d=y,k=3"
      = .ok [[⟨"a", .int32 1, none⟩, ⟨"b", .string "x", none⟩], [⟨"k", .int32 1, none⟩],
          [⟨"c", .int32 2, none⟩, ⟨"d", .string "y", none⟩], [⟨"k", .int32 3, none⟩]] := by
    decide +kernel
  obtain ⟨hmatching, -, -, -⟩ := stages_of_groups (.standard none) hgroups (by
    intro clause hclause
    simp only [List.mem_cons, List.cons.injEq, List.not_mem_nil, or_false, and_true, reduceCtorEq,
      and_false, false_or] at hclause
    rcases hclause with rfl | rfl
    · decide
    · decide)
  rw [hmatching]
  decide +kernel

end QueryPipeline
