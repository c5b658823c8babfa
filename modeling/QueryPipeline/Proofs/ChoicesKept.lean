import Mathlib.Data.List.Induction
import QueryPipeline.Proofs.ClauseBody
import QueryPipeline.Proofs.Tokens

/-!
# Which choices a body keeps

The entries `$or` and `$and`, in which a body keeps its choices, are also keys that a clause may have.  A
choice is kept unless a later clause has the key of the entry that it was put into, and the last clause of
a key is kept unless its key is `$and` and a later choice is put there.

* `Clause.choiceEntry` — the entry that a choice is put into, behind the groups before it;
* `Clause.keptUnder`, `Clause.keptChoices` — the choices that no later clause replaces;
* `Clause.choicesIn` — the choices that a document holds;
* **`Clause.Keeps`** — the invariant of the loop over the groups, with a lemma for a single clause and one
  for a choice;
* **`kept_of_groups`** — the choices and the clauses that the body of a match or of added fields holds.
-/

namespace QueryPipeline

open Reading

theorem Document.contains_insert (d : Document) (key : String) (value : Value) (name : String) :
    contains (insert d key value) name = (contains d name || decide (name = key)) := by
  rw [contains, contains, keys_insert]
  by_cases hname : name = key
  · subst hname
    split
    · rename_i hmem
      simp [hmem]
    · simp
  · split
    · simp [hname]
    · simp [hname]

namespace Clause

/-! ### The choices that are kept -/

/-- Whether the groups put something into the entry `$or`: a choice, or a clause of this key. -/
def orTaken (groups : List (List Clause)) : Bool :=
  ! (choices groups).isEmpty || (singles groups).any fun clause => clause.key = "$or"

/-- The entry that a choice is put into, behind the groups before it. -/
def choiceEntry (before : List (List Clause)) : String :=
  if orTaken before then "$and" else "$or"

/-- The choices that are put into an entry, behind the groups `before`, and that no later clause of this
key replaces. -/
def keptUnder (name : String) (before : List (List Clause)) :
    List (List Clause) → List (List Clause)
  | [] => []
  | group :: rest =>
    if 2 ≤ group.length ∧ choiceEntry before = name ∧ ∀ clause ∈ singles rest, clause.key ≠ name then
      group :: keptUnder name (before ++ [group]) rest
    else keptUnder name (before ++ [group]) rest

/-- The choices that no later clause replaces. -/
def keptChoices (groups : List (List Clause)) : List (List Clause) :=
  keptUnder "$or" [] groups ++ keptUnder "$and" [] groups

/-- The choice that a document holds under `$or`, as a document of its own. -/
def orChoices (d : Document) : List Value :=
  match d.get? "$or" with
  | some (.array alternatives) => [.document [("$or", .array alternatives)]]
  | _ => []

/-- The documents that a document lists under `$and`. -/
def andChoices (d : Document) : List Value :=
  match d.get? "$and" with
  | some (.array documents) => documents
  | _ => []

/-- The choices that a document holds. -/
def choicesIn (d : Document) : List Value :=
  orChoices d ++ andChoices d

/-! ### One more group -/

theorem orTaken_append_single (groups : List (List Clause)) (clause : Clause) :
    orTaken (groups ++ [[clause]]) = (orTaken groups || decide (clause.key = "$or")) := by
  rw [orTaken, orTaken, choices_append_single, singles_append_single, List.any_append, List.any_cons,
    List.any_nil, Bool.or_false, Bool.or_assoc]

theorem orTaken_append_choice (groups : List (List Clause)) {group : List Clause}
    (h : 2 ≤ group.length) : orTaken (groups ++ [group]) = true := by
  rw [orTaken, choices_append_choice groups h]
  simp

/-- A clause replaces the choices in the entry of its key. -/
theorem keptUnder_append_single (name : String) (before groups : List (List Clause))
    (clause : Clause) :
    keptUnder name before (groups ++ [[clause]])
      = if clause.key = name then [] else keptUnder name before groups := by
  induction groups generalizing before with
  | nil => simp [keptUnder]
  | cons group rest ih =>
    have hlater : (∀ c ∈ singles (rest ++ [[clause]]), c.key ≠ name)
        ↔ (∀ c ∈ singles rest, c.key ≠ name) ∧ clause.key ≠ name := by
      rw [singles_append_single, List.forall_mem_append, List.forall_mem_singleton]
    simp only [List.cons_append, keptUnder, ih, hlater]
    by_cases hname : clause.key = name
    · rw [if_neg fun h => h.2.2.2 hname, if_pos hname, if_pos hname]
    · simp only [hname, if_false, ne_eq, not_false_eq_true, and_true]

/-- A choice joins those in the entry that it is put into. -/
theorem keptUnder_append_choice (name : String) (before groups : List (List Clause))
    {group : List Clause} (h : 2 ≤ group.length) :
    keptUnder name before (groups ++ [group])
      = keptUnder name before groups
        ++ if choiceEntry (before ++ groups) = name then [group] else [] := by
  induction groups generalizing before with
  | nil => simp [keptUnder, singles, h]
  | cons first rest ih =>
    rw [List.cons_append, keptUnder, ih, singles_append_choice rest h, keptUnder, List.append_assoc,
      List.singleton_append]
    split
    · rfl
    · rfl

theorem body_append_single (groups : List (List Clause)) (clause : Clause) :
    body (groups ++ [[clause]]) = Document.insert (body groups) clause.key clause.value :=
  body_append groups [[clause]]

/-- A choice opens `$or`, or is added to the documents under `$and`. -/
theorem insertChoice_eq (d : Document) (group : List Clause) :
    insertChoice d (group.map fun clause => .document clause.toDocument)
      = if d.contains "$or" then
          Document.insert d "$and" (.array (andChoices d ++ [choiceDocument group]))
        else Document.insert d "$or" (alternatives group) := by
  rw [insertChoice, andChoices]
  split
  · cases d.get? "$and" with
    | none => rfl
    | some value => cases value <;> rfl
  · rfl

theorem body_append_choice (groups : List (List Clause)) {group : List Clause}
    (h : 2 ≤ group.length) :
    body (groups ++ [group])
      = if (body groups).contains "$or" then
          Document.insert (body groups) "$and"
            (.array (andChoices (body groups) ++ [choiceDocument group]))
        else Document.insert (body groups) "$or" (alternatives group) := by
  rw [body_append, ← insertChoice_eq]
  match group, h with
  | _ :: _ :: _, _ => rfl

/-! ### The loop over the groups -/

/-- A group that is read: it is not empty, and no clause holds a list. -/
def IsPlain (group : List Clause) : Prop :=
  group ≠ [] ∧ ∀ clause ∈ group, ∀ items, clause.value ≠ .array items

/-- The body `d` holds the choices that the groups keep. -/
structure Keeps (d : Document) (groups : List (List Clause)) : Prop where
  contains_or : d.contains "$or" = orTaken groups
  orChoices_eq : orChoices d = (keptUnder "$or" [] groups).map choiceDocument
  andChoices_eq : andChoices d = (keptUnder "$and" [] groups).map choiceDocument

theorem keeps_nil : Keeps (body []) [] :=
  ⟨rfl, rfl, rfl⟩

/-- **A single clause** replaces the choices under its key, if there are any. -/
theorem Keeps.single {groups : List (List Clause)} (h : Keeps (body groups) groups) {clause : Clause}
    (hvalue : ∀ items, clause.value ≠ .array items) :
    Keeps (body (groups ++ [[clause]])) (groups ++ [[clause]]) := by
  obtain ⟨hor, horChoices, handChoices⟩ := h
  refine ⟨?_, ?_, ?_⟩
  · rw [body_append_single, Document.contains_insert, orTaken_append_single, hor]
    simp only [eq_comm]
  · rw [orChoices, body_append_single, Document.get?_insert, keptUnder_append_single]
    by_cases hkey : clause.key = "$or"
    · rw [if_pos hkey.symm, if_pos hkey]
      split
      · rename_i items hitems
        exact absurd (Option.some.inj hitems) (hvalue items)
      · rfl
    · rw [if_neg (Ne.symm hkey), if_neg hkey, ← horChoices, orChoices]
  · rw [andChoices, body_append_single, Document.get?_insert, keptUnder_append_single]
    by_cases hkey : clause.key = "$and"
    · rw [if_pos hkey.symm, if_pos hkey]
      split
      · rename_i items hitems
        exact absurd (Option.some.inj hitems) (hvalue items)
      · rfl
    · rw [if_neg (Ne.symm hkey), if_neg hkey, ← handChoices, andChoices]

/-- **A choice** is added to those that are kept. -/
theorem Keeps.choice {groups : List (List Clause)} (h : Keeps (body groups) groups)
    {group : List Clause} (hlength : 2 ≤ group.length) :
    Keeps (body (groups ++ [group])) (groups ++ [group]) := by
  obtain ⟨hor, horChoices, handChoices⟩ := h
  have hbody := body_append_choice groups hlength
  rw [hor] at hbody
  cases htaken : orTaken groups with
  | false =>
    have hentry : choiceEntry ([] ++ groups) = "$or" := by
      rw [List.nil_append, choiceEntry, htaken]
      rfl
    -- nothing stands under `$or` yet, so nothing is kept there
    have hnone : (keptUnder "$or" [] groups).map choiceDocument = [] := by
      rw [← horChoices, orChoices, Document.get?_eq_none_of_not_mem]
      rw [htaken, Document.contains, decide_eq_false_iff_not] at hor
      exact hor
    rw [htaken, if_neg (by decide)] at hbody
    refine ⟨?_, ?_, ?_⟩
    · rw [hbody, Document.contains_insert, orTaken_append_choice groups hlength]
      simp
    · rw [orChoices, hbody, Document.get?_insert, if_pos rfl,
        keptUnder_append_choice _ _ _ hlength, hentry, if_pos rfl, List.map_append, hnone]
      rfl
    · rw [andChoices, hbody, Document.get?_insert, if_neg (by decide),
        keptUnder_append_choice _ _ _ hlength, hentry, if_neg (by decide), List.append_nil,
        ← handChoices, andChoices]
  | true =>
    have hentry : choiceEntry ([] ++ groups) = "$and" := by
      rw [List.nil_append, choiceEntry, htaken]
      rfl
    rw [htaken, if_pos rfl] at hbody
    refine ⟨?_, ?_, ?_⟩
    · rw [hbody, Document.contains_insert, orTaken_append_choice groups hlength, hor, htaken]
      rfl
    · rw [orChoices, hbody, Document.get?_insert, if_neg (by decide),
        keptUnder_append_choice _ _ _ hlength, hentry, if_neg (by decide), List.append_nil,
        ← horChoices, orChoices]
    · rw [andChoices, hbody, Document.get?_insert, if_pos rfl,
        keptUnder_append_choice _ _ _ hlength, hentry, if_pos rfl, List.map_append, ← handChoices]
      rfl

theorem single_or_choice {group : List Clause} (h : group ≠ []) :
    (∃ clause, group = [clause]) ∨ 2 ≤ group.length := by
  match group, h with
  | [clause], _ => exact Or.inl ⟨clause, rfl⟩
  | _ :: _ :: _, _ => exact Or.inr (by simp)

/-- **All groups.**  A body keeps the choices that no later clause replaces. -/
theorem keeps_body {groups : List (List Clause)} (h : ∀ group ∈ groups, IsPlain group) :
    Keeps (body groups) groups := by
  induction groups using List.reverseRecOn with
  | nil => exact keeps_nil
  | append_singleton groups group ih =>
    obtain ⟨hgroups, hgroup⟩ := List.forall_mem_append.mp h
    obtain ⟨hne, hvalues⟩ := hgroup group (List.mem_singleton.mpr rfl)
    obtain ⟨clause, rfl⟩ | hlength := single_or_choice hne
    · exact (ih hgroups).single (hvalues clause (List.mem_singleton.mpr rfl))
    · exact (ih hgroups).choice hlength

/-! ### The clauses that are kept -/

/-- **The last clause of a key** is kept, unless its key is `$and` and a later choice is put there. -/
theorem get?_body_of_last {before after : List (List Clause)} {clause : Clause}
    (h : ∀ group ∈ before ++ [[clause]] ++ after, IsPlain group)
    (hlast : ∀ later ∈ singles after, later.key ≠ clause.key) :
    Document.get? (body (before ++ [[clause]] ++ after)) clause.key = some clause.value
      ↔ (clause.key = "$and" → keptUnder "$and" (before ++ [[clause]]) after = []) := by
  induction after using List.reverseRecOn with
  | nil =>
    rw [List.append_nil, body_append_single, Document.get?_insert, if_pos rfl]
    simp [keptUnder]
  | append_singleton after group ih =>
    rw [← List.append_assoc] at h ⊢
    obtain ⟨hbefore, hgroup⟩ := List.forall_mem_append.mp h
    obtain ⟨hne, -⟩ := hgroup group (List.mem_singleton.mpr rfl)
    obtain ⟨later, rfl⟩ | hlength := single_or_choice hne
    · rw [singles_append_single, List.forall_mem_append, List.forall_mem_singleton] at hlast
      rw [body_append_single, Document.get?_insert, if_neg (Ne.symm hlast.2), ih hbefore hlast.1,
        keptUnder_append_single]
      refine forall_congr' fun hkey => ?_
      rw [if_neg (hkey ▸ hlast.2)]
    · rw [singles_append_choice after hlength] at hlast
      have hkeeps := keeps_body hbefore
      have hvalue : ∀ items, clause.value ≠ .array items :=
        (hbefore [clause] (by simp)).2 clause (List.mem_singleton.mpr rfl)
      rw [body_append_choice _ hlength, hkeeps.contains_or, keptUnder_append_choice _ _ _ hlength,
        choiceEntry]
      cases htaken : orTaken (before ++ [[clause]] ++ after) with
      | true =>
        rw [if_pos rfl, if_pos rfl, if_pos rfl, Document.get?_insert]
        by_cases hkey : clause.key = "$and"
        · rw [if_pos hkey]
          simp [hkey, Ne.symm (hvalue _)]
        · rw [if_neg hkey, ih hbefore hlast]
          simp [hkey]
      | false =>
        have hkey : clause.key ≠ "$or" := by
          intro hkey
          simp [orTaken, singles, hkey] at htaken
        rw [if_neg (by decide), if_neg (by decide), List.append_nil, Document.get?_insert, if_neg hkey]
        exact ih hbefore hlast

/-! ### Where no clause takes an entry of the choices -/

/-- Every choice is kept if no clause has the key `$or` or `$and`. -/
theorem keptChoices_eq_choices {groups : List (List Clause)} (hgroups : ∀ group ∈ groups, group ≠ [])
    (h : ∀ clause ∈ singles groups, clause.key ≠ "$or" ∧ clause.key ≠ "$and") :
    keptChoices groups = choices groups := by
  -- the first choice is kept under `$or`, and the others under `$and`
  have hparts : orTaken groups = ! (choices groups).isEmpty
      ∧ keptUnder "$or" [] groups = (choices groups).take 1
      ∧ keptUnder "$and" [] groups = (choices groups).drop 1 := by
    induction groups using List.reverseRecOn with
    | nil => exact ⟨rfl, rfl, rfl⟩
    | append_singleton groups group ih =>
      obtain ⟨hbefore, hgroup⟩ := List.forall_mem_append.mp hgroups
      obtain ⟨clause, rfl⟩ | hlength := single_or_choice (hgroup group (List.mem_singleton.mpr rfl))
      · rw [singles_append_single, List.forall_mem_append, List.forall_mem_singleton] at h
        obtain ⟨htaken, hor, hand⟩ := ih hbefore h.1
        rw [orTaken_append_single, choices_append_single, keptUnder_append_single,
          keptUnder_append_single, if_neg h.2.1, if_neg h.2.2, htaken]
        exact ⟨by simp [h.2.1], hor, hand⟩
      · rw [singles_append_choice groups hlength] at h
        obtain ⟨htaken, hor, hand⟩ := ih hbefore h
        rw [orTaken_append_choice groups hlength, choices_append_choice groups hlength,
          keptUnder_append_choice _ _ _ hlength, keptUnder_append_choice _ _ _ hlength,
          List.nil_append, choiceEntry, htaken, hor, hand]
        cases choices groups with
        | nil => exact ⟨rfl, rfl, rfl⟩
        | cons first rest => exact ⟨rfl, by simp, by simp⟩
  obtain ⟨-, hor, hand⟩ := hparts
  rw [keptChoices, hor, hand, List.take_append_drop]

/-! ### Groups that are read -/

theorem not_array_of_coerce (token : String) (items : List Value) :
    Literal.coerce token ≠ .array items := by
  obtain ⟨v, hv⟩ := Literal.exists_denotes token
  rw [Literal.coerce_of_denotes hv]
  cases hv with
  | number htext => cases htext <;> simp
  | _ => simp

theorem not_array_of_read {operators : Registry} {text : String} {clause : Clause}
    (h : read operators text = .ok clause) (items : List Value) : clause.value ≠ .array items := by
  obtain ⟨key, value, v, -, -, hv, rfl⟩ := exists_of_read h
  obtain ⟨name, raw, rfl⟩ | ⟨path, rfl⟩ | rfl := readValue_cases hv
  · simp
  · simp
  · exact not_array_of_coerce value items

theorem isPlain_of_readGroups {operators : Registry} {args : String} {groups : List (List Clause)}
    (h : readGroups operators args = .ok groups) : ∀ group ∈ groups, IsPlain group := by
  refine forall_of_mapM (fun _ _ group hgroup => ⟨ne_nil_of_readGroup hgroup, ?_⟩) h
  exact forall_of_mapM (fun _ _ _ hclause => not_array_of_read hclause) hgroup

end Clause

/-! ### What a match or added fields keep -/

/-- **What the body of groups keeps.**  Whatever keys the clauses have, the body holds exactly the choices
that no later clause replaces, with all their alternatives in order; the last clause of a key is there
unless its key is `$and` and a later choice is kept there.  Nothing is lost where no clause has the key
`$or` or `$and`. -/
theorem kept_of_groups (options : CompileOptions) {args : String} {groups : List (List Clause)}
    (h : Clause.readGroups options.operators args = .ok groups) :
    Segment.readArguments options args .matching
        = .ok (.fixed (Segment.ofBody .matching (Clause.body groups)) [])
    ∧ Segment.readArguments options args .addFields
        = .ok (.fixed (Segment.ofBody .addFields (Clause.body groups)) (Clause.paths groups))
    ∧ Clause.choicesIn (Clause.body groups) = (Clause.keptChoices groups).map Clause.choiceDocument
    ∧ (∀ before clause after, groups = before ++ [[clause]] ++ after →
        (∀ later ∈ Clause.singles after, later.key ≠ clause.key) →
        (Document.get? (Clause.body groups) clause.key = some clause.value
          ↔ (clause.key = "$and" → Clause.keptUnder "$and" (before ++ [[clause]]) after = [])))
    ∧ ((∀ clause ∈ Clause.singles groups, clause.key ≠ "$or" ∧ clause.key ≠ "$and") →
        Clause.keptChoices groups = Clause.choices groups) := by
  have hplain := Clause.isPlain_of_readGroups h
  refine ⟨?_, ?_, ?_, ?_, ?_⟩
  · rw [Segment.readArguments, h]
    rfl
  · rw [Segment.readArguments, h]
    rfl
  · obtain ⟨-, hor, hand⟩ := Clause.keeps_body hplain
    rw [Clause.choicesIn, hor, hand, Clause.keptChoices, List.map_append]
  · rintro before clause after rfl hlast
    exact Clause.get?_body_of_last hplain hlast
  · exact Clause.keptChoices_eq_choices fun group hgroup => (hplain group hgroup).1

/-- The first choice is replaced by a later clause `$or`, and a clause `$and` by a later choice; the two
choices behind them are kept. -/
theorem kept_of_groups_with_entry_keys :
    ∃ groups, Clause.readGroups Registry.standard "a=1|b=2,$and=5,c=3|d=4,$or=6,e=7|f=8" = .ok groups
      ∧ Clause.choicesIn (Clause.body groups)
        = [.document [("$or", .array [.document [("c", .int32 3)], .document [("d", .int32 4)]])],
          .document [("$or", .array [.document [("e", .int32 7)], .document [("f", .int32 8)]])]]
      ∧ Document.get? (Clause.body groups) "$and" ≠ some (.int32 5)
      ∧ Document.get? (Clause.body groups) "$or" = some (.int32 6) := by
  have hread : ∃ groups, Clause.readGroups (CompileOptions.standard none).operators
        "a=1|b=2,$and=5,c=3|d=4,$or=6,e=7|f=8" = .ok groups
      ∧ groups = [[⟨"a", .int32 1, none⟩, ⟨"b", .int32 2, none⟩], [⟨"$and", .int32 5, none⟩],
        [⟨"c", .int32 3, none⟩, ⟨"d", .int32 4, none⟩], [⟨"$or", .int32 6, none⟩],
        [⟨"e", .int32 7, none⟩, ⟨"f", .int32 8, none⟩]] := ⟨_, by decide +kernel, rfl⟩
  obtain ⟨groups, hgroups, rfl⟩ := hread
  obtain ⟨-, -, hchoices, hclauses, -⟩ := kept_of_groups (.standard none) hgroups
  refine ⟨_, hgroups, ?_, ?_, ?_⟩
  · rw [hchoices]
    decide +kernel
  · have hand := hclauses [[⟨"a", .int32 1, none⟩, ⟨"b", .int32 2, none⟩]] ⟨"$and", .int32 5, none⟩
      [[⟨"c", .int32 3, none⟩, ⟨"d", .int32 4, none⟩], [⟨"$or", .int32 6, none⟩],
        [⟨"e", .int32 7, none⟩, ⟨"f", .int32 8, none⟩]] rfl (by decide +kernel)
    rw [ne_eq, hand]
    decide +kernel
  · exact (hclauses [[⟨"a", .int32 1, none⟩, ⟨"b", .int32 2, none⟩], [⟨"$and", .int32 5, none⟩],
      [⟨"c", .int32 3, none⟩, ⟨"d", .int32 4, none⟩]] ⟨"$or", .int32 6, none⟩
      [[⟨"e", .int32 7, none⟩, ⟨"f", .int32 8, none⟩]] rfl (by decide +kernel)).mpr (by decide +kernel)

/-- A clause with the key `$or` behind a choice: the choice is lost. -/
theorem choice_lost_before_or_clause :
    ∃ choice clause, Clause.readGroups Registry.standard "a=1|b=2,$or=5" = .ok [choice, [clause]]
      ∧ Clause.choices [choice, [clause]] = [choice]
      ∧ compile (.standard none) "m_a=1|b=2,$or=5"
        = .ok [.matching [("$or", .int32 5)], .dropIdentity]
      ∧ Clause.choicesIn [("$or", .int32 5)] = [] :=
  ⟨[⟨"a", .int32 1, none⟩, ⟨"b", .int32 2, none⟩], ⟨"$or", .int32 5, none⟩, by decide +kernel,
    by decide +kernel, by decide +kernel, by decide +kernel⟩

end QueryPipeline
