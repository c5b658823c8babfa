import QueryPipeline.Proofs.Acceptance
import QueryPipeline.Proofs.Lifting

/-!
# The operators that a query uses

A registry is looked at only where a clause applies an operator, and only for its name.  Two registries
that hold the same operators under the names that a query applies compile it alike, with one proviso:
where the one registry lacks an operator that is looked for, the other may hold it.

* **`Query.Applies`** — the names that the clauses of a query apply;
* `Registry.Shares` — the operators of one registry that another one holds too;
* **`AgreesWith`** — two readings with the same outcome, unless the first one lacks an operator;
* `agreesWith_readValue`, …, **`agreesWith_read`** — the readers of values, clauses and segments;
* **`compile_of_shares`** — whole queries.
-/

namespace QueryPipeline

open Reading

/-! ### Names that are applied -/

/-- A clause in the arguments of a segment applies an operator of this name. -/
def Query.AppliesIn (args name : String) : Prop :=
  ∃ group ∈ Text.items ',' args, ∃ text ∈ Text.split '|' group, ∃ key value argument,
    Grammar.IsClause text key value ∧ Clause.IsApplication value name argument

/-- A clause of a segment that matches or adds fields applies an operator of this name.  What stands in
front of a dollar sign between quotes is no such name, and a reference has none. -/
def Query.Applies (query name : String) : Prop :=
  ∃ code args, (code = "m" ∨ code = "a") ∧ (code, args) ∈ Query.segments query
    ∧ Query.AppliesIn args name

/-- An operator that is applied stands in front of the first dollar sign of a clause value. -/
theorem Query.exists_value_of_appliesIn {args name : String} (h : AppliesIn args name) :
    ∃ value ∈ clauseValues args, (Clause.application? value).map Prod.fst = some name := by
  obtain ⟨group, hgroup, text, htext, key, value, argument, hclause, happ⟩ := h
  refine ⟨value, ?_, ?_⟩
  · refine List.mem_flatMap.mpr ⟨group, hgroup, List.mem_flatMap.mpr ⟨text, htext, ?_⟩⟩
    rw [clauseValue, Text.cut_of_split (Acceptance.isClause_iff.mp hclause).1]
    exact List.mem_singleton.mpr rfl
  · rw [Clause.application?_eq_some_iff.mpr happ]
    rfl

/-- The operators that one registry holds under some names are held by another one, with the same
results. -/
def Registry.Shares (used : String → Prop) (r r' : Registry) : Prop :=
  ∀ name operator, used name → r.find? name = some operator →
    ∃ operator', r'.find? name = some operator'
      ∧ ∀ argument key, operator' argument key = operator argument key

theorem Registry.Shares.mono {used used' : String → Prop} {r r' : Registry} (h : r.Shares used r')
    (hsub : ∀ name, used' name → used name) : r.Shares used' r' :=
  fun name operator hused => h name operator (hsub name hused)

/-! ### Two readings -/

/-- The second outcome is the first one, unless the first one lacks an operator. -/
def AgreesWith {α : Type} (outcome outcome' : Except QueryError α) : Prop :=
  (∀ name, outcome ≠ .error (.unknownOperator name)) → outcome' = outcome

namespace AgreesWith

variable {α β : Type}

theorem refl (outcome : Except QueryError α) : AgreesWith outcome outcome :=
  fun _ => rfl

theorem map {outcome outcome' : Except QueryError α} (h : AgreesWith outcome outcome') (f : α → β) :
    AgreesWith (outcome.map f) (outcome'.map f) := by
  intro hknown
  rw [h fun name he => hknown name (by rw [he]; rfl)]

/-- **Lists.**  The first fault ends both readings, so that nothing behind it has to agree. -/
theorem mapM {read read' : α → Except QueryError β} {as : List α}
    (h : ∀ a ∈ as, AgreesWith (read a) (read' a)) : AgreesWith (as.mapM read) (as.mapM read') := by
  induction as with
  | nil => exact refl _
  | cons a as ih =>
    obtain ⟨hfirst, hrest⟩ := List.forall_mem_cons.mp h
    intro hknown
    rw [mapM_cons_eq] at hknown
    have hread : read' a = read a := by
      refine hfirst fun name he => hknown name ?_
      rw [he]
    rw [mapM_cons_eq, mapM_cons_eq, hread]
    cases ha : read a with
    | error e => rfl
    | ok b =>
      rw [ha] at hknown
      exact (ih hrest).map (fun bs => b :: bs) hknown

end AgreesWith

/-! ### The readers -/

section

variable {r r' : Registry} {key value text args : String}

/-- **A value** consults the registry only for the operator that it applies. -/
theorem agreesWith_readValue
    (h : r.Shares (fun name => ∃ argument, Clause.IsApplication value name argument) r') :
    AgreesWith (Clause.readValue r key value) (Clause.readValue r' key value) := by
  rw [Clause.readValue, Clause.readValue]
  cases happ : Clause.application? value with
  | none => exact AgreesWith.refl _
  | some parts =>
    obtain ⟨name, argument⟩ := parts
    intro hknown
    cases hfind : r.find? name with
    | none =>
      refine absurd ?_ (hknown name)
      simp only [hfind]
    | some operator =>
      obtain ⟨operator', hfind', hsame⟩ := h name operator
        ⟨argument, Clause.application?_eq_some_iff.mp happ⟩ hfind
      simp only [hfind, hfind', hsame]

theorem agreesWith_readClause
    (h : r.Shares (fun name => ∃ key value argument, Grammar.IsClause text key value
      ∧ Clause.IsApplication value name argument) r') :
    AgreesWith (Clause.read r text) (Clause.read r' text) := by
  rw [Clause.read.eq_def, Clause.read.eq_def]
  split
  · rename_i key value hsplit
    by_cases hkey : key = ""
    · rw [if_pos hkey, if_pos hkey]
      exact AgreesWith.refl _
    · rw [if_neg hkey, if_neg hkey]
      refine AgreesWith.map (agreesWith_readValue (h.mono ?_)) _
      rintro name ⟨argument, happ⟩
      exact ⟨key, value, argument, Acceptance.isClause_iff.mpr ⟨hsplit, hkey⟩, happ⟩
  · exact AgreesWith.refl _

/-- The clauses of a segment, alternative by alternative. -/
theorem agreesWith_readGroups (h : r.Shares (Query.AppliesIn args) r') :
    AgreesWith (Clause.readGroups r args) (Clause.readGroups r' args) := by
  refine AgreesWith.mapM fun group hgroup => AgreesWith.mapM fun text htext => ?_
  refine agreesWith_readClause (h.mono ?_)
  intro name hclause
  exact ⟨group, hgroup, text, htext, hclause⟩

end

/-- **A segment** under another code than those of clauses does not look at the registry at all. -/
theorem agreesWith_read (collection : Option String) {r r' : Registry} {text : String}
    (h : r.Shares (fun name => ((Segment.splitCode text).1 = "m" ∨ (Segment.splitCode text).1 = "a")
      ∧ Query.AppliesIn (Segment.splitCode text).2 name) r') :
    AgreesWith (Segment.read ⟨collection, r⟩ text) (Segment.read ⟨collection, r'⟩ text) := by
  rw [Segment.read, Segment.read]
  cases hkind : StageKind.ofCode? (Segment.splitCode text).1 with
  | none => exact AgreesWith.refl _
  | some kind =>
    have hcode := StageKind.code_of_ofCode? hkind
    cases kind with
    | matching =>
      simp only [Segment.readArguments]
      exact (agreesWith_readGroups (h.mono fun name hname => ⟨Or.inl hcode.symm, hname⟩)).map _
    | addFields =>
      simp only [Segment.readArguments]
      exact (agreesWith_readGroups (h.mono fun name hname => ⟨Or.inr hcode.symm, hname⟩)).map _
    | _ => exact AgreesWith.refl _

/-! ### Queries -/

theorem agreesWith_compile (collection : Option String) {r r' : Registry} {query : String}
    (h : r.Shares (Query.Applies query) r') :
    AgreesWith (compile ⟨collection, r⟩ query) (compile ⟨collection, r'⟩ query) := by
  rw [compile, compile]
  by_cases hquery : query = ""
  · rw [if_pos hquery, if_pos hquery]
    exact AgreesWith.refl _
  · rw [if_neg hquery, if_neg hquery]
    refine AgreesWith.map (AgreesWith.mapM fun text htext => ?_) _
    refine agreesWith_read collection (h.mono ?_)
    rintro name ⟨hcode, happlies⟩
    exact ⟨_, _, hcode, List.mem_map.mpr ⟨text, htext, rfl⟩, happlies⟩

/-- Putting an operator under a name that is not applied, or that had none, takes nothing away. -/
theorem Registry.shares_register {used : String → Prop} {r : Registry} {name : String}
    (h : ¬ used name ∨ r.find? name = none) (operator : Operator) :
    r.Shares used (r.register name operator) := by
  intro query found hused hfind
  refine ⟨found, ?_, fun _ _ => rfl⟩
  rw [find?_register, if_neg, hfind]
  rintro rfl
  obtain hnot | hnone := h
  · exact hnot hused
  · rw [hnone] at hfind
    cases hfind

/-- **Only the operators that a query uses can influence it.**  Unless a query lacks an operator, it
compiles alike under every registry that holds, with the same results, those of its operators that the
query applies.  In particular it does so when an operator is put under a new name or under one that is
not applied, and under every registry that differs only in names that are not applied. -/
theorem compile_of_shares {collection : Option String} {r : Registry} {query : String}
    (h : ∀ name, compile ⟨collection, r⟩ query ≠ .error (.unknownOperator name)) :
    (∀ r', r.Shares (Query.Applies query) r' →
        compile ⟨collection, r'⟩ query = compile ⟨collection, r⟩ query)
      ∧ (∀ name operator, ¬ Query.Applies query name ∨ r.find? name = none →
        compile ⟨collection, r.register name operator⟩ query = compile ⟨collection, r⟩ query)
      ∧ (∀ r' : Registry, (∀ name, Query.Applies query name → r'.find? name = r.find? name) →
        compile ⟨collection, r'⟩ query = compile ⟨collection, r⟩ query) := by
  refine ⟨fun r' hshares => ?_, fun name operator hname => ?_, fun r' hsame => ?_⟩
  · exact agreesWith_compile collection hshares h
  · exact agreesWith_compile collection (Registry.shares_register hname operator) h
  · refine agreesWith_compile collection (fun name operator hused hfind => ?_) h
    exact ⟨operator, (hsame name hused).trans hfind, fun _ _ => rfl⟩

/-- Nothing is lost without `first`, which is named between quotes only, and `in` is all that is left. -/
theorem compile_of_shares_without_first :
    compile ⟨none, Registry.empty.register "in" Registry.oneOf⟩ "m_a=in$1;2|b='first$x',c=$up$y"
      = .ok [.matching [("$or", .array [.document [("a", .document [("$in", .array
            [.int32 1, .int32 2])])], .document [("b", .string "first$x")]]), ("c", .string "$up$y")],
          .dropIdentity] := by
  have hcompile : compile ⟨none, Registry.standard⟩ "m_a=in$1;2|b='first$x',c=$up$y"
      = .ok [.matching [("$or", .array [.document [("a", .document [("$in", .array
            [.int32 1, .int32 2])])], .document [("b", .string "first$x")]]), ("c", .string "$up$y")],
          .dropIdentity] := by decide +kernel
  have happlies : ∀ name, Query.Applies "m_a=in$1;2|b='first$x',c=$up$y" name → name = "in" := by
    have hsegments : Query.segments "m_a=in$1;2|b='first$x',c=$up$y"
        = [("m", "a=in$1;2|b='first$x',c=$up$y")] := by decide +kernel
    have hvalues : ∀ value ∈ Query.clauseValues "a=in$1;2|b='first$x',c=$up$y",
        (Clause.application? value).map Prod.fst ∈ [none, some "in"] := by decide +kernel
    rintro name ⟨code, args, -, hsegment, happlies⟩
    rw [hsegments, List.mem_singleton] at hsegment
    cases hsegment
    obtain ⟨value, hvalue, hname⟩ := Query.exists_value_of_appliesIn happlies
    have hmem := hvalues value hvalue
    rw [hname] at hmem
    simpa using hmem
  have hknown : ∀ name, compile ⟨none, Registry.standard⟩ "m_a=in$1;2|b='first$x',c=$up$y"
      ≠ .error (.unknownOperator name) := by
    intro name he
    rw [hcompile] at he
    cases he
  rw [← hcompile]
  refine (compile_of_shares hknown).2.2 _ fun name hname => ?_
  rw [happlies name hname]
  rfl

end QueryPipeline
