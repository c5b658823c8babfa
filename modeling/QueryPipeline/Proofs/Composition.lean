import QueryPipeline.Proofs.Lifting

/-!
# Queries made of queries

Two queries with an ampersand between them are one query.  It fails where its parts fail, the first
part first, and otherwise it runs the stages of the one and then the stages of the other; only the
projections of the second part can tell that it does not stand alone.

* **`compile_append`** — the composed query, its faults and its stages;
* `stagesOf_eq_of_fixed` — where there is no projection, nothing looks at the lifted paths;
* `error_readSegment_iff` — no state decides whether a segment can be read.
-/

namespace QueryPipeline

open Reading OnePass

/-! ### The parts of a composed query -/

theorem readSegments_append (options : CompileOptions) (q₁ q₂ : String) :
    readSegments options (q₁ ++ "&" ++ q₂)
      = match readSegments options q₁ with
        | .error e => .error e
        | .ok segments => (readSegments options q₂).map fun segments' => segments ++ segments' := by
  have hitems : Text.items '&' (q₁ ++ "&" ++ q₂) = Text.items '&' q₁ ++ Text.items '&' q₂ :=
    Text.items_append '&' q₁ q₂
  rw [readSegments, readSegments, readSegments, hitems, mapM_append_eq]
  cases (Text.items '&' q₁).mapM (Segment.read options) with
  | error e => rfl
  | ok segments => rfl

theorem compile_eq_map_assemble (options : CompileOptions) {query : String} (h : query ≠ "") :
    compile options query = (readSegments options query).map assemble := by
  rw [compile, if_neg h]

theorem append_amp_ne_empty (q₁ q₂ : String) : q₁ ++ "&" ++ q₂ ≠ "" := by
  intro h
  have hlist := congrArg String.toList h
  simp at hlist

/-- Without its last stage a pipeline is what its segments emit. -/
theorem dropLast_assemble (segments : List Segment) :
    (assemble segments).dropLast = Segment.stagesOf OrderedSet.empty segments := by
  rw [assemble, List.dropLast_concat]

theorem assemble_append (segments segments' : List Segment) :
    assemble (segments ++ segments')
      = Segment.stagesOf OrderedSet.empty segments
        ++ (Segment.stagesOf (OrderedSet.empty.union (segments.flatMap Segment.paths)) segments'
          ++ [Stage.dropIdentity]) := by
  rw [assemble, Segment.stagesOf_append, List.append_assoc]

/-! ### Where the lifted paths do not matter -/

/-- Where there is no projection, nothing looks at the lifted paths. -/
theorem stagesOf_eq_of_fixed {segments : List Segment}
    (h : ∀ segment ∈ segments, ∃ stages paths, segment = .fixed stages paths)
    (kept kept' : OrderedSet String) :
    Segment.stagesOf kept segments = Segment.stagesOf kept' segments := by
  induction segments generalizing kept kept' with
  | nil => rfl
  | cons segment segments ih =>
    obtain ⟨stages, paths, rfl⟩ := h segment List.mem_cons_self
    have hrest := ih (fun s hs => h s (List.mem_cons_of_mem _ hs))
      (kept.union paths) (kept'.union paths)
    rw [Segment.stagesOf, Segment.stagesOf]
    exact congrArg (stages ++ ·) hrest

/-- No segment that adds fields has a clause whose value is a dotted path. -/
def Query.LiftsNothing (query : String) : Prop :=
  ∀ args, ("a", args) ∈ segments query → ∀ value ∈ clauseValues args, ¬ IsPath value

/-- No segment is a projection. -/
def Query.HasNoProjection (query : String) : Prop :=
  ∀ args, ("p", args) ∉ segments query

theorem Query.liftedIn_eq_nil {query : String} (h : LiftsNothing query) :
    liftedIn (Text.items '&' query) = [] := by
  rw [liftedIn, ← List.flatMap_map, List.flatMap_eq_nil_iff]
  intro segment hmem
  obtain ⟨code, args⟩ := segment
  by_cases hcode : code = "a"
  · subst hcode
    rw [liftedPaths, if_pos rfl, List.filter_eq_nil_iff]
    intro value hvalue
    simpa using h args hmem value hvalue
  · rw [liftedPaths, if_neg hcode]

theorem forall_fixed_of_hasNoProjection {options : CompileOptions} {query : String}
    (h : Query.HasNoProjection query) {segments : List Segment}
    (hread : readSegments options query = .ok segments) :
    ∀ segment ∈ segments, ∃ stages paths, segment = .fixed stages paths := by
  refine forall_of_mapM ?_ hread
  intro text htext segment hsegment
  apply Segment.exists_fixed_of_read hsegment
  intro hcode
  apply h (Segment.splitCode text).2
  rw [← hcode]
  exact List.mem_map.mpr ⟨text, htext, rfl⟩

/-- **No state decides whether a segment can be read**, nor with which fault it fails. -/
theorem error_readSegment_iff (options : CompileOptions) (text : String) (e : QueryError)
    (kept : OrderedSet String) :
    (readSegment options text).run kept = .error e ↔ Segment.read options text = .error e := by
  rw [(runs_readSegment options).run_eq, map_eq_error_iff]

/-- What the segments of a query emit, the segments of a longer query emit first. -/
theorem emissions_prefix {options : CompileOptions} {q₁ q₂ : String} {stages₁ stages : List (List Stage)}
    (h₁ : emissions options q₁ = .ok stages₁)
    (h : emissions options (q₁ ++ "&" ++ q₂) = .ok stages) : stages₁ <+: stages := by
  rw [emissions_eq] at h₁ h
  obtain ⟨segments, hsegments, rfl⟩ := map_eq_ok_iff.mp h₁
  rw [readSegments_append, hsegments, map_eq_ok_iff] at h
  obtain ⟨all, hall, rfl⟩ := h
  obtain ⟨segments', -, rfl⟩ := map_eq_ok_iff.mp hall
  rw [outputs_append]
  exact List.prefix_append _ _

/-! ### The composed query -/

/-- **Two queries with an ampersand between them.**  The composed query fails with the fault of the
first part, or else with the fault of the second.  Otherwise it starts with the stages of the first
part, and they are followed by exactly the stages of the second if the first lifts no path or the second
has no projection.  The lifted paths never decide whether a segment fails or with which fault, and no
later segment changes what an earlier one emits. -/
theorem compile_append (options : CompileOptions) {q₁ q₂ : String} (h₁ : q₁ ≠ "") (h₂ : q₂ ≠ "") :
    (∀ e, compile options q₁ = .error e → compile options (q₁ ++ "&" ++ q₂) = .error e)
    ∧ (∀ p₁ e, compile options q₁ = .ok p₁ → compile options q₂ = .error e →
        compile options (q₁ ++ "&" ++ q₂) = .error e)
    ∧ (∀ p₁ p₂, compile options q₁ = .ok p₁ → compile options q₂ = .ok p₂ →
        ∃ p, compile options (q₁ ++ "&" ++ q₂) = .ok p ∧ p₁.dropLast <+: p
          ∧ (Query.LiftsNothing q₁ ∨ Query.HasNoProjection q₂ → p = p₁.dropLast ++ p₂))
    ∧ (∀ text e kept kept', (readSegment options text).run kept = .error e
        ↔ (readSegment options text).run kept' = .error e)
    ∧ (∀ stages₁ stages, emissions options q₁ = .ok stages₁ →
        emissions options (q₁ ++ "&" ++ q₂) = .ok stages → stages₁ <+: stages) := by
  rw [compile_eq_map_assemble options h₁, compile_eq_map_assemble options h₂,
    compile_eq_map_assemble options (append_amp_ne_empty q₁ q₂), readSegments_append]
  refine ⟨?_, ?_, ?_, ?_, ?_⟩
  · intro e he
    rw [map_eq_error_iff.mp he]
    rfl
  · intro p₁ e hp he
    obtain ⟨segments, hsegments, -⟩ := map_eq_ok_iff.mp hp
    rw [hsegments, map_eq_error_iff.mp he]
    rfl
  · intro p₁ p₂ hp₁ hp₂
    obtain ⟨segments, hsegments, rfl⟩ := map_eq_ok_iff.mp hp₁
    obtain ⟨segments', hsegments', rfl⟩ := map_eq_ok_iff.mp hp₂
    rw [hsegments, hsegments']
    refine ⟨assemble (segments ++ segments'), rfl, ?_, ?_⟩
    · rw [dropLast_assemble, assemble_append]
      exact List.prefix_append _ _
    · intro hindependent
      -- the second part runs behind the lifted paths of the first as it does behind none
      have hstages : Segment.stagesOf (OrderedSet.empty.union (segments.flatMap Segment.paths)) segments'
          = Segment.stagesOf OrderedSet.empty segments' := by
        rcases hindependent with hnothing | hprojection
        · rw [flatMap_paths_of_mapM hsegments, Query.liftedIn_eq_nil hnothing, OrderedSet.union_nil]
        · exact stagesOf_eq_of_fixed (forall_fixed_of_hasNoProjection hprojection hsegments') _ _
      rw [dropLast_assemble, assemble_append, hstages, assemble]
  · intro text e kept kept'
    rw [error_readSegment_iff, error_readSegment_iff]
  · intro stages₁ stages
    exact emissions_prefix

/-- A query that lifts a path, followed by one without a projection. -/
theorem compile_append_lift_limit :
    Query.HasNoProjection "m_k=1&l_2"
    ∧ ∃ p, compile (.standard none) ("a_total=order.sum" ++ "&" ++ "m_k=1&l_2") = .ok p
      ∧ p = [.addFields [("total", .string "$order.sum")], .matching [("k", .int32 1)], .limit 2,
          .dropIdentity] := by
  have hlift : compile (.standard none) "a_total=order.sum"
      = .ok [.addFields [("total", .string "$order.sum")], .dropIdentity] := by decide +kernel
  have hlimit : compile (.standard none) "m_k=1&l_2"
      = .ok [.matching [("k", .int32 1)], .limit 2, .dropIdentity] := by decide +kernel
  have hprojection : Query.HasNoProjection "m_k=1&l_2" := by
    have hsegments : Query.segments "m_k=1&l_2" = [("m", "k=1"), ("l", "2")] := by decide +kernel
    intro args hargs
    rw [hsegments] at hargs
    simp at hargs
  have h₁ : "a_total=order.sum" ≠ "" := by decide
  have h₂ : "m_k=1&l_2" ≠ "" := by decide
  obtain ⟨-, -, hcompose, -, -⟩ := compile_append (.standard none) h₁ h₂
  obtain ⟨p, hp, -, heq⟩ := hcompose _ _ hlift hlimit
  exact ⟨hprojection, p, hp, heq (Or.inr hprojection)⟩

end QueryPipeline
