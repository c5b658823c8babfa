import QueryPipeline.Proofs.Projection

/-!
# Matching and adding fields

A segment that matches and one that adds fields read their clauses alike, and make the same document of
them.  The one difference is that the fields that are added lift the paths that they refer to, so that a
query in which a match is turned into added fields runs from that segment on with more lifted paths, and
the projections behind it keep them.

* `Segment.read_matching`, `read_addFields` — both kinds of segments, by their groups;
* **`Gains`** — what a segment emits in either run, and **`GainsAll`** for segments in order;
* `gains_of_read` — one segment in two states, and **`gainsAll_of_read`** — any number of them;
* **`compile_added_instead`** — a segment alone, and a segment in a query.
-/

namespace QueryPipeline

open Reading OnePass

/-! ### Both kinds of segments -/

namespace Segment

variable {options : CompileOptions} {text args : String}

/-- A segment that matches is read by its groups, and lists no path. -/
theorem read_matching (h : splitCode text = ("m", args)) :
    Segment.read options text
      = (Clause.readGroups options.operators args).map fun groups =>
        .fixed (ofBody .matching (Clause.body groups)) [] := by
  have hkind : StageKind.ofCode? "m" = some .matching := by decide
  rw [Segment.read, h]
  simp only [hkind]
  rfl

/-- A segment that adds fields is read by its groups, and lists the paths that they refer to. -/
theorem read_addFields (h : splitCode text = ("a", args)) :
    Segment.read options text
      = (Clause.readGroups options.operators args).map fun groups =>
        .fixed (ofBody .addFields (Clause.body groups)) (Clause.paths groups) := by
  have hkind : StageKind.ofCode? "a" = some .addFields := by decide
  rw [Segment.read, h]
  simp only [hkind]
  rfl

end Segment

/-! ### Two runs -/

/-- What a segment emits behind some lifted paths, and behind these and the paths `new`.  A projection has
its own fields first in either case, with the same numbers, and behind them the lifted paths that it does
not name itself; of these it keeps all, and gains those of the new ones that it does not name.  Every other
segment emits the same stages. -/
structure Gains (new : List String) (text : String) (stages stages' : List Stage) : Prop where
  other : ∀ code args, Segment.splitCode text = (code, args) → code ≠ "p" → stages' = stages
  projection : ∀ args, Segment.splitCode text = ("p", args) → ∃ kept kept' : List String,
    stages = Segment.ofBody .project (FieldList.listed 1 0 (Text.items ',' args)
      ++ kept.map fun path => (path, .int32 1))
    ∧ stages' = Segment.ofBody .project (FieldList.listed 1 0 (Text.items ',' args)
      ++ kept'.map fun path => (path, .int32 1))
    ∧ kept.Nodup ∧ kept'.Nodup
    ∧ (∀ path ∈ kept', path ∉ (Text.items ',' args).map FieldList.fieldName)
    ∧ ∀ path, path ∈ kept' ↔ path ∈ kept
      ∨ (path ∈ new ∧ path ∉ (Text.items ',' args).map FieldList.fieldName)

/-- Segments one after the other gain the new paths. -/
inductive GainsAll (new : List String) : List String → List (List Stage) → List (List Stage) → Prop
  | nil : GainsAll new [] [] []
  | cons {text : String} {texts : List String} {stages stages' : List Stage}
    {rest rest' : List (List Stage)} (hfirst : Gains new text stages stages')
    (hrest : GainsAll new texts rest rest') :
    GainsAll new (text :: texts) (stages :: rest) (stages' :: rest')

section

variable {options : CompileOptions} {new : List String} {kept kept' : OrderedSet String}

/-- **One segment in two states.** -/
theorem gains_of_read {text : String} {segment : Segment}
    (h : Segment.read options text = .ok segment)
    (hkept : ∀ path, path ∈ kept'.toList ↔ path ∈ kept.toList ∨ path ∈ new) :
    Gains new text (segment.stages kept) (segment.stages kept') := by
  constructor
  · intro code args hcode hp
    obtain ⟨stages, paths, rfl⟩ := Segment.exists_fixed_of_read h (by rw [hcode]; exact hp)
    rfl
  · intro args hcode
    obtain ⟨fields, hfields, rfl⟩ := Segment.exists_projection_of_read h (by rw [hcode])
    rw [hcode] at hfields
    refine ⟨kept.toList.filter fun path => path ∉ (Text.items ',' args).map FieldList.fieldName,
      kept'.toList.filter fun path => path ∉ (Text.items ',' args).map FieldList.fieldName,
      ?_, ?_, kept.nodup.filter _, kept'.nodup.filter _, fun path hpath => ?_, fun path => ?_⟩
    · rw [Segment.stages, FieldList.toDocument_eq_listed 1 0 hfields, FieldList.keep_listed_eq]
    · rw [Segment.stages, FieldList.toDocument_eq_listed 1 0 hfields, FieldList.keep_listed_eq]
    · exact of_decide_eq_true (List.mem_filter.mp hpath).2
    · rw [List.mem_filter, List.mem_filter, hkept, or_and_right, decide_eq_true_eq]

/-- **Any number of segments in two states.**  What one state has besides the other it still has behind each
segment, because both segments lift the same paths. -/
theorem gainsAll_of_read {texts : List String} {segments : List Segment}
    (h : texts.mapM (Segment.read options) = .ok segments)
    (hkept : ∀ path, path ∈ kept'.toList ↔ path ∈ kept.toList ∨ path ∈ new) :
    GainsAll new texts (outputs kept segments) (outputs kept' segments) := by
  induction texts generalizing segments kept kept' with
  | nil =>
    cases h
    exact GainsAll.nil
  | cons text texts ih =>
    obtain ⟨segment, rest, hfirst, hrest, rfl⟩ := mapM_cons_eq_ok_iff.mp h
    rw [outputs_cons, outputs_cons]
    -- the difference between the states outlives the paths that this segment lifts in both
    refine GainsAll.cons (gains_of_read hfirst hkept) (ih hrest fun path => ?_)
    rw [OrderedSet.mem_toList_union, OrderedSet.mem_toList_union, hkept, or_right_comm]

end

/-! ### Queries -/

/-- The segments of a query around one of them, read up to the first fault. -/
theorem readSegments_eq_of_items (options : CompileOptions) {query text : String}
    {before after : List String} (h : Text.items '&' query = before ++ text :: after) :
    readSegments options query
      = match before.mapM (Segment.read options) with
        | .error e => .error e
        | .ok front =>
          match Segment.read options text with
          | .error e => .error e
          | .ok segment =>
            (after.mapM (Segment.read options)).map fun back => front ++ segment :: back := by
  rw [readSegments, h, mapM_append_eq]
  cases before.mapM (Segment.read options) with
  | error e => rfl
  | ok front =>
    simp only [mapM_cons_eq]
    cases Segment.read options text with
    | error e => rfl
    | ok segment => exact map_map _ _ _

/-- **A match that is turned into added fields**, somewhere in a query. -/
theorem emissions_added_instead (options : CompileOptions) {query query' text text' args : String}
    {before after : List String} (hitems : Text.items '&' query = before ++ text :: after)
    (hitems' : Text.items '&' query' = before ++ text' :: after)
    (hcode : Segment.splitCode text = ("m", args)) (hcode' : Segment.splitCode text' = ("a", args)) :
    (∃ e, emissions options query = .error e ∧ emissions options query' = .error e)
      ∨ ∃ front body back back',
        emissions options query = .ok (front ++ Segment.ofBody .matching body :: back)
        ∧ emissions options query' = .ok (front ++ Segment.ofBody .addFields body :: back')
        ∧ front.length = before.length
        ∧ GainsAll (Query.liftedPaths ("a", args)) after back back' := by
  rw [emissions_eq, emissions_eq, readSegments_eq_of_items options hitems,
    readSegments_eq_of_items options hitems', Segment.read_matching hcode, Segment.read_addFields hcode']
  cases hfront : before.mapM (Segment.read options) with
  | error e => exact Or.inl ⟨e, rfl, rfl⟩
  | ok front =>
    cases hgroups : Clause.readGroups options.operators args with
    | error e => exact Or.inl ⟨e, rfl, rfl⟩
    | ok groups =>
      cases hback : after.mapM (Segment.read options) with
      | error e => exact Or.inl ⟨e, rfl, rfl⟩
      | ok back =>
        refine Or.inr ⟨outputs OrderedSet.empty front, Clause.body groups, _, _,
          congrArg Except.ok (outputs_append _ front _), congrArg Except.ok (outputs_append _ front _),
          ?_, ?_⟩
        · rw [length_outputs, length_of_mapM hfront]
        · have hpaths : Clause.paths groups = Query.liftedPaths ("a", args) := by
            rw [Query.liftedPaths, if_pos rfl, Clause.paths_of_readGroups hgroups]
          refine gainsAll_of_read hback fun path => ?_
          rw [← hpaths]
          exact OrderedSet.mem_toList_union

/-- **Matching and adding fields read their clauses alike.**  By themselves, both fail with the same fault,
or both emit no stage, or both emit a stage with the same document.  In a query, a match that is turned into
added fields leaves faults as they are, and otherwise only changes the kind of its stage and what the
projections behind it keep: each of them has its own fields as they were, keeps the other paths that it
kept, and gains the paths that the added fields refer to and that it neither kept nor names. -/
theorem compile_added_instead (options : CompileOptions) :
    (∀ args, '&' ∉ args.toList →
      (∃ e, compile options ("m_" ++ args) = .error e ∧ compile options ("a_" ++ args) = .error e)
      ∨ ∃ body,
        compile options ("m_" ++ args)
            = .ok (Segment.ofBody .matching body ++ [Stage.dropIdentity])
        ∧ compile options ("a_" ++ args)
            = .ok (Segment.ofBody .addFields body ++ [Stage.dropIdentity]))
    ∧ ∀ (query query' text text' args : String) (before after : List String),
        Text.items '&' query = before ++ text :: after →
        Text.items '&' query' = before ++ text' :: after →
        Segment.splitCode text = ("m", args) → Segment.splitCode text' = ("a", args) →
        (∃ e, compile options query = .error e ∧ compile options query' = .error e)
        ∨ ∃ front body back back',
          compile options query = .ok
              ((front ++ Segment.ofBody .matching body :: back).flatten ++ [Stage.dropIdentity])
          ∧ compile options query' = .ok
              ((front ++ Segment.ofBody .addFields body :: back').flatten ++ [Stage.dropIdentity])
          ∧ emissions options query = .ok (front ++ Segment.ofBody .matching body :: back)
          ∧ emissions options query' = .ok (front ++ Segment.ofBody .addFields body :: back')
          ∧ front.length = before.length
          ∧ GainsAll (Query.liftedPaths ("a", args)) after back back' := by
  have hcompile : ∀ {query text : String} {before after : List String},
      Text.items '&' query = before ++ text :: after → compile options query
        = (emissions options query).map fun stages => stages.flatten ++ [Stage.dropIdentity] :=
    fun hitems => compile_eq_emissions options (ne_empty_of_items hitems)
  constructor
  · intro args hargs
    have hplain : ∀ code : String, '&' ∉ code.toList → '&' ∉ (code ++ args).toList := by
      intro code hcode hmem
      rw [String.toList_append] at hmem
      exact (List.mem_append.mp hmem).elim hcode hargs
    have hitems : Text.items '&' ("m_" ++ args) = [] ++ ("m_" ++ args) :: [] :=
      Text.items_of_not_mem (hplain "m_" (by decide)) (by simp)
    have hitems' : Text.items '&' ("a_" ++ args) = [] ++ ("a_" ++ args) :: [] :=
      Text.items_of_not_mem (hplain "a_" (by decide)) (by simp)
    have hcode : Segment.splitCode ("m_" ++ args) = ("m", args) :=
      Segment.splitCode_eq_iff.mpr ⟨by decide, Or.inl rfl⟩
    have hcode' : Segment.splitCode ("a_" ++ args) = ("a", args) :=
      Segment.splitCode_eq_iff.mpr ⟨by decide, Or.inl rfl⟩
    rw [hcompile hitems, hcompile hitems']
    obtain ⟨e, h, h'⟩ | ⟨front, body, back, back', h, h', hlength, hgains⟩ :=
      emissions_added_instead options hitems hitems' hcode hcode'
    · rw [h, h']
      exact Or.inl ⟨e, rfl, rfl⟩
    · have hfront : front = [] := List.length_eq_zero_iff.mp hlength
      cases hgains
      rw [h, h', hfront]
      refine Or.inr ⟨body, ?_, ?_⟩
      · simp [Except.map]
      · simp [Except.map]
  · intro query query' text text' args before after hitems hitems' hcode hcode'
    rw [hcompile hitems, hcompile hitems']
    obtain ⟨e, h, h'⟩ | ⟨front, body, back, back', h, h', hlength, hgains⟩ :=
      emissions_added_instead options hitems hitems' hcode hcode'
    · rw [h, h']
      exact Or.inl ⟨e, rfl, rfl⟩
    · rw [h, h']
      exact Or.inr ⟨front, body, back, back', rfl, rfl, rfl, rfl, hlength, hgains⟩

/-- A match that refers to a path, in front of a projection that kept nothing and one whose paths change
their places. -/
theorem compile_added_instead_before_projections :
    (∃ body, compile (.standard none) "m_x=v.w|y=in$1;2"
          = .ok (Segment.ofBody .matching body ++ [Stage.dropIdentity])
        ∧ compile (.standard none) "a_x=v.w|y=in$1;2"
          = .ok (Segment.ofBody .addFields body ++ [Stage.dropIdentity]))
      ∧ GainsAll (Query.liftedPaths ("a", "x=v.w")) ["p_", "a_t=u.z,s=v.w", "p_"]
        [[], [.addFields [("t", .string "$u.z"), ("s", .string "$v.w")]],
          [.project [("u.z", .int32 1), ("v.w", .int32 1)]]]
        [[.project [("v.w", .int32 1)]], [.addFields [("t", .string "$u.z"), ("s", .string "$v.w")]],
          [.project [("v.w", .int32 1), ("u.z", .int32 1)]]] := by
  obtain ⟨halone, hquery⟩ := compile_added_instead (.standard none)
  constructor
  · obtain ⟨e, he, -⟩ | hbody := halone "x=v.w|y=in$1;2" (by decide)
    · have hok : compile (.standard none) "m_x=v.w|y=in$1;2"
          = .ok [.matching [("$or", .array [.document [("x", .string "$v.w")],
            .document [("y", .document [("$in", .array [.int32 1, .int32 2])])]])], .dropIdentity] := by
        decide +kernel
      cases hok.symm.trans he
    · exact hbody
  · have hmatch : emissions (.standard none) "m_x=v.w&p_&a_t=u.z,s=v.w&p_"
        = .ok [[.matching [("x", .string "$v.w")]], [],
          [.addFields [("t", .string "$u.z"), ("s", .string "$v.w")]],
          [.project [("u.z", .int32 1), ("v.w", .int32 1)]]] := by
      decide +kernel
    have hadd : emissions (.standard none) "a_x=v.w&p_&a_t=u.z,s=v.w&p_"
        = .ok [[.addFields [("x", .string "$v.w")]], [.project [("v.w", .int32 1)]],
          [.addFields [("t", .string "$u.z"), ("s", .string "$v.w")]],
          [.project [("v.w", .int32 1), ("u.z", .int32 1)]]] := by
      decide +kernel
    obtain ⟨e, he, -⟩ | ⟨front, body, back, back', -, -, h, h', hlength, hgains⟩ :=
      hquery "m_x=v.w&p_&a_t=u.z,s=v.w&p_" "a_x=v.w&p_&a_t=u.z,s=v.w&p_" "m_x=v.w" "a_x=v.w" "x=v.w" []
        ["p_", "a_t=u.z,s=v.w", "p_"] (by decide +kernel) (by decide +kernel) (by decide +kernel)
        (by decide +kernel)
    · rw [compile_eq_emissions _ (by decide), hmatch] at he
      cases he
    · have hfront : front = [] := List.length_eq_zero_iff.mp hlength
      rw [hfront, List.nil_append, hmatch] at h
      rw [hfront, List.nil_append, hadd] at h'
      obtain ⟨-, rfl⟩ := List.cons.inj (Except.ok.inj h)
      obtain ⟨-, rfl⟩ := List.cons.inj (Except.ok.inj h')
      exact hgains

end QueryPipeline
