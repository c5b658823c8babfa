import Mathlib.Data.List.Basic
import QueryPipeline.Proofs.Reading

/-!
# Compiling in one pass

`compile` reads every segment by itself and decides afterwards which paths a projection keeps.  This
module holds the compiler that goes over the query once: the paths that were lifted so far are a state,
a clause that adds a field lifts its path as soon as it is read, and a projection looks the state up.

## The two compilers

* `OnePass.emissions` — the stages that each segment of a query emits;
* **`Runs`** — a step of the pass gives what a reading without a state gives, and leaves behind the
  paths that the reading lists;
* **`compile_eq_emissions`** — both compilers give the same pipeline or the same fault.

With the state spelled out it can be asked what the state decides: `emissions` is a run from the empty
state, and `readSegment` can be run from any other one.
-/

namespace QueryPipeline.OnePass

open Reading

/-- A computation on a query: it can fail, and it knows the paths that were lifted before. -/
abbrev Pass := StateT (OrderedSet String) (Except QueryError)

/-- Lifts a path, unless it was lifted before. -/
def lift (path : String) : Pass Unit :=
  modify fun kept => (kept.insert path).2

/-- Reads a clause; a clause that adds a field lifts the path that it refers to. -/
def readClause (kind : StageKind) (operators : Registry) (text : String) : Pass Clause := do
  let clause ← StateT.lift (Clause.read operators text)
  match kind, clause.path with
  | .addFields, some path => lift path
  | _, _ => pure ()
  return clause

/-- The groups of a segment, clause by clause. -/
def readGroups (kind : StageKind) (operators : Registry) (text : String) :
    Pass (List (List Clause)) :=
  (Text.items ',' text).mapM fun group => (Text.split '|' group).mapM (readClause kind operators)

/-- Reads a segment and gives the stages that it emits. -/
def readSegment (options : CompileOptions) (text : String) : Pass (List Stage) :=
  match StageKind.ofCode? (Segment.splitCode text).1 with
  | none => throw (.unknownStage (Segment.splitCode text).1)
  | some .matching => do
    let groups ← readGroups .matching options.operators (Segment.splitCode text).2
    return Segment.ofBody .matching (Clause.body groups)
  | some .addFields => do
    let groups ← readGroups .addFields options.operators (Segment.splitCode text).2
    return Segment.ofBody .addFields (Clause.body groups)
  | some kind => do
    let segment ← StateT.lift (Segment.readArguments options (Segment.splitCode text).2 kind)
    return segment.stages (← get)

/-- The stages that each segment of a query emits, in order. -/
def emissions (options : CompileOptions) (query : String) : Except QueryError (List (List Stage)) :=
  ((Text.items '&' query).mapM (readSegment options)).run' OrderedSet.empty

/-! ### Runs -/

/-- From every state, `pass` gives what `read` gives, turned into the output for that state, and adds
the paths that `lifted` finds in it to the state. -/
structure Runs {α β γ : Type} (pass : α → Pass γ) (read : α → Except QueryError β)
    (out : OrderedSet String → β → γ) (lifted : β → List String) : Prop where
  run_eq : ∀ a kept, (pass a).run kept
    = (read a).map fun b => (out kept b, kept.union (lifted b))

section

variable {α β γ : Type}

/-- The outputs of a list, each for the paths that were lifted before it. -/
def emit (out : OrderedSet String → β → γ) (lifted : β → List String) :
    OrderedSet String → List β → List γ
  | _, [] => []
  | kept, b :: bs => out kept b :: emit out lifted (kept.union (lifted b)) bs

theorem emit_const (lifted : β → List String) (kept : OrderedSet String) (bs : List β) :
    emit (fun _ b => b) lifted kept bs = bs := by
  induction bs generalizing kept with
  | nil => rfl
  | cons b bs ih => rw [emit, ih]

theorem emit_append (out : OrderedSet String → β → γ) (lifted : β → List String)
    (kept : OrderedSet String) (bs bs' : List β) :
    emit out lifted kept (bs ++ bs')
      = emit out lifted kept bs ++ emit out lifted (kept.union (bs.flatMap lifted)) bs' := by
  induction bs generalizing kept with
  | nil => rfl
  | cons b bs ih =>
    rw [List.cons_append, emit, ih, emit, List.flatMap_cons, OrderedSet.union_append]
    rfl

theorem length_emit (out : OrderedSet String → β → γ) (lifted : β → List String)
    (kept : OrderedSet String) (bs : List β) : (emit out lifted kept bs).length = bs.length := by
  induction bs generalizing kept with
  | nil => rfl
  | cons b bs ih => rw [emit, List.length_cons, List.length_cons, ih]

variable {pass : α → Pass γ} {read : α → Except QueryError β}
  {out : OrderedSet String → β → γ} {lifted : β → List String}

/-- **A list is run like its elements**, each from the state that the ones before it leave behind. -/
theorem Runs.mapM (h : Runs pass read out lifted) :
    Runs (fun as : List α => as.mapM pass) (fun as => as.mapM read) (emit out lifted)
      (fun bs => bs.flatMap lifted) := by
  constructor
  intro as
  induction as with
  | nil =>
    intro kept
    rfl
  | cons a as ih =>
    intro kept
    rw [List.mapM_cons, StateT.run_bind, h.run_eq a kept, mapM_cons_eq]
    cases read a with
    | error e => rfl
    | ok b =>
      show ((as.mapM pass >>= fun cs => pure (out kept b :: cs)).run (kept.union (lifted b))) = _
      rw [StateT.run_bind, ih (kept.union (lifted b)), map_map]
      cases as.mapM read with
      | error e => rfl
      | ok bs =>
        show Except.ok (emit out lifted kept (b :: bs),
            (kept.union (lifted b)).union (bs.flatMap lifted)) = Except.ok _
        rw [← OrderedSet.union_append, ← List.flatMap_cons]

/-- Where the output does not depend on the state, neither does that of a list. -/
theorem Runs.mapM_const {pass : α → Pass β} (h : Runs pass read (fun _ b => b) lifted) :
    Runs (fun as : List α => as.mapM pass) (fun as => as.mapM read) (fun _ bs => bs)
      (fun bs => bs.flatMap lifted) := by
  have hout : emit (fun _ b => b) lifted = fun _ bs => bs := by
    funext kept bs
    exact emit_const lifted kept bs
  exact hout ▸ h.mapM

theorem Runs.comp (h : Runs pass read out lifted) {δ : Type} (f : δ → α) :
    Runs (fun d => pass (f d)) (fun d => read (f d)) out lifted :=
  ⟨fun d kept => h.run_eq (f d) kept⟩

/-- A run behind which nothing looks at the state any more. -/
theorem Runs.map (h : Runs pass read out lifted) {δ η : Type} (f : γ → δ) (g : β → η)
    {out' : OrderedSet String → η → δ} {lifted' : η → List String}
    (hout : ∀ kept b, f (out kept b) = out' kept (g b)) (hlifted : ∀ b, lifted b = lifted' (g b)) :
    Runs (fun a => do return f (← pass a)) (fun a => (read a).map g) out' lifted' := by
  constructor
  intro a kept
  rw [StateT.run_bind, h.run_eq a kept, map_map]
  cases read a with
  | error e => rfl
  | ok b =>
    show Except.ok (f (out kept b), kept.union (lifted b)) = Except.ok _
    rw [hout, hlifted]

end

/-! ### Runs of the parts of a segment -/

/-- The paths that a group of clauses lifts in a segment of the given kind. -/
def liftedBy (kind : StageKind) (clause : Clause) : List String :=
  if kind = .addFields then clause.path.toList else []

theorem runs_readClause (kind : StageKind) (operators : Registry) :
    Runs (readClause kind operators) (Clause.read operators) (fun _ clause => clause)
      (liftedBy kind) := by
  constructor
  intro text kept
  rw [readClause, StateT.run_bind]
  cases Clause.read operators text with
  | error e => rfl
  | ok clause =>
    obtain ⟨key, value, path⟩ := clause
    cases path with
    | none => cases kind <;> rfl
    | some path => cases kind <;> rfl

theorem runs_readGroups (kind : StageKind) (operators : Registry) :
    Runs (readGroups kind operators) (Clause.readGroups operators) (fun _ groups => groups)
      (fun groups => groups.flatMap fun group => group.flatMap (liftedBy kind)) := by
  have hclauses := (runs_readClause kind operators).mapM_const
  have hgroup := hclauses.comp (Text.split '|')
  exact hgroup.mapM_const.comp (Text.items ',')

/-- A match lifts nothing. -/
theorem flatMap_liftedBy_matching (groups : List (List Clause)) :
    (groups.flatMap fun group => group.flatMap (liftedBy .matching)) = [] := by
  simp [liftedBy]

/-- Added fields lift the paths of their clauses, those of every alternative included. -/
theorem flatMap_liftedBy_addFields (groups : List (List Clause)) :
    (groups.flatMap fun group => group.flatMap (liftedBy .addFields)) = Clause.paths groups := by
  have hlifted : liftedBy .addFields = fun clause => clause.path.toList := rfl
  rw [hlifted, Clause.paths, List.filterMap_eq_flatMap_toList, List.flatten_eq_flatMap,
    List.flatMap_assoc]
  rfl

/-! ### Runs of segments -/

/-- Only a segment that adds fields lists paths. -/
theorem paths_of_readArguments {options : CompileOptions} {text : String} {kind : StageKind}
    {segment : Segment} (h : Segment.readArguments options text kind = .ok segment)
    (hkind : kind ≠ .addFields) : segment.paths = [] := by
  cases kind with
  | addFields => exact absurd rfl hkind
  | _ =>
    obtain ⟨a, -, rfl⟩ := map_eq_ok_iff.mp h
    rfl

theorem run_stages {r : Except QueryError Segment} (hpaths : ∀ segment, r = .ok segment → segment.paths = [])
    (kept : OrderedSet String) :
    (do let segment ← StateT.lift r
        return segment.stages (← get) : Pass (List Stage)).run kept
      = r.map fun segment => (segment.stages kept, kept.union segment.paths) := by
  rw [StateT.run_bind]
  cases r with
  | error e => rfl
  | ok segment =>
    have hkept : kept.union segment.paths = kept := by
      rw [hpaths segment rfl, OrderedSet.union_nil]
    show Except.ok (segment.stages kept, kept)
      = Except.ok (segment.stages kept, kept.union segment.paths)
    rw [hkept]

theorem runs_readSegment (options : CompileOptions) :
    Runs (readSegment options) (Segment.read options) (fun kept segment => segment.stages kept)
      Segment.paths := by
  constructor
  intro text kept
  unfold readSegment Segment.read
  cases StageKind.ofCode? (Segment.splitCode text).1 with
  | none => rfl
  | some kind =>
    cases kind with
    | matching =>
      refine ((runs_readGroups .matching options.operators).map _ _ ?_ ?_).run_eq _ kept
      · intro kept groups
        rfl
      · intro groups
        exact flatMap_liftedBy_matching groups
    | addFields =>
      refine ((runs_readGroups .addFields options.operators).map _ _ ?_ ?_).run_eq _ kept
      · intro kept groups
        rfl
      · intro groups
        exact flatMap_liftedBy_addFields groups
    | _ => exact run_stages (fun segment h => paths_of_readArguments h (by decide)) kept

/-! ### The compilers agree -/

/-- What segments emit, one after the other. -/
def outputs (kept : OrderedSet String) (segments : List Segment) : List (List Stage) :=
  emit (fun kept segment => segment.stages kept) Segment.paths kept segments

theorem outputs_append (kept : OrderedSet String) (segments segments' : List Segment) :
    outputs kept (segments ++ segments')
      = outputs kept segments ++ outputs (kept.union (segments.flatMap Segment.paths)) segments' :=
  emit_append _ _ kept segments segments'

theorem outputs_cons (kept : OrderedSet String) (segment : Segment) (segments : List Segment) :
    outputs kept (segment :: segments)
      = segment.stages kept :: outputs (kept.union segment.paths) segments := rfl

theorem length_outputs (kept : OrderedSet String) (segments : List Segment) :
    (outputs kept segments).length = segments.length :=
  length_emit _ _ kept segments

theorem flatten_outputs (kept : OrderedSet String) (segments : List Segment) :
    (outputs kept segments).flatten = Segment.stagesOf kept segments := by
  induction segments generalizing kept with
  | nil => rfl
  | cons segment segments ih => rw [outputs_cons, List.flatten_cons, ih, Segment.stagesOf]

theorem emissions_eq (options : CompileOptions) (query : String) :
    emissions options query = (readSegments options query).map (outputs OrderedSet.empty) := by
  rw [emissions, readSegments, StateT.run'_eq, (runs_readSegment options).mapM.run_eq]
  exact map_map _ _ _

/-- **The compilers agree.**  The pipeline of a query is what its segments emit in one pass, followed by
the projection that drops the identity field. -/
theorem compile_eq_emissions (options : CompileOptions) {query : String} (h : query ≠ "") :
    compile options query
      = (emissions options query).map fun stages => stages.flatten ++ [Stage.dropIdentity] := by
  rw [compile, if_neg h, emissions_eq, map_map]
  apply map_eq_map
  intro segments _
  rw [flatten_outputs, assemble]

end QueryPipeline.OnePass
