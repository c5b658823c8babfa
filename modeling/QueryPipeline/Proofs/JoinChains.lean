import QueryPipeline.Proofs.Acceptance
import QueryPipeline.Proofs.Projection

/-!
# Chains of joins

The stages of a segment of joins can be written down from its descriptors alone.  A descriptor reads its
key at the top or below the field that the descriptor in front of it attached, and nothing else of the
chain, or of the query, reaches it.

* `JoinSpec.pluralOf`, `singularOf`, `localOf` — the names of a descriptor, those that it leaves out
  included;
* `JoinSpec.stagesAt` — the stages of one descriptor below a path;
* **`JoinSpec.chain`** — the stages of each descriptor of a segment;
* **`map_stages_of_readChain`** — what is read has these stages, from any path on;
* **`joins_of_read`** — the joins that a segment emits, by itself and anywhere in a query.
-/

namespace QueryPipeline

open Reading OnePass

namespace JoinSpec

/-! ### The names of a descriptor -/

/-- A name without its last character. -/
def shortened (name : String) : String :=
  String.ofList name.toList.dropLast

/-- The other collection: the first name. -/
def pluralOf (descriptor : String) : String :=
  (Grammar.joinNames descriptor).headD ""

/-- What a document of the other collection is called: the second name, or else the shortened plural. -/
def singularOf (descriptor : String) : String :=
  (Grammar.joinNames descriptor)[1]?.getD (shortened (pluralOf descriptor))

/-- What a document at hand is called: the third name, or else the shortened name of the collection that
the query runs on. -/
def localOf (collection : Option String) (descriptor : String) : String :=
  (Grammar.joinNames descriptor)[2]?.getD (shortened (collection.getD ""))

/-- The field that a descriptor attaches. -/
def attachedBy (descriptor : String) : String :=
  if Grammar.joinsMany descriptor then pluralOf descriptor else singularOf descriptor

/-- The field that a descriptor reads, without the path in front of it. -/
def keyOf (descriptor : String) : String :=
  if Grammar.joinsMany descriptor then "id" else singularOf descriptor ++ "_id"

theorem eq_shortened_of_singularize {name singular : String} (h : singularize name = some singular) :
    singular = shortened name := by
  rw [singularize] at h
  split at h
  · cases h
  · cases h
    rfl

/-- A name that is given, or else found, is the one that is given, or else the one that is looked for. -/
theorem eq_getD_of_or {given found : Option String} {name other : String}
    (hfound : ∀ name, found = some name → name = other) (h : given.or found = some name) :
    name = given.getD other := by
  obtain rfl | ⟨rfl, hname⟩ := Option.or_eq_some_iff.mp h
  · rfl
  · exact hfound name hname

/-! ### The stages of a descriptor -/

/-- The stages of a descriptor below a path: one join of many documents, or a join of one document that
is put in place and loses its identity. -/
def stagesAt (collection : Option String) (path descriptor : String) : List Stage :=
  if Grammar.joinsMany descriptor then
    [.lookup ⟨pluralOf descriptor, path ++ "id", localOf collection descriptor ++ "_id",
      pluralOf descriptor⟩]
  else
    [.lookup ⟨pluralOf descriptor, path ++ singularOf descriptor ++ "_id", "id",
        singularOf descriptor⟩,
      .unwind (singularOf descriptor),
      .project [(singularOf descriptor ++ "._id", .int32 0)]]

theorem dropIdentityAt_eq (path : String) :
    Stage.dropIdentityAt path = .project [(path ++ "._id", .int32 0)] := by
  have hfield : path ++ "." ++ "_id" = path ++ "._id" := String.append_assoc
  rw [← hfield]
  rfl

/-- A descriptor starts with its join, which reads its key below the path. -/
theorem exists_join_stagesAt (collection : Option String) (path descriptor : String) :
    ∃ join, (stagesAt collection path descriptor).head? = some (.lookup join)
      ∧ join.target = attachedBy descriptor ∧ join.localField = path ++ keyOf descriptor := by
  rw [stagesAt, attachedBy, keyOf]
  cases Grammar.joinsMany descriptor with
  | true => exact ⟨_, rfl, rfl, rfl⟩
  | false => exact ⟨_, rfl, rfl, String.append_assoc⟩

theorem target_of_isMany {spec : JoinSpec} (h : spec.isMany = true) : spec.target = spec.plural := by
  rw [target.eq_def, h]
  cases spec.singular with
  | none => rfl
  | some singular => rfl

theorem target_of_singular {spec : JoinSpec} (h : spec.isMany = false) {singular : String}
    (hsingular : spec.singular = some singular) : spec.target = singular := by
  rw [target.eq_def, h, hsingular]

/-- **A descriptor that is read** has the stages of its names, and attaches the field that they say. -/
theorem stages_of_read {collection : Option String} {path descriptor : String} {spec : JoinSpec}
    (h : JoinSpec.read (collection.bind singularize) path descriptor = .ok spec) :
    spec.stages = stagesAt collection path descriptor ∧ spec.target = attachedBy descriptor := by
  rw [Acceptance.read_eq] at h
  split at h
  · cases h
  split at h
  · cases h
  split at h
  · cases h
  rename_i hsingular
  split at h
  · cases h
  rename_i hlocal
  cases h
  rw [stages, stagesAt, attachedBy]
  cases hmany : Grammar.joinsMany descriptor with
  | true =>
    rw [hmany, Bool.true_and, Bool.not_eq_true, Option.isNone_eq_false_iff,
      Option.isSome_iff_exists] at hlocal
    obtain ⟨name, hname⟩ := hlocal
    have hnamed : name = localOf collection descriptor := by
      refine eq_getD_of_or (fun found hfound => ?_) hname
      obtain ⟨known, rfl, hknown⟩ := Option.bind_eq_some_iff.mp hfound
      exact eq_shortened_of_singularize hknown
    rw [target_of_isMany rfl, if_pos rfl, if_pos rfl, if_pos rfl]
    simp only [hname, Option.getD_some, hnamed]
    exact ⟨rfl, rfl⟩
  | false =>
    rw [hmany, Bool.not_false, Bool.true_and, Bool.not_eq_true, Option.isNone_eq_false_iff,
      Option.isSome_iff_exists] at hsingular
    obtain ⟨name, hname⟩ := hsingular
    have hnamed : name = singularOf descriptor :=
      eq_getD_of_or (fun _ => eq_shortened_of_singularize) hname
    rw [target_of_singular rfl hname, hnamed, dropIdentityAt_eq]
    simp only [Bool.false_eq_true, if_false]
    exact ⟨rfl, trivial⟩

/-! ### Chains -/

/-- The paths below which descriptors read their keys: the top for the first, and for each of the others
the field that the one in front of it attached. -/
def pathsOf (descriptors : List String) : List String :=
  "" :: descriptors.map fun descriptor => attachedBy descriptor ++ "."

/-- The stages of each descriptor of a segment. -/
def chain (collection : Option String) (descriptors : List String) : List (List Stage) :=
  List.zipWith (stagesAt collection) (pathsOf descriptors) descriptors

/-- **A chain that is read** has the stages of its descriptors, the first of them below the path that the
chain starts from. -/
theorem map_stages_of_readChain {collection : Option String} {path : String}
    {descriptors : List String} {specs : List JoinSpec}
    (h : readChain (collection.bind singularize) path descriptors = .ok specs) :
    specs.map stages
      = List.zipWith (stagesAt collection)
          (path :: descriptors.map fun descriptor => attachedBy descriptor ++ ".") descriptors := by
  induction descriptors generalizing path specs with
  | nil =>
    cases h
    rfl
  | cons descriptor rest ih =>
    rw [readChain] at h
    split at h
    · cases h
    · rename_i spec hspec
      obtain ⟨others, hothers, rfl⟩ := map_eq_ok_iff.mp h
      obtain ⟨hstages, htarget⟩ := stages_of_read hspec
      rw [List.map_cons, hstages, ih hothers, htarget, List.map_cons, List.zipWith_cons_cons]

section

variable {collection : Option String} {descriptors : List String} {i : Nat} {descriptor next : String}

/-- Wherever it stands, a descriptor has its stages below some path. -/
theorem exists_getElem?_chain (collection : Option String) (h : descriptors[i]? = some descriptor) :
    ∃ path, (chain collection descriptors)[i]? = some (stagesAt collection path descriptor) := by
  have hlength : i < (pathsOf descriptors).length := by
    have hi := (List.getElem?_eq_some_iff.mp h).1
    rw [pathsOf, List.length_cons, List.length_map]
    omega
  refine ⟨(pathsOf descriptors)[i], ?_⟩
  rw [chain, List.getElem?_zipWith, h, List.getElem?_eq_getElem hlength]

/-- Behind another descriptor, the path is the field which that one attached. -/
theorem getElem?_chain_succ (h : descriptors[i]? = some descriptor)
    (hnext : descriptors[i + 1]? = some next) :
    (chain collection descriptors)[i + 1]?
      = some (stagesAt collection (attachedBy descriptor ++ ".") next) := by
  rw [chain, List.getElem?_zipWith, hnext, pathsOf, List.getElem?_cons_succ, List.getElem?_map, h]
  rfl

/-- **The key of every join but the first** lies directly below the field that the join in front of it
attached. -/
theorem exists_joins_chain (h : descriptors[i]? = some descriptor)
    (hnext : descriptors[i + 1]? = some next) :
    ∃ join join', (chain collection descriptors)[i]?.bind List.head? = some (.lookup join)
      ∧ (chain collection descriptors)[i + 1]?.bind List.head? = some (.lookup join')
      ∧ join'.localField = join.target ++ "." ++ keyOf next := by
  obtain ⟨path, hstages⟩ := exists_getElem?_chain collection h
  obtain ⟨join, hjoin, htarget, -⟩ := exists_join_stagesAt collection path descriptor
  obtain ⟨join', hjoin', -, hfield⟩ :=
    exists_join_stagesAt collection (attachedBy descriptor ++ ".") next
  refine ⟨join, join', ?_, ?_, ?_⟩
  · rw [hstages, Option.bind_some, hjoin]
  · rw [getElem?_chain_succ h hnext, Option.bind_some, hjoin']
  · rw [hfield, htarget]

end

end JoinSpec

/-! ### Segments of joins -/

/-- A segment of joins is read as the stages of its chain. -/
theorem Segment.eq_fixed_chain_of_read {options : CompileOptions} {text args : String}
    (hcode : Segment.splitCode text = ("f", args)) {segment : Segment}
    (h : Segment.read options text = .ok segment) :
    segment = .fixed (JoinSpec.chain options.collection (Text.items ',' args)).flatten [] := by
  obtain ⟨kind, hkind, hargs⟩ := exists_kind_of_read h
  rw [hcode] at hkind hargs
  replace hkind : kind.code = "f" := hkind
  cases kind with
  | lookup =>
    obtain ⟨specs, hspecs, rfl⟩ := map_eq_ok_iff.mp hargs
    rw [JoinSpec.chain, JoinSpec.pathsOf, ← JoinSpec.map_stages_of_readChain hspecs,
      List.flatMap_def]
  | _ => exact absurd hkind (by decide)

/-- **The joins of a segment.**  A segment of joins that is read emits the stages of its descriptors and
nothing else, whatever was lifted before it and wherever it stands in a query.  The key of every join but
the first lies directly below the field that the join in front of it attached. -/
theorem joins_of_read {options : CompileOptions} {text args : String}
    (hcode : Segment.splitCode text = ("f", args)) {segment : Segment}
    (h : Segment.read options text = .ok segment) :
    (∀ kept, (readSegment options text).run kept
        = .ok ((JoinSpec.chain options.collection (Text.items ',' args)).flatten, kept))
      ∧ (∀ query p before after, compile options query = .ok p →
          Text.items '&' query = before ++ text :: after →
          ∃ xs ys, xs.length = before.length
            ∧ emissions options query
              = .ok (xs ++ (JoinSpec.chain options.collection (Text.items ',' args)).flatten :: ys)
            ∧ p = (xs ++ (JoinSpec.chain options.collection (Text.items ',' args)).flatten
                :: ys).flatten ++ [Stage.dropIdentity])
      ∧ (∀ i descriptor next, (Text.items ',' args)[i]? = some descriptor →
          (Text.items ',' args)[i + 1]? = some next →
          ∃ join join',
            (JoinSpec.chain options.collection (Text.items ',' args))[i]?.bind List.head?
              = some (.lookup join)
            ∧ (JoinSpec.chain options.collection (Text.items ',' args))[i + 1]?.bind List.head?
              = some (.lookup join')
            ∧ join'.localField = join.target ++ "." ++ JoinSpec.keyOf next) := by
  obtain rfl := Segment.eq_fixed_chain_of_read hcode h
  refine ⟨fun kept => ?_, fun query p before after hcompile hitems => ?_, fun i descriptor next => ?_⟩
  · rw [(runs_readSegment options).run_eq, h]
    rfl
  · obtain ⟨segment, xs, ys, hsegment, hemissions, hlength⟩ := exists_emission hcompile hitems
    rw [h] at hsegment
    cases hsegment
    exact ⟨xs, ys, hlength, hemissions,
      eq_flatten_of_compile hcompile (ne_empty_of_items hitems) hemissions⟩
  · exact JoinSpec.exists_joins_chain

/-- Joins of both sorts behind each other, with names that are given and names that are found. -/
theorem joins_of_read_mixed :
    (readSegment (.standard (some "shops")) "f_users,+orders,頁々,+bees|bee|hive").run OrderedSet.empty
      = .ok ([.lookup ⟨"users", "user_id", "id", "user"⟩, .unwind "user",
          .project [("user._id", .int32 0)],
          .lookup ⟨"orders", "user.id", "shop_id", "orders"⟩,
          .lookup ⟨"頁々", "orders.頁_id", "id", "頁"⟩, .unwind "頁",
          .project [("頁._id", .int32 0)],
          .lookup ⟨"bees", "頁.id", "hive_id", "bees"⟩], OrderedSet.empty) := by
  have hcode : Segment.splitCode "f_users,+orders,頁々,+bees|bee|hive"
      = ("f", "users,+orders,頁々,+bees|bee|hive") := by decide +kernel
  have hread : ∃ segment, Segment.read (.standard (some "shops"))
      "f_users,+orders,頁々,+bees|bee|hive" = .ok segment :=
    (Acceptance.decides_readSegment _ _).ok_iff.mpr (by decide +kernel)
  have hchain : (JoinSpec.chain (CompileOptions.standard (some "shops")).collection
        (Text.items ',' "users,+orders,頁々,+bees|bee|hive")).flatten
      = [.lookup ⟨"users", "user_id", "id", "user"⟩, .unwind "user",
        .project [("user._id", .int32 0)],
        .lookup ⟨"orders", "user.id", "shop_id", "orders"⟩,
        .lookup ⟨"頁々", "orders.頁_id", "id", "頁"⟩, .unwind "頁",
        .project [("頁._id", .int32 0)],
        .lookup ⟨"bees", "頁.id", "hive_id", "bees"⟩] := by decide +kernel
  obtain ⟨segment, hsegment⟩ := hread
  have hrun := (joins_of_read hcode hsegment).1 OrderedSet.empty
  rwa [hchain] at hrun

end QueryPipeline
