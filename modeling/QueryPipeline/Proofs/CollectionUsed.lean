import QueryPipeline.Proofs.Acceptance
import QueryPipeline.Proofs.Lifting

/-!
# Where the collection can matter

The collection that a query runs on is looked at in one place only: a descriptor that joins many
documents takes the name of a document at hand from it, unless it gives that name itself.  Even there
nothing but the singular of the collection is looked at.

* `JoinSpec.LeavesLocal`, **`Query.LeavesLocal`** — the descriptors and the queries that leave that name
  to the collection;
* `JoinSpec.contribution` — what a descriptor hands on: its stages and the field that it attaches;
* **`readJoins_of_not_leavesLocal`** — the joins of a segment, by induction on its descriptors;
* **`compile_of_collections`** — whole queries.
-/

namespace QueryPipeline

open Reading

/-! ### Names that are left to the collection -/

/-- A descriptor that joins many documents and has fewer than three names. -/
def JoinSpec.LeavesLocal (descriptor : String) : Prop :=
  Grammar.joinsMany descriptor = true ∧ (Grammar.joinNames descriptor).length < 3

/-- Some segment of joins has a descriptor that leaves the name of a document at hand to the
collection. -/
def Query.LeavesLocal (query : String) : Prop :=
  ∃ segment ∈ Query.segments query, segment.1 = "f"
    ∧ ∃ descriptor ∈ Text.items ',' segment.2, JoinSpec.LeavesLocal descriptor

instance (descriptor : String) : Decidable (JoinSpec.LeavesLocal descriptor) :=
  inferInstanceAs (Decidable (_ ∧ _))

instance (query : String) : Decidable (Query.LeavesLocal query) :=
  inferInstanceAs (Decidable (∃ segment ∈ Query.segments query, _))

/-- A collection has no singular exactly if it is unknown or its name has no character to spare. -/
theorem bind_singularize_eq_none_iff {collection : Option String} :
    collection.bind singularize = none ↔ ∀ name, collection = some name → name.length ≤ 1 := by
  cases collection with
  | none => simp
  | some name =>
    rw [Option.bind_some, ← Option.not_isSome_iff_eq_none, Acceptance.isSome_singularize_iff]
    constructor
    · rintro hshort other ⟨⟩
      omega
    · intro hshort
      have := hshort name rfl
      omega

/-! ### The joins of a segment -/

namespace JoinSpec

/-- What a descriptor hands on: its stages, and the field that the next one reads its key below. -/
def contribution (spec : JoinSpec) : List Stage × String :=
  (spec.stages, spec.target)

/-- The stages of the descriptors of a segment, the first of them below a path. -/
def readJoins (known : Option String) (path : String) (descriptors : List String) :
    Except QueryError (List Stage) :=
  (readChain known path descriptors).map fun specs => specs.flatMap stages

variable {descriptor path : String}

/-- A join of one document has the same stages whatever a document at hand is called. -/
theorem contribution_of_one (plural : String) (singular known known' : Option String)
    (path : String) : contribution ⟨plural, singular, known, false, path⟩
      = contribution ⟨plural, singular, known', false, path⟩ := by
  cases singular with
  | none => rfl
  | some singular => rfl

/-- A descriptor that does not leave the name of a document at hand open hands on the same stages
whatever that name would be, and has the same fault. -/
theorem map_read_of_not_leavesLocal (h : ¬ LeavesLocal descriptor) (known known' : Option String) :
    (JoinSpec.read known path descriptor).map contribution
      = (JoinSpec.read known' path descriptor).map contribution := by
  rw [Acceptance.read_eq, Acceptance.read_eq]
  cases hmany : Grammar.joinsMany descriptor with
  | true =>
    -- the third name is there, and the name that is known is not looked for
    have hthree : ¬ (Grammar.joinNames descriptor).length < 3 := fun hfew => h ⟨hmany, hfew⟩
    obtain ⟨third, hthird⟩ : ∃ third, (Grammar.joinNames descriptor)[2]? = some third :=
      ⟨_, List.getElem?_eq_getElem (by omega)⟩
    rw [hthird, Option.some_or, Option.some_or]
  | false =>
    -- the name is put away with the others, and no stage of a join of one document has it
    simp only [Bool.not_false, Bool.true_and, Bool.false_and, Bool.false_eq_true, if_false]
    split
    · rfl
    split
    · rfl
    split
    · rfl
    · exact congrArg Except.ok (contribution_of_one _ _ _ _ _)

/-- The joins behind a descriptor depend on nothing of it but the field that it attaches. -/
theorem readJoins_cons (known : Option String) (path descriptor : String) (rest : List String) :
    readJoins known path (descriptor :: rest)
      = match (JoinSpec.read known path descriptor).map contribution with
        | .error fault => .error (.malformedJoin descriptor fault.message)
        | .ok (stages, field) =>
          (readJoins known (field ++ ".") rest).map fun others => stages ++ others := by
  rw [readJoins, readChain]
  cases JoinSpec.read known path descriptor with
  | error fault => rfl
  | ok spec =>
    show ((readChain known (spec.target ++ ".") rest).map fun specs => spec :: specs).map _
      = (readJoins known (spec.target ++ ".") rest).map fun others => spec.stages ++ others
    rw [readJoins, map_map, map_map]
    rfl

/-- **The joins of a segment** whose descriptors leave nothing open do not depend on what is known. -/
theorem readJoins_of_not_leavesLocal {descriptors : List String}
    (h : ∀ descriptor ∈ descriptors, ¬ LeavesLocal descriptor) (known known' : Option String)
    (path : String) : readJoins known path descriptors = readJoins known' path descriptors := by
  induction descriptors generalizing path with
  | nil => rfl
  | cons descriptor rest ih =>
    obtain ⟨hfirst, hrest⟩ := List.forall_mem_cons.mp h
    rw [readJoins_cons, readJoins_cons, map_read_of_not_leavesLocal hfirst known known']
    cases (JoinSpec.read known' path descriptor).map contribution with
    | error fault => rfl
    | ok handed =>
      show (readJoins known (handed.2 ++ ".") rest).map (handed.1 ++ ·)
        = (readJoins known' (handed.2 ++ ".") rest).map (handed.1 ++ ·)
      rw [ih hrest (handed.2 ++ ".")]

end JoinSpec

/-! ### Segments and queries -/

section

variable {operators : Registry} {collection collection' : Option String}

/-- **Segments.**  Only joins look at the collection, and only at its singular. -/
theorem readArguments_of_readJoins {args : String}
    (h : JoinSpec.readJoins (collection.bind singularize) "" (Text.items ',' args)
      = JoinSpec.readJoins (collection'.bind singularize) "" (Text.items ',' args)) :
    Segment.readArguments ⟨collection, operators⟩ args .lookup
      = Segment.readArguments ⟨collection', operators⟩ args .lookup := by
  have hjoins : ∀ c : Option String, Segment.readArguments ⟨c, operators⟩ args .lookup
      = (JoinSpec.readJoins (c.bind singularize) "" (Text.items ',' args)).map
          fun stages => Segment.fixed stages [] := by
    intro c
    rw [JoinSpec.readJoins, map_map]
    rfl
  rw [hjoins, hjoins, h]

theorem read_of_readJoins {text : String}
    (h : (Segment.splitCode text).1 = "f" →
      JoinSpec.readJoins (collection.bind singularize) "" (Text.items ',' (Segment.splitCode text).2)
        = JoinSpec.readJoins (collection'.bind singularize) ""
            (Text.items ',' (Segment.splitCode text).2)) :
    Segment.read ⟨collection, operators⟩ text = Segment.read ⟨collection', operators⟩ text := by
  rw [Segment.read, Segment.read]
  cases hkind : StageKind.ofCode? (Segment.splitCode text).1 with
  | none => rfl
  | some kind =>
    cases kind with
    | lookup =>
      exact readArguments_of_readJoins (h (StageKind.code_of_ofCode? hkind).symm)
    | _ => rfl

/-- Queries whose segments of joins are read alike compile alike. -/
theorem compile_of_readJoins {query : String}
    (h : ∀ segment ∈ Query.segments query, segment.1 = "f" →
      JoinSpec.readJoins (collection.bind singularize) "" (Text.items ',' segment.2)
        = JoinSpec.readJoins (collection'.bind singularize) "" (Text.items ',' segment.2)) :
    compile ⟨collection, operators⟩ query = compile ⟨collection', operators⟩ query := by
  have hread : readSegments ⟨collection, operators⟩ query
      = readSegments ⟨collection', operators⟩ query := by
    apply mapM_congr
    intro text htext
    exact read_of_readJoins (h _ (List.mem_map.mpr ⟨text, htext, rfl⟩))
  rw [compile, compile, hread]

/-- What a query comes to that joins many documents under one name: the singular of the collection
decides, and nothing else. -/
theorem compile_join_of_many (collection : Option String) (operators : Registry) :
    compile ⟨collection, operators⟩ "f_+orders"
      = match collection.bind singularize with
        | none => .error (.malformedJoin "+orders" JoinFault.noLocalName.message)
        | some name => .ok [.lookup ⟨"orders", "id", name ++ "_id", "orders"⟩, .dropIdentity] := by
  have hitems : Text.items '&' "f_+orders" = ["f_+orders"] := by decide +kernel
  have hcode : Segment.splitCode "f_+orders" = ("f", "+orders") := by decide +kernel
  have hdescriptors : Text.items ',' "+orders" = ["+orders"] := by decide +kernel
  have hplus : Text.after '+' "+orders" = some "orders" := by decide +kernel
  have hnames : Text.split '|' "orders" = ["orders"] := by decide +kernel
  have hsingular : singularize "orders" = some "order" := by decide +kernel
  have hkind : StageKind.ofCode? "f" = some .lookup := by decide
  have hread : JoinSpec.read (collection.bind singularize) "" "+orders"
      = match collection.bind singularize with
        | none => .error .noLocalName
        | some name => .ok ⟨"orders", some "order", some name, true, ""⟩ := by
    cases collection.bind singularize with
    | none => simp [JoinSpec.read, hplus, hnames, hsingular]
    | some name => simp [JoinSpec.read, hplus, hnames, hsingular]
  rw [compile, if_neg (by decide), readSegments, hitems, mapM_cons_eq, Segment.read, hcode]
  simp only [hkind, Segment.readArguments, JoinSpec.readAll, hdescriptors, JoinSpec.readChain, hread]
  cases collection.bind singularize with
  | none => rfl
  | some name => rfl

/-- **Where the collection can matter.**  Two collections are the same to every query exactly if they have
the same singular, and one without a name, or with a name of at most one character, has none.  A query
whose descriptors all join one document or have three names or more is the same to every collection. -/
theorem compile_of_collections (operators : Registry) (collection collection' : Option String) :
    ((∀ query, compile ⟨collection, operators⟩ query = compile ⟨collection', operators⟩ query)
        ↔ collection.bind singularize = collection'.bind singularize)
      ∧ (collection.bind singularize = none ↔ ∀ name, collection = some name → name.length ≤ 1)
      ∧ (∀ query, ¬ Query.LeavesLocal query →
        compile ⟨collection, operators⟩ query = compile ⟨collection', operators⟩ query) := by
  refine ⟨⟨fun hsame => ?_, fun hsingular query => ?_⟩, bind_singularize_eq_none_iff,
    fun query hleaves => ?_⟩
  · have hjoin := hsame "f_+orders"
    rw [compile_join_of_many, compile_join_of_many] at hjoin
    cases h : collection.bind singularize with
    | none =>
      cases h' : collection'.bind singularize with
      | none => rfl
      | some name' =>
        rw [h, h'] at hjoin
        cases hjoin
    | some name =>
      cases h' : collection'.bind singularize with
      | none =>
        rw [h, h'] at hjoin
        cases hjoin
      | some name' =>
        rw [h, h'] at hjoin
        have hname : name = name' := by simpa using hjoin
        rw [hname]
  · apply compile_of_readJoins
    intro segment _ _
    rw [hsingular]
  · apply compile_of_readJoins
    intro segment hsegment hcode
    apply JoinSpec.readJoins_of_not_leavesLocal
    intro descriptor hdescriptor hopen
    exact hleaves ⟨segment, hsegment, hcode, descriptor, hdescriptor, hopen⟩

/-- Joins of one document, and joins of many that name the document at hand themselves, do not need a
collection; what else is wrong with a descriptor is found without it too. -/
theorem compile_of_collections_spelled_out :
    ¬ Query.LeavesLocal "f_users,+bees|bee|hive&l_1"
      ∧ compile ⟨none, Registry.empty⟩ "f_users,+bees|bee|hive&l_1"
        = .ok [.lookup ⟨"users", "user_id", "id", "user"⟩, .unwind "user",
          .project [("user._id", .int32 0)], .lookup ⟨"bees", "user.id", "hive_id", "bees"⟩,
          .limit 1, .dropIdentity]
      ∧ ¬ Query.LeavesLocal "f_+a|b|c|d"
      ∧ compile ⟨none, Registry.empty⟩ "f_+a|b|c|d"
        = .error (.malformedJoin "+a|b|c|d" JoinFault.tooManyNames.message) := by
  have hspelled : ¬ Query.LeavesLocal "f_users,+bees|bee|hive&l_1" := by decide +kernel
  have hmany : ¬ Query.LeavesLocal "f_+a|b|c|d" := by decide +kernel
  obtain ⟨-, -, hsame⟩ := compile_of_collections Registry.empty none (some "shops")
  refine ⟨hspelled, ?_, hmany, ?_⟩
  · rw [hsame _ hspelled]
    decide +kernel
  · rw [hsame _ hmany]
    decide +kernel

end

end QueryPipeline
