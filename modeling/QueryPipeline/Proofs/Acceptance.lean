import QueryPipeline.Proofs.Grammar

/-!
# Which queries compile, and how the others fail

The readers decide the language of queries: each of them accepts exactly the texts of its part of the
grammar, and on every other text it fails with the fault that the grammar names.

* **`decides_readClause`**, **`decides_readField`**, **`decides_readDescriptor`** — the pieces;
* **`decides_readArguments`** — the arguments of every kind of stage;
* **`compile_decides_language`** — whole queries.

Lists of pieces are read by `mapM` or in a chain, so that `Decides.mapM` and `Decides.steps` carry what is
shown for one piece to the whole.
-/

namespace QueryPipeline

open Reading Grammar

namespace Acceptance

/-! ### Scalar arguments -/

theorem getD_after_ne_empty_iff {text : String} :
    (Text.after '$' text).getD text ≠ "" ↔ IsUnwindPath text := by
  rw [ne_eq, Text.getD_after_eq_empty_iff, not_or]
  exact Iff.rfl

theorem decides_readUnwind (text : String) :
    Decides (Segment.readUnwind text) (IsUnwindPath text)
      (fun e => ¬ IsUnwindPath text ∧ e = .invalidArgument .unwind text) := by
  rw [Segment.readUnwind]
  by_cases h : IsUnwindPath text
  · rw [if_neg (getD_after_ne_empty_iff.mpr h)]
    exact Decides.accept _ h
  · rw [if_pos (not_not.mp fun hne => h (getD_after_ne_empty_iff.mp hne))]
    exact Decides.refuse h

theorem not_isCountField_iff {text : String} :
    ¬ IsCountField text ↔ text = "" ∨ Text.startsWith '$' text ∨ '.' ∈ text.toList := by
  rw [Text.startsWith_iff, IsCountField]
  show ¬ (text ≠ "" ∧ (∀ rest, text ≠ "$" ++ rest) ∧ '.' ∉ text.toList)
    ↔ text = "" ∨ (∃ rest, text = "$" ++ rest) ∨ '.' ∈ text.toList
  rw [not_and_or, not_and_or, not_not, not_not]
  simp only [ne_eq, not_forall, not_not]

theorem decides_readCount (text : String) :
    Decides (Segment.readCount text) (IsCountField text)
      (fun e => ¬ IsCountField text ∧ e = .invalidArgument .count text) := by
  rw [Segment.readCount]
  by_cases h : IsCountField text
  · rw [if_neg fun htest => not_isCountField_iff.mpr htest h]
    exact Decides.accept _ h
  · rw [if_pos (not_isCountField_iff.mp h)]
    exact Decides.refuse h

/-- The word that is read is one of at least `least` exactly if the text is the numeral of such a
number. -/
theorem isAmount_iff {least : Int} (hleast : 0 ≤ least) {text : String} :
    IsAmount least text ↔ ∃ word,
      (Decimal.readInt64? text.toList).filter (fun n => least ≤ n.toInt) = some word := by
  rw [IsAmount, ← Decimal.exists_readInt64?_iff hleast]
  simp only [Option.filter_eq_some_iff, decide_eq_true_eq]

theorem decides_readAmount (kind : StageKind) {least : Int} (hleast : 0 ≤ least) (text : String) :
    Decides (Segment.readAmount kind least text) (IsAmount least text)
      (fun e => ¬ IsAmount least text ∧ e = .invalidArgument kind text) := by
  rw [Segment.readAmount]
  cases h : (Decimal.readInt64? text.toList).filter fun n => least ≤ n.toInt with
  | some word => exact Decides.accept _ ((isAmount_iff hleast).mpr ⟨word, h⟩)
  | none =>
    refine Decides.refuse fun hamount => ?_
    obtain ⟨word, hword⟩ := (isAmount_iff hleast).mp hamount
    rw [h] at hword
    cases hword

/-! ### Clauses -/

section Values

variable {operators : Registry} {key value name argument : String}

/-- The operator that a value applies and its argument are unique. -/
theorem isApplication_iff (h : Clause.IsApplication value name argument) {name' argument' : String} :
    Clause.IsApplication value name' argument' ↔ name' = name ∧ argument' = argument := by
  rw [← Clause.application?_eq_some_iff] at h ⊢
  rw [h, Option.some.injEq, Prod.mk.injEq, eq_comm, eq_comm (a := argument)]

theorem valueAccepted_iff (h : Clause.IsApplication value name argument) :
    ValueAccepted operators key value
      ↔ ∃ operator raw, operators.find? name = some operator ∧ operator argument key = .ok raw := by
  refine ⟨fun haccepted => haccepted name argument h, fun haccepted name' argument' h' => ?_⟩
  obtain ⟨rfl, rfl⟩ := (isApplication_iff h).mp h'
  exact haccepted

theorem valueFault_iff (h : Clause.IsApplication value name argument) {e : QueryError} :
    ValueFault operators key value e
      ↔ (operators.find? name = none ∧ e = .unknownOperator name)
        ∨ ∃ operator cause, operators.find? name = some operator
          ∧ operator argument key = .error cause ∧ e = .operatorFailed name cause := by
  refine ⟨fun hfault => ?_, fun hfault => ?_⟩
  · cases hfault with
    | unregistered h' hnone =>
      obtain ⟨rfl, rfl⟩ := (isApplication_iff h).mp h'
      exact Or.inl ⟨hnone, rfl⟩
    | refused h' hsome hrefused =>
      obtain ⟨rfl, rfl⟩ := (isApplication_iff h).mp h'
      exact Or.inr ⟨_, _, hsome, hrefused, rfl⟩
  · obtain ⟨hnone, rfl⟩ | ⟨operator, cause, hsome, hrefused, rfl⟩ := hfault
    · exact ValueFault.unregistered h hnone
    · exact ValueFault.refused h hsome hrefused

/-- A value that applies no operator has no fault. -/
theorem decides_of_no_application {v : Value}
    (h : ∀ name argument, ¬ Clause.IsApplication value name argument) :
    Decides (.ok v) (ValueAccepted operators key value) (ValueFault operators key value) := by
  refine Decides.ok (fun name argument happlies => absurd happlies (h name argument)) ?_
  intro e hfault
  cases hfault with
  | unregistered happlies => exact h _ _ happlies
  | refused happlies => exact h _ _ happlies

/-- **A value is read** exactly if the operator that it applies, if any, is registered and accepts. -/
theorem decides_readValue (operators : Registry) (key value : String) :
    Decides (Clause.readValue operators key value) (ValueAccepted operators key value)
      (ValueFault operators key value) := by
  rw [Clause.readValue]
  split
  · rename_i name argument happ
    have happlies := Clause.application?_eq_some_iff.mp happ
    refine ⟨?_, fun e => ?_⟩
    · rw [valueAccepted_iff happlies]
      cases operators.find? name with
      | none => simp
      | some operator =>
        cases hresult : operator argument key with
        | error cause => simp [hresult]
        | ok raw => simp [hresult]
    · rw [valueFault_iff happlies]
      cases operators.find? name with
      | none => simp [eq_comm]
      | some operator =>
        cases hresult : operator argument key with
        | error cause => simp [hresult, eq_comm]
        | ok raw => simp [hresult]
  · rename_i happ
    apply decides_of_no_application
    intro name argument happlies
    rw [Clause.application?_eq_some_iff.mpr happlies] at happ
    cases happ

end Values

/-- Two pieces around the equals signs, of which the first is not empty, are a clause. -/
theorem isClause_iff {text key value : String} :
    IsClause text key value ↔ Text.split '=' text = [key, value] ∧ key ≠ "" := by
  rw [Text.split_eq_pair_iff]
  exact ⟨fun h => ⟨⟨h.parts, h.keyPlain, h.valuePlain⟩, h.named⟩,
    fun h => ⟨h.1.1, h.1.2.1, h.1.2.2, h.2⟩⟩

/-- A text that is no clause is refused as such. -/
theorem decides_of_no_clause {operators : Registry} {text : String}
    (h : ∀ key value, ¬ IsClause text key value) :
    Decides (.error (.malformedClause text) : Except QueryError Clause)
      (ClauseAccepted operators text) (ClauseFault operators text) := by
  refine Decides.error (fun haccepted => ?_) (fun e => ⟨fun hfault => ?_, fun he => ?_⟩)
  · obtain ⟨key, value, hform, -⟩ := haccepted
    exact h key value hform
  · cases hfault with
    | malformed => rfl
    | value hform => exact absurd hform (h _ _)
  · rw [he]
    exact ClauseFault.malformed h

section Clauses

variable {operators : Registry} {text key value : String}

theorem isClause_unique (h : IsClause text key value) {key' value' : String}
    (h' : IsClause text key' value') : key' = key ∧ value' = value := by
  rw [isClause_iff] at h h'
  simpa [h.1, eq_comm] using h'.1

/-- A clause is read as its key and whatever its value is read as. -/
theorem read_of_isClause (h : IsClause text key value) (operators : Registry) :
    Clause.read operators text
      = (Clause.readValue operators key value).map fun v => ⟨key, v, Clause.path? value⟩ := by
  obtain ⟨hsplit, hkey⟩ := isClause_iff.mp h
  rw [Clause.read.eq_def, hsplit]
  exact if_neg hkey

/-- A clause has the fate of its value. -/
theorem decides_of_clause {r : Except QueryError Clause} (hform : IsClause text key value)
    (h : Decides r (ValueAccepted operators key value) (ValueFault operators key value)) :
    Decides r (ClauseAccepted operators text) (ClauseFault operators text) := by
  refine h.congr ⟨fun hvalue => ⟨key, value, hform, hvalue⟩, fun haccepted => ?_⟩
    fun e => ⟨fun hvalue => ClauseFault.value hform hvalue, fun hfault => ?_⟩
  · obtain ⟨key', value', hform', hvalue⟩ := haccepted
    obtain ⟨rfl, rfl⟩ := isClause_unique hform hform'
    exact hvalue
  · cases hfault with
    | malformed hnone => exact absurd hform (hnone key value)
    | value hform' hvalue =>
      obtain ⟨rfl, rfl⟩ := isClause_unique hform hform'
      exact hvalue

end Clauses

/-- **A clause is read** exactly if it has one equals sign, a key and a value that is accepted. -/
theorem decides_readClause (operators : Registry) (text : String) :
    Decides (Clause.read operators text) (ClauseAccepted operators text)
      (ClauseFault operators text) := by
  rw [Clause.read.eq_def]
  split
  · rename_i key value hsplit
    by_cases hkey : key = ""
    · rw [if_pos hkey]
      apply decides_of_no_clause
      intro key' value' hform
      obtain ⟨hsplit', hnamed⟩ := isClause_iff.mp hform
      rw [hsplit] at hsplit'
      cases hsplit'
      exact hnamed hkey
    · rw [if_neg hkey]
      exact decides_of_clause (isClause_iff.mpr ⟨hsplit, hkey⟩)
        ((decides_readValue operators key value).map _)
  · rename_i hsplit
    apply decides_of_no_clause
    intro key value hform
    exact hsplit key value (isClause_iff.mp hform).1

theorem decides_readGroup (operators : Registry) (group : String) :
    Decides (Clause.readGroup operators group) (GroupAccepted operators group)
      (GroupFault operators group) :=
  Decides.mapM fun text _ => decides_readClause operators text

theorem decides_readGroups (operators : Registry) (args : String) :
    Decides (Clause.readGroups operators args)
      (∀ group ∈ Text.items ',' args, GroupAccepted operators group)
      (FirstFault (GroupAccepted operators) (GroupFault operators) (Text.items ',' args)) :=
  Decides.mapM fun group _ => decides_readGroup operators group

/-! ### Field tokens -/

/-- **A field token is read** exactly if it is not a minus alone. -/
theorem decides_readField {token : String} (hne : token ≠ "") :
    Decides (FieldList.readField token) (FieldAccepted token) (FieldFault token) := by
  have hname : FieldList.fieldName token = "" ↔ token = "-" := by
    rw [FieldList.fieldName, Text.getD_after_eq_empty_iff]
    exact ⟨fun hor => hor.resolve_left hne, Or.inr⟩
  rw [FieldList.readField_eq]
  by_cases h : token = "-"
  · rw [if_pos (hname.mpr h)]
    exact Decides.error (fun haccepted => haccepted h)
      fun e => ⟨fun hfault => hfault.2, fun he => ⟨h, he⟩⟩
  · rw [if_neg (mt hname.mp h)]
    exact Decides.ok h fun e hfault => h hfault.1

theorem decides_readFields (args : String) :
    Decides (FieldList.read args) (∀ token ∈ Text.items ',' args, FieldAccepted token)
      (FirstFault FieldAccepted FieldFault (Text.items ',' args)) :=
  Decides.mapM fun _ htoken => decides_readField (Text.ne_empty_of_mem_items htoken)

/-! ### Join descriptors -/

/-- A name has a singular exactly if it has a character to spare. -/
theorem isSome_singularize_iff {name : String} : (singularize name).isSome ↔ 2 ≤ name.length := by
  have hlength : name.toList.dropLast.length = name.length - 1 := by
    rw [List.length_dropLast, String.length_toList]
  rw [singularize]
  cases h : name.toList.dropLast with
  | nil =>
    rw [h, List.length_nil] at hlength
    simp only [Option.isSome_none, Bool.false_eq_true, false_iff]
    omega
  | cons c rest =>
    rw [h, List.length_cons] at hlength
    simp only [Option.isSome_some, true_iff]
    omega

theorem isSome_singular_iff {names : List String} :
    (names[1]?.or (singularize (names.headD ""))).isSome ↔ HasSingular names := by
  rw [Option.isSome_or, Bool.or_eq_true, isSome_getElem?, isSome_singularize_iff]
  exact Iff.rfl

theorem isSome_localName_iff {collection : Option String} {names : List String} :
    (names[2]?.or (collection.bind singularize)).isSome ↔ HasLocalName collection names := by
  have hcollection : (collection.bind singularize).isSome
      ↔ ∃ name, collection = some name ∧ 2 ≤ name.length := by
    cases collection with
    | none => simp
    | some name => simp [isSome_singularize_iff]
  rw [Option.isSome_or, Bool.or_eq_true, isSome_getElem?, hcollection]
  exact Iff.rfl

theorem lacksSingular_iff {many : Bool} {names : List String} :
    (! many && (names[1]?.or (singularize (names.headD ""))).isNone) = true
      ↔ many = false ∧ ¬ HasSingular names := by
  rw [Bool.and_eq_true, Bool.not_eq_true', ← isSome_singular_iff, Option.not_isSome_iff_eq_none,
    Option.isNone_iff_eq_none]

theorem lacksLocalName_iff {many : Bool} {collection : Option String} {names : List String} :
    (many && (names[2]?.or (collection.bind singularize)).isNone) = true
      ↔ many = true ∧ ¬ HasLocalName collection names := by
  rw [Bool.and_eq_true, ← isSome_localName_iff, Option.not_isSome_iff_eq_none,
    Option.isNone_iff_eq_none]

/-- A descriptor is read by its names, which are counted before they are looked at. -/
theorem read_eq (known : Option String) (path descriptor : String) :
    JoinSpec.read known path descriptor
      = if 3 < (joinNames descriptor).length then .error .tooManyNames
        else if "" ∈ joinNames descriptor then .error .emptyName
        else if ! joinsMany descriptor
          && ((joinNames descriptor)[1]?.or (singularize ((joinNames descriptor).headD ""))).isNone then
          .error .noSingular
        else if joinsMany descriptor && ((joinNames descriptor)[2]?.or known).isNone then
          .error .noLocalName
        else .ok ⟨(joinNames descriptor).headD "",
          (joinNames descriptor)[1]?.or (singularize ((joinNames descriptor).headD "")),
          (joinNames descriptor)[2]?.or known, joinsMany descriptor, path⟩ := by
  rw [JoinSpec.read.eq_def, joinNames, joinsMany, ← Text.isSome_after]
  cases Text.after '+' descriptor with
  | none => rfl
  | some text => rfl

section Names

variable {collection : Option String} {descriptor : String} {fault fault' : JoinFault}

/-- A descriptor has at most one fault: each excludes those that are looked for before it. -/
theorem namesFault_unique (h : NamesFault collection descriptor fault)
    (h' : NamesFault collection descriptor fault') : fault' = fault := by
  cases h with
  | tooMany hmany =>
    cases h' with
    | tooMany => rfl
    | empty hfew => omega
    | singular hfew => omega
    | localName hfew => omega
  | empty hfew hempty =>
    cases h' with
    | tooMany hmany => omega
    | empty => rfl
    | singular _ hnamed => exact absurd hempty hnamed
    | localName _ hnamed => exact absurd hempty hnamed
  | singular hfew hnamed hone =>
    cases h' with
    | tooMany hmany => omega
    | empty _ hempty => exact absurd hempty hnamed
    | singular => rfl
    | localName _ _ hmany => exact absurd (hone.symm.trans hmany) (by decide)
  | localName hfew hnamed hmany =>
    cases h' with
    | tooMany htoo => omega
    | empty _ hempty => exact absurd hempty hnamed
    | singular _ _ hone => exact absurd (hone.symm.trans hmany) (by decide)
    | localName => rfl

theorem not_namesFault_of_accepted (h : JoinAccepted collection descriptor) :
    ¬ NamesFault collection descriptor fault := by
  intro hfault
  cases hfault with
  | tooMany hmany => exact absurd h.few (by omega)
  | empty _ hempty => exact h.named hempty
  | singular _ _ hone hnone => exact hnone (h.singular hone)
  | localName _ _ hmany hnone => exact hnone (h.localName hmany)

theorem decides_of_accepted {spec : JoinSpec} (h : JoinAccepted collection descriptor) :
    Decides (.ok spec) (JoinAccepted collection descriptor) (NamesFault collection descriptor) :=
  Decides.ok h fun _ => not_namesFault_of_accepted h

theorem decides_of_namesFault (h : NamesFault collection descriptor fault) :
    Decides (.error fault : Except JoinFault JoinSpec) (JoinAccepted collection descriptor)
      (NamesFault collection descriptor) := by
  refine Decides.error (fun haccepted => not_namesFault_of_accepted haccepted h) ?_
  intro fault'
  refine ⟨fun h' => namesFault_unique h h', fun heq => ?_⟩
  rw [heq]
  exact h

end Names

/-- **A descriptor is read** exactly if it has at most three names, none of them empty, and the name
that its join needs can be found. -/
theorem decides_readDescriptor (collection : Option String) (path descriptor : String) :
    Decides (JoinSpec.read (collection.bind singularize) path descriptor)
      (JoinAccepted collection descriptor) (NamesFault collection descriptor) := by
  rw [read_eq]
  by_cases hmany : 3 < (joinNames descriptor).length
  · rw [if_pos hmany]
    exact decides_of_namesFault (NamesFault.tooMany hmany)
  have hfew : (joinNames descriptor).length ≤ 3 := by omega
  rw [if_neg hmany]
  by_cases hempty : "" ∈ joinNames descriptor
  · rw [if_pos hempty]
    exact decides_of_namesFault (NamesFault.empty hfew hempty)
  rw [if_neg hempty]
  by_cases hsingular : joinsMany descriptor = false ∧ ¬ HasSingular (joinNames descriptor)
  · rw [if_pos (lacksSingular_iff.mpr hsingular)]
    exact decides_of_namesFault (NamesFault.singular hfew hempty hsingular.1 hsingular.2)
  rw [if_neg (mt lacksSingular_iff.mp hsingular)]
  by_cases hlocal : joinsMany descriptor = true ∧ ¬ HasLocalName collection (joinNames descriptor)
  · rw [if_pos (lacksLocalName_iff.mpr hlocal)]
    exact decides_of_namesFault (NamesFault.localName hfew hempty hlocal.1 hlocal.2)
  rw [if_neg (mt lacksLocalName_iff.mp hlocal)]
  exact decides_of_accepted ⟨hfew, hempty, not_and_not_right.mp hsingular, not_and_not_right.mp hlocal⟩

/-- **The descriptors of a segment are read** exactly if each of them is; the path that a descriptor is
read under has no part in it. -/
theorem decides_readDescriptors (collection : Option String) (args : String) :
    Decides (JoinSpec.readAll collection args)
      (∀ descriptor ∈ Text.items ',' args, JoinAccepted collection descriptor)
      (FirstFault (JoinAccepted collection) (JoinFaultAt collection) (Text.items ',' args)) := by
  refine Decides.steps (JoinSpec.readChain (collection.bind singularize))
    (fun _ spec => spec.target ++ ".") List.cons
    (fun descriptor _ path =>
      (decides_readDescriptor collection path descriptor).mapError fun fault =>
        QueryError.malformedJoin descriptor fault.message)
    (fun _ => rfl) ?_ ""
  intro path descriptor rest
  rw [JoinSpec.readChain]
  cases JoinSpec.read (collection.bind singularize) path descriptor with
  | error fault => rfl
  | ok spec => rfl

/-! ### Arguments and segments -/

/-- **The arguments of a stage are read** exactly if a stage of this kind takes them. -/
theorem decides_readArguments (options : CompileOptions) (args : String) (kind : StageKind) :
    Decides (Segment.readArguments options args kind) (Accepts options args kind)
      (Fault options args kind) := by
  cases kind with
  | unwind => exact (decides_readUnwind args).map _
  | limit => exact (decides_readAmount .limit (by decide) args).map _
  | skip => exact (decides_readAmount .skip (by decide) args).map _
  | sample => exact (decides_readAmount .sample (by decide) args).map _
  | matching => exact (decides_readGroups options.operators args).map _
  | addFields => exact (decides_readGroups options.operators args).map _
  | project => exact (decides_readFields args).map _
  | sort => exact (decides_readFields args).map _
  | count => exact (decides_readCount args).map _
  | lookup => exact (decides_readDescriptors options.collection args).map _

section Segments

variable {options : CompileOptions} {text code args : String}

theorem isSegment_unique (h : IsSegment text code args) {code' args' : String}
    (h' : IsSegment text code' args') : code' = code ∧ args' = args := by
  have hsplit := Segment.splitCode_eq_iff.mpr h
  have hsplit' := Segment.splitCode_eq_iff.mpr h'
  rw [hsplit, Prod.mk.injEq] at hsplit'
  exact ⟨hsplit'.1.symm, hsplit'.2.symm⟩

theorem code_inj {kind kind' : StageKind} (h : kind'.code = kind.code) : kind' = kind := by
  have hkind := StageKind.ofCode?_code kind
  rw [← h, StageKind.ofCode?_code] at hkind
  exact Option.some.inj hkind

/-- A segment under no code is refused as such. -/
theorem decides_of_no_code (hform : IsSegment text code args)
    (hcode : ∀ kind : StageKind, kind.code ≠ code) :
    Decides (.error (.unknownStage code) : Except QueryError Segment)
      (SegmentAccepted options text) (SegmentFault options text) := by
  refine Decides.error (fun haccepted => ?_) (fun e => ⟨fun hfault => ?_, fun he => ?_⟩)
  · obtain ⟨kind, args', hform', -⟩ := haccepted
    exact hcode kind (isSegment_unique hform hform').1
  · cases hfault with
    | unknown hform' => rw [(isSegment_unique hform hform').1]
    | arguments hform' => exact absurd (isSegment_unique hform hform').1 (hcode _)
  · rw [he]
    exact SegmentFault.unknown hform hcode

/-- A segment under a code has the fate of its arguments. -/
theorem decides_of_code {kind : StageKind} {r : Except QueryError Segment}
    (hform : IsSegment text kind.code args)
    (h : Decides r (Accepts options args kind) (Fault options args kind)) :
    Decides r (SegmentAccepted options text) (SegmentFault options text) := by
  refine h.congr ⟨fun hargs => ⟨kind, args, hform, hargs⟩, fun haccepted => ?_⟩
    fun e => ⟨fun hargs => SegmentFault.arguments hform hargs, fun hfault => ?_⟩
  · obtain ⟨kind', args', hform', hargs⟩ := haccepted
    obtain ⟨hcode, rfl⟩ := isSegment_unique hform hform'
    rw [← code_inj hcode]
    exact hargs
  · cases hfault with
    | unknown hform' hnone => exact absurd (isSegment_unique hform' hform).1 (hnone kind)
    | arguments hform' hargs =>
      obtain ⟨hcode, rfl⟩ := isSegment_unique hform hform'
      rw [← code_inj hcode]
      exact hargs

/-- **A segment is read** exactly if it has one of the codes and arguments that its stage takes. -/
theorem decides_readSegment (options : CompileOptions) (text : String) :
    Decides (Segment.read options text) (SegmentAccepted options text)
      (SegmentFault options text) := by
  have hform : IsSegment text (Segment.splitCode text).1 (Segment.splitCode text).2 :=
    Segment.splitCode_eq_iff.mp rfl
  rw [Segment.read.eq_def]
  cases hkind : StageKind.ofCode? (Segment.splitCode text).1 with
  | none =>
    refine decides_of_no_code hform fun kind hcode => ?_
    rw [← hcode, StageKind.ofCode?_code] at hkind
    cases hkind
  | some kind =>
    rw [← StageKind.code_of_ofCode? hkind] at hform
    exact decides_of_code hform (decides_readArguments options _ kind)

end Segments

end Acceptance

instance (options : CompileOptions) (text : String) : Decidable (SegmentAccepted options text) :=
  (Acceptance.decides_readSegment options text).decidable

/-- The greatest word of 64 bits is an amount, and the number behind it is none. -/
example : SegmentAccepted (.standard none) "k_+09223372036854775807"
    ∧ ¬ SegmentAccepted (.standard none) "k_9223372036854775808" := by
  decide +kernel

/-- **The language of queries.**  A query compiles exactly if all of its segments are accepted, and
otherwise it fails exactly with the fault of the first segment that has one. -/
theorem compile_decides_language (options : CompileOptions) (query : String) :
    ((∃ pipeline, compile options query = .ok pipeline)
        ↔ ∀ text ∈ Text.items '&' query, SegmentAccepted options text)
      ∧ ∀ e, compile options query = .error e
        ↔ FirstFault (SegmentAccepted options) (SegmentFault options) (Text.items '&' query) e := by
  have hcompile : Decides (compile options query)
      (∀ text ∈ Text.items '&' query, SegmentAccepted options text)
      (FirstFault (SegmentAccepted options) (SegmentFault options) (Text.items '&' query)) := by
    rw [compile]
    by_cases hquery : query = ""
    · rw [if_pos hquery, hquery, Text.items_empty]
      exact Decides.nil
    · rw [if_neg hquery]
      exact (Decides.mapM fun text _ => Acceptance.decides_readSegment options text).map assemble
  exact ⟨hcompile.ok_iff, hcompile.error_iff⟩

/-- A value that starts with a dollar sign is a reference and applies no operator, even if another
dollar sign follows and nothing is registered under the empty name in front of the first one. -/
theorem compile_reference_with_dollar :
    ¬ Literal.IsQuoted "$a$b" ∧ '$' ∈ "$a$b".toList.tail ∧ Text.cut '$' "$a$b" = some ("", "a$b")
      ∧ Registry.standard.find? "" = none
      ∧ compile (.standard none) "m_k=$a$b"
        = .ok [.matching [("k", .string "$a$b")], .dropIdentity] := by
  have hquoted : Literal.quoted? "$a$b" = none := by decide +kernel
  have hfind : Registry.standard.find? "" = none := by decide +kernel
  exact ⟨Literal.quoted?_eq_none_iff.mp hquoted, by decide +kernel, by decide +kernel, hfind,
    by decide +kernel⟩

end QueryPipeline
