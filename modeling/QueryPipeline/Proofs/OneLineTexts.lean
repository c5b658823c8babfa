import QueryPipeline.Proofs.SpelledOut

/-!
# Texts on one line

A query breaks no line that it does not bring along: if neither the query nor the name of the collection
holds a line end, and the operators make none, then no text of the pipeline holds one.

* `Value.texts`, `Stage.texts` — the texts of a value and of a stage, which are its strings and its keys;
* `Text.IsLine`, `RawValue.IsLine`, `Value.IsLine`, … — texts without line ends;
* `Registry.KeepsLines` — operators that make no line ends, such as those that are always there;
* **`isLine_body`**, **`isLine_toDocument`**, **`isLine_of_readChain`** — clauses, field lists and joins;
* **`isLine_of_compile`** — whole pipelines.
-/

namespace QueryPipeline

open Reading

/-! ### Texts of values -/

mutual

/-- The texts of a value, in the order in which they are written: its strings and its keys. -/
def Value.texts : Value → List String
  | .null | .bool _ | .int32 _ | .int64 _ | .double _ => []
  | .string s => [s]
  | .array items => Value.itemTexts items
  | .document fields => Value.fieldTexts fields

/-- The texts of the items of an array. -/
def Value.itemTexts : List Value → List String
  | [] => []
  | item :: items => Value.texts item ++ Value.itemTexts items

/-- The texts of the fields of a document. -/
def Value.fieldTexts : List (String × Value) → List String
  | [] => []
  | (key, value) :: fields => key :: (Value.texts value ++ Value.fieldTexts fields)

end

/-- The texts of a stage, its operator included. -/
def Stage.texts (s : Stage) : List String :=
  Value.texts (.document s.toDocument)

/-- A text without line ends. -/
abbrev Text.IsLine (s : String) : Prop :=
  Text.Lacks ['\n'] s

theorem Text.isLine_iff {s : String} : Text.IsLine s ↔ '\n' ∉ s.toList :=
  List.forall_mem_singleton

/-- A value whose texts all are without line ends. -/
def Value.IsLine (v : Value) : Prop :=
  ∀ s ∈ v.texts, Text.IsLine s

/-- A document whose keys and values are without line ends. -/
def Document.IsLine (d : Document) : Prop :=
  ∀ field ∈ d, Text.IsLine field.1 ∧ field.2.IsLine

/-- A stage whose texts all are without line ends. -/
def Stage.IsLine (s : Stage) : Prop :=
  ∀ t ∈ s.texts, Text.IsLine t

namespace Value

theorem isLine_string {s : String} : Value.IsLine (.string s) ↔ Text.IsLine s :=
  List.forall_mem_singleton

theorem isLine_int32 (n : Int32) : Value.IsLine (.int32 n) :=
  fun _ h => absurd h List.not_mem_nil

theorem isLine_int64 (n : Int64) : Value.IsLine (.int64 n) :=
  fun _ h => absurd h List.not_mem_nil

theorem isLine_array {items : List Value} :
    Value.IsLine (.array items) ↔ ∀ item ∈ items, item.IsLine := by
  show (∀ s ∈ itemTexts items, Text.IsLine s) ↔ _
  induction items with
  | nil => simp [itemTexts]
  | cons item items ih =>
    rw [itemTexts, List.forall_mem_append, ih, List.forall_mem_cons]
    rfl

theorem isLine_document {fields : Document} :
    Value.IsLine (.document fields) ↔ fields.IsLine := by
  show (∀ s ∈ fieldTexts fields, Text.IsLine s) ↔ ∀ field ∈ fields, _
  induction fields with
  | nil => simp [fieldTexts]
  | cons field fields ih =>
    rw [fieldTexts, List.forall_mem_cons, List.forall_mem_append, ih, List.forall_mem_cons, and_assoc]
    rfl

/-- A document with one field. -/
theorem isLine_field {key : String} {value : Value} (hkey : Text.IsLine key) (hvalue : value.IsLine) :
    Value.IsLine (.document [(key, value)]) :=
  isLine_document.mpr (List.forall_mem_singleton.mpr ⟨hkey, hvalue⟩)

end Value

namespace Document

variable {d : Document}

theorem isLine_nil : IsLine [] :=
  fun _ h => absurd h List.not_mem_nil

theorem IsLine.insert (h : d.IsLine) {key : String} (hkey : Text.IsLine key) {value : Value}
    (hvalue : value.IsLine) : (Document.insert d key value).IsLine := by
  intro field hfield
  obtain rfl | hfield := mem_insert hfield
  · exact ⟨hkey, hvalue⟩
  · exact h field hfield

theorem isLine_ofFields {fields : List (String × Value)} (h : Document.IsLine fields) :
    (ofFields fields).IsLine := by
  have hloop : ∀ (rest : List (String × Value)) (d : Document), d.IsLine → Document.IsLine rest →
      (insertAll d rest).IsLine := by
    intro rest
    induction rest with
    | nil => exact fun d hd _ => hd
    | cons field rest ih =>
      intro d hd hrest
      obtain ⟨⟨hkey, hvalue⟩, hmore⟩ := List.forall_mem_cons.mp hrest
      exact ih _ (hd.insert hkey hvalue) hmore
  exact hloop fields [] isLine_nil h

end Document

/-! ### Operators and what they make -/

/-- A raw value whose tokens all are without line ends. -/
inductive RawValue.IsLine : RawValue → Prop
  | token {s : String} (hs : Text.IsLine s) : IsLine (.token s)
  | list {items : List RawValue} (hitems : ∀ item ∈ items, IsLine item) : IsLine (.list items)

/-- The operators make no line ends: of an argument and a key without them they make tokens without
them. -/
def Registry.KeepsLines (r : Registry) : Prop :=
  ∀ name operator argument key raw, r.find? name = some operator → Text.IsLine argument →
    Text.IsLine key → operator argument key = .ok raw → raw.IsLine

/-- The operators that are always there make no line ends. -/
theorem Registry.keepsLines_standard : Registry.standard.KeepsLines := by
  intro name operator argument key raw hfind hargument _ hraw
  rw [standard, find?_register, find?_register] at hfind
  split at hfind
  · cases hfind
    rw [firstOf] at hraw
    split at hraw
    · cases hraw
    · cases hraw
      exact .token ((by decide : Text.IsLine "$").append hargument)
  · split at hfind
    · cases hfind
      cases hraw
      refine .list fun item hitem => ?_
      obtain ⟨token, htoken, rfl⟩ := List.mem_map.mp hitem
      exact .token (hargument.of_mem_split htoken)
    · cases hfind

namespace Literal

/-- What a token denotes has no other text than the token, or what stands between its quotes. -/
theorem isLine_coerce {token : String} (h : Text.IsLine token) : (coerce token).IsLine := by
  obtain ⟨v, hv⟩ := exists_denotes token
  rw [coerce_of_denotes hv]
  cases hv with
  | isTrue => exact fun _ hs => absurd hs List.not_mem_nil
  | isFalse => exact fun _ hs => absurd hs List.not_mem_nil
  | number htext => cases htext <;> exact fun _ hs => absurd hs List.not_mem_nil
  | quoted _ htoken =>
    rw [htoken] at h
    obtain ⟨hfront, -⟩ := Text.lacks_append_iff.mp h
    exact Value.isLine_string.mpr (Text.lacks_append_iff.mp hfront).2
  | bare => exact Value.isLine_string.mpr h

theorem isLine_coerceRaw {raw : RawValue} (h : raw.IsLine) : (coerceRaw raw).IsLine := by
  induction h with
  | token hs =>
    rw [coerceRaw]
    exact isLine_coerce hs
  | list hitems ih =>
    rw [coerceRaw, Value.isLine_array, coerceItems_eq_map]
    intro item hitem
    obtain ⟨raw, hraw, rfl⟩ := List.mem_map.mp hitem
    exact ih raw hraw

end Literal

/-! ### Clauses -/

/-- A clause whose texts all are without line ends. -/
structure Clause.IsLine (c : Clause) : Prop where
  key : Text.IsLine c.key
  value : c.value.IsLine
  path : ∀ path ∈ c.path, Text.IsLine path

namespace Clause

variable {operators : Registry}

theorem isLine_readValue (hoperators : operators.KeepsLines) {key text : String} {v : Value}
    (hkey : Text.IsLine key) (htext : Text.IsLine text) (h : readValue operators key text = .ok v) :
    v.IsLine := by
  have hdollar : Text.IsLine "$" := by decide
  rw [readValue.eq_def] at h
  split at h
  · rename_i name argument happlies
    have hparts := (application?_eq_some_iff.mp happlies).parts
    rw [hparts] at htext
    obtain ⟨hfront, hargument⟩ := Text.lacks_append_iff.mp htext
    obtain ⟨hname, -⟩ := Text.lacks_append_iff.mp hfront
    split at h
    · cases h
    · rename_i operator hfind
      split at h
      · cases h
      · rename_i raw hraw
        cases h
        have hvalue := hoperators name operator argument key raw hfind hargument hkey hraw
        exact Value.isLine_field (hdollar.append hname) (Literal.isLine_coerceRaw hvalue)
  · cases h
    split
    · exact Value.isLine_string.mpr (hdollar.append htext)
    · exact Literal.isLine_coerce htext

theorem isLine_read (hoperators : operators.KeepsLines) {text : String} {c : Clause}
    (htext : Text.IsLine text) (h : Clause.read operators text = .ok c) : c.IsLine := by
  obtain ⟨key, value, v, hsplit, -, hvalue, rfl⟩ := exists_of_read h
  have hkey : Text.IsLine key := htext.of_mem_split (by rw [hsplit]; simp)
  have htail : Text.IsLine value := htext.of_mem_split (by rw [hsplit]; simp)
  refine ⟨hkey, isLine_readValue hoperators hkey htail hvalue, fun path hpath => ?_⟩
  replace hpath : path ∈ (path? value).toList := Option.mem_toList.mpr hpath
  rw [toList_path?] at hpath
  exact List.mem_singleton.mp (List.mem_filter.mp hpath).1 ▸ htail

theorem isLine_readGroups (hoperators : operators.KeepsLines) {args : String}
    {groups : List (List Clause)} (hargs : Text.IsLine args)
    (h : Clause.readGroups operators args = .ok groups) : ∀ group ∈ groups, ∀ c ∈ group, c.IsLine := by
  refine forall_of_mapM (fun text htext group hgroup => ?_) h
  have hgroup' : Text.IsLine text := hargs.of_mem_split (List.mem_filter.mp htext).1
  exact forall_of_mapM (fun alternative halternative c => isLine_read hoperators
    (hgroup'.of_mem_split halternative)) hgroup

theorem isLine_insertChoice {d : Document} (h : d.IsLine) {alternatives : List Value}
    (halternatives : Value.IsLine (.array alternatives)) : (insertChoice d alternatives).IsLine := by
  have hor : Text.IsLine "$or" := by decide
  have hand : Text.IsLine "$and" := by decide
  have hchoice : Value.IsLine (.document [("$or", .array alternatives)]) :=
    Value.isLine_field hor halternatives
  simp only [insertChoice]
  split
  · split
    · rename_i others hothers
      have hheld := Value.isLine_array.mp (h _ (Document.mem_of_get? hothers)).2
      refine h.insert hand (Value.isLine_array.mpr (List.forall_mem_append.mpr ⟨hheld, ?_⟩))
      exact List.forall_mem_singleton.mpr hchoice
    · exact h.insert hand (Value.isLine_array.mpr (List.forall_mem_singleton.mpr hchoice))
  · exact h.insert hor halternatives

theorem isLine_insertGroup {d : Document} (h : d.IsLine) {group : List Clause}
    (hgroup : ∀ c ∈ group, c.IsLine) : (insertGroup d group).IsLine := by
  rw [insertGroup.eq_def]
  split
  · rename_i c
    have hc := List.forall_mem_singleton.mp hgroup
    exact h.insert hc.key hc.value
  · refine isLine_insertChoice h (Value.isLine_array.mpr fun v hv => ?_)
    obtain ⟨c, hc, rfl⟩ := List.mem_map.mp hv
    exact Value.isLine_field (hgroup c hc).key (hgroup c hc).value

/-- **The body of clauses.** -/
theorem isLine_body {groups : List (List Clause)} (h : ∀ group ∈ groups, ∀ c ∈ group, c.IsLine) :
    (body groups).IsLine := by
  have hloop : ∀ (rest : List (List Clause)) (d : Document), d.IsLine →
      (∀ group ∈ rest, ∀ c ∈ group, c.IsLine) → (rest.foldl insertGroup d).IsLine := by
    intro rest
    induction rest with
    | nil => exact fun d hd _ => hd
    | cons group rest ih =>
      intro d hd hrest
      obtain ⟨hgroup, hmore⟩ := List.forall_mem_cons.mp hrest
      exact ih _ (isLine_insertGroup hd hgroup) hmore
  exact hloop groups [] Document.isLine_nil h

theorem isLine_paths {groups : List (List Clause)} (h : ∀ group ∈ groups, ∀ c ∈ group, c.IsLine) :
    ∀ path ∈ paths groups, Text.IsLine path := by
  intro path hpath
  obtain ⟨c, hc, hpath⟩ := List.mem_filterMap.mp hpath
  obtain ⟨group, hgroup, hc⟩ := List.mem_flatten.mp hc
  exact (h group hgroup c hc).path path hpath

end Clause

/-! ### Field lists -/

/-- What stands behind a leading character, or else the whole text. -/
theorem Text.isLine_getD_after {c : Char} {s : String} (h : Text.IsLine s) :
    Text.IsLine ((Text.after c s).getD s) := by
  cases hafter : Text.after c s with
  | none => exact h
  | some rest =>
    rw [Text.after_eq_some_iff.mp hafter] at h
    exact (Text.lacks_append_iff.mp h).2

namespace FieldList

/-- **The document of a field list.** -/
theorem isLine_toDocument (plain turned : Int32) {args : String} {fields : List (String × Bool)}
    (hargs : Text.IsLine args) (h : FieldList.read args = .ok fields) :
    (toDocument plain turned fields).IsLine := by
  refine Document.isLine_ofFields fun field hfield => ?_
  obtain ⟨⟨name, isPlain⟩, hmem, rfl⟩ := List.mem_map.mp hfield
  rw [eq_map_of_read h] at hmem
  obtain ⟨token, htoken, heq⟩ := List.mem_map.mp hmem
  cases heq
  have htoken' : Text.IsLine token := hargs.of_mem_split (List.mem_filter.mp htoken).1
  exact ⟨Text.isLine_getD_after htoken', Value.isLine_int32 _⟩

theorem isLine_keep {body : Document} (h : body.IsLine) {kept : OrderedSet String}
    (hkept : ∀ path ∈ kept.toList, Text.IsLine path) : (keep body kept).IsLine := by
  refine List.forall_mem_append.mpr ⟨h, fun field hfield => ?_⟩
  obtain ⟨path, hpath, rfl⟩ := List.mem_map.mp hfield
  exact ⟨hkept path (List.mem_filter.mp hpath).1, Value.isLine_int32 1⟩

end FieldList

/-! ### Stages -/

/-- The operators of stages are without line ends. -/
theorem Stage.isLine_of_body {s : Stage} (h : s.body.IsLine) : s.IsLine := by
  have hoperator : Text.IsLine s.kind.operator := by
    cases s.kind <;> decide
  exact Value.isLine_field hoperator h

theorem Stage.isLine_lookup {join : Lookup} (hsource : Text.IsLine join.source)
    (hlocal : Text.IsLine join.localField) (hforeign : Text.IsLine join.foreignField)
    (htarget : Text.IsLine join.target) : (Stage.lookup join).IsLine := by
  have hkeys : ∀ key ∈ ["from", "localField", "foreignField", "as"], Text.IsLine key := by decide
  simp only [List.forall_mem_cons] at hkeys
  obtain ⟨hkey₁, hkey₂, hkey₃, hkey₄, -⟩ := hkeys
  apply isLine_of_body
  refine Value.isLine_document.mpr fun field hfield => ?_
  simp only [List.mem_cons, List.not_mem_nil, or_false] at hfield
  obtain rfl | rfl | rfl | rfl := hfield
  · exact ⟨hkey₁, Value.isLine_string.mpr hsource⟩
  · exact ⟨hkey₂, Value.isLine_string.mpr hlocal⟩
  · exact ⟨hkey₃, Value.isLine_string.mpr hforeign⟩
  · exact ⟨hkey₄, Value.isLine_string.mpr htarget⟩

theorem Stage.isLine_unwind {path : String} (h : Text.IsLine path) : (Stage.unwind path).IsLine :=
  isLine_of_body (Value.isLine_string.mpr ((by decide : Text.IsLine "$").append h))

/-- A projection that drops one field. -/
theorem Stage.isLine_drop {field : String} (h : Text.IsLine field) : (Stage.drop field).IsLine :=
  isLine_of_body (Value.isLine_field h (Value.isLine_int32 0))

namespace JoinSpec

variable {known : Option String} {path descriptor : String} {spec : JoinSpec}

/-- The names of a join, and the path that it stands under. -/
structure IsLine (spec : JoinSpec) : Prop where
  plural : Text.IsLine spec.plural
  target : Text.IsLine spec.target
  localName : ∀ name ∈ spec.localName, Text.IsLine name
  path : Text.IsLine spec.path

theorem target_cases (spec : JoinSpec) :
    spec.target = spec.plural ∨ spec.singular = some spec.target := by
  rw [target.eq_def]
  cases spec.singular with
  | none => exact Or.inl rfl
  | some singular =>
    cases spec.isMany with
    | true => exact Or.inl rfl
    | false => exact Or.inr rfl

theorem isLine_of_read (hknown : ∀ name ∈ known, Text.IsLine name) (hpath : Text.IsLine path)
    (hdescriptor : Text.IsLine descriptor) (h : JoinSpec.read known path descriptor = .ok spec) :
    spec.IsLine := by
  have hnames := lacks_of_mem_joinNames hdescriptor
  have hplural := hnames _ (headD_mem_joinNames descriptor)
  have htarget : Text.IsLine spec.target := by
    obtain heq | hsingular := spec.target_cases
    · rw [heq, (names_of_read h).2.2]
      exact hplural
    · exact lacks_singular_of_read hdescriptor h hsingular
  obtain ⟨-, -, rfl⟩ := names_of_read h
  refine ⟨hplural, htarget, fun name hname => ?_, hpath⟩
  · obtain hgiven | ⟨-, hfound⟩ := Option.or_eq_some_iff.mp hname
    · exact hnames name (List.mem_of_getElem? hgiven)
    · exact hknown name hfound

/-- **Chains of joins.**  The path below each join is the field that the join before it attached. -/
theorem isLine_of_readChain (hknown : ∀ name ∈ known, Text.IsLine name) (hpath : Text.IsLine path)
    {descriptors : List String} (hdescriptors : ∀ d ∈ descriptors, Text.IsLine d)
    {specs : List JoinSpec} (h : readChain known path descriptors = .ok specs) :
    ∀ spec ∈ specs, spec.IsLine := by
  induction descriptors generalizing path specs with
  | nil =>
    cases h
    exact fun _ hspec => absurd hspec List.not_mem_nil
  | cons descriptor rest ih =>
    obtain ⟨hdescriptor, hrest⟩ := List.forall_mem_cons.mp hdescriptors
    rw [readChain] at h
    split at h
    · cases h
    · rename_i first hfirst
      obtain ⟨others, hothers, rfl⟩ := map_eq_ok_iff.mp h
      have hline := isLine_of_read hknown hpath hdescriptor hfirst
      exact List.forall_mem_cons.mpr
        ⟨hline, ih (hline.target.append (by decide)) hrest hothers⟩

/-- The stages of a join whose names are without line ends. -/
theorem IsLine.stages (h : spec.IsLine) : ∀ s ∈ spec.stages, s.IsLine := by
  have hid : Text.IsLine "_id" := by decide
  have hkey : Text.IsLine "id" := by decide
  have htarget := h.target
  rw [JoinSpec.stages]
  split
  · have hforeign : Text.IsLine (spec.localName.getD "" ++ "_id") := by
      cases hlocal : spec.localName with
      | none => exact hid
      | some name => exact (h.localName name hlocal).append hid
    exact List.forall_mem_singleton.mpr
      (Stage.isLine_lookup h.plural (h.path.append hkey) hforeign htarget)
  · have hjoin : (Stage.lookup ⟨spec.plural, spec.path ++ spec.target ++ "_id", "id",
        spec.target⟩).IsLine :=
      Stage.isLine_lookup h.plural ((h.path.append htarget).append hid) hkey htarget
    have hdrop : (Stage.dropIdentityAt spec.target).IsLine :=
      Stage.isLine_drop ((htarget.append (by decide)).append hid)
    simp only [List.forall_mem_cons]
    exact ⟨hjoin, Stage.isLine_unwind htarget, hdrop, fun _ hs => absurd hs List.not_mem_nil⟩

end JoinSpec

/-! ### Segments -/

/-- What a query is compiled under brings no line ends along. -/
structure CompileOptions.KeepsLines (options : CompileOptions) : Prop where
  collection : ∀ name ∈ options.collection, Text.IsLine name
  operators : options.operators.KeepsLines

namespace Segment

/-- A segment whose stages and paths are without line ends. -/
def IsLine : Segment → Prop
  | fixed stages paths => (∀ s ∈ stages, s.IsLine) ∧ ∀ path ∈ paths, Text.IsLine path
  | projection fields => Document.IsLine fields

/-- A stage on a document that is left out if the document is empty. -/
theorem isLine_ofBody {stage : Document → Stage} (hstage : ∀ body, (stage body).body = .document body)
    {body : Document} (h : body.IsLine) : ∀ s ∈ ofBody stage body, s.IsLine := by
  intro s hs
  obtain ⟨-, rfl⟩ := mem_ofBody_iff.mp hs
  apply Stage.isLine_of_body
  rw [hstage]
  exact Value.isLine_document.mpr h

theorem isLine_splitCode {text : String} (h : Text.IsLine text) :
    Text.IsLine (splitCode text).2 := by
  cases hcut : splitCode text with
  | mk code args =>
    obtain ⟨-, htext | ⟨-, hempty⟩⟩ := splitCode_eq_iff.mp hcut
    · rw [htext] at h
      exact (Text.lacks_append_iff.mp h).2
    · rw [hempty]
      show Text.IsLine ""
      decide

/-- **A segment that is read.** -/
theorem isLine_of_read {options : CompileOptions} (hoptions : options.KeepsLines) {text : String}
    (htext : Text.IsLine text) {segment : Segment} (h : Segment.read options text = .ok segment) :
    segment.IsLine := by
  obtain ⟨kind, hcode, hread⟩ := exists_kind_of_read h
  have hargs := isLine_splitCode htext
  have hnone : ∀ path ∈ ([] : List String), Text.IsLine path := fun _ hp => absurd hp List.not_mem_nil
  cases kind with
  | unwind =>
    obtain ⟨stage, hstage, rfl⟩ := map_eq_ok_iff.mp hread
    simp only [readUnwind] at hstage
    split at hstage
    · cases hstage
    · cases hstage
      exact ⟨List.forall_mem_singleton.mpr (Stage.isLine_unwind (Text.isLine_getD_after hargs)), hnone⟩
  | limit =>
    obtain ⟨n, -, rfl⟩ := map_eq_ok_iff.mp hread
    exact ⟨List.forall_mem_singleton.mpr (Stage.isLine_of_body (Value.isLine_int64 n)), hnone⟩
  | skip =>
    obtain ⟨n, -, rfl⟩ := map_eq_ok_iff.mp hread
    exact ⟨List.forall_mem_singleton.mpr (Stage.isLine_of_body (Value.isLine_int64 n)), hnone⟩
  | sample =>
    obtain ⟨n, -, rfl⟩ := map_eq_ok_iff.mp hread
    have hsize : Text.IsLine "size" := by decide
    exact ⟨List.forall_mem_singleton.mpr
      (Stage.isLine_of_body (Value.isLine_field hsize (Value.isLine_int64 n))), hnone⟩
  | matching =>
    obtain ⟨groups, hgroups, rfl⟩ := map_eq_ok_iff.mp hread
    have hlines := Clause.isLine_readGroups hoptions.operators hargs hgroups
    exact ⟨isLine_ofBody (fun _ => rfl) (Clause.isLine_body hlines), hnone⟩
  | addFields =>
    obtain ⟨groups, hgroups, rfl⟩ := map_eq_ok_iff.mp hread
    have hlines := Clause.isLine_readGroups hoptions.operators hargs hgroups
    exact ⟨isLine_ofBody (fun _ => rfl) (Clause.isLine_body hlines), Clause.isLine_paths hlines⟩
  | project =>
    obtain ⟨fields, hfields, rfl⟩ := map_eq_ok_iff.mp hread
    exact FieldList.isLine_toDocument 1 0 hargs hfields
  | sort =>
    obtain ⟨fields, hfields, rfl⟩ := map_eq_ok_iff.mp hread
    exact ⟨isLine_ofBody (fun _ => rfl) (FieldList.isLine_toDocument 1 (-1) hargs hfields), hnone⟩
  | count =>
    obtain ⟨stage, hstage, rfl⟩ := map_eq_ok_iff.mp hread
    rw [readCount] at hstage
    split at hstage
    · cases hstage
    · cases hstage
      exact ⟨List.forall_mem_singleton.mpr (Stage.isLine_of_body (Value.isLine_string.mpr hargs)), hnone⟩
  | lookup =>
    obtain ⟨specs, hspecs, rfl⟩ := map_eq_ok_iff.mp hread
    have hknown : ∀ name ∈ options.collection.bind singularize, Text.IsLine name := by
      intro singular hsingular
      obtain ⟨name, hname, hfound⟩ := Option.bind_eq_some_iff.mp hsingular
      exact lacks_of_singularize (hoptions.collection name hname) hfound
    have hlines := JoinSpec.isLine_of_readChain hknown (by decide)
      (fun d hd => hargs.of_mem_split (List.mem_filter.mp hd).1) hspecs
    refine ⟨fun s hs => ?_, hnone⟩
    obtain ⟨spec, hspec, hs⟩ := List.mem_flatMap.mp hs
    exact (hlines spec hspec).stages s hs

theorem IsLine.paths {segment : Segment} (h : segment.IsLine) :
    ∀ path ∈ segment.paths, Text.IsLine path := by
  cases segment with
  | fixed stages paths => exact h.2
  | projection fields => exact fun _ hpath => absurd hpath List.not_mem_nil

/-- One segment, behind paths without line ends. -/
theorem IsLine.stages {segment : Segment} (h : segment.IsLine) {kept : OrderedSet String}
    (hkept : ∀ path ∈ kept.toList, Text.IsLine path) : ∀ s ∈ segment.stages kept, s.IsLine := by
  cases segment with
  | fixed stages paths => exact h.1
  | projection fields => exact isLine_ofBody (fun _ => rfl) (FieldList.isLine_keep h hkept)

/-- **All segments.**  What they list for later projections is without line ends too. -/
theorem isLine_stagesOf {segments : List Segment} (h : ∀ segment ∈ segments, segment.IsLine)
    {kept : OrderedSet String} (hkept : ∀ path ∈ kept.toList, Text.IsLine path) :
    ∀ s ∈ stagesOf kept segments, s.IsLine := by
  induction segments generalizing kept with
  | nil => exact fun _ hs => absurd hs List.not_mem_nil
  | cons segment rest ih =>
    obtain ⟨hsegment, hrest⟩ := List.forall_mem_cons.mp h
    refine List.forall_mem_append.mpr ⟨hsegment.stages hkept, ih hrest fun path hpath => ?_⟩
    obtain hpath | hpath := OrderedSet.mem_toList_union.mp hpath
    · exact hkept path hpath
    · exact hsegment.paths path hpath

end Segment

/-- **Whole pipelines.**  A query without line ends compiles to stages without them, under a collection
and operators that bring none along. -/
theorem isLine_of_compile {options : CompileOptions} (hoptions : options.KeepsLines) {query : String}
    (hquery : Text.IsLine query) {p : Pipeline} (h : compile options query = .ok p) :
    ∀ s ∈ p, s.IsLine := by
  have hidentity : Stage.dropIdentity.IsLine := Stage.isLine_drop (by decide)
  rw [compile] at h
  split at h
  · cases h
    refine List.forall_mem_cons.mpr ⟨?_, List.forall_mem_singleton.mpr hidentity⟩
    exact Stage.isLine_of_body (Value.isLine_document.mpr Document.isLine_nil)
  · obtain ⟨segments, hsegments, rfl⟩ := map_eq_ok_iff.mp h
    have hlines : ∀ segment ∈ segments, segment.IsLine :=
      forall_of_mapM (fun text htext _ => Segment.isLine_of_read hoptions
        (hquery.of_mem_split (List.mem_filter.mp htext).1)) hsegments
    refine List.forall_mem_append.mpr ⟨?_, List.forall_mem_singleton.mpr hidentity⟩
    exact Segment.isLine_stagesOf hlines fun path hpath => absurd hpath List.not_mem_nil

end QueryPipeline
