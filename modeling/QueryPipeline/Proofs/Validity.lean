import QueryPipeline.Proofs.Acceptance
import QueryPipeline.Proofs.Lifting
import QueryPipeline.Proofs.Listing
import QueryPipeline.Proofs.Tokens

/-!
# Pipelines that a store accepts

Every stage that a query compiles to is valid for its kind, whatever the query and whatever its operators
make of their arguments.

* `Value.IsTyped`, `Document.Holds` — the values that stand in bodies, and the documents of them;
* `Stage.ValidBefore`, **`Pipeline.IsValid`** — a join of one document is valid only in front of the stages
  that put the document in place, so that the validity of a stage depends on what follows;
* **`typed_body`**, **`holds_keep`**, **`isSound_of_read`** — the bodies of clauses and of field lists, and
  the joins;
* **`valid_of_compile`** — whole pipelines.
-/

namespace QueryPipeline

open Reading

/-- The values that clauses hold: what tokens denote, lists of such values, and documents that give one
name to one of them. -/
inductive Value.IsTyped : Value → Prop
  | bool (b : Bool) : IsTyped (.bool b)
  | int32 (n : Int32) : IsTyped (.int32 n)
  | int64 {n : Int64} (hwide : Literal.IsWide n) : IsTyped (.int64 n)
  | double {x : Binary64} (hfinite : x.isFinite = true) : IsTyped (.double x)
  | string (s : String) : IsTyped (.string s)
  | array {items : List Value} (hitems : ∀ v ∈ items, IsTyped v) : IsTyped (.array items)
  | document {key : String} {v : Value} (hkey : key ≠ "") (hvalue : IsTyped v) :
    IsTyped (.document [(key, v)])

/-- A document with distinct names that are not empty, whose fields hold values of one kind. -/
structure Document.Holds (d : Document) (kind : Value → Prop) : Prop where
  nodup : (keys d).Nodup
  named : ∀ key ∈ keys d, key ≠ ""
  values : ∀ field ∈ d, kind field.2

namespace Stage

/-- A number that a projection gives to a field. -/
def IsKept (v : Value) : Prop :=
  v = .int32 0 ∨ v = .int32 1

/-- A number that an ordering gives to a field. -/
def IsOrder (v : Value) : Prop :=
  v = .int32 1 ∨ v = .int32 (-1)

/-- A join of one document is followed by the stages that put it in place, and a join of many reads the
identifier of the document at hand and compares it with a reference to it. -/
structure JoinsAt (join : Lookup) (after : List Stage) : Prop where
  source_ne : join.source ≠ ""
  target_ne : join.target ≠ ""
  fields : (join.foreignField = "id" ∧ [unwind join.target, dropIdentityAt join.target] <+: after)
    ∨ ((∃ name, name ≠ "" ∧ join.foreignField = name ++ "_id")
      ∧ (join.localField = "id" ∨ ∃ path, join.localField = path ++ ".id"))

/-- Whether a stage is valid for its kind in front of the stages behind it. -/
def ValidBefore (after : List Stage) : Stage → Prop
  | unwind path => path ≠ ""
  | limit n => 1 ≤ n.toInt ∧ n.toInt ≤ 9223372036854775807
  | skip n => 0 ≤ n.toInt ∧ n.toInt ≤ 9223372036854775807
  | sample n => 1 ≤ n.toInt ∧ n.toInt ≤ 9223372036854775807
  | matching body => body ≠ [] ∧ Document.Holds body Value.IsTyped
  | addFields body => body ≠ [] ∧ Document.Holds body Value.IsTyped
  | project body => body ≠ [] ∧ Document.Holds body IsKept
  | sort body => body ≠ [] ∧ Document.Holds body IsOrder
  | count name => Grammar.IsCountField name
  | lookup join => JoinsAt join after

end Stage

/-- Every stage of a pipeline is valid where it stands. -/
def Pipeline.IsValid : Pipeline → Prop
  | [] => True
  | stage :: rest => stage.ValidBefore rest ∧ IsValid rest

/-! ### Pipelines in parts -/

theorem Stage.ValidBefore.append {stage : Stage} {after : List Stage} (h : stage.ValidBefore after)
    (more : List Stage) : stage.ValidBefore (after ++ more) := by
  cases stage with
  | lookup join =>
    obtain ⟨hsource, htarget, hfields⟩ := h
    refine ⟨hsource, htarget, hfields.imp_left fun hone => ⟨hone.1, ?_⟩⟩
    exact hone.2.trans (List.prefix_append after more)
  | _ => exact h

theorem Pipeline.isValid_append {p q : Pipeline} (hp : p.IsValid) (hq : q.IsValid) :
    Pipeline.IsValid (p ++ q) := by
  induction p with
  | nil => exact hq
  | cons stage p ih => exact ⟨hp.1.append q, ih hp.2⟩

theorem Pipeline.isValid_flatMap {α : Type} {as : List α} {f : α → Pipeline}
    (h : ∀ a ∈ as, (f a).IsValid) : Pipeline.IsValid (as.flatMap f) := by
  induction as with
  | nil => trivial
  | cons a as ih =>
    rw [List.flatMap_cons]
    exact isValid_append (h a List.mem_cons_self) (ih fun b hb => h b (List.mem_cons_of_mem a hb))

/-! ### Documents that are put together -/

namespace Document

variable {kind : Value → Prop} {d : Document}

theorem mem_of_get? {key : String} {value : Value} (h : get? d key = some value) : (key, value) ∈ d := by
  induction d with
  | nil => cases h
  | cons field d ih =>
    obtain ⟨k, v⟩ := field
    rw [get?_cons] at h
    split at h
    · rename_i hk
      cases h
      rw [hk]
      exact List.mem_cons_self
    · exact List.mem_cons_of_mem _ (ih h)

theorem mem_insert {key : String} {value : Value} {field : String × Value}
    (h : field ∈ insert d key value) : field = (key, value) ∨ field ∈ d := by
  induction d with
  | nil => exact Or.inl (List.mem_singleton.mp h)
  | cons first d ih =>
    obtain ⟨k, v⟩ := first
    rw [insert] at h
    split at h
    · rename_i hk
      obtain rfl | h := List.mem_cons.mp h
      · exact Or.inl (by rw [hk])
      · exact Or.inr (List.mem_cons_of_mem _ h)
    · obtain rfl | h := List.mem_cons.mp h
      · exact Or.inr List.mem_cons_self
      · exact (ih h).imp_right (List.mem_cons_of_mem _)

theorem holds_nil : Holds [] kind :=
  ⟨List.nodup_nil, fun _ h => absurd h List.not_mem_nil, fun _ h => absurd h List.not_mem_nil⟩

theorem Holds.insert (h : Holds d kind) {key : String} (hkey : key ≠ "") {value : Value}
    (hvalue : kind value) : Holds (insert d key value) kind := by
  refine ⟨nodup_keys_insert h.nodup key value, fun k hk => ?_, fun field hfield => ?_⟩
  · rw [keys_insert] at hk
    split at hk
    · exact h.named k hk
    · obtain hk | hk := List.mem_append.mp hk
      · exact h.named k hk
      · exact List.mem_singleton.mp hk ▸ hkey
  · obtain rfl | hfield := mem_insert hfield
    · exact hvalue
    · exact h.values field hfield

theorem holds_ofFields {fields : List (String × Value)} (hkeys : ∀ field ∈ fields, field.1 ≠ "")
    (hvalues : ∀ field ∈ fields, kind field.2) : Holds (ofFields fields) kind := by
  have hloop : ∀ (rest : List (String × Value)) (d : Document), Holds d kind →
      (∀ field ∈ rest, field.1 ≠ "" ∧ kind field.2) → Holds (insertAll d rest) kind := by
    intro rest
    induction rest with
    | nil => exact fun d hd _ => hd
    | cons field rest ih =>
      intro d hd hrest
      obtain ⟨hkey, hvalue⟩ := hrest field List.mem_cons_self
      exact ih _ (hd.insert hkey hvalue) fun f hf => hrest f (List.mem_cons_of_mem _ hf)
  exact hloop fields [] holds_nil fun field hfield => ⟨hkeys field hfield, hvalues field hfield⟩

theorem holds_singleton {key : String} (hkey : key ≠ "") {value : Value} (hvalue : kind value) :
    Holds [(key, value)] kind :=
  holds_nil.insert hkey hvalue

end Document

/-! ### Values of clauses -/

open Value (IsTyped)

theorem Literal.isTyped_of_isNumberText {token : String} {v : Value} (h : IsNumberText token v) :
    IsTyped v := by
  cases h with
  | int32 => exact IsTyped.int32 _
  | int64 _ hwide => exact IsTyped.int64 hwide
  | double hfinite => exact IsTyped.double hfinite

theorem Literal.isTyped_coerce (token : String) : IsTyped (coerce token) := by
  obtain ⟨v, hv⟩ := exists_denotes token
  rw [coerce_of_denotes hv]
  cases hv with
  | isTrue => exact IsTyped.bool true
  | isFalse => exact IsTyped.bool false
  | number htext => exact isTyped_of_isNumberText htext
  | quoted => exact IsTyped.string _
  | bare => exact IsTyped.string _

mutual

/-- Whatever an operator makes of its argument is typed. -/
theorem Literal.isTyped_coerceRaw : ∀ raw : RawValue, IsTyped (coerceRaw raw)
  | .token s => by
    rw [coerceRaw]
    exact isTyped_coerce s
  | .list items => by
    rw [coerceRaw]
    exact IsTyped.array (isTyped_of_mem_coerceItems items)

theorem Literal.isTyped_of_mem_coerceItems :
    ∀ (items : List RawValue), ∀ v ∈ coerceItems items, IsTyped v
  | [], v, hv => by
    rw [coerceItems] at hv
    exact absurd hv List.not_mem_nil
  | item :: items, v, hv => by
    rw [coerceItems] at hv
    obtain rfl | hv := List.mem_cons.mp hv
    · exact isTyped_coerceRaw item
    · exact isTyped_of_mem_coerceItems items v hv

end

namespace Clause

theorem isTyped_of_readValue {operators : Registry} {key text : String} {v : Value}
    (h : readValue operators key text = .ok v) : IsTyped v := by
  obtain ⟨name, raw, rfl⟩ | ⟨path, rfl⟩ | rfl := readValue_cases h
  · exact IsTyped.document (by simp) (Literal.isTyped_coerceRaw raw)
  · exact IsTyped.string _
  · exact Literal.isTyped_coerce text

/-- A clause with a key, and with a typed value. -/
def IsTyped (c : Clause) : Prop :=
  c.key ≠ "" ∧ c.value.IsTyped

theorem isTyped_of_read {operators : Registry} {text : String} {c : Clause}
    (h : read operators text = .ok c) : c.IsTyped := by
  obtain ⟨key, value, v, -, hkey, hv, rfl⟩ := exists_of_read h
  exact ⟨hkey, isTyped_of_readValue hv⟩

theorem isTyped_of_readGroups {operators : Registry} {args : String} {groups : List (List Clause)}
    (h : readGroups operators args = .ok groups) : ∀ group ∈ groups, ∀ c ∈ group, c.IsTyped :=
  forall_of_mapM (fun _ _ _ hgroup => forall_of_mapM (fun _ _ _ hclause => isTyped_of_read hclause) hgroup) h

theorem isTyped_alternatives {group : List Clause} (h : ∀ c ∈ group, c.IsTyped) :
    Value.IsTyped (.array (group.map fun c => .document c.toDocument)) := by
  apply Value.IsTyped.array
  intro v hv
  obtain ⟨c, hc, rfl⟩ := List.mem_map.mp hv
  exact Value.IsTyped.document (h c hc).1 (h c hc).2

theorem typed_insertChoice {d : Document} (h : d.Holds Value.IsTyped) {alternatives : List Value}
    (halternatives : Value.IsTyped (.array alternatives)) :
    (insertChoice d alternatives).Holds Value.IsTyped := by
  have hchoice : Value.IsTyped (.document [("$or", .array alternatives)]) :=
    Value.IsTyped.document (by decide) halternatives
  simp only [insertChoice]
  split
  · split
    · rename_i others hand
      refine h.insert (by decide) (Value.IsTyped.array fun v hv => ?_)
      obtain hv | hv := List.mem_append.mp hv
      · cases h.values _ (Document.mem_of_get? hand) with
        | array hitems => exact hitems v hv
      · exact List.mem_singleton.mp hv ▸ hchoice
    · refine h.insert (by decide) (Value.IsTyped.array fun v hv => ?_)
      exact List.mem_singleton.mp hv ▸ hchoice
  · exact h.insert (by decide) halternatives

theorem typed_insertGroup {d : Document} (h : d.Holds Value.IsTyped) {group : List Clause}
    (hgroup : ∀ c ∈ group, c.IsTyped) : (insertGroup d group).Holds Value.IsTyped := by
  rw [insertGroup.eq_def]
  split
  · rename_i c
    obtain ⟨hkey, hvalue⟩ := hgroup c (List.mem_singleton.mpr rfl)
    exact h.insert hkey hvalue
  · exact typed_insertChoice h (isTyped_alternatives hgroup)

/-- The body of groups holds typed values under names that are distinct and not empty. -/
theorem typed_body {groups : List (List Clause)} (h : ∀ group ∈ groups, ∀ c ∈ group, c.IsTyped) :
    (body groups).Holds Value.IsTyped := by
  have hloop : ∀ (rest : List (List Clause)) (d : Document), d.Holds Value.IsTyped →
      (∀ group ∈ rest, ∀ c ∈ group, c.IsTyped) → (rest.foldl insertGroup d).Holds Value.IsTyped := by
    intro rest
    induction rest with
    | nil => exact fun d hd _ => hd
    | cons group rest ih =>
      intro d hd hrest
      exact ih _ (typed_insertGroup hd (hrest group List.mem_cons_self))
        fun g hg => hrest g (List.mem_cons_of_mem _ hg)
  exact hloop groups [] Document.holds_nil h

end Clause

/-! ### Field lists -/

namespace FieldList

theorem named_of_readField {token : String} {field : String × Bool}
    (h : readField token = .ok field) : field.1 ≠ "" := by
  rw [readField_eq] at h
  split at h
  · cases h
  · rename_i hname
    cases h
    exact hname

/-- The document of a field list holds the two numbers that it is made with. -/
theorem holds_toDocument {kind : Value → Prop} {plain turned : Int32} (hplain : kind (.int32 plain))
    (hturned : kind (.int32 turned)) {args : String} {fields : List (String × Bool)}
    (h : FieldList.read args = .ok fields) : (toDocument plain turned fields).Holds kind := by
  have hnamed : ∀ field ∈ fields, field.1 ≠ "" :=
    forall_of_mapM (fun _ _ _ hfield => named_of_readField hfield) h
  apply Document.holds_ofFields
  · intro field hfield
    obtain ⟨source, hsource, rfl⟩ := List.mem_map.mp hfield
    exact hnamed source hsource
  · intro field hfield
    obtain ⟨⟨name, isPlain⟩, -, rfl⟩ := List.mem_map.mp hfield
    cases isPlain with
    | true => exact hplain
    | false => exact hturned

/-- A projection that keeps paths is still one. -/
theorem holds_keep {body : Document} (h : body.Holds Stage.IsKept) {kept : OrderedSet String}
    (hkept : ∀ path ∈ kept.toList, path ≠ "") : (keep body kept).Holds Stage.IsKept := by
  refine ⟨nodup_keys_keep h.nodup kept, fun key hkey => ?_, fun field hfield => ?_⟩
  · rw [keys_keep] at hkey
    obtain hkey | hkey := List.mem_append.mp hkey
    · exact h.named key hkey
    · exact hkept key (List.mem_filter.mp hkey).1
  · obtain hfield | hfield := List.mem_append.mp hfield
    · exact h.values field hfield
    · obtain ⟨path, -, rfl⟩ := List.mem_map.mp hfield
      exact Or.inr rfl

end FieldList

/-! ### Joins -/

theorem ne_empty_of_singularize {name singular : String} (h : singularize name = some singular) :
    singular ≠ "" := by
  rw [singularize] at h
  split at h
  · cases h
  · rename_i hrest
    cases h
    simpa using hrest

namespace JoinSpec

/-- A join whose names are not empty, below a path that ends in its dot. -/
structure IsSound (spec : JoinSpec) : Prop where
  plural_ne : spec.plural ≠ ""
  target_ne : spec.target ≠ ""
  local_ne : spec.isMany = true → ∃ name, name ≠ "" ∧ spec.localName = some name
  path_dotted : spec.path = "" ∨ ∃ parent, spec.path = parent ++ "."

/-- A name that is given, or else found, is not empty. -/
theorem ne_empty_of_getElem?_or {names : List String} (hnames : "" ∉ names) {i : Nat}
    {other : Option String} (hother : ∀ name, other = some name → name ≠ "") {name : String}
    (h : names[i]?.or other = some name) : name ≠ "" := by
  obtain hname | ⟨-, hname⟩ := Option.or_eq_some_iff.mp h
  · rintro rfl
    exact hnames (List.mem_of_getElem? hname)
  · exact hother name hname

/-- **A join that is read is sound.** -/
theorem isSound_of_read {collection : Option String} {path descriptor : String} {spec : JoinSpec}
    (hpath : path = "" ∨ ∃ parent, path = parent ++ ".")
    (h : JoinSpec.read (collection.bind singularize) path descriptor = .ok spec) : spec.IsSound := by
  rw [Acceptance.read_eq] at h
  split at h
  · cases h
  split at h
  · cases h
  rename_i hnames
  split at h
  · cases h
  split at h
  · cases h
  rename_i hlocal
  cases h
  have hplural : (Grammar.joinNames descriptor).headD "" ≠ "" := by
    cases hsplit : Grammar.joinNames descriptor with
    | nil => exact absurd hsplit (Text.split_ne_nil '|' _)
    | cons plural rest =>
      rw [hsplit] at hnames
      exact fun hempty => hnames (hempty ▸ List.mem_cons_self)
  refine ⟨hplural, ?_, fun hmany => ?_, hpath⟩
  · rw [target.eq_def]
    split
    · rename_i singular _ hsingular _
      exact ne_empty_of_getElem?_or hnames (fun _ => ne_empty_of_singularize) hsingular
    · exact hplural
  · replace hmany : Grammar.joinsMany descriptor = true := hmany
    rw [hmany, Bool.true_and, Bool.not_eq_true, Option.isNone_eq_false_iff,
      Option.isSome_iff_exists] at hlocal
    obtain ⟨name, hname⟩ := hlocal
    refine ⟨name, ne_empty_of_getElem?_or hnames (fun singular hsingular => ?_) hname, hname⟩
    obtain ⟨_, -, hsingular⟩ := Option.bind_eq_some_iff.mp hsingular
    exact ne_empty_of_singularize hsingular

/-- Every join of a chain is sound: all but the first stand below the target of the one before. -/
theorem isSound_of_readChain {collection : Option String} {path : String}
    (hpath : path = "" ∨ ∃ parent, path = parent ++ ".") {descriptors : List String}
    {specs : List JoinSpec}
    (h : readChain (collection.bind singularize) path descriptors = .ok specs) :
    ∀ spec ∈ specs, spec.IsSound := by
  induction descriptors generalizing path specs with
  | nil =>
    cases h
    exact fun _ hspec => absurd hspec List.not_mem_nil
  | cons descriptor rest ih =>
    rw [readChain] at h
    split at h
    · cases h
    · rename_i first hfirst
      obtain ⟨others, hothers, rfl⟩ := map_eq_ok_iff.mp h
      intro spec hspec
      obtain rfl | hspec := List.mem_cons.mp hspec
      · exact isSound_of_read hpath hfirst
      · exact ih (Or.inr ⟨first.target, rfl⟩) hothers spec hspec

/-- The stages of a sound join are valid. -/
theorem IsSound.isValid_stages {spec : JoinSpec} (h : spec.IsSound) : Pipeline.IsValid spec.stages := by
  rw [stages]
  split
  · rename_i hmany
    obtain ⟨name, hname, hlocal⟩ := h.local_ne hmany
    refine ⟨⟨h.plural_ne, h.target_ne, Or.inr ⟨⟨name, hname, ?_⟩, ?_⟩⟩, trivial⟩
    · rw [hlocal, Option.getD_some]
    · obtain hpath | ⟨parent, hpath⟩ := h.path_dotted
      · exact Or.inl (by rw [hpath, String.empty_append])
      · refine Or.inr ⟨parent, ?_⟩
        rw [hpath, String.append_assoc]
        rfl
  · refine ⟨⟨h.plural_ne, h.target_ne, Or.inl ⟨rfl, List.prefix_refl _⟩⟩, h.target_ne, ?_, trivial⟩
    exact ⟨List.cons_ne_nil _ _, Document.holds_singleton (by simp) (Or.inl rfl)⟩

end JoinSpec

/-! ### Segments -/

namespace Segment

/-- The stages of a segment are valid, or its fields are those of a projection; no path is empty. -/
def IsValid : Segment → Prop
  | fixed stages paths => Pipeline.IsValid stages ∧ ∀ path ∈ paths, path ≠ ""
  | projection fields => Document.Holds fields Stage.IsKept

/-- A stage that is left out for an empty body is valid. -/
theorem isValid_ofBody {stage : Document → Stage} {body : Document}
    (h : body ≠ [] → (stage body).ValidBefore []) : Pipeline.IsValid (ofBody stage body) := by
  cases body with
  | nil => trivial
  | cons field body => exact ⟨h (List.cons_ne_nil _ _), trivial⟩

theorem toInt_of_readAmount {kind : StageKind} {least : Int} {text : String} {n : Int64}
    (h : readAmount kind least text = .ok n) : least ≤ n.toInt ∧ n.toInt ≤ 9223372036854775807 := by
  rw [readAmount] at h
  split at h
  · rename_i word hword
    cases h
    exact ⟨by simpa using (Option.filter_eq_some_iff.mp hword).2, Int64.toInt_le n⟩
  · cases h

theorem ne_empty_of_mem_liftedPaths {segment : String × String} {path : String}
    (h : path ∈ Query.liftedPaths segment) : path ≠ "" := by
  rintro rfl
  exact absurd (Query.isPath_of_mem_liftedPaths h).dotted (by simp)

/-- **A segment that is read is valid.** -/
theorem isValid_of_read {options : CompileOptions} {text : String} {segment : Segment}
    (h : Segment.read options text = .ok segment) : segment.IsValid := by
  obtain ⟨kind, hcode, hargs⟩ := exists_kind_of_read h
  have hpaths : ∀ path ∈ segment.paths, path ≠ "" := by
    rw [paths_of_read h]
    exact fun path => ne_empty_of_mem_liftedPaths
  cases kind with
  | unwind =>
    obtain ⟨stage, hstage, rfl⟩ := map_eq_ok_iff.mp hargs
    simp only [readUnwind] at hstage
    split at hstage
    · cases hstage
    · rename_i hpath
      cases hstage
      exact ⟨⟨hpath, trivial⟩, hpaths⟩
  | limit =>
    obtain ⟨n, hn, rfl⟩ := map_eq_ok_iff.mp hargs
    exact ⟨⟨toInt_of_readAmount hn, trivial⟩, hpaths⟩
  | skip =>
    obtain ⟨n, hn, rfl⟩ := map_eq_ok_iff.mp hargs
    exact ⟨⟨toInt_of_readAmount hn, trivial⟩, hpaths⟩
  | sample =>
    obtain ⟨n, hn, rfl⟩ := map_eq_ok_iff.mp hargs
    exact ⟨⟨toInt_of_readAmount hn, trivial⟩, hpaths⟩
  | matching =>
    obtain ⟨groups, hgroups, rfl⟩ := map_eq_ok_iff.mp hargs
    have hbody := Clause.typed_body (Clause.isTyped_of_readGroups hgroups)
    exact ⟨isValid_ofBody fun hne => ⟨hne, hbody⟩, hpaths⟩
  | addFields =>
    obtain ⟨groups, hgroups, rfl⟩ := map_eq_ok_iff.mp hargs
    have hbody := Clause.typed_body (Clause.isTyped_of_readGroups hgroups)
    exact ⟨isValid_ofBody fun hne => ⟨hne, hbody⟩, hpaths⟩
  | project =>
    obtain ⟨fields, hfields, rfl⟩ := map_eq_ok_iff.mp hargs
    exact FieldList.holds_toDocument (Or.inr rfl) (Or.inl rfl) hfields
  | sort =>
    obtain ⟨fields, hfields, rfl⟩ := map_eq_ok_iff.mp hargs
    have hbody : Document.Holds (FieldList.toDocument 1 (-1) fields) Stage.IsOrder :=
      FieldList.holds_toDocument (Or.inl rfl) (Or.inr rfl) hfields
    exact ⟨isValid_ofBody fun hne => ⟨hne, hbody⟩, hpaths⟩
  | count =>
    obtain ⟨stage, hstage, rfl⟩ := map_eq_ok_iff.mp hargs
    have hname : Grammar.IsCountField (splitCode text).2 :=
      (Acceptance.decides_readCount _).ok_iff.mp ⟨stage, hstage⟩
    rw [readCount] at hstage
    split at hstage
    · cases hstage
    · cases hstage
      exact ⟨⟨hname, trivial⟩, hpaths⟩
  | lookup =>
    obtain ⟨specs, hspecs, rfl⟩ := map_eq_ok_iff.mp hargs
    refine ⟨Pipeline.isValid_flatMap fun spec hspec => ?_, hpaths⟩
    exact (JoinSpec.isSound_of_readChain (Or.inl rfl) hspecs spec hspec).isValid_stages

/-- One segment emits valid stages behind any paths that are not empty. -/
theorem IsValid.isValid_stages {segment : Segment} (h : segment.IsValid) {kept : OrderedSet String}
    (hkept : ∀ path ∈ kept.toList, path ≠ "") : Pipeline.IsValid (segment.stages kept) := by
  cases segment with
  | fixed stages paths => exact h.1
  | projection fields => exact isValid_ofBody fun hne => ⟨hne, FieldList.holds_keep h hkept⟩

theorem IsValid.paths_ne_empty {segment : Segment} (h : segment.IsValid) :
    ∀ path ∈ segment.paths, path ≠ "" := by
  cases segment with
  | fixed stages paths => exact h.2
  | projection fields => exact fun _ hpath => absurd hpath List.not_mem_nil

/-- **All segments.**  The paths that are kept stay valid names from segment to segment. -/
theorem isValid_stagesOf {segments : List Segment} (h : ∀ segment ∈ segments, segment.IsValid)
    {kept : OrderedSet String} (hkept : ∀ path ∈ kept.toList, path ≠ "") :
    Pipeline.IsValid (stagesOf kept segments) := by
  induction segments generalizing kept with
  | nil => trivial
  | cons segment rest ih =>
    have hsegment := h segment List.mem_cons_self
    rw [stagesOf]
    apply Pipeline.isValid_append (hsegment.isValid_stages hkept)
    apply ih fun s hs => h s (List.mem_cons_of_mem _ hs)
    intro path hpath
    obtain hpath | hpath := OrderedSet.mem_toList_union.mp hpath
    · exact hkept path hpath
    · exact hsegment.paths_ne_empty path hpath

end Segment

/-! ### Pipelines -/

theorem Stage.validBefore_dropIdentity : Stage.dropIdentity.ValidBefore [] :=
  ⟨List.cons_ne_nil _ _, Document.holds_singleton (by decide) (Or.inl rfl)⟩

/-- **Whole pipelines.**  Every query that compiles ends in the projection that drops the identity, and
every stage is valid where it stands.  The one stage with an empty body is the match of the empty
query. -/
theorem valid_of_compile {options : CompileOptions} {query : String} {p : Pipeline}
    (h : compile options query = .ok p) :
    p.getLast? = some (.project [("_id", .int32 0)])
      ∧ (query = "" → p = [.matching [], .project [("_id", .int32 0)]])
      ∧ (query ≠ "" → p.IsValid) := by
  rw [compile] at h
  split at h
  · rename_i hquery
    cases h
    exact ⟨rfl, fun _ => rfl, fun hne => absurd hquery hne⟩
  · rename_i hquery
    obtain ⟨segments, hsegments, rfl⟩ := map_eq_ok_iff.mp h
    refine ⟨List.getLast?_concat, fun hempty => absurd hempty hquery, fun _ => ?_⟩
    have hvalid : ∀ segment ∈ segments, segment.IsValid :=
      forall_of_mapM (fun _ _ _ => Segment.isValid_of_read) hsegments
    refine Pipeline.isValid_append (Segment.isValid_stagesOf hvalid ?_)
      ⟨Stage.validBefore_dropIdentity, trivial⟩
    exact fun path hpath => absurd hpath List.not_mem_nil

/-- A list under an operator, a kept path, and a join below the target of another. -/
theorem valid_of_compile_nested_join :
    ∃ p, compile (.standard (some "shops")) "a_x=v.w|y=in$1;9999999999;a.b&f_users,+orders&p_-id&k_0"
        = .ok p
      ∧ p.kinds = [.addFields, .lookup, .unwind, .project, .lookup, .project, .skip, .project]
      ∧ p.IsValid := by
  have hcompile : ∃ p, compile (.standard (some "shops"))
        "a_x=v.w|y=in$1;9999999999;a.b&f_users,+orders&p_-id&k_0" = .ok p
      ∧ p.kinds = [.addFields, .lookup, .unwind, .project, .lookup, .project, .skip, .project] :=
    ⟨[.addFields [("$or", .array [.document [("x", .string "$v.w")],
        .document [("y", .document [("$in", .array [.int32 1, .int64 9999999999, .string "a.b"])])]])],
      .lookup ⟨"users", "user_id", "id", "user"⟩, .unwind "user", .project [("user._id", .int32 0)],
      .lookup ⟨"orders", "user.id", "shop_id", "orders"⟩,
      .project [("id", .int32 0), ("v.w", .int32 1)], .skip 0, .dropIdentity], by decide +kernel⟩
  obtain ⟨p, hp, hkinds⟩ := hcompile
  obtain ⟨-, -, hvalid⟩ := valid_of_compile hp
  exact ⟨p, hp, hkinds, hvalid (by decide)⟩

end QueryPipeline
