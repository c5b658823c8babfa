import Mathlib.Data.List.Nodup
import QueryPipeline.Rendering
import QueryPipeline.Proofs.JsonTexts
import QueryPipeline.Proofs.Validity

/-!
# The JSON text of a pipeline

JSON knows neither the widths of whole numbers nor the kinds of stages, and yet the JSON text of a pipeline
that a query compiles to tells the whole pipeline.

* `Value.isFinite_toJson` — every value has a JSON value whose numbers have numerals;
* `Json.value`, **`Value.value_toJson`** — a typed value can be read off its JSON value: its whole numbers
  are wide exactly if they have to be, and its floating-point numbers are finite;
* **`Stage.toJson_inj`** — a stage can be read off its JSON value, since each kind has an operator of its
  own, and the limits, skips and samples are always wide;
* **`render_json_inj`** — two pipelines with one JSON text are equal.
-/

namespace QueryPipeline

/-! ### Values -/

namespace Value

mutual

/-- Numbers that have no numeral become objects. -/
theorem isFinite_toJson : ∀ v : Value, v.toJson.IsFinite
  | .null => .null
  | .bool b => .bool b
  | .int32 n => .int n.toInt
  | .int64 n => .int n.toInt
  | .double x => by
    rw [toJson, Binary64.toJson]
    split
    · rename_i hfinite
      exact .real hfinite
    · apply Json.IsFinite.object
      intro field hfield
      rw [List.mem_singleton.mp hfield]
      exact .string _
  | .string s => .string s
  | .array items => .array (isFinite_of_mem_itemsToJson items)
  | .document fields => .object (isFinite_of_mem_fieldsToJson fields)

theorem isFinite_of_mem_itemsToJson : ∀ items : List Value, ∀ j ∈ itemsToJson items, j.IsFinite
  | [], _, hj => absurd hj List.not_mem_nil
  | item :: items, j, hj => by
    rw [itemsToJson] at hj
    obtain rfl | hj := List.mem_cons.mp hj
    · exact isFinite_toJson item
    · exact isFinite_of_mem_itemsToJson items j hj

theorem isFinite_of_mem_fieldsToJson :
    ∀ fields : List (String × Value), ∀ field ∈ fieldsToJson fields, field.2.IsFinite
  | [], _, hfield => absurd hfield List.not_mem_nil
  | (key, value) :: fields, field, hfield => by
    rw [fieldsToJson] at hfield
    obtain rfl | hfield := List.mem_cons.mp hfield
    · exact isFinite_toJson value
    · exact isFinite_of_mem_fieldsToJson fields field hfield

end

end Value

mutual

/-- The value that a JSON value is the JSON value of; a whole number is taken for the narrowest width that
holds it. -/
def Json.value : Json → Value
  | .null => .null
  | .bool b => .bool b
  | .int n => Literal.ofInt64 (Int64.ofInt n)
  | .real x => .double x
  | .string s => .string s
  | .array items => .array (Json.itemValues items)
  | .object fields => .document (Json.fieldValues fields)

/-- The values of the items of an array. -/
def Json.itemValues : List Json → List Value
  | [] => []
  | item :: items => Json.value item :: Json.itemValues items

/-- The values of the fields of an object. -/
def Json.fieldValues : List (String × Json) → List (String × Value)
  | [] => []
  | (key, item) :: fields => (key, Json.value item) :: Json.fieldValues fields

end

namespace Value

theorem itemValues_itemsToJson {items : List Value} (h : ∀ v ∈ items, v.toJson.value = v) :
    Json.itemValues (itemsToJson items) = items := by
  induction items with
  | nil => rfl
  | cons item items ih =>
    rw [itemsToJson, Json.itemValues, h item List.mem_cons_self,
      ih fun v hv => h v (List.mem_cons_of_mem _ hv)]

theorem fieldValues_fieldsToJson {fields : List (String × Value)}
    (h : ∀ field ∈ fields, field.2.toJson.value = field.2) :
    Json.fieldValues (fieldsToJson fields) = fields := by
  induction fields with
  | nil => rfl
  | cons field fields ih =>
    rw [fieldsToJson, Json.fieldValues, h field List.mem_cons_self,
      ih fun f hf => h f (List.mem_cons_of_mem _ hf)]

/-- **A typed value can be read off its JSON value.** -/
theorem value_toJson {v : Value} (h : v.IsTyped) : v.toJson.value = v := by
  induction h with
  | bool b => rfl
  | int32 n =>
    show Literal.ofInt64 (Int64.ofInt n.toInt) = .int32 n
    rw [← Int32.toInt_toInt64, Int64.ofInt_toInt,
      Literal.ofInt64_of_not_isWide (Literal.not_isWide_toInt64 n), Int32.toInt32_toInt64]
  | int64 hwide =>
    rw [toJson, Json.value, Int64.ofInt_toInt, Literal.ofInt64_of_isWide hwide]
  | double hfinite =>
    rw [toJson, Binary64.toJson, if_pos hfinite]
    rfl
  | string s => rfl
  | array hitems ih =>
    rw [toJson, Json.value, itemValues_itemsToJson ih]
  | document hkey hvalue ih =>
    rw [toJson, Json.value, fieldValues_fieldsToJson]
    exact fun field hfield => List.mem_singleton.mp hfield ▸ ih

end Value

/-! ### Stages -/

/-- No two kinds are written under one operator. -/
theorem StageKind.operator_inj {kind kind' : StageKind} (h : kind.operator = kind'.operator) :
    kind = kind' := by
  have hdistinct : (all.map operator).Nodup := by decide
  exact List.inj_on_of_nodup_map hdistinct (mem_all kind) (mem_all kind') h

namespace Stage

/-- Whether the documents of a stage hold nothing but typed values. -/
def IsTyped : Stage → Prop
  | matching body => ∀ field ∈ body, field.2.IsTyped
  | addFields body => ∀ field ∈ body, field.2.IsTyped
  | project body => ∀ field ∈ body, field.2.IsTyped
  | sort body => ∀ field ∈ body, field.2.IsTyped
  | _ => True

theorem ValidBefore.isTyped {stage : Stage} {after : List Stage} (h : stage.ValidBefore after) :
    stage.IsTyped := by
  cases stage with
  | matching body => exact h.2.values
  | addFields body => exact h.2.values
  | project body =>
    intro field hfield
    obtain hvalue | hvalue := h.2.values field hfield
    · exact hvalue ▸ Value.IsTyped.int32 0
    · exact hvalue ▸ Value.IsTyped.int32 1
  | sort body =>
    intro field hfield
    obtain hvalue | hvalue := h.2.values field hfield
    · exact hvalue ▸ Value.IsTyped.int32 1
    · exact hvalue ▸ Value.IsTyped.int32 (-1)
  | _ => trivial

/-- Documents of typed values can be read off their JSON values. -/
theorem fieldsToJson_inj {body body' : Document} (h : ∀ field ∈ body, field.2.IsTyped)
    (h' : ∀ field ∈ body', field.2.IsTyped)
    (hsame : Value.fieldsToJson body = Value.fieldsToJson body') : body = body' := by
  have hread := congrArg Json.fieldValues hsame
  rwa [Value.fieldValues_fieldsToJson fun field hfield => Value.value_toJson (h field hfield),
    Value.fieldValues_fieldsToJson fun field hfield => Value.value_toJson (h' field hfield)] at hread

/-- **A stage can be read off its JSON value.** -/
theorem toJson_inj {s t : Stage} (hs : s.IsTyped) (ht : t.IsTyped)
    (h : (Value.document s.toDocument).toJson = (Value.document t.toDocument).toJson) : s = t := by
  have hfield := (List.cons.inj (Json.object.inj h)).1
  have hkind : s.kind = t.kind := StageKind.operator_inj (Prod.mk.inj hfield).1
  have hbody : s.body.toJson = t.body.toJson := (Prod.mk.inj hfield).2
  -- two kinds differ in their operators, so that one case for each kind is left
  cases s <;> cases t <;> try cases hkind
  case unwind.unwind path path' =>
    have hpath : "$" ++ path = "$" ++ path' := Json.string.inj hbody
    rw [(String.append_right_inj "$").mp hpath]
  case limit.limit => rw [Int64.toInt_inj.mp (Json.int.inj hbody)]
  case skip.skip => rw [Int64.toInt_inj.mp (Json.int.inj hbody)]
  case matching.matching => rw [fieldsToJson_inj hs ht (Json.object.inj hbody)]
  case addFields.addFields => rw [fieldsToJson_inj hs ht (Json.object.inj hbody)]
  case sample.sample size size' =>
    have hsize := (List.cons.inj (Json.object.inj hbody)).1
    rw [Int64.toInt_inj.mp (Json.int.inj (Prod.mk.inj hsize).2)]
  case project.project => rw [fieldsToJson_inj hs ht (Json.object.inj hbody)]
  case sort.sort => rw [fieldsToJson_inj hs ht (Json.object.inj hbody)]
  case count.count => rw [Json.string.inj hbody]
  case lookup.lookup join join' =>
    simp only [body, Value.toJson, Value.fieldsToJson, Json.object.injEq, List.cons.injEq,
      Prod.mk.injEq, Json.string.injEq, true_and, and_true] at hbody
    obtain ⟨hsource, hlocal, hforeign, htarget⟩ := hbody
    obtain ⟨source, localField, foreignField, target⟩ := join
    subst hsource hlocal hforeign htarget
    rfl

end Stage

/-! ### Pipelines -/

namespace Pipeline

theorem IsValid.isTyped {p : Pipeline} (h : p.IsValid) : ∀ stage ∈ p, stage.IsTyped := by
  induction p with
  | nil => exact fun _ hstage => absurd hstage List.not_mem_nil
  | cons first rest ih =>
    intro stage hstage
    obtain rfl | hstage := List.mem_cons.mp hstage
    · exact h.1.isTyped
    · exact ih h.2 stage hstage

/-- Pipelines of such stages can be read off their JSON values. -/
theorem toJson_inj {p p' : Pipeline} (h : ∀ stage ∈ p, stage.IsTyped)
    (h' : ∀ stage ∈ p', stage.IsTyped) (hsame : p.toJson = p'.toJson) : p = p' := by
  replace hsame := Json.array.inj hsame
  induction p generalizing p' with
  | nil => exact (List.map_eq_nil_iff.mp hsame.symm).symm
  | cons stage p ih =>
    cases p' with
    | nil => cases hsame
    | cons stage' p' =>
      obtain ⟨hfirst, hrest⟩ := List.cons.inj hsame
      rw [Stage.toJson_inj (h stage List.mem_cons_self) (h' stage' List.mem_cons_self) hfirst,
        ih (fun s hs => h s (List.mem_cons_of_mem _ hs)) (fun s hs => h' s (List.mem_cons_of_mem _ hs))
          hrest]

theorem isFinite_toJson (p : Pipeline) : p.toJson.IsFinite := by
  refine .array fun item hitem => ?_
  obtain ⟨stage, -, rfl⟩ := List.mem_map.mp hitem
  exact Value.isFinite_toJson _

end Pipeline

/-- Whatever a query compiles to holds typed values, and so does the pipeline of the empty query. -/
theorem typed_of_compile {options : CompileOptions} {query : String} {p : Pipeline}
    (h : compile options query = .ok p) : ∀ stage ∈ p, stage.IsTyped := by
  have hidentity : Stage.dropIdentity.IsTyped := Stage.validBefore_dropIdentity.isTyped
  intro stage hstage
  rw [compile] at h
  split at h
  · cases h
    obtain rfl | hstage := List.mem_cons.mp hstage
    · exact fun field hfield => absurd hfield List.not_mem_nil
    · exact List.mem_singleton.mp hstage ▸ hidentity
  · obtain ⟨segments, hsegments, rfl⟩ := Reading.map_eq_ok_iff.mp h
    have hvalid : ∀ segment ∈ segments, segment.IsValid :=
      Reading.forall_of_mapM (fun _ _ _ => Segment.isValid_of_read) hsegments
    obtain hstage | hstage := List.mem_append.mp hstage
    · refine (Segment.isValid_stagesOf hvalid ?_).isTyped stage hstage
      exact fun path hpath => absurd hpath List.not_mem_nil
    · exact List.mem_singleton.mp hstage ▸ hidentity

/-- **Two pipelines with one JSON text are equal.**  The queries they are compiled from, the collections and
the operators may differ. -/
theorem render_json_inj {options options' : CompileOptions} {query query' : String} {p p' : Pipeline}
    (h : compile options query = .ok p) (h' : compile options' query' = .ok p')
    (hsame : p.render .json = p'.render .json) : p = p' := by
  have htext : p.write .json = p'.write .json := String.ofList_injective hsame
  have hjson : p.toJson = p'.toJson :=
    Json.write_inj p.isFinite_toJson p'.isFinite_toJson htext
  exact Pipeline.toJson_inj (typed_of_compile h) (typed_of_compile h') hjson

/-- Two spellings of one pipeline, with a negative zero, a wide number and a list. -/
theorem render_json_inj_respelled :
    ∃ p p', compile (.standard none) "m_a=-0.00,b=in$9999999999;'x'&l_03" = .ok p
      ∧ compile (.standard (some "shops")) "&m_a=-0.0,b=in$9999999999;x&&l_+3" = .ok p'
      ∧ p.render .json = p'.render .json ∧ p = p' := by
  have hcompile : ∃ p p', compile (.standard none) "m_a=-0.00,b=in$9999999999;'x'&l_03" = .ok p
      ∧ compile (.standard (some "shops")) "&m_a=-0.0,b=in$9999999999;x&&l_+3" = .ok p'
      ∧ p.render .json = p'.render .json :=
    ⟨[.matching [("a", .double ⟨true, 0⟩),
        ("b", .document [("$in", .array [.int64 9999999999, .string "x"])])], .limit 3, .dropIdentity],
      [.matching [("a", .double ⟨true, 0⟩),
        ("b", .document [("$in", .array [.int64 9999999999, .string "x"])])], .limit 3, .dropIdentity],
      by decide +kernel⟩
  obtain ⟨p, p', hp, hp', hsame⟩ := hcompile
  exact ⟨p, p', hp, hp', hsame, render_json_inj hp hp' hsame⟩

end QueryPipeline
