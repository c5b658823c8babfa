import QueryPipeline.Decimal.Binary64

/-!
# Values and documents

The values that a document store computes with.  A `Document` lists its fields in order; putting a
field that is there already replaces its value and keeps its place.

* `Document.insert` puts one field, `Document.ofFields` a list of fields from left to right;
* `keys_insert` says where the keys of the result stand, `get?_insert` what they hold.
-/

namespace QueryPipeline

/-- A value of the document store. -/
inductive Value where
  | null
  | bool (b : Bool)
  | int32 (n : Int32)
  | int64 (n : Int64)
  | double (x : Binary64)
  | string (s : String)
  | array (items : List Value)
  | document (fields : List (String × Value))
deriving Repr, Inhabited

/-- Named values in order. -/
abbrev Document := List (String × Value)

/-! ### Equality is decidable -/

mutual

/-- Decides whether two values are equal. -/
def Value.decideEq : (v w : Value) → Decidable (v = w)
  | .null, .null => isTrue rfl
  | .bool a, .bool b => if h : a = b then isTrue (by rw [h]) else isFalse (by simpa using h)
  | .int32 a, .int32 b => if h : a = b then isTrue (by rw [h]) else isFalse (by simpa using h)
  | .int64 a, .int64 b => if h : a = b then isTrue (by rw [h]) else isFalse (by simpa using h)
  | .double a, .double b => if h : a = b then isTrue (by rw [h]) else isFalse (by simpa using h)
  | .string a, .string b => if h : a = b then isTrue (by rw [h]) else isFalse (by simpa using h)
  | .array a, .array b => match Value.decideItemsEq a b with
    | isTrue h => isTrue (by rw [h])
    | isFalse h => isFalse (by simpa using h)
  | .document a, .document b => match Value.decideFieldsEq a b with
    | isTrue h => isTrue (by rw [h])
    | isFalse h => isFalse (by simpa using h)
  | .null, .bool _ | .null, .int32 _ | .null, .int64 _ | .null, .double _ | .null, .string _
  | .null, .array _ | .null, .document _
  | .bool _, .null | .bool _, .int32 _ | .bool _, .int64 _ | .bool _, .double _
  | .bool _, .string _ | .bool _, .array _ | .bool _, .document _
  | .int32 _, .null | .int32 _, .bool _ | .int32 _, .int64 _ | .int32 _, .double _
  | .int32 _, .string _ | .int32 _, .array _ | .int32 _, .document _
  | .int64 _, .null | .int64 _, .bool _ | .int64 _, .int32 _ | .int64 _, .double _
  | .int64 _, .string _ | .int64 _, .array _ | .int64 _, .document _
  | .double _, .null | .double _, .bool _ | .double _, .int32 _ | .double _, .int64 _
  | .double _, .string _ | .double _, .array _ | .double _, .document _
  | .string _, .null | .string _, .bool _ | .string _, .int32 _ | .string _, .int64 _
  | .string _, .double _ | .string _, .array _ | .string _, .document _
  | .array _, .null | .array _, .bool _ | .array _, .int32 _ | .array _, .int64 _
  | .array _, .double _ | .array _, .string _ | .array _, .document _
  | .document _, .null | .document _, .bool _ | .document _, .int32 _ | .document _, .int64 _
  | .document _, .double _ | .document _, .string _ | .document _, .array _ =>
    isFalse (by simp)

/-- Decides whether two lists of values are equal. -/
def Value.decideItemsEq : (vs ws : List Value) → Decidable (vs = ws)
  | [], [] => isTrue rfl
  | v :: vs, w :: ws => match Value.decideEq v w, Value.decideItemsEq vs ws with
    | isTrue h, isTrue h' => isTrue (by rw [h, h'])
    | isFalse h, _ => isFalse (by simp [h])
    | _, isFalse h => isFalse (by simp [h])
  | [], _ :: _ | _ :: _, [] => isFalse (by simp)

/-- Decides whether two documents are equal. -/
def Value.decideFieldsEq : (d e : List (String × Value)) → Decidable (d = e)
  | [], [] => isTrue rfl
  | (k, v) :: d, (l, w) :: e =>
    match decEq k l, Value.decideEq v w, Value.decideFieldsEq d e with
    | isTrue h, isTrue h', isTrue h'' => isTrue (by rw [h, h', h''])
    | isFalse h, _, _ => isFalse (by simp [h])
    | _, isFalse h, _ => isFalse (by simp [h])
    | _, _, isFalse h => isFalse (by simp [h])
  | [], _ :: _ | _ :: _, [] => isFalse (by simp)

end

instance : DecidableEq Value := Value.decideEq

namespace Document

/-! ### Fields -/

/-- The names of the fields in order. -/
def keys (d : Document) : List String :=
  d.map Prod.fst

/-- The value of a field. -/
def get? (d : Document) (key : String) : Option Value :=
  List.lookup key d

/-- Whether there is a field of this name. -/
def contains (d : Document) (key : String) : Bool :=
  decide (key ∈ keys d)

/-- Puts a field: in the place of the field of that name, or behind the others. -/
def insert : Document → String → Value → Document
  | [], key, value => [(key, value)]
  | (k, v) :: rest, key, value =>
    if k = key then (k, value) :: rest else (k, v) :: insert rest key value

/-- Puts fields from left to right into a document. -/
def insertAll (d : Document) (fields : List (String × Value)) : Document :=
  fields.foldl (fun d field => insert d field.1 field.2) d

/-- The document of a list of fields that may name one field twice. -/
def ofFields (fields : List (String × Value)) : Document :=
  insertAll [] fields

/-! ### What putting a field does -/

@[simp] theorem keys_nil : keys [] = [] := rfl

@[simp] theorem keys_cons (field : String × Value) (d : Document) :
    keys (field :: d) = field.1 :: keys d := rfl

theorem keys_insert (d : Document) (key : String) (value : Value) :
    keys (insert d key value) = if key ∈ keys d then keys d else keys d ++ [key] := by
  induction d with
  | nil => simp [insert, keys]
  | cons field d ih =>
    obtain ⟨k, v⟩ := field
    by_cases h : k = key
    · simp [insert, h]
    · have h' : key ≠ k := fun he => h he.symm
      simp only [insert, h, if_false, keys_cons, ih, List.mem_cons, h', false_or]
      split <;> rfl

theorem get?_insert (d : Document) (key : String) (value : Value) (k : String) :
    get? (insert d key value) k = if k = key then some value else get? d k := by
  induction d with
  | nil =>
    by_cases h : k = key
    · simp [insert, get?, h]
    · have hk : (k == key) = false := by simpa using h
      simp [insert, get?, List.lookup_cons, hk, h]
  | cons field d ih =>
    obtain ⟨l, v⟩ := field
    simp only [get?] at ih
    by_cases hl : l = key
    · by_cases h : k = key
      · simp [insert, get?, hl, h]
      · have hk : (k == key) = false := by simpa using h
        simp [insert, get?, hl, List.lookup_cons, hk, h]
    · by_cases h : k = l
      · subst h
        simp [insert, get?, hl]
      · have hk : (k == l) = false := by simpa using h
        simp [insert, get?, hl, List.lookup_cons, hk, ih]

theorem nodup_keys_insert {d : Document} (h : (keys d).Nodup) (key : String) (value : Value) :
    (keys (insert d key value)).Nodup := by
  rw [keys_insert]
  split
  · exact h
  · rename_i hkey
    rw [List.nodup_append]
    refine ⟨h, by simp, ?_⟩
    intro k hk l hl hkl
    rw [List.mem_singleton.mp hl] at hkl
    exact hkey (hkl ▸ hk)

end Document

end QueryPipeline
