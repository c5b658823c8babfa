import Mathlib.Data.List.Basic
import Mathlib.Tactic.SplitIfs
import QueryPipeline.Proofs.Listing
import QueryPipeline.Query.Compile

/-!
# Registering operators

A registry depends on what is registered last under each name and on nothing else: neither on the order of
the names nor on what was registered before.  It lists its names once, in the order of their bytes.

* `Text.bytes` — the bytes of a text; `Text.Below` — byte lists that differ before either of them ends;
* **`Text.bytes_lt_bytes`** — texts in order have their bytes in order;
* `Registry.last?` — what a sequence of registrations leaves under a name;
* **`Registry.find?_registerAll`**, `Registry.registerAll_congr` — what is found after the sequence;
* `CompileOptions.describe_eq` — the text of options for inspection;
* **`registerAll_of_same_last`** — sequences that leave the same operators.
-/

namespace QueryPipeline

/-! ### Texts in the order of their bytes -/

namespace Text

/-- The bytes of a text in UTF-8. -/
def bytes (s : String) : List UInt8 :=
  s.toUTF8.data.toList

theorem bytes_eq (s : String) : bytes s = s.toList.flatMap String.utf8EncodeChar := by
  rw [bytes, String.toUTF8_eq_toByteArray, ← String.utf8Encode_toList, List.utf8Encode,
    List.toList_data_toByteArray]

/-- Two byte lists differ before either of them ends, and the first has the smaller byte there. -/
def Below : List UInt8 → List UInt8 → Prop
  | a :: as, b :: bs => a < b ∨ a = b ∧ Below as bs
  | _, _ => False

theorem not_below_nil {bs : List UInt8} : Below [] bs ↔ False :=
  Iff.rfl

theorem below_ofNat_cons_iff {m n : Nat} (hm : m < 256) (hn : n < 256) {as bs : List UInt8} :
    Below (UInt8.ofNat m :: as) (UInt8.ofNat n :: bs) ↔ m < n ∨ m = n ∧ Below as bs := by
  rw [Below, UInt8.ofNat_lt_iff_lt hm hn, ← UInt8.toNat_inj, UInt8.toNat_ofNat_of_lt' hm,
    UInt8.toNat_ofNat_of_lt' hn]

/-- What follows a difference does not matter. -/
theorem Below.append_lt_append {as bs : List UInt8} (h : Below as bs) (xs ys : List UInt8) :
    as ++ xs < bs ++ ys := by
  induction as generalizing bs with
  | nil => exact h.elim
  | cons a as ih =>
    cases bs with
    | nil => exact h.elim
    | cons b bs =>
      rw [List.cons_append, List.cons_append, List.cons_lt_cons_iff]
      exact h.imp_right fun hrest => ⟨hrest.1, ih hrest.2⟩

/-- The greater of two numbers has the greater digit to the base 64 where they first differ. -/
theorem digits_lt_of_lt {m n : Nat} (h : m < n) :
    m / 262144 < n / 262144 ∨ m / 262144 = n / 262144 ∧ (m / 4096 % 64 < n / 4096 % 64
      ∨ m / 4096 % 64 = n / 4096 % 64 ∧ (m / 64 % 64 < n / 64 % 64
        ∨ m / 64 % 64 = n / 64 % 64 ∧ m % 64 < n % 64)) := by
  have hdigit : ∀ {a b : Nat}, a < b → a / 64 < b / 64 ∨ a / 64 = b / 64 ∧ a % 64 < b % 64 := by
    intro a b hab
    omega
  rw [show 262144 = 64 * 64 * 64 from rfl, show 4096 = 64 * 64 from rfl]
  simp only [← Nat.div_div_eq_div_mul]
  obtain hlt | ⟨heq, hlast⟩ := hdigit h
  · obtain hlt | ⟨heq, hthird⟩ := hdigit hlt
    · obtain hlt | ⟨heq, hsecond⟩ := hdigit hlt
      · exact Or.inl hlt
      · exact Or.inr ⟨heq, Or.inl hsecond⟩
    · rw [heq]
      exact Or.inr ⟨rfl, Or.inr ⟨rfl, Or.inl hthird⟩⟩
  · rw [heq]
    exact Or.inr ⟨rfl, Or.inr ⟨rfl, Or.inr ⟨rfl, hlast⟩⟩⟩

/-- The bytes of a character differ from those of a greater one before either of them ends. -/
theorem below_utf8EncodeChar {c d : Char} (h : c < d) :
    Below (String.utf8EncodeChar c) (String.utf8EncodeChar d) := by
  have hlt : c.val.toNat < d.val.toNat := h
  have hbound : d.val.toNat < 1114112 := by
    obtain hvalid | hvalid := d.valid
    · exact Nat.lt_trans hvalid (by decide)
    · exact hvalid.2
  have hdigits := digits_lt_of_lt hlt
  have hlead : c.val.toNat / 262144 % 8 = c.val.toNat / 262144 := by omega
  have hlead' : d.val.toNat / 262144 % 8 = d.val.toNat / 262144 := by omega
  simp only [String.utf8EncodeChar]
  generalize c.val.toNat = m at *
  generalize d.val.toNat = n at *
  -- first bytes tell different lengths apart, and the bytes of equal lengths are digits
  split_ifs <;>
    simp (disch := omega) only [below_ofNat_cons_iff, not_below_nil, and_false, or_false] <;> omega

/-- **Texts in order have their bytes in order.** -/
theorem bytes_lt_bytes {a b : String} (h : a < b) : bytes a < bytes b := by
  have hchars : ∀ {cs ds : List Char}, cs < ds →
      cs.flatMap String.utf8EncodeChar < ds.flatMap String.utf8EncodeChar := by
    intro cs
    induction cs with
    | nil =>
      intro ds hlt
      cases ds with
      | nil => exact absurd hlt (List.not_lt_nil _)
      | cons d ds =>
        rw [List.flatMap_nil, List.flatMap_cons]
        cases hd : String.utf8EncodeChar d with
        | nil => exact absurd hd String.utf8EncodeChar_ne_nil
        | cons byte rest => exact List.nil_lt_cons _ _
    | cons c cs ih =>
      intro ds hlt
      cases ds with
      | nil => exact absurd hlt (List.not_lt_nil _)
      | cons d ds =>
        rw [List.flatMap_cons, List.flatMap_cons]
        obtain hfirst | ⟨rfl, hrest⟩ := List.cons_lt_cons_iff.mp hlt
        · exact (below_utf8EncodeChar hfirst).append_lt_append _ _
        · exact List.append_left_lt (ih hrest)
  rw [bytes_eq, bytes_eq]
  exact hchars h

end Text

/-! ### Registrations one after the other -/

namespace Registry

variable {r : Registry} {operators : List (String × Operator)} {name : String}

/-- The operator that a sequence of registrations leaves under a name, if it registers one. -/
def last? (operators : List (String × Operator)) (name : String) : Option Operator :=
  List.lookup name operators.reverse

theorem last?_cons (entry : String × Operator) (operators : List (String × Operator)) (name : String) :
    last? (entry :: operators) name
      = (last? operators name).or (if name = entry.1 then some entry.2 else none) :=
  lookup_reverse_cons entry operators name

theorem isSome_last?_iff : (last? operators name).isSome ↔ name ∈ operators.map Prod.fst := by
  rw [last?, isSome_lookup_iff, List.map_reverse, List.mem_reverse]

theorem mem_names_iff : name ∈ r.names ↔ (r.find? name).isSome :=
  isSome_lookup_iff.symm

/-- **What is found after a sequence of registrations**: the last operator of the name, or the one that was
there before. -/
theorem find?_registerAll (r : Registry) (operators : List (String × Operator)) (name : String) :
    (r.registerAll operators).find? name = (last? operators name).or (r.find? name) := by
  induction operators generalizing r with
  | nil => rfl
  | cons entry operators ih =>
    show ((r.register entry.1 entry.2).registerAll operators).find? name = _
    rw [ih, find?_register, last?_cons, Option.or_assoc]
    congr 1
    split
    · rfl
    · rfl

/-- Sequences that leave the same operators lead to the same registry. -/
theorem registerAll_congr {operators' : List (String × Operator)}
    (h : ∀ name, last? operators name = last? operators' name) :
    r.registerAll operators = r.registerAll operators' := by
  apply ext_find?
  intro name
  rw [find?_registerAll, find?_registerAll, h]

/-- The names after a sequence of registrations are those from before and those of the sequence. -/
theorem mem_names_registerAll_iff :
    name ∈ (r.registerAll operators).names ↔ name ∈ r.names ∨ name ∈ operators.map Prod.fst := by
  rw [mem_names_iff, find?_registerAll, Option.isSome_or, Bool.or_eq_true, isSome_last?_iff, mem_names_iff,
    or_comm]

/-- The names of a registry stand in the order of their bytes. -/
theorem pairwise_bytes_names (r : Registry) :
    r.names.Pairwise fun a b => Text.bytes a < Text.bytes b :=
  List.pairwise_map.mpr (r.sorted.imp Text.bytes_lt_bytes)

theorem nodup_names (r : Registry) : r.names.Nodup :=
  List.pairwise_map.mpr (r.sorted.imp String.ne_of_lt)

/-- A registry inside a text for inspection shows its names in the order in which it lists them. -/
theorem describe_inside (r : Registry) (front : String) :
    front ++ ", operators: " ++ r.describe ++ " \x7d"
      = front ++ ", operators: OperatorRegistry \x7b operators: ["
        ++ ", ".intercalate (r.names.map Text.quoted) ++ "] \x7d \x7d" := by
  have hopening : ", operators: OperatorRegistry \x7b operators: ["
      = ", operators: " ++ "OperatorRegistry \x7b operators: [" := by decide
  have hclosing : "] \x7d \x7d" = "] \x7d" ++ " \x7d" := by decide
  have hassoc : ∀ a b c d e f : String,
      a ++ b ++ (c ++ d ++ e) ++ f = a ++ (b ++ c) ++ d ++ (e ++ f) := by
    intro a b c d e f
    simp only [String.append_assoc]
  rw [hopening, hclosing]
  exact hassoc ..

end Registry

/-- The options for inspection name the operators in the order in which their registry lists them. -/
theorem CompileOptions.describe_eq (collection : Option String) (r : Registry) :
    (CompileOptions.mk collection r).describe
      = "CompileOptions \x7b collection: "
        ++ (collection.elim "None" fun name => "Some(" ++ Text.quoted name ++ ")")
        ++ ", operators: OperatorRegistry \x7b operators: ["
        ++ ", ".intercalate (r.names.map Text.quoted) ++ "] \x7d \x7d" := by
  rw [← Registry.describe_inside]
  cases collection with
  | none => rfl
  | some name => rfl

/-- **Sequences of registrations that leave the same operators lead to the same registry**, whatever it
starts from.  It lists the names from before and those of the sequence, each once and in the order of
their bytes; it finds the last operator of each name, or the one from before; and neither its text for
inspection nor what any query compiles to tells the sequences apart. -/
theorem registerAll_of_same_last (r : Registry) {operators operators' : List (String × Operator)}
    (h : ∀ name, Registry.last? operators name = Registry.last? operators' name) :
    (r.registerAll operators).names = (r.registerAll operators').names
      ∧ (∀ name, name ∈ (r.registerAll operators).names
          ↔ name ∈ r.names ∨ name ∈ operators.map Prod.fst)
      ∧ (r.registerAll operators).names.Nodup
      ∧ (r.registerAll operators).names.Pairwise (fun a b => Text.bytes a < Text.bytes b)
      ∧ (∀ name, (r.registerAll operators).contains name = (r.registerAll operators').contains name
          ∧ ((r.registerAll operators).contains name ↔ name ∈ (r.registerAll operators).names))
      ∧ (∀ name, (r.registerAll operators).find? name = (r.registerAll operators').find? name
          ∧ (r.registerAll operators).find? name = (Registry.last? operators name).or (r.find? name))
      ∧ (∀ collection, (CompileOptions.mk collection (r.registerAll operators)).describe
            = (CompileOptions.mk collection (r.registerAll operators')).describe
          ∧ (CompileOptions.mk collection (r.registerAll operators)).describe
            = "CompileOptions \x7b collection: "
              ++ (collection.elim "None" fun name => "Some(" ++ Text.quoted name ++ ")")
              ++ ", operators: OperatorRegistry \x7b operators: ["
              ++ ", ".intercalate ((r.registerAll operators).names.map Text.quoted) ++ "] \x7d \x7d")
      ∧ ∀ collection query, compile ⟨collection, r.registerAll operators⟩ query
          = compile ⟨collection, r.registerAll operators'⟩ query := by
  have hsame : r.registerAll operators = r.registerAll operators' := Registry.registerAll_congr h
  refine ⟨by rw [hsame], fun name => Registry.mem_names_registerAll_iff, Registry.nodup_names _,
    Registry.pairwise_bytes_names _, fun name => ⟨by rw [hsame], Registry.mem_names_iff.symm⟩,
    fun name => ⟨by rw [hsame], Registry.find?_registerAll r operators name⟩,
    fun collection => ⟨by rw [hsame], CompileOptions.describe_eq collection _⟩,
    fun collection query => by rw [hsame]⟩

/-- Five registrations and three in another order, with a name that is there already, names that are
registered twice with different operators, and one that takes two bytes. -/
theorem registerAll_of_same_last_over_standard :
    ∃ operators operators' : List (String × Operator),
      operators.map Prod.fst = ["é", "in", "z", "in", "é"] ∧ operators'.map Prod.fst = ["z", "é", "in"]
      ∧ (∀ name, Registry.last? operators name = Registry.last? operators' name)
      ∧ (Registry.standard.registerAll operators').names = ["first", "in", "z", "é"]
      ∧ (CompileOptions.mk none (Registry.standard.registerAll operators')).describe
        = "CompileOptions \x7b collection: None, operators: OperatorRegistry \x7b operators: "
          ++ "[\"first\", \"in\", \"z\", \"é\"] \x7d \x7d"
      ∧ compile ⟨none, Registry.standard.registerAll operators'⟩ "m_a=é$1;2,b=in$c"
        = .ok [.matching [("a", .document [("$é", .array [.int32 1, .int32 2])]),
          ("b", .document [("$in", .string "$c")])], .dropIdentity] := by
  have hlast : ∀ name,
      Registry.last? [("é", Registry.firstOf), ("in", Registry.oneOf), ("z", Registry.oneOf),
        ("in", Registry.firstOf), ("é", Registry.oneOf)] name
      = Registry.last? [("z", Registry.oneOf), ("é", Registry.oneOf), ("in", Registry.firstOf)] name := by
    intro name
    by_cases hin : name = "in"
    · rw [hin]
      rfl
    · by_cases he : name = "é"
      · rw [he]
        rfl
      · simp [Registry.last?, List.lookup_cons, beq_eq_false_iff_ne.mpr hin, beq_eq_false_iff_ne.mpr he]
  obtain ⟨hnames, -, -, -, -, -, hdescribe, hcompile⟩ := registerAll_of_same_last Registry.standard hlast
  refine ⟨_, _, rfl, rfl, hlast, ?_, ?_, ?_⟩
  · rw [← hnames]
    decide +kernel
  · rw [← (hdescribe none).1]
    decide +kernel
  · rw [← hcompile]
    decide +kernel

end QueryPipeline
