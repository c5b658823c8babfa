import QueryPipeline.Literal
import QueryPipeline.Text.Quoted

/-!
# Operators

A clause value `name$argument` applies a named operator, which turns the argument into the raw value
that is then typed.  A `Registry` holds the operators by name, in the order of their names, so that it
depends only on what is registered last under each name.

* `Registry.register` adds or replaces an operator, and `find?_register` says what is found then;
* `Registry.ext_find?` says that registries that find the same operators are the same;
* `Registry.standard` holds the operators `in` and `first`.
-/

namespace QueryPipeline

/-- The refusal of an argument by an operator. -/
structure OperatorError where
  message : String
deriving DecidableEq, Repr

/-- An operator takes the argument and the key of the clause. -/
abbrev Operator := String → String → Except OperatorError RawValue

/-- Operators by name, in increasing order of the names. -/
structure Registry where
  /-- The names with their operators. -/
  entries : List (String × Operator)
  /-- The names increase, so none is repeated. -/
  sorted : entries.Pairwise (fun e f => e.1 < f.1)

namespace Registry

/-! ### Entries in order -/

/-- Puts an entry into its place, instead of the entry of that name if there is one. -/
def insertEntry (name : String) (operator : Operator) :
    List (String × Operator) → List (String × Operator)
  | [] => [(name, operator)]
  | entry :: rest =>
    if name < entry.1 then (name, operator) :: entry :: rest
    else if entry.1 < name then entry :: insertEntry name operator rest
    else (name, operator) :: rest

theorem eq_of_not_lt {a b : String} (h : ¬ a < b) (h' : ¬ b < a) : a = b :=
  String.le_antisymm (String.not_lt.mp h') (String.not_lt.mp h)

theorem mem_insertEntry {name : String} {operator : Operator} {entries : List (String × Operator)}
    {entry : String × Operator} (h : entry ∈ insertEntry name operator entries) :
    entry = (name, operator) ∨ entry ∈ entries := by
  induction entries with
  | nil => exact Or.inl (List.mem_singleton.mp h)
  | cons first rest ih =>
    unfold insertEntry at h
    split at h
    · simpa using h
    · split at h
      · rcases List.mem_cons.mp h with h | h
        · exact Or.inr (h ▸ List.mem_cons_self)
        · exact (ih h).imp_right (List.mem_cons_of_mem _)
      · rcases List.mem_cons.mp h with h | h
        · exact Or.inl h
        · exact Or.inr (List.mem_cons_of_mem _ h)

theorem sorted_insertEntry (name : String) (operator : Operator)
    {entries : List (String × Operator)} (h : entries.Pairwise (fun e f => e.1 < f.1)) :
    (insertEntry name operator entries).Pairwise (fun e f => e.1 < f.1) := by
  induction entries with
  | nil => simp [insertEntry]
  | cons first rest ih =>
    obtain ⟨hfirst, hrest⟩ := List.pairwise_cons.mp h
    unfold insertEntry
    split
    · rename_i hlt
      refine List.pairwise_cons.mpr ⟨?_, h⟩
      intro entry hentry
      rcases List.mem_cons.mp hentry with he | he
      · exact he ▸ hlt
      · exact String.lt_trans hlt (hfirst entry he)
    · split
      · rename_i hlt
        refine List.pairwise_cons.mpr ⟨?_, ih hrest⟩
        intro entry hentry
        rcases mem_insertEntry hentry with he | he
        · exact he ▸ hlt
        · exact hfirst entry he
      · rename_i hle hge
        have heq : name = first.1 := eq_of_not_lt hle hge
        refine List.pairwise_cons.mpr ⟨?_, hrest⟩
        intro entry hentry
        exact heq ▸ hfirst entry hentry

/-! ### Registries -/

/-- The registry without operators. -/
def empty : Registry :=
  ⟨[], List.Pairwise.nil⟩

/-- Adds an operator, or replaces the one of that name. -/
def register (r : Registry) (name : String) (operator : Operator) : Registry :=
  ⟨insertEntry name operator r.entries, sorted_insertEntry name operator r.sorted⟩

/-- Registers operators one after the other. -/
def registerAll (r : Registry) (operators : List (String × Operator)) : Registry :=
  operators.foldl (fun r entry => r.register entry.1 entry.2) r

/-- The operator of a name. -/
def find? (r : Registry) (name : String) : Option Operator :=
  List.lookup name r.entries

/-- Whether there is an operator of this name. -/
def contains (r : Registry) (name : String) : Bool :=
  (r.find? name).isSome

/-- The names in increasing order. -/
def names (r : Registry) : List String :=
  r.entries.map Prod.fst

/-- The registry for inspection: the names of the operators. -/
def describe (r : Registry) : String :=
  "OperatorRegistry \x7b operators: [" ++ ", ".intercalate (r.names.map Text.quoted) ++ "] \x7d"

theorem lookup_insertEntry (name : String) (operator : Operator)
    (entries : List (String × Operator)) (query : String) :
    List.lookup query (insertEntry name operator entries)
      = if query = name then some operator else List.lookup query entries := by
  induction entries with
  | nil =>
    by_cases h : query = name
    · simp [insertEntry, h]
    · have hq : (query == name) = false := by simpa using h
      simp [insertEntry, List.lookup_cons, hq, h]
  | cons first rest ih =>
    obtain ⟨n, o⟩ := first
    unfold insertEntry
    by_cases h : query = name
    · subst h
      split
      · simp
      · split
        · rename_i hlt
          have hq : (query == n) = false := by simpa using (String.ne_of_lt hlt).symm
          simp [List.lookup_cons, hq, ih]
        · simp
    · have hq : (query == name) = false := by simpa using h
      split
      · simp [List.lookup_cons, hq]
      · split
        · by_cases hn : query = n
          · simp [hn]
          · have hqn : (query == n) = false := by simpa using hn
            simp [List.lookup_cons, hqn, ih, h]
        · rename_i hle hge
          have heq : name = n := eq_of_not_lt hle hge
          subst heq
          simp [List.lookup_cons, hq]

/-- The last operator registered under a name is found, and no other name is affected. -/
theorem find?_register (r : Registry) (name : String) (operator : Operator) (query : String) :
    (r.register name operator).find? query = if query = name then some operator else r.find? query :=
  lookup_insertEntry name operator r.entries query

theorem lookup_eq_none_of_lt {name : String} {entries : List (String × Operator)}
    (h : ∀ entry ∈ entries, name < entry.1) : List.lookup name entries = none := by
  induction entries with
  | nil => rfl
  | cons first rest ih =>
    obtain ⟨n, o⟩ := first
    have hne : (name == n) = false := by
      simpa using String.ne_of_lt (h (n, o) List.mem_cons_self)
    simp only [List.lookup_cons, hne]
    exact ih fun entry hentry => h entry (List.mem_cons_of_mem _ hentry)

theorem entries_eq_of_lookup_eq {es fs : List (String × Operator)}
    (hes : es.Pairwise (fun e f => e.1 < f.1)) (hfs : fs.Pairwise (fun e f => e.1 < f.1))
    (h : ∀ name, List.lookup name es = List.lookup name fs) : es = fs := by
  induction es generalizing fs with
  | nil =>
    cases fs with
    | nil => rfl
    | cons f fs =>
      obtain ⟨m, p⟩ := f
      simpa using h m
  | cons e es ih =>
    obtain ⟨n, o⟩ := e
    obtain ⟨hn, hes'⟩ := List.pairwise_cons.mp hes
    cases fs with
    | nil => simpa using h n
    | cons f fs =>
      obtain ⟨m, p⟩ := f
      obtain ⟨hm, hfs'⟩ := List.pairwise_cons.mp hfs
      have hnm : n = m := by
        apply eq_of_not_lt
        · intro hlt
          have hnone : List.lookup n ((m, p) :: fs) = none := by
            apply lookup_eq_none_of_lt
            intro entry hentry
            rcases List.mem_cons.mp hentry with he | he
            · exact he ▸ hlt
            · exact String.lt_trans hlt (hm entry he)
          simpa [hnone] using h n
        · intro hlt
          have hnone : List.lookup m ((n, o) :: es) = none := by
            apply lookup_eq_none_of_lt
            intro entry hentry
            rcases List.mem_cons.mp hentry with he | he
            · exact he ▸ hlt
            · exact String.lt_trans hlt (hn entry he)
          simpa [hnone] using h m
      subst hnm
      have hop : o = p := by simpa using h n
      subst hop
      congr 1
      apply ih hes' hfs'
      intro name
      by_cases hname : name = n
      · subst hname
        rw [lookup_eq_none_of_lt hn, lookup_eq_none_of_lt hm]
      · have hne : (name == n) = false := by simpa using hname
        simpa [List.lookup_cons, hne] using h name

/-- Registries that find the same operators are the same. -/
theorem ext_find? {r s : Registry} (h : ∀ name, r.find? name = s.find? name) : r = s := by
  obtain ⟨es, hes⟩ := r
  obtain ⟨fs, hfs⟩ := s
  have heq : es = fs := entries_eq_of_lookup_eq hes hfs h
  subst heq
  rfl

/-! ### The operators that are always there -/

/-- The list of the tokens between semicolons: `in$1;2;3`. -/
def oneOf : Operator := fun argument _ =>
  .ok (.list ((Text.split ';' argument).map .token))

/-- A reference to the named field: `first$videos`. -/
def firstOf : Operator := fun argument key =>
  if argument = "" then .error ⟨"`first` on `" ++ key ++ "` needs a field name"⟩
  else .ok (.token ("$" ++ argument))

/-- The registry of the operators `in` and `first`. -/
def standard : Registry :=
  (empty.register "in" oneOf).register "first" firstOf

end Registry

end QueryPipeline
