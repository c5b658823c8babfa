/-!
# Sets that remember the order of insertion

An `OrderedSet` lists distinct values in the order in which they were first inserted.  Inserting a
value again changes nothing and leaves it where it is.

* `OrderedSet.insert` answers whether the value was new, together with the set that results;
* `OrderedSet.union` inserts a list of values from left to right;
* `toList_insert_of_mem` and `toList_insert_of_not_mem` say what an insertion does to the listing.
-/

namespace QueryPipeline

/-- Distinct values in the order of their first insertion. -/
structure OrderedSet (α : Type u) where
  /-- The values, first inserted first. -/
  toList : List α
  /-- No value is listed twice. -/
  nodup : toList.Nodup

namespace OrderedSet

variable {α : Type u}

@[ext] theorem ext {s t : OrderedSet α} (h : s.toList = t.toList) : s = t := by
  cases s
  cases t
  cases h
  rfl

/-- The set without values. -/
def empty : OrderedSet α :=
  ⟨[], List.nodup_nil⟩

/-- The number of values. -/
def size (s : OrderedSet α) : Nat :=
  s.toList.length

/-- Whether there is no value. -/
def isEmpty (s : OrderedSet α) : Bool :=
  s.toList.isEmpty

variable [DecidableEq α]

instance : DecidableEq (OrderedSet α) := fun s t =>
  if h : s.toList = t.toList then isTrue (ext h) else isFalse (fun he => h (he ▸ rfl))

/-- Adds `a` behind the other values unless it is there already, and says whether it was added. -/
def insert (s : OrderedSet α) (a : α) : Bool × OrderedSet α :=
  if h : a ∈ s.toList then (false, s)
  else (true, ⟨s.toList ++ [a], by
    rw [List.nodup_append]
    refine ⟨s.nodup, by simp, ?_⟩
    intro b hb c hc hbc
    rw [List.mem_singleton.mp hc] at hbc
    exact h (hbc ▸ hb)⟩)

/-- Inserts the values of a list from left to right. -/
def union (s : OrderedSet α) (values : List α) : OrderedSet α :=
  values.foldl (fun t a => (t.insert a).2) s

/-! ### What insertion does to the listing -/

theorem fst_insert (s : OrderedSet α) (a : α) : (s.insert a).1 = decide (a ∉ s.toList) := by
  by_cases h : a ∈ s.toList <;> simp [insert, h]

theorem toList_insert_of_mem {s : OrderedSet α} {a : α} (h : a ∈ s.toList) :
    (s.insert a).2.toList = s.toList := by
  simp [insert, h]

theorem toList_insert_of_not_mem {s : OrderedSet α} {a : α} (h : a ∉ s.toList) :
    (s.insert a).2.toList = s.toList ++ [a] := by
  simp [insert, h]

@[simp] theorem union_nil (s : OrderedSet α) : s.union [] = s := rfl

@[simp] theorem union_cons (s : OrderedSet α) (a : α) (values : List α) :
    s.union (a :: values) = (s.insert a).2.union values := rfl

theorem union_append (s : OrderedSet α) (xs ys : List α) :
    s.union (xs ++ ys) = (s.union xs).union ys := by
  simp [union, List.foldl_append]

theorem mem_toList_insert {s : OrderedSet α} {a b : α} :
    b ∈ (s.insert a).2.toList ↔ b ∈ s.toList ∨ b = a := by
  by_cases h : a ∈ s.toList
  · rw [toList_insert_of_mem h]
    constructor
    · exact Or.inl
    · rintro (hb | rfl)
      · exact hb
      · exact h
  · rw [toList_insert_of_not_mem h]
    simp

theorem mem_toList_union {s : OrderedSet α} {values : List α} {b : α} :
    b ∈ (s.union values).toList ↔ b ∈ s.toList ∨ b ∈ values := by
  induction values generalizing s with
  | nil => simp
  | cons a values ih => simp [ih, mem_toList_insert, or_assoc]

end OrderedSet

end QueryPipeline
