import Mathlib.Data.Finset.Card
import QueryPipeline.OrderedSet

/-!
# Histories of insertions

A set that starts empty shows of the values that it has received each one once, in the order in which they
came first, and nothing else: neither how often a value came nor what came between two first occurrences.

* `OrderedSet.insertions` — the answers to insertions one after the other, each with the set that results;
* `OrderedSet.Shows` — what a set shows of the values that it has received;
* **`Shows.insert`**, `Shows.union` — one more value, and any number of them;
* `SameFirsts` — lists with the same values in the same order of first occurrence;
* `Shows.idxOf_lt_iff` — the order of the values can be read off the set;
* **`Shows.eq_iff`** — sets are equal if they have received lists with the same first occurrences;
* **`listed_of_insertions`** — what the insertions into an empty set answer and show.
-/

namespace QueryPipeline

/-- Two lists have the same values, and these first occur in the same order. -/
structure SameFirsts {α : Type u} [DecidableEq α] (values others : List α) : Prop where
  /-- The values of one list are those of the other. -/
  mem_iff : ∀ a, a ∈ values ↔ a ∈ others
  /-- Of any two values the same one comes first. -/
  before_iff : ∀ a ∈ values, ∀ b ∈ values,
    values.idxOf a < values.idxOf b ↔ others.idxOf a < others.idxOf b

namespace OrderedSet

variable {α : Type u} [DecidableEq α] {s t : OrderedSet α} {values others : List α} {a b : α}

/-! ### What a set shows -/

/-- What a set shows of the values that it has received. -/
structure Shows (s : OrderedSet α) (values : List α) : Prop where
  /-- It lists no value twice. -/
  nodup : s.toList.Nodup
  /-- It lists the values that it has received and no others. -/
  mem_iff : ∀ a, a ∈ s.toList ↔ a ∈ values
  /-- It lists them in the order in which they came first. -/
  ordered : s.toList.Pairwise fun a b => values.idxOf a < values.idxOf b
  /-- Its size is the number of different values. -/
  size_eq : s.size = values.toFinset.card
  /-- It is empty exactly if it has received nothing. -/
  isEmpty_iff : s.isEmpty ↔ values = []

/-- The members of a set and their order decide what it shows. -/
theorem shows_of_ordered (hmem : ∀ a, a ∈ s.toList ↔ a ∈ values)
    (hordered : s.toList.Pairwise fun a b => values.idxOf a < values.idxOf b) : s.Shows values where
  nodup := s.nodup
  mem_iff := hmem
  ordered := hordered
  size_eq := by
    have hset : s.toList.toFinset = values.toFinset := by
      ext a
      rw [List.mem_toFinset, List.mem_toFinset, hmem]
    rw [← hset, List.toFinset_card_of_nodup s.nodup, size]
  isEmpty_iff := by
    rw [isEmpty, List.isEmpty_iff, List.eq_nil_iff_forall_not_mem, List.eq_nil_iff_forall_not_mem]
    exact forall_congr' fun a => not_congr (hmem a)

theorem shows_empty : (empty : OrderedSet α).Shows [] :=
  shows_of_ordered (fun _ => Iff.rfl) List.Pairwise.nil

/-- What comes later does not change the order of the values that are there. -/
theorem Shows.ordered_append (h : s.Shows values) (later : List α) :
    s.toList.Pairwise fun a b => (values ++ later).idxOf a < (values ++ later).idxOf b := by
  apply h.ordered.imp_of_mem
  intro a b ha hb hlt
  rwa [List.idxOf_append_of_mem ((h.mem_iff a).mp ha), List.idxOf_append_of_mem ((h.mem_iff b).mp hb)]

/-- **One more value.** -/
theorem Shows.insert (h : s.Shows values) (a : α) : (s.insert a).2.Shows (values ++ [a]) := by
  apply shows_of_ordered
  · intro b
    rw [mem_toList_insert, h.mem_iff, List.mem_append, List.mem_singleton]
  · by_cases ha : a ∈ s.toList
    · rw [toList_insert_of_mem ha]
      exact h.ordered_append [a]
    · rw [toList_insert_of_not_mem ha, List.pairwise_append]
      refine ⟨h.ordered_append [a], List.pairwise_singleton _ _, ?_⟩
      -- a value that is not there comes first behind all the others
      intro b hb c hc
      rw [List.mem_singleton.mp hc]
      have hb' : b ∈ values := (h.mem_iff b).mp hb
      have ha' : a ∉ values := fun hmem => ha ((h.mem_iff a).mpr hmem)
      calc (values ++ [a]).idxOf b
          = values.idxOf b := List.idxOf_append_of_mem hb'
        _ < values.length := List.idxOf_lt_length_of_mem hb'
        _ ≤ values.length + [a].idxOf a := Nat.le_add_right _ _
        _ = (values ++ [a]).idxOf a := (List.idxOf_append_of_notMem ha').symm

/-- Any number of values. -/
theorem Shows.union (h : s.Shows values) (later : List α) :
    (s.union later).Shows (values ++ later) := by
  induction later generalizing s values with
  | nil =>
    rw [union_nil, List.append_nil]
    exact h
  | cons a later ih =>
    rw [union_cons, List.append_cons]
    exact ih (h.insert a)

theorem shows_union_empty (values : List α) : (empty.union values).Shows values :=
  shows_empty.union values

/-! ### One insertion after the other -/

/-- The answers to insertions one after the other, each with the set that results. -/
def insertions (s : OrderedSet α) : List α → List (Bool × OrderedSet α)
  | [] => []
  | a :: values => s.insert a :: insertions (s.insert a).2 values

/-- Every value is inserted into the set of those before it. -/
theorem getElem?_insertions (s : OrderedSet α) (values : List α) (n : Nat) :
    (s.insertions values)[n]? = values[n]?.map (s.union (values.take n)).insert := by
  induction values generalizing s n with
  | nil => rfl
  | cons a values ih =>
    cases n with
    | zero => rfl
    | succ n => exact ih (s.insert a).2 n

/-- An insertion says whether the set has received the value for the first time. -/
theorem Shows.fst_insert (h : s.Shows values) (a : α) : (s.insert a).1 = decide (a ∉ values) := by
  rw [OrderedSet.fst_insert]
  exact decide_eq_decide.mpr (not_congr (h.mem_iff a))

/-! ### Equal sets -/

/-- The order in which values came first can be read off the set that has received them. -/
theorem Shows.idxOf_lt_iff (h : s.Shows values) (ha : a ∈ values) (hb : b ∈ values) :
    s.toList.idxOf a < s.toList.idxOf b ↔ values.idxOf a < values.idxOf b := by
  have hbefore : ∀ {c d : α}, c ∈ values → d ∈ values → s.toList.idxOf c < s.toList.idxOf d →
      values.idxOf c < values.idxOf d := by
    intro c d hc hd hlt
    have hc' := List.idxOf_lt_length_of_mem ((h.mem_iff c).mpr hc)
    have hd' := List.idxOf_lt_length_of_mem ((h.mem_iff d).mpr hd)
    have hpair := List.pairwise_iff_getElem.mp h.ordered _ _ hc' hd' hlt
    rwa [List.getElem_idxOf, List.getElem_idxOf] at hpair
  refine ⟨hbefore ha hb, fun hlt => ?_⟩
  obtain hlt' | heq | hgt := Nat.lt_trichotomy (s.toList.idxOf a) (s.toList.idxOf b)
  · exact hlt'
  · rw [(List.idxOf_inj ((h.mem_iff a).mpr ha)).mp heq] at hlt
    exact absurd hlt (Nat.lt_irrefl _)
  · exact absurd hlt (Nat.lt_asymm (hbefore hb ha hgt))

/-- **Sets are equal if they have received lists with the same first occurrences**, and only then. -/
theorem Shows.eq_iff (hs : s.Shows values) (ht : t.Shows others) : s = t ↔ SameFirsts values others := by
  constructor
  · rintro rfl
    have hmem : ∀ a, a ∈ values ↔ a ∈ others := fun a => (hs.mem_iff a).symm.trans (ht.mem_iff a)
    refine ⟨hmem, fun a ha b hb => ?_⟩
    rw [← hs.idxOf_lt_iff ha hb, ht.idxOf_lt_iff ((hmem a).mp ha) ((hmem b).mp hb)]
  · intro h
    have hperm : s.toList.Perm t.toList := by
      rw [List.perm_ext_iff_of_nodup s.nodup t.nodup]
      intro a
      rw [hs.mem_iff, ht.mem_iff, h.mem_iff]
    -- both sets list their members in the order in which `values` has them first
    have hordered : t.toList.Pairwise fun a b => values.idxOf a < values.idxOf b := by
      apply ht.ordered.imp_of_mem
      intro a b ha hb hlt
      have ha' := (h.mem_iff a).mpr ((ht.mem_iff a).mp ha)
      have hb' := (h.mem_iff b).mpr ((ht.mem_iff b).mp hb)
      exact (h.before_iff a ha' b hb').mpr hlt
    apply ext
    apply hperm.eq_of_pairwise _ hs.ordered hordered
    intro a b _ _ hab hba
    exact absurd hba (Nat.lt_asymm hab)

/-- **Insertions into an empty set.**  Each one answers whether its value came for the first time and leads
to the set of the values so far.  At every time the set lists the different values that have come, each once
and in the order in which they came first, and tells their number and whether any came.  The sets that two
lists lead to compare equal exactly if the lists have the same values in the same order of first
occurrence. -/
theorem listed_of_insertions (values others : List α) :
    (∀ n, (empty.insertions values)[n]?
        = values[n]?.map fun a => (decide (a ∉ values.take n), empty.union (values.take (n + 1))))
      ∧ (∀ n, (empty.union (values.take n)).Shows (values.take n))
      ∧ ((empty.union values == empty.union others) = true ↔ SameFirsts values others) := by
  refine ⟨fun n => ?_, fun n => shows_union_empty _, ?_⟩
  · rw [getElem?_insertions, List.take_add_one]
    cases values[n]? with
    | none => rfl
    | some a =>
      rw [Option.map_some, Option.map_some, Option.toList_some, union_append, union_cons, union_nil,
        ← (shows_union_empty _).fst_insert]
  · rw [beq_iff_eq]
    exact (shows_union_empty values).eq_iff (shows_union_empty others)

example : ((empty.insertions ["b", "a", "b", "c"]).map fun entry => (entry.1, entry.2.toList))
    = [(true, ["b"]), (true, ["b", "a"]), (false, ["b", "a"]), (true, ["b", "a", "c"])] := by
  decide

end OrderedSet

end QueryPipeline
