import QueryPipeline.OrderedSet
import QueryPipeline.Value

/-!
# First occurrences and last values

Sets remember where a value was first inserted, and documents where a field was first put.  Both are
the list of first occurrences of what was put into them; a document holds the last value under each
name.

* **`toList_union`** — the values of a set are first occurrences;
* `lookup_reverse_cons` — which of the entries of a name is the last;
* **`ext_get?`** — a document is its keys in order and what they hold;
* `Document.listing` — a document given by its names and what they hold;
* **`ofFields_eq_listing`** — putting fields one after the other lists every name once, where it
  first occurs, with the value that was put last.
-/

namespace QueryPipeline

/-! ### First occurrences -/

section

variable {α : Type u} [DecidableEq α]

/-- Puts a value behind the others unless it is there. -/
def addNew (as : List α) (a : α) : List α :=
  if a ∈ as then as else as ++ [a]

/-- Putting values one after the other puts their first occurrences, less what was there before. -/
theorem foldl_addNew (as bs : List α) :
    bs.foldl addNew as = as ++ (bs.removeAll as).eraseDups := by
  induction bs generalizing as with
  | nil => simp
  | cons b bs ih =>
    rw [List.foldl_cons, ih, addNew]
    split
    · rename_i hb
      have hskip : (b :: bs).removeAll as = bs.removeAll as := by
        rw [List.cons_removeAll, if_neg (by simpa using hb)]
      rw [hskip]
    · rename_i hb
      have hkeep : (b :: bs).removeAll as = b :: bs.removeAll as := by
        rw [List.cons_removeAll, if_pos (by simpa using hb)]
      have hrest : bs.removeAll (as ++ [b]) = (bs.removeAll as).filter fun c => !c == b := by
        rw [List.removeAll, List.removeAll, List.filter_filter]
        apply List.filter_congr
        intro c _
        by_cases hc : c = b
        · simp [hc]
        · simp [hc]
      rw [hkeep, List.eraseDups_cons, hrest, List.append_assoc, List.singleton_append]

theorem nodup_eraseDups (as : List α) : as.eraseDups.Nodup := by
  have hfold : as.foldl addNew [] = as.eraseDups := by
    rw [foldl_addNew, List.removeAll_nil, List.nil_append]
  rw [← hfold]
  -- no step of the fold repeats a value
  have hstep : ∀ (bs cs : List α), bs.Nodup → (cs.foldl addNew bs).Nodup := by
    intro bs cs
    induction cs generalizing bs with
    | nil => exact id
    | cons c cs ih =>
      intro hbs
      apply ih
      rw [addNew]
      split
      · exact hbs
      · rename_i hc
        rw [List.nodup_append]
        refine ⟨hbs, by simp, ?_⟩
        intro b hb d hd hbd
        rw [List.mem_singleton.mp hd] at hbd
        exact hc (hbd ▸ hb)
  exact hstep [] as List.nodup_nil

/-- The values of a set, and behind them the first occurrences of what is inserted. -/
theorem OrderedSet.toList_union (s : OrderedSet α) (values : List α) :
    (s.union values).toList = s.toList ++ (values.removeAll s.toList).eraseDups := by
  rw [← foldl_addNew]
  induction values generalizing s with
  | nil => rfl
  | cons a values ih =>
    have hinsert : (s.insert a).2.toList = addNew s.toList a := by
      rw [addNew]
      split
      · rename_i ha
        exact OrderedSet.toList_insert_of_mem ha
      · rename_i ha
        exact OrderedSet.toList_insert_of_not_mem ha
    rw [OrderedSet.union_cons, ih, hinsert, List.foldl_cons]

theorem OrderedSet.toList_union_empty (values : List α) :
    ((OrderedSet.empty : OrderedSet α).union values).toList = values.eraseDups := by
  rw [toList_union]
  show [] ++ (values.removeAll []).eraseDups = values.eraseDups
  rw [List.removeAll_nil, List.nil_append]

end

/-! ### Entries by name -/

section

variable {β : Type u} {entries : List (String × β)} {name : String}

theorem lookup_cons (entry : String × β) (entries : List (String × β)) (name : String) :
    List.lookup name (entry :: entries)
      = if name = entry.1 then some entry.2 else List.lookup name entries := by
  obtain ⟨n, b⟩ := entry
  rw [List.lookup_cons]
  by_cases h : name = n
  · simp [h]
  · have hn : (name == n) = false := by simpa using h
    simp [hn, h]

theorem isSome_lookup_iff : (List.lookup name entries).isSome ↔ name ∈ entries.map Prod.fst := by
  rw [List.lookup_isSome_iff, List.mem_map]
  constructor
  · rintro ⟨entry, hentry, heq⟩
    exact ⟨entry, hentry, (eq_of_beq heq).symm⟩
  · rintro ⟨entry, hentry, rfl⟩
    exact ⟨entry, hentry, beq_self_eq_true _⟩

/-- The last entry of a name is the last one of the others, or else the first entry. -/
theorem lookup_reverse_cons (entry : String × β) (entries : List (String × β)) (name : String) :
    List.lookup name (entry :: entries).reverse
      = (List.lookup name entries.reverse).or (if name = entry.1 then some entry.2 else none) := by
  rw [List.reverse_cons, List.lookup_append, lookup_cons, List.lookup_nil]

end

namespace Document

/-! ### Documents by their keys -/

theorem get?_cons (k : String) (v : Value) (d : Document) (key : String) :
    get? ((k, v) :: d) key = if key = k then some v else get? d key :=
  lookup_cons (k, v) d key

theorem isSome_get?_iff {d : Document} {key : String} : (get? d key).isSome ↔ key ∈ keys d :=
  isSome_lookup_iff

theorem get?_eq_none_of_not_mem {d : Document} {key : String} (h : key ∉ keys d) :
    get? d key = none := by
  rw [← isSome_get?_iff] at h
  simpa using h

/-- A document is its keys in order and what they hold. -/
theorem ext_get? {d e : Document} (hd : (keys d).Nodup) (hkeys : keys d = keys e)
    (hget : ∀ key, get? d key = get? e key) : d = e := by
  induction d generalizing e with
  | nil =>
    cases e with
    | nil => rfl
    | cons field e => simp at hkeys
  | cons field d ih =>
    obtain ⟨k, v⟩ := field
    cases e with
    | nil => simp at hkeys
    | cons field' e =>
      obtain ⟨k', v'⟩ := field'
      simp only [keys_cons, List.cons.injEq] at hkeys
      obtain ⟨rfl, hrest⟩ := hkeys
      obtain ⟨hk, hd'⟩ := List.nodup_cons.mp hd
      have hv : v = v' := by
        have hfirst := hget k
        rw [get?_cons, get?_cons, if_pos rfl, if_pos rfl] at hfirst
        exact Option.some.inj hfirst
      rw [hv, ih hd' hrest]
      intro key
      by_cases hkey : key = k
      · subst hkey
        rw [get?_eq_none_of_not_mem hk, get?_eq_none_of_not_mem (hrest ▸ hk)]
      · have hother := hget key
        rwa [get?_cons, get?_cons, if_neg hkey, if_neg hkey] at hother

/-! ### Documents by names -/

/-- The document of the given names with what they hold; a name that holds nothing is left out. -/
def listing (names : List String) (value : String → Option Value) : Document :=
  names.filterMap fun name => (value name).map fun v => (name, v)

theorem keys_listing {names : List String} {value : String → Option Value}
    (h : ∀ name ∈ names, (value name).isSome) : keys (listing names value) = names := by
  induction names with
  | nil => rfl
  | cons name names ih =>
    obtain ⟨hname, hnames⟩ := List.forall_mem_cons.mp h
    obtain ⟨v, hv⟩ := Option.isSome_iff_exists.mp hname
    have hcons : listing (name :: names) value = (name, v) :: listing names value := by
      simp [listing, hv]
    rw [hcons, keys_cons, ih hnames]

theorem get?_listing (names : List String) (value : String → Option Value) (key : String) :
    get? (listing names value) key = if key ∈ names then value key else none := by
  induction names with
  | nil => simp [listing, get?]
  | cons name names ih =>
    cases hv : value name with
    | none =>
      have hskip : listing (name :: names) value = listing names value := by simp [listing, hv]
      rw [hskip, ih]
      by_cases hkey : key = name
      · simp [hkey, hv]
      · simp [hkey]
    | some v =>
      have hcons : listing (name :: names) value = (name, v) :: listing names value := by
        simp [listing, hv]
      rw [hcons, get?_cons, ih]
      by_cases hkey : key = name
      · simp [hkey, hv]
      · simp [hkey]

/-- Documents with the keys and the values of a listing are the listing. -/
theorem eq_listing {d : Document} {names : List String} {value : String → Option Value}
    (hkeys : keys d = names.eraseDups) (hget : ∀ key ∈ names, get? d key = value key) :
    d = listing names.eraseDups value := by
  have hmem : ∀ name, name ∈ names.eraseDups ↔ name ∈ names := fun name => List.mem_eraseDups
  have hsome : ∀ name ∈ names.eraseDups, (value name).isSome := by
    intro name hname
    rw [← hget name ((hmem name).mp hname), isSome_get?_iff, hkeys]
    exact hname
  apply ext_get?
  · rw [hkeys]
    exact nodup_eraseDups names
  · rw [keys_listing hsome, hkeys]
  · intro key
    rw [get?_listing]
    split
    · rename_i hkey
      exact hget key ((hmem key).mp hkey)
    · rename_i hkey
      rw [← hkeys] at hkey
      exact get?_eq_none_of_not_mem hkey

/-! ### Putting fields -/

/-- The last value that a list of fields puts under a name. -/
def last? (fields : List (String × Value)) (key : String) : Option Value :=
  List.lookup key fields.reverse

theorem last?_cons (field : String × Value) (fields : List (String × Value)) (key : String) :
    last? (field :: fields) key
      = (last? fields key).or (if key = field.1 then some field.2 else none) :=
  lookup_reverse_cons field fields key

theorem keys_insertAll (d : Document) (fields : List (String × Value)) :
    keys (insertAll d fields) = keys d ++ ((keys fields).removeAll (keys d)).eraseDups := by
  rw [← foldl_addNew]
  induction fields generalizing d with
  | nil => rfl
  | cons field fields ih =>
    have hinsert : keys (insert d field.1 field.2) = addNew (keys d) field.1 :=
      keys_insert d field.1 field.2
    show keys (insertAll (insert d field.1 field.2) fields) = _
    rw [ih, hinsert, keys_cons, List.foldl_cons]

theorem get?_insertAll (d : Document) (fields : List (String × Value)) (key : String) :
    get? (insertAll d fields) key = (last? fields key).or (get? d key) := by
  induction fields generalizing d with
  | nil => rfl
  | cons field fields ih =>
    show get? (insertAll (insert d field.1 field.2) fields) key = _
    rw [ih, get?_insert, last?_cons]
    cases last? fields key with
    | some v => rfl
    | none =>
      by_cases h : key = field.1
      · simp [h]
      · simp [h]

/-- **Every name once, where it first occurs, with the value that was put last.** -/
theorem ofFields_eq_listing (fields : List (String × Value)) :
    ofFields fields = listing (keys fields).eraseDups (last? fields) := by
  apply eq_listing
  · rw [ofFields, keys_insertAll, keys_nil, List.removeAll_nil, List.nil_append]
  · intro key _
    rw [ofFields, get?_insertAll]
    show (last? fields key).or none = last? fields key
    rw [Option.or_none]

end Document

end QueryPipeline
