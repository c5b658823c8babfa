/-!
# Cutting text at separators

A query is text inside text: segments between ampersands, groups between commas, alternatives
between bars.  None of the separators can be quoted, so one pair of cuts serves every level.

* `Text.split` gives every piece between the occurrences of a separator;
* `Text.items` keeps the pieces that are not empty;
* `Text.cut` separates the text before the first occurrence from the text after it;
* `Text.after` takes one leading character off.

`split_intercalate` and `cut_append` say that joining is undone by cutting; `split_append` and
`items_append` say that cutting distributes over a separator.
-/

namespace QueryPipeline.Text

/-! ### Every piece -/

/-- The pieces of a text between the occurrences of `sep`, one more than there are occurrences. -/
def split (sep : Char) (s : String) : List String :=
  (s.toList.splitOn sep).map String.ofList

/-- The pieces that are not empty: separators at an end or next to each other do not count. -/
def items (sep : Char) (s : String) : List String :=
  (split sep s).filter (fun piece => piece ≠ "")

theorem split_ne_nil (sep : Char) (s : String) : split sep s ≠ [] := by
  simp [split]

theorem split_of_not_mem {sep : Char} {s : String} (h : sep ∉ s.toList) : split sep s = [s] := by
  simp [split, List.splitOn_eq_singleton h]

@[simp] theorem split_empty (sep : Char) : split sep "" = [""] :=
  split_of_not_mem (by simp)

/-- Cutting distributes over a separator. -/
theorem split_append (sep : Char) (a b : String) :
    split sep (a ++ String.singleton sep ++ b) = split sep a ++ split sep b := by
  simp [split, List.splitOn_append_cons_self]

/-- Cutting at a separator undoes joining with it. -/
theorem split_intercalate {sep : Char} {pieces : List String} (hne : pieces ≠ [])
    (h : ∀ piece ∈ pieces, sep ∉ piece.toList) :
    split sep ((String.singleton sep).intercalate pieces) = pieces := by
  have hsplit : ([sep].intercalate (pieces.map String.toList)).splitOn sep
      = pieces.map String.toList := by
    apply List.splitOn_intercalate
    · intro l hl
      obtain ⟨piece, hmem, rfl⟩ := List.mem_map.mp hl
      exact h piece hmem
    · simpa using hne
  simp [split, hsplit]

theorem items_append (sep : Char) (a b : String) :
    items sep (a ++ String.singleton sep ++ b) = items sep a ++ items sep b := by
  rw [items, split_append, List.filter_append, items, items]

@[simp] theorem items_empty (sep : Char) : items sep "" = [] := by
  simp [items]

theorem items_of_not_mem {sep : Char} {s : String} (h : sep ∉ s.toList) (hne : s ≠ "") :
    items sep s = [s] := by
  rw [items, split_of_not_mem h]
  exact List.filter_cons_of_pos (decide_eq_true hne)

theorem ne_empty_of_mem_items {sep : Char} {s piece : String} (h : piece ∈ items sep s) :
    piece ≠ "" := by
  simpa using (List.mem_filter.mp h).2

/-! ### The first occurrence -/

/-- The text before and after the first occurrence of `sep`, if there is one. -/
def cut (sep : Char) (s : String) : Option (String × String) :=
  match s.toList.dropWhile (· != sep) with
  | [] => none
  | _ :: rest => some (String.ofList (s.toList.takeWhile (· != sep)), String.ofList rest)

theorem cut_of_not_mem {sep : Char} {s : String} (h : sep ∉ s.toList) : cut sep s = none := by
  have hall : ∀ c ∈ s.toList, (c != sep) = true := by
    intro c hc
    simpa using fun he : c = sep => h (he ▸ hc)
  have hdrop : (s.toList ++ []).dropWhile (· != sep) = [].dropWhile (· != sep) :=
    List.dropWhile_append_of_pos hall
  rw [List.append_nil, List.dropWhile_nil] at hdrop
  rw [cut, hdrop]

/-- A text without the separator, the separator and any text are cut where they were joined. -/
theorem cut_append {sep : Char} {a : String} (b : String) (h : sep ∉ a.toList) :
    cut sep (a ++ String.singleton sep ++ b) = some (a, b) := by
  have hall : ∀ c ∈ a.toList, (c != sep) = true := by
    intro c hc
    simpa using fun he : c = sep => h (he ▸ hc)
  have hdrop : (a ++ String.singleton sep ++ b).toList.dropWhile (· != sep) = sep :: b.toList := by
    simp [List.dropWhile_append_of_pos hall]
  have htake : (a ++ String.singleton sep ++ b).toList.takeWhile (· != sep) = a.toList := by
    simp [List.takeWhile_append_of_pos hall]
  rw [cut, hdrop, htake]
  simp

/-! ### The first character -/

/-- The rest of a text that starts with `c`. -/
def after (c : Char) (s : String) : Option String :=
  match s.toList with
  | [] => none
  | d :: rest => if d = c then some (String.ofList rest) else none

/-- Whether a text starts with `c`. -/
def startsWith (c : Char) (s : String) : Bool :=
  s.toList.head? == some c

theorem after_eq_some_iff {c : Char} {s rest : String} :
    after c s = some rest ↔ s = String.singleton c ++ rest := by
  constructor
  · intro h
    apply String.toList_inj.mp
    cases hs : s.toList with
    | nil => simp [after, hs] at h
    | cons d ds =>
      simp only [after, hs] at h
      split at h
      · rename_i hd
        cases h
        simp [hd]
      · cases h
  · rintro rfl
    simp [after]

theorem isSome_after (c : Char) (s : String) : (after c s).isSome = startsWith c s := by
  unfold after startsWith
  cases s.toList with
  | nil => rfl
  | cons d ds => by_cases h : d = c <;> simp [h]

end QueryPipeline.Text
