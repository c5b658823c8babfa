import Mathlib.Data.List.Basic
import Mathlib.Data.List.TakeWhile
import QueryPipeline.Literal
import QueryPipeline.Proofs.Numerals

/-!
# The texts of decimal numbers

A decimal text can be filled up with zeros that count for nothing: behind its fraction, or behind a
point of its own if it has none.  Taking such zeros off again finds the text that was filled up, unless
that text itself ends in a zero of its fraction or in its point; no text that is written for a number
does.

* `Decimal.IsUnsigned` — the parts of a numeral, of which the point is there at most once;
* `Decimal.IsPadded` — a text and the zeros that fill it up;
* **`isPadded_of_trimFraction?`**, **`trimFraction?_of_isPadded`** — what is left when the zeros are
  taken off;
* **`isTrim_plain`** — no number is written with zeros of that kind.
-/

namespace QueryPipeline

namespace Decimal

/-- A text that is filled up with zeros behind its fraction, or with a fraction of zeros if it has
none. -/
inductive IsPadded (text : List Char) : List Char → Prop
  | fraction (hpoint : '.' ∈ text) (k : Nat) : IsPadded text (text ++ List.replicate k '0')
  | whole (hpoint : '.' ∉ text) : IsPadded text text
  | zeros (hpoint : '.' ∉ text) (k : Nat) :
    IsPadded text (text ++ '.' :: List.replicate (k + 1) '0')

/-- A text that does not end in a zero of its fraction, or in its point. -/
def IsTrim (text : List Char) : Prop :=
  '.' ∈ text → text.getLast? ≠ some '0' ∧ text.getLast? ≠ some '.'

/-- The characters with which a numeral can start. -/
def IsNumeralStart (c : Char) : Prop :=
  c.isDigit = true ∨ c = '.' ∨ c = '+' ∨ c = '-'

instance (c : Char) : Decidable (IsNumeralStart c) :=
  inferInstanceAs (Decidable (_ ∨ _))

/-! ### The parts of a numeral -/

theorem not_mem_of_isDigits {cs : List Char} (h : ∀ c ∈ cs, c.isDigit = true) : '.' ∉ cs :=
  fun hpoint => absurd (h '.' hpoint) (by decide)

theorem not_mem_of_isNumeral {cs : List Char} {n : Int} (h : IsNumeral cs n) : '.' ∉ cs := by
  cases h with
  | unsigned hdigits => exact not_mem_of_isDigits hdigits.2
  | plus hdigits =>
    exact List.not_mem_cons_of_ne_of_not_mem (by decide) (not_mem_of_isDigits hdigits.2)
  | minus hdigits =>
    exact List.not_mem_cons_of_ne_of_not_mem (by decide) (not_mem_of_isDigits hdigits.2)

/-- An exponent is nothing, or a letter and a whole number. -/
theorem readExponent?_cases {cs : List Char} {e : Int} (h : readExponent? cs = some e) :
    cs = [] ∨ ∃ mark rest, cs = mark :: rest ∧ (mark = 'e' ∨ mark = 'E') ∧ IsNumeral rest e := by
  cases cs with
  | nil => exact Or.inl rfl
  | cons mark rest =>
    rw [readExponent?] at h
    split at h
    · rename_i hmark
      exact Or.inr ⟨mark, rest, rfl, hmark, readInt?_eq_some_iff.mp h⟩
    · cases h

theorem not_mem_of_readExponent? {cs : List Char} {e : Int} (h : readExponent? cs = some e) :
    '.' ∉ cs := by
  obtain rfl | ⟨mark, rest, rfl, hmark, hrest⟩ := readExponent?_cases h
  · exact List.not_mem_nil
  · refine List.not_mem_cons_of_ne_of_not_mem ?_ (not_mem_of_isNumeral hrest)
    rintro rfl
    exact absurd hmark (by decide)

/-- A numeral without a sign: digits with at most one point among them, and an exponent. -/
structure IsUnsigned (cs whole fraction tail : List Char) : Prop where
  parts : cs = whole ++ '.' :: (fraction ++ tail) ∨ (cs = whole ++ tail ∧ fraction = [])
  whole_isDigit : ∀ c ∈ whole, c.isDigit = true
  fraction_isDigit : ∀ c ∈ fraction, c.isDigit = true
  digits_ne_nil : whole ++ fraction ≠ []
  exponent : ∃ e, readExponent? tail = some e

theorem isDigit_of_mem_takeWhile {cs : List Char} : ∀ c ∈ cs.takeWhile Char.isDigit, c.isDigit = true :=
  fun _ hc => List.mem_takeWhile_imp hc

theorem exists_isUnsigned_of_readUnsigned? {cs : List Char} {d : Decimal}
    (h : readUnsigned? cs = some d) : ∃ whole fraction tail, IsUnsigned cs whole fraction tail := by
  have hcs : cs = cs.takeWhile Char.isDigit ++ cs.dropWhile Char.isDigit :=
    List.takeWhile_append_dropWhile.symm
  rw [readUnsigned?.eq_def] at h
  split at h
  rename_i fraction tail hparts
  simp only at h
  split at h
  · cases h
  · rename_i hdigits
    obtain ⟨e, he, -⟩ := Option.map_eq_some_iff.mp h
    refine ⟨cs.takeWhile Char.isDigit, fraction, tail, ?_, isDigit_of_mem_takeWhile, ?_, hdigits, e, he⟩
    · split at hparts
      · rename_i rest hdrop
        cases hparts
        rw [List.takeWhile_append_dropWhile, ← hdrop]
        exact Or.inl hcs
      · cases hparts
        exact Or.inr ⟨hcs, rfl⟩
    · split at hparts
      · cases hparts
        exact isDigit_of_mem_takeWhile
      · cases hparts
        exact fun c hc => absurd hc List.not_mem_nil

theorem count_point_of_isUnsigned {cs whole fraction tail : List Char}
    (h : IsUnsigned cs whole fraction tail) : cs.count '.' ≤ 1 := by
  obtain ⟨e, he⟩ := h.exponent
  have hwhole : whole.count '.' = 0 := List.count_eq_zero.mpr (not_mem_of_isDigits h.whole_isDigit)
  have hfraction : fraction.count '.' = 0 :=
    List.count_eq_zero.mpr (not_mem_of_isDigits h.fraction_isDigit)
  have htail : tail.count '.' = 0 := List.count_eq_zero.mpr (not_mem_of_readExponent? he)
  obtain hcs | ⟨hcs, -⟩ := h.parts
  · rw [hcs, List.count_append, List.count_cons_self, List.count_append]
    omega
  · rw [hcs, List.count_append]
    omega

theorem exists_of_readDecimal? {cs : List Char} {negative : Bool} {d : Decimal}
    (h : readDecimal? cs = some (negative, d)) :
    ∃ body whole fraction tail, IsUnsigned body whole fraction tail
      ∧ (cs = body ∨ cs = '+' :: body ∨ cs = '-' :: body) := by
  rw [readDecimal?] at h
  obtain ⟨rest, rfl, hsign⟩ | ⟨rest, rfl, hsign⟩ | hsign := splitSign_cases cs
  all_goals
    rw [hsign] at h
    obtain ⟨d', hd, -⟩ := Option.map_eq_some_iff.mp h
    obtain ⟨whole, fraction, tail, hparts⟩ := exists_isUnsigned_of_readUnsigned? hd
  · exact ⟨rest, whole, fraction, tail, hparts, Or.inr (Or.inr rfl)⟩
  · exact ⟨rest, whole, fraction, tail, hparts, Or.inr (Or.inl rfl)⟩
  · exact ⟨cs, whole, fraction, tail, hparts, Or.inl rfl⟩

/-- A numeral has at most one point. -/
theorem count_point_of_readDecimal? {cs : List Char} {r : Bool × Decimal}
    (h : readDecimal? cs = some r) : cs.count '.' ≤ 1 := by
  obtain ⟨body, whole, fraction, tail, hbody, rfl | rfl | rfl⟩ := exists_of_readDecimal? h
  · exact count_point_of_isUnsigned hbody
  · rw [List.count_cons_of_ne (by decide)]
    exact count_point_of_isUnsigned hbody
  · rw [List.count_cons_of_ne (by decide)]
    exact count_point_of_isUnsigned hbody

theorem isNumeralStart_of_readDecimal? {c : Char} {cs : List Char} {r : Bool × Decimal}
    (h : readDecimal? (c :: cs) = some r) : IsNumeralStart c := by
  obtain ⟨body, whole, fraction, tail, hbody, hcs | hcs | hcs⟩ := exists_of_readDecimal? h
  · subst hcs
    cases whole with
    | cons d whole =>
      have hd : c = d := by
        obtain hparts | ⟨hparts, -⟩ := hbody.parts
        · exact (List.cons.inj hparts).1
        · exact (List.cons.inj hparts).1
      rw [hd]
      exact Or.inl (hbody.whole_isDigit d List.mem_cons_self)
    | nil =>
      obtain hparts | ⟨-, hfraction⟩ := hbody.parts
      · exact Or.inr (Or.inl (List.cons.inj hparts).1)
      · exact absurd hfraction hbody.digits_ne_nil
  · exact Or.inr (Or.inr (Or.inl (List.cons.inj hcs).1))
  · exact Or.inr (Or.inr (Or.inr (List.cons.inj hcs).1))

theorem isNumeralStart_of_isNumeral {c : Char} {cs : List Char} {n : Int}
    (h : IsNumeral (c :: cs) n) : IsNumeralStart c := by
  cases h with
  | unsigned hdigits => exact Or.inl (hdigits.2 c List.mem_cons_self)
  | plus => exact Or.inr (Or.inr (Or.inl rfl))
  | minus => exact Or.inr (Or.inr (Or.inr rfl))

end Decimal

namespace Literal

open Decimal

/-! ### Characters at the end -/

/-- What is taken off at the end is one character over and over. -/
theorem exists_append_replicate (c : Char) (cs : List Char) :
    ∃ k, cs = dropTrailing c cs ++ List.replicate k c := by
  have hall : cs.reverse.takeWhile (· == c)
      = List.replicate (cs.reverse.takeWhile (· == c)).length c := by
    refine List.eq_replicate_iff.mpr ⟨rfl, fun d hd => ?_⟩
    simpa using List.mem_takeWhile_imp hd
  refine ⟨(cs.reverse.takeWhile (· == c)).length, ?_⟩
  rw [dropTrailing, ← List.reverse_replicate, ← List.reverse_append, ← hall,
    List.takeWhile_append_dropWhile, List.reverse_reverse]

theorem dropTrailing_append_replicate (c : Char) (cs : List Char) (k : Nat) :
    dropTrailing c (cs ++ List.replicate k c) = dropTrailing c cs := by
  have hall : ∀ d ∈ List.replicate k c, (d == c) = true := by
    intro d hd
    simpa using List.eq_of_mem_replicate hd
  rw [dropTrailing, List.reverse_append, List.reverse_replicate,
    List.dropWhile_append_of_pos hall, dropTrailing]

theorem getLast?_dropTrailing_ne (c : Char) (cs : List Char) :
    (dropTrailing c cs).getLast? ≠ some c := by
  rw [dropTrailing, List.getLast?_reverse]
  intro h
  have hnot := List.head?_dropWhile_not (· == c) cs.reverse
  rw [h] at hnot
  simp at hnot

theorem dropTrailing_of_getLast?_ne {c : Char} {cs : List Char} (h : cs.getLast? ≠ some c) :
    dropTrailing c cs = cs := by
  obtain ⟨k, hk⟩ := exists_append_replicate c cs
  cases k with
  | zero => exact (hk.trans (List.append_nil _)).symm
  | succ k =>
    rw [List.replicate_succ', ← List.append_assoc] at hk
    rw [hk, List.getLast?_concat] at h
    exact absurd rfl h

/-! ### Taking the zeros off -/

theorem trimFraction?_of_not_mem {cs : List Char} (h : '.' ∉ cs) : trimFraction? cs = some cs := by
  have hdrop : cs.dropWhile (· != '.') = [] := by
    rw [List.dropWhile_eq_nil_iff]
    intro c hc
    simpa using fun he : c = '.' => h (he ▸ hc)
  rw [trimFraction?, hdrop]

theorem dropWhile_append_point {front : List Char} (h : '.' ∉ front) (back : List Char) :
    (front ++ '.' :: back).dropWhile (· != '.') = '.' :: back := by
  rw [List.dropWhile_append_of_pos]
  · rfl
  · intro c hc
    simpa using fun he : c = '.' => h (he ▸ hc)

/-- A text that ends in its point is no numeral whose zeros could be taken off. -/
theorem trimFraction?_append_point {front : List Char} (h : '.' ∉ front) :
    trimFraction? (front ++ ['.']) = none := by
  rw [trimFraction?, dropWhile_append_point h]

theorem trimFraction?_append_fraction {front : List Char} (h : '.' ∉ front) {back : List Char}
    (hback : back ≠ []) :
    trimFraction? (front ++ '.' :: back)
      = some (dropTrailing '.' (dropTrailing '0' (front ++ '.' :: back))) := by
  rw [trimFraction?, dropWhile_append_point h]
  cases back with
  | nil => exact absurd rfl hback
  | cons c back => rfl

/-- What is left was filled up, if there was only one point. -/
theorem isPadded_of_trimFraction? {cs text : List Char} (hcount : cs.count '.' ≤ 1)
    (h : trimFraction? cs = some text) : IsPadded text cs := by
  by_cases hmem : '.' ∈ cs
  · obtain ⟨front, back, hcs, hfront⟩ := List.eq_append_cons_of_mem hmem
    have hback : back ≠ [] := by
      rintro rfl
      rw [hcs, trimFraction?_append_point hfront] at h
      cases h
    have hleft := h
    rw [hcs, trimFraction?_append_fraction hfront hback, ← hcs, Option.some.injEq] at hleft
    -- the text, `j` points and `k` zeros make up the numeral, which has one point in all
    obtain ⟨k, hk⟩ := exists_append_replicate '0' cs
    obtain ⟨j, hj⟩ := exists_append_replicate '.' (dropTrailing '0' cs)
    rw [hleft] at hj
    have hall : cs = text ++ List.replicate j '.' ++ List.replicate k '0' := by rw [← hj, ← hk]
    have hpos : 0 < cs.count '.' := List.count_pos_iff.mpr hmem
    have hpoints : cs.count '.' = text.count '.' + j := by
      rw [hall, List.count_append, List.count_append, List.count_replicate, List.count_replicate]
      simp
    by_cases htext : '.' ∈ text
    · have htextpos : 0 < text.count '.' := List.count_pos_iff.mpr htext
      have hj0 : j = 0 := by omega
      rw [hj0, List.replicate_zero, List.append_nil] at hall
      rw [hall]
      exact IsPadded.fraction htext k
    · have htextzero : text.count '.' = 0 := List.count_eq_zero.mpr htext
      have hj1 : j = 1 := by omega
      rw [hj1, List.append_assoc] at hall
      cases k with
      | zero =>
        rw [hall, List.replicate_zero, List.append_nil] at h
        exact absurd ((trimFraction?_append_point htext).symm.trans h) (Option.some_ne_none _).symm
      | succ k =>
        rw [hall]
        exact IsPadded.zeros htext k
  · rw [trimFraction?_of_not_mem hmem, Option.some.injEq] at h
    rw [← h]
    exact IsPadded.whole hmem

/-- Zeros that fill a trim text up are taken off again. -/
theorem trimFraction?_of_isPadded {cs text : List Char} (htrim : IsTrim text)
    (h : IsPadded text cs) : trimFraction? cs = some text := by
  cases h with
  | whole hpoint => exact trimFraction?_of_not_mem hpoint
  | zeros hpoint k =>
    have hnot : text.getLast? ≠ some '.' := fun hlast => hpoint (List.mem_of_getLast? hlast)
    have hzeros : dropTrailing '0' (text ++ '.' :: List.replicate (k + 1) '0') = text ++ ['.'] := by
      rw [← List.singleton_append, ← List.append_assoc, dropTrailing_append_replicate]
      apply dropTrailing_of_getLast?_ne
      rw [List.getLast?_concat]
      decide
    rw [trimFraction?_append_fraction hpoint (by simp), hzeros,
      show ['.'] = List.replicate 1 '.' from rfl, dropTrailing_append_replicate,
      dropTrailing_of_getLast?_ne hnot]
  | fraction hpoint k =>
    obtain ⟨hzero, hlast⟩ := htrim hpoint
    obtain ⟨front, back, rfl, hfront⟩ := List.eq_append_cons_of_mem hpoint
    have hback : back ≠ [] := by
      rintro rfl
      exact hlast List.getLast?_concat
    rw [List.append_assoc, List.cons_append, trimFraction?_append_fraction hfront (by simp [hback]),
      ← List.cons_append, ← List.append_assoc, dropTrailing_append_replicate,
      dropTrailing_of_getLast?_ne hzero, dropTrailing_of_getLast?_ne hlast]

end Literal

namespace Decimal

/-! ### Digits that are written -/

theorem ofDigitChars_replicate_zero (k : Nat) : Nat.ofDigitChars 10 (List.replicate k '0') 0 = 0 := by
  induction k with
  | zero => rfl
  | succ k ih =>
    rw [List.replicate_succ, Nat.ofDigitChars_cons]
    exact ih

theorem isDigit_of_mem_significantDigits {d : Decimal} :
    ∀ c ∈ d.significantDigits, c.isDigit = true := by
  intro c hc
  obtain ⟨k, hk⟩ := Literal.exists_append_replicate '0' (Nat.toDigits 10 d.digits)
  refine Nat.isDigit_of_mem_toDigits (b := 10) (n := d.digits) (by decide) (by decide) ?_
  rw [hk]
  exact List.mem_append_left _ hc

theorem significantDigits_ne_nil {d : Decimal} (h : d.digits ≠ 0) : d.significantDigits ≠ [] := by
  intro hnil
  obtain ⟨k, hk⟩ := Literal.exists_append_replicate '0' (Nat.toDigits 10 d.digits)
  have hzeros : Nat.toDigits 10 d.digits = List.replicate k '0' := by
    rw [hk]
    exact congrArg (· ++ List.replicate k '0') hnil
  have hvalue := Nat.ofDigitChars_ten_toDigits (n := d.digits)
  rw [hzeros, ofDigitChars_replicate_zero] at hvalue
  exact h hvalue.symm

theorem getLast?_significantDigits_ne (d : Decimal) : d.significantDigits.getLast? ≠ some '0' :=
  Literal.getLast?_dropTrailing_ne '0' (Nat.toDigits 10 d.digits)

theorem positional_ne_nil {digits : List Char} (hne : digits ≠ []) (point : Int) :
    positional digits point ≠ [] := by
  rw [positional]
  split
  · simp
  · split
    · simp [hne]
    · simp

theorem isTrim_positional {digits : List Char} (hdigits : ∀ c ∈ digits, c.isDigit = true)
    (hne : digits ≠ []) (hlast : digits.getLast? ≠ some '0') (point : Int) :
    IsTrim (positional digits point) := by
  have hpoint : digits.getLast? ≠ some '.' := fun h =>
    not_mem_of_isDigits hdigits (List.mem_of_getLast? h)
  intro hmem
  rw [positional] at hmem ⊢
  split
  · have hend : ('0' :: '.' :: (List.replicate (-point).toNat '0' ++ digits)).getLast?
        = digits.getLast? := by
      rw [← List.cons_append, ← List.cons_append, List.getLast?_append_of_ne_nil _ hne]
    rw [hend]
    exact ⟨hlast, hpoint⟩
  · rename_i hpositive
    rw [if_neg hpositive] at hmem
    split
    · rename_i hlength
      rw [if_pos hlength] at hmem
      obtain hmem | hmem := List.mem_append.mp hmem
      · exact absurd hmem (not_mem_of_isDigits hdigits)
      · exact absurd (List.eq_of_mem_replicate hmem) (by decide)
    · rename_i hlength
      have hdrop : digits.drop point.toNat ≠ [] := by
        intro hnil
        have := List.drop_eq_nil_iff.mp hnil
        omega
      have hend : (digits.take point.toNat ++ '.' :: digits.drop point.toNat).getLast?
          = digits.getLast? := by
        conv_rhs => rw [← List.take_append_drop point.toNat digits]
        rw [List.getLast?_append_of_ne_nil _ (List.cons_ne_nil _ _),
          List.getLast?_append_of_ne_nil _ hdrop, List.getLast?_cons_of_ne_nil hdrop]
      rw [hend]
      exact ⟨hlast, hpoint⟩

theorem isTrim_append {front back : List Char} (hfront : '.' ∉ front) (hne : back ≠ [])
    (h : IsTrim back) : IsTrim (front ++ back) := by
  intro hmem
  rw [List.getLast?_append_of_ne_nil _ hne]
  exact h ((List.mem_append.mp hmem).resolve_left hfront)

theorem rank_of_digits_eq_zero {d : Decimal} (h : d.digits = 0) : d.rank = 0 := by
  rw [Decimal.rank, h, Nat.zero_mul, Nat.zero_shiftLeft]
  simp [Binary64.nearestRank, Binary64.divideHalfEven]

theorem digits_shortest_ne_zero (tie : Tie) {rank : Nat} (h : rank ≠ 0) :
    (Binary64.shortest tie rank).digits ≠ 0 := by
  intro hzero
  have hread := Binary64.rank_shortest tie rank
  rw [rank_of_digits_eq_zero hzero] at hread
  exact h hread.symm

theorem point_not_mem_sign (x : Binary64) : '.' ∉ x.sign := by
  rw [Binary64.sign]
  split
  · decide
  · decide

/-- **The text of a number is trim.** -/
theorem isTrim_plain (x : Binary64) : IsTrim x.plain := by
  have hsign := point_not_mem_sign x
  rw [Binary64.plain]
  split
  · intro h
    exact absurd h (by decide)
  · split
    · exact isTrim_append hsign (by decide) fun h => absurd h (by decide)
    · split
      · exact isTrim_append hsign (by decide) fun h => absurd h (by decide)
      · rename_i hrank
        have hne := significantDigits_ne_nil (digits_shortest_ne_zero .up hrank)
        exact isTrim_append hsign (positional_ne_nil hne _)
          (isTrim_positional isDigit_of_mem_significantDigits hne (getLast?_significantDigits_ne _) _)

end Decimal

end QueryPipeline
