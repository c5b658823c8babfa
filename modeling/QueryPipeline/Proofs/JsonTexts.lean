import Mathlib.Tactic.SplitIfs
import QueryPipeline.Proofs.WrittenNumbers
import QueryPipeline.Value.Json

/-!
# Compact JSON texts

No two JSON values have one compact text, and where such a text ends can be seen in it: a value can be told
from the front of a longer text, whatever follows as values follow each other.

* `Json.IsFinite` — the values whose numbers all have numerals;
* `Json.EndsValue`, `Json.IsSeparable` — what can stand behind a value, and texts whose end can be seen;
* **`quote_append_inj`** — strings, through a reader that takes one escaped character off;
* **`number_append_inj`**, **`number_inj`** — numbers, of which whole ones are told from others by their
  characters;
* **`enclose_append_inj`** — items between brackets;
* **`isSeparable_write`**, **`write_inj`** — all values.
-/

namespace QueryPipeline

/-! ### The characters of numbers -/

/-- The characters that stand in numbers. -/
def Decimal.isNumberChar (c : Char) : Bool :=
  c.isDigit || c == '+' || c == '-' || c == '.' || c == 'e' || c == 'E'

namespace Decimal

theorem isNumberChar_of_isDigit {c : Char} (h : c.isDigit = true) : isNumberChar c = true := by
  simp [isNumberChar, h]

theorem isNumberChar_of_isNumeral {cs : List Char} {n : Int} (h : IsNumeral cs n) :
    ∀ c ∈ cs, isNumberChar c = true := by
  have hdigits : ∀ {digits : List Char}, IsDigits digits → ∀ c ∈ digits, isNumberChar c = true :=
    fun h c hc => isNumberChar_of_isDigit (h.2 c hc)
  intro c hc
  cases h with
  | unsigned h => exact hdigits h c hc
  | plus h =>
    obtain rfl | hc := List.mem_cons.mp hc
    · rfl
    · exact hdigits h c hc
  | minus h =>
    obtain rfl | hc := List.mem_cons.mp hc
    · rfl
    · exact hdigits h c hc

theorem isNumberChar_of_readExponent? {tail : List Char} {e : Int} (h : readExponent? tail = some e) :
    ∀ c ∈ tail, isNumberChar c = true := by
  intro c hc
  obtain rfl | ⟨mark, rest, rfl, hmark, hrest⟩ := readExponent?_cases h
  · exact absurd hc List.not_mem_nil
  · obtain rfl | hc := List.mem_cons.mp hc
    · obtain rfl | rfl := hmark
      · rfl
      · rfl
    · exact isNumberChar_of_isNumeral hrest c hc

theorem isNumberChar_of_isReal {rank : Nat} {cs : List Char} (h : IsReal rank cs) :
    ∀ c ∈ cs, isNumberChar c = true := by
  obtain ⟨whole, fraction, tail, e, h⟩ := h
  have hwhole : ∀ c ∈ whole, isNumberChar c = true :=
    fun c hc => isNumberChar_of_isDigit (h.parts.whole_isDigit c hc)
  have hfraction : ∀ c ∈ fraction, isNumberChar c = true :=
    fun c hc => isNumberChar_of_isDigit (h.parts.fraction_isDigit c hc)
  have htail := isNumberChar_of_readExponent? h.exponent
  intro c hc
  obtain hcs | ⟨hcs, -⟩ := h.parts.parts
  · rw [hcs, List.mem_append, List.mem_cons, List.mem_append] at hc
    obtain hc | rfl | hc | hc := hc
    · exact hwhole c hc
    · rfl
    · exact hfraction c hc
    · exact htail c hc
  · rw [hcs, List.mem_append] at hc
    exact hc.elim (hwhole c) (htail c)

theorem isNumberChar_of_mem_writeInt (n : Int) : ∀ c ∈ writeInt n, isNumberChar c = true :=
  isNumberChar_of_isNumeral (readInt?_eq_some_iff.mp (readInt?_writeInt n))

/-- A text of a rank has a character that no canonical text of a whole number has. -/
theorem exists_mark_of_isReal {rank : Nat} {cs : List Char} (h : IsReal rank cs) :
    ∃ c ∈ cs, c.isDigit = false ∧ c ≠ '-' := by
  obtain ⟨whole, fraction, tail, e, h⟩ := h
  obtain hpoint | htail := h.marked
  · exact ⟨'.', hpoint, by decide, by decide⟩
  · obtain rfl | ⟨mark, rest, rfl, hmark, -⟩ := readExponent?_cases h.exponent
    · exact absurd rfl htail
    · have hmem : mark ∈ cs := by
        obtain hcs | ⟨hcs, -⟩ := h.parts.parts
        · simp [hcs]
        · simp [hcs]
      refine ⟨mark, hmem, ?_⟩
      obtain rfl | rfl := hmark
      · decide
      · decide

theorem writeInt_ne_nil (n : Int) : writeInt n ≠ [] := by
  rw [writeInt]
  split
  · exact List.cons_ne_nil _ _
  · exact Nat.toDigits_ne_nil

theorem isDigit_or_of_mem_writeInt {n : Int} {c : Char} (h : c ∈ writeInt n) :
    c.isDigit = true ∨ c = '-' := by
  have hdigits : ∀ c ∈ Nat.toDigits 10 n.natAbs, c.isDigit = true :=
    List.all_eq_true.mp (all_isDigit_toDigits n.natAbs)
  rw [writeInt] at h
  split at h
  · exact (List.mem_cons.mp h).elim Or.inr fun h => Or.inl (hdigits c h)
  · exact Or.inl (hdigits c h)

end Decimal

theorem Binary64.isNumberChar_of_mem_json {x : Binary64} (hfinite : x.isFinite = true) :
    ∀ c ∈ x.json, Decimal.isNumberChar c = true := by
  obtain ⟨cs, hjson, hreal⟩ := isReal_json hfinite
  have hsign : ∀ c ∈ x.sign, Decimal.isNumberChar c = true := by
    rw [sign]
    split
    · exact fun c hc => List.mem_singleton.mp hc ▸ rfl
    · exact fun c hc => absurd hc List.not_mem_nil
  intro c hc
  rw [hjson, List.mem_append] at hc
  exact hc.elim (hsign c) (Decimal.isNumberChar_of_isReal hreal c)

theorem Binary64.json_ne_nil {x : Binary64} (hfinite : x.isFinite = true) : x.json ≠ [] := by
  obtain ⟨cs, hjson, hreal⟩ := isReal_json hfinite
  obtain ⟨c, hc, -⟩ := Decimal.exists_mark_of_isReal hreal
  exact List.ne_nil_of_mem (hjson ▸ List.mem_append_right _ hc)

/-- No two finite numbers have one text. -/
theorem Binary64.json_inj {x y : Binary64} (hx : x.isFinite = true) (hy : y.isFinite = true)
    (h : x.json = y.json) : x = y := by
  have hread := congrArg read? h
  rw [read?_json hx, read?_json hy] at hread
  exact Option.some.inj hread

/-- No number of the one kind is written as one of the other. -/
theorem Binary64.json_ne_writeInt {x : Binary64} (hfinite : x.isFinite = true) (n : Int) :
    x.json ≠ Decimal.writeInt n := by
  intro h
  obtain ⟨cs, hjson, hreal⟩ := isReal_json hfinite
  obtain ⟨c, hc, hdigit, hminus⟩ := Decimal.exists_mark_of_isReal hreal
  have hmem : c ∈ Decimal.writeInt n := by
    rw [← h, hjson]
    exact List.mem_append_right _ hc
  obtain hc | hc := Decimal.isDigit_or_of_mem_writeInt hmem
  · rw [hdigit] at hc
    cases hc
  · exact hminus hc

namespace Json

/-! ### Values and what stands behind them -/

/-- The values whose numbers all have numerals. -/
inductive IsFinite : Json → Prop
  | null : IsFinite .null
  | bool (b : Bool) : IsFinite (.bool b)
  | int (n : Int) : IsFinite (.int n)
  | real {x : Binary64} (hfinite : x.isFinite = true) : IsFinite (.real x)
  | string (s : String) : IsFinite (.string s)
  | array {items : List Json} (hitems : ∀ item ∈ items, IsFinite item) : IsFinite (.array items)
  | object {fields : List (String × Json)} (hfields : ∀ field ∈ fields, IsFinite field.2) :
    IsFinite (.object fields)

/-- What can stand behind a value: nothing, the comma in front of the next, or a closing bracket. -/
def EndsValue (rest : List Char) : Prop :=
  ∀ c ∈ rest.head?, c = ',' ∨ c = ']' ∨ c = '\x7d'

theorem endsValue_nil : EndsValue [] :=
  fun _ hc => by cases hc

theorem endsValue_cons {c : Char} (hc : c = ',' ∨ c = ']' ∨ c = '\x7d') (rest : List Char) :
    EndsValue (c :: rest) := by
  intro d hd
  cases hd
  exact hc

/-- Two values can be told apart by their texts, and each from what stands behind it. -/
def IsSeparable {α : Type} (text : α → List Char) (a b : α) : Prop :=
  ∀ r s, EndsValue r → EndsValue s → text a ++ r = text b ++ s → a = b ∧ r = s

/-! ### Numbers -/

/-- A number ends where its characters do. -/
theorem number_append_inj {front front' r s : List Char}
    (hfront : ∀ c ∈ front, Decimal.isNumberChar c = true)
    (hfront' : ∀ c ∈ front', Decimal.isNumberChar c = true) (hr : EndsValue r) (hs : EndsValue s)
    (h : front ++ r = front' ++ s) : front = front' ∧ r = s := by
  have hends : ∀ {rest : List Char}, EndsValue rest →
      ∀ c ∈ rest.head?, Decimal.isNumberChar c = false := by
    intro rest hrest c hc
    obtain rfl | rfl | rfl := hrest c hc
    · rfl
    · rfl
    · rfl
  have hsame := congrArg (List.takeWhile Decimal.isNumberChar) h
  rw [takeWhile_append_of_head? hfront (hends hr),
    takeWhile_append_of_head? hfront' (hends hs)] at hsame
  rw [hsame] at h
  exact ⟨hsame, List.append_cancel_left h⟩

/-! ### Strings -/

/-- The value of a hexadecimal digit. -/
def hexValue (c : Char) : Nat :=
  if c.isDigit then c.toNat - 48 else c.toNat - 87

/-- The character of an escape, without its backslash, and the text behind it. -/
def readEscape? : List Char → Option (Char × List Char)
  | 'u' :: '0' :: '0' :: high :: low :: rest =>
    some (Char.ofNat (16 * hexValue high + hexValue low), rest)
  | 'b' :: rest => some ('\x08', rest)
  | 'f' :: rest => some ('\x0c', rest)
  | 'n' :: rest => some ('\n', rest)
  | 'r' :: rest => some ('\r', rest)
  | 't' :: rest => some ('\t', rest)
  | c :: rest => some (c, rest)
  | [] => none

/-- The first character of a string, and the text behind it, unless the string ends. -/
def readChar? : List Char → Option (Char × List Char)
  | [] => none
  | c :: rest =>
    if c = '"' then none
    else if c = '\\' then readEscape? rest
    else some (c, rest)

theorem hexValue_digitChar :
    ∀ n < 32, 16 * hexValue (Nat.digitChar (n / 16)) + hexValue (Nat.digitChar (n % 16)) = n := by
  decide

/-- A character is found again behind its escape. -/
theorem readChar?_escapeChar (c : Char) (rest : List Char) :
    readChar? (escapeChar c ++ rest) = some (c, rest) := by
  rw [escapeChar]
  split_ifs with hquote hbackslash hback hfeed hline hreturn htab hcontrol
  · rw [hquote]
    rfl
  · rw [hbackslash]
    rfl
  · exact hback ▸ rfl
  · exact hfeed ▸ rfl
  · exact hline ▸ rfl
  · exact hreturn ▸ rfl
  · exact htab ▸ rfl
  · have hcode := hexValue_digitChar c.toNat hcontrol
    show some (Char.ofNat (16 * hexValue _ + hexValue _), rest) = some (c, rest)
    rw [hcode, Char.ofNat_toNat]
  · rw [List.singleton_append, readChar?, if_neg hquote, if_neg hbackslash]

theorem flatMap_escapeChar_append_inj {cs ds r s : List Char}
    (h : cs.flatMap escapeChar ++ '"' :: r = ds.flatMap escapeChar ++ '"' :: s) : cs = ds ∧ r = s := by
  have hend : ∀ rest, readChar? ('"' :: rest) = none := fun rest => rfl
  induction cs generalizing ds with
  | nil =>
    cases ds with
    | nil => exact ⟨rfl, (List.cons.inj h).2⟩
    | cons d ds =>
      have hread := congrArg readChar? h
      rw [List.flatMap_nil, List.nil_append, hend, List.flatMap_cons, List.append_assoc,
        readChar?_escapeChar] at hread
      cases hread
  | cons c cs ih =>
    have hread := congrArg readChar? h
    rw [List.flatMap_cons, List.append_assoc, readChar?_escapeChar] at hread
    cases ds with
    | nil =>
      rw [List.flatMap_nil, List.nil_append, hend] at hread
      cases hread
    | cons d ds =>
      rw [List.flatMap_cons, List.append_assoc, readChar?_escapeChar, Option.some.injEq,
        Prod.mk.injEq] at hread
      obtain ⟨rfl, hrest⟩ := hread
      obtain ⟨rfl, hend⟩ := ih hrest
      exact ⟨rfl, hend⟩

/-- A string literal ends at its quote. -/
theorem quote_append_inj {a b : String} {r s : List Char} (h : quote a ++ r = quote b ++ s) :
    a = b ∧ r = s := by
  rw [quote, quote, List.append_assoc, List.append_assoc] at h
  obtain ⟨hchars, hrest⟩ := flatMap_escapeChar_append_inj (List.cons.inj h).2
  exact ⟨String.toList_inj.mp hchars, hrest⟩

/-! ### Items between brackets -/

section

variable {α : Type} {text : α → List Char} {closing : Char}

/-- The texts of more items, each behind its comma. -/
def behindCommas (text : α → List Char) (items : List α) : List Char :=
  items.flatMap fun item => ',' :: text item

theorem intercalate_map_cons (item : α) (items : List α) :
    [','].intercalate ((item :: items).map text) = text item ++ behindCommas text items := by
  induction items generalizing item with
  | nil => simp [behindCommas]
  | cons next items ih =>
    rw [List.map_cons, List.map_cons, List.intercalate_cons_cons, ← List.map_cons, ih]
    simp [behindCommas]

theorem enclose_compact (depth : Nat) (opening : Char) (texts : List (List Char)) :
    enclose .compact depth opening closing texts = opening :: ([','].intercalate texts ++ [closing]) := by
  cases texts with
  | nil => rfl
  | cons first rest => simp [enclose, JsonStyle.compact]

theorem endsValue_behindCommas (hclosing : closing = ']' ∨ closing = '\x7d') (items : List α)
    (rest : List Char) : EndsValue (behindCommas text items ++ closing :: rest) := by
  cases items with
  | nil => exact endsValue_cons (Or.inr hclosing) rest
  | cons item items => exact endsValue_cons (Or.inl rfl) _

/-- Items behind commas are as many as there are texts up to the closing bracket, and the same. -/
theorem behindCommas_append_inj (hclosing : closing = ']' ∨ closing = '\x7d') {as bs : List α}
    (hitems : ∀ a ∈ as, ∀ b ∈ bs, IsSeparable text a b) {r s : List Char}
    (h : behindCommas text as ++ closing :: r = behindCommas text bs ++ closing :: s) :
    as = bs ∧ r = s := by
  have hcomma : closing ≠ ',' := by
    obtain rfl | rfl := hclosing
    · decide
    · decide
  induction as generalizing bs with
  | nil =>
    cases bs with
    | nil => exact ⟨rfl, (List.cons.inj h).2⟩
    | cons b bs => exact absurd (List.cons.inj h).1 hcomma
  | cons a as ih =>
    cases bs with
    | nil => exact absurd (List.cons.inj h).1.symm hcomma
    | cons b bs =>
      simp only [behindCommas, List.flatMap_cons, List.cons_append, List.append_assoc, List.cons.injEq,
        true_and] at h
      -- the first two texts end at a comma or at the bracket, so that what follows them agrees too
      obtain ⟨rfl, hrest⟩ := hitems a List.mem_cons_self b List.mem_cons_self _ _
        (endsValue_behindCommas hclosing as r) (endsValue_behindCommas hclosing bs s) h
      obtain ⟨rfl, hend⟩ := ih
        (fun a ha b hb => hitems a (List.mem_cons_of_mem _ ha) b (List.mem_cons_of_mem _ hb)) hrest
      exact ⟨rfl, hend⟩

/-- A text that starts with something else than a closing bracket. -/
def StartsItem (cs : List Char) : Prop :=
  ∃ c rest, cs = c :: rest ∧ c ≠ ']' ∧ c ≠ '\x7d'

theorem StartsItem.append_ne (hclosing : closing = ']' ∨ closing = '\x7d') {cs : List Char}
    (h : StartsItem cs) (more rest : List Char) : cs ++ more ≠ closing :: rest := by
  obtain ⟨c, cs, rfl, hsquare, hcurly⟩ := h
  intro heq
  have hc : c = closing := (List.cons.inj heq).1
  obtain rfl | rfl := hclosing
  · exact hsquare hc
  · exact hcurly hc

/-- **Items between brackets.** -/
theorem enclose_append_inj {depth : Nat} {opening : Char} (hclosing : closing = ']' ∨ closing = '\x7d')
    {as bs : List α} (has : ∀ a ∈ as, StartsItem (text a)) (hbs : ∀ b ∈ bs, StartsItem (text b))
    (hitems : ∀ a ∈ as, ∀ b ∈ bs, IsSeparable text a b) {r s : List Char}
    (h : enclose .compact depth opening closing (as.map text) ++ r
      = enclose .compact depth opening closing (bs.map text) ++ s) : as = bs ∧ r = s := by
  rw [enclose_compact, enclose_compact, List.cons_append, List.cons_append, List.append_assoc,
    List.append_assoc, List.singleton_append, List.singleton_append] at h
  replace h := (List.cons.inj h).2
  match as, bs with
  | [], [] => exact ⟨rfl, (List.cons.inj h).2⟩
  | [], b :: bs =>
    rw [intercalate_map_cons, List.append_assoc] at h
    exact absurd h.symm ((hbs b List.mem_cons_self).append_ne hclosing _ _)
  | a :: as, [] =>
    rw [intercalate_map_cons, List.append_assoc] at h
    exact absurd h ((has a List.mem_cons_self).append_ne hclosing _ _)
  | a :: as, b :: bs =>
    apply behindCommas_append_inj hclosing hitems
    simp only [behindCommas, List.flatMap_cons, List.cons_append, List.cons.injEq, true_and]
    rw [intercalate_map_cons, intercalate_map_cons] at h
    exact h

end

/-! ### All values -/

theorem writeItems_eq_map (style : JsonStyle) (depth : Nat) (items : List Json) :
    writeItems style depth items = items.map (write style depth) := by
  induction items with
  | nil => rfl
  | cons item items ih => rw [writeItems, ih, List.map_cons]

/-- The text of a field. -/
def writeField (style : JsonStyle) (depth : Nat) (field : String × Json) : List Char :=
  quote field.1 ++ ':' :: style.gap ++ write style depth field.2

theorem writeFields_eq_map (style : JsonStyle) (depth : Nat) (fields : List (String × Json)) :
    writeFields style depth fields = fields.map (writeField style depth) := by
  induction fields with
  | nil => rfl
  | cons field fields ih =>
    rw [writeFields, ih, List.map_cons]
    rfl

/-- A character that stands for the first characters of the texts of one sort of values. -/
def initial : Json → Char
  | .null => 'n'
  | .bool _ => 't'
  | .int _ => '0'
  | .real _ => '0'
  | .string _ => '"'
  | .array _ => '['
  | .object _ => '\x7b'

/-- What stands for a first character: zero for the characters of numbers, and one letter for both truth
values. -/
def initialOf (c : Char) : Char :=
  if Decimal.isNumberChar c then '0' else if c = 'f' then 't' else c

/-- Numbers are written with the characters of numbers. -/
theorem isNumberChar_of_mem_write {depth : Nat} {j : Json} (h : j.IsFinite) (hsort : initial j = '0') :
    ∀ c ∈ write .compact depth j, Decimal.isNumberChar c = true := by
  cases h with
  | int n => exact Decimal.isNumberChar_of_mem_writeInt n
  | real hfinite => exact Binary64.isNumberChar_of_mem_json hfinite
  | _ => simp [initial] at hsort

/-- The first character of a text tells what sort of value is written. -/
theorem exists_cons_of_write (depth : Nat) {j : Json} (h : j.IsFinite) :
    ∃ c rest, write .compact depth j = c :: rest ∧ initialOf c = initial j := by
  have hnumber : initial j = '0' → write .compact depth j ≠ [] →
      ∃ c rest, write .compact depth j = c :: rest ∧ initialOf c = initial j := by
    intro hsort hne
    obtain ⟨c, rest, hwrite⟩ := List.exists_cons_of_ne_nil hne
    have hc := isNumberChar_of_mem_write h hsort c (hwrite ▸ List.mem_cons_self)
    exact ⟨c, rest, hwrite, (if_pos hc).trans hsort.symm⟩
  cases h with
  | null => exact ⟨_, _, rfl, rfl⟩
  | bool b =>
    cases b with
    | true => exact ⟨_, _, rfl, rfl⟩
    | false => exact ⟨_, _, rfl, rfl⟩
  | int n => exact hnumber rfl (Decimal.writeInt_ne_nil n)
  | real hfinite => exact hnumber rfl (Binary64.json_ne_nil hfinite)
  | string s => exact ⟨_, _, rfl, rfl⟩
  | array =>
    rw [write, enclose_compact]
    exact ⟨_, _, rfl, rfl⟩
  | object =>
    rw [write, enclose_compact]
    exact ⟨_, _, rfl, rfl⟩

/-- No value starts with a closing bracket. -/
theorem initial_ne (j : Json) : initial j ≠ ']' ∧ initial j ≠ '\x7d' := by
  cases j <;> simp [initial]

theorem startsItem_write (depth : Nat) {j : Json} (h : j.IsFinite) :
    StartsItem (write .compact depth j) := by
  obtain ⟨c, rest, hwrite, hc⟩ := exists_cons_of_write depth h
  obtain ⟨hsquare, hcurly⟩ := initial_ne j
  refine ⟨c, rest, hwrite, ?_, ?_⟩
  · rintro rfl
    exact hsquare hc.symm
  · rintro rfl
    exact hcurly hc.symm

theorem startsItem_writeField (depth : Nat) (field : String × Json) :
    StartsItem (writeField .compact depth field) :=
  ⟨'"', _, rfl, by decide, by decide⟩

section

variable {depth : Nat} {j k : Json}

/-- Values of different sorts are told apart by the first characters of their texts. -/
theorem isSeparable_of_initial (hj : j.IsFinite) (hk : k.IsFinite)
    (h : initial j = initial k → IsSeparable (write .compact depth) j k) :
    IsSeparable (write .compact depth) j k := by
  intro r s hr hs htext
  refine h ?_ r s hr hs htext
  obtain ⟨c, front, hwrite, hc⟩ := exists_cons_of_write depth hj
  obtain ⟨c', front', hwrite', hc'⟩ := exists_cons_of_write depth hk
  rw [hwrite, hwrite'] at htext
  rw [← hc, ← hc', (List.cons.inj htext).1]

theorem isSeparable_bool (a b : Bool) : IsSeparable (write .compact depth) (.bool a) (.bool b) := by
  intro r s _ _ h
  match a, b with
  | true, true => exact ⟨rfl, List.append_cancel_left h⟩
  | false, false => exact ⟨rfl, List.append_cancel_left h⟩
  | true, false => exact absurd (List.cons.inj h).1 (by decide)
  | false, true => exact absurd (List.cons.inj h).1 (by decide)

/-- No two numbers have one text, and none of the one kind has a text of the other. -/
theorem number_inj (hj : j.IsFinite) (hsort : initial j = '0') (hk : k.IsFinite)
    (hsort' : initial k = '0') (h : write .compact depth j = write .compact depth k) : j = k := by
  cases hj with
  | int m =>
    cases hk with
    | int n => exact congrArg Json.int (Decimal.writeInt_inj h)
    | real hfinite => exact absurd h.symm (Binary64.json_ne_writeInt hfinite m)
    | _ => simp [initial] at hsort'
  | real hfinite =>
    cases hk with
    | int n => exact absurd h (Binary64.json_ne_writeInt hfinite n)
    | real hfinite' => exact congrArg Json.real (Binary64.json_inj hfinite hfinite' h)
    | _ => simp [initial] at hsort'
  | _ => simp [initial] at hsort

theorem isSeparable_number (hj : j.IsFinite) (hsort : initial j = '0') (hk : k.IsFinite)
    (hsort' : initial k = '0') : IsSeparable (write .compact depth) j k := by
  intro r s hr hs h
  obtain ⟨htext, hend⟩ := number_append_inj (isNumberChar_of_mem_write hj hsort)
    (isNumberChar_of_mem_write hk hsort') hr hs h
  exact ⟨number_inj hj hsort hk hsort' htext, hend⟩

theorem isSeparable_string (a b : String) :
    IsSeparable (write .compact depth) (.string a) (.string b) := by
  intro r s _ _ h
  obtain ⟨rfl, hend⟩ := quote_append_inj h
  exact ⟨rfl, hend⟩

/-- Arrays can be told apart by their texts if their items can. -/
theorem isSeparable_array {items items' : List Json} (hj : ∀ item ∈ items, item.IsFinite)
    (hk : ∀ item ∈ items', item.IsFinite)
    (h : ∀ a ∈ items, ∀ b ∈ items', IsSeparable (write .compact (depth + 1)) a b) :
    IsSeparable (write .compact depth) (.array items) (.array items') := by
  intro r s _ _ htext
  rw [write, write, writeItems_eq_map, writeItems_eq_map] at htext
  obtain ⟨rfl, hend⟩ := enclose_append_inj (Or.inl rfl) (fun a ha => startsItem_write _ (hj a ha))
    (fun b hb => startsItem_write _ (hk b hb)) h htext
  exact ⟨rfl, hend⟩

/-- Fields can be told apart by their texts if their values can. -/
theorem isSeparable_writeField {field field' : String × Json}
    (h : IsSeparable (write .compact depth) field.2 field'.2) :
    IsSeparable (writeField .compact depth) field field' := by
  intro r s hr hs htext
  rw [writeField, writeField, List.append_assoc, List.append_assoc, List.append_assoc,
    List.append_assoc] at htext
  obtain ⟨hkey, hrest⟩ := quote_append_inj htext
  obtain ⟨hvalue, hend⟩ := h r s hr hs (List.cons.inj hrest).2
  exact ⟨Prod.ext hkey hvalue, hend⟩

theorem isSeparable_object {fields fields' : List (String × Json)}
    (h : ∀ a ∈ fields, ∀ b ∈ fields', IsSeparable (write .compact (depth + 1)) a.2 b.2) :
    IsSeparable (write .compact depth) (.object fields) (.object fields') := by
  intro r s _ _ htext
  rw [write, write, writeFields_eq_map, writeFields_eq_map] at htext
  obtain ⟨rfl, hend⟩ := enclose_append_inj (Or.inr rfl) (fun a _ => startsItem_writeField _ a)
    (fun b _ => startsItem_writeField _ b) (fun a ha b hb => isSeparable_writeField (h a ha b hb)) htext
  exact ⟨rfl, hend⟩

/-- **Reading a value off a text.**  The compact text of a value tells the value and where it ends. -/
theorem isSeparable_write (hj : j.IsFinite) (hk : k.IsFinite) :
    IsSeparable (write .compact depth) j k := by
  -- the items of arrays and objects stand one level deeper, in front of any text
  induction hj generalizing depth k with
  | null =>
    refine isSeparable_of_initial .null hk fun hsort => ?_
    cases hk with
    | null => exact fun r s _ _ h => ⟨rfl, List.append_cancel_left h⟩
    | _ => simp [initial] at hsort
  | bool a =>
    refine isSeparable_of_initial (.bool a) hk fun hsort => ?_
    cases hk with
    | bool b => exact isSeparable_bool a b
    | _ => simp [initial] at hsort
  | int m =>
    exact isSeparable_of_initial (.int m) hk fun hsort =>
      isSeparable_number (.int m) rfl hk hsort.symm
  | real hfinite =>
    exact isSeparable_of_initial (.real hfinite) hk fun hsort =>
      isSeparable_number (.real hfinite) rfl hk hsort.symm
  | string a =>
    refine isSeparable_of_initial (.string a) hk fun hsort => ?_
    cases hk with
    | string b => exact isSeparable_string a b
    | _ => simp [initial] at hsort
  | array hitems ih =>
    refine isSeparable_of_initial (.array hitems) hk fun hsort => ?_
    cases hk with
    | array hitems' => exact isSeparable_array hitems hitems' fun a ha b hb => ih a ha (hitems' b hb)
    | _ => simp [initial] at hsort
  | object hfields ih =>
    refine isSeparable_of_initial (.object hfields) hk fun hsort => ?_
    cases hk with
    | object hfields' => exact isSeparable_object fun a ha b hb => ih a ha (hfields' b hb)
    | _ => simp [initial] at hsort

/-- **No two values have one text.** -/
theorem write_inj (hj : j.IsFinite) (hk : k.IsFinite)
    (h : write .compact depth j = write .compact depth k) : j = k :=
  (isSeparable_write hj hk [] [] endsValue_nil endsValue_nil (congrArg (· ++ []) h)).1

end

end Json

end QueryPipeline
