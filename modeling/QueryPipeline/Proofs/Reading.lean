import QueryPipeline.Query.Compile

/-!
# Reading lists up to the first fault

Segments, groups, alternatives and fields are all read in the same way: piece by piece from the left,
and the first piece that is at fault decides the answer.  This module says once what such a reading
gives.

* **`mapM_append_eq`** — a list in two parts is read as its first part, then as its second;
* **`mapM_eq_ok_append_iff`** — a list that is read is read part by part;
* **`Decides`** — an input is accepted exactly if it has one property, and refused with exactly the
  faults that it has;
* **`Decides.steps`** — reading a list in steps accepts exactly the lists of accepted pieces, and fails
  exactly with the fault of the first piece that has one;
* **`Decides.mapM`** — in particular if the pieces are read independently of each other.
-/

namespace QueryPipeline.Reading

variable {α β γ ε : Type}

/-! ### Results under a function -/

theorem map_eq_ok_iff {r : Except ε α} {f : α → β} {b : β} :
    r.map f = .ok b ↔ ∃ a, r = .ok a ∧ f a = b := by
  cases r with
  | error e => simp [Except.map]
  | ok a => simp [Except.map]

theorem map_eq_error_iff {r : Except ε α} {f : α → β} {e : ε} :
    r.map f = .error e ↔ r = .error e := by
  cases r with
  | error e' => simp [Except.map]
  | ok a => simp [Except.map]

theorem exists_map_eq_ok_iff {r : Except ε α} {f : α → β} :
    (∃ b, r.map f = .ok b) ↔ ∃ a, r = .ok a := by
  cases r with
  | error e => simp [Except.map]
  | ok a => simp [Except.map]

theorem map_map (r : Except ε α) (f : α → β) (g : β → γ) :
    (r.map f).map g = r.map fun a => g (f a) := by
  cases r with
  | error e => rfl
  | ok a => rfl

theorem map_eq_map {f g : α → β} {r : Except ε α} (h : ∀ a, r = .ok a → f a = g a) :
    r.map f = r.map g := by
  cases r with
  | error e => rfl
  | ok a => exact congrArg Except.ok (h a rfl)

/-! ### Lists -/

theorem mapM_cons_eq (read : α → Except ε β) (a : α) (as : List α) :
    (a :: as).mapM read
      = match read a with
        | .error e => .error e
        | .ok b => (as.mapM read).map fun bs => b :: bs := by
  rw [List.mapM_cons]
  cases read a with
  | error e => rfl
  | ok b => cases as.mapM read with
    | error e => rfl
    | ok bs => rfl

/-- A list in two parts is read as its first part, then as its second. -/
theorem mapM_append_eq (read : α → Except ε β) (as as' : List α) :
    (as ++ as').mapM read
      = match as.mapM read with
        | .error e => .error e
        | .ok bs => (as'.mapM read).map fun bs' => bs ++ bs' := by
  rw [List.mapM_append]
  cases as.mapM read with
  | error e => rfl
  | ok bs => cases as'.mapM read with
    | error e => rfl
    | ok bs' => rfl

theorem mapM_cons_eq_ok_iff {read : α → Except ε β} {a : α} {as : List α} {cs : List β} :
    (a :: as).mapM read = .ok cs
      ↔ ∃ b bs, read a = .ok b ∧ as.mapM read = .ok bs ∧ cs = b :: bs := by
  rw [mapM_cons_eq]
  cases read a with
  | error e => simp
  | ok b => simp [map_eq_ok_iff, eq_comm (a := cs)]

/-- A list that is read is read part by part. -/
theorem mapM_eq_ok_append_iff {read : α → Except ε β} {as as' : List α} {cs : List β} :
    (as ++ as').mapM read = .ok cs
      ↔ ∃ bs bs', as.mapM read = .ok bs ∧ as'.mapM read = .ok bs' ∧ cs = bs ++ bs' := by
  rw [mapM_append_eq]
  cases as.mapM read with
  | error e => simp
  | ok bs => simp [map_eq_ok_iff, eq_comm (a := cs)]

theorem length_of_mapM {read : α → Except ε β} {as : List α} {bs : List β}
    (h : as.mapM read = .ok bs) : bs.length = as.length := by
  induction as generalizing bs with
  | nil =>
    cases h
    rfl
  | cons a as ih =>
    obtain ⟨b, bs', -, hrest, rfl⟩ := mapM_cons_eq_ok_iff.mp h
    rw [List.length_cons, List.length_cons, ih hrest]

/-- Readings that agree on every piece of a list agree on the list. -/
theorem mapM_congr {read read' : α → Except ε β} {as : List α} (h : ∀ a ∈ as, read a = read' a) :
    as.mapM read = as.mapM read' := by
  induction as with
  | nil => rfl
  | cons a as ih =>
    obtain ⟨hfirst, hrest⟩ := List.forall_mem_cons.mp h
    rw [mapM_cons_eq, mapM_cons_eq, hfirst, ih hrest]

/-- What every piece lists of what is read from it, the whole reading lists of the pieces. -/
theorem flatMap_of_mapM {read : α → Except ε β} {f : β → List γ} {g : α → List γ}
    (hfg : ∀ a b, read a = .ok b → f b = g a) {as : List α} {bs : List β}
    (h : as.mapM read = .ok bs) : bs.flatMap f = as.flatMap g := by
  induction as generalizing bs with
  | nil =>
    cases h
    rfl
  | cons a as ih =>
    obtain ⟨b, bs', hb, hrest, rfl⟩ := mapM_cons_eq_ok_iff.mp h
    rw [List.flatMap_cons, List.flatMap_cons, hfg a b hb, ih hrest]

theorem map_of_mapM {read : α → Except ε β} {f : β → γ} {g : α → γ}
    (hfg : ∀ a b, read a = .ok b → f b = g a) {as : List α} {bs : List β}
    (h : as.mapM read = .ok bs) : bs.map f = as.map g := by
  rw [List.map_eq_flatMap, List.map_eq_flatMap]
  exact flatMap_of_mapM (fun a b hb => by rw [hfg a b hb]) h

theorem forall_of_mapM {read : α → Except ε β} {p : β → Prop} {as : List α}
    (hp : ∀ a ∈ as, ∀ b, read a = .ok b → p b) {bs : List β} (h : as.mapM read = .ok bs) :
    ∀ b ∈ bs, p b := by
  induction as generalizing bs with
  | nil =>
    cases h
    exact fun b hb => absurd hb List.not_mem_nil
  | cons a as ih =>
    obtain ⟨b, bs', hb, hrest, rfl⟩ := mapM_cons_eq_ok_iff.mp h
    intro c hc
    rcases List.mem_cons.mp hc with rfl | hc
    · exact hp a List.mem_cons_self c hb
    · exact ih (fun a' ha' => hp a' (List.mem_cons_of_mem _ ha')) hrest c hc

/-! ### The first fault -/

/-- Some piece has the fault `e`, and every piece before it is fine. -/
def FirstFault (fine : α → Prop) (fault : α → ε → Prop) (as : List α) (e : ε) : Prop :=
  ∃ before a after, as = before ++ a :: after ∧ (∀ b ∈ before, fine b) ∧ fault a e

theorem firstFault_cons_iff {fine : α → Prop} {fault : α → ε → Prop} {a : α} {as : List α} {e : ε} :
    FirstFault fine fault (a :: as) e ↔ fault a e ∨ (fine a ∧ FirstFault fine fault as e) := by
  constructor
  · intro h
    obtain ⟨before, b, after, heq, hfine, hfault⟩ := h
    cases before with
    | nil =>
      cases heq
      exact Or.inl hfault
    | cons c before =>
      cases heq
      exact Or.inr ⟨hfine a List.mem_cons_self, before, b, after, rfl,
        fun d hd => hfine d (List.mem_cons_of_mem _ hd), hfault⟩
  · intro h
    obtain hfault | ⟨hfine, before, b, after, rfl, hbefore, hfault⟩ := h
    · exact ⟨[], a, as, rfl, fun _ h => absurd h List.not_mem_nil, hfault⟩
    · refine ⟨a :: before, b, after, rfl, ?_, hfault⟩
      intro d hd
      rcases List.mem_cons.mp hd with rfl | hd
      · exact hfine
      · exact hbefore d hd

/-- What was read is accepted exactly if the input is `fine`, and otherwise it has exactly its `fault`. -/
structure Decides (r : Except ε β) (fine : Prop) (fault : ε → Prop) : Prop where
  /-- When it is accepted. -/
  ok_iff : (∃ b, r = .ok b) ↔ fine
  /-- When it is refused, and why. -/
  error_iff : ∀ e, r = .error e ↔ fault e

namespace Decides

section

variable {fine : Prop} {fault : ε → Prop}

theorem not_fine {r : Except ε β} (h : Decides r fine fault) {e : ε} (hr : r = .error e) :
    ¬ fine := by
  intro hfine
  obtain ⟨b, hb⟩ := h.ok_iff.mpr hfine
  rw [hr] at hb
  cases hb

theorem ok {b : β} (hfine : fine) (hfault : ∀ e, ¬ fault e) :
    Decides (.ok b) fine fault := by
  refine ⟨⟨fun _ => hfine, fun _ => ⟨b, rfl⟩⟩, fun e => ⟨fun h => ?_, fun h => absurd h (hfault e)⟩⟩
  cases h

theorem error {e : ε} (hfine : ¬ fine)
    (hfault : ∀ e', fault e' ↔ e' = e) : Decides (.error e : Except ε β) fine fault := by
  refine ⟨⟨fun h => ?_, fun h => absurd h hfine⟩, fun e' => ?_⟩
  · obtain ⟨b, hb⟩ := h
    cases hb
  · rw [hfault e', Except.error.injEq, eq_comm]

/-- An input that can have one fault only has none if it is fine. -/
theorem accept {b : β} (e : ε) (h : fine) :
    Decides (.ok b) fine (fun e' => ¬ fine ∧ e' = e) :=
  ok h fun _ hfault => hfault.1 h

/-- An input that can have one fault only has it if it is not fine. -/
theorem refuse {e : ε} (h : ¬ fine) :
    Decides (.error e : Except ε β) fine (fun e' => ¬ fine ∧ e' = e) :=
  error h fun _ => ⟨fun hfault => hfault.2, fun he => ⟨h, he⟩⟩

theorem map {r : Except ε α} (h : Decides r fine fault) (f : α → β) :
    Decides (r.map f) fine fault := by
  refine ⟨?_, fun e => ?_⟩
  · rw [exists_map_eq_ok_iff]
    exact h.ok_iff
  · rw [map_eq_error_iff]
    exact h.error_iff e

/-- Reading the input tells whether it is fine. -/
def decidable {r : Except ε β} (h : Decides r fine fault) : Decidable fine :=
  match r, h with
  | .ok b, h => .isTrue (h.ok_iff.mp ⟨b, rfl⟩)
  | .error _, h => .isFalse (h.not_fine rfl)

theorem congr {r : Except ε β} {fine' : Prop} {fault' : ε → Prop} (h : Decides r fine fault)
    (hfine : fine ↔ fine') (hfault : ∀ e, fault e ↔ fault' e) :
    Decides r fine' fault' :=
  ⟨h.ok_iff.trans hfine, fun e => (h.error_iff e).trans (hfault e)⟩

/-- A fault that is put in other words is the same fault. -/
theorem mapError {ε' : Type} {r : Except ε α} (h : Decides r fine fault) (f : ε → ε') :
    Decides (r.mapError f) fine (fun e' => ∃ e, fault e ∧ e' = f e) := by
  cases r with
  | error e =>
    show Decides (.error (f e)) _ _
    refine error (h.not_fine rfl) (fun e' => ⟨fun hfault => ?_, fun he => ?_⟩)
    · obtain ⟨e'', hfault, rfl⟩ := hfault
      rw [Except.error.inj ((h.error_iff e'').mpr hfault)]
    · exact ⟨e, (h.error_iff e).mp rfl, he⟩
  | ok a =>
    show Decides (.ok a) _ _
    refine ok (h.ok_iff.mp ⟨a, rfl⟩) (fun e' hfault => ?_)
    obtain ⟨e, hfault, -⟩ := hfault
    have hok := (h.error_iff e).mpr hfault
    cases hok

end

variable {fine : α → Prop} {fault : α → ε → Prop}

/-- A list without pieces has nothing to refuse. -/
theorem nil {b : β} : Decides (.ok b) (∀ a ∈ ([] : List α), fine a) (FirstFault fine fault []) := by
  refine ok (fun a ha => absurd ha List.not_mem_nil) (fun e h => ?_)
  obtain ⟨before, a, after, heq, -⟩ := h
  simp at heq

/-- **Reading in steps.**  What a step reads may depend on the steps before it; if what it accepts does
not, then a list is accepted exactly when every piece is, and otherwise the reading fails exactly with
the fault of the first piece that has one. -/
theorem steps {σ δ : Type} {read : σ → α → Except ε β} {start : δ} {as : List α}
    (run : σ → List α → Except ε δ) (next : σ → β → σ) (collect : β → δ → δ)
    (hread : ∀ a ∈ as, ∀ s, Decides (read s a) (fine a) (fault a)) (hnil : ∀ s, run s [] = .ok start)
    (hcons : ∀ s a as,
      run s (a :: as) = (read s a).bind fun b => (run (next s b) as).map (collect b))
    (s : σ) : Decides (run s as) (∀ a ∈ as, fine a) (FirstFault fine fault as) := by
  induction as generalizing s with
  | nil =>
    rw [hnil]
    exact nil
  | cons a as ih =>
    have hfirst := hread a List.mem_cons_self s
    have hrest := ih fun b hb => hread b (List.mem_cons_of_mem a hb)
    rw [hcons]
    refine ⟨?_, fun e => ?_⟩
    · rw [List.forall_mem_cons, ← hfirst.ok_iff]
      cases read s a with
      | error e => simp [Except.bind]
      | ok b =>
        rw [← (hrest (next s b)).ok_iff]
        simp [Except.bind, exists_map_eq_ok_iff]
    · rw [firstFault_cons_iff, ← hfirst.error_iff, ← hfirst.ok_iff]
      cases read s a with
      | error e' => simp [Except.bind]
      | ok b =>
        rw [← (hrest (next s b)).error_iff]
        simp [Except.bind, map_eq_error_iff]

/-- **Reading a list.**  The pieces are read independently of each other. -/
theorem mapM {read : α → Except ε β} {as : List α}
    (h : ∀ a ∈ as, Decides (read a) (fine a) (fault a)) :
    Decides (as.mapM read) (∀ a ∈ as, fine a) (FirstFault fine fault as) := by
  refine steps (fun _ as => as.mapM read) (fun _ _ => ()) List.cons (fun a ha _ => h a ha)
    (fun _ => rfl) ?_ ()
  intro _ a as
  rw [mapM_cons_eq]
  cases read a with
  | error e => rfl
  | ok b => rfl

end Decides

end QueryPipeline.Reading
