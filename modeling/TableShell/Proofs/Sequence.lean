import Mathlib.Data.List.Defs

/-!
# Steps that may fail, one after the other

What is known about a chain of `Except` steps from its outcome. A chain comes out well exactly if
each of its steps does (`bind_eq_ok_iff`), and a step taken for every member of a list comes out
well exactly if it does so for each member (`mapM_eq_ok_iff`). Such a step, or a check that is made
of every member, fails at the first one for which it does not come out well, with the error of that
one (`mapM_eq_error_iff`, `forM_eq_error_iff`). A chain has no errors but those of its steps. And
two chains whose steps match one by one match as a whole (`Matched`). Where the steps change a state
besides, the state is handed on from each to the next, up to the first error (`run_bind`).
-/

namespace TableShell

namespace Sequence

variable {ε α β : Type}

/-- A chain of two steps comes out well exactly if both do. -/
theorem bind_eq_ok_iff {x : Except ε α} {f : α → Except ε β} {b : β} :
    (x >>= f) = .ok b ↔ ∃ a, x = .ok a ∧ f a = .ok b := by
  cases x with
  | error e => simp [bind, Except.bind]
  | ok a => simp [bind, Except.bind]

/-- A chain of two steps fails if the first one does, or else if the second one does. -/
theorem bind_eq_error_iff {x : Except ε α} {f : α → Except ε β} {e : ε} :
    (x >>= f) = .error e ↔ x = .error e ∨ ∃ a, x = .ok a ∧ f a = .error e := by
  cases x with
  | error e' => simp [bind, Except.bind]
  | ok a => simp [bind, Except.bind]

/-- To word an error anew changes nothing about what comes out well. -/
theorem mapError_eq_ok_iff {ε' : Type} {x : Except ε α} {f : ε → ε'} {a : α} :
    x.mapError f = .ok a ↔ x = .ok a := by
  cases x with
  | error e =>
    show Except.error (f e) = _ ↔ _
    simp
  | ok b =>
    show Except.ok b = _ ↔ _
    simp

/-- It does change what an error is. -/
theorem mapError_eq_error_iff {ε' : Type} {x : Except ε α} {f : ε → ε'} {e' : ε'} :
    x.mapError f = .error e' ↔ ∃ e, x = .error e ∧ f e = e' := by
  cases x with
  | error e =>
    show Except.error (f e) = _ ↔ _
    simp
  | ok b =>
    show Except.ok b = _ ↔ _
    simp

/-- A step taken for every member comes out well exactly if it does so for each. -/
theorem mapM_eq_ok_iff {f : α → Except ε β} {xs : List α} {ys : List β} :
    xs.mapM f = .ok ys ↔ xs.map f = ys.map .ok := by
  induction xs generalizing ys with
  | nil => simp [pure, Except.pure, eq_comm]
  | cons x xs ih =>
    rw [List.mapM_cons, bind_eq_ok_iff]
    constructor
    · rintro ⟨y, hy, h⟩
      obtain ⟨rest, hrest, h⟩ := bind_eq_ok_iff.1 h
      obtain rfl : y :: rest = ys := Except.ok.inj h
      rw [List.map_cons, List.map_cons, hy, ih.1 hrest]
    · intro h
      cases ys with
      | nil => simp at h
      | cons y ys =>
        obtain ⟨hy, hrest⟩ := List.cons.inj h
        exact ⟨y, hy, bind_eq_ok_iff.2 ⟨ys, ih.2 hrest, rfl⟩⟩

/-- A step that comes out well for every member does so for the list. -/
theorem mapM_eq_ok {f : α → Except ε β} {g : α → β} {xs : List α} (h : ∀ x ∈ xs, f x = .ok (g x)) :
    xs.mapM f = .ok (xs.map g) := by
  rw [mapM_eq_ok_iff, List.map_map]
  exact List.map_congr_left h

/-- A step taken for every member fails as it does for the first member for which it fails. -/
theorem mapM_eq_error_iff {f : α → Except ε β} {xs : List α} {e : ε} :
    xs.mapM f = .error e ↔
      ∃ before x after, xs = before ++ x :: after ∧ (∀ y ∈ before, ∃ b, f y = .ok b) ∧
        f x = .error e := by
  induction xs with
  | nil => simp [pure, Except.pure]
  | cons x xs ih =>
    rw [List.mapM_cons, bind_eq_error_iff]
    constructor
    · rintro (hx | ⟨b, hx, hrest⟩)
      · exact ⟨[], x, xs, rfl, nofun, hx⟩
      · rcases bind_eq_error_iff.1 hrest with hxs | ⟨bs, -, h⟩
        · obtain ⟨before, y, after, rfl, hbefore, hy⟩ := ih.1 hxs
          exact ⟨x :: before, y, after, rfl, List.forall_mem_cons.2 ⟨⟨b, hx⟩, hbefore⟩, hy⟩
        · cases h
    · rintro ⟨before, y, after, hxs, hbefore, hy⟩
      -- the failing member is the first one if there is nothing before it
      rcases before with - | ⟨z, before⟩
      · obtain ⟨rfl, rfl⟩ := List.cons.inj hxs
        exact .inl hy
      · obtain ⟨rfl, rfl⟩ := List.cons.inj hxs
        obtain ⟨⟨b, hx⟩, hbefore⟩ := List.forall_mem_cons.1 hbefore
        have hrest := ih.2 ⟨before, y, after, rfl, hbefore, hy⟩
        exact .inr ⟨b, hx, bind_eq_error_iff.2 (.inl hrest)⟩

/-- In particular it fails only in a way in which it does for one of them. -/
theorem exists_of_mapM_eq_error {f : α → Except ε β} {xs : List α} {e : ε}
    (h : xs.mapM f = .error e) : ∃ x ∈ xs, f x = .error e := by
  obtain ⟨before, x, after, rfl, -, hx⟩ := mapM_eq_error_iff.1 h
  exact ⟨x, List.mem_append_right before List.mem_cons_self, hx⟩

/-- If what is fed into each step of a fold is computed well, the fold runs on the computed list. -/
theorem foldlM_bind {γ : Type} {f : α → Except ε β} {g : α → β} {step : γ → β → Except ε γ}
    {xs : List α} (h : ∀ x ∈ xs, f x = .ok (g x)) (start : γ) :
    xs.foldlM (fun acc x ↦ do step acc (← f x)) start = (xs.map g).foldlM step start := by
  induction xs generalizing start with
  | nil => rfl
  | cons x xs ih =>
    obtain ⟨hx, hxs⟩ := List.forall_mem_cons.1 h
    rw [List.foldlM_cons, List.map_cons, List.foldlM_cons, hx]
    show (step start (g x) >>= _) = _
    exact congrArg _ (funext fun acc ↦ ih hxs acc)

/-- A check passes for a list exactly if it passes for every member. -/
theorem forM_eq_ok_iff {f : α → Except ε Unit} {xs : List α} :
    xs.forM f = .ok () ↔ ∀ x ∈ xs, f x = .ok () := by
  induction xs with
  | nil => simp [pure, Except.pure]
  | cons x xs ih =>
    show (f x >>= fun _ ↦ xs.forM f) = _ ↔ _
    rw [bind_eq_ok_iff, List.forall_mem_cons, ← ih]
    constructor
    · rintro ⟨_, hx, hxs⟩
      exact ⟨hx, hxs⟩
    · rintro ⟨hx, hxs⟩
      exact ⟨(), hx, hxs⟩

/-- A check of a list fails at its first member that does not pass. -/
theorem forM_eq_error_iff {f : α → Except ε Unit} {xs : List α} {e : ε} :
    xs.forM f = .error e ↔
      ∃ before x after, xs = before ++ x :: after ∧ (∀ y ∈ before, f y = .ok ()) ∧
        f x = .error e := by
  induction xs with
  | nil => simp [pure, Except.pure]
  | cons x xs ih =>
    show (f x >>= fun _ ↦ xs.forM f) = _ ↔ _
    rw [bind_eq_error_iff]
    constructor
    · rintro (hx | ⟨_, hx, hxs⟩)
      · exact ⟨[], x, xs, rfl, by simp, hx⟩
      · obtain ⟨before, y, after, rfl, hbefore, hy⟩ := ih.1 hxs
        exact ⟨x :: before, y, after, rfl, List.forall_mem_cons.2 ⟨hx, hbefore⟩, hy⟩
    · rintro ⟨before, y, after, hxs, hbefore, hy⟩
      -- the failing member is the first one if nothing passes before it
      cases before with
      | nil =>
        obtain ⟨rfl, rfl⟩ := List.cons.inj hxs
        exact .inl hy
      | cons z before =>
        obtain ⟨rfl, rfl⟩ := List.cons.inj hxs
        obtain ⟨hx, hbefore⟩ := List.forall_mem_cons.1 hbefore
        exact .inr ⟨(), hx, ih.2 ⟨before, y, after, rfl, hbefore, hy⟩⟩

/-- The second of two steps that change a state is taken if the first one comes out well. -/
theorem run_bind {σ : Type} (x : ExceptT ε (StateM σ) α) (f : α → ExceptT ε (StateM σ) β) (s : σ) :
    (x >>= f).run.run s =
      match x.run.run s with
      | (.ok a, s) => (f a).run.run s
      | (.error e, s) => (.error e, s) := by
  show (x.run.run s >>= fun p ↦ StateT.run (ExceptT.bindCont f p.1) p.2 : Id _) = _
  rcases h : x.run.run s with ⟨_ | a, s⟩ <;> rfl

/-! ### Errors that do not arise -/

variable {e : ε}

theorem pure_ne_error (a : α) : (pure a : Except ε α) ≠ .error e :=
  fun h ↦ by cases h

/-- A chain of two steps does not fail in a way in which neither of them fails. -/
theorem bind_ne_error {x : Except ε α} {f : α → Except ε β} (hx : x ≠ .error e)
    (hf : ∀ a, f a ≠ .error e) : x >>= f ≠ .error e := by
  intro h
  rcases bind_eq_error_iff.1 h with h | ⟨a, -, h⟩
  · exact hx h
  · exact hf a h

theorem mapM_ne_error {f : α → Except ε β} (hf : ∀ x, f x ≠ .error e) (xs : List α) :
    xs.mapM f ≠ .error e := by
  intro h
  obtain ⟨x, -, hx⟩ := exists_of_mapM_eq_error h
  exact hf x hx

theorem forM_ne_error {f : α → Except ε Unit} (hf : ∀ x, f x ≠ .error e) (xs : List α) :
    xs.forM f ≠ .error e := by
  intro h
  obtain ⟨-, x, -, -, -, hx⟩ := forM_eq_error_iff.1 h
  exact hf x hx

theorem foldlM_ne_error {step : β → α → Except ε β} (hstep : ∀ b x, step b x ≠ .error e)
    (xs : List α) (start : β) : xs.foldlM step start ≠ .error e := by
  induction xs generalizing start with
  | nil => exact pure_ne_error start
  | cons x xs ih =>
    rw [List.foldlM_cons]
    exact bind_ne_error (hstep start x) ih

/-! ### Two chains side by side -/

/-- Two outcomes that are the same error, or values that stand in a relation. -/
inductive Matched (r : α → β → Prop) : Except ε α → Except ε β → Prop
  | ok {a : α} {b : β} (h : r a b) : Matched r (.ok a) (.ok b)
  | error (e : ε) : Matched r (.error e) (.error e)

namespace Matched

variable {γ δ : Type} {r : α → β → Prop} {q : γ → δ → Prop} {x : Except ε α} {y : Except ε β}

/-- Chains match if their first steps do and the second steps do on values in that relation. -/
theorem bind {f : α → Except ε γ} {g : β → Except ε δ} (h : Matched r x y)
    (hnext : ∀ a b, r a b → Matched q (f a) (g b)) : Matched q (x >>= f) (y >>= g) := by
  cases h with
  | ok h => exact hnext _ _ h
  | error e => exact .error e

/-- Chains that share their first step match if the second steps do. -/
theorem bind_left {f : α → Except ε γ} {g : α → Except ε δ}
    (hnext : ∀ a, Matched q (f a) (g a)) : Matched q (x >>= f) (x >>= g) := by
  cases x with
  | ok a => exact hnext a
  | error e => exact .error e

theorem mono {r' : α → β → Prop} (h : Matched r x y) (hr : ∀ a b, r a b → r' a b) :
    Matched r' x y := by
  cases h with
  | ok h => exact .ok (hr _ _ h)
  | error e => exact .error e

/-- Outcomes with equal values are equal. -/
theorem eq {y : Except ε α} (h : Matched Eq x y) : x = y := by
  cases h with
  | ok h => rw [h]
  | error e => rfl

/-- To word the errors anew is nothing to a match. -/
theorem mapError {ε' : Type} {f : ε → ε'} (h : Matched r x y) :
    Matched r (x.mapError f) (y.mapError f) := by
  cases h with
  | ok h => exact .ok h
  | error e => exact .error (f e)

/-- Steps that match for every member come to lists that match member by member. -/
theorem mapM {f : γ → Except ε α} {g : γ → Except ε β} (h : ∀ c, Matched r (f c) (g c))
    (cs : List γ) : Matched (List.Forall₂ r) (cs.mapM f) (cs.mapM g) := by
  induction cs with
  | nil => exact .ok .nil
  | cons c cs ih =>
    rw [List.mapM_cons, List.mapM_cons]
    exact (h c).bind fun a b hab ↦ ih.bind fun rest others hrest ↦ .ok (.cons hab hrest)

end Matched

end Sequence

end TableShell
