import N2nGo.Lib.Fault

/-!
# Steps in a row

A step takes a value and may act on the world `σ`; it returns a value or an error. Steps in
a row stop at the first error, and the world is then the one that the failing step left:
what would have come next has not acted.
-/

set_option autoImplicit false

namespace N2nGo.Lib

variable {σ α ε ε' : Type}

/-- A call that acts on the world. -/
abbrev Step (σ α ε : Type) := σ → α → σ × Except ε α

/-- The steps from first to last. -/
def inRow : List (Step σ α ε) → Step σ α ε
  | [], s, a => (s, .ok a)
  | f :: fs, s, a =>
    match f s a with
    | (s, .error e) => (s, .error e)
    | (s, .ok a) => inRow fs s a

variable {f : Step σ α ε} {fs : List (Step σ α ε)} {s s' : σ} {a : α}

theorem inRow_cons_ok {b : α} (h : f s a = (s', .ok b)) : inRow (f :: fs) s a = inRow fs s' b := by
  rw [inRow, h]

theorem inRow_cons_error {e : ε} (h : f s a = (s', .error e)) :
    inRow (f :: fs) s a = (s', .error e) := by
  rw [inRow, h]

variable {gs : List (Step σ α ε)}

theorem inRow_append_ok {b : α} (h : inRow fs s a = (s', .ok b)) :
    inRow (fs ++ gs) s a = inRow gs s' b := by
  induction fs generalizing s a with
  | nil =>
    cases h
    rfl
  | cons f fs ih =>
    rcases hf : f s a with ⟨s1, e | a1⟩
    · rw [inRow_cons_error hf] at h
      cases h
    · rw [inRow_cons_ok hf] at h
      rw [List.cons_append, inRow_cons_ok hf, ih h]

theorem inRow_append_error {e : ε} (h : inRow fs s a = (s', .error e)) :
    inRow (fs ++ gs) s a = (s', .error e) := by
  induction fs generalizing s a with
  | nil => cases h
  | cons f fs ih =>
    rcases hf : f s a with ⟨s1, e1 | a1⟩
    · rw [inRow_cons_error hf] at h
      rw [List.cons_append, inRow_cons_error hf, h]
    · rw [inRow_cons_ok hf] at h
      rw [List.cons_append, inRow_cons_ok hf, ih h]

/-- **A row fails where one of its steps does**, and in the world that this step left. -/
theorem inRow_eq_error_iff {e : ε} :
    inRow fs s a = (s', .error e) ↔
      ∃ before f after s1 b, fs = before ++ f :: after ∧ inRow before s a = (s1, .ok b) ∧
        f s1 b = (s', .error e) := by
  constructor
  · intro h
    induction fs generalizing s a with
    | nil => cases h
    | cons f fs ih =>
      rcases hf : f s a with ⟨s1, e1 | a1⟩
      · rw [inRow_cons_error hf] at h
        cases h
        exact ⟨[], f, fs, s, a, rfl, rfl, hf⟩
      · rw [inRow_cons_ok hf] at h
        obtain ⟨before, g, after, s2, b, rfl, hbefore, hg⟩ := ih h
        exact ⟨f :: before, g, after, s2, b, rfl, (inRow_cons_ok hf).trans hbefore, hg⟩
  · rintro ⟨before, f, after, s1, b, rfl, hbefore, hf⟩
    rw [inRow_append_ok hbefore, inRow_cons_error hf]

/-- The step with another error. -/
def mapError (wrap : ε → ε') (f : Step σ α ε) : Step σ α ε' := fun s a =>
  match f s a with
  | (s, .error e) => (s, .error (wrap e))
  | (s, .ok a) => (s, .ok a)

theorem mapError_eq_ok {wrap : ε → ε'} {b : α} :
    mapError wrap f s a = (s', .ok b) ↔ f s a = (s', .ok b) := by
  unfold mapError
  rcases f s a with ⟨s1, e | a1⟩
  · simp
  · simp

theorem mapError_eq_error {wrap : ε → ε'} {err : ε'} :
    mapError wrap f s a = (s', .error err) ↔ ∃ e, f s a = (s', .error e) ∧ err = wrap e := by
  unfold mapError
  rcases f s a with ⟨s1, e | a1⟩
  · simp [eq_comm]
  · simp

/-- The step `g` takes the results of `f` back to what they were made from, in any world. -/
def Undoes (g f : Step σ α ε) : Prop :=
  ∀ {s s' : σ} {a b : α}, f s a = (s', .ok b) → ∀ s1, ∃ s2, g s1 b = (s2, .ok a)

/-- Steps that are undone one by one are undone by the same row backwards. -/
theorem undoes_reverse (h : List.Forall₂ Undoes gs fs) : Undoes (inRow gs.reverse) (inRow fs) := by
  induction h with
  | nil =>
    intro s s' a b hrun s1
    cases hrun
    exact ⟨s1, rfl⟩
  | @cons g f gs fs hundo _ ih =>
    intro s s' a b hrun s1
    rcases hf : f s a with ⟨s2, e | a1⟩
    · rw [inRow_cons_error hf] at hrun
      cases hrun
    · rw [inRow_cons_ok hf] at hrun
      obtain ⟨s3, hlater⟩ := ih hrun s1
      obtain ⟨s4, hfirst⟩ := hundo hf s3
      refine ⟨s4, ?_⟩
      rw [List.reverse_cons, inRow_append_ok hlater, inRow_cons_ok hfirst]
      rfl

end N2nGo.Lib
