import Mathlib.Data.List.Sort

/-!
# Stable sorting

A stable sort of a list for a total preorder: the elements in order, and those that are
equivalent in the order in which they were. There is exactly one such list, so it does not
matter which algorithm makes it; insertion sort is one that does.
-/

set_option autoImplicit false

namespace N2nGo.Lib

variable {α : Type} (r : α → α → Prop) [DecidableRel r]

/-- `l'` is `l` in order, and equivalent elements are in the order they had. -/
structure StableSorted (l l' : List α) : Prop where
  perm : l'.Perm l
  sorted : l'.Pairwise r
  stable : ∀ a, l'.filter (fun b => r a b ∧ r b a) = l.filter fun b => r a b ∧ r b a

variable {r}

/-- An element is inserted in front of its equivalents. -/
theorem filter_orderedInsert [IsTrans α r] (a b : α) (l : List α) :
    (l.orderedInsert r b).filter (fun c => r a c ∧ r c a) =
      (b :: l).filter fun c => r a c ∧ r c a := by
  induction l with
  | nil => rfl
  | cons c l ih =>
    by_cases hbc : r b c
    · rw [List.orderedInsert_cons_of_le r l hbc]
    · rw [List.orderedInsert_of_not_le r l hbc, List.filter_cons, ih]
      by_cases hb : r a b ∧ r b a
      · -- what is not above `b` is not equivalent to it
        have hc : ¬ (r a c ∧ r c a) := fun hc => hbc (trans_of r hb.2 hc.1)
        simp [hb, hc]
      · simp [List.filter_cons, hb]

theorem stableSorted_insertionSort [Std.Total r] [IsTrans α r] (l : List α) :
    StableSorted r l (l.insertionSort r) := by
  refine ⟨List.perm_insertionSort r l, List.pairwise_insertionSort r l, fun a => ?_⟩
  induction l with
  | nil => rfl
  | cons b l ih =>
    rw [List.insertionSort_cons, filter_orderedInsert, List.filter_cons, List.filter_cons, ih]

theorem insertionSort_congr {r' : α → α → Prop} [DecidableRel r'] (h : ∀ a b, r a b ↔ r' a b)
    (l : List α) : l.insertionSort r = l.insertionSort r' := by
  obtain rfl : r = r' := funext₂ fun a b => propext (h a b)
  congr!

/-- There is only one stable sort of a list. -/
theorem StableSorted.unique [Std.Total r] {l l₁ l₂ : List α} (h₁ : StableSorted r l l₁)
    (h₂ : StableSorted r l l₂) : l₁ = l₂ := by
  have hperm : l₁.Perm l₂ := h₁.perm.trans h₂.perm.symm
  have hstable : ∀ a, l₁.filter (fun b => r a b ∧ r b a) = l₂.filter fun b => r a b ∧ r b a :=
    fun a => (h₁.stable a).trans (h₂.stable a).symm
  have hsorted₁ := h₁.sorted
  have hsorted₂ := h₂.sorted
  clear h₁ h₂
  induction l₁ generalizing l₂ with
  | nil => exact (List.nil_perm.mp hperm).symm
  | cons a l₁ ih =>
    cases l₂ with
    | nil => exact absurd hperm.length_eq (Nat.succ_ne_zero _)
    | cons b l₂ =>
      obtain ⟨ha, htail₁⟩ := List.pairwise_cons.mp hsorted₁
      obtain ⟨hb, htail₂⟩ := List.pairwise_cons.mp hsorted₂
      have hrefl : ∀ c, r c c := fun c => (Std.Total.total c c).elim id id
      have hab : r a b := by
        rcases List.mem_cons.mp (hperm.mem_iff.mpr List.mem_cons_self) with heq | hmem
        · rw [heq]
          exact hrefl a
        · exact ha b hmem
      have hba : r b a := by
        rcases List.mem_cons.mp (hperm.mem_iff.mp List.mem_cons_self) with heq | hmem
        · rw [heq]
          exact hrefl b
        · exact hb a hmem
      -- both heads are the first of their class
      have heq : a = b := by
        have hclass := hstable a
        rw [List.filter_cons_of_pos (by simpa using hrefl a),
          List.filter_cons_of_pos (by simpa using ⟨hab, hba⟩)] at hclass
        exact (List.cons.inj hclass).1
      subst heq
      refine congrArg (a :: ·) (ih hperm.cons_inv (fun c => ?_) htail₁ htail₂)
      have hclass := hstable c
      by_cases hc : r c a ∧ r a c
      · rw [List.filter_cons_of_pos (by simpa using hc),
          List.filter_cons_of_pos (by simpa using hc)] at hclass
        exact (List.cons.inj hclass).2
      · rw [List.filter_cons_of_neg (by simpa using hc),
          List.filter_cons_of_neg (by simpa using hc)] at hclass
        exact hclass

end N2nGo.Lib
