import N2nGo.Lib.Fault
import Mathlib.Data.List.Infix

/-!
# Splitting at a separator

`strings.Split` for a separator of any length: the text is cut at the leftmost occurrence,
and again in what follows it. No piece contains the separator, and the pieces with the
separator between them are the text. A piece in front of a separator is found again if it
does not contain the separator, provided that the separator does not overlap itself.
-/

set_option autoImplicit false

namespace N2nGo.Lib

variable {α : Type}

/-- The loop of `strings.Split`. Of a separator that was found, `skip` elements are still to be
passed over; `cur` is the piece that has begun. -/
def splitLoop [DecidableEq α] (sep : List α) : List α → ℕ → List α → List (List α)
  | [], _, cur => [cur]
  | _ :: rest, skip + 1, cur => splitLoop sep rest skip cur
  | b :: rest, 0, cur =>
    if sep.isPrefixOf (b :: rest) then cur :: splitLoop sep rest (sep.length - 1) []
    else splitLoop sep rest 0 (cur ++ [b])

/-- `strings.Split(s, sep)` for a separator that is not empty. -/
def split [DecidableEq α] (sep s : List α) : List (List α) := splitLoop sep s 0 []

/-- The pieces with the separator between them. -/
def joinWith (sep : List α) : List (List α) → List α
  | [] => []
  | [p] => p
  | p :: ps => p ++ sep ++ joinWith sep ps

variable {sep s a cur : List α}

variable {p : List α}

theorem joinWith_cons {ps : List (List α)} (h : ps ≠ []) :
    joinWith sep (p :: ps) = p ++ sep ++ joinWith sep ps := by
  cases ps with
  | nil => exact absurd rfl h
  | cons q ps => rfl

theorem infix_joinWith {ps : List (List α)} (h : p ∈ ps) : p <:+: joinWith sep ps := by
  induction ps with
  | nil => exact absurd h List.not_mem_nil
  | cons q ps ih =>
    by_cases hps : ps = []
    · subst hps
      rw [List.mem_singleton.mp h]
      exact List.infix_rfl
    · rw [joinWith_cons hps]
      rcases List.mem_cons.mp h with rfl | h
      · exact ⟨[], sep ++ joinWith sep ps, by rw [List.nil_append, List.append_assoc]⟩
      · exact (ih h).trans (List.suffix_append _ _).isInfix

/-- A part of a text that does not contain the separating element lies on one side of it. -/
theorem infix_of_infix_append_cons {x f t : List α} {c : α} (h : x <:+: f ++ c :: t) (hc : c ∉ x) :
    x <:+: f ∨ x <:+: t := by
  obtain ⟨before, after, heq⟩ := h
  rcases List.append_eq_append_iff.mp heq with ⟨u, hf, -⟩ | ⟨u, hbefore, ht⟩
  · exact Or.inl ⟨before, u, hf.symm⟩
  · rcases List.append_eq_append_iff.mp hbefore with ⟨v, hf, hx⟩ | ⟨v, -, hu⟩
    · -- `x` begins in `f`: it ends there, or it contains the element
      cases u with
      | nil => exact Or.inl ⟨before, [], by rw [hf, hx]; simp⟩
      | cons y u =>
        obtain ⟨rfl, -⟩ := List.cons.inj ht
        exact absurd (hx ▸ List.mem_append_right v List.mem_cons_self) hc
    · -- `x` begins in `c :: t`, and not with `c`
      cases v with
      | nil =>
        cases x with
        | nil => exact Or.inl List.nil_infix
        | cons y x =>
          rw [List.nil_append] at hu
          rw [hu] at ht
          obtain ⟨rfl, -⟩ := List.cons.inj ht
          exact absurd List.mem_cons_self hc
      | cons y v =>
        rw [hu] at ht
        obtain ⟨-, rfl⟩ := List.cons.inj ht
        exact Or.inr ⟨v, after, rfl⟩

/-! ## Where separators begin -/

/-- No occurrence of the separator in `cur ++ rest` begins inside `cur`. -/
def Clear (sep cur rest : List α) : Prop := ∀ t, t ≠ [] → t <:+ cur → ¬ sep <+: t ++ rest

theorem clear_nil (sep rest : List α) : Clear sep [] rest :=
  fun _ hne hsuffix _ => hne (List.suffix_nil.mp hsuffix)

variable {rest : List α}

theorem Clear.concat {x : α} (h : Clear sep cur (x :: rest)) (hx : ¬ sep <+: x :: rest) :
    Clear sep (cur ++ [x]) rest := by
  intro t hne hsuffix
  obtain ⟨before, hbefore⟩ := hsuffix
  -- the suffix ends in `x`, and what is in front of it is a suffix of `cur`
  obtain ⟨t', y, rfl⟩ := (List.eq_nil_or_concat' t).resolve_left hne
  rw [← List.append_assoc] at hbefore
  obtain ⟨hcur, hy⟩ := List.append_inj' hbefore rfl
  cases hy
  rw [List.append_assoc]
  by_cases ht' : t' = []
  · rw [ht']
    exact hx
  · exact h t' ht' ⟨before, hcur⟩

theorem Clear.not_infix (hsep : sep ≠ []) (h : Clear sep cur rest) : ¬ sep <:+: cur := by
  rintro ⟨before, after, heq⟩
  have hsuffix : sep ++ after <:+ cur := ⟨before, by rw [← heq, List.append_assoc]⟩
  refine h (sep ++ after) (List.append_ne_nil_of_left_ne_nil hsep _) hsuffix ?_
  exact ⟨after ++ rest, by rw [List.append_assoc]⟩

/-- No proper end of the separator is a beginning of it. -/
def Borderless (sep : List α) : Prop := ∀ i, 0 < i → i < sep.length → ¬ sep.drop i <+: sep

theorem clear_of_no_occurrence (hborder : Borderless sep) (ha : ¬ sep <:+: a) :
    Clear sep a (sep ++ rest) := by
  rintro t hne ⟨before, rfl⟩ ⟨after, heq⟩
  rcases List.append_eq_append_iff.mp heq with ⟨u, rfl, -⟩ | ⟨u, hsep, hrest⟩
  · -- the occurrence lies inside `t`
    exact ha ⟨before, u, by rw [List.append_assoc]⟩
  · -- it reaches into the separator, which then overlaps itself
    by_cases hu : u = []
    · rw [hu, List.append_nil] at hsep
      exact ha ⟨before, [], by rw [hsep, List.append_nil]⟩
    · have hlen : sep.length = t.length + u.length := by
        have := congrArg List.length hsep
        rwa [List.length_append] at this
      have htpos := List.length_pos_iff.mpr hne
      have hupos := List.length_pos_iff.mpr hu
      refine hborder t.length htpos (by omega) ?_
      have hdrop : sep.drop t.length = u := by
        rw [hsep]
        exact List.drop_left
      rw [hdrop]
      exact List.prefix_of_prefix_length_le ⟨after, hrest.symm⟩ (List.prefix_append sep rest)
        (by omega)

section Loop

variable [DecidableEq α]

/-! ## The pieces make up the text -/

theorem splitLoop_ne_nil (s : List α) (skip : ℕ) (cur : List α) :
    splitLoop sep s skip cur ≠ [] := by
  fun_induction splitLoop sep s skip cur with
  | case1 => exact List.cons_ne_nil _ _
  | case2 _ _ _ _ ih => exact ih
  | case3 => exact List.cons_ne_nil _ _
  | case4 _ _ _ _ ih => exact ih

/-- What is left behind the separator that a text begins with. -/
theorem drop_of_isPrefixOf {x : α} (hsep : sep ≠ []) (h : sep.isPrefixOf (x :: rest) = true) :
    x :: rest = sep ++ rest.drop (sep.length - 1) := by
  obtain ⟨tail, htail⟩ := List.isPrefixOf_iff_prefix.mp h
  cases sep with
  | nil => exact absurd rfl hsep
  | cons y sep =>
    obtain ⟨rfl, rfl⟩ := List.cons.inj htail
    simp

section

variable (hsep : sep ≠ [])
include hsep

/-- The pieces, with the separator between them, are the text. -/
theorem joinWith_splitLoop (s : List α) (skip : ℕ) (cur : List α) :
    joinWith sep (splitLoop sep s skip cur) = cur ++ s.drop skip := by
  fun_induction splitLoop sep s skip cur with
  | case1 => simp [joinWith]
  | case2 _ _ _ _ ih => exact ih
  | case3 x rest cur h ih =>
    rw [joinWith_cons (splitLoop_ne_nil _ _ _), ih, List.drop_zero, drop_of_isPrefixOf hsep h,
      List.nil_append, List.append_assoc]
  | case4 x rest cur _ ih =>
    rw [ih, List.drop_zero, List.drop_zero, List.append_assoc]
    rfl

theorem joinWith_split (s : List α) : joinWith sep (split sep s) = s :=
  joinWith_splitLoop hsep s 0 []

theorem infix_of_mem_split (h : p ∈ split sep s) : p <:+: s := by
  have hinfix : p <:+: joinWith sep (split sep s) := infix_joinWith h
  rwa [joinWith_split hsep] at hinfix

/-! ## Pieces do not contain the separator -/

theorem not_infix_of_mem_splitLoop {s : List α} {skip : ℕ} {cur : List α}
    (hclear : Clear sep cur (s.drop skip)) (h : p ∈ splitLoop sep s skip cur) : ¬ sep <:+: p := by
  fun_induction splitLoop sep s skip cur with
  | case1 skip cur =>
    rw [List.mem_singleton.mp h]
    exact hclear.not_infix hsep
  | case2 _ _ _ _ ih => exact ih hclear h
  | case3 x rest cur _ ih =>
    rcases List.mem_cons.mp h with rfl | h
    · exact hclear.not_infix hsep
    · exact ih (clear_nil _ _) h
  | case4 x rest cur hx ih =>
    exact ih (hclear.concat fun hbegins => hx (List.isPrefixOf_iff_prefix.mpr hbegins)) h

/-- **No piece contains the separator.** -/
theorem not_infix_of_mem_split (h : p ∈ split sep s) : ¬ sep <:+: p :=
  not_infix_of_mem_splitLoop hsep (clear_nil _ _) h

theorem split_of_infix (h : sep <:+: s) : ∃ p q ps, split sep s = p :: q :: ps := by
  cases hsplit : split sep s with
  | nil => exact absurd hsplit (splitLoop_ne_nil _ _ _)
  | cons p ps =>
    cases ps with
    | nil =>
      have hjoin : p = s := by
        have hjoin := joinWith_split hsep s
        rwa [hsplit] at hjoin
      have hp : p ∈ split sep s := by
        rw [hsplit]
        exact List.mem_singleton_self p
      exact absurd (hjoin.symm ▸ h) (not_infix_of_mem_split hsep hp)
    | cons q ps => exact ⟨p, q, ps, rfl⟩

end

/-! ## Pieces that are found again -/

theorem splitLoop_skip (x rest cur : List α) :
    splitLoop sep (x ++ rest) x.length cur = splitLoop sep rest 0 cur := by
  induction x with
  | nil => rfl
  | cons y x ih => exact ih

theorem splitLoop_sep (hsep : sep ≠ []) (rest cur : List α) :
    splitLoop sep (sep ++ rest) 0 cur = cur :: splitLoop sep rest 0 [] := by
  cases sep with
  | nil => exact absurd rfl hsep
  | cons y sep =>
    have hbegins : (y :: sep).isPrefixOf (y :: (sep ++ rest)) = true :=
      List.isPrefixOf_iff_prefix.mpr (List.prefix_append (y :: sep) rest)
    rw [List.cons_append, splitLoop, if_pos hbegins]
    exact congrArg (cur :: ·) (splitLoop_skip sep rest [])

theorem splitLoop_clear (h : Clear sep a rest) (cur : List α) :
    splitLoop sep (a ++ rest) 0 cur = splitLoop sep rest 0 (cur ++ a) := by
  induction a generalizing cur with
  | nil => rw [List.nil_append, List.append_nil]
  | cons x a ih =>
    have hx : ¬ sep.isPrefixOf (x :: (a ++ rest)) = true := fun hbegins =>
      h (x :: a) (List.cons_ne_nil _ _) List.suffix_rfl (List.isPrefixOf_iff_prefix.mp hbegins)
    have ha : Clear sep a rest := fun t hne hsuffix =>
      h t hne (hsuffix.trans (List.suffix_cons x a))
    rw [List.cons_append, splitLoop, if_neg hx, ih ha, List.append_assoc]
    rfl

/-- **A piece without the separator is cut off in front of it.** -/
theorem split_append (hsep : sep ≠ []) (hborder : Borderless sep) (ha : ¬ sep <:+: a)
    (b : List α) : split sep (a ++ sep ++ b) = a :: split sep b := by
  rw [split, List.append_assoc, splitLoop_clear (clear_of_no_occurrence hborder ha), List.nil_append,
    splitLoop_sep hsep]
  rfl

theorem split_of_not_infix (ha : ¬ sep <:+: a) : split sep a = [a] := by
  have hclear : Clear sep a [] := by
    rintro t hne hsuffix hbegins
    rw [List.append_nil] at hbegins
    exact ha (hbegins.isInfix.trans hsuffix.isInfix)
  have hloop := splitLoop_clear hclear []
  rw [List.append_nil] at hloop
  rw [split, hloop]
  rfl

end Loop

end N2nGo.Lib
