import N2nGo.Lib.Table

/-!
# Slices that share their memory

A Go slice is a window on a backing array: it has a length, and a capacity that says how
far the array goes on behind it. `append` writes into the array while there is capacity
and moves to a larger array when there is none, so two slices of one array may see each
other's elements.

Arrays live in a `Heap`. What an operation does to memory is said by `Unchanged`: all
cells outside of a given set are as before. A slice that covers no cell of that set reads
as before, and this is the only fact about memory that is needed of slices other than the
one at hand.
-/

set_option autoImplicit false

namespace N2nGo.Lib

variable {α : Type}

/-- The backing arrays. -/
abbrev Arrays (α : Type) := Heap (List α)

structure Slice where
  array : ℕ
  off : ℕ
  len : ℕ
  cap : ℕ
  deriving DecidableEq

namespace Slice

/-- The nil slice. -/
def nil : Slice := ⟨0, 0, 0, 0⟩

/-- The elements. -/
def read (m : Arrays α) (s : Slice) : List α := ((m.cell s.array).drop s.off).take s.len

/-- `s[lo:hi]`. -/
def sub (s : Slice) (lo hi : ℕ) : Slice := ⟨s.array, s.off + lo, hi - lo, s.cap - lo⟩

section Operations

variable [Inhabited α]

/-- `make([]T, 0, cap)` filled with `xs`. -/
def make (m : Arrays α) (cap : ℕ) (xs : List α) : Arrays α × Slice :=
  (m.alloc (xs ++ List.replicate (cap - xs.length) default), ⟨m.next, 0, xs.length, max cap xs.length⟩)

/-- `append(s, x)`. The capacity of a new array is chosen by `grow` from the old one and the
length that is needed. -/
def append (grow : ℕ → ℕ → ℕ) (m : Arrays α) (s : Slice) (x : α) : Arrays α × Slice :=
  if s.len < s.cap then
    (m.store s.array ((m.cell s.array).set (s.off + s.len) x), { s with len := s.len + 1 })
  else make m (grow s.cap (s.len + 1)) (s.read m ++ [x])

/-- One `append` after the other. -/
def appendAll (grow : ℕ → ℕ → ℕ) : Arrays α → Slice → List α → Arrays α × Slice
  | m, s, [] => (m, s)
  | m, s, x :: xs =>
    let appended := append grow m s x
    appendAll grow appended.1 appended.2 xs

end Operations

/-- The elements are replaced by as many others, as a sort in place does. -/
def overwrite (m : Arrays α) (s : Slice) (xs : List α) : Arrays α :=
  m.store s.array ((m.cell s.array).take s.off ++ xs ++ (m.cell s.array).drop (s.off + xs.length))

/-! ## Cells -/

/-- The slice shows cell `i` of array `a`. -/
def Covers (s : Slice) (a i : ℕ) : Prop := s.array = a ∧ s.off ≤ i ∧ i < s.off + s.len

/-- No cell is shown by both. -/
def Apart (s t : Slice) : Prop := ∀ a i, s.Covers a i → ¬ t.Covers a i

/-- Every cell of `s` is one of `t`. -/
def Within (s t : Slice) : Prop := ∀ a i, s.Covers a i → t.Covers a i

/-- The window lies in its array. -/
structure InBounds (m : Arrays α) (s : Slice) : Prop where
  len_le : s.len ≤ s.cap
  array : 0 < s.cap → s.array < m.next ∧ s.off + s.cap ≤ (m.cell s.array).length

variable {s t u : Slice} {m m' m'' : Arrays α}

theorem Apart.symm (h : Apart s t) : Apart t s := fun a i ht hs => h a i hs ht

theorem inBounds_nil (m : Arrays α) : InBounds m nil := ⟨Nat.le_refl 0, fun h => absurd h (Nat.lt_irrefl 0)⟩

theorem InBounds.covers_lt (h : InBounds m s) {a i : ℕ} (hc : s.Covers a i) : a < m.next := by
  obtain ⟨rfl, hlo, hhi⟩ := hc
  have hlen := h.len_le
  exact (h.array (by omega)).1

theorem getElem?_read {i : ℕ} (h : i < s.len) : (s.read m)[i]? = (m.cell s.array)[s.off + i]? := by
  unfold read
  rw [List.getElem?_take_of_lt h, List.getElem?_drop]

theorem InBounds.length_read (h : InBounds m s) : (s.read m).length = s.len := by
  have hlen := h.len_le
  unfold read
  rw [List.length_take, List.length_drop]
  by_cases hcap : 0 < s.cap
  · have harray := (h.array hcap).2
    omega
  · omega

theorem read_congr (h : ∀ i < s.len, (m'.cell s.array)[s.off + i]? = (m.cell s.array)[s.off + i]?) :
    s.read m' = s.read m := by
  apply List.ext_getElem?
  intro i
  by_cases hi : i < s.len
  · rw [getElem?_read hi, getElem?_read hi, h i hi]
  · have hnone : ∀ m : Arrays α, (s.read m)[i]? = none := by
      intro m
      apply List.getElem?_eq_none
      unfold read
      rw [List.length_take]
      omega
    rw [hnone, hnone]

/-! ## What stays as it was -/

/-- Of the arrays that were there, only cells of `W` have changed. -/
structure Unchanged (W : ℕ → ℕ → Prop) (m m' : Arrays α) : Prop where
  next_le : m.next ≤ m'.next
  length : ∀ a < m.next, (m'.cell a).length = (m.cell a).length
  cell : ∀ a i, a < m.next → ¬ W a i → (m'.cell a)[i]? = (m.cell a)[i]?

variable {W V : ℕ → ℕ → Prop}

theorem Unchanged.refl (W : ℕ → ℕ → Prop) (m : Arrays α) : Unchanged W m m :=
  ⟨Nat.le_refl _, fun _ _ => rfl, fun _ _ _ _ => rfl⟩

theorem Unchanged.mono (h : Unchanged W m m') (hle : ∀ a i, W a i → V a i) : Unchanged V m m' :=
  ⟨h.next_le, h.length, fun a i ha hv => h.cell a i ha fun hw => hv (hle a i hw)⟩

/-- The second change may also touch arrays that the first has made. -/
theorem Unchanged.trans (h : Unchanged W m m') (h' : Unchanged V m' m'')
    (hle : ∀ a i, a < m.next → V a i → W a i) : Unchanged W m m'' := by
  refine ⟨Nat.le_trans h.next_le h'.next_le, fun a ha => ?_, fun a i ha hw => ?_⟩
  · rw [h'.length a (Nat.lt_of_lt_of_le ha h.next_le), h.length a ha]
  · rw [h'.cell a i (Nat.lt_of_lt_of_le ha h.next_le) fun hv => hw (hle a i ha hv),
      h.cell a i ha hw]

theorem Unchanged.inBounds (h : Unchanged W m m') (hs : InBounds m s) : InBounds m' s := by
  refine ⟨hs.len_le, fun hcap => ?_⟩
  obtain ⟨hlt, hlen⟩ := hs.array hcap
  exact ⟨Nat.lt_of_lt_of_le hlt h.next_le, by rw [h.length _ hlt]; exact hlen⟩

/-- A slice outside of the changed cells reads as before. -/
theorem Unchanged.read (h : Unchanged W m m') (hs : InBounds m s)
    (hout : ∀ a i, s.Covers a i → ¬ W a i) : s.read m' = s.read m := by
  apply read_congr
  intro i hi
  have hcovers : s.Covers s.array (s.off + i) := ⟨rfl, by omega, by omega⟩
  exact h.cell _ _ (hs.covers_lt hcovers) (hout _ _ hcovers)

theorem unchanged_alloc (W : ℕ → ℕ → Prop) (m : Arrays α) (xs : List α) :
    Unchanged W m (m.alloc xs) := by
  have hold : ∀ a < m.next, (m.alloc xs).cell a = m.cell a := by
    intro a ha
    rw [Heap.cell_alloc, if_neg (by omega)]
  exact ⟨Nat.le_succ _, fun a ha => by rw [hold a ha], fun a i ha _ => by rw [hold a ha]⟩

/-! ## Making and cutting -/

section Make

variable [Inhabited α]

theorem unchanged_make (W : ℕ → ℕ → Prop) (m : Arrays α) (cap : ℕ) (xs : List α) :
    Unchanged W m (make m cap xs).1 := unchanged_alloc W m _

theorem read_make (m : Arrays α) (cap : ℕ) (xs : List α) :
    (make m cap xs).2.read (make m cap xs).1 = xs := by
  unfold make read
  rw [Heap.cell_alloc, if_pos rfl]
  simp

theorem inBounds_make (m : Arrays α) (cap : ℕ) (xs : List α) :
    InBounds (make m cap xs).1 (make m cap xs).2 := by
  refine ⟨Nat.le_max_right _ _, fun _ => ⟨Nat.lt_succ_self _, ?_⟩⟩
  show 0 + max cap xs.length ≤ ((m.alloc _).cell m.next).length
  rw [Heap.cell_alloc, if_pos rfl, List.length_append, List.length_replicate]
  omega

end Make

theorem within_sub {lo hi : ℕ} (hhi : hi ≤ s.len) : Within (s.sub lo hi) s := by
  rintro a i ⟨harray, hlow, hhigh⟩
  simp only [sub] at harray hlow hhigh
  exact ⟨harray, by omega, by omega⟩

theorem inBounds_sub (h : InBounds m s) {lo hi : ℕ} (hhi : hi ≤ s.len) :
    InBounds m (s.sub lo hi) := by
  have hlen := h.len_le
  refine ⟨?_, fun hcap => ?_⟩
  · simp only [sub]
    omega
  · simp only [sub] at hcap ⊢
    obtain ⟨hlt, harray⟩ := h.array (by omega)
    exact ⟨hlt, by omega⟩

theorem read_sub {lo hi : ℕ} (hhi : hi ≤ s.len) :
    (s.sub lo hi).read m = ((s.read m).drop lo).take (hi - lo) := by
  unfold read sub
  simp only
  rw [List.drop_take, List.drop_drop, List.take_take, Nat.min_eq_left (by omega)]

/-! ## Writing -/

theorem getElem?_splice {l xs : List α} {off i : ℕ} (h : off + xs.length ≤ l.length) :
    (l.take off ++ xs ++ l.drop (off + xs.length))[i]? =
      if off ≤ i ∧ i < off + xs.length then xs[i - off]? else l[i]? := by
  have hoff : (l.take off).length = off := by
    rw [List.length_take]
    omega
  by_cases hlow : i < off
  · rw [List.append_assoc, List.getElem?_append_left (by omega), List.getElem?_take_of_lt hlow,
      if_neg (by omega)]
  · by_cases hhigh : i < off + xs.length
    · rw [List.getElem?_append_left (by rw [List.length_append]; omega),
        List.getElem?_append_right (by omega), hoff, if_pos ⟨by omega, hhigh⟩]
    · rw [List.getElem?_append_right (by rw [List.length_append]; omega), List.length_append, hoff,
        List.getElem?_drop, if_neg (by omega)]
      congr 1
      omega

theorem cell_overwrite {xs : List α} (a : ℕ) : (s.overwrite m xs).cell a =
    if a = s.array then
      (m.cell s.array).take s.off ++ xs ++ (m.cell s.array).drop (s.off + xs.length)
    else m.cell a := Heap.cell_store ..

section Overwrite

variable {xs : List α}

/-- The window of a slice with elements. -/
theorem InBounds.window (h : InBounds m s) (hlen : 0 < s.len) :
    s.off + s.len ≤ (m.cell s.array).length := by
  have hle := h.len_le
  have harray := (h.array (by omega)).2
  omega

theorem unchanged_overwrite (h : InBounds m s) (hlen : xs.length = s.len) (hpos : 0 < s.len) :
    Unchanged s.Covers m (s.overwrite m xs) := by
  have hwindow := h.window hpos
  refine ⟨Nat.le_refl _, fun a _ => ?_, fun a i _ hout => ?_⟩
  · rw [cell_overwrite]
    split
    · next heq =>
      rw [heq, List.length_append, List.length_append, List.length_take, List.length_drop]
      omega
    · rfl
  · rw [cell_overwrite]
    split
    · next heq =>
      subst heq
      rw [getElem?_splice (by omega), if_neg]
      exact fun hin => hout ⟨rfl, by omega, by omega⟩
    · rfl

theorem read_overwrite (h : InBounds m s) (hlen : xs.length = s.len) (hpos : 0 < s.len) :
    s.read (s.overwrite m xs) = xs := by
  have hwindow := h.window hpos
  unfold read
  rw [cell_overwrite, if_pos rfl]
  have hoff : ((m.cell s.array).take s.off).length = s.off := by
    rw [List.length_take]
    omega
  rw [List.append_assoc, List.drop_append_of_le_length (by omega), List.drop_of_length_le (by omega),
    List.nil_append, ← hlen, List.take_left]

end Overwrite

section Append

variable [Inhabited α]

/-- What appending `xs` to `s` comes to: cells behind `s` may have changed, and the new slice
is the old one made longer, or it is in a new array. -/
structure Appended (m : Arrays α) (s : Slice) (xs : List α) (m' : Arrays α) (s' : Slice) : Prop where
  unchanged : Unchanged (fun a i => a = s.array ∧ s.off + s.len ≤ i ∧ i < s.off + s.len + xs.length) m m'
  inBounds : InBounds m' s'
  read : s'.read m' = s.read m ++ xs
  place : (s'.array = s.array ∧ s'.off = s.off ∧ s'.len = s.len + xs.length) ∨ m.next ≤ s'.array

theorem appended_append (grow : ℕ → ℕ → ℕ) (h : InBounds m s) (x : α) :
    Appended m s [x] (append grow m s x).1 (append grow m s x).2 := by
  unfold append
  split
  · next hcap =>
    obtain ⟨hlt, harray⟩ := h.array (by omega)
    have hcell : ∀ a, (m.store s.array ((m.cell s.array).set (s.off + s.len) x)).cell a =
        if a = s.array then (m.cell s.array).set (s.off + s.len) x else m.cell a := by
      intro a
      exact Heap.cell_store ..
    have hunchanged : Unchanged (fun a i => a = s.array ∧ s.off + s.len ≤ i ∧ i < s.off + s.len + 1) m
        (m.store s.array ((m.cell s.array).set (s.off + s.len) x)) := by
      refine ⟨Nat.le_refl _, fun a _ => ?_, fun a i _ hout => ?_⟩
      · rw [hcell]
        split
        · next heq => rw [heq, List.length_set]
        · rfl
      · rw [hcell]
        split
        · next heq =>
          rw [heq, List.getElem?_set_ne]
          exact fun hi => hout ⟨heq, by omega, by omega⟩
        · rfl
    have hbounds := hunchanged.inBounds h
    have hold : s.read (m.store s.array ((m.cell s.array).set (s.off + s.len) x)) = s.read m := by
      refine hunchanged.read h ?_
      rintro a i ⟨-, -, hhigh⟩ ⟨-, hlow, -⟩
      omega
    refine ⟨hunchanged, ⟨hcap, hbounds.array⟩, ?_, Or.inl ⟨rfl, rfl, rfl⟩⟩
    -- the elements up to the old length, then the one that was written
    have htake : (({ s with len := s.len + 1 } : Slice).read
        (m.store s.array ((m.cell s.array).set (s.off + s.len) x))) =
        s.read (m.store s.array ((m.cell s.array).set (s.off + s.len) x)) ++ [x] := by
      unfold read
      simp only
      rw [List.take_add_one, List.getElem?_drop, hcell, if_pos rfl, List.getElem?_set_self (by omega)]
      rfl
    rw [htake, hold]
  · refine ⟨unchanged_make _ m _ _, inBounds_make m _ _, ?_, Or.inr (Nat.le_refl _)⟩
    exact read_make m _ _

theorem appended_appendAll (grow : ℕ → ℕ → ℕ) (h : InBounds m s) (xs : List α) :
    Appended m s xs (appendAll grow m s xs).1 (appendAll grow m s xs).2 := by
  induction xs generalizing m s with
  | nil =>
    exact ⟨.refl _ m, h, (List.append_nil _).symm, Or.inl ⟨rfl, rfl, rfl⟩⟩
  | cons x xs ih =>
    have hone := appended_append grow h x
    have hrest := ih hone.inBounds
    unfold appendAll
    generalize append grow m s x = appended at hone hrest
    refine ⟨?_, hrest.inBounds, ?_, ?_⟩
    · refine (hone.unchanged.mono ?_).trans hrest.unchanged ?_
      · rintro a i ⟨heq, hlow, hhigh⟩
        simp only [List.length_cons, List.length_nil] at hhigh ⊢
        exact ⟨heq, hlow, by omega⟩
      · rintro a i ha ⟨heq, hlow, hhigh⟩
        rcases hone.place with ⟨harray, hoff, hlen⟩ | hfresh
        · simp only [List.length_cons, List.length_nil] at hlen ⊢
          exact ⟨heq.trans harray, by omega, by omega⟩
        · omega
    · rw [hrest.read, hone.read, List.append_assoc]
      rfl
    · rcases hrest.place with ⟨harray, hoff, hlen⟩ | hfresh
      · rcases hone.place with ⟨harray', hoff', hlen'⟩ | hfresh'
        · refine Or.inl ⟨harray.trans harray', hoff.trans hoff', ?_⟩
          simp only [List.length_cons, List.length_nil] at hlen' ⊢
          omega
        · exact Or.inr (harray ▸ hfresh')
      · exact Or.inr (Nat.le_trans hone.unchanged.next_le hfresh)

end Append

end Slice

end N2nGo.Lib
