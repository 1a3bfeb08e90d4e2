import N2nGo.Lib.NetText
import Mathlib.Algebra.Group.Nat.Defs
import Mathlib.Algebra.Ring.Int.Defs
import Mathlib.Data.List.Infix

/-!
# Bytewise order of texts

`byteLe` compares two texts as `memcmp` does, with the shorter one first where it is the
beginning of the other. Decimal numbers that are padded to one width are compared as numbers,
and only between equal ones does it matter what follows (`byteLe_padded_append`). Where
neither of two texts begins the other, nothing behind them matters
(`byteLe_append_of_diverge`).
-/

set_option autoImplicit false

namespace N2nGo.Lib

def byteLe (s t : Bytes) : Bool := decide (s ≤ t)

theorem byteLe_iff {s t : Bytes} : byteLe s t = true ↔ s ≤ t := decide_eq_true_iff

@[simp] theorem byteLe_nil (t : Bytes) : byteLe [] t = true := byteLe_iff.mpr (List.nil_le t)

theorem byteLe_cons_cons {a b : UInt8} {s t : Bytes} :
    byteLe (a :: s) (b :: t) = true ↔ a < b ∨ a = b ∧ byteLe s t = true := by
  simp only [byteLe_iff, List.cons_le_cons_iff]

@[simp] theorem byteLe_cons (c : UInt8) (s t : Bytes) : byteLe (c :: s) (c :: t) = byteLe s t := by
  rw [Bool.eq_iff_iff, byteLe_cons_cons]
  simp [UInt8.lt_irrefl]

/-! ## Composed texts -/

@[simp] theorem byteLe_append_left (p s t : Bytes) : byteLe (p ++ s) (p ++ t) = byteLe s t := by
  induction p with
  | nil => rfl
  | cons c p ih => rw [List.cons_append, List.cons_append, byteLe_cons, ih]

/-- Behind the first difference nothing matters. -/
theorem byteLe_append_of_diverge {s t : Bytes} (hst : ¬ s <+: t) (hts : ¬ t <+: s)
    (u v : Bytes) : byteLe (s ++ u) (t ++ v) = byteLe s t := by
  induction s generalizing t with
  | nil => exact absurd List.nil_prefix hst
  | cons a s ih =>
    cases t with
    | nil => exact absurd List.nil_prefix hts
    | cons b t =>
      by_cases hab : a = b
      · subst hab
        rw [List.prefix_cons_inj] at hst hts
        rw [List.cons_append, List.cons_append, byteLe_cons, byteLe_cons, ih hst hts]
      · rw [List.cons_append, List.cons_append, Bool.eq_iff_iff, byteLe_cons_cons, byteLe_cons_cons]
        simp only [hab, false_and]

/-- A run of one byte is below every text of this length without smaller bytes. -/
theorem byteLe_replicate {c : UInt8} {k : ℕ} {t : Bytes} (hlen : k ≤ t.length)
    (h : ∀ b ∈ t, c ≤ b) : byteLe (List.replicate k c) t = true := by
  induction k generalizing t with
  | zero => exact byteLe_nil t
  | succ k ih =>
    cases t with
    | nil => exact absurd hlen (Nat.not_succ_le_zero k)
    | cons b t =>
      obtain ⟨hb, ht⟩ := List.forall_mem_cons.mp h
      rw [List.replicate_succ, byteLe_cons_cons]
      rcases UInt8.lt_or_eq_of_le hb with hlt | heq
      · exact Or.inl hlt
      · exact Or.inr ⟨heq, ih (Nat.le_of_succ_le_succ hlen) ht⟩

/-! ## Decimal numbers of one width -/

/-- `n` with leading zeros up to `width` digits. -/
def padded (width n : ℕ) : Bytes :=
  List.replicate (width - (Net.itoa n).length) 48 ++ Net.itoa n

/-- The last `width` digits of `n`. -/
def lastDigits : ℕ → ℕ → Bytes
  | 0, _ => []
  | width + 1, n => lastDigits width (n / 10) ++ [UInt8.ofNat (48 + n % 10)]

@[simp] theorem length_lastDigits (width n : ℕ) : (lastDigits width n).length = width := by
  induction width generalizing n with
  | zero => rfl
  | succ width ih => rw [lastDigits, List.length_append, ih, List.length_singleton]

theorem lastDigits_zero (width : ℕ) : lastDigits width 0 = List.replicate width 48 := by
  induction width with
  | zero => rfl
  | succ width ih =>
    rw [lastDigits, Nat.zero_div, ih, List.replicate_succ']
    rfl

/-- Padding writes all the digits. -/
theorem padded_eq {width n : ℕ} (hw : 0 < width) (h : n < 10 ^ width) :
    padded width n = lastDigits width n := by
  induction width, hw using Nat.le_induction generalizing n with
  | base =>
    have hn : n < 10 := by simpa using h
    simp [padded, lastDigits, Net.itoa_eq n, hn]
  | succ width hw ih =>
    have hdiv : n / 10 < 10 ^ width := by
      rw [Nat.pow_succ] at h
      omega
    rw [lastDigits, ← ih hdiv, padded, padded, Net.itoa_eq n]
    by_cases hn : n < 10
    · -- a single digit behind as many zeros as fit
      have hzero : padded width (n / 10) = List.replicate width 48 := by
        rw [ih hdiv, Nat.div_eq_of_lt hn, lastDigits_zero]
      rw [if_pos hn, ← padded, hzero]
      rfl
    · rw [if_neg hn, List.length_append, List.length_singleton, Nat.add_sub_add_right,
        List.append_assoc]

theorem decimal_lt_iff (n m : ℕ) :
    UInt8.ofNat (48 + n % 10) < UInt8.ofNat (48 + m % 10) ↔ n % 10 < m % 10 := by
  rw [UInt8.lt_iff_toNat_lt, Net.toNat_digit, Net.toNat_digit, Nat.add_lt_add_iff_left]

theorem decimal_inj {n m : ℕ} :
    UInt8.ofNat (48 + n % 10) = UInt8.ofNat (48 + m % 10) ↔ n % 10 = m % 10 := by
  rw [← UInt8.toNat_inj, Net.toNat_digit, Net.toNat_digit, Nat.add_left_cancel_iff]

/-- Fields of digits are compared as their numbers. -/
theorem byteLe_lastDigits_append {width n m : ℕ} (hn : n < 10 ^ width) (hm : m < 10 ^ width)
    (u v : Bytes) : byteLe (lastDigits width n ++ u) (lastDigits width m ++ v) = true ↔
      n < m ∨ n = m ∧ byteLe u v = true := by
  induction width generalizing n m u v with
  | zero =>
    rw [Nat.pow_zero, Nat.lt_one_iff] at hn hm
    simp [lastDigits, hn, hm]
  | succ width ih =>
    rw [Nat.pow_succ] at hn hm
    rw [lastDigits, lastDigits, List.append_assoc, List.append_assoc, ih (by omega) (by omega),
      List.singleton_append, List.singleton_append, byteLe_cons_cons, decimal_lt_iff, decimal_inj]
    by_cases huv : byteLe u v = true
    · simp only [huv, and_true]
      omega
    · simp only [huv, Bool.false_eq_true, and_false, or_false]
      omega

theorem byteLe_padded_append {width n m : ℕ} (hw : 0 < width) (hn : n < 10 ^ width)
    (hm : m < 10 ^ width) (u v : Bytes) :
    byteLe (padded width n ++ u) (padded width m ++ v) = true ↔
      n < m ∨ n = m ∧ byteLe u v = true := by
  rw [padded_eq hw hn, padded_eq hw hm, byteLe_lastDigits_append hn hm]

theorem byteLe_padded_iff {width n m : ℕ} (hw : 0 < width) (hn : n < 10 ^ width)
    (hm : m < 10 ^ width) : byteLe (padded width n) (padded width m) = true ↔ n ≤ m := by
  have h := byteLe_padded_append hw hn hm [] []
  rw [List.append_nil, List.append_nil, byteLe_nil, and_iff_left rfl] at h
  rw [h]
  omega

end N2nGo.Lib
