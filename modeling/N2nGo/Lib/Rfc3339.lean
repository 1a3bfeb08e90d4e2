import N2nGo.Lib.ByteOrder
import N2nGo.Lib.Calendar
import Mathlib.Data.List.DropRight

/-!
# Times as RFC 3339 text

A time is an instant together with the offset of the zone in which it is shown. `format` is
`t.Format(time.RFC3339Nano)`: the local date and clock in fields of fixed width, a fraction
of a second without its trailing zeros, and the zone.

The fields of fixed width are ordered as the local seconds. What follows them is not ordered
as the time that is left: `tailLe` says how it is ordered, and `byteLe_format_iff` that this
is all there is to the order of the texts.
-/

set_option autoImplicit false

namespace N2nGo.Lib

/-- A number of nanoseconds without its trailing zeros. -/
def trimmed (nsec : ℕ) : Bytes := (padded 9 nsec).rdropWhile (· = 48)

/-- `time.Time`: seconds since the start of year 1 in UTC, nanoseconds, and the offset of the
location at that instant in seconds east of UTC. -/
structure Time where
  sec : ℤ
  nsec : ℕ
  offset : ℤ
  nsec_lt : nsec < 10 ^ 9
  deriving DecidableEq

namespace Time

/-- Nanoseconds since the start of year 1. -/
def instant (t : Time) : ℤ := 10 ^ 9 * t.sec + t.nsec

/-- What the clock on the wall shows, in seconds. -/
def localSec (t : Time) : ℤ := t.sec + t.offset

def localDate (t : Time) : Date := date (t.localSec / 86400)

/-- Seconds of the local day. -/
def daySec (t : Time) : ℕ := (t.localSec % 86400).toNat

/-- `appendNano` with trailing zeros cut off. -/
def fraction (t : Time) : Bytes :=
  if t.nsec = 0 then [] else 46 :: trimmed t.nsec

/-- `Z` or the offset in hours and minutes. -/
def zone (t : Time) : Bytes :=
  if t.offset = 0 then [90]
  else
    let minutes := t.offset.tdiv 60
    (if minutes < 0 then 45 else 43) ::
      (padded 2 (minutes.natAbs / 60) ++ 58 :: padded 2 (minutes.natAbs % 60))

/-- `appendInt` for the year. -/
def year (t : Time) : Bytes :=
  (if t.localDate.year < 0 then [45] else []) ++ padded 4 t.localDate.year.natAbs

/-- `t.Format(time.RFC3339Nano)`. -/
def format (t : Time) : Bytes :=
  t.year ++ 45 :: (padded 2 t.localDate.month ++ 45 :: (padded 2 t.localDate.day ++ 84 ::
    (padded 2 (t.daySec / 3600) ++ 58 :: (padded 2 (t.daySec % 3600 / 60) ++ 58 ::
      (padded 2 (t.daySec % 60) ++ (t.fraction ++ t.zone))))))

example : (⟨63852832805, 500000000, 7200, by decide⟩ : Time).format =
    ascii "2024-06-01T12:00:05.5+02:00" := by decide +kernel

/-- The year has four digits. -/
def FourDigitYear (t : Time) : Prop := 0 ≤ t.localDate.year ∧ t.localDate.year ≤ 9999

instance (t : Time) : Decidable t.FourDigitYear :=
  inferInstanceAs (Decidable (0 ≤ t.localDate.year ∧ t.localDate.year ≤ 9999))

/-- How the texts behind the seconds are ordered. Where one fraction begins the other, the
zone of the shorter one stands against a digit or the point, and of `Z`, `+` and `-` only
`Z` is above these. -/
def TailLe (a b : Time) : Prop :=
  if a.nsec = b.nsec then byteLe a.zone b.zone = true
  else if a.fraction <+: b.fraction then a.offset ≠ 0
  else if b.fraction <+: a.fraction then b.offset = 0
  else a.nsec ≤ b.nsec

end Time

/-! ## The fraction -/

/-- The zeros that were cut off. -/
theorem trimmed_append {n : ℕ} (h : n < 10 ^ 9) :
    trimmed n ++ List.replicate (9 - (trimmed n).length) 48 = padded 9 n := by
  have happend : trimmed n ++ (padded 9 n).rtakeWhile (· = 48) = padded 9 n :=
    List.rdropWhile_append_rtakeWhile
  have hlen : (padded 9 n).length = 9 := by rw [padded_eq (by decide) h, length_lastDigits]
  have hzeros : (padded 9 n).rtakeWhile (· = 48) =
      List.replicate (9 - (trimmed n).length) 48 := by
    refine List.eq_replicate_iff.mpr ⟨?_, fun b hb => ?_⟩
    · have hsum := congrArg List.length happend
      rw [List.length_append, hlen] at hsum
      omega
    · simpa using List.mem_rtakeWhile_imp hb
  rw [← hzeros, happend]

theorem trimmed_inj {n m : ℕ} (hn : n < 10 ^ 9) (hm : m < 10 ^ 9) (h : trimmed n = trimmed m) :
    n = m := by
  have hpadded : padded 9 n = padded 9 m := by rw [← trimmed_append hn, ← trimmed_append hm, h]
  refine Nat.le_antisymm ((byteLe_padded_iff (by decide) hn hm).mp ?_)
    ((byteLe_padded_iff (by decide) hm hn).mp ?_)
  · rw [hpadded, byteLe_iff]
    exact List.le_refl _
  · rw [hpadded, byteLe_iff]
    exact List.le_refl _

theorem trimmed_zero : trimmed 0 = [] := by decide

theorem isDigit_of_mem_trimmed {n : ℕ} {b : UInt8} (h : b ∈ trimmed n) : Net.isDigit b = true := by
  have hpadded : b ∈ padded 9 n := (List.rdropWhile_prefix _ _).subset h
  rcases List.mem_append.mp hpadded with hzero | hdigit
  · rw [List.eq_of_mem_replicate hzero]
    rfl
  · exact Net.isDigit_of_mem_itoa hdigit

namespace Time

theorem trimmed_eq_drop (t : Time) : trimmed t.nsec = t.fraction.drop 1 := by
  unfold fraction
  split
  · next hzero =>
    rw [hzero, trimmed_zero]
    rfl
  · rfl

variable {b a : Time}

theorem fraction_inj (h : a.fraction = b.fraction) : a.nsec = b.nsec :=
  trimmed_inj a.nsec_lt b.nsec_lt (by rw [trimmed_eq_drop, trimmed_eq_drop, h])

/-- A longer fraction goes on with the point or with a digit. -/
theorem exists_of_begins (hne : a.nsec ≠ b.nsec) (h : a.fraction <+: b.fraction) :
    ∃ c rest, b.fraction = a.fraction ++ c :: rest ∧ (c = 46 ∨ Net.isDigit c = true) := by
  obtain ⟨rest, hrest⟩ := h
  cases rest with
  | nil => exact absurd (fraction_inj (by simpa using hrest)) hne
  | cons c rest =>
    refine ⟨c, rest, hrest.symm, ?_⟩
    have hmem : c ∈ b.fraction := by simp [← hrest]
    unfold fraction at hmem
    split at hmem
    · exact absurd hmem List.not_mem_nil
    · exact (List.mem_cons.mp hmem).imp_right isDigit_of_mem_trimmed

theorem nsec_le_of_begins (h : a.fraction <+: b.fraction) : a.nsec ≤ b.nsec := by
  obtain ⟨rest, hrest⟩ : trimmed a.nsec <+: trimmed b.nsec := by
    rw [trimmed_eq_drop, trimmed_eq_drop]
    exact h.drop 1
  rw [← byteLe_padded_iff (by decide) a.nsec_lt b.nsec_lt, ← trimmed_append a.nsec_lt,
    ← trimmed_append b.nsec_lt, ← hrest, List.append_assoc, byteLe_append_left]
  -- zeros against the digits that follow and zeros
  refine byteLe_replicate ?_ fun c hc => ?_
  · simp only [List.length_append, List.length_replicate]
    omega
  · rcases List.mem_append.mp hc with hdigit | hzero
    · have hc := isDigit_of_mem_trimmed (hrest ▸ List.mem_append_right _ hdigit)
      simp only [Net.isDigit, Bool.and_eq_true, decide_eq_true_eq] at hc
      exact hc.1
    · rw [List.eq_of_mem_replicate hzero]
      exact UInt8.le_refl 48

theorem byteLe_fraction_iff (hab : ¬ a.fraction <+: b.fraction) (hba : ¬ b.fraction <+: a.fraction)
    (u v : Bytes) : byteLe (a.fraction ++ u) (b.fraction ++ v) = true ↔ a.nsec ≤ b.nsec := by
  have hcons : ∀ {s t : Time}, ¬ s.fraction <+: t.fraction → s.fraction = 46 :: trimmed s.nsec := by
    intro s t hst
    by_cases hzero : s.nsec = 0
    · rw [fraction, if_pos hzero] at hst
      exact absurd List.nil_prefix hst
    · rw [fraction, if_neg hzero]
  rw [byteLe_append_of_diverge hab hba]
  have ha := hcons hab
  have hb := hcons hba
  rw [ha, hb] at hab hba ⊢
  rw [List.prefix_cons_inj] at hab hba
  -- with the zeros back the numbers are compared in full
  rw [byteLe_cons, ← byteLe_append_of_diverge hab hba
      (List.replicate (9 - (trimmed a.nsec).length) 48)
      (List.replicate (9 - (trimmed b.nsec).length) 48),
    trimmed_append a.nsec_lt, trimmed_append b.nsec_lt]
  exact byteLe_padded_iff (by decide) a.nsec_lt b.nsec_lt

/-! ## The zone -/

theorem zone_eq (t : Time) : ∃ mark rest, t.zone = mark :: rest ∧
    (t.offset = 0 ∧ mark = 90 ∨ t.offset ≠ 0 ∧ (mark = 43 ∨ mark = 45)) := by
  unfold zone
  split
  · next h => exact ⟨90, [], rfl, Or.inl ⟨h, rfl⟩⟩
  · next h =>
    refine ⟨_, _, rfl, Or.inr ⟨h, ?_⟩⟩
    split
    · exact Or.inr rfl
    · exact Or.inl rfl

/-- Of the marks only `Z` is above the point and the digits. -/
theorem mark_lt_iff {t : Time} {mark c : UInt8}
    (hmark : t.offset = 0 ∧ mark = 90 ∨ t.offset ≠ 0 ∧ (mark = 43 ∨ mark = 45))
    (hc : c = 46 ∨ Net.isDigit c = true) :
    mark ≠ c ∧ (mark < c ↔ t.offset ≠ 0) ∧ (c < mark ↔ t.offset = 0) := by
  have hbounds : 46 ≤ c.toNat ∧ c.toNat ≤ 57 := by
    rcases hc with rfl | hdigit
    · decide
    · simp only [Net.isDigit, Bool.and_eq_true, decide_eq_true_eq, UInt8.le_iff_toNat_le] at hdigit
      have h48 : (48 : UInt8).toNat = 48 := rfl
      have h57 : (57 : UInt8).toNat = 57 := rfl
      omega
  have h90 : (90 : UInt8).toNat = 90 := rfl
  have h43 : (43 : UInt8).toNat = 43 := rfl
  have h45 : (45 : UInt8).toNat = 45 := rfl
  rw [Ne, ← UInt8.toNat_inj, UInt8.lt_iff_toNat_lt, UInt8.lt_iff_toNat_lt]
  rcases hmark with ⟨hoff, rfl⟩ | ⟨hoff, rfl | rfl⟩ <;> omega

theorem byteLe_zone_cons {t : Time} {c : UInt8} (hc : c = 46 ∨ Net.isDigit c = true)
    (rest : Bytes) : byteLe t.zone (c :: rest) = true ↔ t.offset ≠ 0 := by
  obtain ⟨mark, rest', hzone, hmark⟩ := t.zone_eq
  obtain ⟨hne, hlt, -⟩ := mark_lt_iff hmark hc
  rw [hzone, byteLe_cons_cons, hlt, or_iff_left fun h => hne h.1]

theorem byteLe_cons_zone {t : Time} {c : UInt8} (hc : c = 46 ∨ Net.isDigit c = true)
    (rest : Bytes) : byteLe (c :: rest) t.zone = true ↔ t.offset = 0 := by
  obtain ⟨mark, rest', hzone, hmark⟩ := t.zone_eq
  obtain ⟨hne, -, hgt⟩ := mark_lt_iff hmark hc
  rw [hzone, byteLe_cons_cons, hgt, or_iff_left fun h => hne h.1.symm]

theorem byteLe_tail_iff (a b : Time) :
    byteLe (a.fraction ++ a.zone) (b.fraction ++ b.zone) = true ↔ a.TailLe b := by
  unfold TailLe
  split
  · next heq =>
    have hfraction : a.fraction = b.fraction := by rw [fraction, fraction, heq]
    rw [hfraction, byteLe_append_left]
  · next hne =>
    split
    · next hbegins =>
      obtain ⟨c, rest, hb, hc⟩ := exists_of_begins hne hbegins
      rw [hb, List.append_assoc, byteLe_append_left, List.cons_append, byteLe_zone_cons hc]
    · next hbegins =>
      split
      · next hbegins' =>
        obtain ⟨c, rest, ha, hc⟩ := exists_of_begins (Ne.symm hne) hbegins'
        rw [ha, List.append_assoc, byteLe_append_left, List.cons_append, byteLe_cons_zone hc]
      · next hbegins' => exact byteLe_fraction_iff hbegins hbegins' _ _

/-! ## Date and clock -/

theorem localSec_eq (t : Time) : t.localSec = 86400 * (t.localSec / 86400) + t.daySec := by
  unfold daySec
  omega

theorem daySec_lt (t : Time) : t.daySec < 86400 := by
  unfold daySec
  omega

theorem year_eq {t : Time} (h : t.FourDigitYear) :
    t.year = padded 4 t.localDate.year.toNat ∧ t.localDate.year.toNat < 10 ^ 4 := by
  obtain ⟨hpos, hle⟩ := h
  rw [year, if_neg (by omega), List.nil_append]
  exact ⟨congrArg (padded 4) (by omega), by omega⟩

/-- The clock is compared as the seconds of the day. -/
theorem clock_iff {s t : ℕ} (P : Prop) :
    (s / 3600 < t / 3600 ∨ s / 3600 = t / 3600 ∧
      (s % 3600 / 60 < t % 3600 / 60 ∨ s % 3600 / 60 = t % 3600 / 60 ∧
        (s % 60 < t % 60 ∨ s % 60 = t % 60 ∧ P))) ↔ s < t ∨ s = t ∧ P := by
  by_cases h : P
  · simp only [h, and_true]
    omega
  · simp only [h, and_false, or_false]
    omega

/-- Date first, then the seconds of the day, is the order of the local seconds. -/
theorem localSec_iff (a b : Time) (P : Prop) :
    (a.localDate.Lt b.localDate ∨ a.localDate = b.localDate ∧
      (a.daySec < b.daySec ∨ a.daySec = b.daySec ∧ P)) ↔
      a.localSec < b.localSec ∨ a.localSec = b.localSec ∧ P := by
  have hdate : a.localDate = b.localDate ↔ a.localSec / 86400 = b.localSec / 86400 := by
    refine ⟨fun h => ?_, fun h => congrArg date h⟩
    have hday := congrArg dayNumber h
    rwa [localDate, localDate, dayNumber_date, dayNumber_date] at hday
  have hlt : a.localDate.Lt b.localDate ↔ a.localSec / 86400 < b.localSec / 86400 := date_lt_iff
  rw [hlt, hdate]
  have ha := a.localSec_eq
  have hb := b.localSec_eq
  have ha' := a.daySec_lt
  have hb' := b.daySec_lt
  by_cases h : P
  · simp only [h, and_true]
    omega
  · simp only [h, and_false, or_false]
    omega

/-- The order of the texts: first the local seconds, then what stands behind them. -/
theorem byteLe_format_iff (ha : a.FourDigitYear) (hb : b.FourDigitYear) :
    byteLe a.format b.format = true ↔
      a.localSec < b.localSec ∨ a.localSec = b.localSec ∧ a.TailLe b := by
  obtain ⟨hya, hya'⟩ := year_eq ha
  obtain ⟨hyb, hyb'⟩ := year_eq hb
  have hmonth : ∀ t : Time, t.localDate.month < 10 ^ 2 := fun t =>
    Nat.lt_of_le_of_lt (date_valid _).month_le (by decide)
  have hday : ∀ t : Time, t.localDate.day < 10 ^ 2 := fun t =>
    Nat.lt_of_le_of_lt (date_valid _).day_le_31 (by decide)
  have ha' := a.daySec_lt
  have hb' := b.daySec_lt
  have hyear_lt : a.localDate.year.toNat < b.localDate.year.toNat ↔
      a.localDate.year < b.localDate.year := by
    have := ha.1
    have := hb.1
    omega
  have hyear_eq : a.localDate.year.toNat = b.localDate.year.toNat ↔
      a.localDate.year = b.localDate.year := by
    have := ha.1
    have := hb.1
    omega
  have hfields : byteLe a.format b.format = true ↔
      a.localDate.Lt b.localDate ∨ a.localDate = b.localDate ∧
        (a.daySec < b.daySec ∨ a.daySec = b.daySec ∧ a.TailLe b) := by
    unfold format
    rw [hya, hyb, byteLe_padded_append (by decide) hya' hyb', byteLe_cons,
      byteLe_padded_append (by decide) (hmonth a) (hmonth b), byteLe_cons,
      byteLe_padded_append (by decide) (hday a) (hday b), byteLe_cons,
      byteLe_padded_append (by decide) (by omega) (by omega), byteLe_cons,
      byteLe_padded_append (by decide) (by omega) (by omega), byteLe_cons,
      byteLe_padded_append (by decide) (by omega) (by omega), byteLe_tail_iff, clock_iff,
      hyear_lt, hyear_eq, Date.fields_iff]
  rw [hfields, localSec_iff]

end Time

end N2nGo.Lib
