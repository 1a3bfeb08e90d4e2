import N2nGo.Model.Syshosts
import N2nGo.Lib.Encoding
import N2nGo.Lib.StableSort
import Mathlib.Data.Prod.Lex

/-!
# The order of the hosts file

`SortIPs` compares IPs by parse failure, then by family, then by bytes. `net.ParseIP` gives
16 bytes for both families, and in 16-byte form IPv4 addresses differ only in the last four.
So the comparison is that of a key, the family and the number of the address, and a key in a
linear order makes a total preorder.
-/

set_option autoImplicit false

namespace N2nGo.Syshosts

open N2nGo.Lib

/-! ## The key of an IP -/

/-- Unparsable, IPv4, IPv6. -/
def family (ip : Bytes) : ℕ := if ip = [] then 0 else if Net.to4 ip ≠ [] then 1 else 2

/-- The address as a number of 32 or 128 bits. -/
def number (ip : Bytes) : ℕ := if Net.to4 ip ≠ [] then bigEndian (Net.to4 ip) else bigEndian ip

/-- First the family, then the number. -/
def ipKey (t : Text) : ℕ ×ₗ ℕ := toLex (family (Net.parseIP t.bytes), number (Net.parseIP t.bytes))

section Key

variable {ip ip' : Bytes}

theorem to4_ne_nil_iff (h : ip.length = 16) : Net.to4 ip ≠ [] ↔ ip.take 12 = Net.v4InV6Prefix := by
  unfold Net.to4
  rw [if_neg (by omega)]
  by_cases hmapped : ip.take 12 = Net.v4InV6Prefix
  · rw [if_pos ⟨h, hmapped⟩]
    refine ⟨fun _ => hmapped, fun _ hnil => ?_⟩
    have hlen := congrArg List.length hnil
    rw [List.length_drop, h] at hlen
    cases hlen
  · rw [if_neg fun hboth => hmapped hboth.2]
    exact ⟨fun hne => absurd rfl hne, fun hmapped' => absurd hmapped' hmapped⟩

theorem bigEndian_of_to4 (h : ip.length = 16) (hv4 : Net.to4 ip ≠ []) :
    bigEndian ip = bigEndian Net.v4InV6Prefix * 256 ^ 4 + number ip := by
  have hmapped := (to4_ne_nil_iff h).mp hv4
  have hto4 : Net.to4 ip = ip.drop 12 := by
    unfold Net.to4
    rw [if_neg (by omega), if_pos ⟨h, hmapped⟩]
  unfold number
  rw [if_pos hv4, hto4, ← hmapped]
  have hsplit := bigEndian_append (ip.take 12) (ip.drop 12)
  rw [List.take_append_drop, List.length_drop, h] at hsplit
  exact hsplit

theorem bytes_number (h : ip.length = 16) (h' : ip'.length = 16)
    (hfamily : Net.to4 ip ≠ [] ↔ Net.to4 ip' ≠ []) :
    (ip < ip' ↔ number ip < number ip') ∧ (ip = ip' ↔ number ip = number ip') := by
  rw [lt_iff_bigEndian_lt (h.trans h'.symm), ← bigEndian_inj (h.trans h'.symm)]
  by_cases hv4 : Net.to4 ip ≠ []
  · rw [bigEndian_of_to4 h hv4, bigEndian_of_to4 h' (hfamily.mp hv4)]
    exact ⟨by omega, by omega⟩
  · have hself : number ip = bigEndian ip := if_neg hv4
    have hself' : number ip' = bigEndian ip' := if_neg fun hv4' => hv4 (hfamily.mpr hv4')
    rw [hself, hself']
    exact ⟨Iff.rfl, Iff.rfl⟩

theorem ipKey_lt_iff (a b : Text) : ipKey a < ipKey b ↔
    family (Net.parseIP a.bytes) < family (Net.parseIP b.bytes) ∨
      family (Net.parseIP a.bytes) = family (Net.parseIP b.bytes) ∧
        number (Net.parseIP a.bytes) < number (Net.parseIP b.bytes) :=
  Prod.Lex.toLex_lt_toLex

theorem ipKey_eq_iff (a b : Text) : ipKey a = ipKey b ↔
    family (Net.parseIP a.bytes) = family (Net.parseIP b.bytes) ∧
      number (Net.parseIP a.bytes) = number (Net.parseIP b.bytes) :=
  toLex_inj.trans Prod.mk_inj

theorem compareKey_of_family_lt {a b : Text}
    (h : family (Net.parseIP a.bytes) < family (Net.parseIP b.bytes)) :
    ipKey a < ipKey b ∧ ¬ ipKey b < ipKey a ∧ ¬ ipKey b = ipKey a := by
  have hlt : ipKey a < ipKey b := (ipKey_lt_iff a b).mpr (Or.inl h)
  exact ⟨hlt, hlt.not_gt, hlt.ne'⟩

theorem family_of_ne_nil (h : ip ≠ []) : family ip = if Net.to4 ip ≠ [] then 1 else 2 := if_neg h

theorem family_nil_lt (h : ip ≠ []) : family [] < family ip := by
  rw [family_of_ne_nil h]
  split
  · exact Nat.zero_lt_one
  · exact Nat.zero_lt_two

theorem bytesCompare_eq {a b : Text} (ha : Net.parseIP a.bytes ≠ []) (hb : Net.parseIP b.bytes ≠ [])
    (hsame : Net.to4 (Net.parseIP a.bytes) ≠ [] ↔ Net.to4 (Net.parseIP b.bytes) ≠ []) :
    bytesCompare (Net.parseIP a.bytes) (Net.parseIP b.bytes) =
      if ipKey a < ipKey b then -1 else if ipKey a = ipKey b then 0 else 1 := by
  have hfamily : family (Net.parseIP a.bytes) = family (Net.parseIP b.bytes) := by
    rw [family_of_ne_nil ha, family_of_ne_nil hb]
    exact if_congr hsame rfl rfl
  obtain ⟨hlt, heq⟩ := bytes_number (Net.length_parseIP ha) (Net.length_parseIP hb) hsame
  have hlt' : Net.parseIP a.bytes < Net.parseIP b.bytes ↔ ipKey a < ipKey b := by
    rw [hlt, ipKey_lt_iff]
    exact ⟨fun h => Or.inr ⟨hfamily, h⟩, fun h => (h.resolve_left (Nat.not_lt.mpr hfamily.ge)).2⟩
  have heq' : Net.parseIP a.bytes = Net.parseIP b.bytes ↔ ipKey a = ipKey b := by
    rw [heq, ipKey_eq_iff]
    exact ⟨fun h => ⟨hfamily, h⟩, And.right⟩
  unfold bytesCompare
  exact if_congr hlt' rfl (if_congr heq' rfl rfl)

theorem compareIPStrings_eq (a b : Text) :
    compareIPStrings a b =
      if ipKey a < ipKey b then -1 else if ipKey a = ipKey b then 0 else 1 := by
  simp only [compareIPStrings]
  by_cases ha : Net.parseIP a.bytes = []
  · by_cases hb : Net.parseIP b.bytes = []
    · have heq : ipKey a = ipKey b := by
        rw [ipKey_eq_iff, ha, hb]
        exact ⟨rfl, rfl⟩
      rw [if_pos ⟨ha, hb⟩, if_neg (by rw [heq]; exact lt_irrefl _), if_pos heq]
    · have hlt : family (Net.parseIP a.bytes) < family (Net.parseIP b.bytes) :=
        ha ▸ family_nil_lt hb
      rw [if_neg fun hboth => hb hboth.2, if_pos ha, if_pos (compareKey_of_family_lt hlt).1]
  · rw [if_neg fun hboth => ha hboth.1, if_neg ha]
    by_cases hb : Net.parseIP b.bytes = []
    · have hlt : family (Net.parseIP b.bytes) < family (Net.parseIP a.bytes) :=
        hb ▸ family_nil_lt ha
      obtain ⟨-, hnot, hne⟩ := compareKey_of_family_lt hlt
      rw [if_pos hb, if_neg hnot, if_neg hne]
    · rw [if_neg hb]
      by_cases hva : Net.to4 (Net.parseIP a.bytes) ≠ []
      · by_cases hvb : Net.to4 (Net.parseIP b.bytes) ≠ []
        · rw [if_neg fun hboth => hboth.2 hvb, if_neg fun hboth => hboth.1 hva]
          exact bytesCompare_eq ha hb ⟨fun _ => hvb, fun _ => hva⟩
        · have hlt : family (Net.parseIP a.bytes) < family (Net.parseIP b.bytes) := by
            rw [family_of_ne_nil ha, family_of_ne_nil hb, if_pos hva, if_neg hvb]
            exact Nat.one_lt_two
          rw [if_pos ⟨hva, hvb⟩, if_pos (compareKey_of_family_lt hlt).1]
      · rw [if_neg fun hboth => hva hboth.1]
        by_cases hvb : Net.to4 (Net.parseIP b.bytes) ≠ []
        · have hlt : family (Net.parseIP b.bytes) < family (Net.parseIP a.bytes) := by
            rw [family_of_ne_nil ha, family_of_ne_nil hb, if_neg hva, if_pos hvb]
            exact Nat.one_lt_two
          obtain ⟨-, hnot, hne⟩ := compareKey_of_family_lt hlt
          rw [if_pos ⟨hva, hvb⟩, if_neg hnot, if_neg hne]
        · rw [if_neg fun hboth => hvb hboth.2]
          exact bytesCompare_eq ha hb ⟨fun h => absurd h hva, fun h => absurd h hvb⟩

theorem compareIPStrings_lt_iff (a b : Text) : compareIPStrings a b < 0 ↔ ipKey a < ipKey b := by
  rw [compareIPStrings_eq]
  split
  · next h => exact ⟨fun _ => h, fun _ => by decide⟩
  · next h =>
    split
    · exact ⟨fun hlt => absurd hlt (by decide), fun hlt => absurd hlt h⟩
    · exact ⟨fun hlt => absurd hlt (by decide), fun hlt => absurd hlt h⟩

theorem compareIPStrings_le_iff (a b : Text) : compareIPStrings a b ≤ 0 ↔ ipKey a ≤ ipKey b := by
  rw [compareIPStrings_eq]
  split
  · next h => exact ⟨fun _ => h.le, fun _ => by decide⟩
  · next h =>
    split
    · next heq => exact ⟨fun _ => heq.le, fun _ => by decide⟩
    · next hne =>
      exact ⟨fun hle => absurd hle (by decide), fun hle => absurd (lt_of_le_of_ne hle hne) h⟩

theorem compareIPStrings_swap (a b : Text) : compareIPStrings b a = -compareIPStrings a b := by
  rw [compareIPStrings_eq, compareIPStrings_eq]
  rcases lt_trichotomy (ipKey a) (ipKey b) with hlt | heq | hgt
  · rw [if_neg hlt.not_gt, if_neg hlt.ne', if_pos hlt]
    rfl
  · rw [heq, if_neg (lt_irrefl _), if_pos rfl]
    rfl
  · rw [if_pos hgt, if_neg hgt.not_gt, if_neg hgt.ne']

end Key

/-! ## Sorting -/

/-- The entry need not come behind the other. -/
def NotAbove (e e' : HostEntry) : Prop := compareIPStrings e.ip e'.ip ≤ 0

instance : DecidableRel NotAbove := fun _ _ => inferInstanceAs (Decidable (_ ≤ _))

instance : Std.Total NotAbove where
  total e e' := by
    unfold NotAbove
    rw [compareIPStrings_le_iff, compareIPStrings_le_iff]
    exact le_total _ _

instance : IsTrans HostEntry NotAbove where
  trans e e' e'' h h' := by
    unfold NotAbove at h h' ⊢
    rw [compareIPStrings_le_iff] at h h' ⊢
    exact h.trans h'

theorem entries_sortIPs (h : Hosts) : (sortIPs h).entries =
    h.entries.filter (!·.isActive) ++ (h.entries.filter (·.isActive)).insertionSort NotAbove := by
  have hrel : ∀ e e' : HostEntry, (¬ ipLess e'.ip e.ip = true) ↔ NotAbove e e' := by
    intro e e'
    unfold NotAbove ipLess
    rw [decide_eq_true_iff, compareIPStrings_lt_iff, compareIPStrings_le_iff, not_lt]
  exact congrArg _ (insertionSort_congr hrel _)

/-- `compareIPStrings` is a total preorder of all texts: unparsable, then IPv4, then IPv6, each by
number. -/
structure IPOrder : Prop where
  refl : ∀ a, compareIPStrings a a = 0
  swap : ∀ a b, compareIPStrings b a = -compareIPStrings a b
  trans : ∀ a b c, compareIPStrings a b ≤ 0 → compareIPStrings b c ≤ 0 → compareIPStrings a c ≤ 0
  key : ∀ a b, compareIPStrings a b < 0 ↔ ipKey a < ipKey b

theorem ipOrder : IPOrder := by
  refine ⟨fun a => ?_, compareIPStrings_swap, fun a b c hab hbc => ?_, compareIPStrings_lt_iff⟩
  · rw [compareIPStrings_eq, if_neg (lt_irrefl _), if_pos rfl]
  · rw [compareIPStrings_le_iff] at hab hbc ⊢
    exact hab.trans hbc

/-- The inactive entries, then a stable sort of the active ones, and there is only one. -/
structure SortedByIP (h h' : Hosts) : Prop where
  arrays : h'.arrays = h.arrays
  entries : ∃ sorted, h'.entries = h.entries.filter (!·.isActive) ++ sorted ∧
    StableSorted NotAbove (h.entries.filter (·.isActive)) sorted ∧
    ∀ sorted', StableSorted NotAbove (h.entries.filter (·.isActive)) sorted' → sorted' = sorted

/-- **`SortIPs` is a stable sort**, and a second one changes nothing.
GOLINE: syshosts/extents.go:427-498 -/
theorem sortIPs_stable (h : Hosts) :
    IPOrder ∧ SortedByIP h (sortIPs h) ∧ sortIPs (sortIPs h) = sortIPs h := by
  have hstable := stableSorted_insertionSort (r := NotAbove) (h.entries.filter (·.isActive))
  have hactive : ∀ e ∈ (h.entries.filter (·.isActive)).insertionSort NotAbove, e.isActive = true :=
    fun e he => (List.mem_filter.mp ((List.perm_insertionSort _ _).mem_iff.mp he)).2
  refine ⟨ipOrder, ⟨rfl, _, entries_sortIPs h, hstable, fun _ hother => hother.unique hstable⟩, ?_⟩
  have hkept : (sortIPs h).entries.filter (·.isActive) =
      (h.entries.filter (·.isActive)).insertionSort NotAbove := by
    rw [entries_sortIPs, List.filter_append, List.filter_eq_nil_iff.mpr, List.nil_append,
      List.filter_eq_self.mpr hactive]
    intro e he
    simpa using (List.mem_filter.mp he).2
  have hinactive : (sortIPs h).entries.filter (!·.isActive) = h.entries.filter (!·.isActive) := by
    have hnone :
        ((h.entries.filter (·.isActive)).insertionSort NotAbove).filter (!·.isActive) = [] := by
      refine List.filter_eq_nil_iff.mpr fun e he => ?_
      rw [hactive e he]
      exact Bool.false_ne_true
    rw [entries_sortIPs, List.filter_append, hnone, List.append_nil,
      List.filter_eq_self.mpr fun e he => (List.mem_filter.mp he).2]
  have hentries : (sortIPs (sortIPs h)).entries = (sortIPs h).entries := by
    rw [entries_sortIPs (sortIPs h), hkept, hinactive, hstable.sorted.insertionSort_eq,
      ← entries_sortIPs h]
  exact congrArg (Hosts.mk h.arrays) hentries

end N2nGo.Syshosts
