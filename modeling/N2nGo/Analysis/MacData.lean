import N2nGo.Model.Machine
import Mathlib.Data.Set.Defs

/-!
# What a MAC address is derived from

The hash behind a MAC reads machine ID and community name one after the other. Two pairs
are hashed from the same bytes exactly when one is the other with some bytes moved across
the border. Of the 64 bits of the hash the MAC keeps 46.
-/

set_option autoImplicit false

namespace N2nGo.Machine

open N2nGo.Lib N2nGo.Protocol

/-! ## The hashed bytes -/

/-- The bytes hashed for a machine ID and a community name.
GOLINE: machine/mac.go:87-103 -/
def hashedFor (p : Bytes × Bytes) : Bytes := macData p.1 p.2 12345

/-- The MAC address of a machine in a community. -/
def macFor (p : Bytes × Bytes) : MacID := extGenerateMacFor p.2 p.1

/-- `q` is `p` with the first bytes of the community name moved to the machine ID. -/
def Shifted (p q : Bytes × Bytes) : Prop :=
  ∃ moved, moved ≠ [] ∧ q.1 = p.1 ++ moved ∧ p.2 = moved ++ q.2

theorem hashedFor_eq_append (p : Bytes × Bytes) :
    hashedFor p = p.1 ++ p.2 ++ putUint64LE 12345 := rfl

theorem Shifted.hashedFor_eq {p q : Bytes × Bytes} (h : Shifted p q) :
    hashedFor p = hashedFor q := by
  obtain ⟨moved, -, hid, hname⟩ := h
  rw [hashedFor_eq_append, hashedFor_eq_append, hid, hname]
  simp only [List.append_assoc]

theorem Shifted.ne {p q : Bytes × Bytes} (h : Shifted p q) : p ≠ q := by
  rintro rfl
  obtain ⟨moved, hne, hid, -⟩ := h
  exact hne (List.self_eq_append_right.mp hid)

theorem hashedFor_eq_iff (p q : Bytes × Bytes) :
    hashedFor p = hashedFor q ↔ p = q ∨ Shifted p q ∨ Shifted q p := by
  constructor
  · intro h
    rw [hashedFor_eq_append, hashedFor_eq_append] at h
    have hjoin : p.1 ++ p.2 = q.1 ++ q.2 := List.append_cancel_right h
    by_cases hid : p.1 = q.1
    · rw [hid] at hjoin
      exact Or.inl (Prod.ext hid (List.append_cancel_left hjoin))
    · have hshift : ∀ {a b : Bytes} (w : Bytes), a ≠ b → b = a ++ w → w ≠ [] := by
        rintro a b w hne rfl rfl
        exact hne (List.append_nil a).symm
      rcases List.append_eq_append_iff.mp hjoin with ⟨w, hq, hp⟩ | ⟨w, hp, hq⟩
      · exact Or.inr (Or.inl ⟨w, hshift w hid hq, hq, hp⟩)
      · exact Or.inr (Or.inr ⟨w, hshift w (Ne.symm hid) hp, hp, hq⟩)
  · rintro (rfl | h | h)
    · rfl
    · exact h.hashedFor_eq
    · exact h.hashedFor_eq.symm

/-! ## What the MAC keeps of the hash -/

/-- Bits 2 to 47: the two lowest are overwritten and the two highest bytes are cut off. -/
def kept (hash : UInt64) : ℕ := hash.toNat / 4 % 2 ^ 46

theorem toNat_markRandomMAC (b : UInt8) :
    ((b ||| 0x02) &&& 0xfe).toNat = 4 * (b.toNat / 4) + 2 := by
  have hall : ∀ n : Fin 256, ((UInt8.ofFin n ||| 0x02) &&& 0xfe).toNat = 4 * (n.val / 4) + 2 := by
    decide +kernel
  exact hall b.toFin

theorem macOfHash_bytes (hash : UInt64) :
    (macOfHash hash).bytes = ((UInt8.ofNat hash.toNat ||| 0x02) &&& 0xfe) ::
      [UInt8.ofNat (hash.toNat / 2 ^ 8), UInt8.ofNat (hash.toNat / 2 ^ 16),
        UInt8.ofNat (hash.toNat / 2 ^ 24), UInt8.ofNat (hash.toNat / 2 ^ 32),
        UInt8.ofNat (hash.toNat / 2 ^ 40)] := by
  have htake : (putUint64LE hash).take 6 = UInt8.ofNat hash.toNat ::
      [UInt8.ofNat (hash.toNat / 2 ^ 8), UInt8.ofNat (hash.toNat / 2 ^ 16),
        UInt8.ofNat (hash.toNat / 2 ^ 24), UInt8.ofNat (hash.toNat / 2 ^ 32),
        UInt8.ofNat (hash.toNat / 2 ^ 40)] := by
    simp [putUint64LE, List.range, List.range.loop]
  unfold macOfHash
  split
  · next b rest h =>
    rw [htake] at h
    obtain ⟨rfl, rfl⟩ := List.cons.inj h
    rfl
  · next h =>
    rw [htake] at h
    exact absurd h (List.cons_ne_nil _ _)

/-- Six bytes of two numbers agree, but for the two lowest bits, when those 46 bits do. -/
theorem bytes_eq_iff (m n : ℕ) :
    4 * (m % 2 ^ 8 / 4) + 2 = 4 * (n % 2 ^ 8 / 4) + 2 ∧ m / 2 ^ 8 % 2 ^ 8 = n / 2 ^ 8 % 2 ^ 8 ∧
        m / 2 ^ 16 % 2 ^ 8 = n / 2 ^ 16 % 2 ^ 8 ∧ m / 2 ^ 24 % 2 ^ 8 = n / 2 ^ 24 % 2 ^ 8 ∧
        m / 2 ^ 32 % 2 ^ 8 = n / 2 ^ 32 % 2 ^ 8 ∧ m / 2 ^ 40 % 2 ^ 8 = n / 2 ^ 40 % 2 ^ 8 ↔
      m / 4 % 2 ^ 46 = n / 4 % 2 ^ 46 := by
  constructor
  · rintro ⟨h0, h1, h2, h3, h4, h5⟩
    omega
  · intro h
    refine ⟨?_, ?_, ?_, ?_, ?_, ?_⟩ <;> omega

theorem macOfHash_eq_iff (x y : UInt64) : macOfHash x = macOfHash y ↔ kept x = kept y := by
  rw [MacID.ext_iff, macOfHash_bytes, macOfHash_bytes]
  simp only [List.cons.injEq, ← UInt8.toNat_inj, toNat_markRandomMAC, UInt8.toNat_ofNat', kept,
    and_true]
  exact bytes_eq_iff x.toNat y.toNat

theorem macFor_eq_iff (p q : Bytes × Bytes) :
    macFor p = macFor q ↔
      kept (notSipHash24 (hashedFor p) hashKey) = kept (notSipHash24 (hashedFor q) hashKey) :=
  macOfHash_eq_iff _ _

/-! ## Separation -/

/-- A collision of the hash. -/
def Collides (data data' : Bytes) : Prop :=
  data ≠ data' ∧ notSipHash24 data hashKey = notSipHash24 data' hashKey

/-- The hashes of the two differ, but only in bits that the MAC drops. -/
def CutAlike (p q : Bytes × Bytes) : Prop :=
  notSipHash24 (hashedFor p) hashKey ≠ notSipHash24 (hashedFor q) hashKey ∧
    kept (notSipHash24 (hashedFor p) hashKey) = kept (notSipHash24 (hashedFor q) hashKey)

/-- **The hashed bytes separate a set of pairs exactly if** none is a shift of another.
GOLINE: machine/mac.go:95-102 -/
theorem hashed_separate_iff (D : Set (Bytes × Bytes)) :
    (∀ p ∈ D, ∀ q ∈ D, hashedFor p = hashedFor q → p = q) ↔ ∀ p ∈ D, ∀ q ∈ D, ¬ Shifted p q := by
  constructor
  · intro hsep p hp q hq hshift
    exact hshift.ne (hsep p hp q hq hshift.hashedFor_eq)
  · intro h p hp q hq heq
    rcases (hashedFor_eq_iff p q).mp heq with rfl | hshift | hshift
    · rfl
    · exact absurd hshift (h p hp q hq)
    · exact absurd hshift (h q hq p hp)

/-- **The derivation separates a set of pairs exactly if** none is a shift of another and no
two hashes differ only in the bits that the MAC drops.
GOLINE: machine/mac.go:87-113 -/
theorem macs_separate_iff (D : Set (Bytes × Bytes)) :
    (∀ p ∈ D, ∀ q ∈ D, (hashedFor p = hashedFor q → p = q) ∧
      (p ≠ q → macFor p = macFor q → Collides (hashedFor p) (hashedFor q))) ↔
      ∀ p ∈ D, ∀ q ∈ D, ¬ Shifted p q ∧ ¬ CutAlike p q := by
  constructor
  · intro h p hp q hq
    have hshift := (hashed_separate_iff D).mp fun p hp q hq => (h p hp q hq).1
    refine ⟨hshift p hp q hq, fun hcut => ?_⟩
    have hne : p ≠ q := by
      rintro rfl
      exact hcut.1 rfl
    exact hcut.1 ((h p hp q hq).2 hne ((macFor_eq_iff p q).mpr hcut.2)).2
  · intro h p hp q hq
    have hsep := (hashed_separate_iff D).mpr fun p hp q hq => (h p hp q hq).1
    refine ⟨hsep p hp q hq, fun hne hmac => ⟨fun heq => hne (hsep p hp q hq heq), ?_⟩⟩
    by_contra hhash
    exact (h p hp q hq).2 ⟨hhash, (macFor_eq_iff p q).mp hmac⟩

/-- Machine `a` in community `bc` and machine `ab` in community `c` hash the same bytes. And
two machine IDs of 16 bytes get one MAC in community `c` although their hashes differ. -/
theorem macs_not_separated :
    (hashedFor (ascii "a", ascii "bc") = hashedFor (ascii "ab", ascii "c") ∧
      (ascii "a", ascii "bc") ≠ (ascii "ab", ascii "c")) ∧
    CutAlike (List.replicate 13 0 ++ [0x6e, 0x88, 0x96], ascii "c")
      (List.replicate 13 0 ++ [0x07, 0xa9, 0x8c], ascii "c") := by
  refine ⟨⟨by decide +kernel, by decide +kernel⟩, ?_⟩
  unfold CutAlike kept
  decide +kernel

end N2nGo.Machine
