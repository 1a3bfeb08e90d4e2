import N2nGo.Lib.Fault
import Mathlib.Algebra.Group.Nat.Defs
import Mathlib.Data.List.Lemmas

/-!
# Fixed-width integers and runes as bytes

`encoding/binary` writes an integer of `2^k` bits as its base-256 digits, most or
least significant first. Reading the digits back gives the integer, and writing an
integer that was read gives the digits: both directions are needed, because a relay
decodes a packet and encodes it again.

`runes` is the sequence of code points a `range` loop over a Go string visits. A
Go string may hold any bytes; a byte that starts no valid UTF-8 sequence is visited
as U+FFFD and one byte is consumed.
-/

set_option autoImplicit false

namespace N2nGo.Lib

/-! ## Big-endian integers -/

/-- `binary.BigEndian.PutUint16`. -/
def putUint16 (x : UInt16) : Bytes := [UInt8.ofNat (x.toNat / 256), UInt8.ofNat x.toNat]

/-- `binary.BigEndian.Uint16`. -/
def uint16 (a b : UInt8) : UInt16 := UInt16.ofNat (256 * a.toNat + b.toNat)

/-- `binary.BigEndian.PutUint32`. -/
def putUint32 (x : UInt32) : Bytes :=
  [UInt8.ofNat (x.toNat / 2 ^ 24), UInt8.ofNat (x.toNat / 2 ^ 16), UInt8.ofNat (x.toNat / 2 ^ 8),
    UInt8.ofNat x.toNat]

/-- `binary.BigEndian.Uint32`. -/
def uint32 (a b c d : UInt8) : UInt32 :=
  UInt32.ofNat (2 ^ 24 * a.toNat + 2 ^ 16 * b.toNat + 2 ^ 8 * c.toNat + d.toNat)

/-- `binary.BigEndian.Uint32` on a slice, which must hold four bytes. -/
def readUint32 : Bytes → Go UInt32
  | a :: b :: c :: d :: _ => .ok (uint32 a b c d)
  | _ => .error .indexOutOfRange

theorem completes_readUint32_iff (p : Bytes) : Completes (readUint32 p) ↔ 4 ≤ p.length := by
  rcases p with _ | ⟨a, _ | ⟨b, _ | ⟨c, _ | ⟨d, rest⟩⟩⟩⟩ <;> simp [readUint32]

theorem uint8_ofNat_eq_iff (n : ℕ) (b : UInt8) : UInt8.ofNat n = b ↔ n % 256 = b.toNat := by
  rw [← UInt8.toNat_inj, UInt8.toNat_ofNat']

theorem putUint16_uint16 (a b : UInt8) : putUint16 (uint16 a b) = [a, b] := by
  have ha := a.toNat_lt
  have hb := b.toNat_lt
  simp only [putUint16, uint16, List.cons.injEq, uint8_ofNat_eq_iff, and_true, UInt16.toNat_ofNat']
  omega

theorem uint16_putUint16 (x : UInt16) :
    uint16 (UInt8.ofNat (x.toNat / 256)) (UInt8.ofNat x.toNat) = x := by
  have hx := x.toNat_lt
  rw [← UInt16.toNat_inj]
  simp only [uint16, UInt16.toNat_ofNat', UInt8.toNat_ofNat']
  omega

theorem putUint32_uint32 (a b c d : UInt8) : putUint32 (uint32 a b c d) = [a, b, c, d] := by
  have ha := a.toNat_lt
  have hb := b.toNat_lt
  have hc := c.toNat_lt
  have hd := d.toNat_lt
  simp only [putUint32, uint32, List.cons.injEq, uint8_ofNat_eq_iff, and_true, UInt32.toNat_ofNat']
  omega

theorem uint32_putUint32 (x : UInt32) :
    uint32 (UInt8.ofNat (x.toNat / 2 ^ 24)) (UInt8.ofNat (x.toNat / 2 ^ 16))
      (UInt8.ofNat (x.toNat / 2 ^ 8)) (UInt8.ofNat x.toNat) = x := by
  have hx := x.toNat_lt
  rw [← UInt32.toNat_inj]
  simp only [uint32, UInt32.toNat_ofNat', UInt8.toNat_ofNat']
  omega

/-- The number whose base-256 digits these are, most significant first. -/
def bigEndian : Bytes → ℕ
  | [] => 0
  | b :: bs => b.toNat * 256 ^ bs.length + bigEndian bs

theorem bigEndian_lt (bs : Bytes) : bigEndian bs < 256 ^ bs.length := by
  induction bs with
  | nil => exact Nat.zero_lt_one
  | cons b bs ih =>
    have hb : b.toNat < 256 := b.toNat_lt
    have hle : (b.toNat + 1) * 256 ^ bs.length ≤ 256 * 256 ^ bs.length := Nat.mul_le_mul_right _ hb
    rw [Nat.succ_mul] at hle
    rw [bigEndian, List.length_cons, Nat.pow_succ, Nat.mul_comm (256 ^ bs.length)]
    omega

theorem bigEndian_append (as bs : Bytes) :
    bigEndian (as ++ bs) = bigEndian as * 256 ^ bs.length + bigEndian bs := by
  induction as with
  | nil => rw [List.nil_append, bigEndian, Nat.zero_mul, Nat.zero_add]
  | cons a as ih =>
    rw [List.cons_append, bigEndian, bigEndian, ih, List.length_append, Nat.pow_add, Nat.add_mul,
      Nat.mul_assoc, Nat.add_assoc]

/-- The leading digit decides, and the rest where it is the same. -/
theorem digit_lt_iff {base d d' n n' : ℕ} (h : n < base) (h' : n' < base) :
    d * base + n < d' * base + n' ↔ d < d' ∨ d = d' ∧ n < n' := by
  have hstep : ∀ {x y : ℕ}, x < y → x * base + base ≤ y * base := by
    intro x y hlt
    have hle := Nat.mul_le_mul_right base (Nat.succ_le_of_lt hlt)
    rw [Nat.succ_mul] at hle
    exact hle
  rcases Nat.lt_trichotomy d d' with hlt | rfl | hgt
  · have hle := hstep hlt
    exact ⟨fun _ => Or.inl hlt, fun _ => by omega⟩
  · exact ⟨fun hlt => Or.inr ⟨rfl, by omega⟩, fun hor => by omega⟩
  · have hle := hstep hgt
    exact ⟨fun hlt => by omega, fun hor => by omega⟩

/-- Bytes of one length are ordered as the numbers they are. -/
theorem lt_iff_bigEndian_lt {as bs : Bytes} (h : as.length = bs.length) :
    as < bs ↔ bigEndian as < bigEndian bs := by
  induction as generalizing bs with
  | nil =>
    rw [List.length_eq_zero_iff.mp h.symm]
    exact ⟨fun hlt => absurd hlt (List.not_lt_nil []), fun hlt => absurd hlt (Nat.lt_irrefl 0)⟩
  | cons a as ih =>
    cases bs with
    | nil => cases h
    | cons b bs =>
      have hlen : as.length = bs.length := Nat.succ.inj h
      have has : bigEndian as < 256 ^ bs.length := hlen ▸ bigEndian_lt as
      rw [List.cons_lt_cons_iff, ih hlen, bigEndian, bigEndian, hlen,
        digit_lt_iff has (bigEndian_lt bs), UInt8.lt_iff_toNat_lt, ← UInt8.toNat_inj]

theorem bigEndian_inj {as bs : Bytes} (h : as.length = bs.length) :
    bigEndian as = bigEndian bs ↔ as = bs := by
  refine ⟨fun heq => ?_, fun heq => by rw [heq]⟩
  have hle := mt (lt_iff_bigEndian_lt h.symm).mp (Nat.not_lt.mpr (Nat.le_of_eq heq))
  have hge := mt (lt_iff_bigEndian_lt h).mp (Nat.not_lt.mpr (Nat.le_of_eq heq.symm))
  exact List.le_antisymm (List.not_lt.mp hle) (List.not_lt.mp hge)

/-! ## Little-endian integers -/

/-- `binary.LittleEndian.PutUint64`. -/
def putUint64LE (x : UInt64) : Bytes :=
  (List.range 8).map fun i => UInt8.ofNat (x.toNat / 2 ^ (8 * i))

/-- `binary.LittleEndian.Uint64` on the first eight bytes. -/
def uint64LE (p : Bytes) : UInt64 :=
  UInt64.ofNat ((p.take 8).foldr (fun b n => b.toNat + 256 * n) 0)

@[simp] theorem length_putUint64LE (x : UInt64) : (putUint64LE x).length = 8 := by
  simp [putUint64LE]

/-! ## Runes -/

/-- A continuation byte. -/
def isCont (b : UInt8) : Bool := 0x80 ≤ b && b ≤ 0xBF

/-- `utf8.DecodeRune` on a non-empty string: the code point and its width. -/
def decodeRune (p : Bytes) : ℕ × ℕ :=
  match p with
  | b0 :: rest =>
    if b0 < 0x80 then (b0.toNat, 1)
    else if 0xC2 ≤ b0 ∧ b0 ≤ 0xDF then
      match rest with
      | b1 :: _ =>
        if isCont b1 then ((b0.toNat - 0xC0) * 64 + (b1.toNat - 0x80), 2) else (0xFFFD, 1)
      | _ => (0xFFFD, 1)
    else if 0xE0 ≤ b0 ∧ b0 ≤ 0xEF then
      match rest with
      | b1 :: b2 :: _ =>
        -- E0 must not be overlong and ED must not be a surrogate
        if isCont b1 && isCont b2 && (b0 != 0xE0 || 0xA0 ≤ b1) && (b0 != 0xED || b1 ≤ 0x9F) then
          ((b0.toNat - 0xE0) * 4096 + (b1.toNat - 0x80) * 64 + (b2.toNat - 0x80), 3)
        else (0xFFFD, 1)
      | _ => (0xFFFD, 1)
    else if 0xF0 ≤ b0 ∧ b0 ≤ 0xF4 then
      match rest with
      | b1 :: b2 :: b3 :: _ =>
        if isCont b1 && isCont b2 && isCont b3 && (b0 != 0xF0 || 0x90 ≤ b1) &&
            (b0 != 0xF4 || b1 ≤ 0x8F) then
          ((b0.toNat - 0xF0) * 262144 + (b1.toNat - 0x80) * 4096 + (b2.toNat - 0x80) * 64 +
            (b3.toNat - 0x80), 4)
        else (0xFFFD, 1)
      | _ => (0xFFFD, 1)
    else (0xFFFD, 1)
  | [] => (0xFFFD, 0)

/-- The loop of `range` over a string; every round consumes at least one byte. -/
def runesLoop : ℕ → Bytes → List ℕ
  | 0, _ => []
  | fuel + 1, p =>
    if p = [] then [] else (decodeRune p).1 :: runesLoop fuel (p.drop (decodeRune p).2)

/-- The code points a `range` loop over the string visits. -/
def runes (p : Bytes) : List ℕ := runesLoop p.length p

/-- In an ASCII string every byte is a code point. -/
theorem runes_of_ascii {p : Bytes} (h : ∀ b ∈ p, b < 0x80) : runes p = p.map UInt8.toNat := by
  unfold runes
  induction p with
  | nil => rfl
  | cons b p ih =>
    obtain ⟨hb, hp⟩ := List.forall_mem_cons.mp h
    have hrune : decodeRune (b :: p) = (b.toNat, 1) := if_pos hb
    rw [List.length_cons, runesLoop, if_neg (List.cons_ne_nil b p), hrune, List.map_cons,
      List.drop_one, List.tail_cons, ih hp]

end N2nGo.Lib
