import N2nGo.Model.Protocol

/-!
# The hash of a community

FNV-1a is a hash of bytes. `HashCommunity` folds code points instead, so it is FNV-1a for
names in ASCII, where each byte is a code point, and another hash beyond.
-/

set_option autoImplicit false

namespace N2nGo.Protocol

open N2nGo.Lib

/-- The 32-bit FNV-1a hash of a sequence of bytes. -/
def fnv1a (data : Bytes) : UInt32 :=
  data.foldl (fun hash b => (hash ^^^ b.toUInt32) * 16777619) 2166136261

theorem ofNat_toNat_eq_toUInt32 (b : UInt8) : UInt32.ofNat b.toNat = b.toUInt32 := by
  rw [← UInt32.toNat_inj, UInt32.toNat_ofNat', UInt8.toNat_toUInt32]
  have hb := b.toNat_lt
  omega

/-- **`HashCommunity` is FNV-1a for names in ASCII.**
GOLINE: protocol/protocol.go:109-125 -/
theorem hashCommunity_eq_fnv1a (community : Bytes) (hne : community ≠ [])
    (hascii : ∀ b ∈ community, b < 0x80) : hashCommunity community = fnv1a community := by
  unfold hashCommunity fnv1a
  rw [if_neg hne, runes_of_ascii hascii, List.foldl_map]
  simp only [ofNat_toNat_eq_toUInt32]

theorem hashCommunity_eq_fnv1a_acme :
    hashCommunity (ascii "acme") = fnv1a (ascii "acme") :=
  hashCommunity_eq_fnv1a (ascii "acme") (by decide) (by decide +kernel)

/-- The name `é` has one code point and two bytes. -/
theorem hashCommunity_ne_fnv1a : hashCommunity [0xC3, 0xA9] ≠ fnv1a [0xC3, 0xA9] := by
  decide

end N2nGo.Protocol
