import N2nGo.Model.Protocol

/-!
# Predictable MAC addresses

Package `machine`: the MAC address of an edge is a hash of its machine ID, its
community name and a fixed index, joined without separators.
-/

set_option autoImplicit false

namespace N2nGo.Machine

open N2nGo.Lib N2nGo.Protocol

/-- GOLINE: machine/mac.go:9 -/
def hashKey : Bytes :=
  [0xd3, 0x1e, 0x48, 0xfa, 0x90, 0xfe, 0x4b, 0x4c, 0x9d, 0xaf, 0xd5, 0xd7, 0xa1, 0xb1, 0x2e, 0x8a]

/-- The four words `notSipHash24` mixes. -/
structure SipState where
  v0 : UInt64
  v1 : UInt64
  v2 : UInt64
  v3 : UInt64

/-- The shift amounts are below 64. -/
def rotl (x n : UInt64) : UInt64 := (x <<< n) ||| (x >>> (64 - n))

/-- The mixing steps that the loop body and the finalisation share.
GOLINE: machine/mac.go:20-31 -/
def mix (v : SipState) : SipState :=
  let v0 := v.v0 + v.v1
  let v2 := v.v2 + v.v3
  let v1 := rotl v.v1 13
  let v3 := rotl v.v3 15
  let v0 := v0 ^^^ v3
  let v2 := v2 ^^^ v1
  let v1 := v1 + v2
  let v3 := v3 + v0
  let v2 := rotl v2 5
  let v0 := rotl v0 10
  let v3 := v3 ^^^ v1
  let v2 := v2 ^^^ v0
  ⟨v0, v1, v2, v3⟩

/-- GOLINE: machine/mac.go:11-49 -/
def notSipHash24 (key seed : Bytes) : UInt64 :=
  let v0 := uint64LE seed
  let v1 := uint64LE (seed.drop 8)
  let start : SipState := ⟨v0, v1, v0 ^^^ 0x736f6d6570736575, v1 ^^^ 0x646f72616e646f6d⟩
  let v := mix (key.foldl (fun v k => mix { v with v3 := v.v3 ^^^ k.toUInt64 }) start)
  v.v0 ^^^ v.v1 ^^^ v.v2 ^^^ v.v3

/-- The bytes that `extGenerateMac` hashes.
GOLINE: machine/mac.go:97-103 -/
def macData (machineIDBytes idString : Bytes) (idx : UInt64) : Bytes :=
  machineIDBytes ++ idString ++ if 0 < idx then putUint64LE idx else []

/-- The hash of `data` cut to six bytes, locally administered and not multicast.
GOLINE: machine/mac.go:105-111 -/
def macOfHash (result : UInt64) : MacID :=
  match h : (putUint64LE result).take 6 with
  | b :: rest => ⟨((b ||| 0x02) &&& 0xfe) :: rest, by
      have hlen := congrArg List.length h
      simpa using hlen.symm⟩
  | [] => absurd (congrArg List.length h) (by simp)

/-- GOLINE: machine/mac.go:96-113 -/
def extGenerateMac (machineIDBytes idString : Bytes) (key : Bytes) (idx : UInt64) : MacID :=
  macOfHash (notSipHash24 (macData machineIDBytes idString idx) key)

/-- The address an edge with this machine ID may claim in the community. The source also
returns an error, which is always nil.
GOLINE: machine/mac.go:87-94 -/
def extGenerateMacFor (communityName machineIDBytes : Bytes) : MacID :=
  extGenerateMac machineIDBytes communityName hashKey 12345

end N2nGo.Machine
