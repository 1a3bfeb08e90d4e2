import N2nGo.Analysis.Sample

/-!
# The network of a community

`ProposeVirtualNetwork` puts bits of the community's hash into the host part of an address
and then asks for the prefix of that address, which has no host part. The network is the
same for every name (`proposeVirtualNetwork_eq`), and so is the pool of addresses.
-/

set_option autoImplicit false

namespace N2nGo.Supernode

open N2nGo.Lib N2nGo.Protocol N2nGo.Messages

theorem host_lt (offset mask : UInt32) :
    (offset &&& ~~~mask).toNat < 2 ^ (32 - maskSize mask) := by
  unfold maskSize
  cases hfind : (List.range 33).find? fun ones => mask.toNat == 2 ^ 32 - 2 ^ (32 - ones) with
  | none => exact UInt32.toNat_lt _
  | some ones =>
    have hmask : mask.toNat = 2 ^ 32 - 2 ^ (32 - ones) := by
      have htest := List.find?_some hfind
      exact eq_of_beq htest
    have hle : (offset &&& ~~~mask).toNat ≤ (~~~mask).toNat := by
      rw [UInt32.toNat_and]
      exact Nat.and_le_right
    have hpos : 0 < 2 ^ (32 - ones) := Nat.two_pow_pos _
    have hpow : 2 ^ (32 - ones) ≤ 2 ^ 32 := Nat.pow_le_pow_right (by omega) (by omega)
    rw [UInt32.toNat_not, hmask, show UInt32.size = 2 ^ 32 from rfl] at hle
    simp only [Option.getD_some]
    omega

theorem addrPrefix_or_host (base offset mask : UInt32) :
    addrPrefix ((base &&& mask) ||| (offset &&& ~~~mask)) (maskSize mask) =
      addrPrefix (base &&& mask) (maskSize mask) := by
  unfold addrPrefix
  have hhost : (offset &&& ~~~mask).toNat >>> (32 - maskSize mask) = 0 := by
    rw [Nat.shiftRight_eq_div_pow]
    exact Nat.div_eq_of_lt (host_lt offset mask)
  rw [UInt32.toNat_or, ← Nat.shiftRight_eq_div_pow, Nat.shiftRight_or_distrib, hhost, Nat.or_zero,
    Nat.shiftRight_eq_div_pow]

/-- **The proposed network does not depend on the name of the community.** -/
theorem proposeVirtualNetwork_eq (P : Platform) (m : NetworkAllocator) (name : Bytes) :
    proposeVirtualNetwork P m name =
      readUint32 m.baseNetwork >>= fun base => readUint32 m.mask >>= fun mask =>
        .ok (addrPrefix (base &&& mask) (maskSize mask)) := by
  have hsha : slice (P.sha256 name) 0 4 = .ok ((P.sha256 name).take 4) :=
    slice_from_start (by rw [P.length_sha256]; omega)
  obtain ⟨hash, hhash⟩ : Completes (readUint32 ((P.sha256 name).take 4)) :=
    (completes_readUint32_iff _).mpr (by rw [List.length_take, P.length_sha256]; omega)
  simp only [proposeVirtualNetwork, hsha, hhash, ok_bind, addrPrefix_or_host]

/-- The part of the hash that the address of the network is made of.
GOLINE: supernode/network.go:27-36 -/
def hostPart (P : Platform) (mask : UInt32) (name : Bytes) : Go UInt32 := do
  let h ← slice (P.sha256 name) 0 4
  let hash ← readUint32 h
  .ok (hash &&& 0x00FFFFFF &&& ~~~mask)

/-- `net.CIDRMask(ones, 32)` as a number. -/
def maskOf (ones : ℕ) : UInt32 := UInt32.ofNat (2 ^ 32 - 2 ^ (32 - ones))

/-- The two names get different networks. -/
def NetworksDiffer (P : Platform) (m : NetworkAllocator) (name name' : Bytes) : Prop :=
  ∃ subnet subnet', proposeVirtualNetwork P m name = .ok (some subnet) ∧
    proposeVirtualNetwork P m name' = .ok (some subnet') ∧ subnet ≠ subnet'

theorem maskSize_maskOf {ones : ℕ} (h : ones ≤ 31) : maskSize (maskOf ones) = ones := by
  have hall : ∀ ones < 32, maskSize (maskOf ones) = ones := by decide +kernel
  exact hall ones (by omega)

section

variable (P : Platform) {baseNetwork : Bytes} {ones : ℕ} (hbase : (Net.to4 baseNetwork).length = 4)
  (hones : ones ≤ 31)
include hbase hones

theorem proposeVirtualNetwork_cidr :
    ∃ subnet, subnet.bits = ones ∧ ∀ name,
      proposeVirtualNetwork P (newNetworkAllocator baseNetwork (cidrMask ones)) name =
        .ok (some subnet) := by
  obtain ⟨base, hread⟩ : Completes (readUint32 (Net.to4 baseNetwork)) :=
    (completes_readUint32_iff _).mpr hbase.ge
  have hmask : readUint32 (cidrMask ones) = .ok (maskOf ones) := by
    rw [cidrMask, if_pos (by omega)]
    exact congrArg Except.ok (uint32_putUint32 (maskOf ones))
  have hstarts : ∀ addr, ∃ subnet : Prefix, addrPrefix addr ones = some subnet ∧ subnet.bits = ones :=
    fun addr => ⟨_, if_pos (by omega), rfl⟩
  obtain ⟨subnet, hsubnet, hbits⟩ := hstarts (base &&& maskOf ones)
  refine ⟨subnet, hbits, fun name => ?_⟩
  rw [proposeVirtualNetwork_eq, newNetworkAllocator, hread, hmask]
  simp only [ok_bind, maskSize_maskOf hones, hsubnet]

theorem not_networksDiffer (name name' : Bytes) :
    ¬ NetworksDiffer P (newNetworkAllocator baseNetwork (cidrMask ones)) name name' := by
  obtain ⟨subnet, -, hsubnet⟩ := proposeVirtualNetwork_cidr P hbase hones
  rintro ⟨subnet1, subnet2, h1, h2, hne⟩
  rw [hsubnet] at h1 h2
  cases h1
  cases h2
  exact hne rfl

end

/-- **Two names whose hashes should lead to different networks never get them.** All names
get one network, so that different host parts give different networks is true only when
the host parts are equal.
GOLINE: supernode/network.go:25-46 -/
theorem networks_differ_iff (P : Platform) (baseNetwork : Bytes) (ones : ℕ) (name name' : Bytes)
    (hbase : (Net.to4 baseNetwork).length = 4) (hlt : ones ≤ 31) :
    (∃ subnet, subnet.bits = ones ∧ ∀ name'',
      proposeVirtualNetwork P (newNetworkAllocator baseNetwork (cidrMask ones)) name'' =
        .ok (some subnet)) ∧
    ((hostPart P (maskOf ones) name ≠ hostPart P (maskOf ones) name' →
      NetworksDiffer P (newNetworkAllocator baseNetwork (cidrMask ones)) name name') ↔
    hostPart P (maskOf ones) name = hostPart P (maskOf ones) name') := by
  refine ⟨proposeVirtualNetwork_cidr P hbase hlt, ?_, ?_⟩
  · intro h
    by_contra hne
    exact not_networksDiffer P hbase hlt name name' (h hne)
  · intro heq hne
    exact absurd heq hne

/-! ## Two communities on 10.0.0.0/8 -/

/-- A digest that begins with three zeros and the name. -/
def byName : Platform :=
  { Sample.platform with
    sha256 := fun name => ([0, 0, 0] ++ name ++ List.replicate 32 0).take 32
    length_sha256 := fun name => by simp }

/-- The digests of `c` and `cd` differ, but not in the part that is used. -/
theorem networks_differ_equal_hosts :
    byName.sha256 (ascii "c") ≠ byName.sha256 (ascii "cd") ∧
    hostPart byName (maskOf 8) (ascii "c") = hostPart byName (maskOf 8) (ascii "cd") ∧
    (hostPart byName (maskOf 8) (ascii "c") ≠ hostPart byName (maskOf 8) (ascii "cd") →
      NetworksDiffer byName (newNetworkAllocator [10, 0, 0, 0] (cidrMask 8))
        (ascii "c") (ascii "cd")) :=
  ⟨by decide, rfl, (networks_differ_iff byName [10, 0, 0, 0] 8 (ascii "c") (ascii "cd") rfl
    (by decide)).2.mpr rfl⟩

/-- The digests of `c` and `d` differ outside the mask. Both names get 10.0.0.0/8, and both
communities the same pool. -/
theorem networks_shared :
    hostPart byName (maskOf 8) (ascii "c") ≠ hostPart byName (maskOf 8) (ascii "d") ∧
      ¬ NetworksDiffer byName (newNetworkAllocator [10, 0, 0, 0] (cidrMask 8))
        (ascii "c") (ascii "d") ∧
      ∃ s, Reachable byName s ∧
        s.communities.lookup (hashCommunity (ascii "c")) = some 0 ∧
        s.communities.lookup (hashCommunity (ascii "d")) = some 1 ∧
        (s.cms.cell 0).ips = (s.cms.cell 1).ips := by
  have hhost : hostPart byName (maskOf 8) (ascii "c") = .ok 99 ∧
      hostPart byName (maskOf 8) (ascii "d") = .ok 100 := ⟨rfl, rfl⟩
  obtain ⟨s, hrun, hs⟩ := exists_of_passes
    (x := runEvents (step byName) Sample.start
      [.packet Sample.env (Sample.request typeRegisterRequest (ascii "c") (ascii "m")) (Sample.client 1),
        .packet Sample.env (Sample.request typeRegisterRequest (ascii "d") (ascii "n")) (Sample.client 2)])
    (p := fun s => decide (s.communities.lookup (hashCommunity (ascii "c")) = some 0 ∧
      s.communities.lookup (hashCommunity (ascii "d")) = some 1 ∧
      (s.cms.cell 0).ips = (s.cms.cell 1).ips)) (by decide +kernel)
  refine ⟨?_, not_networksDiffer byName rfl (by decide) _ _, s,
    Reach.of_runEvents (.init ⟨_, _, _, _, _, _, rfl⟩) hrun, of_decide_eq_true hs⟩
  rw [hhost.1, hhost.2]
  intro h
  cases h

end N2nGo.Supernode
