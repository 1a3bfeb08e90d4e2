import N2nGo.Analysis.Agreement
import N2nGo.Analysis.Networks

/-!
# Leases of several communities

The network of a community is meant to depend on its name, but the part of the address
that does is cut off again (`proposeVirtualNetwork_eq`). All communities of a supernode
therefore get one CIDR and with it one pool of addresses, and the list of leases that is
sent to a member of one community names the edges of all. If the network of a new
community has no pool yet and no MAC is used in two communities, the lists are isolated
(`leases_isolated`).
-/

set_option autoImplicit false

namespace N2nGo.Supernode

open N2nGo.Lib N2nGo.Protocol N2nGo.Messages

/-! ## What a reply says -/

/-- The pool of a community. -/
def poolOf (s : Supernode) (cm : CommunityRef) : IPPool := s.pools.cell (s.cms.cell cm).ips

/-- The MAC is a member of the community with this hash. -/
def MemberOf (s : Supernode) (hash : UInt32) (mac : Bytes) : Prop :=
  ∃ cm, s.communities.lookup hash = some cm ∧ mac ∈ (s.cms.cell cm).edges

/-- The MAC is a member now or was one before a step of the run. -/
def EverMember (hist : List (Taken Supernode Event (List Sent))) (s : Supernode) (hash : UInt32)
    (mac : Bytes) : Prop :=
  s.MemberOf hash mac ∨ ∃ t ∈ hist, t.before.MemberOf hash mac

/-- The `ippool` package: a new pool has no leases, and a request for an address changes none
but the lease of the MAC it is made for, which it grants with an address that has a text. -/
structure GrantsLeases (P : Platform) : Prop where
  newIPPool : ∀ cidr pool, P.newIPPool cidr = some pool → pool.leases = ∅
  requestIP : ∀ pool mac sticky now k lease,
    (P.requestIP pool mac sticky now).2.leases.lookup k = some lease →
    pool.leases.lookup k = some lease ∨ k = mac ∧ lease.mac = mac ∧
      ∃ ip vip, (P.requestIP pool mac sticky now).1 = some ip ∧
        Net.parseAddr (Net.ipString ip) = some vip

/-- No community but the one with this hash lists the MAC or has leased an address to it. -/
def NotElsewhere (s : Supernode) (hash : UInt32) (mac : Bytes) : Prop :=
  ∀ hash' cm, s.communities.lookup hash' = some cm → hash' ≠ hash →
    mac ∉ (s.cms.cell cm).edges ∧ mac ∉ (s.poolOf cm).leases

/-- No valid registration creates a community on a network that has a pool already, or brings
a MAC that another community lists as a member or has leased an address to. -/
def SharesNothing (P : Platform) (s : Supernode) : Event → Prop
  | .packet _ packet addr => ∀ r reg id, newRawMessage packet addr = .ok (.ok r) →
    toMessage P.codecs.registerRequest r = .ok reg →
    validateEdgeClaimedMACAddr P r.edgeMACAddr reg.msg.encryptedMachineId reg.msg.communityName =
      .ok id →
    (s.communities.lookup r.communityHash = none → ∀ subnet,
      proposeVirtualNetwork P s.netAllocator reg.msg.communityName = .ok (some subnet) →
      s.registeredPools.lookup subnet.cidr = none) ∧
    s.NotElsewhere r.communityHash r.edgeMACAddr
  | _ => True

/-- The event registers or removes edges of the community with this hash. -/
def Concerns (s : Supernode) (hash : UInt32) : Event → Prop
  | .packet _ packet addr => ∃ r, newRawMessage packet addr = .ok (.ok r) ∧
    r.communityHash = hash ∧ (r.header.packetType = typeRegisterRequest ∨
      r.header.packetType = typeUnregisterRequest)
  | .cleanup env => ∃ cm mac, s.communities.lookup hash = some cm ∧ (cm, mac) ∈ staleEdges env s
  | _ => False

section Replies

variable {env : Env} {s s' : Supernode} {cm : CommunityRef}

theorem lookup_leases {mac : Bytes} {infos : LeaseWithEdgeInfos}
    (h : (getLeasesWithEdgesInfos env s cm).lookup mac = some infos) :
    ∃ lease, (s.poolOf cm).leases.lookup mac = some lease ∧ infos.lease.mac = lease.mac := by
  unfold getLeasesWithEdgesInfos at h
  rcases Table.lookup_foldl_insert (R := fun e infos => infos.lease.mac = e.2.mac)
    (fun t e => ⟨_, rfl, rfl⟩) h with hnone | ⟨lease, hlease, hmac⟩
  · cases hnone
  · exact ⟨lease, Table.lookup_eq_some_iff.mpr hlease, hmac⟩

/-- A reply depends on the name, the leases and the cached infos of the leased MACs. -/
theorem leasesReply_congr (hname : (s'.cms.cell cm).name = (s.cms.cell cm).name)
    (hpool : s'.poolOf cm = s.poolOf cm)
    (hcached : ∀ mac ∈ (s.poolOf cm).leases,
      s'.edgeCachedInfos.lookup mac = s.edgeCachedInfos.lookup mac) :
    leasesReply env s' cm = leasesReply env s cm := by
  have hleases : getLeasesWithEdgesInfos env s' cm = getLeasesWithEdgesInfos env s cm := by
    unfold getLeasesWithEdgesInfos
    rw [show s'.pools.cell (s'.cms.cell cm).ips = s.pools.cell (s.cms.cell cm).ips from hpool]
    refine List.foldl_ext _ _ _ fun acc e he => ?_
    obtain ⟨mac, lease⟩ := e
    have hmac : mac ∈ (s.poolOf cm).leases :=
      Table.mem_of_lookup (Table.lookup_eq_some_iff.mpr he)
    simp only [hcached mac hmac]
  unfold leasesReply
  rw [hname, hleases]

end Replies

/-! ## The invariant -/

/-- The communities have different pools, a MAC is leased only where it has been a member
(`ever`), and no member of one community has a lease in another. -/
structure Apart (ever : UInt32 → Bytes → Prop) (s : Supernode) : Prop where
  pool_lt : ∀ hash cm, s.communities.lookup hash = some cm → (s.cms.cell cm).ips < s.pools.next
  pool_inj : ∀ hash cm hash' cm', s.communities.lookup hash = some cm →
    s.communities.lookup hash' = some cm' → (s.cms.cell cm).ips = (s.cms.cell cm').ips → hash = hash'
  leased : ∀ hash cm mac lease, s.communities.lookup hash = some cm →
    (s.poolOf cm).leases.lookup mac = some lease → lease.mac = mac ∧ ever hash mac
  member : ∀ hash cm hash' cm' mac, s.communities.lookup hash = some cm →
    s.communities.lookup hash' = some cm' → hash ≠ hash' → mac ∈ (s.cms.cell cm).edges →
    mac ∉ (s.poolOf cm').leases

theorem Apart.mono {ever ever' : UInt32 → Bytes → Prop} {s : Supernode} (o : Apart ever s)
    (h : ∀ hash mac, ever hash mac → ever' hash mac) : Apart ever' s := by
  refine ⟨o.pool_lt, o.pool_inj, fun hash cm mac lease hcm hlease => ?_, o.member⟩
  obtain ⟨hmac, hever⟩ := o.leased hash cm mac lease hcm hlease
  exact ⟨hmac, h hash mac hever⟩

/-! ## Removals -/

/-- Some of the members in `gone` have been removed; the pools are the same. -/
structure Removal (gone : CommunityRef → Bytes → Prop) (s s' : Supernode) : Prop where
  communities : s'.communities = s.communities
  pools : s'.pools = s.pools
  name : ∀ cm, (s'.cms.cell cm).name = (s.cms.cell cm).name
  ips : ∀ cm, (s'.cms.cell cm).ips = (s.cms.cell cm).ips
  edges : ∀ cm mac, mac ∈ (s'.cms.cell cm).edges → mac ∈ (s.cms.cell cm).edges
  cached : ∀ mac, (∀ cm, gone cm mac → mac ∉ (s.cms.cell cm).edges) →
    s'.edgeCachedInfos.lookup mac = s.edgeCachedInfos.lookup mac

section Removals

variable {P : Platform} {env : Env} {s s' : Supernode} {out : List Sent}
  {gone : CommunityRef → Bytes → Prop} {ever : UInt32 → Bytes → Prop}

section

variable (hcommunities : s'.communities = s.communities) (hpools : s'.pools = s.pools)
  (hcms : s'.cms = s.cms) (hcached : s'.edgeCachedInfos = s.edgeCachedInfos)
include hcommunities hpools hcms hcached

theorem Removal.of_same : Removal gone s s' := by
  refine ⟨hcommunities, hpools, fun cm => ?_, fun cm => ?_, fun cm mac hmac => ?_, fun mac _ => ?_⟩
  · rw [hcms]
  · rw [hcms]
  · rwa [hcms] at hmac
  · rw [hcached]

theorem Removal.nothing :
    Removal (fun _ _ => False) s s' := .of_same hcommunities hpools hcms hcached

end

theorem Removal.trans {s1 : Supernode} (h : Removal gone s s1) (h' : Removal gone s1 s') :
    Removal gone s s' := by
  refine ⟨h'.communities.trans h.communities, h'.pools.trans h.pools,
    fun cm => (h'.name cm).trans (h.name cm), fun cm => (h'.ips cm).trans (h.ips cm),
    fun cm mac hmac => h.edges cm mac (h'.edges cm mac hmac), fun mac hgone => ?_⟩
  rw [h'.cached mac fun cm hcm hmac => hgone cm hcm (h.edges cm mac hmac), h.cached mac hgone]

theorem Removal.poolOf (h : Removal gone s s') (cm : CommunityRef) : s'.poolOf cm = s.poolOf cm := by
  unfold Supernode.poolOf
  rw [h.pools, h.ips]

theorem Apart.removal (o : Apart ever s) (h : Removal gone s s') : Apart ever s' := by
  refine ⟨fun hash cm hcm => ?_, fun hash cm hash' cm' hcm hcm' heq => ?_,
    fun hash cm mac lease hcm hlease => ?_, fun hash cm hash' cm' mac hcm hcm' hne hmac => ?_⟩
  · rw [h.communities] at hcm
    rw [h.ips, h.pools]
    exact o.pool_lt hash cm hcm
  · rw [h.communities] at hcm hcm'
    rw [h.ips, h.ips] at heq
    exact o.pool_inj hash cm hash' cm' hcm hcm' heq
  · rw [h.communities] at hcm
    rw [h.poolOf] at hlease
    exact o.leased hash cm mac lease hcm hlease
  · rw [h.communities] at hcm hcm'
    rw [h.poolOf]
    exact o.member hash cm hash' cm' mac hcm hcm' hne (h.edges cm mac hmac)

theorem Removal.leasesReply (o : Apart ever s) (h : Removal gone s s') {hash : UInt32}
    {cm : CommunityRef} (hcm : s.communities.lookup hash = some cm)
    (hothers : ∀ cm' mac, gone cm' mac → ∃ hash', hash ≠ hash' ∧
      s.communities.lookup hash' = some cm') (env : Env) :
    leasesReply env s' cm = leasesReply env s cm := by
  refine leasesReply_congr (h.name cm) (h.poolOf cm) fun mac hleased => h.cached mac ?_
  intro cm' hgone hmac
  obtain ⟨hash', hne, hcm'⟩ := hothers cm' mac hgone
  exact o.member hash' cm' hash cm mac hcm' hcm hne.symm hmac hleased

theorem Removal.store {cm : CommunityRef} {c : Community} (cached : Table Bytes EdgeCachedInfos)
    (hname : c.name = (s.cms.cell cm).name) (hips : c.ips = (s.cms.cell cm).ips)
    (hedges : ∀ mac ∈ c.edges, mac ∈ (s.cms.cell cm).edges)
    (hcached : ∀ mac, (∀ cm, gone cm mac → mac ∉ (s.cms.cell cm).edges) →
      cached.lookup mac = s.edgeCachedInfos.lookup mac) :
    Removal gone s { s with cms := s.cms.store cm c, edgeCachedInfos := cached } := by
  have hcell : ∀ cm', ((s.cms.store cm c).cell cm').name = (s.cms.cell cm').name ∧
      ((s.cms.store cm c).cell cm').ips = (s.cms.cell cm').ips ∧
      ∀ mac ∈ ((s.cms.store cm c).cell cm').edges, mac ∈ (s.cms.cell cm').edges := by
    intro cm'
    rw [Heap.cell_store]
    split
    · next heq =>
      subst heq
      exact ⟨hname, hips, hedges⟩
    · exact ⟨rfl, rfl, fun _ hmac => hmac⟩
  exact ⟨rfl, rfl, fun cm' => (hcell cm').1, fun cm' => (hcell cm').2.1, fun cm' => (hcell cm').2.2,
    hcached⟩

theorem removal_unregister {cm : CommunityRef} {mac : Bytes} (hgone : gone cm mac)
    (h : unregister env s cm mac = (s', true)) : Removal gone s s' := by
  unfold unregister at h
  simp only at h
  split at h
  · cases h
  · next ref hlook =>
    cases h
    refine Removal.store (s.edgeCachedInfos.insert mac _) rfl rfl
      (fun mac' hmac' => (AList.mem_erase.mp hmac').2) fun mac' hkept => AList.lookup_insert_ne ?_
    rintro rfl
    exact hkept cm hgone (Table.mem_of_lookup hlook)

theorem removal_unindexEdge {mac : Bytes} {pil : PeerInfoList}
    (h : s.unindexEdge mac = .ok (s', pil)) : Removal gone s s' := by
  obtain ⟨ref, -, h⟩ := bind_eq_ok.mp h
  cases h
  exact .of_same rfl rfl rfl rfl

theorem removal_cleanupStaleEdges (h : cleanupStaleEdges P env s = .ok (s', out)) :
    Removal (fun cm mac => (cm, mac) ∈ staleEdges env s) s s' := by
  obtain ⟨⟨s1, out1⟩, hloop, h⟩ := bind_eq_ok.mp h
  cases h
  refine Removal.trans (cleanupLoop_induction
    (I := fun s1 _ => Removal (fun cm mac => (cm, mac) ∈ staleEdges env s) s s1) ?_ hloop
    (.of_same rfl rfl rfl rfl)) (.of_same rfl rfl rfl rfl)
  intro s1 s2 s3 out cm mac pil f hmem hremoval hun hunindex
  exact ((hremoval.trans (removal_unregister hmem hun)).trans (removal_unindexEdge hunindex)).trans
    (.of_same rfl rfl rfl rfl)

end Removals

/-! ## Registrations -/

/-- The other communities and the cached infos of other MACs are the same. -/
structure Elsewhere (hash : UInt32) (mac : Bytes) (s s' : Supernode) : Prop where
  communities : ∀ hash', hash' ≠ hash → s'.communities.lookup hash' = s.communities.lookup hash'
  cell : ∀ hash' cm, hash' ≠ hash → s.communities.lookup hash' = some cm →
    s'.cms.cell cm = s.cms.cell cm
  poolOf : ∀ hash' cm, hash' ≠ hash → s.communities.lookup hash' = some cm →
    s'.poolOf cm = s.poolOf cm
  cached : ∀ mac', mac' ≠ mac → s'.edgeCachedInfos.lookup mac' = s.edgeCachedInfos.lookup mac'

variable {res : Except Err (EdgeRef × CommunityRef)}

section Registrations

variable {P : Platform} {env : Env} {s s' : Supernode} {ever : UInt32 → Bytes → Prop}
  {hash : UInt32} {mac : Bytes} {cm : CommunityRef}

theorem Elsewhere.refl (hash : UInt32) (mac : Bytes) (s : Supernode) : Elsewhere hash mac s s :=
  ⟨fun _ _ => rfl, fun _ _ _ _ => rfl, fun _ _ _ _ => rfl, fun _ _ => rfl⟩

theorem Elsewhere.trans {s1 : Supernode} (h : Elsewhere hash mac s s1)
    (h' : Elsewhere hash mac s1 s') : Elsewhere hash mac s s' := by
  have hcm : ∀ hash' cm, hash' ≠ hash → s.communities.lookup hash' = some cm →
      s1.communities.lookup hash' = some cm := fun hash' cm hne hcm => by
    rw [h.communities hash' hne, hcm]
  refine ⟨fun hash' hne => ?_, fun hash' cm hne hlook => ?_, fun hash' cm hne hlook => ?_,
    fun mac' hne => ?_⟩
  · rw [h'.communities hash' hne, h.communities hash' hne]
  · rw [h'.cell hash' cm hne (hcm hash' cm hne hlook), h.cell hash' cm hne hlook]
  · rw [h'.poolOf hash' cm hne (hcm hash' cm hne hlook), h.poolOf hash' cm hne hlook]
  · rw [h'.cached mac' hne, h.cached mac' hne]

theorem NotElsewhere.elsewhere (hnot : s.NotElsewhere hash mac) (h : Elsewhere hash mac s s') :
    s'.NotElsewhere hash mac := by
  intro hash' cm hcm hne
  rw [h.communities hash' hne] at hcm
  rw [h.cell hash' cm hne hcm, h.poolOf hash' cm hne hcm]
  exact hnot hash' cm hcm hne

theorem Elsewhere.leasesReply (h : Elsewhere hash mac s s') (hnot : s.NotElsewhere hash mac)
    {hash' : UInt32} (hcm : s.communities.lookup hash' = some cm) (hne : hash' ≠ hash) (env : Env) :
    leasesReply env s' cm = leasesReply env s cm := by
  refine leasesReply_congr (by rw [h.cell hash' cm hne hcm]) (h.poolOf hash' cm hne hcm) ?_
  intro mac' hleased
  refine h.cached mac' ?_
  rintro rfl
  exact (hnot hash' cm hcm hne).2 hleased

/-- The invariant on the side of one community in `s'`, the other communities being those of
`s`. -/
structure Own (ever : UInt32 → Bytes → Prop) (hash : UInt32) (s s' : Supernode)
    (cm : CommunityRef) : Prop where
  pool_lt : (s'.cms.cell cm).ips < s'.pools.next
  pool_ne : ∀ hash' cm', hash' ≠ hash → s.communities.lookup hash' = some cm' →
    (s.cms.cell cm').ips ≠ (s'.cms.cell cm).ips
  leased : ∀ mac lease, (s'.poolOf cm).leases.lookup mac = some lease →
    lease.mac = mac ∧ ever hash mac ∧ ∀ hash' cm', hash' ≠ hash →
      s.communities.lookup hash' = some cm' → mac ∉ (s.cms.cell cm').edges
  member : ∀ mac ∈ (s'.cms.cell cm).edges, ∀ hash' cm', hash' ≠ hash →
    s.communities.lookup hash' = some cm' → mac ∉ (s.poolOf cm').leases

theorem Apart.own (o : Apart ever s) (hcm : s.communities.lookup hash = some cm) :
    Own ever hash s s cm := by
  refine ⟨o.pool_lt hash cm hcm, fun hash' cm' hne hcm' heq => ?_, fun mac lease hlease => ?_,
    fun mac hmac hash' cm' hne hcm' => o.member hash cm hash' cm' mac hcm hcm' hne.symm hmac⟩
  · exact hne (o.pool_inj hash' cm' hash cm hcm' hcm heq)
  · obtain ⟨hmac, hever⟩ := o.leased hash cm mac lease hcm hlease
    refine ⟨hmac, hever, fun hash' cm' hne hcm' hmember => ?_⟩
    exact o.member hash' cm' hash cm mac hcm' hcm hne hmember (Table.mem_of_lookup hlease)

theorem Apart.of_own {ever' : UInt32 → Bytes → Prop} (o : Apart ever s)
    (he : Elsewhere hash mac s s') (hnext : s.pools.next ≤ s'.pools.next)
    (hever : ∀ hash mac, ever hash mac → ever' hash mac)
    (hcm : s'.communities.lookup hash = some cm) (hown : Own ever' hash s s' cm) : Apart ever' s' := by
  -- a community of the new table is the changed one or an old one
  have hcases : ∀ hash' cm', s'.communities.lookup hash' = some cm' → (hash' = hash ∧ cm' = cm) ∨
      hash' ≠ hash ∧ s.communities.lookup hash' = some cm' := by
    intro hash' cm' hcm'
    by_cases heq : hash' = hash
    · subst heq
      exact Or.inl ⟨rfl, Option.some.inj (hcm'.symm.trans hcm)⟩
    · rw [he.communities hash' heq] at hcm'
      exact Or.inr ⟨heq, hcm'⟩
  refine ⟨fun hash1 cm1 hcm1 => ?_, fun hash1 cm1 hash2 cm2 hcm1 hcm2 heq => ?_,
    fun hash1 cm1 mac1 lease hcm1 hlease => ?_,
    fun hash1 cm1 hash2 cm2 mac1 hcm1 hcm2 hne hmac => ?_⟩
  · rcases hcases hash1 cm1 hcm1 with ⟨-, rfl⟩ | ⟨hne1, hcm1⟩
    · exact hown.pool_lt
    · rw [he.cell hash1 cm1 hne1 hcm1]
      exact Nat.lt_of_lt_of_le (o.pool_lt hash1 cm1 hcm1) hnext
  · rcases hcases hash1 cm1 hcm1 with ⟨rfl, rfl⟩ | ⟨hne1, hcm1⟩
    · rcases hcases hash2 cm2 hcm2 with ⟨rfl, rfl⟩ | ⟨hne2, hcm2⟩
      · rfl
      · rw [he.cell hash2 cm2 hne2 hcm2] at heq
        exact absurd heq.symm (hown.pool_ne hash2 cm2 hne2 hcm2)
    · rw [he.cell hash1 cm1 hne1 hcm1] at heq
      rcases hcases hash2 cm2 hcm2 with ⟨rfl, rfl⟩ | ⟨hne2, hcm2⟩
      · exact absurd heq (hown.pool_ne hash1 cm1 hne1 hcm1)
      · rw [he.cell hash2 cm2 hne2 hcm2] at heq
        exact o.pool_inj hash1 cm1 hash2 cm2 hcm1 hcm2 heq
  · rcases hcases hash1 cm1 hcm1 with ⟨rfl, rfl⟩ | ⟨hne1, hcm1⟩
    · obtain ⟨hmac, hever1, -⟩ := hown.leased mac1 lease hlease
      exact ⟨hmac, hever1⟩
    · rw [he.poolOf hash1 cm1 hne1 hcm1] at hlease
      obtain ⟨hmac, hever1⟩ := o.leased hash1 cm1 mac1 lease hcm1 hlease
      exact ⟨hmac, hever hash1 mac1 hever1⟩
  · rcases hcases hash1 cm1 hcm1 with ⟨rfl, rfl⟩ | ⟨hne1, hcm1⟩
    · rcases hcases hash2 cm2 hcm2 with ⟨rfl, -⟩ | ⟨hne2, hcm2⟩
      · exact absurd rfl hne
      · rw [he.poolOf hash2 cm2 hne2 hcm2]
        exact hown.member mac1 hmac hash2 cm2 hne2 hcm2
    · rw [he.cell hash1 cm1 hne1 hcm1] at hmac
      rcases hcases hash2 cm2 hcm2 with ⟨rfl, rfl⟩ | ⟨hne2, hcm2⟩
      · intro hleased
        obtain ⟨lease, hlease⟩ := Table.exists_lookup_of_mem hleased
        obtain ⟨-, -, hnot⟩ := hown.leased mac1 lease hlease
        exact hnot hash1 cm1 hne1 hcm1 hmac
      · rw [he.poolOf hash2 cm2 hne2 hcm2]
        exact o.member hash1 cm1 hash2 cm2 mac1 hcm1 hcm2 hne hmac

theorem Apart.withCommunity (hP : GrantsLeases P) (v : s.registry.Valid hashCommunity)
    (o : Apart ever s) (name : Bytes) {subnet : Prefix} {pool : IPPool} {pools : Table Bytes ℕ}
    (hpool : P.newIPPool subnet.cidr = some pool) :
    let s' := Supernode.withCommunity { s with
        pools := s.pools.alloc pool
        registeredPools := pools } hash (newCommunity name subnet s.pools.next)
    Apart ever s' ∧ Elsewhere hash mac s s' := by
  intro s'
  have hcreated : s'.cms.cell s.cms.next = newCommunity name subnet s.pools.next := by
    refine (Heap.cell_alloc ..).trans (if_pos rfl)
  have hnewPool : s'.poolOf s.cms.next = pool := by
    unfold poolOf
    rw [hcreated]
    exact (Heap.cell_alloc ..).trans (if_pos rfl)
  have hcell : ∀ hash' cm, s.communities.lookup hash' = some cm →
      s'.cms.cell cm = s.cms.cell cm := fun hash' cm hcm =>
    (Heap.cell_alloc ..).trans (if_neg (Nat.ne_of_lt (v.group_lt hcm)))
  have he : Elsewhere hash mac s s' := by
    refine ⟨fun hash' hne => AList.lookup_insert_ne hne, fun hash' cm _ => hcell hash' cm,
      fun hash' cm _ hcm => ?_, fun _ _ => rfl⟩
    unfold poolOf
    rw [hcell hash' cm hcm]
    exact (Heap.cell_alloc ..).trans (if_neg (Nat.ne_of_lt (o.pool_lt hash' cm hcm)))
  refine ⟨o.of_own he (Nat.le_succ _) (fun _ _ h => h) (AList.lookup_insert _) ?_, he⟩
  refine ⟨?_, fun hash' cm' _ hcm' => ?_, fun mac' lease hlease => ?_, fun mac' hmac' => ?_⟩
  · rw [hcreated]
    exact Nat.lt_succ_self _
  · rw [hcreated]
    exact Nat.ne_of_lt (o.pool_lt hash' cm' hcm')
  · rw [hnewPool, hP.newIPPool _ _ hpool] at hlease
    cases hlease
  · rw [hcreated] at hmac'
    exact absurd hmac' (AList.notMem_empty _)

theorem Apart.registerCommunity (hP : GrantsLeases P) (v : s.registry.Valid hashCommunity)
    (o : Apart ever s) {name : Bytes} (mac : Bytes)
    (hnew : s.communities.lookup hash = none → ∀ subnet,
      proposeVirtualNetwork P s.netAllocator name = .ok (some subnet) →
      s.registeredPools.lookup subnet.cidr = none)
    (h : registerCommunity P s name hash = .ok (s', .ok cm)) :
    Apart ever s' ∧ Elsewhere hash mac s s' ∧ s'.communities.lookup hash = some cm := by
  cases registerCommunity_found h with
  | existing _ hlook _ => exact ⟨o, .refl hash mac s, hlook⟩
  | @created subnet s1 ips _ hfree hsubnet hpool =>
    rcases poolFor_eq_some hpool with ⟨-, hold⟩ | ⟨pool, -, hipp, rfl, rfl⟩
    · rw [hnew hfree subnet hsubnet] at hold
      cases hold
    · obtain ⟨o', he⟩ := o.withCommunity hP v name hipp
      exact ⟨o', he, AList.lookup_insert _⟩

theorem Apart.withLease (hP : GrantsLeases P) (o : Apart ever s)
    (hcm : s.communities.lookup hash = some cm) (hnot : s.NotElsewhere hash mac) (env : Env) :
    Apart (fun hash' mac' => ever hash' mac' ∨ hash' = hash ∧ mac' = mac ∧ ∃ ip vip,
        (P.requestIP (s.poolOf cm) mac true env.now).1 = some ip ∧
          Net.parseAddr (Net.ipString ip) = some vip) (s.withLease P env cm mac) ∧
      Elsewhere hash mac s (s.withLease P env cm mac) := by
  have hown := o.own hcm
  have he : Elsewhere hash mac s (s.withLease P env cm mac) := by
    refine ⟨fun _ _ => rfl, fun _ _ _ _ => rfl, fun hash' cm' hne hcm' => ?_, fun _ _ => rfl⟩
    exact (Heap.cell_store ..).trans (if_neg (hown.pool_ne hash' cm' hne hcm'))
  refine ⟨o.of_own he (Nat.le_refl _) (fun _ _ => Or.inl) hcm ?_, he⟩
  refine ⟨hown.pool_lt, hown.pool_ne, fun mac' lease hlease => ?_, hown.member⟩
  have hpool : (s.withLease P env cm mac).poolOf cm =
      (P.requestIP (s.poolOf cm) mac true env.now).2 := Heap.cell_store_self ..
  rw [hpool] at hlease
  rcases hP.requestIP _ _ _ _ _ _ hlease with hold | ⟨rfl, hmac, hgranted⟩
  · obtain ⟨hmac, hever, hothers⟩ := hown.leased mac' lease hold
    exact ⟨hmac, Or.inl hever, hothers⟩
  · refine ⟨hmac, Or.inr ⟨rfl, rfl, hgranted⟩, fun hash' cm' hne hcm' => ?_⟩
    exact (hnot hash' cm' hcm' hne).1

theorem Apart.withMember (o : Apart ever s) (hcm : s.communities.lookup hash = some cm) (env : Env)
    (edge : Edge) (hnot : s.NotElsewhere hash edge.macAddr) :
    Apart ever (s.withMember env cm edge) ∧
      Elsewhere hash edge.macAddr s (s.withMember env cm edge) ∧
      (s.withMember env cm edge).MemberOf hash edge.macAddr := by
  have hown := o.own hcm
  have hlisted : (s.withMember env cm edge).cms.cell cm = { s.cms.cell cm with
      edges := (s.cms.cell cm).edges.insert edge.macAddr s.edges.next } := Heap.cell_store_self ..
  have hpool : (s.withMember env cm edge).poolOf cm = s.poolOf cm := by
    unfold poolOf
    rw [hlisted]
    rfl
  have hcell : ∀ hash' cm', hash' ≠ hash → s.communities.lookup hash' = some cm' →
      (s.withMember env cm edge).cms.cell cm' = s.cms.cell cm' := by
    intro hash' cm' hne hcm'
    refine (Heap.cell_store ..).trans (if_neg ?_)
    rintro rfl
    exact hown.pool_ne hash' cm' hne hcm' rfl
  have he : Elsewhere hash edge.macAddr s (s.withMember env cm edge) := by
    refine ⟨fun _ _ => rfl, hcell, fun hash' cm' hne hcm' => ?_, fun mac' hne => ?_⟩
    · unfold poolOf
      rw [hcell hash' cm' hne hcm']
      rfl
    · exact AList.lookup_insert_ne hne
  refine ⟨o.of_own he (Nat.le_refl _) (fun _ _ h => h) hcm ?_, he, cm, hcm, ?_⟩
  · refine ⟨?_, fun hash' cm' hne hcm' => ?_, fun mac' lease hlease => ?_,
      fun mac' hmac' hash' cm' hne hcm' => ?_⟩
    · rw [hlisted]
      exact hown.pool_lt
    · rw [hlisted]
      exact hown.pool_ne hash' cm' hne hcm'
    · rw [hpool] at hlease
      exact hown.leased mac' lease hlease
    · rw [hlisted] at hmac'
      rcases (AList.mem_insert _).mp hmac' with rfl | hmac'
      · exact (hnot hash' cm' hcm' hne).2
      · exact hown.member mac' hmac' hash' cm' hne hcm'
  · rw [hlisted]
    exact (AList.mem_insert _).mpr (Or.inl rfl)

theorem Apart.edgeUpdate (hP : GrantsLeases P) (o : Apart ever s)
    (hcm : s.communities.lookup hash = some cm) {regMsg : Message RegisterRequest}
    {res : Except Err EdgeRef} (h : edgeUpdate P env s cm regMsg = (s', res))
    (hnot : s.NotElsewhere hash regMsg.edgeMACAddr) :
    Apart (fun hash' mac' => ever hash' mac' ∨ s'.MemberOf hash' mac') s' ∧
      Elsewhere hash regMsg.edgeMACAddr s s' := by
  cases edgeUpdate_updated h with
  | noLease e _ hfail =>
    obtain ⟨o', he⟩ := o.withLease hP hcm hnot env
    refine ⟨o'.mono fun hash' mac' hever => ?_, he⟩
    rcases hever with hever | ⟨-, -, ip, vip, hip, hvip⟩
    · exact Or.inl hever
    · rw [hfail ip hip] at hvip
      cases hvip
  | @joined nvip vip _ _ _ =>
    obtain ⟨o', he⟩ := o.withLease hP hcm hnot env
    obtain ⟨o'', he', hmember⟩ := o'.withMember hcm env
      (newEdge env (s.cms.cell cm) regMsg vip) (hnot.elsewhere he)
    refine ⟨o''.mono fun hash' mac' hever => ?_, he.trans he'⟩
    rcases hever with hever | ⟨rfl, rfl, -⟩
    · exact Or.inl hever
    · exact Or.inr hmember
  | mismatch e => exact ⟨o.mono fun _ _ => Or.inl, .refl hash _ s⟩
  | rejoined _ =>
    refine ⟨(o.mono fun _ _ => Or.inl).removal (.nothing rfl rfl rfl rfl), ?_⟩
    exact ⟨fun _ _ => rfl, fun _ _ _ _ => rfl, fun _ _ _ _ => rfl, fun _ _ => rfl⟩

theorem Apart.registerEdge (hP : GrantsLeases P) (v : s.registry.Valid hashCommunity)
    (o : Apart ever s) {reg : Message RegisterRequest}
    (hadm : ∀ id, validateEdgeClaimedMACAddr P reg.edgeMACAddr reg.msg.encryptedMachineId
        reg.msg.communityName = .ok id →
      (s.communities.lookup reg.communityHash = none → ∀ subnet,
        proposeVirtualNetwork P s.netAllocator reg.msg.communityName = .ok (some subnet) →
        s.registeredPools.lookup subnet.cidr = none) ∧
      s.NotElsewhere reg.communityHash reg.edgeMACAddr)
    (h : registerEdge P env s reg = .ok (s', res)) :
    Apart (fun hash' mac' => ever hash' mac' ∨ s'.MemberOf hash' mac') s' ∧
      (Elsewhere reg.communityHash reg.edgeMACAddr s s' ∧
        s.NotElsewhere reg.communityHash reg.edgeMACAddr ∨ s' = s) := by
  cases registerEdge_registered h with
  | invalid e => exact ⟨o.mono fun _ _ => Or.inl, Or.inr rfl⟩
  | noCommunity hcommunity =>
    cases registerCommunity_found hcommunity with
    | failed e => exact ⟨o.mono fun _ _ => Or.inl, Or.inr rfl⟩
  | @noEdge id cm s0 _ e hval hcommunity hup =>
    obtain ⟨hnew, hnot⟩ := hadm id hval
    obtain ⟨o', he, hcm⟩ := o.registerCommunity hP v reg.edgeMACAddr hnew hcommunity
    obtain ⟨o'', he'⟩ := o'.edgeUpdate hP hcm hup (hnot.elsewhere he)
    exact ⟨o'', Or.inl ⟨he.trans he', hnot⟩⟩
  | @edge id cm s0 s1 ref f hval hcommunity hup =>
    obtain ⟨hnew, hnot⟩ := hadm id hval
    obtain ⟨o', he, hcm⟩ := o.registerCommunity hP v reg.edgeMACAddr hnew hcommunity
    obtain ⟨o'', he'⟩ := o'.edgeUpdate hP hcm hup (hnot.elsewhere he)
    refine ⟨o''.removal (.nothing rfl rfl rfl rfl), Or.inl ⟨?_, hnot⟩⟩
    have hboth := he.trans he'
    exact ⟨hboth.communities, hboth.cell, hboth.poolOf, hboth.cached⟩

end Registrations

/-! ## Runs -/

section Runs

variable {P : Platform} {env : Env} {s s' : Supernode} {ever : UInt32 → Bytes → Prop} {ev : Event}
  {out : List Sent}

theorem Idle.removal (h : Idle s s') : Removal (fun _ _ => False) s s' := by
  cases h with
  | count f => exact .of_same rfl rfl rfl rfl
  | report infos _ => exact .store _ rfl rfl (fun _ hmac => hmac) fun _ _ => rfl

/-- What an admissible registration does, whether it is accepted or not; what follows
`RegisterEdge` changes neither communities nor pools. -/
theorem Apart.registration (hP : GrantsLeases P) (v : s.registry.Valid hashCommunity)
    (o : Apart ever s) {packet : Bytes} {addr : NetAddr} {r : RawMessage}
    {reg : Message RegisterRequest} {s1 : Supernode}
    (hadm : SharesNothing P s (.packet env packet addr))
    (hraw : newRawMessage packet addr = .ok (.ok r))
    (hmsg : toMessage P.codecs.registerRequest r = .ok reg)
    (hreg : Supernode.registerEdge P env s.counted reg = .ok (s1, res))
    (hcommunities : s'.communities = s1.communities) (hpools : s'.pools = s1.pools)
    (hcms : s'.cms = s1.cms) (hcached : s'.edgeCachedInfos = s1.edgeCachedInfos) :
    Apart (fun hash mac => ever hash mac ∨ s'.MemberOf hash mac) s' ∧
      ∀ hash cm, s.communities.lookup hash = some cm → ¬ Concerns s hash (.packet env packet addr) →
        ∀ env, leasesReply env s' cm = leasesReply env s cm := by
  obtain rfl : reg.toRawMessage = r := toMessage_ok hmsg
  have hcounted : Apart ever s.counted :=
    o.removal (.nothing rfl rfl rfl rfl)
  obtain ⟨o1, heffect⟩ := hcounted.registerEdge (s := s.counted) hP v
    (fun id hval => hadm _ reg id hraw hmsg hval) hreg
  have hrest : Removal (fun _ _ => False) s1 s' := .of_same hcommunities hpools hcms hcached
  refine ⟨(o1.removal hrest).mono fun hash mac hever => ?_, fun hash cm hcm hother env' => ?_⟩
  · rcases hever with hever | ⟨cm, hcm, hmac⟩
    · exact Or.inl hever
    · refine Or.inr ⟨cm, ?_, ?_⟩
      · rwa [hcommunities]
      · rwa [hcms]
  · have hlast : leasesReply env' s' cm = leasesReply env' s1 cm :=
      leasesReply_congr (hrest.name cm) (hrest.poolOf cm) fun mac _ => by rw [hcached]
    rw [hlast]
    rcases heffect with ⟨he, hnot⟩ | rfl
    · have hne : hash ≠ reg.communityHash := by
        rintro rfl
        exact hother ⟨reg.toRawMessage, hraw, rfl, Or.inl (packetType_of_toMessage hmsg)⟩
      exact he.leasesReply hnot hcm hne env'
    · rfl

/-- What a step does to the invariant, and to the replies for communities that it does not
concern. -/
theorem Apart.step (hP : GrantsLeases P) (v : s.registry.Valid hashCommunity) (o : Apart ever s)
    (hadm : SharesNothing P s ev) (h : step P s ev = .ok (s', out)) :
    Apart (fun hash mac => ever hash mac ∨ s'.MemberOf hash mac) s' ∧
      ∀ hash cm, s.communities.lookup hash = some cm → ¬ Concerns s hash ev →
        ∀ env, leasesReply env s' cm = leasesReply env s cm := by
  have hremoval : ∀ {gone}, Removal gone s s' →
      (∀ cm mac, gone cm mac → ∃ hash', s.communities.lookup hash' = some cm ∧ Concerns s hash' ev) →
      Apart (fun hash mac => ever hash mac ∨ s'.MemberOf hash mac) s' ∧
        ∀ hash cm, s.communities.lookup hash = some cm → ¬ Concerns s hash ev →
          ∀ env, leasesReply env s' cm = leasesReply env s cm := by
    intro gone hrem hgone
    refine ⟨(o.removal hrem).mono fun _ _ => Or.inl, fun hash cm hcm hother env => ?_⟩
    refine hrem.leasesReply o hcm (fun cm' mac hmac => ?_) env
    obtain ⟨hash', hcm', hconcerns⟩ := hgone cm' mac hmac
    refine ⟨hash', ?_, hcm'⟩
    rintro rfl
    exact hother hconcerns
  cases ev with
  | packet env packet addr =>
    rcases processPacket_ok h with rfl | ⟨r, out1, err, hraw, hhandled, -⟩
    · exact hremoval (.nothing rfl rfl rfl rfl) (fun _ _ h => h.elim)
    · have hcounted : ∀ gone, Removal gone s s.counted := fun gone => .of_same rfl rfl rfl rfl
      cases hhandled with
      | idle hidle _ => exact hremoval ((hcounted _).trans hidle.removal) (fun _ _ h => h.elim)
      | refused f hmsg hreg _ => exact o.registration hP v hadm hraw hmsg hreg rfl rfl rfl rfl
      | @registered reg s1 s2 ref cm _ _ _ f hmsg hreg hs2 _ =>
        subst hs2
        refine o.registration hP v hadm hraw hmsg hreg ?_ ?_ ?_ ?_
        all_goals
          unfold setWSSConnID
          cases r.fromAddr <;> rfl
      | refreshed f _ _ _ _ =>
        exact hremoval (.nothing rfl rfl rfl rfl) (fun _ _ h => h.elim)
      | @removed unReg id cm s1 s2 pil f hmsg _ hgroup hun hunindex =>
        have hone := (hcounted fun cm' mac' => cm' = cm ∧ mac' = r.edgeMACAddr).trans
          (removal_unregister ⟨rfl, rfl⟩ hun)
        refine hremoval ((hone.trans (removal_unindexEdge hunindex)).trans (.of_same rfl rfl rfl rfl)) ?_
        rintro cm' mac' ⟨rfl, rfl⟩
        exact ⟨r.communityHash, hgroup, r, hraw, rfl, Or.inr (packetType_of_toMessage hmsg)⟩
  | cleanup env =>
    refine hremoval (removal_cleanupStaleEdges h) fun cm mac hmem => ?_
    obtain ⟨hash', hcm'⟩ := group_of_mem_staleEdges hmem
    exact ⟨hash', hcm', cm, mac, hcm', hmem⟩
  | connect connID conn =>
    cases h
    exact hremoval (.nothing rfl rfl rfl rfl) (fun _ _ h => h.elim)
  | disconnect connID =>
    cases h
    exact hremoval (.nothing rfl rfl rfl rfl) (fun _ _ h => h.elim)

theorem apart_initial (h : Initial s) : Apart ever s := by
  obtain ⟨config, netAllocator, pem, noCommunity, noEdge, noPool, rfl⟩ := h
  constructor <;> simp [newSupernodeWithConfig]

end Runs

/-- **The leases of a community are isolated** in every run in which the communities share no
network and no MAC: a reply mentions only members and former members, and only registrations
and removals in the community itself change it.
GOLINE: supernode/community.go:368-399, supernode/handlers.go:59-94 -/
theorem leases_isolated (P : Platform) (hP : GrantsLeases P)
    (hist : List (Taken Supernode Event (List Sent))) (s : Supernode)
    (htrace : Trace (step P) Initial (SharesNothing P) hist s) (hash : UInt32) (cm : CommunityRef)
    (hcm : s.communities.lookup hash = some cm) :
    (∀ env mac infos, (leasesReply env s cm).leasesWithEdgesInfos.lookup mac = some infos →
      infos.lease.mac = mac ∧ EverMember hist s hash mac) ∧
    ∀ ev s' out, SharesNothing P s ev → ¬ Concerns s hash ev → step P s ev = .ok (s', out) →
      ∀ env, leasesReply env s' cm = leasesReply env s cm := by
  have hinv : s.registry.Valid hashCommunity ∧ Apart (EverMember hist s) s := by
    refine Trace.invariant (I := fun hist s =>
      s.registry.Valid hashCommunity ∧ Apart (EverMember hist s) s)
      (fun s h0 => ⟨valid_initial h0, apart_initial h0⟩) ?_ htrace
    rintro hist s ev s' out ⟨v, o⟩ hadm hstep
    obtain ⟨ops, hrun, -⟩ := step_registry v hstep
    refine ⟨v.run hrun, (o.step hP v hadm hstep).1.mono fun hash mac hever => ?_⟩
    rcases hever with (hmember | ⟨t, ht, hmember⟩) | hmember
    · exact Or.inr ⟨_, List.mem_cons_self, hmember⟩
    · exact Or.inr ⟨t, List.mem_cons_of_mem _ ht, hmember⟩
    · exact Or.inl hmember
  obtain ⟨v, o⟩ := hinv
  refine ⟨fun env mac infos hinfos => ?_, fun ev s' out hadm hother hstep => ?_⟩
  · obtain ⟨lease, hlease, hmac⟩ := lookup_leases hinfos
    obtain ⟨hkey, hever⟩ := o.leased hash cm mac lease hcm hlease
    exact ⟨hmac.trans hkey, hever⟩
  · exact (o.step hP v hadm hstep).2 hash cm hcm hother

/-! ## Two communities, one pool -/

theorem grantsLeases_sample : GrantsLeases Sample.platform := by
  have htext : ∀ n : Fin 256,
      (Net.parseAddr (Net.ipString [10, 0, 0, UInt8.ofNat n.val])).isSome = true := by decide +kernel
  refine ⟨fun cidr pool h => ?_, fun pool mac sticky now k lease h => ?_⟩
  · cases h
    rfl
  · have hlook : (pool.leases.insert mac ⟨[10, 0, 0, UInt8.ofNat (pool.leases.entries.length + 1)],
        mac, now, sticky, now⟩).lookup k = some lease := h
    rw [Table.lookup_insert_if] at hlook
    split at hlook
    · next heq =>
      cases hlook
      obtain ⟨vip, hvip⟩ := Option.isSome_iff_exists.mp
        (htext ⟨(UInt8.ofNat (pool.leases.entries.length + 1)).toNat, UInt8.toNat_lt _⟩)
      rw [UInt8.ofNat_toNat] at hvip
      exact Or.inr ⟨heq, rfl, _, vip, rfl, hvip⟩
    · exact Or.inl hlook

theorem sharesNothing_start (ev : Event) : SharesNothing Sample.platform Sample.start ev := by
  cases ev with
  | packet env packet addr =>
    intro r reg id _ _ _
    exact ⟨fun _ _ _ => rfl, fun hash cm hcm => by cases hcm⟩
  | cleanup env => trivial
  | connect connID conn => trivial
  | disconnect connID => trivial

/-- Machine `m` registers in `c`; the reply for `c` lists it. -/
theorem leases_isolated_one_community :
    ∃ hist s infos, Trace (step Sample.platform) Initial (SharesNothing Sample.platform) hist s ∧
      (leasesReply Sample.env s 0).leasesWithEdgesInfos.lookup (macText "c" "m") = some infos ∧
      EverMember hist s (hashCommunity (ascii "c")) (macText "c" "m") := by
  obtain ⟨⟨s, out⟩, hstep, hs⟩ := exists_of_passes
    (x := step Sample.platform Sample.start (registers "c" "m" 1))
    (p := fun res => decide (
      res.1.communities.lookup (hashCommunity (ascii "c")) = some 0 ∧
      ((leasesReply Sample.env res.1 0).leasesWithEdgesInfos.lookup (macText "c" "m")).isSome))
    (by decide +kernel)
  obtain ⟨hcm, hlisted⟩ := of_decide_eq_true hs
  obtain ⟨infos, hinfos⟩ := Option.isSome_iff_exists.mp hlisted
  have htrace : Trace (step Sample.platform) Initial (SharesNothing Sample.platform)
      [⟨Sample.start, registers "c" "m" 1, out⟩] s :=
    .step (.init ⟨_, _, _, _, _, _, rfl⟩) (sharesNothing_start _) hstep
  exact ⟨_, s, infos, htrace, hinfos, ((leases_isolated Sample.platform grantsLeases_sample _ s htrace
    _ 0 hcm).1 _ _ _ hinfos).2⟩

/-- Machine `m` is in `c`. When machine `n` registers in `d`, the reply for `c` changes: it
lists `n`, which has never been in `c`. -/
theorem leases_shared :
    ∃ hist s s' out, Trace (step Sample.platform) Initial (fun _ _ => True) hist s ∧
      s.communities.lookup (hashCommunity (ascii "c")) = some 0 ∧
      step Sample.platform s (registers "d" "n" 2) = .ok (s', out) ∧
      ¬ Concerns s (hashCommunity (ascii "c")) (registers "d" "n" 2) ∧
      leasesReply Sample.env s' 0 ≠ leasesReply Sample.env s 0 ∧
      macText "d" "n" ∈ (leasesReply Sample.env s' 0).leasesWithEdgesInfos ∧
      ¬ EverMember (⟨s, registers "d" "n" 2, out⟩ :: hist) s' (hashCommunity (ascii "c"))
        (macText "d" "n") := by
  obtain ⟨⟨s, out⟩, hstep, hs⟩ := exists_of_passes
    (x := step Sample.platform Sample.start (registers "c" "m" 1))
    (p := fun res => decide (
        res.1.communities.lookup (hashCommunity (ascii "c")) = some 0 ∧
        macText "d" "n" ∉ (leasesReply Sample.env res.1 0).leasesWithEdgesInfos ∧
        macText "d" "n" ∉ (res.1.cms.cell 0).edges) &&
      Passes (step Sample.platform res.1 (registers "d" "n" 2)) fun res' => decide (
        res'.1.communities.lookup (hashCommunity (ascii "c")) = some 0 ∧
        macText "d" "n" ∈ (leasesReply Sample.env res'.1 0).leasesWithEdgesInfos ∧
        macText "d" "n" ∉ (res'.1.cms.cell 0).edges))
    (by decide +kernel)
  obtain ⟨hs, hs'⟩ := Bool.and_eq_true_iff.mp hs
  obtain ⟨⟨s', out'⟩, hstep', hs'⟩ := exists_of_passes hs'
  obtain ⟨hcm, hunlisted, hno⟩ := of_decide_eq_true hs
  obtain ⟨hcm', hlisted, hno'⟩ := of_decide_eq_true hs'
  have hnever : ∀ s : Supernode, s.communities.lookup (hashCommunity (ascii "c")) = some 0 →
      macText "d" "n" ∉ (s.cms.cell 0).edges →
      ¬ s.MemberOf (hashCommunity (ascii "c")) (macText "d" "n") := by
    rintro s hcm hno ⟨cm, hcm', hmember⟩
    obtain rfl : 0 = cm := Option.some.inj (hcm.symm.trans hcm')
    exact hno hmember
  refine ⟨[⟨Sample.start, registers "c" "m" 1, out⟩], s, s', out',
    .step (.init ⟨_, _, _, _, _, _, rfl⟩) trivial hstep, hcm, hstep', ?_, ?_, hlisted, ?_⟩
  · rintro ⟨r, hraw, hhash, -⟩
    rw [Sample.newRawMessage_request] at hraw
    cases hraw
    exact absurd hhash (by decide +kernel)
  · intro heq
    rw [heq] at hlisted
    exact hunlisted hlisted
  · rintro (hmember | ⟨t, ht, hmember⟩)
    · exact hnever s' hcm' hno' hmember
    · rcases List.mem_cons.mp ht with rfl | ht
      · exact hnever s hcm hno hmember
      · obtain rfl := List.mem_singleton.mp ht
        obtain ⟨cm, hcm0, -⟩ := hmember
        cases hcm0

end N2nGo.Supernode
