import N2nGo.Analysis.Sending
import N2nGo.Lib.Registry
import N2nGo.Lib.Run

/-!
# The supernode as a registry

`registry` is what the tables of a supernode say about membership: communities are
groups, edge records are listed under their MAC, `edgesByMAC` is the index by key and
`edgesBySocket` the index by address. Counters, cached infos, leases and WebSocket
connections are not part of it.

Every critical section of the source is one write of the registry.
-/

set_option autoImplicit false

namespace N2nGo.Supernode

open N2nGo.Lib N2nGo.Protocol N2nGo.Messages

/-- An edge is filed under its MAC, in its community, at its UDP address and at its
WebSocket connection if it has one. -/
instance : Filed Edge Bytes Bytes Bytes where
  key := Edge.macAddr
  home := Edge.community
  addr e := e.udpAddr.string
  alt e := if e.wssConnID = [] then none else some e.wssConnID

/-- What the tables say about membership. -/
def registry (s : Supernode) : Registry UInt32 Bytes Bytes Bytes Edge where
  group h := s.communities.lookup h
  name cm := (s.cms.cell cm).name
  member cm mac := (s.cms.cell cm).edges.lookup mac
  record := s.edges.cell
  byKey mac := s.edgesByMAC.lookup mac
  byAddr a := s.edgesBySocket.lookup a
  groups := s.cms.next
  records := s.edges.next

abbrev Op := Registry.Op UInt32 Bytes Bytes Edge

@[simp] theorem registry_count (s : Supernode) (f : SupernodeStats → SupernodeStats) :
    (s.count f).registry = s.registry := rfl

/-! ## Critical sections are registry writes -/

section Sections

variable {P : Platform} {env : Env} {s s' : Supernode} {cm : CommunityRef} {mac : Bytes}

theorem registry_indexEdge (s : Supernode) (ref : EdgeRef) :
    (s.indexEdge ref).registry = s.registry.index ref := by
  unfold registry indexEdge Registry.index
  simp only [Registry.mk.injEq, true_and, and_true]
  refine ⟨?_, ?_⟩
  · funext k
    simp only [Table.lookup_insert_if, Function.update_apply]
    rfl
  · funext a
    by_cases hconn : (s.edges.cell ref).wssConnID = []
    · simp only [hconn, ne_eq, not_true_eq_false, if_false, Table.lookup_insert_if, Filed.alt,
        Filed.addr, if_true, reduceCtorEq, or_false]
    · simp only [hconn, ne_eq, not_false_eq_true, if_true, Table.lookup_insert_if, Filed.alt,
        Filed.addr, if_false, Option.some.injEq]
      by_cases h1 : a = (s.edges.cell ref).wssConnID
      · simp [h1]
      · by_cases h2 : a = (s.edges.cell ref).udpAddr.string
        · simp [h2]
        · simp [h1, h2, eq_comm]

theorem member_store (s : Supernode) (cm : CommunityRef) (c : Community) :
    (fun cm' mac => ((s.cms.store cm c).cell cm').edges.lookup mac) =
      Function.update (fun cm' mac => (s.cms.cell cm').edges.lookup mac) cm
        fun mac => c.edges.lookup mac := by
  funext cm' mac
  by_cases h : cm' = cm
  · subst h
    simp
  · simp [Heap.cell_store, h]

theorem name_store (s : Supernode) {cm : CommunityRef} {c : Community}
    (h : c.name = (s.cms.cell cm).name) :
    (fun cm' => ((s.cms.store cm c).cell cm').name) = fun cm' => (s.cms.cell cm').name := by
  funext cm'
  by_cases hcm : cm' = cm
  · subst hcm
    simp [h]
  · simp [Heap.cell_store, hcm]

theorem unregister_true (h : unregister env s cm mac = (s', true)) :
    (∃ ref, s.registry.member cm mac = some ref) ∧ s'.registry = s.registry.expel cm mac := by
  unfold unregister at h
  simp only at h
  split at h
  · cases h
  · next ref hlook =>
    cases h
    refine ⟨⟨ref, hlook⟩, ?_⟩
    unfold registry Registry.expel setEdgeCachedInfo
    simp only [Registry.mk.injEq, true_and, and_true]
    refine ⟨name_store s rfl, ?_, rfl⟩
    rw [member_store]
    congr 1
    funext k
    simp only [Table.lookup_erase_if, Function.update_apply]

theorem unregister_false (h : unregister env s cm mac = (s', false)) :
    s' = s ∧ s.registry.member cm mac = none := by
  unfold unregister at h
  simp only at h
  split at h
  · next hlook =>
    cases h
    exact ⟨rfl, hlook⟩
  · cases h

theorem completes_unindexEdge_iff (s : Supernode) (mac : Bytes) :
    Completes (s.unindexEdge mac) ↔ ∃ ref, s.edgesByMAC.lookup mac = some ref := by
  unfold unindexEdge
  cases s.edgesByMAC.lookup mac with
  | none => simp [deref]
  | some ref => simp [deref]

variable {pil : PeerInfoList}

theorem unindexEdge_ok (h : s.unindexEdge mac = .ok (s', pil)) :
    (∃ ref, s.registry.byKey mac = some ref) ∧ s'.registry = s.registry.unindex mac := by
  unfold unindexEdge at h
  cases hlook : s.edgesByMAC.lookup mac with
  | none => simp [hlook, deref] at h
  | some ref =>
    simp only [hlook, deref, ok_bind, Except.ok.injEq, Prod.mk.injEq] at h
    obtain ⟨rfl, -⟩ := h
    have hkey : s.registry.byKey mac = some ref := hlook
    refine ⟨⟨ref, hkey⟩, ?_⟩
    unfold Registry.unindex
    simp only [hkey]
    unfold registry
    simp only [Registry.mk.injEq, true_and, and_true]
    refine ⟨?_, ?_⟩
    · funext k
      simp only [Table.lookup_erase_if, Function.update_apply]
    · funext a
      simp only [Table.lookup_erase_if, Function.update_apply]
      rfl

/-- What the locked half of a removal leaves, and the event it makes of the record. -/
theorem unindexEdge_eq {ref : EdgeRef} (h : s.edgesByMAC.lookup mac = some ref) :
    s.unindexEdge mac = .ok ({ s with
      edgesBySocket := s.edgesBySocket.erase (s.edges.cell ref).udpAddr.string
      edgesByMAC := s.edgesByMAC.erase mac }, newPeerInfoEvent typeUnregister (s.edges.cell ref)) := by
  unfold unindexEdge
  rw [h]
  rfl

theorem unindexEdge_count {f : SupernodeStats → SupernodeStats}
    (h : (s.count f).unindexEdge mac = .ok (s', pil)) :
    ∃ s1, s.unindexEdge mac = .ok (s1, pil) ∧ s' = s1.count f := by
  obtain ⟨⟨ref, href⟩, -⟩ := unindexEdge_ok h
  rw [unindexEdge_eq href] at h
  cases h
  exact ⟨_, unindexEdge_eq (s := s) href, rfl⟩

/-- The two writes of a removal that finds the edge, as one operation of the registry. -/
theorem registry_removed {s1 : Supernode} (hun : unregister env s cm mac = (s1, true))
    (hunindex : s1.unindexEdge mac = .ok (s', pil)) :
    (∃ ref, s.registry.member cm mac = some ref) ∧ (∃ ref, s.registry.byKey mac = some ref) ∧
      s'.registry = s.registry.apply (.leave cm mac) := by
  obtain ⟨hmember, hexpel⟩ := unregister_true hun
  obtain ⟨hindexed, hunindexed⟩ := unindexEdge_ok hunindex
  rw [hexpel] at hindexed hunindexed
  exact ⟨hmember, hindexed, hunindexed⟩

/-- Both halves of a removal, when it completes: the record is unindexed and the removal
announced. -/
theorem onEdgeUnregistered_eq {out out' : List Sent}
    (h : onEdgeUnregistered P env s out cm mac = .ok (s', out')) :
    ∃ s1 pil, ∃ f : Tally 1, s.unindexEdge mac = .ok (s1, pil) ∧ s' = s1.count f ∧
      out' = out ++ announcement P.codecs.peerInfoList env s1 out.length pil cm mac := by
  unfold onEdgeUnregistered at h
  obtain ⟨⟨s1, pil⟩, h1, hrest⟩ := bind_eq_ok.mp h
  simp only at hrest
  obtain ⟨f, err, hb⟩ := broadcastStruct_eq P.codecs.peerInfoList env
    (s1.count Tally.unregister) out pil cm mac
  rw [hb, ok_bind] at hrest
  simp only [Except.ok.injEq, Prod.mk.injEq] at hrest
  obtain ⟨rfl, rfl⟩ := hrest
  exact ⟨s1, pil, Tally.unregister.andThen f, h1, rfl, by rw [announcement_count]⟩

theorem completes_onEdgeUnregistered_iff (P : Platform) (env : Env) (s : Supernode)
    (out : List Sent) (cm : CommunityRef) (mac : Bytes) :
    Completes (onEdgeUnregistered P env s out cm mac) ↔
      ∃ ref, s.edgesByMAC.lookup mac = some ref := by
  rw [← completes_unindexEdge_iff, onEdgeUnregistered, completes_bind_iff]
  constructor
  · rintro ⟨a, ha, -⟩
    exact ⟨a, ha⟩
  · rintro ⟨⟨s1, pil⟩, h1⟩
    refine ⟨_, h1, ?_⟩
    obtain ⟨f, err, hb⟩ := broadcastStruct_eq P.codecs.peerInfoList env
      (s1.count fun st => { st with edgesUnregistered := st.edgesUnregistered + 1 }) out pil cm mac
    simp only [hb, ok_bind, completes_ok]

theorem completes_proposeVirtualNetwork_iff (P : Platform) (m : NetworkAllocator) (name : Bytes) :
    Completes (proposeVirtualNetwork P m name) ↔ 4 ≤ m.baseNetwork.length ∧ 4 ≤ m.mask.length := by
  have hsha : slice (P.sha256 name) 0 4 = .ok ((P.sha256 name).take 4) :=
    slice_from_start (by rw [P.length_sha256]; omega)
  obtain ⟨hash, hhash⟩ : Completes (readUint32 ((P.sha256 name).take 4)) :=
    (completes_readUint32_iff _).mpr (by rw [List.length_take, P.length_sha256]; omega)
  rw [← completes_readUint32_iff, ← completes_readUint32_iff]
  simp only [proposeVirtualNetwork, hsha, hhash, ok_bind, completes_bind_iff, completes_ok,
    and_true]
  constructor
  · rintro ⟨base, hbase, mask, hmask⟩
    exact ⟨⟨base, hbase⟩, ⟨mask, hmask⟩⟩
  · rintro ⟨⟨base, hbase⟩, ⟨mask, hmask⟩⟩
    exact ⟨base, hbase, mask, hmask⟩

theorem existingCommunity_ok {name : Bytes} {hash : UInt32} {cm cm' : CommunityRef}
    (h : s.existingCommunity name hash cm = .ok cm') : cm' = cm ∧ (s.cms.cell cm).name = name := by
  unfold existingCommunity at h
  split at h
  · next hname =>
    cases h
    exact ⟨rfl, hname⟩
  · cases h

/-- The pool of a CIDR is the registered one, or one that is registered now. -/
theorem poolFor_eq_some {cidr : Bytes} {ips : ℕ} (h : poolFor P s cidr = some (s', ips)) :
    (s' = s ∧ s.registeredPools.lookup cidr = some ips) ∨
      ∃ pool, s.registeredPools.lookup cidr = none ∧ P.newIPPool cidr = some pool ∧
        ips = s.pools.next ∧ s' = { s with
          pools := s.pools.alloc pool
          registeredPools := s.registeredPools.insert cidr s.pools.next } := by
  unfold poolFor at h
  cases hlook : s.registeredPools.lookup cidr with
  | some ips' =>
    rw [hlook] at h
    cases h
    exact Or.inl ⟨rfl, rfl⟩
  | none =>
    rw [hlook] at h
    obtain ⟨pool, hpool, h⟩ := Option.map_eq_some_iff.mp h
    cases h
    exact Or.inr ⟨pool, rfl, hpool, rfl, rfl⟩

theorem registry_poolFor {cidr : Bytes} {ips : ℕ} (h : poolFor P s cidr = some (s', ips)) :
    s'.registry = s.registry := by
  rcases poolFor_eq_some h with ⟨rfl, -⟩ | ⟨pool, -, -, -, rfl⟩
  · rfl
  · rfl

/-- A community without members. -/
def newCommunity (name : Bytes) (subnet : Prefix) (ips : ℕ) : Community :=
  { name := name
    subnet := subnet
    maskLen := subnet.bits
    ips := ips
    communityPeerP2PInfos := ∅
    edges := ∅ }

/-- The community is entered in the table. -/
def withCommunity (s : Supernode) (hash : UInt32) (c : Community) : Supernode :=
  { s with cms := s.cms.alloc c, communities := s.communities.insert hash s.cms.next }

theorem registry_withCommunity (s : Supernode) (hash : UInt32) (name : Bytes) (subnet : Prefix)
    (ips : ℕ) : (s.withCommunity hash (newCommunity name subnet ips)).registry =
      s.registry.create hash name := by
  unfold registry withCommunity Registry.create
  simp only [Registry.mk.injEq, true_and, and_true]
  refine ⟨?_, ?_, ?_, rfl⟩
  · funext h
    simp only [Table.lookup_insert_if, Function.update_apply]
  · funext cm
    simp only [Heap.cell_alloc, Function.update_apply]
    split <;> rfl
  · funext cm
    simp only [Heap.cell_alloc, Function.update_apply]
    split
    · simp [newCommunity]
    · rfl

section

variable {name : Bytes} {hash : UInt32} {res : Except Err CommunityRef}
  (h : registerCommunityCreate P s name hash none = .ok (s', res))
include h

/-- The write-locked half of `RegisterCommunity` when the read-locked half found nothing: it
fails and changes nothing, or enters a community with the pool of its network. -/
theorem registerCommunityCreate_eq :
    ((∃ e, res = .error e) ∧ s' = s) ∨
      ∃ subnet s1 ips, proposeVirtualNetwork P s.netAllocator name = .ok (some subnet) ∧
        poolFor P s subnet.cidr = some (s1, ips) ∧ res = .ok s.cms.next ∧
        s' = s1.withCommunity hash (newCommunity name subnet ips) := by
  unfold registerCommunityCreate at h
  simp only at h
  obtain ⟨subnet?, hsubnet, h⟩ := bind_eq_ok.mp h
  cases subnet? with
  | none =>
    cases h
    exact Or.inl ⟨⟨_, rfl⟩, rfl⟩
  | some subnet =>
    simp only [newCommunityWithConfig] at h
    cases hpool : poolFor P s subnet.cidr with
    | none =>
      rw [hpool] at h
      cases h
      exact Or.inl ⟨⟨_, rfl⟩, rfl⟩
    | some res1 =>
      obtain ⟨s1, ips⟩ := res1
      rw [hpool] at h
      cases h
      have hcms : s1.cms.next = s.cms.next := congrArg Registry.groups (registry_poolFor hpool)
      exact Or.inr ⟨subnet, s1, ips, hsubnet, hpool, by rw [hcms], rfl⟩

theorem registerCommunityCreate_none :
    ((∃ e, res = .error e) ∧ s'.registry = s.registry) ∨
      (res = .ok s.cms.next ∧ s'.registry = s.registry.create hash name) := by
  rcases registerCommunityCreate_eq h with ⟨hfail, rfl⟩ | ⟨subnet, s1, ips, -, hpool, hres, rfl⟩
  · exact Or.inl ⟨hfail, rfl⟩
  · exact Or.inr ⟨hres, by rw [registry_withCommunity, registry_poolFor hpool]⟩

end

/-- What `RegisterCommunity` does when it completes: the state it leaves and its result.
GOLINE: supernode/registration.go:14-52 -/
inductive CommunityFound (P : Platform) (s : Supernode) (name : Bytes) (hash : UInt32) :
    Supernode → Except Err CommunityRef → Prop where
  | failed (e : Err) : CommunityFound P s name hash s (.error e)
  | existing {cm : CommunityRef} : hash = hashCommunity name →
      s.communities.lookup hash = some cm → (s.cms.cell cm).name = name →
      CommunityFound P s name hash s (.ok cm)
  | created {subnet : Prefix} {s1 : Supernode} {ips : ℕ} : hash = hashCommunity name →
      s.communities.lookup hash = none →
      proposeVirtualNetwork P s.netAllocator name = .ok (some subnet) →
      poolFor P s subnet.cidr = some (s1, ips) →
      CommunityFound P s name hash (s1.withCommunity hash (newCommunity name subnet ips))
        (.ok s.cms.next)

section

variable {name : Bytes} {hash : UInt32} {res : Except Err CommunityRef}
  (h : registerCommunity P s name hash = .ok (s', res))
include h

theorem registerCommunity_found : CommunityFound P s name hash s' res := by
  unfold registerCommunity registerCommunityRead at h
  by_cases hhash : hash = hashCommunity name
  · simp only [ne_eq, hhash, not_true_eq_false, if_false] at h
    rw [← hhash] at h
    cases hlook : s.communities.lookup hash with
    | some cm =>
      simp only [hlook, Except.ok.injEq, Prod.mk.injEq] at h
      obtain ⟨rfl, rfl⟩ := h
      cases hex : s.existingCommunity name hash cm with
      | error e => exact .failed e
      | ok cm' =>
        obtain ⟨rfl, hname⟩ := existingCommunity_ok hex
        exact .existing hhash hlook hname
    | none =>
      simp only [hlook] at h
      rcases registerCommunityCreate_eq h with ⟨⟨e, rfl⟩, rfl⟩ |
        ⟨subnet, s1, ips, hsubnet, hpool, rfl, rfl⟩
      · exact .failed e
      · exact .created hhash hlook hsubnet hpool
  · simp only [ne_eq, hhash, not_false_eq_true, if_true, Except.ok.injEq, Prod.mk.injEq] at h
    obtain ⟨rfl, rfl⟩ := h
    exact .failed _

/-- What `RegisterCommunity` does to the registry: it fails, finds the community of that
name, or creates it where there was none. -/
theorem registerCommunity_ok :
    ((∃ e, res = .error e) ∧ s'.registry = s.registry) ∨
      ∃ cm, res = .ok cm ∧ hash = hashCommunity name ∧
        ((s' = s ∧ s.communities.lookup hash = some cm ∧ (s.cms.cell cm).name = name) ∨
          (s.communities.lookup hash = none ∧ cm = s.cms.next ∧
            s'.registry = s.registry.create hash name)) := by
  cases registerCommunity_found h with
  | failed e => exact Or.inl ⟨⟨e, rfl⟩, rfl⟩
  | existing hhash hlook hname => exact Or.inr ⟨_, rfl, hhash, Or.inl ⟨rfl, hlook, hname⟩⟩
  | created hhash hfree _ hpool =>
    exact Or.inr ⟨_, rfl, hhash, Or.inr ⟨hfree, rfl, by
      rw [registry_withCommunity, registry_poolFor hpool]⟩⟩

end

theorem registry_enroll (s : Supernode) (cm : CommunityRef) (edge : Edge) :
    ({ s with
        edges := s.edges.alloc edge
        cms := s.cms.store cm { s.cms.cell cm with
          edges := (s.cms.cell cm).edges.insert edge.macAddr s.edges.next } } : Supernode).registry =
      s.registry.enroll cm edge := by
  unfold registry Registry.enroll
  simp only [Registry.mk.injEq, true_and]
  refine ⟨name_store s rfl, ?_, ?_, rfl, rfl⟩
  · rw [member_store]
    congr 1
    funext k
    simp only [Table.lookup_insert_if, Function.update_apply]
    rfl
  · funext r
    simp only [Heap.cell_alloc, Function.update_apply]

/-- The record at `ref` is overwritten. -/
def withRecord (s : Supernode) (ref : EdgeRef) (edge : Edge) : Supernode :=
  { s with edges := s.edges.store ref edge }

@[simp] theorem cell_withRecord_self (s : Supernode) (ref : EdgeRef) (edge : Edge) :
    (s.withRecord ref edge).edges.cell ref = edge := Heap.cell_store_self ..

/-- An address has been requested for the MAC from the community's pool. -/
def withLease (P : Platform) (env : Env) (s : Supernode) (cm : CommunityRef) (mac : Bytes) :
    Supernode :=
  { s with
    pools := s.pools.store (s.cms.cell cm).ips
      (P.requestIP (s.pools.cell (s.cms.cell cm).ips) mac true env.now).2 }

/-- The record is allocated, listed in the community and cached as registered. -/
def withMember (env : Env) (s : Supernode) (cm : CommunityRef) (edge : Edge) : Supernode :=
  setEdgeCachedInfo env { s with
      edges := s.edges.alloc edge
      cms := s.cms.store cm { s.cms.cell cm with
        edges := (s.cms.cell cm).edges.insert edge.macAddr s.edges.next } }
    edge.macAddr edge.desc (s.cms.cell cm).name true edge.virtualIP

/-- What `EdgeUpdate` does: the state it leaves and its result.
GOLINE: supernode/community.go:258-326 -/
inductive EdgeUpdated (P : Platform) (env : Env) (s : Supernode) (cm : CommunityRef)
    (regMsg : Message RegisterRequest) : Supernode → Except Err EdgeRef → Prop where
  /-- no address, or one that does not parse -/
  | noLease (e : Err) : (s.cms.cell cm).edges.lookup regMsg.edgeMACAddr = none →
      (∀ nvip, (P.requestIP (s.pools.cell (s.cms.cell cm).ips) regMsg.edgeMACAddr true env.now).1 =
        some nvip → Net.parseAddr (Net.ipString nvip) = none) →
      EdgeUpdated P env s cm regMsg (s.withLease P env cm regMsg.edgeMACAddr) (.error e)
  | joined {nvip : Bytes} {vip : Net.Addr} :
      (s.cms.cell cm).edges.lookup regMsg.edgeMACAddr = none →
      (P.requestIP (s.pools.cell (s.cms.cell cm).ips) regMsg.edgeMACAddr true env.now).1 =
        some nvip →
      Net.parseAddr (Net.ipString nvip) = some vip →
      EdgeUpdated P env s cm regMsg ((s.withLease P env cm regMsg.edgeMACAddr).withMember env cm
        (newEdge env (s.cms.cell cm) regMsg vip)) (.ok s.edges.next)
  | mismatch (e : Err) : EdgeUpdated P env s cm regMsg s (.error e)
  | rejoined {ref : EdgeRef} : (s.cms.cell cm).edges.lookup regMsg.edgeMACAddr = some ref →
      EdgeUpdated P env s cm regMsg
        (s.withRecord ref (reRegistered env (s.edges.cell ref) regMsg)) (.ok ref)

section

variable {regMsg : Message RegisterRequest} {res : Except Err EdgeRef}
  (h : edgeUpdate P env s cm regMsg = (s', res))
include h

theorem edgeUpdate_updated : EdgeUpdated P env s cm regMsg s' res := by
  unfold edgeUpdate at h
  simp only at h
  cases hlook : (s.cms.cell cm).edges.lookup regMsg.edgeMACAddr with
  | none =>
    simp only [hlook] at h
    split at h
    · next hnone =>
      cases h
      refine .noLease _ hlook fun nvip hsome => ?_
      rw [hnone] at hsome
      cases hsome
    · next nvip hnvip =>
      split at h
      · next hvip =>
        cases h
        refine .noLease _ hlook fun nvip' hsome => ?_
        rw [hnvip] at hsome
        cases hsome
        exact hvip
      · next vip hvip =>
        cases h
        exact .joined hlook hnvip hvip
  | some ref =>
    simp only [hlook] at h
    split at h
    · cases h
      exact .mismatch _
    · cases h
      exact .rejoined hlook

/-- What `EdgeUpdate` does to the registry: it fails, lists a new record, or overwrites the
listed one. -/
theorem edgeUpdate_spec :
    ((∃ e, res = .error e) ∧ s'.registry = s.registry) ∨
      (∃ vip, s.registry.member cm regMsg.edgeMACAddr = none ∧ res = .ok s.edges.next ∧
        s'.registry = s.registry.enroll cm (newEdge env (s.cms.cell cm) regMsg vip)) ∨
      ∃ ref, s.registry.member cm regMsg.edgeMACAddr = some ref ∧ res = .ok ref ∧
        s'.registry = s.registry.write ref (reRegistered env (s.edges.cell ref) regMsg) := by
  cases edgeUpdate_updated h with
  | noLease e _ _ => exact Or.inl ⟨⟨e, rfl⟩, rfl⟩
  | @joined nvip vip hlook _ _ =>
    exact Or.inr (Or.inl ⟨vip, hlook, rfl,
      registry_enroll s cm (newEdge env (s.cms.cell cm) regMsg vip)⟩)
  | mismatch e => exact Or.inl ⟨⟨e, rfl⟩, rfl⟩
  | rejoined hlook => exact Or.inr (Or.inr ⟨_, hlook, rfl, rfl⟩)

end

/-- The record after a registration over `addr`. -/
def withConn (addr : NetAddr) (edge : Edge) : Edge :=
  match addr with
  | .wss connID => { edge with wssConnID := connID }
  | .udp _ => edge

theorem registry_setWSSConnID (s : Supernode) (ref : EdgeRef) (addr : NetAddr) :
    (s.setWSSConnID ref addr).registry = s.registry.write ref (withConn addr (s.edges.cell ref)) := by
  cases addr with
  | wss connID => rfl
  | udp a =>
    unfold Registry.write
    rw [show withConn (.udp a) (s.edges.cell ref) = s.registry.record ref from rfl,
      Function.update_eq_self]
    rfl

theorem refreshEdge_spec {hbMsg : Message HeartbeatPulse} {res : Except Err Bool}
    (h : refreshEdge env s cm hbMsg = (s', res)) :
    ((∃ e, res = .error e) ∧ s' = s) ∨
      ∃ ref, s.registry.member cm hbMsg.edgeMACAddr = some ref ∧
        hbMsg.msg.clearMachineId = (s.edges.cell ref).machineID ∧
        res = .ok (addressChanged (s.edges.cell ref) hbMsg) ∧
        s' = s.withRecord ref (refreshed env (s.edges.cell ref) hbMsg) := by
  unfold refreshEdge at h
  cases hlook : (s.cms.cell cm).edges.lookup hbMsg.edgeMACAddr with
  | none =>
    simp only [hlook, Prod.mk.injEq] at h
    obtain ⟨rfl, rfl⟩ := h
    exact Or.inl ⟨⟨_, rfl⟩, rfl⟩
  | some ref =>
    simp only [hlook] at h
    split at h
    · cases h
      exact Or.inl ⟨⟨_, rfl⟩, rfl⟩
    · next hid =>
      cases h
      exact Or.inr ⟨ref, hlook, not_not.mp hid, rfl, rfl⟩

end Sections

end N2nGo.Supernode
