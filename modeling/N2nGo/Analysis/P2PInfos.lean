import N2nGo.Analysis.Agreement

/-!
# P2P infos and cached infos

A community keeps the P2P infos that its members report, and the supernode remembers the
edges it has seen, members and former members, by their MAC. `Consistent` relates the two
for one community. Each critical section that writes them keeps the relation; a removal
has two such sections, and in between its edge is `leaving`. When events are handled one
after the other nobody is ever seen leaving (`infosAgree_of_reachable`).
-/

set_option autoImplicit false

namespace N2nGo.Supernode

open N2nGo.Lib N2nGo.Protocol N2nGo.Messages

/-! ## The tables of one community -/

/-- The edge is cached as a former member of the community. -/
def OfflineIn (s : Supernode) (cm : CommunityRef) (mac : Bytes) : Prop :=
  ∃ info, s.edgeCachedInfos.lookup mac = some info ∧ info.community = (s.cms.cell cm).name ∧
    info.isRegistered = false

/-- Cached infos are filed under their MAC. -/
def CachedByMAC (s : Supernode) : Prop :=
  ∀ mac info, s.edgeCachedInfos.lookup mac = some info → info.macAddr = mac

/-- Infos are those of members and of edges that are `leaving`, and no member is cached as
offline. -/
structure Consistent (s : Supernode) (cm : CommunityRef) (leaving : Bytes → Prop) : Prop where
  reported : ∀ mac ∈ (s.cms.cell cm).communityPeerP2PInfos,
    mac ∈ (s.cms.cell cm).edges ∨ leaving mac
  online : ∀ mac ∈ (s.cms.cell cm).edges, ¬ OfflineIn s cm mac

variable {regMsg : Message RegisterRequest} {res : Except Err EdgeRef}

section Sections

variable {P : Platform} {env : Env} {s s' : Supernode} {cm cm' : CommunityRef} {mac : Bytes}
  {leaving leaving' : Bytes → Prop}

theorem Consistent.mono (h : Consistent s cm leaving) (hl : ∀ mac, leaving mac → leaving' mac) :
    Consistent s cm leaving' :=
  ⟨fun mac hmac => (h.reported mac hmac).imp id (hl mac), h.online⟩

theorem Consistent.of_same (h : Consistent s cm leaving)
    (hcell : s'.cms.cell cm = s.cms.cell cm) (hcached : s'.edgeCachedInfos = s.edgeCachedInfos) :
    Consistent s' cm leaving := by
  refine ⟨?_, ?_⟩
  · rw [hcell]
    exact h.reported
  · unfold OfflineIn
    rw [hcell, hcached]
    exact h.online

theorem cell_writeP2PInfos (infos : PeerP2PInfos) : (s.writeP2PInfos cm mac infos).cms.cell cm =
    { s.cms.cell cm with
      communityPeerP2PInfos := (s.cms.cell cm).communityPeerP2PInfos.insert mac infos } :=
  Heap.cell_store_self ..

theorem cell_eraseP2PInfos : (s.eraseP2PInfos cm mac).cms.cell cm =
    { s.cms.cell cm with
      communityPeerP2PInfos := (s.cms.cell cm).communityPeerP2PInfos.erase mac } :=
  Heap.cell_store_self ..

theorem Consistent.write (h : Consistent s cm leaving) (infos : PeerP2PInfos)
    (hmac : mac ∈ (s.cms.cell cm).edges ∨ leaving mac) :
    Consistent (s.writeP2PInfos cm mac infos) cm leaving := by
  refine ⟨fun mac' hmac' => ?_, ?_⟩
  · rw [cell_writeP2PInfos] at hmac' ⊢
    rcases AList.mem_insert _ |>.mp hmac' with rfl | hold
    · exact hmac
    · exact h.reported mac' hold
  · unfold OfflineIn
    rw [cell_writeP2PInfos]
    exact h.online

theorem Consistent.erase (h : Consistent s cm fun mac' => leaving mac' ∨ mac' = mac) :
    Consistent (s.eraseP2PInfos cm mac) cm leaving := by
  refine ⟨fun mac' hmac' => ?_, ?_⟩
  · rw [cell_eraseP2PInfos] at hmac' ⊢
    obtain ⟨hne, hold⟩ := AList.mem_erase.mp hmac'
    rcases h.reported mac' hold with hmember | hleaving | rfl
    · exact Or.inl hmember
    · exact Or.inr hleaving
    · exact absurd rfl hne
  · unfold OfflineIn
    rw [cell_eraseP2PInfos]
    exact h.online

/-! A registration and a removal file new infos under the MAC and replace the members. -/

section Change

variable {info : EdgeCachedInfos} {edges : Table Bytes EdgeRef}
  (hcms : s'.cms = s.cms.store cm' { s.cms.cell cm' with edges := edges })
  (hcached : s'.edgeCachedInfos = s.edgeCachedInfos.insert mac info)

include hcached in
theorem CachedByMAC.insert (h : CachedByMAC s) (hinfo : info.macAddr = mac) : CachedByMAC s' := by
  intro mac' info' hlook
  rw [hcached, Table.lookup_insert_if] at hlook
  split at hlook
  · next heq =>
    cases hlook
    exact hinfo.trans heq.symm
  · exact h mac' info' hlook

include hcms hcached in
theorem not_offlineIn_of_insert {mac' : Bytes}
    (hsame : mac' = mac → info.community = (s.cms.cell cm).name → info.isRegistered = true)
    (hother : mac' ≠ mac → ¬ OfflineIn s cm mac') : ¬ OfflineIn s' cm mac' := by
  have hname : (s'.cms.cell cm).name = (s.cms.cell cm).name := by
    rw [hcms]
    exact congrFun (name_store s (c := { s.cms.cell cm' with edges := edges }) rfl) cm
  rintro ⟨info', hlook, hcommunity, hreg⟩
  rw [hcached, Table.lookup_insert_if] at hlook
  rw [hname] at hcommunity
  split at hlook
  · next heq =>
    cases hlook
    rw [hsame heq hcommunity] at hreg
    cases hreg
  · next hne => exact hother hne ⟨info', hlook, hcommunity, hreg⟩

include hcms hcached in
theorem Consistent.of_ne (h : Consistent s cm leaving) (hcm : cm ≠ cm')
    (hother : info.community = (s.cms.cell cm).name → info.isRegistered = true) :
    Consistent s' cm leaving := by
  have hcell : s'.cms.cell cm = s.cms.cell cm := by
    rw [hcms, Heap.cell_store, if_neg hcm]
  refine ⟨?_, fun mac' hmac' => ?_⟩
  · rw [hcell]
    exact h.reported
  · rw [hcell] at hmac'
    exact not_offlineIn_of_insert hcms hcached (fun _ => hother) fun _ => h.online mac' hmac'

end Change

theorem Consistent.edgeUpdate (h : Consistent s cm leaving)
    (hup : edgeUpdate P env s cm' regMsg = (s', res)) : Consistent s' cm leaving := by
  cases edgeUpdate_updated hup with
  | noLease e _ _ => exact h.of_same rfl rfl
  | mismatch e => exact h
  | rejoined _ => exact h.of_same rfl rfl
  | @joined nvip vip _ _ _ =>
    let edge := newEdge env (s.cms.cell cm') regMsg vip
    generalize hs' : (s.withLease P env cm' regMsg.edgeMACAddr).withMember env cm' edge = s'
    have hcms : s'.cms = s.cms.store cm' { s.cms.cell cm' with
        edges := (s.cms.cell cm').edges.insert edge.macAddr s.edges.next } := by
      rw [← hs']
      rfl
    have hcached : s'.edgeCachedInfos = s.edgeCachedInfos.insert edge.macAddr
        ⟨edge.macAddr, edge.desc, (s.cms.cell cm').name, true, env.now, edge.virtualIP⟩ := by
      rw [← hs']
      rfl
    by_cases hcm : cm = cm'
    · subst hcm
      have hcell : s'.cms.cell cm = { s.cms.cell cm with
          edges := (s.cms.cell cm).edges.insert edge.macAddr s.edges.next } := by
        rw [hcms, Heap.cell_store_self]
      refine ⟨fun mac hmac => ?_, fun mac hmac => ?_⟩
      · rw [hcell] at hmac ⊢
        exact (h.reported mac hmac).imp (fun hold => (AList.mem_insert _).mpr (Or.inr hold)) id
      · rw [hcell] at hmac
        exact not_offlineIn_of_insert hcms hcached (fun _ _ => rfl) fun hne =>
          h.online mac (((AList.mem_insert _).mp hmac).resolve_left hne)
    · exact h.of_ne hcms hcached hcm fun _ => rfl

/-- A registration reports nothing.
GOLINE: supernode/community.go:258-326 -/
theorem infos_edgeUpdate (hup : edgeUpdate P env s cm' regMsg = (s', res)) :
    (s'.cms.cell cm).communityPeerP2PInfos = (s.cms.cell cm).communityPeerP2PInfos := by
  cases edgeUpdate_updated hup with
  | noLease e _ _ => rfl
  | mismatch e => rfl
  | rejoined _ => rfl
  | joined _ _ _ =>
    show ((s.cms.store cm' _).cell cm).communityPeerP2PInfos = _
    rw [Heap.cell_store]
    split
    · next heq =>
      rw [heq]
      rfl
    · rfl

theorem CachedByMAC.edgeUpdate (h : CachedByMAC s) (hup : edgeUpdate P env s cm regMsg = (s', res)) :
    CachedByMAC s' := by
  cases edgeUpdate_updated hup with
  | noLease e _ _ => exact h
  | mismatch e => exact h
  | rejoined _ => exact h
  | joined _ _ _ => exact h.insert rfl rfl

theorem removeEdge_eq_some (h : removeEdge env s cm mac = some s') :
    s'.cms = s.cms.store cm { s.cms.cell cm with edges := (s.cms.cell cm).edges.erase mac } ∧
      ∃ info, s'.edgeCachedInfos = s.edgeCachedInfos.insert mac info ∧ info.macAddr = mac ∧
        info.community = (s.cms.cell cm).name ∧ info.isRegistered = false := by
  unfold removeEdge at h
  simp only at h
  split at h
  · cases h
  · cases h
    exact ⟨rfl, _, rfl, rfl, rfl, rfl⟩

theorem Consistent.removeEdge (h : Consistent s cm leaving)
    (hremove : removeEdge env s cm mac = some s') :
    Consistent s' cm fun mac' => leaving mac' ∨ mac' = mac := by
  obtain ⟨hcms, info, hcached, -, -⟩ := removeEdge_eq_some hremove
  have hcell : s'.cms.cell cm =
      { s.cms.cell cm with edges := (s.cms.cell cm).edges.erase mac } := by
    rw [hcms, Heap.cell_store_self]
  refine ⟨fun mac' hmac' => ?_, fun mac' hmac' => ?_⟩
  · rw [hcell] at hmac' ⊢
    by_cases heq : mac' = mac
    · exact Or.inr (Or.inr heq)
    · exact (h.reported mac' hmac').imp (fun hold => AList.mem_erase.mpr ⟨heq, hold⟩) Or.inl
  · rw [hcell] at hmac'
    obtain ⟨hne, hold⟩ := AList.mem_erase.mp hmac'
    exact not_offlineIn_of_insert hcms hcached (fun heq => absurd heq hne) fun _ =>
      h.online mac' hold

theorem unregister_eq_true (h : unregister env s cm mac = (s', true)) :
    ∃ s1, Supernode.removeEdge env s cm mac = some s1 ∧ s' = s1.eraseP2PInfos cm mac := by
  unfold unregister at h
  simp only at h
  split at h
  · cases h
  · next ref hlook =>
    cases h
    refine ⟨_, by rw [Supernode.removeEdge, hlook], ?_⟩
    unfold eraseP2PInfos
    simp only [Heap.cell_store_self]
    congr 1
    simp [setEdgeCachedInfo, Heap.store]

theorem CachedByMAC.unregister (h : CachedByMAC s)
    (hun : unregister env s cm mac = (s', true)) : CachedByMAC s' := by
  obtain ⟨s1, hremove, rfl⟩ := unregister_eq_true hun
  obtain ⟨-, info, hcached, hinfo, -⟩ := removeEdge_eq_some hremove
  exact (h.insert hcached hinfo : CachedByMAC s1)

theorem Consistent.unregister (h : Consistent s cm leaving)
    (hname : cm ≠ cm' → (s.cms.cell cm').name ≠ (s.cms.cell cm).name)
    (hun : unregister env s cm' mac = (s', true)) : Consistent s' cm leaving := by
  obtain ⟨s1, hremove, rfl⟩ := unregister_eq_true hun
  by_cases hcm : cm = cm'
  · subst hcm
    exact (h.removeEdge hremove).erase
  · obtain ⟨hcms, info, hcached, -, hcommunity, -⟩ := removeEdge_eq_some hremove
    have h1 : Consistent s1 cm leaving := h.of_ne hcms hcached hcm fun heq =>
      absurd (hcommunity.symm.trans heq) (hname hcm)
    refine h1.of_same ?_ rfl
    show (s1.cms.store cm' _).cell cm = _
    rw [Heap.cell_store, if_neg hcm]

end Sections

/-! ## Runs of one event after the other -/

section Events

variable {P : Platform} {env : Env} {s s' : Supernode} {r : RawMessage} {out : List Sent}
  {err : Except Err Unit}

/-- Every community in the table is consistent, with nobody leaving. -/
structure InfosAgree (s : Supernode) : Prop where
  cached : CachedByMAC s
  known : ∀ hash cm, s.communities.lookup hash = some cm → Consistent s cm fun _ => False

theorem InfosAgree.of_same (h : InfosAgree s) (hcommunities : s'.communities = s.communities)
    (hcms : s'.cms = s.cms) (hcached : s'.edgeCachedInfos = s.edgeCachedInfos) : InfosAgree s' := by
  refine ⟨?_, fun hash cm hcm => ?_⟩
  · unfold CachedByMAC
    rw [hcached]
    exact h.cached
  · rw [hcommunities] at hcm
    exact (h.known hash cm hcm).of_same (by rw [hcms]) hcached

theorem InfosAgree.count (h : InfosAgree s) (f : SupernodeStats → SupernodeStats) :
    InfosAgree (s.count f) := h.of_same rfl rfl rfl

theorem name_ne_of_known (v : s.registry.Valid hashCommunity) {hash hash' : UInt32}
    {cm cm' : CommunityRef} (hcm : s.communities.lookup hash = some cm)
    (hcm' : s.communities.lookup hash' = some cm') (hne : cm ≠ cm') :
    (s.cms.cell cm').name ≠ (s.cms.cell cm).name := by
  intro hname
  have hhash : hash = hash' := by
    rw [← v.group_hash (show s.registry.group hash = some cm from hcm),
      ← v.group_hash (show s.registry.group hash' = some cm' from hcm')]
    exact congrArg hashCommunity hname.symm
  subst hhash
  exact hne (Option.some.inj (hcm.symm.trans hcm'))

section

variable (h : InfosAgree s)
include h

theorem InfosAgree.registerCommunity (v : s.registry.Valid hashCommunity) {name : Bytes}
    {hash : UInt32} {res : Except Err CommunityRef}
    (hreg : registerCommunity P s name hash = .ok (s', res)) : InfosAgree s' := by
  cases registerCommunity_found hreg with
  | failed e => exact h
  | existing _ _ _ => exact h
  | @created subnet s1 ips _ _ _ hpool =>
    have h1 : InfosAgree s1 := by
      rcases poolFor_eq_some hpool with ⟨rfl, -⟩ | ⟨pool, -, -, -, rfl⟩
      · exact h
      · exact h.of_same rfl rfl rfl
    have hlt : ∀ hash' cm, s1.communities.lookup hash' = some cm → cm < s1.cms.next := by
      intro hash' cm hcm
      have v1 : s1.registry.Valid hashCommunity := by rw [registry_poolFor hpool]; exact v
      exact v1.group_lt hcm
    refine ⟨h1.cached, fun hash' cm hcm => ?_⟩
    have hlook : (s1.communities.insert hash s1.cms.next).lookup hash' = some cm := hcm
    rw [Table.lookup_insert_if] at hlook
    split at hlook
    · cases hlook
      have hcell : (s1.withCommunity hash (newCommunity name subnet ips)).cms.cell s1.cms.next =
          newCommunity name subnet ips := by
        show (s1.cms.alloc _).cell _ = _
        rw [Heap.cell_alloc, if_pos rfl]
      refine ⟨fun mac hmac => ?_, fun mac hmac => ?_⟩
      · rw [hcell] at hmac
        exact absurd hmac (AList.notMem_empty _)
      · rw [hcell] at hmac
        exact absurd hmac (AList.notMem_empty _)
    · refine (h1.known hash' cm hlook).of_same ?_ rfl
      show (s1.cms.alloc _).cell cm = _
      rw [Heap.cell_alloc, if_neg (Nat.ne_of_lt (hlt hash' cm hlook))]

theorem InfosAgree.edgeUpdate {cm : CommunityRef} (hup : edgeUpdate P env s cm regMsg = (s', res)) :
    InfosAgree s' := by
  have hgroup : s'.communities = s.communities := by
    cases edgeUpdate_updated hup <;> rfl
  refine ⟨h.cached.edgeUpdate hup, fun hash cm' hcm' => ?_⟩
  rw [hgroup] at hcm'
  exact (h.known hash cm' hcm').edgeUpdate hup

theorem InfosAgree.registerEdge (v : s.registry.Valid hashCommunity) {reg : Message RegisterRequest}
    {res : Except Err (EdgeRef × CommunityRef)} (hreg : registerEdge P env s reg = .ok (s', res)) :
    InfosAgree s' := by
  cases registerEdge_registered hreg with
  | invalid e => exact h
  | noCommunity hcommunity => exact h.registerCommunity v hcommunity
  | noEdge _ hcommunity hup => exact (h.registerCommunity v hcommunity).edgeUpdate hup
  | edge f _ hcommunity hup => exact ((h.registerCommunity v hcommunity).edgeUpdate hup).count f

theorem InfosAgree.unregister (v : s.registry.Valid hashCommunity) {cm : CommunityRef}
    (hknown : ∃ hash, s.communities.lookup hash = some cm) {mac : Bytes}
    (hun : unregister env s cm mac = (s', true)) : InfosAgree s' := by
  have hgroup : ∀ hash, s'.communities.lookup hash = s.communities.lookup hash :=
    fun hash => congrFun (congrArg Registry.group (unregister_true hun).2) hash
  obtain ⟨hash', hcm⟩ := hknown
  refine ⟨h.cached.unregister hun, fun hash cm' hcm' => ?_⟩
  rw [hgroup] at hcm'
  exact (h.known hash cm' hcm').unregister (fun hne => name_ne_of_known v hcm' hcm hne) hun

theorem InfosAgree.unindexEdge {mac : Bytes} {pil : PeerInfoList}
    (hunindex : s.unindexEdge mac = .ok (s', pil)) : InfosAgree s' := by
  obtain ⟨⟨ref, href⟩, -⟩ := unindexEdge_ok hunindex
  rw [unindexEdge_eq href] at hunindex
  cases hunindex
  exact h.of_same rfl rfl rfl

theorem InfosAgree.idle (hidle : Idle s s') : InfosAgree s' := by
  cases hidle with
  | count f => exact h.count f
  | @report cm mac ref infos hmember =>
    refine ⟨h.cached, fun hash cm' hcm' => ?_⟩
    have h' := h.known hash cm' hcm'
    by_cases hcm : cm' = cm
    · subst hcm
      exact h'.write infos (Or.inl (Table.mem_of_lookup hmember))
    · refine h'.of_same ?_ rfl
      show (s.cms.store cm _).cell cm' = _
      rw [Heap.cell_store, if_neg hcm]

theorem InfosAgree.handled (v : s.registry.Valid hashCommunity)
    (hhandled : Handled P env s r s' out err) : InfosAgree s' := by
  cases hhandled with
  | idle hidle _ => exact h.idle hidle
  | refused f _ hreg _ => exact (h.registerEdge v hreg).count f
  | registered f _ hreg hs2 _ =>
    rw [hs2]
    refine ((h.registerEdge v hreg).of_same ?_ ?_ ?_).count f <;> cases r.fromAddr <;> rfl
  | refreshed f _ _ _ _ => exact h.of_same rfl rfl rfl
  | removed f _ _ hgroup hun hunindex =>
    exact ((h.unregister v ⟨_, hgroup⟩ hun).unindexEdge hunindex).count f

theorem infosAgree_step (v : s.registry.Valid hashCommunity) {ev : Event}
    (hstep : step P s ev = .ok (s', out)) : InfosAgree s' := by
  cases ev with
  | packet env packet addr =>
    rcases processPacket_ok hstep with rfl | ⟨r, out1, err, -, hhandled, -⟩
    · exact h.count _
    · exact (h.count _).handled v hhandled
  | cleanup env =>
    obtain ⟨⟨s1, out1⟩, hloop, hstep⟩ := bind_eq_ok.mp hstep
    cases hstep
    obtain ⟨-, -, hagree⟩ := cleanupLoop_induction
      (I := fun s1 _ => s1.registry.Valid hashCommunity ∧ s1.registry.group = s.registry.group ∧
        InfosAgree s1)
      (fun s1 s2 s3 _ cm mac _ f hmem ⟨v1, hgroup, h1⟩ hun hunindex => by
        have hknown : ∃ hash, s1.registry.group hash = some cm := by
          rw [hgroup]
          exact group_of_mem_staleEdges hmem
        obtain ⟨⟨ref, hmember⟩, hindexed, hleave⟩ := registry_removed hun hunindex
        have hen : s1.registry.Enabled hashCommunity (.leave cm mac) :=
          ⟨⟨ref, hknown, hmember⟩, hindexed⟩
        refine ⟨?_, ?_, ((h1.unregister v1 hknown hun).unindexEdge hunindex).count f⟩
        · rw [registry_count, hleave]
          exact v1.apply hen
        · rw [registry_count, hleave]
          exact (Registry.group_unindex (m := s1.registry.expel cm mac)).trans hgroup)
      hloop ⟨v, rfl, h⟩
    exact hagree.count _
  | connect connID conn =>
    cases hstep
    exact h.of_same rfl rfl rfl
  | disconnect connID =>
    cases hstep
    exact h.of_same rfl rfl rfl

end

/-- **In every reachable state** only members have infos and no member is cached as offline. -/
theorem infosAgree_of_reachable (h : Reachable P s) : InfosAgree s := by
  have hinv : s.registry.Valid hashCommunity ∧ InfosAgree s :=
    Reach.invariant (I := fun s => s.registry.Valid hashCommunity ∧ InfosAgree s)
      (fun s0 h0 => by
        refine ⟨valid_initial h0, ?_⟩
        obtain ⟨config, netAllocator, pem, noCommunity, noEdge, noPool, rfl⟩ := h0
        constructor
        · intro mac info hinfo
          cases hinfo
        · intro hash cm hcm
          cases hcm)
      (fun _ _ _ _ hI _ hstep => by
        obtain ⟨ops, hrun, -⟩ := step_registry hI.1 hstep
        exact ⟨hI.1.run hrun, infosAgree_step hI.2 hI.1 hstep⟩) h
  exact hinv.2

end Events

/-! ## Full states -/

/-- No MAC is both reachable and unreachable. -/
def Separate (state : P2PFullState) : Prop :=
  ∀ reachables unreachables, state.reachables = some reachables →
    state.unreachables = some unreachables → ∀ mac ∈ reachables, mac ∉ unreachables

section FullStates

variable {env : Env} {s : Supernode} {cm : CommunityRef}

theorem mem_getOfflineCachedEdges (hcached : CachedByMAC s) {mac : Bytes} :
    mac ∈ getOfflineCachedEdges env s cm ↔ OfflineIn s cm mac := by
  let keep (offlineEdges : Table Bytes PeerCachedInfo) (e : Sigma fun _ : Bytes => EdgeCachedInfos) :
      Table Bytes PeerCachedInfo :=
    if e.2.community ≠ (s.cms.cell cm).name ∨ e.2.isRegistered then offlineEdges
    else offlineEdges.insert e.2.macAddr ⟨e.2.desc, e.2.macAddr, e.2.virtualIP.string,
      (s.cms.cell cm).name, env.now - e.2.updatedAt⟩
  let offline (e : Sigma fun _ : Bytes => EdgeCachedInfos) : Prop :=
    e.2.macAddr = mac ∧ e.2.community = (s.cms.cell cm).name ∧ e.2.isRegistered = false
  have hkeep : ∀ acc e, mac ∈ keep acc e ↔ mac ∈ acc ∨ offline e := by
    intro acc e
    simp only [keep, offline]
    split
    · next hskip =>
      rcases hskip with hname | hreg
      · simp [hname]
      · simp [hreg]
    · next hkept =>
      obtain ⟨hname, hreg⟩ := not_or.mp hkept
      rw [AList.mem_insert]
      simp [not_not.mp hname, hreg, eq_comm, or_comm]
  -- along the loop: the keys are those of the entries that have been visited
  have hloop : ∀ (entries : List (Sigma fun _ : Bytes => EdgeCachedInfos)) acc,
      mac ∈ entries.foldl keep acc ↔ mac ∈ acc ∨ ∃ e ∈ entries, offline e := by
    intro entries
    induction entries with
    | nil => simp
    | cons e entries ih =>
      intro acc
      rw [List.foldl_cons, ih, hkeep, List.exists_mem_cons_iff, or_assoc]
  have hlist : mac ∈ getOfflineCachedEdges env s cm ↔
      ∃ e ∈ s.edgeCachedInfos.entries, offline e := by
    refine (hloop _ ∅).trans (or_iff_right (AList.notMem_empty _))
  rw [hlist]
  constructor
  · rintro ⟨⟨key, info⟩, he, rfl, hcommunity, hreg⟩
    have hlook := Table.lookup_eq_some_iff.mpr he
    rw [← hcached key info hlook] at hlook
    exact ⟨info, hlook, hcommunity, hreg⟩
  · rintro ⟨info, hlook, hcommunity, hreg⟩
    exact ⟨⟨mac, info⟩, Table.lookup_eq_some_iff.mp hlook, hcached mac info hlook, hcommunity, hreg⟩

theorem separate_read_iff {state : HeldFullState} : Separate (state.read s cm) ↔
    ∀ mac ∈ (s.cms.cell cm).communityPeerP2PInfos, mac ∉ state.unreachables := by
  constructor
  · exact fun h => h _ _ rfl rfl
  · rintro h reachables unreachables hr hu
    cases hr
    cases hu
    exact h

/-- A full state is right when it is built.
GOLINE: supernode/community.go:151-162 -/
theorem separate_buildP2PFullState (h : Consistent s cm fun _ => False) (hcached : CachedByMAC s) :
    Separate ((buildP2PFullState env s cm).read s cm) := by
  refine separate_read_iff.mpr fun mac hmac hoffline => ?_
  rcases h.reported mac hmac with hmember | hleaving
  · exact h.online mac hmember ((mem_getOfflineCachedEdges hcached).mp hoffline)
  · exact hleaving

end FullStates

end N2nGo.Supernode
