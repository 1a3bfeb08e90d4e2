import N2nGo.Analysis.Agreement

/-!
# Who may change a record

A registration and a removal prove who they come from by a machine ID whose MAC, together
with a community name, is the sender's; a heartbeat is compared with the machine ID in the
record. The MAC of a record is that of its own machine ID and community
(`genuine_of_reach`), so the first two are bound to the record unless another pair has the
same MAC. That other pair is easy to find, because the two parts are joined without a
separator, and a removal need not name the community it removes from.
-/

set_option autoImplicit false

namespace N2nGo.Supernode

open N2nGo.Lib N2nGo.Protocol N2nGo.Messages

/-- The MAC, as text, that a machine may claim in the community. -/
def claimableMAC (communityName machineID : Bytes) : Bytes :=
  Net.hardwareAddrString (Machine.extGenerateMacFor communityName machineID).bytes

/-- The message carries this community name and, encrypted, this machine ID, and its handler
checks them against the sender's MAC. -/
inductive Carries (P : Platform) (r : RawMessage) : Bytes → Bytes → Prop where
  | register {reg : Message RegisterRequest} {id : Bytes} :
      toMessage P.codecs.registerRequest r = .ok reg →
      decryptMachineID P reg.msg.encryptedMachineId = .ok id → Carries P r reg.msg.communityName id
  | unregister {unReg : Message UnregisterRequest} {id : Bytes} :
      toMessage P.codecs.unregisterRequest r = .ok unReg →
      decryptMachineID P unReg.msg.encryptedMachineId = .ok id →
      Carries P r unReg.msg.communityName id

/-- The message is a heartbeat with this machine ID. -/
def Pulses (P : Platform) (r : RawMessage) (id : Bytes) : Prop :=
  ∃ pulse, toMessage P.codecs.heartbeatPulse r = .ok pulse ∧
    decryptMachineID P pulse.msg.encryptedMachineId = .ok id

/-- The event is not a registration or a removal whose machine ID and community name differ
from those of the member it addresses and have the same MAC. -/
def NoSharedMAC (P : Platform) (s : Supernode) (ev : Event) : Prop :=
  ∀ env packet addr r name id cm ref, ev = .packet env packet addr →
    newRawMessage packet addr = .ok (.ok r) → Carries P r name id →
    s.communities.lookup r.communityHash = some cm →
    (s.cms.cell cm).edges.lookup r.edgeMACAddr = some ref →
    Machine.extGenerateMacFor name id =
      Machine.extGenerateMacFor (s.cms.cell cm).name (s.edges.cell ref).machineID →
    name = (s.cms.cell cm).name ∧ id = (s.edges.cell ref).machineID

variable {P : Platform} {env : Env} {s s' : Supernode} {r : RawMessage} {ev : Event}
  {out : List Sent} {err : Except Err Unit}

variable {name : Bytes}

theorem validateEdgeClaimedMACAddr_ok {mac enc id : Bytes}
    (h : validateEdgeClaimedMACAddr P mac enc name = .ok id) :
    decryptMachineID P enc = .ok id ∧ claimableMAC name id = mac := by
  unfold validateEdgeClaimedMACAddr at h
  cases hdec : decryptMachineID P enc with
  | error e =>
    rw [hdec] at h
    cases h
  | ok id' =>
    rw [hdec] at h
    simp only at h
    split at h
    · cases h
    · next hmac =>
      cases h
      exact ⟨rfl, not_not.mp hmac⟩

/-! ## The identity in a record -/

/-- The MAC of the record is the one its machine ID may claim in its community. -/
def Genuine (edge : Edge) : Prop := edge.macAddr = claimableMAC edge.community edge.machineID

/-- The MAC, the machine ID and the community are the same. -/
structure SameIdentity (edge edge' : Edge) : Prop where
  macAddr : edge'.macAddr = edge.macAddr
  machineID : edge'.machineID = edge.machineID
  community : edge'.community = edge.community

theorem SameIdentity.refl (edge : Edge) : SameIdentity edge edge := ⟨rfl, rfl, rfl⟩

theorem SameIdentity.trans (a b c : Edge) (h : SameIdentity a b) (h' : SameIdentity b c) :
    SameIdentity a c :=
  ⟨h'.macAddr.trans h.macAddr, h'.machineID.trans h.machineID, h'.community.trans h.community⟩

theorem SameIdentity.genuine (a b : Edge) (ha : Genuine a) (h : SameIdentity a b) : Genuine b := by
  unfold Genuine
  rw [h.macAddr, h.community, h.machineID]
  exact ha

theorem sameIdentity_withConn (addr : NetAddr) (edge : Edge) :
    SameIdentity edge (withConn addr edge) := by
  cases addr <;> exact ⟨rfl, rfl, rfl⟩

/-- No record has changed its identity, and new records are genuine. -/
def Kept (s s' : Supernode) : Prop := s.edges.Extends SameIdentity Genuine s'.edges

theorem Kept.trans {s1 : Supernode} (h : Kept s s1) (h' : Kept s1 s') : Kept s s' :=
  Heap.Extends.trans SameIdentity.trans SameIdentity.genuine h h'

theorem kept_of_records {m : Registry UInt32 Bytes Bytes Bytes Edge} (h : s'.registry = m)
    (hrec : m.record = s.registry.record) (hnext : m.records = s.registry.records) : Kept s s' := by
  subst h
  have hedges : s'.edges = s.edges := Heap.ext hrec hnext
  unfold Kept
  rw [hedges]
  exact .refl .refl _

variable {cm : CommunityRef}

theorem kept_of_enroll {edge : Edge} (hg : Genuine edge)
    (h : s'.registry = s.registry.enroll cm edge) : Kept s s' := by
  have hedges : s'.edges = s.edges.alloc edge :=
    Heap.ext (congrArg Registry.record h) (congrArg Registry.records h)
  unfold Kept
  rw [hedges]
  exact .alloc .refl hg

theorem kept_of_write {ref : EdgeRef} {edge : Edge} (hsame : SameIdentity (s.edges.cell ref) edge)
    (h : s'.registry = s.registry.write ref edge) : Kept s s' := by
  have hedges : s'.edges = s.edges.store ref edge :=
    Heap.ext (congrArg Registry.record h) (congrArg Registry.records h)
  unfold Kept
  rw [hedges]
  exact .store .refl hsame

theorem kept_registerCommunity {hash : UInt32} {res : Except Err CommunityRef}
    (h : registerCommunity P s name hash = .ok (s', res)) : Kept s s' := by
  rcases registerCommunity_ok h with ⟨-, hsame⟩ | ⟨cm, -, -, ⟨rfl, -⟩ | ⟨-, -, hcreate⟩⟩
  · exact kept_of_records hsame rfl rfl
  · exact kept_of_records rfl rfl rfl
  · exact kept_of_records hcreate rfl rfl

theorem name_registerCommunity {hash : UInt32}
    (h : registerCommunity P s name hash = .ok (s', .ok cm)) : (s'.cms.cell cm).name = name := by
  rcases registerCommunity_ok h with ⟨⟨e, he⟩, -⟩ | ⟨cm', hcm', -, hfound⟩
  · cases he
  cases hcm'
  rcases hfound with ⟨rfl, -, hname⟩ | ⟨-, rfl, hcreate⟩
  · exact hname
  · show s'.registry.name s.registry.groups = name
    rw [hcreate]
    simp [Registry.create]

/-- A new record is genuine because its MAC has just been checked. -/
theorem kept_registerEdge {reg : Message RegisterRequest} {res : Except Err (EdgeRef × CommunityRef)}
    (h : registerEdge P env s reg = .ok (s', res)) : Kept s s' := by
  rcases registerEdge_ok h with ⟨-, hsame⟩ | ⟨cm, s0, hcommunity, hcases⟩
  · exact kept_of_records hsame rfl rfl
  refine (kept_registerCommunity hcommunity).trans ?_
  rcases hcases with ⟨-, hsame⟩ | ⟨id, hval, ⟨vip, -, -, henroll⟩ | ⟨ref, -, -, hwrite⟩⟩
  · exact kept_of_records hsame rfl rfl
  · refine kept_of_enroll ?_ henroll
    show reg.edgeMACAddr = claimableMAC (s0.cms.cell cm).name id
    rw [name_registerCommunity hcommunity, (validateEdgeClaimedMACAddr_ok hval).2]
  · have hsame : SameIdentity (s0.edges.cell ref) (reRegistered env (s0.edges.cell ref) reg) :=
      ⟨rfl, rfl, rfl⟩
    exact kept_of_write hsame hwrite

theorem kept_indexed (s : Supernode) (ref : EdgeRef) (addr : NetAddr) :
    Kept s ((s.setWSSConnID ref addr).indexEdge ref) := by
  refine (kept_of_write (sameIdentity_withConn addr _) (registry_setWSSConnID s ref addr)).trans ?_
  exact kept_of_records (registry_indexEdge (s.setWSSConnID ref addr) ref) rfl rfl

theorem Handled.kept (h : Handled P env s r s' out err) : Kept s s' := by
  cases h with
  | idle hidle _ => exact kept_of_records hidle.registry_eq rfl rfl
  | refused f _ hreg _ => exact (kept_registerEdge hreg : Kept s _)
  | registered f _ hreg hs2 _ =>
    rw [hs2]
    exact (kept_registerEdge hreg).trans (kept_indexed ..)
  | @refreshed pulse cm ref f _ _ _ _ =>
    have hsame : SameIdentity (s.edges.cell ref)
        (Supernode.refreshed env (s.edges.cell ref) pulse) := ⟨rfl, rfl, rfl⟩
    exact kept_of_write hsame rfl
  | removed f _ _ _ hun hunindex =>
    obtain ⟨-, hexpel⟩ := unregister_true hun
    obtain ⟨-, hunindexed⟩ := unindexEdge_ok hunindex
    rw [hexpel] at hunindexed
    exact kept_of_records hunindexed Registry.record_unindex Registry.records_unindex

/-- **No event changes the identity in a record**, and the records it makes are genuine. -/
theorem kept_step (h : step P s ev = .ok (s', out)) : Kept s s' := by
  cases ev with
  | packet env packet addr =>
    rcases processPacket_ok h with rfl | ⟨r, out1, err, -, hhandled, -⟩
    · exact kept_of_records rfl rfl rfl
    · exact Kept.trans (kept_of_records rfl rfl rfl) hhandled.kept
  | cleanup env =>
    obtain ⟨⟨s1, out1⟩, hloop, h⟩ := bind_eq_ok.mp h
    cases h
    obtain ⟨ops, hrun, -, hops⟩ :=
      cleanupLoop_run hloop fun cm mac hmem => group_of_mem_staleEdges hmem
    obtain ⟨hrec, hnext⟩ := Registry.record_run_leave hrun fun op hop => by
      obtain ⟨cm, mac, -, rfl⟩ := hops op hop
      exact ⟨cm, mac, rfl⟩
    exact kept_of_records rfl hrec hnext
  | connect connID conn =>
    cases h
    exact kept_of_records rfl rfl rfl
  | disconnect connID =>
    cases h
    exact kept_of_records rfl rfl rfl

variable {adm : Supernode → Event → Prop}

theorem genuine_of_reach (h : Reach (step P) Initial adm s) {ref : EdgeRef}
    (href : ref < s.edges.next) : Genuine (s.edges.cell ref) := by
  have hinv : ∀ ref, ref < s.edges.next → Genuine (s.edges.cell ref) :=
    Reach.invariant (I := fun s => ∀ ref, ref < s.edges.next → Genuine (s.edges.cell ref))
      (fun _ h0 => by
        obtain ⟨config, netAllocator, pem, noCommunity, noEdge, noPool, rfl⟩ := h0
        exact fun ref href => absurd href (Nat.not_lt_zero _))
      (fun s1 _ s2 _ hI _ hstep ref href => by
        have hkept := kept_step hstep
        by_cases hold : ref < s1.edges.next
        · exact (hkept.old ref hold).genuine _ _ (hI ref hold)
        · exact hkept.fresh ref (Nat.not_lt.mp hold) href) h
  exact hinv ref href

theorem kept_of_reach {s0 : Supernode} (h : Reach (step P) (· = s0) adm s) : Kept s0 s :=
  Reach.invariant (I := Kept s0) (fun _ h0 => by subst h0; exact .refl .refl _)
    (fun _ _ _ _ hI _ hstep => hI.trans (kept_step hstep)) h

/-- **Members are who they are listed as.** In every reachable state a community is found under
the hash of its name, the record of a member has the MAC it is listed under, which is derived
from the machine ID in the record and the name of the community, and no record is listed twice.
GOLINE: supernode/registration.go:76-99, supernode/community.go:258-326 -/
theorem members_genuine (P : Platform) (s : Supernode) (h : Reachable P s) (hash : UInt32)
    (cm : CommunityRef) (mac : Bytes) (ref : EdgeRef) (hcm : s.communities.lookup hash = some cm)
    (hmember : (s.cms.cell cm).edges.lookup mac = some ref) :
    hashCommunity (s.cms.cell cm).name = hash ∧ (s.edges.cell ref).macAddr = mac ∧
      claimableMAC (s.cms.cell cm).name (s.edges.cell ref).machineID = mac ∧
      ∀ hash' cm' mac', s.communities.lookup hash' = some cm' →
        (s.cms.cell cm').edges.lookup mac' = some ref → hash' = hash ∧ mac' = mac := by
  have v := h.valid
  have hlisted : s.registry.Listed cm mac ref := ⟨⟨hash, hcm⟩, hmember⟩
  have hgenuine : Genuine (s.edges.cell ref) := genuine_of_reach h (v.listed_lt hlisted)
  have hkey : (s.edges.cell ref).macAddr = mac := v.listed_key hlisted
  have hhome : (s.edges.cell ref).community = (s.cms.cell cm).name := v.listed_home hlisted
  refine ⟨v.group_hash hcm, hkey, by rw [← hhome, ← hgenuine, hkey], ?_⟩
  intro hash' cm' mac' hcm' hmember'
  obtain ⟨rfl, rfl⟩ := v.listed_inj ⟨⟨hash', hcm'⟩, hmember'⟩ hlisted
  exact ⟨v.group_inj hcm' hcm, rfl⟩

theorem members_genuine_two_communities :
    ∃ s, Reachable Sample.platform s ∧
      claimableMAC (s.cms.cell 0).name (s.edges.cell 0).machineID = macText "c" "m" ∧
      claimableMAC (s.cms.cell 1).name (s.edges.cell 1).machineID = macText "d" "n" := by
  obtain ⟨s, hrun, hs⟩ := exists_of_passes
    (x := runEvents (step Sample.platform) Sample.start [registers "c" "m" 1, registers "d" "n" 2])
    (p := fun s => decide (s.communities.lookup (hashCommunity (ascii "c")) = some 0 ∧
      (s.cms.cell 0).edges.lookup (macText "c" "m") = some 0 ∧
      s.communities.lookup (hashCommunity (ascii "d")) = some 1 ∧
      (s.cms.cell 1).edges.lookup (macText "d" "n") = some 1)) (by decide +kernel)
  obtain ⟨hc, hm, hd, hn⟩ := of_decide_eq_true hs
  have hreach : Reachable Sample.platform s := Sample.reachable_start.of_runEvents hrun
  exact ⟨s, hreach, (members_genuine Sample.platform s hreach _ 0 _ 0 hc hm).2.2.1,
    (members_genuine Sample.platform s hreach _ 1 _ 1 hd hn).2.2.1⟩

/-! ## Changes are bound to the identity -/

theorem requested_of_changed (v : s.registry.Valid hashCommunity) {mac : Bytes} {ref : EdgeRef}
    (hlisted : s.registry.Listed cm mac ref) (h : step P s ev = .ok (s', out))
    (hchanged : s'.edges.cell ref ≠ s.edges.cell ref ∨
      (s'.cms.cell cm).edges.lookup mac ≠ some ref) :
    ∃ op, Registry.Op.Touches cm mac ref op ∧ Requests P s ev op := by
  obtain ⟨ops, hrun, -, hops⟩ := step_registry v h
  by_contra hnone
  obtain ⟨hlisted', hrec⟩ := hlisted.run v hrun fun op hop htouch => by
    rcases hops op hop with ⟨hash, name, rfl⟩ | hreq
    · exact htouch
    · exact hnone ⟨op, htouch, hreq⟩
  rcases hchanged with hcell | hmember
  · exact hcell hrec
  · exact hmember hlisted'.2

/-- **Identity binding.** `s0` is any earlier state in which the record is there, the one it
was created in among them.
GOLINE: supernode/registration.go:76-131, supernode/community.go:203-326 -/
theorem identity_bound (P : Platform) (env : Env) (s0 s s' : Supernode) (packet : Bytes)
    (addr : NetAddr) (r : RawMessage) (out : List Sent) (hash : UInt32) (cm : CommunityRef)
    (mac : Bytes) (ref : EdgeRef) (h0 : Reach (step P) Initial (NoSharedMAC P) s0)
    (hs : Reach (step P) (· = s0) (NoSharedMAC P) s)
    (hadm : NoSharedMAC P s (.packet env packet addr))
    (hraw : newRawMessage packet addr = .ok (.ok r))
    (h : step P s (.packet env packet addr) = .ok (s', out))
    (hcm : s.communities.lookup hash = some cm)
    (hmember : (s.cms.cell cm).edges.lookup mac = some ref) (href : ref < s0.edges.next)
    (hchanged : s'.edges.cell ref ≠ s.edges.cell ref ∨
      (s'.cms.cell cm).edges.lookup mac ≠ some ref) :
    Carries P r (s.cms.cell cm).name (s0.edges.cell ref).machineID ∨
      Pulses P r (s0.edges.cell ref).machineID := by
  have hreach : Reach (step P) Initial (NoSharedMAC P) s := h0.trans hs
  have v : s.registry.Valid hashCommunity := Reachable.valid (hreach.mono fun _ _ _ => trivial)
  have hlisted : s.registry.Listed cm mac ref := ⟨⟨hash, hcm⟩, hmember⟩
  have hmac : claimableMAC (s.cms.cell cm).name (s.edges.cell ref).machineID = mac := by
    have hgenuine : Genuine (s.edges.cell ref) := genuine_of_reach hreach (v.listed_lt hlisted)
    have hkey : (s.edges.cell ref).macAddr = mac := v.listed_key hlisted
    have hhome : (s.edges.cell ref).community = (s.cms.cell cm).name := v.listed_home hlisted
    rw [← hhome, ← hgenuine, hkey]
  -- what registrations and removals have in common: the MAC they were checked against
  have hbound : ∀ name id, Carries P r name id → claimableMAC name id = r.edgeMACAddr →
      s.communities.lookup r.communityHash = some cm → mac = r.edgeMACAddr →
      Carries P r (s.cms.cell cm).name (s.edges.cell ref).machineID := by
    rintro name id hcarries hclaim hgroup rfl
    have hsame := Net.hardwareAddrString_injective (hclaim.trans hmac.symm)
    obtain ⟨rfl, rfl⟩ := hadm env packet addr r name id cm ref rfl hraw hcarries hgroup hmember
      (MacID.ext hsame)
    exact hcarries
  rw [← ((kept_of_reach hs).old ref href).machineID]
  obtain ⟨op, htouch, r', hraw', hreq⟩ := requested_of_changed v hlisted h hchanged
  obtain rfl : r = r' := by
    rw [hraw] at hraw'
    cases hraw'
    rfl
  cases op with
  | create hash name => exact htouch.elim
  | join cm edge => exact htouch.elim
  | rejoin ref' edge =>
    obtain rfl : ref' = ref := htouch
    obtain ⟨reg, id, cm', hmsg, hval, hgroup, -, hmember', -⟩ := hreq
    obtain ⟨rfl, hmac'⟩ := v.listed_inj hlisted ⟨⟨_, hgroup⟩, hmember'⟩
    obtain ⟨hdec, hclaim⟩ := validateEdgeClaimedMACAddr_ok hval
    exact Or.inl (hbound _ id (.register hmsg hdec) hclaim hgroup hmac')
  | refresh ref' edge =>
    obtain rfl : ref' = ref := htouch
    obtain ⟨pulse, cm', hmsg, -, -, hdec, -⟩ := hreq
    exact Or.inr ⟨pulse, hmsg, hdec⟩
  | leave cm' mac' =>
    obtain ⟨rfl, rfl⟩ : cm' = cm ∧ mac' = mac := htouch
    obtain ⟨unReg, id, hmsg, hval, hgroup, hmac'⟩ := hreq
    obtain ⟨hdec, hclaim⟩ := validateEdgeClaimedMACAddr_ok hval
    exact Or.inl (hbound _ id (.unregister hmsg hdec) hclaim hgroup hmac')

/-! ## Requests to the sample supernode -/

/-- A removal request with the header of machine `a` in `bc`, whose payload is that of machine
`ab` in `c`. -/
def foreignRemoval : Bytes :=
  packProtoVDatagram (Sample.header typeUnregisterRequest (ascii "bc") (ascii "a") MacID.zero)
    (1 :: ascii "c" ++ ascii "ab")

def foreignRemovalMessage : RawMessage :=
  ⟨Sample.header typeUnregisterRequest (ascii "bc") (ascii "a") MacID.zero,
    1 :: ascii "c" ++ ascii "ab", Sample.client 9, foreignRemoval⟩

theorem carries_payload {id name' id' : Bytes}
    (hpayload : Sample.splitRequest r.payload = some (name', id'))
    (h : Carries Sample.platform r name id) : name = name' ∧ id = id' := by
  cases h with
  | @register reg id hmsg hdec =>
    have hmsg : some reg.msg = some ⟨[], [], name', id', []⟩ := by
      rw [← decode_of_toMessage hmsg]
      simp [Sample.platform, Sample.codecs, hpayload]
    rw [Option.some.inj hmsg] at hdec ⊢
    cases hdec
    exact ⟨rfl, rfl⟩
  | @unregister unReg id hmsg hdec =>
    have hmsg : some unReg.msg = some ⟨[], name', id'⟩ := by
      rw [← decode_of_toMessage hmsg]
      simp [Sample.platform, Sample.codecs, hpayload]
    rw [Option.some.inj hmsg] at hdec ⊢
    cases hdec
    exact ⟨rfl, rfl⟩

theorem noSharedMAC_start (ev : Event) : NoSharedMAC Sample.platform Sample.start ev := by
  intro env packet addr r name id cm ref _ _ _ hcm
  simp [Sample.start, newSupernodeWithConfig] at hcm

/-- Machine `m` registers again from another address: the packet carries its own identity. -/
theorem identity_bound_second_registration :
    ∃ s s' out r, Reachable Sample.platform s ∧
      step Sample.platform s (registers "c" "m" 2) = .ok (s', out) ∧
      s'.edges.cell 0 ≠ s.edges.cell 0 ∧
      newRawMessage (Sample.request typeRegisterRequest (ascii "c") (ascii "m")) (Sample.client 2) =
        .ok (.ok r) ∧
      (Carries Sample.platform r (s.cms.cell 0).name (s.edges.cell 0).machineID ∨
        Pulses Sample.platform r (s.edges.cell 0).machineID) := by
  obtain ⟨⟨s, out⟩, hstep, hs⟩ := exists_of_passes
    (x := step Sample.platform Sample.start (registers "c" "m" 1))
    (p := fun res => decide (
      0 < res.1.edges.next ∧
      res.1.communities.lookup (hashCommunity (ascii "c")) = some 0 ∧
      (res.1.cms.cell 0).edges.lookup (macText "c" "m") = some 0 ∧
      (res.1.cms.cell 0).name = ascii "c" ∧ (res.1.edges.cell 0).machineID = ascii "m") &&
      Passes (step Sample.platform res.1 (registers "c" "m" 2))
        fun res' => decide (res'.1.edges.cell 0 ≠ res.1.edges.cell 0)) (by decide +kernel)
  obtain ⟨hs, hstep'⟩ := Bool.and_eq_true_iff.mp hs
  obtain ⟨hnext, hcm, hmember, hname, hid⟩ := of_decide_eq_true hs
  obtain ⟨⟨s', out'⟩, hstep', hchanged⟩ := exists_of_passes hstep'
  have hchanged : s'.edges.cell 0 ≠ s.edges.cell 0 := of_decide_eq_true hchanged
  have hadm : NoSharedMAC Sample.platform s (registers "c" "m" 2) := by
    rintro env packet addr r name id cm ref hev hraw hcarries hcm' hmember' -
    cases hev
    rw [Sample.newRawMessage_request] at hraw
    cases hraw
    obtain ⟨rfl, rfl⟩ := carries_payload rfl hcarries
    obtain rfl : 0 = cm := Option.some.inj (hcm.symm.trans hcm')
    obtain rfl : 0 = ref := Option.some.inj (hmember.symm.trans hmember')
    exact ⟨hname.symm, hid.symm⟩
  have hreach : Reach (step Sample.platform) Initial (NoSharedMAC Sample.platform) s :=
    .step (.init ⟨_, _, _, _, _, _, rfl⟩) (noSharedMAC_start _) hstep
  exact ⟨s, s', out', _, hreach.mono fun _ _ _ => trivial, hstep', hchanged,
    Sample.newRawMessage_request .., identity_bound Sample.platform Sample.env s s s' _ _ _ out' _ 0
      (macText "c" "m") 0 hreach (.init rfl) hadm (Sample.newRawMessage_request ..) hstep' hcm
      hmember hnext (Or.inl hchanged)⟩

/-- Machine `ab` removes machine `a` from community `bc` with a request that names community
`c`. -/
theorem identity_not_bound_on_removal :
    ∃ s s' out, Reachable Sample.platform s ∧
      newRawMessage foreignRemoval (Sample.client 9) = .ok (.ok foreignRemovalMessage) ∧
      step Sample.platform s (.packet Sample.env foreignRemoval (Sample.client 9)) = .ok (s', out) ∧
      s.communities.lookup (hashCommunity (ascii "bc")) = some 0 ∧
      (s.cms.cell 0).edges.lookup (macText "bc" "a") = some 0 ∧
      (s'.cms.cell 0).edges.lookup (macText "bc" "a") = none ∧
      ¬ (Carries Sample.platform foreignRemovalMessage (s.cms.cell 0).name
          (s.edges.cell 0).machineID ∨
        Pulses Sample.platform foreignRemovalMessage (s.edges.cell 0).machineID) := by
  obtain ⟨⟨s, out⟩, hstep, hs⟩ := exists_of_passes
    (x := step Sample.platform Sample.start (registers "bc" "a" 1))
    (p := fun res => decide (
      res.1.communities.lookup (hashCommunity (ascii "bc")) = some 0 ∧
      (res.1.cms.cell 0).edges.lookup (macText "bc" "a") = some 0 ∧
      (res.1.cms.cell 0).name = ascii "bc") &&
      Passes (step Sample.platform res.1 (.packet Sample.env foreignRemoval (Sample.client 9)))
        fun res' => decide ((res'.1.cms.cell 0).edges.lookup (macText "bc" "a") = none))
    (by decide +kernel)
  obtain ⟨hs, hstep'⟩ := Bool.and_eq_true_iff.mp hs
  obtain ⟨hcm, hmember, hname⟩ := of_decide_eq_true hs
  obtain ⟨⟨s', out'⟩, hstep', hgone⟩ := exists_of_passes hstep'
  refine ⟨s, s', out', Sample.reachable_start.step trivial hstep, newRawMessage_pack rfl _ _, hstep',
    hcm, hmember, of_decide_eq_true hgone, ?_⟩
  rintro (hcarries | ⟨pulse, hmsg, -⟩)
  · have hsplit : Sample.splitRequest foreignRemovalMessage.payload = some (ascii "c", ascii "ab") :=
      rfl
    obtain ⟨hc, -⟩ := carries_payload hsplit hcarries
    rw [hname] at hc
    exact absurd hc (by decide)
  · exact absurd (packetType_of_toMessage hmsg) (by decide)

end N2nGo.Supernode
