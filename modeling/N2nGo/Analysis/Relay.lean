import N2nGo.Analysis.Agreement

/-!
# Relaying ProtoV packets

A Data or Ping packet is relayed only for a member of the community its header names,
only to members of that community, and with nothing changed but the supernode flag. A
Ping has one possible recipient. A Data packet goes to its destination; when that is not
a member it is attempted once for every member but the source, and when the send to a
member fails the same round follows the failed attempt, so that the destination is
attempted twice.
-/

set_option autoImplicit false

namespace N2nGo.Supernode

open N2nGo.Lib N2nGo.Protocol N2nGo.Messages

variable {P : Platform} {env : Env} {s : Supernode} {r : RawMessage} {cm : CommunityRef}

/-! ## Recipients -/

/-- The members of a community other than the one with this MAC. -/
def otherMembers (s : Supernode) (cm : CommunityRef) (mac : Bytes) : List Edge :=
  ((s.cms.cell cm).edges.entries.filter fun e => e.1 ≠ mac).map fun e => s.edges.cell e.2

variable {mac : Bytes}

theorem mem_otherMembers {edge : Edge} (h : edge ∈ otherMembers s cm mac) :
    ∃ mac' ref, mac' ≠ mac ∧ (s.cms.cell cm).edges.lookup mac' = some ref ∧
      edge = s.edges.cell ref := by
  unfold otherMembers at h
  simp only [List.mem_map, List.mem_filter, decide_eq_true_eq] at h
  obtain ⟨⟨mac', ref⟩, ⟨hmem, hne⟩, rfl⟩ := h
  exact ⟨mac', ref, hne, Table.lookup_eq_some_iff.mpr hmem, rfl⟩

/-- Whom `broadcast` sends to: it compares the MACs in the records, which are the keys. -/
theorem perm_otherMembers (v : s.registry.Valid hashCommunity)
    (hcm : ∃ hash, s.communities.lookup hash = some cm) (env : Env) (mac : Bytes) :
    ((getAllEdges env s cm).filter (·.macAddr ≠ mac)).Perm (otherMembers s cm mac) := by
  have hkey : ∀ e ∈ (s.cms.cell cm).edges.entries, (s.edges.cell e.2).macAddr = e.1 :=
    fun e he => v.listed_key ⟨hcm, Table.lookup_eq_some_iff.mpr he⟩
  have hsame : ((s.cms.cell cm).edges.values.map s.edges.cell).filter (·.macAddr ≠ mac) =
      otherMembers s cm mac := by
    unfold otherMembers Table.values
    rw [List.map_map, List.filter_map]
    congr 1
    refine List.filter_congr fun e he => ?_
    simp only [Function.comp, hkey e he]
  rw [← hsame]
  exact ((env.order.visit_perm _).map _).filter _

/-- The attempts of one round over the other members. -/
def IsRound (s : Supernode) (cm : CommunityRef) (mac packet : Bytes) (out : List Sent) : Prop :=
  (out.map Sent.target).Perm ((otherMembers s cm mac).map some) ∧
    ∀ x ∈ out, x.packet = packet ∧ ∃ edge, x.target = some edge ∧ x.dest = s.route edge

theorem isRound_attempts (v : s.registry.Valid hashCommunity)
    (hcm : ∃ hash, s.communities.lookup hash = some cm) (env : Env) (mac packet : Bytes) (n : ℕ) :
    IsRound s cm mac packet
      (attempts env s packet n ((getAllEdges env s cm).filter (·.macAddr ≠ mac))) := by
  refine ⟨?_, fun x hx => ?_⟩
  · rw [map_target_attempts]
    exact (perm_otherMembers v hcm env mac).map some
  · obtain ⟨k, target, -, rfl⟩ := mem_attempts hx
    exact ⟨rfl, target, rfl, rfl⟩

theorem IsRound.member {packet : Bytes} {out : List Sent} (h : IsRound s cm mac packet out)
    {x : Sent} (hx : x ∈ out) :
    ∃ mac' ref, (s.cms.cell cm).edges.lookup mac' = some ref ∧
      x.target = some (s.edges.cell ref) := by
  have hmem := (h.1.mem_iff).mp (List.mem_map_of_mem hx)
  obtain ⟨edge, hedge, htarget⟩ := List.mem_map.mp hmem
  obtain ⟨mac', ref, -, hlook, rfl⟩ := mem_otherMembers hedge
  exact ⟨mac', ref, hlook, htarget.symm⟩

/-! ## The two forwarding functions -/

theorem getEdge_eq_some {ref : EdgeRef} (h : (s.cms.cell cm).edges.lookup mac = some ref) :
    s.getEdge cm mac = some (s.edges.cell ref) := by
  rw [getEdge, h]
  rfl

theorem getEdge_eq_none (h : (s.cms.cell cm).edges.lookup mac = none) :
    s.getEdge cm mac = none := by
  rw [getEdge, h]
  rfl

section

variable (hraw : IsProtoV r.rawPacket) (hcm : s.getCommunity r = .ok cm)
include hraw hcm

theorem forwardUnicast_spec :
    ∃ s' err, forwardUnicast env s r = .ok (s',
      (((s.cms.cell cm).edges.lookup r.destMACAddr).toList.map fun ref =>
        attempt env s (withSupernodeFlag r.rawPacket) 0 (s.edges.cell ref)), err) := by
  unfold forwardUnicast
  rw [hcm]
  simp only
  cases hdst : (s.cms.cell cm).edges.lookup r.destMACAddr with
  | none =>
    rw [getEdge_eq_none hdst]
    exact ⟨_, _, rfl⟩
  | some ref =>
    rw [getEdge_eq_some hdst]
    obtain ⟨err, hfwd, -⟩ := forwardPacket_of_isProtoV env s [] (s.edges.cell ref) hraw
    simp only [hfwd, ok_bind]
    cases err with
    | error e => exact ⟨_, _, rfl⟩
    | ok u => exact ⟨_, _, rfl⟩

theorem forwardWithFallBack_unknown (hdst : (s.cms.cell cm).edges.lookup r.destMACAddr = none) :
    ∃ s', forwardWithFallBack env s r = .ok (s',
      attempts env s (withSupernodeFlag r.rawPacket) 0
        ((getAllEdges env s cm).filter (·.macAddr ≠ r.edgeMACAddr)), .ok ()) := by
  unfold forwardWithFallBack
  rw [hcm]
  simp only [getEdge_eq_none hdst]
  obtain ⟨f, hb⟩ := broadcast_of_isProtoV env s [] hraw cm r.edgeMACAddr
  simp only [hb, ok_bind]
  exact ⟨_, rfl⟩

/-- With a destination among the members, one attempt for it, and a round over the others
if that attempt fails. -/
theorem forwardWithFallBack_known {ref : EdgeRef}
    (hdst : (s.cms.cell cm).edges.lookup r.destMACAddr = some ref) :
    ∃ s', forwardWithFallBack env s r = .ok (s',
      attempt env s (withSupernodeFlag r.rawPacket) 0 (s.edges.cell ref) ::
        (if (attempt env s (withSupernodeFlag r.rawPacket) 0 (s.edges.cell ref)).ok then []
        else attempts env s (withSupernodeFlag r.rawPacket) 1
          ((getAllEdges env s cm).filter (·.macAddr ≠ r.edgeMACAddr))), .ok ()) := by
  unfold forwardWithFallBack
  rw [hcm]
  simp only [getEdge_eq_some hdst]
  obtain ⟨err, hfwd, herr⟩ := forwardPacket_of_isProtoV env s [] (s.edges.cell ref) hraw
  simp only [hfwd, ok_bind]
  cases err with
  | ok u =>
    have hok := herr.mp rfl
    simp only [List.length_nil] at hok
    exact ⟨_, by simp only [List.length_nil, List.nil_append, hok, if_true]; rfl⟩
  | error e =>
    have hfail : ¬ (attempt env s (withSupernodeFlag r.rawPacket) 0 (s.edges.cell ref)).ok = true :=
      fun hok => by cases herr.mpr hok
    -- counting the drop changes neither the members nor the routes
    obtain ⟨f, hb⟩ := broadcast_of_isProtoV env
      (s.count fun st => { st with packetsDropped := st.packetsDropped + 1 })
      [attempt env s (withSupernodeFlag r.rawPacket) 0 (s.edges.cell ref)] hraw cm r.edgeMACAddr
    rw [attempts_count] at hb
    simp only [List.length_nil, List.nil_append, hb, ok_bind]
    rw [if_neg hfail]
    exact ⟨_, rfl⟩

end

theorem forward_of_getCommunity_error {e : Err} (h : s.getCommunity r = .error e) :
    forwardUnicast env s r = .ok (s, [], .error e) ∧
      forwardWithFallBack env s r = .ok (s, [], .error e) := by
  unfold forwardUnicast forwardWithFallBack
  rw [h]
  exact ⟨rfl, rfl⟩

/-! ## The handlers -/

theorem handle_ping (h : r.header.packetType = typePing) :
    handle P env s r = forwardUnicast env s r := by
  simp [handle, handlePingMessage, h, typePing, typeRegisterRequest, typeUnregisterRequest,
    typeHeartbeat, typeData, typePeerListRequest]

theorem handle_data (h : r.header.packetType = typeData) :
    handle P env s r = forwardWithFallBack env s r := by
  simp [handle, handleDataMessage, h, typeRegisterRequest, typeUnregisterRequest,
    typeHeartbeat, typeData]

theorem processPacket_of_handle {packet : Bytes} {addr : NetAddr} {s' : Supernode}
    {out : List Sent} (hr : newRawMessage packet addr = .ok (.ok r))
    (h : handle P env (s.count fun st => { st with packetsProcessed := st.packetsProcessed + 1 }) r =
      .ok (s', out, .ok ())) :
    processPacket P env s packet addr = .ok (s', out) := by
  obtain ⟨⟨-, hver⟩, -⟩ := newRawMessage_ok hr
  cases packet with
  | nil => cases hver
  | cons b rest =>
    have hb : b ≠ versionVFuze := by
      rw [Option.some.inj hver]
      decide
    unfold processPacket
    rw [index_cons_zero]
    simp only [ok_bind, if_neg hb, hr, h]

/-- The attempt carries the flagged packet to a member of the packet's community. -/
def Relayed (s : Supernode) (r : RawMessage) (x : Sent) : Prop :=
  x.packet = withSupernodeFlag r.rawPacket ∧ ∃ cm mac ref,
    s.communities.lookup r.communityHash = some cm ∧
    (s.cms.cell cm).edges.lookup mac = some ref ∧ x.target = some (s.edges.cell ref) ∧
    x.dest = s.route (s.edges.cell ref)

/-- What relaying may not do, whatever the recipients: nothing leaves for a packet whose
source is not in its community, and what leaves is relayed. -/
def RelayIsolated (s : Supernode) (r : RawMessage) (out : List Sent) : Prop :=
  ((∀ cm, s.communities.lookup r.communityHash = some cm →
    r.edgeMACAddr ∉ (s.cms.cell cm).edges) → out = []) ∧ ∀ x ∈ out, Relayed s r x

/-- Who is attempted for a packet of a member of community `cm`: the member with the
destination MAC, and for a Data packet also a round over the members other than the source
if there is no such member or the first attempt fails. -/
def RelayExact (s : Supernode) (r : RawMessage) (cm : CommunityRef) (out : List Sent) : Prop :=
  match (s.cms.cell cm).edges.lookup r.destMACAddr with
  | some ref =>
    ∃ first rest, out = first :: rest ∧ first.target = some (s.edges.cell ref) ∧
      (r.header.packetType = typePing → rest = []) ∧
      (r.header.packetType = typeData →
        (first.ok = true → rest = []) ∧
        (first.ok = false → (rest.map Sent.target).Perm
          ((otherMembers s cm r.edgeMACAddr).map some)))
  | none =>
    (r.header.packetType = typePing → out = []) ∧
    (r.header.packetType = typeData →
      (out.map Sent.target).Perm ((otherMembers s cm r.edgeMACAddr).map some))

theorem relayed_attempt (hgroup : s.communities.lookup r.communityHash = some cm) {ref : EdgeRef}
    (href : (s.cms.cell cm).edges.lookup mac = some ref) (n : ℕ) :
    Relayed s r (attempt env s (withSupernodeFlag r.rawPacket) n (s.edges.cell ref)) :=
  ⟨rfl, cm, mac, ref, hgroup, href, rfl, rfl⟩

theorem IsRound.relayed {out : List Sent} (h : IsRound s cm mac (withSupernodeFlag r.rawPacket) out)
    (hgroup : s.communities.lookup r.communityHash = some cm) {x : Sent} (hx : x ∈ out) :
    Relayed s r x := by
  obtain ⟨mac', ref, href, htarget⟩ := h.member hx
  obtain ⟨hpacket, edge, hedge, hdest⟩ := h.2 x hx
  rw [hedge] at htarget
  cases htarget
  exact ⟨hpacket, cm, mac', ref, hgroup, href, hedge, hdest⟩

theorem relay_ping (hraw : IsProtoV r.rawPacket) (hcm : s.getCommunity r = .ok cm)
    (ht : r.header.packetType = typePing) :
    ∃ s' out err, handle P env s r = .ok (s', out, err) ∧ (∀ x ∈ out, Relayed s r x) ∧
      RelayExact s r cm out := by
  have hgroup := (getCommunity_eq_ok_iff.mp hcm).1
  have hne : r.header.packetType ≠ typeData := by rw [ht]; decide
  obtain ⟨s', err, h⟩ := forwardUnicast_spec hraw hcm
  rw [handle_ping ht]
  refine ⟨s', _, err, h, ?_, ?_⟩
  · intro x hx
    obtain ⟨ref, href, rfl⟩ := List.mem_map.mp hx
    exact relayed_attempt hgroup (Option.mem_toList.mp href) 0
  · unfold RelayExact
    cases (s.cms.cell cm).edges.lookup r.destMACAddr with
    | none => exact ⟨fun _ => rfl, fun hd => absurd hd hne⟩
    | some ref => exact ⟨_, [], rfl, rfl, fun _ => rfl, fun hd => absurd hd hne⟩

theorem relay_data (v : s.registry.Valid hashCommunity) (hraw : IsProtoV r.rawPacket)
    (hcm : s.getCommunity r = .ok cm) (ht : r.header.packetType = typeData) :
    ∃ s' out err, handle P env s r = .ok (s', out, err) ∧ (∀ x ∈ out, Relayed s r x) ∧
      RelayExact s r cm out := by
  have hgroup := (getCommunity_eq_ok_iff.mp hcm).1
  have hne : r.header.packetType ≠ typePing := by rw [ht]; decide
  have hround := isRound_attempts v ⟨_, hgroup⟩ env r.edgeMACAddr (withSupernodeFlag r.rawPacket)
  rw [handle_data ht]
  unfold RelayExact
  cases hdst : (s.cms.cell cm).edges.lookup r.destMACAddr with
  | none =>
    obtain ⟨s', h⟩ := forwardWithFallBack_unknown hraw hcm hdst
    exact ⟨s', _, _, h, fun x hx => (hround 0).relayed hgroup hx,
      fun hp => absurd hp hne, fun _ => (hround 0).1⟩
  | some ref =>
    obtain ⟨s', h⟩ := forwardWithFallBack_known hraw hcm hdst
    refine ⟨s', _, _, h, ?_, _, _, rfl, rfl, fun hp => absurd hp hne, fun _ => ⟨?_, ?_⟩⟩
    · intro x hx
      rcases List.mem_cons.mp hx with rfl | hx
      · exact relayed_attempt hgroup hdst 0
      · split at hx
        · cases hx
        · exact (hround 1).relayed hgroup hx
    · intro hok
      rw [if_pos hok]
    · intro hfail
      rw [if_neg (by rw [hfail]; decide)]
      exact (hround 1).1

/-- **Relaying a Data or Ping packet** in a reachable state.
GOLINE: supernode/wire.go:13-106, supernode/handlers.go:212-241 -/
theorem relay_isolated_and_exact (P : Platform) (env : Env) (s : Supernode) (packet : Bytes)
    (addr : NetAddr) (r : RawMessage) (hs : Reachable P s)
    (hr : newRawMessage packet addr = .ok (.ok r))
    (htype : r.header.packetType = typeData ∨ r.header.packetType = typePing) :
    r.rawPacket = packet ∧
      ∃ s' out err, handle P env s r = .ok (s', out, err) ∧ RelayIsolated s r out ∧
        ∀ cm, s.communities.lookup r.communityHash = some cm →
          r.edgeMACAddr ∈ (s.cms.cell cm).edges → RelayExact s r cm out := by
  have v := hs.valid
  obtain ⟨hp, hr'⟩ := newRawMessage_ok hr
  have hpacket : r.rawPacket = packet := by rw [hr']
  have hraw : IsProtoV r.rawPacket := by rw [hpacket]; exact hp
  have hmember : ∀ cm, s.communities.lookup r.communityHash = some cm →
      r.edgeMACAddr ∈ (s.cms.cell cm).edges → s.getCommunity r = .ok cm := fun cm hg hm =>
    getCommunity_eq_ok_iff.mpr ⟨hg, Table.exists_lookup_of_mem hm⟩
  refine ⟨hpacket, ?_⟩
  cases hcm : s.getCommunity r with
  | error e =>
    obtain ⟨hping, hdata⟩ := forward_of_getCommunity_error hcm
    have hnone : handle P env s r = .ok (s, [], .error e) := by
      rcases htype with ht | ht
      · rw [handle_data ht, hdata]
      · rw [handle_ping ht, hping]
    refine ⟨s, [], .error e, hnone, ⟨fun _ => rfl, by simp⟩, fun cm hg hm => ?_⟩
    rw [hmember cm hg hm] at hcm
    cases hcm
  | ok cm =>
    obtain ⟨hgroup, ref, href⟩ := getCommunity_eq_ok_iff.mp hcm
    obtain ⟨s', out, err, h, hrelayed, hexact⟩ : ∃ s' out err, handle P env s r =
        .ok (s', out, err) ∧ (∀ x ∈ out, Relayed s r x) ∧ RelayExact s r cm out := by
      rcases htype with ht | ht
      · exact relay_data v hraw hcm ht
      · exact relay_ping hraw hcm ht
    refine ⟨s', out, err, h, ⟨fun hstranger => ?_, hrelayed⟩, fun cm' hg hm => ?_⟩
    · exact absurd (Table.mem_of_lookup href) (hstranger cm hgroup)
    · rw [hmember cm' hg hm] at hcm
      cases hcm
      exact hexact

/-! ## Two members of the sample supernode -/

/-- A Data packet of machine `m` for machine `n`, with one byte of payload. -/
def dataPacket : Bytes :=
  packProtoVDatagram (Sample.header typeData (ascii "c") (ascii "m")
    (Machine.extGenerateMacFor (ascii "c") (ascii "n"))) [7]

def dataMessage : RawMessage :=
  ⟨Sample.header typeData (ascii "c") (ascii "m")
    (Machine.extGenerateMacFor (ascii "c") (ascii "n")), [7], Sample.client 1, dataPacket⟩

theorem newRawMessage_dataPacket :
    newRawMessage dataPacket (Sample.client 1) = .ok (.ok dataMessage) :=
  newRawMessage_pack rfl _ _

/-- One of two members sends to the other. -/
theorem relay_two_members :
    ∃ s s' out err, Reachable Sample.platform s ∧
      handle Sample.platform Sample.env s dataMessage = .ok (s', out, err) ∧ out.length = 1 ∧
      RelayIsolated s dataMessage out := by
  obtain ⟨s, hrun, hs⟩ := exists_of_passes
    (x := runEvents (step Sample.platform) Sample.start [registers "c" "m" 1, registers "c" "n" 2])
    (p := fun s => Passes (handle Sample.platform Sample.env s dataMessage)
      fun res => res.2.1.length == 1) (by decide +kernel)
  have hreach := Sample.reachable_start.of_runEvents hrun
  obtain ⟨-, s', out, err, h, hiso, -⟩ := relay_isolated_and_exact Sample.platform Sample.env s
    dataPacket (Sample.client 1) dataMessage hreach newRawMessage_dataPacket (Or.inl rfl)
  rw [h] at hs
  exact ⟨s, s', out, err, hreach, h, by simpa using hs, hiso⟩

/-- When the send fails, the destination is attempted a second time. -/
theorem failed_send_is_repeated :
    ∃ s s' out err d, Reachable Sample.platform s ∧
      handle Sample.platform { Sample.env with writeOk := fun _ _ _ => false } s dataMessage =
        .ok (s', out, err) ∧
      d.macAddr = dataMessage.destMACAddr ∧ out.map Sent.target = [some d, some d] := by
  obtain ⟨s, hrun, hs⟩ := exists_of_passes
    (x := runEvents (step Sample.platform) Sample.start [registers "c" "m" 1, registers "c" "n" 2])
    (p := fun s => Passes
      (handle Sample.platform { Sample.env with writeOk := fun _ _ _ => false } s dataMessage)
      fun res => decide ((s.edges.cell 1).macAddr = dataMessage.destMACAddr ∧
        res.2.1.map Sent.target = [some (s.edges.cell 1), some (s.edges.cell 1)]))
    (by decide +kernel)
  obtain ⟨⟨s', out, err⟩, h, hres⟩ := exists_of_passes hs
  obtain ⟨hmac, htargets⟩ := of_decide_eq_true hres
  exact ⟨s, s', out, err, s.edges.cell 1, Sample.reachable_start.of_runEvents hrun, h, hmac, htargets⟩

end N2nGo.Supernode
