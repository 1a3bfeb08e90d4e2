import N2nGo.Analysis.DataPath
import N2nGo.Analysis.Relay
import N2nGo.Model.Network

/-!
# The fast path against the ordinary path

The fast path delivers a frame to the one edge that the supernode's indexes lead to, or to
nobody. On the ordinary path a frame whose destination is no member of the community, or
cannot be written to, goes to all the other members. `fastPath_agrees_iff` says when this
makes no difference to the TAP devices that are written.
-/

set_option autoImplicit false

namespace N2nGo

open N2nGo.Lib N2nGo.Protocol

/-- The text the supernode makes of an address in a header.
GOLINE: protocol/message.go:57-69 -/
def macText (id : MacID) : Bytes :=
  match bytesToMAC id with
  | some mac => Net.hardwareAddrString mac
  | none => []

/-! ## The sender -/

namespace EdgeClient

variable {P : Platform} {env : Env} {e : EdgeClient} {dst : MacID}

/-- The header of the edge's next packet for `dst`.
GOLINE: edge/wire.go:49-65 -/
def nextHeader (env : Env) (e : EdgeClient) (pt : PacketType) (dst : MacID) : ProtoVHeader where
  version := versionV
  ttl := 64
  packetType := pt
  flags := 0
  sequence := ((e.seq + 1) &&& 0xFFFF).toUInt16
  communityID := hashCommunity e.community
  sourceID := e.macAddr
  destID := dst
  timestamp := env.unix
  checksum := 0

theorem edgeHeader_eq (pt : PacketType) :
    e.edgeHeader env pt (some dst.bytes) = .ok ({ e with seq := e.seq + 1 }, e.nextHeader env pt dst) := by
  have hid : destID (some dst.bytes) = .ok dst := by
    obtain ⟨bytes, hlen⟩ := dst
    rw [destID, macID, dif_pos (Nat.le_of_eq hlen.symm)]
    congr 1
    simp only [MacID.mk.injEq]
    exact List.take_of_length_le (Nat.le_of_eq hlen)
  rw [edgeHeader, hid]
  rfl

def Connected (e : EdgeClient) : Prop := e.wssTransport = true ∨ e.conn = true

theorem transmit_uplink (h : e.Connected) (packet : Bytes) :
    ∃ err, e.transmit env [] packet e.supernodeAddr = ([write env [] e.uplink packet], err) := by
  unfold transmit uplink
  cases hwss : e.wssTransport with
  | true => exact ⟨_, rfl⟩
  | false =>
    have hconn : e.conn = true := h.resolve_left (by rw [hwss]; decide)
    simp only [hconn, Bool.false_eq_true, if_false, not_true_eq_false, List.nil_append]
    exact ⟨_, rfl⟩

theorem writePacket_uplink (h : e.Connected) {strategy : UDPWriteStrategy} (pt : PacketType)
    (payload : Bytes)
    (hvia : e.udpAddrWithStrategy P (some dst.bytes) strategy = .ok e.supernodeAddr) :
    ∃ e' err, e.writePacket P env [] pt (some dst.bytes) payload strategy =
      .ok (e', [write env [] e.uplink (packProtoVDatagram (e.nextHeader env pt dst) payload)],
        err) := by
  let e' : EdgeClient := { e with seq := e.seq + 1, packetsSent := e.packetsSent + 1 }
  have h' : e'.Connected := h
  obtain ⟨err, hout⟩ : ∃ err, e'.transmit env []
      (packProtoVDatagram (e.nextHeader env pt dst) payload) e.supernodeAddr = _ :=
    transmit_uplink h' _
  refine ⟨e', err, ?_⟩
  unfold writePacket
  rw [hvia]
  simp only [edgeHeader_eq, ok_bind]
  rw [hout]
  rfl

theorem sendVFuze_uplink (h : e.Connected) {strategy : UDPWriteStrategy} (payload : Bytes)
    (hvia : e.udpAddrWithStrategy P (some dst.bytes) strategy = .ok e.supernodeAddr) :
    ∃ e' err, e.sendVFuze P env [] dst.bytes payload strategy =
      .ok (e', [write env [] e.uplink (versionVFuze :: dst.bytes ++ payload)], err) := by
  let e' : EdgeClient := { e with packetsSent := e.packetsSent + 1 }
  have h' : e'.Connected := h
  obtain ⟨err, hout⟩ : ∃ err, e'.transmit env [] (versionVFuze :: dst.bytes ++ payload)
      e.supernodeAddr = _ := transmit_uplink h' _
  have hhead : vFuzeHeaderBytes dst.bytes = .ok (versionVFuze :: dst.bytes) := by
    rw [vFuzeHeaderBytes, slice_from_start (Nat.le_of_eq dst.length_eq.symm),
      List.take_of_length_le (Nat.le_of_eq dst.length_eq)]
    rfl
  refine ⟨e', err, ?_⟩
  unfold sendVFuze
  rw [hvia]
  simp only [hhead, ok_bind]
  rw [hout]
  rfl

end EdgeClient

namespace Network

open EdgeClient

variable {N : Network} {frame payload : Bytes} {dst : MacID} {cm : CommunityRef}

/-- A registered edge reads a frame that is not IPv6 and goes through the supernode to
`dst`, as `payload`. Its socket is indexed, and the buffers are those of the loops. -/
structure Ready (N : Network) (frame : Bytes) (dst : MacID) (payload : Bytes)
    (cm : CommunityRef) : Prop where
  community : N.supernode.communities.lookup (hashCommunity N.sender.edge.community) = some cm
  registered : macText N.sender.edge.macAddr ∈ (N.supernode.cms.cell cm).edges
  indexed : (N.supernode.edgesBySocket.lookup N.addr.string).isSome
  connected : N.sender.edge.Connected
  uplink : ∀ packet, (write N.senderEnv [] N.sender.edge.uplink packet).ok = true
  viaSupernode : N.sender.edge.udpAddrWithStrategy N.edgePlatform (some dst.bytes) .bestEffort =
    .ok N.sender.edge.supernodeAddr
  length : 14 ≤ frame.length
  frameBuf : frame.length ≤ N.sender.frameBuf.length
  destination : frame.take 6 = dst.bytes
  ethertype : ∃ t, Tuntap.getEthertype (filled frame N.sender.frameBuf) = .ok (.ok t) ∧
    t ≠ Tuntap.ethertypeIPv6
  processed : N.sender.edge.processOutgoingPayload N.senderEnv frame = .ok payload
  fits : payload.length + protoVHeaderSize ≤ defaultBufferSize
  packetBuf : ∀ dest node, N.listener dest = some node → node.packetBuf.length = defaultBufferSize

theorem Ready.withVFuze (h : N.Ready frame dst payload cm) (v : Bool) :
    (N.withVFuze v).Ready frame dst payload cm where
  community := h.community
  registered := h.registered
  indexed := h.indexed
  connected := h.connected
  uplink := h.uplink
  viaSupernode := h.viaSupernode
  length := h.length
  frameBuf := h.frameBuf
  destination := h.destination
  ethertype := h.ethertype
  processed := h.processed
  fits := h.fits
  packetBuf dest node hnode := by
    obtain ⟨node', hnode', rfl⟩ := Option.map_eq_some_iff.mp hnode
    exact h.packetBuf dest node' hnode'

theorem listener_withVFuze (N : Network) (v : Bool) (dest : Supernode.Dest) (node : Running)
    (hnode : (N.withVFuze v).listener dest = some node) : node.edge.enableVFuze = v := by
  obtain ⟨node', -, rfl⟩ := Option.map_eq_some_iff.mp hnode
  rfl

variable {packet : Bytes}

/-! ### Sending -/

section

variable (h : N.Ready frame dst payload cm)
include h

theorem sends_iff {sender' : Running}
    (hstep : N.sender.step N.edgePlatform (.frame N.senderEnv frame) =
      .ok (sender', [write N.senderEnv [] N.sender.edge.uplink packet])) (packet' : Bytes) :
    N.Sends frame packet' ↔ packet' = packet := by
  constructor
  · rintro ⟨sender'', out, w, hstep', hw, -, -, rfl⟩
    rw [hstep] at hstep'
    cases hstep'
    rw [List.mem_singleton.mp hw]
    rfl
  · rintro rfl
    exact ⟨_, _, _, hstep, List.mem_singleton_self _, h.uplink _, rfl, rfl⟩

/-- What the loop over frames does with a frame that is sent. -/
theorem handleTAP_eq :
    N.sender.edge.handleTAP N.edgePlatform N.senderEnv (filled frame N.sender.frameBuf)
        frame.length =
      (if Tuntap.isBroadcast dst.bytes then do
        let (e, out, _) ← N.sender.edge.writePacket N.edgePlatform N.senderEnv [] typeData
          (some dst.bytes) payload .enforceSupernode
        .ok (e, out)
      else if N.sender.edge.enableVFuze then do
        let (e, out, _) ← N.sender.edge.sendVFuze N.edgePlatform N.senderEnv [] dst.bytes payload
          .bestEffort
        .ok (e, out)
      else do
        let (e, out, _) ← N.sender.edge.writePacket N.edgePlatform N.senderEnv [] typeData
          (some dst.bytes) payload .bestEffort
        .ok (e, out)) := by
  obtain ⟨t, ht, hne⟩ := h.ethertype
  have hlen := h.length
  have hslice : slice (filled frame N.sender.frameBuf) 0 frame.length = .ok frame := by
    rw [slice_from_start (by simp [filled]), filled, List.take_left]
  have hdst : Tuntap.fastDestination (filled frame N.sender.frameBuf) = .ok dst.bytes := by
    rw [Tuntap.fastDestination, slice_from_start (by simp [filled]; omega), filled,
      List.take_append_of_le_length (by omega), h.destination]
  unfold handleTAP
  rw [if_neg (by omega), ht]
  simp only [ok_bind]
  rw [if_neg hne, hslice]
  simp only [ok_bind, h.processed, hdst]

theorem sends_data (hmode : N.sender.edge.enableVFuze = false ∨ Tuntap.isBroadcast dst.bytes = true)
    (packet : Bytes) :
    N.Sends frame packet ↔
      packet = packProtoVDatagram (N.sender.edge.nextHeader N.senderEnv typeData dst) payload := by
  have hsn : N.sender.edge.udpAddrWithStrategy N.edgePlatform (some dst.bytes) .enforceSupernode =
      .ok N.sender.edge.supernodeAddr := by
    unfold udpAddrWithStrategy
    split <;> rfl
  obtain ⟨e1, err1, hbroadcast⟩ := writePacket_uplink h.connected typeData payload hsn
  obtain ⟨e2, err2, hunicast⟩ := writePacket_uplink h.connected typeData payload h.viaSupernode
  have htake : frame.take N.sender.frameBuf.length = frame := List.take_of_length_le h.frameBuf
  obtain ⟨sender', hstep⟩ : ∃ sender', N.sender.step N.edgePlatform (.frame N.senderEnv frame) =
      .ok (sender', [write N.senderEnv [] N.sender.edge.uplink
        (packProtoVDatagram (N.sender.edge.nextHeader N.senderEnv typeData dst) payload)]) := by
    rw [Running.step, htake]
    simp only
    rw [handleTAP_eq h]
    by_cases hb : Tuntap.isBroadcast dst.bytes = true
    · rw [if_pos hb, hbroadcast]
      exact ⟨_, rfl⟩
    · have hoff : ¬ N.sender.edge.enableVFuze = true := by
        rw [hmode.resolve_right hb]
        decide
      rw [if_neg hb, if_neg hoff, hunicast]
      exact ⟨_, rfl⟩
  exact sends_iff h hstep packet

theorem sends_vFuze (hon : N.sender.edge.enableVFuze = true)
    (hb : ¬ Tuntap.isBroadcast dst.bytes = true) (packet : Bytes) :
    N.Sends frame packet ↔ packet = versionVFuze :: dst.bytes ++ payload := by
  obtain ⟨e1, err1, hsend⟩ := sendVFuze_uplink h.connected payload h.viaSupernode
  have htake : frame.take N.sender.frameBuf.length = frame := List.take_of_length_le h.frameBuf
  obtain ⟨sender', hstep⟩ : ∃ sender', N.sender.step N.edgePlatform (.frame N.senderEnv frame) =
      .ok (sender', [write N.senderEnv [] N.sender.edge.uplink
        (versionVFuze :: dst.bytes ++ payload)]) := by
    rw [Running.step, htake]
    simp only
    rw [handleTAP_eq h, if_neg hb, if_pos hon, hsend]
    exact ⟨_, rfl⟩
  exact sends_iff h hstep packet

end

/-! ### Forwarding -/

/-- The supernode can write to the edge, at `dest`. -/
def Reaches (N : Network) (edge : Edge) (dest : Supernode.Dest) : Prop :=
  N.supernode.route edge = some dest ∧ N.up dest = true

variable {edge : Edge} {dest : Supernode.Dest}

theorem attempt_delivers {n : ℕ} :
    ((Supernode.attempt N.supernodeEnv N.supernode packet n edge).ok = true ∧
      (Supernode.attempt N.supernodeEnv N.supernode packet n edge).dest = some dest) ↔
      N.Reaches edge dest := by
  unfold Supernode.attempt Reaches supernodeEnv
  simp only
  constructor
  · rintro ⟨hok, hroute⟩
    rw [hroute] at hok
    exact ⟨hroute, hok⟩
  · rintro ⟨hroute, hup⟩
    rw [hroute]
    exact ⟨hup, rfl⟩

theorem attempt_ok_iff {n : ℕ} :
    (Supernode.attempt N.supernodeEnv N.supernode packet n edge).ok = true ↔
      ∃ dest, N.Reaches edge dest := by
  constructor
  · intro hok
    cases hroute : N.supernode.route edge with
    | none => simp [Supernode.attempt, hroute] at hok
    | some dest => exact ⟨dest, attempt_delivers.mp ⟨hok, hroute⟩⟩
  · rintro ⟨dest, hreach⟩
    exact (attempt_delivers.mpr hreach).1

theorem attempts_deliver {packet' : Bytes} {n : ℕ} {targets : List Edge} :
    (∃ x ∈ Supernode.attempts N.supernodeEnv N.supernode packet n targets,
      x.ok = true ∧ x.dest = some dest ∧ x.packet = packet') ↔
      packet' = packet ∧ ∃ edge ∈ targets, N.Reaches edge dest := by
  constructor
  · rintro ⟨x, hx, hok, hdest, rfl⟩
    obtain ⟨k, edge, hedge, rfl⟩ := Supernode.mem_attempts hx
    exact ⟨rfl, edge, hedge, attempt_delivers.mp ⟨hok, hdest⟩⟩
  · rintro ⟨rfl, edge, hedge, hreach⟩
    obtain ⟨k, hk⟩ := Supernode.exists_mem_attempts N.supernodeEnv N.supernode packet' n hedge
    obtain ⟨hok, hdest⟩ := attempt_delivers.mpr hreach
    exact ⟨_, hk, hok, hdest, rfl⟩

/-- A round over the other members, wherever it stands in the sequence of attempts. -/
theorem round_delivers (v : N.supernode.registry.Valid hashCommunity) {hash : UInt32}
    (hcm : N.supernode.communities.lookup hash = some cm) (f : SupernodeStats → SupernodeStats)
    (mac packet packet' : Bytes) (n : ℕ) (dest : Supernode.Dest) :
    (∃ x ∈ Supernode.attempts N.supernodeEnv (N.supernode.count f) packet n
        ((Supernode.getAllEdges N.supernodeEnv (N.supernode.count f) cm).filter (·.macAddr ≠ mac)),
        x.ok = true ∧ x.dest = some dest ∧ x.packet = packet') ↔
      packet' = packet ∧ ∃ edge ∈ N.supernode.otherMembers cm mac, N.Reaches edge dest := by
  have hperm := Supernode.perm_otherMembers v ⟨_, hcm⟩ N.supernodeEnv mac
  rw [Supernode.attempts_count, attempts_deliver]
  exact and_congr_right fun _ => exists_congr fun edge => and_congr_left fun _ => hperm.mem_iff

/-- The ordinary path reaches `dest`: the member with the destination address is there, or
there is no such member that can be reached and another member is there. -/
def Relays (N : Network) (cm : CommunityRef) (dst : MacID) (dest : Supernode.Dest) : Prop :=
  (∃ ref, (N.supernode.cms.cell cm).edges.lookup (macText dst) = some ref ∧
    N.Reaches (N.supernode.edges.cell ref) dest) ∨
  ((∀ ref, (N.supernode.cms.cell cm).edges.lookup (macText dst) = some ref →
      ∀ dest', ¬ N.Reaches (N.supernode.edges.cell ref) dest') ∧
    ∃ edge ∈ N.supernode.otherMembers cm (macText N.sender.edge.macAddr), N.Reaches edge dest)

theorem relays_unknown (hdst : (N.supernode.cms.cell cm).edges.lookup (macText dst) = none) :
    N.Relays cm dst dest ↔
      ∃ edge ∈ N.supernode.otherMembers cm (macText N.sender.edge.macAddr), N.Reaches edge dest := by
  simp [Relays, hdst]

theorem relays_known {ref : EdgeRef}
    (hdst : (N.supernode.cms.cell cm).edges.lookup (macText dst) = some ref) :
    N.Relays cm dst dest ↔
      N.Reaches (N.supernode.edges.cell ref) dest ∨
        ((∀ dest', ¬ N.Reaches (N.supernode.edges.cell ref) dest') ∧
          ∃ edge ∈ N.supernode.otherMembers cm (macText N.sender.edge.macAddr),
            N.Reaches edge dest) := by
  simp [Relays, hdst]

theorem forwards_iff {s' : Supernode} {out : List Supernode.Sent}
    (h : Supernode.processPacket N.supernodePlatform N.supernodeEnv N.supernode packet N.addr =
      .ok (s', out)) (dest : Supernode.Dest) (packet' : Bytes) :
    N.Forwards packet dest packet' ↔
      ∃ x ∈ out, x.ok = true ∧ x.dest = some dest ∧ x.packet = packet' := by
  constructor
  · rintro ⟨s'', out', x, h', hx⟩
    rw [h] at h'
    cases h'
    exact ⟨x, hx⟩
  · rintro ⟨x, hx⟩
    exact ⟨s', out, x, h, hx⟩

/-- A Data packet of the sender goes where `Relays` says, with the supernode flag set. -/
theorem forwards_data (v : N.supernode.registry.Valid hashCommunity)
    (h : N.Ready frame dst payload cm) {header : ProtoVHeader}
    (hheader : header = N.sender.edge.nextHeader N.senderEnv typeData dst)
    (dest : Supernode.Dest) (packet' : Bytes) :
    N.Forwards (packProtoVDatagram header payload) dest packet' ↔
      packet' = packProtoVDatagram (header.setFromSupernode true) payload ∧
        N.Relays cm dst dest := by
  subst hheader
  set header := N.sender.edge.nextHeader N.senderEnv typeData dst
  let r : RawMessage := ⟨header, payload, N.addr, packProtoVDatagram header payload⟩
  let s1 := N.supernode.count fun st => { st with packetsProcessed := st.packetsProcessed + 1 }
  have hnew : newRawMessage (packProtoVDatagram header payload) N.addr = .ok (.ok r) :=
    newRawMessage_pack rfl payload N.addr
  have hraw : IsProtoV r.rawPacket := isProtoV_pack rfl payload
  have hflag : withSupernodeFlag r.rawPacket =
      packProtoVDatagram (header.setFromSupernode true) payload := withSupernodeFlag_pack rfl payload
  have hcm : s1.getCommunity r = .ok cm :=
    Supernode.getCommunity_eq_ok_iff.mpr ⟨h.community, Table.exists_lookup_of_mem h.registered⟩
  have hround := round_delivers v h.community
    (fun st => { st with packetsProcessed := st.packetsProcessed + 1 }) r.edgeMACAddr
    (withSupernodeFlag r.rawPacket) packet'
  cases hdst : (N.supernode.cms.cell cm).edges.lookup (macText dst) with
  | none =>
    obtain ⟨s', hfwd⟩ : ∃ s', Supernode.forwardWithFallBack N.supernodeEnv s1 r = .ok (s', _) :=
      Supernode.forwardWithFallBack_unknown hraw hcm hdst
    have hproc := Supernode.processPacket_of_handle (P := N.supernodePlatform) hnew
      ((Supernode.handle_data rfl).trans hfwd)
    rw [forwards_iff hproc, relays_unknown hdst, ← hflag]
    exact hround 0 dest
  | some ref =>
    obtain ⟨s', hfwd⟩ : ∃ s', Supernode.forwardWithFallBack N.supernodeEnv s1 r = .ok (s', _) :=
      Supernode.forwardWithFallBack_known hraw hcm hdst
    have hproc := Supernode.processPacket_of_handle (P := N.supernodePlatform) hnew
      ((Supernode.handle_data rfl).trans hfwd)
    rw [forwards_iff hproc, relays_known hdst, ← hflag]
    constructor
    · rintro ⟨x, hx, hok, hdest, rfl⟩
      rcases List.mem_cons.mp hx with rfl | hx
      · exact ⟨rfl, .inl (attempt_delivers.mp ⟨hok, hdest⟩)⟩
      · split at hx
        · cases hx
        · next hfail =>
          obtain ⟨hpacket, hreach⟩ := (hround 1 dest).mp ⟨x, hx, hok, hdest, rfl⟩
          exact ⟨hpacket, .inr ⟨fun d hd => hfail (attempt_ok_iff.mpr ⟨d, hd⟩), hreach⟩⟩
    · rintro ⟨rfl, hreach | ⟨hnot, hreach⟩⟩
      · obtain ⟨hok, hdest⟩ := attempt_delivers.mpr hreach
        exact ⟨_, List.mem_cons_self, hok, hdest, rfl⟩
      · obtain ⟨x, hx, hrest⟩ := (hround 1 dest).mpr ⟨rfl, hreach⟩
        refine ⟨x, List.mem_cons_of_mem _ ?_, hrest⟩
        rw [if_neg]
        · exact hx
        · intro hok
          obtain ⟨d, hd⟩ := attempt_ok_iff.mp hok
          exact hnot d hd

theorem forwards_vFuze (dest : Supernode.Dest) (packet' : Bytes) :
    N.Forwards (versionVFuze :: dst.bytes ++ payload) dest packet' ↔
      packet' = versionVFuze :: dst.bytes ++ payload ∧
        ∃ target, N.supernode.fastPathTarget dst.bytes N.addr = some target ∧
          N.Reaches target dest := by
  let s1 := N.supernode.count fun st => { st with packetsProcessed := st.packetsProcessed + 1 }
  have hlen : 6 ≤ (dst.bytes ++ payload).length := by
    rw [List.length_append, dst.length_eq]
    omega
  have htake : (dst.bytes ++ payload).take 6 = dst.bytes := List.take_left' dst.length_eq
  have hproc : Supernode.processPacket N.supernodePlatform N.supernodeEnv N.supernode
      (versionVFuze :: dst.bytes ++ payload) N.addr =
      .ok (s1, (s1.fastPathTarget dst.bytes N.addr).toList.map
        (Supernode.attempt N.supernodeEnv s1 (versionVFuze :: dst.bytes ++ payload) 0)) := by
    unfold Supernode.processPacket
    rw [List.cons_append, index_cons_zero]
    simp only [ok_bind, if_true]
    rw [Supernode.handleVFuze_eq _ _ _ hlen, htake]
    rfl
  rw [forwards_iff hproc]
  constructor
  · rintro ⟨x, hx, hok, hdest, rfl⟩
    obtain ⟨target, htarget, rfl⟩ := List.mem_map.mp hx
    exact ⟨rfl, target, Option.mem_toList.mp htarget, attempt_delivers.mp ⟨hok, hdest⟩⟩
  · rintro ⟨rfl, target, htarget, hreach⟩
    obtain ⟨hok, hdest⟩ := attempt_delivers.mpr hreach
    exact ⟨_, List.mem_map_of_mem (Option.mem_toList.mpr htarget), hok, hdest, rfl⟩

/-! ### Receiving -/

/-- Somebody listens at `dest`, and its pipeline turns the payload into `data`. -/
def Accepts (N : Network) (payload : Bytes) (dest : Supernode.Dest) (data : Bytes) : Prop :=
  ∃ node frame, N.listener dest = some node ∧ node.edge.incomingFrame payload = .ok frame ∧
    data = padFrame frame

theorem accepts_withVFuze {v : Bool} {data : Bytes} :
    (N.withVFuze v).Accepts payload dest data ↔ N.Accepts payload dest data := by
  constructor
  · rintro ⟨node, frame, hnode, hframe, hdata⟩
    obtain ⟨node', hnode', rfl⟩ := Option.map_eq_some_iff.mp hnode
    exact ⟨node', frame, hnode', hframe, hdata⟩
  · rintro ⟨node, frame, hnode, hframe, hdata⟩
    exact ⟨node.withVFuze v, frame, Option.map_eq_some_iff.mpr ⟨node, hnode, rfl⟩, hframe, hdata⟩

/-- What is written at `dest`, once it is known to be what the payload becomes. -/
theorem writesTap_iff
    (hstep : ∀ node, N.listener dest = some node → ∃ node', node.step N.edgePlatform
      (.datagram N.listenerEnv packet N.snAddr) =
        .ok (node', (node.edge.handleDataPayload N.listenerEnv payload).2.1)) (data : Bytes) :
    N.WritesTap dest packet data ↔ N.Accepts payload dest data := by
  constructor
  · rintro ⟨node, node1, out, w, hnode, hstep1, hw, -, rfl⟩
    obtain ⟨node', hstep'⟩ := hstep node hnode
    rw [hstep'] at hstep1
    cases hstep1
    obtain ⟨frame, hframe, rfl⟩ := mem_handleDataPayload.mp hw
    exact ⟨node, frame, hnode, hframe, rfl⟩
  · rintro ⟨node, frame, hnode, hframe, rfl⟩
    obtain ⟨node', hstep'⟩ := hstep node hnode
    exact ⟨node, node', _, _, hnode, hstep', mem_handleDataPayload.mpr ⟨frame, hframe, rfl⟩, rfl, rfl⟩

theorem writesTap_data (h : N.Ready frame dst payload cm) {header : ProtoVHeader}
    (hversion : header.version = versionV) (htype : header.packetType = typeData) (data : Bytes) :
    N.WritesTap dest (packProtoVDatagram header payload) data ↔ N.Accepts payload dest data := by
  refine writesTap_iff (fun node hnode => ?_) data
  have hlen : (packProtoVDatagram header payload).length ≤ node.packetBuf.length := by
    rw [h.packetBuf dest node hnode, packProtoVDatagram, List.length_append, length_encode,
      Nat.add_comm]
    exact h.fits
  exact step_data hversion htype hlen

/-- Whoever listens at `dest` has the address `dst`. -/
def Hosts (N : Network) (dst : MacID) (dest : Supernode.Dest) : Prop :=
  ∃ node, N.listener dest = some node ∧ node.edge.macAddr = dst

/-- A packet of the fast path has its payload handled by an edge it is for, and by no other.
GOLINE: edge/handlers.go:68-96 -/
theorem writesTap_vFuze (h : N.Ready frame dst payload cm)
    (hon : ∀ node, N.listener dest = some node → node.edge.enableVFuze = true) (data : Bytes) :
    N.WritesTap dest (versionVFuze :: dst.bytes ++ payload) data ↔
      N.Hosts dst dest ∧ N.Accepts payload dest data := by
  have hlen : ∀ node, N.listener dest = some node →
      (versionVFuze :: dst.bytes ++ payload).length ≤ node.packetBuf.length := by
    intro node hnode
    have hfits : payload.length + 30 ≤ defaultBufferSize := h.fits
    rw [h.packetBuf dest node hnode, List.length_append, List.length_cons, dst.length_eq]
    omega
  by_cases hhost : N.Hosts dst dest
  · rw [and_iff_right hhost]
    refine writesTap_iff (fun node hnode => ?_) data
    obtain ⟨node', hnode', hmac⟩ := hhost
    cases hnode.symm.trans hnode'
    exact step_vFuze (hon node hnode) (by rw [hmac]) (hlen node hnode)
  · refine iff_of_false ?_ fun hboth => hhost hboth.1
    rintro ⟨node, node1, out, w, hnode, hstep, hw, -⟩
    obtain ⟨node', hskip⟩ := step_vFuze_other (fun hmac => hhost ⟨node, hnode, hmac⟩) (hlen node hnode)
    cases hskip.symm.trans hstep
    cases hw

/-! ### Both paths -/

section

variable (v : N.supernode.registry.Valid hashCommunity) (h : N.Ready frame dst payload cm)
include v h

theorem tapWrites_data
    (hmode : N.sender.edge.enableVFuze = false ∨ Tuntap.isBroadcast dst.bytes = true) :
    N.tapWrites frame = {x | N.Relays cm dst x.1 ∧ N.Accepts payload x.1 x.2} := by
  ext ⟨dest, data⟩
  constructor
  · rintro ⟨packet, packet', hsend, hfwd, hwrite⟩
    rw [(sends_data h hmode packet).mp hsend] at hfwd
    obtain ⟨rfl, hrelays⟩ := (forwards_data v h rfl dest packet').mp hfwd
    exact ⟨hrelays, (writesTap_data h rfl rfl data).mp hwrite⟩
  · rintro ⟨hrelays, hdata⟩
    exact ⟨_, _, (sends_data h hmode _).mpr rfl, (forwards_data v h rfl dest _).mpr ⟨rfl, hrelays⟩,
      (writesTap_data h rfl rfl data).mpr hdata⟩

end

/-- The fast path delivers at `dest`: its indexes lead there, and the edge that listens there
has the destination address.
GOLINE: supernode/handlers.go:248-271, edge/handlers.go:68-96 -/
def FastReaches (N : Network) (dst : MacID) (dest : Supernode.Dest) : Prop :=
  (∃ target, N.supernode.fastPathTarget dst.bytes N.addr = some target ∧ N.Reaches target dest) ∧
    N.Hosts dst dest

theorem tapWrites_vFuze (h : N.Ready frame dst payload cm)
    (hsender : N.sender.edge.enableVFuze = true)
    (hon : ∀ dest node, N.listener dest = some node → node.edge.enableVFuze = true)
    (hb : ¬ Tuntap.isBroadcast dst.bytes = true) :
    N.tapWrites frame = {x | N.FastReaches dst x.1 ∧ N.Accepts payload x.1 x.2} := by
  ext ⟨dest, data⟩
  constructor
  · rintro ⟨packet, packet', hsend, hfwd, hwrite⟩
    rw [(sends_vFuze h hsender hb packet).mp hsend] at hfwd
    obtain ⟨rfl, htarget⟩ := (forwards_vFuze dest packet').mp hfwd
    obtain ⟨hhost, hdata⟩ := (writesTap_vFuze h (hon dest) data).mp hwrite
    exact ⟨⟨htarget, hhost⟩, hdata⟩
  · rintro ⟨⟨htarget, hhost⟩, hdata⟩
    exact ⟨_, _, (sends_vFuze h hsender hb _).mpr rfl, (forwards_vFuze dest _).mpr ⟨rfl, htarget⟩,
      (writesTap_vFuze h (hon dest) data).mpr ⟨hhost, hdata⟩⟩

theorem Reaches.unique {dest' : Supernode.Dest} (h : N.Reaches edge dest)
    (h' : N.Reaches edge dest') : dest = dest' :=
  Option.some.inj (h.1.symm.trans h'.1)

theorem FastReaches.unique {dest' : Supernode.Dest} (h : N.FastReaches dst dest)
    (h' : N.FastReaches dst dest') : dest = dest' := by
  obtain ⟨⟨target, htarget, hreach⟩, -⟩ := h
  obtain ⟨⟨target', htarget', hreach'⟩, -⟩ := h'
  cases htarget.symm.trans htarget'
  exact hreach.unique hreach'

/-- The supernode can write to the edge, and whoever is there accepts the payload. -/
def Delivers (N : Network) (payload : Bytes) (edge : Edge) (dest : Supernode.Dest) : Prop :=
  N.Reaches edge dest ∧ ∃ data, N.Accepts payload dest data

/-- The supernode can write to no member of the community with the destination address. -/
def Misses (N : Network) (cm : CommunityRef) (dst : MacID) : Prop :=
  ∀ ref, (N.supernode.cms.cell cm).edges.lookup (macText dst) = some ref →
    ∀ dest, ¬ N.Reaches (N.supernode.edges.cell ref) dest

/-- Places `Fast`, of which there is at most one, are where the ordinary path delivers to
exactly when they are where it reaches the member, or where it alone delivers to among the
other members, or when neither delivers anywhere. -/
theorem delivers_same_iff {Fast : Supernode.Dest → Prop}
    (hunique : ∀ {dest dest'}, Fast dest → Fast dest' → dest = dest') :
    (∀ dest data, N.Accepts payload dest data → (Fast dest ↔ N.Relays cm dst dest)) ↔
      (∃ ref dest, (N.supernode.cms.cell cm).edges.lookup (macText dst) = some ref ∧
        N.Reaches (N.supernode.edges.cell ref) dest ∧ Fast dest) ∨
      (N.Misses cm dst ∧ ∃ dest, Fast dest ∧
        (∃ edge ∈ N.supernode.otherMembers cm (macText N.sender.edge.macAddr),
          N.Reaches edge dest) ∧
        ∀ edge ∈ N.supernode.otherMembers cm (macText N.sender.edge.macAddr),
          ∀ dest', N.Delivers payload edge dest' → dest' = dest) ∨
      ((∀ dest data, Fast dest → ¬ N.Accepts payload dest data) ∧
        (∀ ref, (N.supernode.cms.cell cm).edges.lookup (macText dst) = some ref →
          ∀ dest, ¬ N.Delivers payload (N.supernode.edges.cell ref) dest) ∧
        (N.Misses cm dst →
          ∀ edge ∈ N.supernode.otherMembers cm (macText N.sender.edge.macAddr),
            ∀ dest, ¬ N.Delivers payload edge dest)) := by
  constructor
  · intro hsame
    by_cases hfast : ∃ dest data, Fast dest ∧ N.Accepts payload dest data
    · obtain ⟨dest, data, hdest, haccepts⟩ := hfast
      rcases (hsame dest data haccepts).mp hdest with ⟨ref, href, hmember⟩ | ⟨hnot, hother⟩
      · exact .inl ⟨ref, dest, href, hmember, hdest⟩
      · refine .inr (.inl ⟨hnot, dest, hdest, hother, ?_⟩)
        rintro edge hedge dest' ⟨hreach, data', haccepts'⟩
        exact hunique ((hsame dest' data' haccepts').mpr (.inr ⟨hnot, edge, hedge, hreach⟩)) hdest
    · have hnone : ∀ dest data, N.Accepts payload dest data → ¬ N.Relays cm dst dest :=
        fun dest data haccepts hrelays =>
          hfast ⟨dest, data, (hsame dest data haccepts).mpr hrelays, haccepts⟩
      refine .inr (.inr ⟨fun dest data hdest haccepts => hfast ⟨dest, data, hdest, haccepts⟩, ?_, ?_⟩)
      · rintro ref href dest ⟨hreach, data, haccepts⟩
        exact hnone dest data haccepts (.inl ⟨ref, href, hreach⟩)
      · rintro hnot edge hedge dest ⟨hreach, data, haccepts⟩
        exact hnone dest data haccepts (.inr ⟨hnot, edge, hedge, hreach⟩)
  · rintro (⟨ref, dest, href, hmember, hdest⟩ | ⟨hnot, dest, hdest, ⟨edge, hedge, hreach⟩, honly⟩ |
      ⟨hfast, hmember, hothers⟩) dest' data haccepts
    · constructor
      · intro hdest'
        rw [hunique hdest' hdest]
        exact .inl ⟨ref, href, hmember⟩
      · rintro (⟨ref', href', hmember'⟩ | ⟨hnot, -⟩)
        · cases href.symm.trans href'
          rw [hmember'.unique hmember]
          exact hdest
        · exact absurd hmember (hnot ref href dest)
    · constructor
      · intro hdest'
        rw [hunique hdest' hdest]
        exact .inr ⟨hnot, edge, hedge, hreach⟩
      · rintro (⟨ref, href, hmember⟩ | ⟨-, edge', hedge', hreach'⟩)
        · exact absurd hmember (hnot ref href dest')
        · rw [honly edge' hedge' dest' ⟨hreach', data, haccepts⟩]
          exact hdest
    · refine iff_of_false (fun hdest => hfast dest' data hdest haccepts) ?_
      rintro (⟨ref, href, hreach⟩ | ⟨hnot, edge, hedge, hreach⟩)
      · exact hmember ref href dest' ⟨hreach, data, haccepts⟩
      · exact hothers hnot edge hedge dest' ⟨hreach, data, haccepts⟩

/-- **When the fast path agrees with the ordinary path.** The same is written to the same TAP
devices exactly when the frame is a broadcast, or the fast path reaches the member with the
destination address, or no such member can be reached and the fast path reaches the one
place at which another member accepts the payload, or nothing is delivered on either path.
GOLINE: edge/routines.go:186-213, supernode/handlers.go:235-271, supernode/wire.go:33-52 -/
theorem fastPath_agrees_iff (hs : Supernode.Reachable N.supernodePlatform N.supernode)
    (h : N.Ready frame dst payload cm) :
    (N.withVFuze true).tapWrites frame = (N.withVFuze false).tapWrites frame ↔
      Tuntap.isBroadcast dst.bytes = true ∨
      (∃ ref dest, (N.supernode.cms.cell cm).edges.lookup (macText dst) = some ref ∧
        N.Reaches (N.supernode.edges.cell ref) dest ∧ (N.withVFuze true).FastReaches dst dest) ∨
      (N.Misses cm dst ∧ ∃ dest, (N.withVFuze true).FastReaches dst dest ∧
        (∃ edge ∈ N.supernode.otherMembers cm (macText N.sender.edge.macAddr),
          N.Reaches edge dest) ∧
        ∀ edge ∈ N.supernode.otherMembers cm (macText N.sender.edge.macAddr),
          ∀ dest', N.Delivers payload edge dest' → dest' = dest) ∨
      ((∀ dest data, (N.withVFuze true).FastReaches dst dest → ¬ N.Accepts payload dest data) ∧
        (∀ ref, (N.supernode.cms.cell cm).edges.lookup (macText dst) = some ref →
          ∀ dest, ¬ N.Delivers payload (N.supernode.edges.cell ref) dest) ∧
        (N.Misses cm dst →
          ∀ edge ∈ N.supernode.otherMembers cm (macText N.sender.edge.macAddr),
            ∀ dest, ¬ N.Delivers payload edge dest)) := by
  have v := hs.valid
  have hoff : (N.withVFuze false).tapWrites frame =
      {x | N.Relays cm dst x.1 ∧ N.Accepts payload x.1 x.2} := by
    refine (tapWrites_data (N := N.withVFuze false) v (h.withVFuze false) (.inl rfl)).trans ?_
    exact Set.ext fun x => and_congr_right fun _ => accepts_withVFuze
  by_cases hb : Tuntap.isBroadcast dst.bytes = true
  · refine iff_of_true ?_ (.inl hb)
    rw [hoff]
    refine (tapWrites_data (N := N.withVFuze true) v (h.withVFuze true) (.inr hb)).trans ?_
    exact Set.ext fun x => and_congr_right fun _ => accepts_withVFuze
  · have hfast : (N.withVFuze true).tapWrites frame =
        {x | (N.withVFuze true).FastReaches dst x.1 ∧ N.Accepts payload x.1 x.2} := by
      refine (tapWrites_vFuze (h.withVFuze true) rfl (listener_withVFuze N true) hb).trans ?_
      exact Set.ext fun x => and_congr_right fun _ => accepts_withVFuze
    rw [hoff, hfast, or_iff_right hb, ← delivers_same_iff FastReaches.unique]
    constructor
    · intro hsets dest data haccepts
      have hdest := Set.ext_iff.mp hsets (dest, data)
      exact (and_congr_left_iff.mp hdest) haccepts
    · intro hsame
      ext ⟨dest, data⟩
      exact and_congr_left fun haccepts => hsame dest data haccepts

/-! ### A network of two members -/

/-- Who listens where. -/
def machineAt (dest : Supernode.Dest) : Option String :=
  if dest = .udp ⟨[192, 168, 0, 1], 1000, []⟩ then some "m"
  else if dest = .udp ⟨[192, 168, 0, 2], 1000, []⟩ then some "n"
  else none

/-- Machine `m` sends to the supernode; every write succeeds. -/
def twoMembers (s : Supernode) : Network where
  edgePlatform := Sample.edgePlatform
  sender := Sample.running (Sample.edge "c" "m" false [])
  senderEnv := Sample.edgeEnv
  addr := Sample.client 1
  supernodePlatform := Sample.platform
  supernode := s
  now := 0
  order := .stored
  up := fun _ => true
  snAddr := .udp ⟨[192, 168, 0, 254], 7777, []⟩
  listener := fun dest => (machineAt dest).map fun id => Sample.running (Sample.edge "c" id false [])
  listenerEnv := Sample.edgeEnv

def ipv4Frame (dst : MacID) : Bytes := dst.bytes ++ List.replicate 6 0 ++ [8, 0]

theorem length_ipv4Frame (dst : MacID) : (ipv4Frame dst).length = 14 := by
  simp [ipv4Frame, dst.length_eq]

/-- The type is read from the bytes after the two addresses, whatever follows them. -/
theorem getEthertype_ipv4Frame (dst : MacID) (stale : Bytes) :
    Tuntap.getEthertype (filled (ipv4Frame dst) stale) = .ok (.ok ⟨8, 0⟩) := by
  have hlen : ¬ (filled (ipv4Frame dst) stale).length < Tuntap.minFrameSize := by
    rw [filled, List.length_append, length_ipv4Frame, Tuntap.minFrameSize]
    omega
  have hfield : Tuntap.typeField (filled (ipv4Frame dst) stale) 12 = .ok (8, 0) := by
    simp [Tuntap.typeField, filled, ipv4Frame, index, List.getElem?_append_right, dst.length_eq]
  unfold Tuntap.getEthertype Tuntap.fastTaggingType Tuntap.fastEthertype
  rw [if_neg hlen, hfield]
  simp only [ok_bind, show (8, 0) ≠ Tuntap.dot1QTagType by decide,
    show (8, 0) ≠ Tuntap.dot1AdTagType by decide, if_false]
  rw [if_neg hlen, show 12 + Tuntap.Tagging.notTagged.size = 12 from rfl, hfield]
  rfl

/-- What has to hold of the state of the supernode. -/
def twoMembersCheck (s : Supernode) : Bool :=
  s.communities.lookup (hashCommunity (ascii "c")) = some 0 &&
  decide (macText (Machine.extGenerateMacFor (ascii "c") (ascii "m")) ∈ (s.cms.cell 0).edges) &&
  (s.edgesBySocket.lookup (Sample.client 1).string).isSome

theorem ready_twoMembers {s : Supernode} (hcheck : twoMembersCheck s = true) (dst : MacID) :
    (twoMembers s).Ready (ipv4Frame dst) dst (ipv4Frame dst) 0 := by
  simp only [twoMembersCheck, Bool.and_eq_true, decide_eq_true_eq] at hcheck
  obtain ⟨⟨hcommunity, hmember⟩, hindexed⟩ := hcheck
  have hlen := length_ipv4Frame dst
  have hframeBuf : (twoMembers s).sender.frameBuf.length = defaultBufferSize - protoVHeaderSize :=
    List.length_replicate
  exact {
    community := hcommunity
    registered := hmember
    indexed := hindexed
    connected := .inr rfl
    uplink := fun _ => rfl
    viaSupernode := rfl
    length := Nat.le_of_eq hlen.symm
    frameBuf := by rw [hlen, hframeBuf]; decide
    destination := by
      rw [ipv4Frame, List.append_assoc]
      exact List.take_left' dst.length_eq
    ethertype := ⟨⟨8, 0⟩, getEthertype_ipv4Frame dst _, by decide⟩
    processed := rfl
    fits := by rw [hlen]; decide
    packetBuf := by
      rintro dest node hnode
      obtain ⟨id, -, rfl⟩ := Option.map_eq_some_iff.mp hnode
      exact List.length_replicate }

def macOfN : MacID := Machine.extGenerateMacFor (ascii "c") (ascii "n")

/-- An IPv4 multicast address. -/
def multicastMAC : MacID := ⟨[1, 0, 94, 0, 0, 1], rfl⟩

/-- A frame for the other member arrives on both paths. -/
theorem fastPath_agrees_on_member :
    ∃ s, Supernode.Reachable Sample.platform s ∧
      ((twoMembers s).withVFuze true).tapWrites (ipv4Frame macOfN) =
        ((twoMembers s).withVFuze false).tapWrites (ipv4Frame macOfN) := by
  obtain ⟨s, hrun, hs⟩ := exists_of_passes
    (x := runEvents (Supernode.step Sample.platform) Sample.start
      [Supernode.registers "c" "m" 1, Supernode.registers "c" "n" 2])
    (p := fun s => twoMembersCheck s &&
      decide ((s.cms.cell 0).edges.lookup (macText macOfN) = some 1 ∧
        (s.withVFuze true).fastPathTarget macOfN.bytes (Sample.client 1) = some (s.edges.cell 1) ∧
        s.route (s.edges.cell 1) = some (.udp ⟨[192, 168, 0, 2], 1000, []⟩))) (by decide +kernel)
  rw [Bool.and_eq_true] at hs
  obtain ⟨hmember, htarget, hroute⟩ := of_decide_eq_true hs.2
  have hreach : Supernode.Reachable Sample.platform s := Sample.reachable_start.of_runEvents hrun
  refine ⟨s, hreach, ?_⟩
  have hhost : ((twoMembers s).withVFuze true).Hosts macOfN (.udp ⟨[192, 168, 0, 2], 1000, []⟩) :=
    ⟨_, rfl, rfl⟩
  exact (fastPath_agrees_iff (N := twoMembers s) hreach (ready_twoMembers hs.1 macOfN)).mpr
    (.inr (.inl ⟨1, _, hmember, ⟨hroute, rfl⟩, ⟨_, htarget, hroute, rfl⟩, hhost⟩))

/-- A multicast frame arrives at the other member on the ordinary path only. -/
theorem multicast_is_lost :
    ∃ s dest data, Supernode.Reachable Sample.platform s ∧
      (twoMembers s).Ready (ipv4Frame multicastMAC) multicastMAC (ipv4Frame multicastMAC) 0 ∧
      (dest, data) ∈ ((twoMembers s).withVFuze false).tapWrites (ipv4Frame multicastMAC) ∧
      (dest, data) ∉ ((twoMembers s).withVFuze true).tapWrites (ipv4Frame multicastMAC) := by
  obtain ⟨s, hrun, hs⟩ := exists_of_passes
    (x := runEvents (Supernode.step Sample.platform) Sample.start
      [Supernode.registers "c" "m" 1, Supernode.registers "c" "n" 2])
    (p := fun s => twoMembersCheck s &&
      decide ((s.cms.cell 0).edges.lookup (macText multicastMAC) = none ∧
        (s.withVFuze true).fastPathTarget multicastMAC.bytes (Sample.client 1) = none ∧
        s.edges.cell 1 ∈ s.otherMembers 0 (macText (Machine.extGenerateMacFor (ascii "c") (ascii "m"))) ∧
        s.route (s.edges.cell 1) = some (.udp ⟨[192, 168, 0, 2], 1000, []⟩))) (by decide +kernel)
  rw [Bool.and_eq_true] at hs
  obtain ⟨hmember, htarget, hother, hroute⟩ := of_decide_eq_true hs.2
  have hreach : Supernode.Reachable Sample.platform s := Sample.reachable_start.of_runEvents hrun
  have hready := ready_twoMembers hs.1 multicastMAC
  refine ⟨s, .udp ⟨[192, 168, 0, 2], 1000, []⟩,
    padFrame (ipv4Frame multicastMAC), hreach, hready, ?_, ?_⟩
  · rw [tapWrites_data hreach.valid (hready.withVFuze false) (.inl rfl)]
    exact ⟨(relays_unknown hmember).mpr ⟨_, hother, hroute, rfl⟩, _, _, rfl, rfl, rfl⟩
  · rw [tapWrites_vFuze (hready.withVFuze true) rfl (listener_withVFuze _ _) (by decide)]
    rintro ⟨⟨⟨target, hfast, -⟩, -⟩, -⟩
    cases htarget.symm.trans hfast

end Network

end N2nGo
