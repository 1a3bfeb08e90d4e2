import N2nGo.Analysis.Agreement

/-!
# Where packets go after a contact

`forwardPacket` looks at three fields of a record: the public IP and port, and the name
of a WebSocket connection, which takes precedence. A first registration sets all three.
A registration or a heartbeat over UDP sets the address and leaves the name; a heartbeat
over a WebSocket leaves the name too and overwrites the address. So packets follow the
last contact exactly when the transport is the one the record already has, or the
contact is a registration over a WebSocket (`delivery_follows_contact_iff`).
-/

set_option autoImplicit false

namespace N2nGo.Supernode

open N2nGo.Lib N2nGo.Protocol N2nGo.Messages

/-! ## Contacts -/

/-- In state `s` message `r` is accepted as a registration or a heartbeat of the edge with
record `ref`.
GOLINE: supernode/handlers.go:108-175 -/
inductive Accepted (P : Platform) (env : Env) (s : Supernode) (r : RawMessage) : EdgeRef → Prop where
  | register {reg : Message RegisterRequest} {s1 : Supernode} {ref : EdgeRef} {cm : CommunityRef} :
      toMessage P.codecs.registerRequest r = .ok reg →
      registerEdge P env s reg = .ok (s1, .ok (ref, cm)) → Accepted P env s r ref
  | heartbeat {pulse : Message HeartbeatPulse} {cm : CommunityRef} {id : Bytes} {s1 : Supernode}
      {changed : Bool} {ref : EdgeRef} :
      toMessage P.codecs.heartbeatPulse r = .ok pulse → s.getCommunity r = .ok cm →
      decryptMachineID P pulse.msg.encryptedMachineId = .ok id →
      refreshEdge env s cm { pulse with msg := { pulse.msg with clearMachineId := id } } =
        (s1, .ok changed) →
      (s.cms.cell cm).edges.lookup r.edgeMACAddr = some ref → Accepted P env s r ref

/-- Where packets to an address are written: the address itself, or the live connection of
that name. -/
def destOf (s : Supernode) : NetAddr → Option Dest
  | .udp a => some (.udp a)
  | .wss connID => if connID = [] then none else (s.wssConnections.lookup connID).map .wss

/-- A packet that `forwardPacket` sends: a ProtoV packet, or one of another version. -/
def Forwardable (packet : Bytes) : Prop :=
  IsProtoV packet ∨ ∃ b rest, packet = b :: rest ∧ b ≠ versionV

/-- Every packet forwarded to the edge is written once, to `dest`. -/
def SendsOnlyTo (s : Supernode) (edge : Edge) (dest : Dest) : Prop :=
  ∀ env packet, Forwardable packet →
    ∃ x err, forwardPacket env s [] packet edge = .ok ([x], err) ∧ x.dest = some dest

/-- The record that a message's sender has in the community the message names. -/
def senderRecord (s : Supernode) (r : RawMessage) : Option Edge :=
  (s.communities.lookup r.communityHash).bind fun cm => s.getEdge cm r.edgeMACAddr

/-- The contact is over the transport that the sender's record, if there is one, already
has, or it is a registration over a WebSocket. A UDP address has no zone. -/
def KeepsTransport (s : Supernode) (r : RawMessage) : Prop :=
  match r.fromAddr with
  | .udp a => a.zone = [] ∧ ∀ edge, s.senderRecord r = some edge → edge.wssConnID = []
  | .wss connID =>
    r.header.packetType = typeRegisterRequest ∨
      ∀ edge, s.senderRecord r = some edge → edge.wssConnID ≠ [] ∧
        s.wssConnections.lookup edge.wssConnID = s.wssConnections.lookup connID

variable {P : Platform} {env : Env} {s s' : Supernode} {r : RawMessage} {ref : EdgeRef}
  {edge : Edge} {dest : Dest}

theorem sendsOnlyTo_iff : SendsOnlyTo s edge dest ↔ s.route edge = some dest := by
  constructor
  · intro h
    obtain ⟨x, err, hfwd, hx⟩ := h ⟨0, fun _ => .stored, fun _ _ _ => true⟩ [0]
      (Or.inr ⟨0, [], rfl, by decide⟩)
    obtain ⟨err', hfwd', -⟩ := forwardPacket_of_ne_versionV ⟨0, fun _ => .stored, fun _ _ _ => true⟩ s []
      edge (show (0 : UInt8) ≠ versionV by decide) []
    rw [hfwd'] at hfwd
    cases hfwd
    exact hx
  · rintro hroute env packet (hp | ⟨b, rest, rfl, hb⟩)
    · obtain ⟨err, hfwd, -⟩ := forwardPacket_of_isProtoV env s [] edge hp
      exact ⟨_, err, hfwd, hroute⟩
    · obtain ⟨err, hfwd, -⟩ := forwardPacket_of_ne_versionV env s [] edge hb rest
      exact ⟨_, err, hfwd, hroute⟩

/-! ## The record after a contact -/

theorem senderRecord_eq_some {cm : CommunityRef}
    (hgroup : s.communities.lookup r.communityHash = some cm)
    (hmember : (s.cms.cell cm).edges.lookup r.edgeMACAddr = some ref) :
    s.senderRecord r = some (s.edges.cell ref) := by
  unfold senderRecord getEdge
  rw [hgroup, Option.bind_some, hmember]
  rfl

/-- The record that `RegisterEdge` returns is new, or it is the sender's with the address of
the contact. -/
theorem registerEdge_record {reg : Message RegisterRequest} {s1 : Supernode} {cm : CommunityRef}
    (hmsg : toMessage P.codecs.registerRequest r = .ok reg)
    (h : registerEdge P env s reg = .ok (s1, .ok (ref, cm))) :
    (s.senderRecord r = none ∧ ∃ c regMsg vip, regMsg.fromAddr = r.fromAddr ∧
        s1.edges.cell ref = newEdge env c regMsg vip) ∨
      s.senderRecord r = some (s.edges.cell ref) ∧
        s1.edges.cell ref = reRegistered env (s.edges.cell ref) reg := by
  obtain rfl : reg.toRawMessage = r := toMessage_ok hmsg
  rcases registerEdge_ok h with ⟨⟨e, he⟩, -⟩ | ⟨cm', s0, hcommunity, hcases⟩
  · cases he
  let withId (id : Bytes) : Message RegisterRequest :=
    { reg with msg := { reg.msg with clearMachineId := id } }
  have hnew : ∀ {edge}, s1.registry = s0.registry.enroll cm' edge →
      s1.edges.cell s0.edges.next = edge := by
    intro edge henroll
    show s1.registry.record s0.registry.records = edge
    rw [henroll]
    simp [Registry.enroll]
  rcases registerCommunity_ok hcommunity with ⟨⟨e, he⟩, -⟩ | ⟨cm1, hcm1, -, hfound⟩
  · cases he
  cases hcm1
  rcases hfound with ⟨rfl, hgroup, -⟩ | ⟨hfree, rfl, hcreate⟩
  · rcases hcases with ⟨⟨e, he⟩, -⟩ | ⟨id, -, ⟨vip, hmember, hres, henroll⟩ |
      ⟨ref', hmember, hres, hwrite⟩⟩
    · cases he
    · cases hres
      refine Or.inl ⟨?_, s0.cms.cell cm, withId id, vip, rfl, hnew henroll⟩
      unfold senderRecord getEdge
      rw [hgroup, Option.bind_some,
        show (s0.cms.cell cm).edges.lookup reg.edgeMACAddr = none from hmember]
      rfl
    · cases hres
      refine Or.inr ⟨senderRecord_eq_some hgroup hmember, ?_⟩
      show s1.registry.record ref = _
      rw [hwrite]
      simp only [Registry.write, Function.update_self]
      rfl
  · rcases hcases with ⟨⟨e, he⟩, -⟩ | ⟨id, -, ⟨vip, -, hres, henroll⟩ | ⟨ref', hmember, -⟩⟩
    · cases he
    · cases hres
      refine Or.inl ⟨?_, s0.cms.cell s.cms.next, withId id, vip, rfl, hnew henroll⟩
      unfold senderRecord
      rw [hfree]
      rfl
    · -- a community that was just created lists nobody
      rw [hcreate, show s.cms.next = s.registry.groups from rfl] at hmember
      simp [Registry.create] at hmember

theorem cell_indexed (s : Supernode) (ref : EdgeRef) (addr : NetAddr) :
    ((s.setWSSConnID ref addr).indexEdge ref).edges.cell ref = withConn addr (s.edges.cell ref) := by
  cases addr with
  | udp a => rfl
  | wss connID => exact Heap.cell_store_self ..

theorem accepted_record {out : List Sent} {err : Except Err Unit} (hacc : Accepted P env s r ref)
    (h : handle P env s r = .ok (s', out, err)) :
    (r.header.packetType = typeRegisterRequest ∧ s.senderRecord r = none ∧
        ∃ c regMsg vip, regMsg.fromAddr = r.fromAddr ∧
          s'.edges.cell ref = withConn r.fromAddr (newEdge env c regMsg vip)) ∨
      (r.header.packetType = typeRegisterRequest ∧ ∃ edge regMsg, s.senderRecord r = some edge ∧
        regMsg.fromAddr = r.fromAddr ∧
        s'.edges.cell ref = withConn r.fromAddr (reRegistered env edge regMsg)) ∨
      r.header.packetType ≠ typeRegisterRequest ∧ ∃ edge pulse, s.senderRecord r = some edge ∧
        pulse.fromAddr = r.fromAddr ∧ s'.edges.cell ref = refreshed env edge pulse := by
  cases hacc with
  | @register reg s1 _ cm hmsg hreg =>
    have htype := packetType_of_toMessage hmsg
    obtain ⟨f, out1, err1, hhandle, -⟩ := handleRegisterMessage_accepted hmsg hreg rfl
    rw [handle_register htype, hhandle] at h
    cases h
    have hcell := cell_indexed s1 ref r.fromAddr
    rcases registerEdge_record hmsg hreg with ⟨hnone, c, regMsg, vip, hfrom, hrec⟩ |
      ⟨hsome, hrec⟩
    · rw [hrec] at hcell
      exact Or.inl ⟨htype, hnone, c, regMsg, vip, hfrom, hcell⟩
    · rw [hrec] at hcell
      exact Or.inr (Or.inl ⟨htype, _, reg, hsome,
        congrArg RawMessage.fromAddr (toMessage_ok hmsg), hcell⟩)
  | @heartbeat pulse cm id s1 changed _ hmsg hcm hdec hrefresh hmember =>
    have htype := packetType_of_toMessage hmsg
    obtain ⟨hgroup, -⟩ := getCommunity_eq_ok_iff.mp hcm
    have hid : id = (s.edges.cell ref).machineID := by
      rcases refreshEdge_spec hrefresh with ⟨⟨e, he⟩, -⟩ | ⟨ref', hmember', hid, -⟩
      · cases he
      · rw [show ref = ref' from Option.some.inj (hmember.symm.trans
          ((congrArg _ (congrArg RawMessage.edgeMACAddr (toMessage_ok hmsg)).symm).trans hmember'))]
        exact hid
    subst hid
    obtain ⟨f, hhandle⟩ := handleHeartbeatMessage_accepted env hmsg hcm hmember hdec
    rw [handle_heartbeat htype, hhandle] at h
    cases h
    refine Or.inr (Or.inr ⟨?_, _, pulse, senderRecord_eq_some hgroup hmember,
      congrArg RawMessage.fromAddr (toMessage_ok hmsg), cell_withRecord_self ..⟩)
    rw [htype]
    decide

/-! ## The route after a contact -/

theorem route_eq_udp_iff {a : Net.UDPAddr} (hip : edge.publicIP = a.ip)
    (hport : edge.publicPort = a.port) :
    s.route edge = some (.udp a) ↔ a.zone = [] ∧ edge.wssConnID = [] := by
  unfold route
  by_cases hconn : edge.wssConnID = []
  · obtain ⟨ip, port, zone⟩ := a
    simp only at hip hport
    simp [hconn, Edge.udpAddr, hip, hport, eq_comm]
  · simp [hconn]

theorem route_eq_wss_iff {connID : Bytes} (hdest : s.destOf (.wss connID) = some dest) :
    s.route edge = some dest ↔ edge.wssConnID ≠ [] ∧
      s.wssConnections.lookup edge.wssConnID = s.wssConnections.lookup connID := by
  unfold destOf at hdest
  simp only at hdest
  split at hdest
  · cases hdest
  · obtain ⟨conn, hlook, rfl⟩ := Option.map_eq_some_iff.mp hdest
    unfold route
    by_cases hconn : edge.wssConnID = []
    · simp [hconn]
    · simp [hconn, hlook]

theorem route_withConn {connID : Bytes} (hdest : s.destOf (.wss connID) = some dest) (edge : Edge) :
    s.route (withConn (.wss connID) edge) = some dest := by
  refine (route_eq_wss_iff hdest).mpr ⟨?_, rfl⟩
  rintro (rfl : connID = [])
  cases hdest

theorem route_of_sameSetup (h : SameSetup s s') (edge : Edge) : s'.route edge = s.route edge := by
  unfold route
  rw [h.wssConnections]

/-- **Packets follow a contact exactly when it keeps the transport.** Message `r`, accepted as
a registration or a heartbeat of the edge with record `ref`, came from an address that
leads to `dest`.
GOLINE: supernode/handlers.go:108-175, supernode/wire.go:55-82 -/
theorem delivery_follows_contact_iff (P : Platform) (env : Env) (s s' : Supernode) (packet : Bytes)
    (addr : NetAddr) (r : RawMessage) (ref : EdgeRef) (dest : Dest) (out : List Sent)
    (hraw : newRawMessage packet addr = .ok (.ok r)) (hacc : Accepted P env s.counted r ref)
    (hdest : s.destOf addr = some dest)
    (h : step P s (.packet env packet addr) = .ok (s', out)) :
    SendsOnlyTo s' (s'.edges.cell ref) dest ↔ KeepsTransport s r := by
  obtain ⟨out1, err, hhandle, -⟩ := processPacket_message hraw h
  obtain rfl : r.fromAddr = addr := by
    obtain ⟨-, rfl⟩ := newRawMessage_ok hraw
    rfl
  rw [sendsOnlyTo_iff, route_of_sameSetup (sameSetup_processPacket h)]
  have hsender : s.counted.senderRecord r = s.senderRecord r := rfl
  have hrecord := accepted_record hacc hhandle
  rw [hsender] at hrecord
  unfold KeepsTransport
  cases haddr : r.fromAddr with
  | udp a =>
    rw [haddr] at hdest hrecord
    cases hdest
    rcases hrecord with ⟨-, hnone, c, regMsg, vip, hfrom, hcell⟩ |
      ⟨-, edge, regMsg, hsome, hfrom, hcell⟩ | ⟨-, edge, pulse, hsome, hfrom, hcell⟩
    · rw [hcell, hnone, route_eq_udp_iff (by simp [withConn, newEdge, hfrom, addrToIP])
        (by simp [withConn, newEdge, hfrom, addrToPort])]
      simp [withConn, newEdge]
    · rw [hcell, hsome, route_eq_udp_iff (by simp [withConn, reRegistered, hfrom, addrToIP])
        (by simp [withConn, reRegistered, hfrom, addrToPort])]
      simp [withConn, reRegistered]
    · rw [hcell, hsome, route_eq_udp_iff (by simp [refreshed, hfrom, addrToIP])
        (by simp [refreshed, hfrom, addrToPort])]
      simp [refreshed]
  | wss connID =>
    rw [haddr] at hdest hrecord
    rcases hrecord with ⟨htype, -, c, regMsg, vip, -, hcell⟩ |
      ⟨htype, edge, regMsg, -, -, hcell⟩ | ⟨htype, edge, pulse, hsome, -, hcell⟩
    · rw [hcell]
      exact iff_of_true (route_withConn hdest _) (Or.inl htype)
    · rw [hcell]
      exact iff_of_true (route_withConn hdest _) (Or.inl htype)
    · rw [hcell, hsome, route_eq_wss_iff hdest]
      simp [htype, refreshed]

/-! ## One edge, two transports -/

/-- What the request of machine `m` in `c` says. -/
def registration : RegisterRequest := ⟨[], [], ascii "c", ascii "m", []⟩

/-- A registration of machine `m` in `c` that arrives from `addr`. -/
def registrationFrom (addr : NetAddr) : RawMessage :=
  Sample.requestMessage typeRegisterRequest (ascii "c") (ascii "m") addr

def registrationPacket : Bytes := Sample.request typeRegisterRequest (ascii "c") (ascii "m")

/-- `RegisterEdge` accepts the registration under the record. -/
def acceptsAs (ref : EdgeRef) (s : Supernode) (addr : NetAddr) : Bool :=
  Passes (registerEdge Sample.platform Sample.env s ⟨registrationFrom addr, registration⟩)
    fun res => match res.2 with
      | .ok (ref', _) => ref' == ref
      | .error _ => false

theorem accepted_of_acceptsAs {ref : EdgeRef} {addr : NetAddr} (h : acceptsAs ref s addr = true) :
    Accepted Sample.platform Sample.env s (registrationFrom addr) ref := by
  obtain ⟨⟨s1, res⟩, hreg, hres⟩ := exists_of_passes h
  cases res with
  | error e => cases hres
  | ok res =>
    obtain ⟨ref', cm⟩ := res
    obtain rfl : ref' = ref := eq_of_beq hres
    exact .register (toMessage_of_decode rfl rfl) hreg

/-- Machine `m` registers after machine `n`: packets for it go to the address it came from. -/
theorem delivery_follows_second_registration :
    ∃ s s' out, step Sample.platform s (registers "c" "m" 1) = .ok (s', out) ∧
      macText "c" "n" ∈ s'.edgesByMAC ∧
      SendsOnlyTo s' (s'.edges.cell 1) (.udp ⟨[192, 168, 0, 1], 1000, []⟩) := by
  obtain ⟨s, -, hs⟩ := exists_of_passes
    (x := runEvents (step Sample.platform) Sample.start [registers "c" "n" 2])
    (p := fun s => acceptsAs 1 s.counted (Sample.client 1) &&
      (s.senderRecord (registrationFrom (Sample.client 1))).isNone &&
      Passes (step Sample.platform s (registers "c" "m" 1))
        fun res => decide (macText "c" "n" ∈ res.1.edgesByMAC)) (by decide +kernel)
  obtain ⟨hs, hstep⟩ := Bool.and_eq_true_iff.mp hs
  obtain ⟨hacc, hnone⟩ := Bool.and_eq_true_iff.mp hs
  obtain ⟨⟨s', out⟩, hstep, hmem⟩ := exists_of_passes hstep
  refine ⟨s, s', out, hstep, of_decide_eq_true hmem,
    (delivery_follows_contact_iff Sample.platform Sample.env s s' registrationPacket
      (Sample.client 1) (registrationFrom (Sample.client 1)) 1 _ out
      (Sample.newRawMessage_request ..) (accepted_of_acceptsAs hacc) rfl hstep).mpr ?_⟩
  refine ⟨rfl, fun edge hedge => ?_⟩
  rw [Option.isNone_iff_eq_none.mp hnone] at hedge
  cases hedge

/-- Machine `m` registers over WebSocket connection 7 and then over UDP. Packets still go to
the connection. -/
theorem delivery_stays_on_connection :
    ∃ s s' out, Reachable Sample.platform s ∧
      newRawMessage registrationPacket (Sample.client 1) =
        .ok (.ok (registrationFrom (Sample.client 1))) ∧
      Accepted Sample.platform Sample.env s.counted (registrationFrom (Sample.client 1)) 0 ∧
      step Sample.platform s (.packet Sample.env registrationPacket (Sample.client 1)) =
        .ok (s', out) ∧
      ¬ SendsOnlyTo s' (s'.edges.cell 0) (.udp ⟨[192, 168, 0, 1], 1000, []⟩) ∧
      SendsOnlyTo s' (s'.edges.cell 0) (.wss 7) := by
  obtain ⟨s, hrun, hs⟩ := exists_of_passes
    (x := runEvents (step Sample.platform) Sample.start [.connect (ascii "ws-1") 7,
      .packet Sample.env registrationPacket (.wss (ascii "ws-1"))])
    (p := fun s => acceptsAs 0 s.counted (Sample.client 1) &&
      Passes (step Sample.platform s (.packet Sample.env registrationPacket (Sample.client 1)))
        fun res => decide (res.1.route (res.1.edges.cell 0) = some (.wss 7))) (by decide +kernel)
  obtain ⟨hacc, hstep⟩ := Bool.and_eq_true_iff.mp hs
  obtain ⟨⟨s', out⟩, hstep, hroute⟩ := exists_of_passes hstep
  have hroute : s'.route (s'.edges.cell 0) = some (.wss 7) := of_decide_eq_true hroute
  refine ⟨s, s', out, Sample.reachable_start.of_runEvents hrun, Sample.newRawMessage_request ..,
    accepted_of_acceptsAs hacc, hstep, ?_, sendsOnlyTo_iff.mpr hroute⟩
  rw [sendsOnlyTo_iff, hroute]
  decide

end N2nGo.Supernode
