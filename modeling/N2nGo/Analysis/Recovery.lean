import N2nGo.Model.Recovery
import N2nGo.Analysis.Sample
import N2nGo.Analysis.EdgeEvents

/-!
# Registering again after a restart

An edge that is told to register again asks for the key of the supernode, then for its
registration, and waits for both without a deadline. While it waits it sends no heartbeat
and no report, and ignores further requests to register. One datagram of this exchange
that is lost, or an answer that does not help, leaves it waiting for ever
(`stuck_after_loss`). As long as the exchange is not disturbed, one of its datagrams is
under way whenever the edge waits (`never_stuck`).
-/

set_option autoImplicit false

namespace N2nGo

open N2nGo.Lib N2nGo.Protocol N2nGo.Messages

/-! ## What does not touch the registration of an edge -/

namespace EdgeClient

variable {P : Platform} {env : Env} {e e' : EdgeClient} {out out' : List Output}
  {err : Except Err Unit}

/-- The edge is on the same host and waits for its registration or not, as before. -/
structure SameLogin (e e' : EdgeClient) : Prop extends SameHost e e' where
  waiting : e'.isWaitingForSNRetryRegisterResponse = e.isWaitingForSNRetryRegisterResponse

theorem SameLogin.refl (e : EdgeClient) : SameLogin e e := ⟨.refl e, rfl⟩

theorem SameLogin.trans {e'' : EdgeClient} (h : SameLogin e e') (h' : SameLogin e' e'') :
    SameLogin e e'' := ⟨h.toSameHost.trans h'.toSameHost, h'.waiting.trans h.waiting⟩

theorem sameLogin_withPeers (e : EdgeClient) (reg : PeerRegistry) : SameLogin e (e.withPeers reg) :=
  ⟨⟨rfl, rfl, rfl, rfl, rfl, rfl⟩, rfl⟩

theorem sameLogin_withSeq (e : EdgeClient) (seq : UInt32) : SameLogin e (e.withSeq seq) :=
  ⟨⟨rfl, rfl, rfl, rfl, rfl, rfl⟩, rfl⟩

theorem sameLogin_sendStruct {T : Type} [PacketTyped T] {codec : Codec T} {s : T}
    {dst : Option Bytes} {strategy : UDPWriteStrategy}
    (h : e.sendStruct codec P env out s dst strategy = .ok (e', out', err)) : SameLogin e e' := by
  obtain ⟨seq, more, rfl, -⟩ := sendStruct_ok h
  exact sameLogin_withSeq e seq

theorem sameLogin_sendHeartbeat (h : e.sendHeartbeat P env = .ok (e', out, err)) :
    SameLogin e e' := by
  unfold sendHeartbeat at h
  split at h
  · cases h
    exact .refl _
  · obtain ⟨encrypted, -, h⟩ := bind_eq_ok.mp h
    cases encrypted with
    | error err =>
      cases h
      exact .refl _
    | ok encMachineID => exact sameLogin_sendStruct h

theorem sameLogin_sendP2PInfos (h : e.sendP2PInfos P env = .ok (e', out, err)) : SameLogin e e' := by
  unfold sendP2PInfos at h
  split at h
  · cases h
    exact .refl _
  · split at h
    · cases h
      exact .refl _
    · exact (sameLogin_withPeers e _).trans (sameLogin_sendStruct h)

theorem sameLogin_pingPeer (P : Platform) (env : Env) (e : EdgeClient) (out : List Output)
    (p : PeerRef) (n : ℕ) (status : P2PCapacity) :
    SameLogin e (e.pingPeer P env out p n status).1 := by
  obtain ⟨seq, more, fault, hping⟩ := pingPeer_eq P env e out p n status
  rw [hping]
  exact (sameLogin_withPeers e _).trans (sameLogin_withSeq _ seq)

theorem sameLogin_pingPeers (P : Platform) (env : Env) (status : P2PCapacity) (ps : List PeerRef)
    (e : EdgeClient) (out : List Output) : SameLogin e (pingPeers P env status ps e out).1 := by
  induction ps generalizing e out with
  | nil => exact .refl e
  | cons p ps ih =>
    have h1 := sameLogin_pingPeer P env e out p 3 status
    unfold pingPeers
    split
    · next hping =>
      rw [hping] at h1
      exact h1
    · next hping =>
      rw [hping] at h1
      exact h1.trans (ih _ _)

theorem sameLogin_handleP2PUpdates (P : Platform) (env : Env) (e : EdgeClient) :
    SameLogin e (e.handleP2PUpdates P env).1 := by
  have h1 := sameLogin_pingPeers P env .pending (e.peers.getP2PUnknownPeers env.order) e []
  unfold handleP2PUpdates updatePeersP2PStates
  split
  · next hphase =>
    rw [hphase] at h1
    exact h1
  · next e1 out1 hphase =>
    rw [hphase] at h1
    have h2 := h1.trans (sameLogin_withPeers e1 (e1.peers.getP2PendingPeers env.now env.order).1)
    have h3 := h2.trans (sameLogin_pingPeers P env .pending
      (e1.peers.getP2PendingPeers env.now env.order).2 _ out1)
    simp only
    split
    · next hphase' =>
      rw [hphase'] at h3
      exact h3
    · next hphase' =>
      rw [hphase'] at h3
      exact h3.trans (sameLogin_pingPeers ..)

theorem sameLogin_handleTAP {frameBuf : Bytes} {n : ℕ}
    (h : e.handleTAP P env frameBuf n = .ok (e', out)) : SameLogin e e' := by
  obtain ⟨-, seq, sent, rfl⟩ := sent_handleTAP h
  exact ⟨⟨rfl, rfl, rfl, rfl, rfl, rfl⟩, rfl⟩

/-! ## The requests of the exchange -/

/-- The edge talks to the supernode at `addr` over UDP. -/
structure OverUDP (addr : Net.UDPAddr) (e : EdgeClient) : Prop where
  conn : e.conn = true
  noWSS : e.wssTransport = false
  supernodeAddr : e.supernodeAddr = some addr

theorem OverUDP.transmit {addr : Net.UDPAddr} (h : OverUDP addr e) (env : Env) (packet : Bytes)
    (udpSocket : Option Net.UDPAddr) :
    e.transmit env [] packet udpSocket = ([write env [] (.udp udpSocket) packet],
      if (write env [] (.udp udpSocket) packet).ok then .ok () else .error .failedToSendUDP) := by
  unfold EdgeClient.transmit
  simp only [h.noWSS, h.conn, Bool.false_eq_true, if_false, not_true_eq_false, List.nil_append]

theorem OverUDP.of_sameHost {addr : Net.UDPAddr} (h : OverUDP addr e) (hsame : SameHost e e') :
    OverUDP addr e' :=
  ⟨hsame.conn.trans h.conn, hsame.wssTransport.trans h.noWSS,
    hsame.supernodeAddr.trans h.supernodeAddr⟩

end EdgeClient

namespace Recovery

/-- The packet holds the message. -/
def Holds {T : Type} [PacketTyped T] (codec : Codec T) (packet : Bytes) (s : T) : Prop :=
  ∀ addr, ∃ r m, newRawMessage packet addr = .ok (.ok r) ∧ toMessage codec r = .ok m ∧ m.msg = s

/-- One side encodes the message, and the other side decodes it. -/
def Conveyed {T : Type} (codec codec' : Codec T) (s : T) : Prop :=
  ∃ payload, codec.encode s = some payload ∧ codec'.decode payload = some s

theorem holds_pack {T : Type} [PacketTyped T] {codec : Codec T} {header : ProtoVHeader}
    {payload : Bytes} {s : T} (hversion : header.version = versionV)
    (htype : header.packetType = PacketTyped.packetType T) (hdec : codec.decode payload = some s) :
    Holds codec (packProtoVDatagram header payload) s := fun addr =>
  ⟨_, _, newRawMessage_pack hversion payload addr, toMessage_of_decode htype hdec, rfl⟩

/-- Protobuf carries the requests of the edge.
GOLINE: edge/setup.go:330-346 -/
structure CarriesRequests (P : Supernode.Platform) (Q : EdgeClient.Platform) (e : EdgeClient) :
    Prop where
  key : Conveyed Q.codecs.snPublicSecret P.codecs.snPublicSecret ⟨true, []⟩
  register : ∀ enc, Conveyed Q.codecs.registerRequest P.codecs.registerRequest
    ⟨Net.hardwareAddrString e.macAddr.bytes, e.id, e.community, enc, []⟩

/-- What a registration is answered with.
GOLINE: supernode/handlers.go:138-140 -/
def answerFor (edge : Edge) : RegisterResponse := ⟨true, edge.virtualIP.string, edge.vNetMaskLen⟩

/-- Protobuf carries the answers for the records of the supernode. -/
def CarriesRecords (P : Supernode.Platform) (Q : EdgeClient.Platform) (s : Supernode) : Prop :=
  ∀ ref, s.registry.Known ref → Conveyed P.codecs.registerResponse Q.codecs.registerResponse
    (answerFor (s.edges.cell ref))

/-- Protobuf carries the answers of the supernode. -/
structure CarriesAnswers (P : Supernode.Platform) (Q : EdgeClient.Platform) (s : Supernode) :
    Prop where
  key : Conveyed P.codecs.snPublicSecret Q.codecs.snPublicSecret ⟨false, s.pem⟩
  refused : Conveyed P.codecs.registerResponse Q.codecs.registerResponse ⟨false, [], 0⟩
  registered : CarriesRecords P Q s

/-- Protobuf carries the messages of the exchange. -/
def CarriesExchange (P : Supernode.Platform) (Q : EdgeClient.Platform) (w : Recovery) : Prop :=
  CarriesRequests P Q w.edge ∧ CarriesAnswers P Q w.sn

/-- A request of the exchange: for the key, or for the registration. -/
def IsRequest (P : Supernode.Platform) (packet : Bytes) : Prop :=
  (∃ s, Holds P.codecs.snPublicSecret packet s ∧ s.isRequest = true) ∨
    ∃ s, Holds P.codecs.registerRequest packet s

/-- An answer of the exchange. -/
def IsAnswer (Q : EdgeClient.Platform) (packet : Bytes) : Prop :=
  (∃ s, Holds Q.codecs.snPublicSecret packet s) ∨ ∃ s, Holds Q.codecs.registerResponse packet s

section Edge

open EdgeClient

variable {P : Supernode.Platform} {Q : EdgeClient.Platform} {env : EdgeClient.Env} {e e' : EdgeClient}
  {out : List EdgeClient.Output} {err : Except EdgeClient.Err Unit} {addr : Net.UDPAddr}

theorem sendStruct_uplink {T : Type} [PacketTyped T] {codec codec' : Codec T}
    {s : T} (hcarried : Conveyed codec codec' s) (hudp : OverUDP addr e)
    (h : e.sendStruct codec Q env [] s none .enforceSupernode = .ok (e', out, err))
    (hok : err = .ok () ∨ ∀ n dest data, env.writeOk n dest data = true) :
    ∃ packet ∈ uplink addr out, Holds codec' packet s := by
  obtain ⟨payload, hencode, hdecode⟩ := hcarried
  have hroute : e.udpAddrWithStrategy Q none .enforceSupernode = .ok (some addr) := by
    unfold udpAddrWithStrategy
    simp only [hudp.noWSS, hudp.supernodeAddr, Bool.false_eq_true, if_false]
  obtain ⟨header, hheader, hversion, htype⟩ : ∃ header,
      e.edgeHeader env (PacketTyped.packetType T) none = .ok (e.withSeq (e.seq + 1), header) ∧
        header.version = versionV ∧ header.packetType = PacketTyped.packetType T :=
    ⟨_, rfl, rfl, rfl⟩
  have hudp1 : OverUDP addr (e.withSeq (e.seq + 1)) := ⟨hudp.conn, hudp.noWSS, hudp.supernodeAddr⟩
  unfold sendStruct at h
  rw [hroute] at h
  simp only [hheader, ok_bind, hencode, hudp1.transmit] at h
  obtain ⟨-, hsent⟩ := Prod.mk.inj (Except.ok.inj h)
  obtain ⟨rfl, rfl⟩ := Prod.mk.inj hsent
  refine ⟨packProtoVDatagram header payload, ?_, holds_pack hversion htype hdecode⟩
  have hwritten : (write env [] (.udp (some addr)) (packProtoVDatagram header payload)).ok = true := by
    rcases hok with herr | hall
    · split at herr
      · assumption
      · cases herr
    · simp [write, hall]
  unfold uplink
  refine List.mem_map.mpr ⟨_, List.mem_filter.mpr ⟨List.mem_singleton_self _, ?_⟩, rfl⟩
  rw [hwritten, Bool.and_true]
  exact decide_eq_true rfl

section

variable (hPQ : CarriesRequests P Q e) (hudp : OverUDP addr e)
include hPQ hudp

theorem requestSNPublicKey_uplink (h : e.requestSNPublicKey Q env [] = .ok (e', out, .ok ())) :
    ∃ packet ∈ uplink addr out, IsRequest P packet := by
  obtain ⟨packet, hmem, hholds⟩ := sendStruct_uplink hPQ.key hudp h (Or.inl rfl)
  exact ⟨packet, hmem, Or.inl ⟨_, hholds, rfl⟩⟩

/-- The request for the registration is under way, if the key can be used and the request
written. -/
theorem requestRegister_uplink {key enc : Bytes} (hkey : e.snPubKey = some key)
    (henc : Q.encryptOAEP key e.machineId = some enc)
    (hok : ∀ n dest data, env.writeOk n dest data = true)
    (h : e.requestRegister Q env [] = .ok (e', out, err)) :
    ∃ packet ∈ uplink addr out, IsRequest P packet := by
  have hencrypted : e.encryptedMachineID Q = .ok (.ok enc) := by
    unfold encryptedMachineID
    rw [hkey]
    simp only [deref, ok_bind, henc]
  unfold requestRegister at h
  rw [hencrypted, ok_bind] at h
  obtain ⟨packet, hmem, hholds⟩ := sendStruct_uplink (hPQ.register enc) hudp h (Or.inr hok)
  exact ⟨packet, hmem, Or.inr ⟨_, hholds⟩⟩

/-! ## What the edge makes of a packet -/

theorem handlePacket_waits {packet : Bytes} {src : NetAddr}
    (h : e.handlePacket Q env packet src = .ok (e', out))
    (hbefore : e.isWaitingForSNRetryRegisterResponse = false)
    (hafter : e'.isWaitingForSNRetryRegisterResponse = true) :
    ∃ packet ∈ uplink addr out, IsRequest P packet := by
  have hdiffer : ∀ {b : Bool}, b = false → b = true → ∃ packet ∈ uplink addr out, IsRequest P packet :=
    fun hf ht => by
      rw [hf] at ht
      cases ht
  rcases handlePacket_ok h with ⟨-, rfl, -⟩ | ⟨r, err, -, hhandle⟩
  · exact hdiffer hbefore hafter
  cases handle_handled hhandle with
  | register _ _ hwaits _ => exact hdiffer hbefore hwaits
  | accepted _ _ _ => cases hafter
  | retried _ _ hsend => exact requestSNPublicKey_uplink hPQ hudp hsend
  | _ => exact hdiffer hbefore hafter

end

/-- The answer helps: the key it holds parses and encrypts the machine ID, and a registration
it answers was accepted. -/
def Helps (Q : EdgeClient.Platform) (e : EdgeClient) (packet : Bytes) : Prop :=
  (∀ s, Holds Q.codecs.snPublicSecret packet s → ∃ key enc,
    Q.publicKeyFromPEMData s.pemData = some key ∧ Q.encryptOAEP key e.machineId = some enc) ∧
  ∀ s, Holds Q.codecs.registerResponse packet s → s.isRegisterOk = true

theorem handlePacket_answer (hPQ : CarriesRequests P Q e) (hudp : OverUDP addr e) {packet : Bytes}
    {src : NetAddr} (hanswer : IsAnswer Q packet) (hhelps : Helps Q e packet)
    (hok : ∀ n dest data, env.writeOk n dest data = true)
    (h : e.handlePacket Q env packet src = .ok (e', out))
    (hbefore : e.isWaitingForSNRetryRegisterResponse = true)
    (hafter : e'.isWaitingForSNRetryRegisterResponse = true) :
    ∃ packet ∈ uplink addr out, IsRequest P packet := by
  have hhandle : ∀ {r}, newRawMessage packet src = .ok (.ok r) →
      ∃ err, e.handle Q env r = .ok (e', out, err) := by
    intro r hraw
    rcases handlePacket_ok h with ⟨⟨err, hraw'⟩, -⟩ | ⟨r', err, hraw', hhandle⟩
    · rw [hraw] at hraw'
      cases hraw'
    · rw [hraw] at hraw'
      cases hraw'
      exact ⟨err, hhandle⟩
  rcases hanswer with ⟨s, hholds⟩ | ⟨s, hholds⟩
  · -- with the key, the edge asks for its registration
    obtain ⟨key, enc, hkey, henc⟩ := hhelps.1 s hholds
    obtain ⟨r, m, hraw, hm, rfl⟩ := hholds src
    obtain ⟨err, hhandle⟩ := hhandle hraw
    have htype : r.header.packetType = typeSNPublicSecret := packetType_of_toMessage hm
    rw [handle_snPublicSecret htype, handleSNPublicSecretMessage, withMessage, hm] at hhandle
    simp only [hkey] at hhandle
    rw [if_pos hbefore] at hhandle
    have hudp1 : OverUDP addr (e.withKey key) := ⟨hudp.conn, hudp.noWSS, hudp.supernodeAddr⟩
    have hPQ1 : CarriesRequests P Q (e.withKey key) := ⟨hPQ.key, hPQ.register⟩
    exact requestRegister_uplink hPQ1 hudp1 rfl henc hok hhandle
  · -- with the registration, the edge waits no longer
    have hregistered := hhelps.2 s hholds
    obtain ⟨r, m, hraw, hm, rfl⟩ := hholds src
    obtain ⟨err, hhandle⟩ := hhandle hraw
    have htype : r.header.packetType = typeRegisterResponse := packetType_of_toMessage hm
    rw [handle_registerResponse htype, handleRegisterResponseMessage, withMessage, hm] at hhandle
    simp only at hhandle
    rw [if_neg (not_not.mpr hregistered)] at hhandle
    obtain ⟨⟨e1, out1, err1⟩, hsend, hhandle⟩ := bind_eq_ok.mp hhandle
    obtain ⟨seq, more, rfl, -⟩ := sendStruct_ok hsend
    cases hhandle
    cases hafter

theorem handlePacket_sameHost {packet : Bytes} {src : NetAddr}
    (h : e.handlePacket Q env packet src = .ok (e', out)) : SameHost e e' := by
  rcases handlePacket_ok h with ⟨-, rfl, -⟩ | ⟨r, err, -, hhandle⟩
  · exact .refl _
  · exact (handle_handled hhandle).sameHost

end Edge

/-! ## What the supernode makes of a request -/

section Supernode

open Supernode

variable {P : Supernode.Platform} {Q : EdgeClient.Platform} {env : Supernode.Env} {s s' : Supernode}
  {out : List Sent} {addr : Net.UDPAddr} {packet : Bytes}

theorem downlink_append (addr : Net.UDPAddr) (out out' : List Sent) :
    downlink addr (out ++ out') = downlink addr out ++ downlink addr out' := by
  unfold downlink
  rw [List.filter_append, List.map_append]

theorem findWSSEdge_of_empty (h : s.wssConnections = ∅) (src : NetAddr) :
    s.findWSSEdge env src = none := by
  unfold findWSSEdge
  rw [List.find?_eq_none]
  intro edge _
  rw [h]
  simp

theorem sendStruct_downlink {T : Type} [PacketTyped T] {codec codec' : Codec T} {p : T}
    (hcarried : Conveyed codec codec' p) (hwss : s.wssConnections = ∅)
    (hok : ∀ n dest data, env.writeOk n dest data = true) {name : Bytes}
    {err : Except Supernode.Err Unit}
    (h : sendStruct codec env s [] p name (.udp addr) = .ok (out, err)) :
    ∃ packet ∈ downlink addr out, Holds codec' packet p := by
  obtain ⟨payload, hencode, hdecode⟩ := hcarried
  unfold sendStruct at h
  simp only [hencode, findWSSEdge_of_empty hwss, writeToUDP, hok, List.nil_append] at h
  cases h
  refine ⟨packProtoVDatagram (snHeader env (PacketTyped.packetType T) name) payload, ?_,
    holds_pack rfl rfl hdecode⟩
  unfold downlink
  refine List.mem_map.mpr ⟨_, List.mem_filter.mpr ⟨List.mem_singleton_self _, ?_⟩, rfl⟩
  exact Bool.and_eq_true_iff.mpr ⟨decide_eq_true rfl, rfl⟩

theorem known_indexEdge (s : Supernode) (ref : EdgeRef) : (s.indexEdge ref).registry.Known ref :=
  Or.inr ⟨(s.edges.cell ref).macAddr, AList.lookup_insert _⟩

section

variable (hPQ : CarriesAnswers P Q s') (hwss : s.wssConnections = ∅)
  (hok : ∀ n dest data, env.writeOk n dest data = true)
include hPQ hwss hok

theorem handleRegisterMessage_downlink {r : RawMessage} {reg : Message RegisterRequest}
    {err : Except Supernode.Err Unit} (hmsg : toMessage P.codecs.registerRequest r = .ok reg)
    (hsrc : r.fromAddr = .udp addr) (h : handleRegisterMessage P env s r = .ok (s', out, err)) :
    ∃ packet ∈ downlink addr out, IsAnswer Q packet := by
  have hanswer : ∀ {s1 : Supernode} {response : RegisterResponse} {out1 : List Sent} {err1},
      Conveyed P.codecs.registerResponse Q.codecs.registerResponse response →
      s1.wssConnections = ∅ →
      sendStruct P.codecs.registerResponse env s1 [] response reg.msg.communityName r.fromAddr =
        .ok (out1, err1) →
      ∃ packet ∈ downlink addr out1, IsAnswer Q packet := by
    intro s1 response out1 err1 hcarried hwss1 hsend
    rw [hsrc] at hsend
    obtain ⟨packet, hmem, hholds⟩ := sendStruct_downlink hcarried hwss1 hok hsend
    exact ⟨packet, hmem, Or.inr ⟨response, hholds⟩⟩
  have hregister := h
  unfold handleRegisterMessage withMessage at h
  rw [hmsg] at h
  obtain ⟨⟨s1, res⟩, hreg, h⟩ := bind_eq_ok.mp h
  have hwss1 : s1.wssConnections = ∅ := (sameSetup_registerEdge hreg).wssConnections.trans hwss
  cases res with
  | error e =>
    obtain ⟨f, out1, err1, hrefused, hsend⟩ :=
      answerRegister_error P env r reg.msg.communityName s1 e
    rw [hrefused] at h
    cases h
    exact hanswer hPQ.refused hwss1 hsend
  | ok res =>
    obtain ⟨ref, cm⟩ := res
    obtain ⟨f, out1, err1, haccepted, err', hsend⟩ := handleRegisterMessage_accepted hmsg hreg rfl
    rw [haccepted] at hregister
    cases hregister
    have hknown := known_indexEdge (s1.setWSSConnID ref r.fromAddr) ref
    obtain ⟨packet, hmem, his⟩ := hanswer (hPQ.registered ref hknown)
      ((sameSetup_indexed s1 ref r.fromAddr).wssConnections.trans hwss1) hsend
    rw [downlink_append]
    exact ⟨packet, List.mem_append_left _ hmem, his⟩

/-- **Every request of the exchange is answered**, if the answer can be written. -/
theorem processPacket_answers (hreq : IsRequest P packet)
    (h : s.processPacket P env packet (.udp addr) = .ok (s', out)) :
    ∃ packet ∈ downlink addr out, IsAnswer Q packet := by
  -- a request to register again may follow the answer
  have hhandled : ∀ {r}, newRawMessage packet (.udp addr) = .ok (.ok r) →
      ∃ out1 err, handle P env s.counted r = .ok (s', out1, err) ∧ r.fromAddr = .udp addr ∧
        ∀ d ∈ downlink addr out1, d ∈ downlink addr out := by
    intro r hraw
    obtain ⟨out1, err, hhandle, hout⟩ := processPacket_message hraw h
    obtain ⟨hp, rfl⟩ := newRawMessage_ok hraw
    refine ⟨out1, err, hhandle, rfl, fun d hd => ?_⟩
    rcases hout with rfl | hasked
    · exact hd
    · obtain ⟨xs, rfl, -⟩ := askForRegistration_ok hasked
      rw [downlink_append]
      exact List.mem_append_left _ hd
  have hwss' : s.counted.wssConnections = ∅ := hwss
  rcases hreq with ⟨req, hholds, hasks⟩ | ⟨req, hholds⟩
  · obtain ⟨r, m, hraw, hm, rfl⟩ := hholds (.udp addr)
    obtain ⟨out1, err, hhandle, hsrc, hsub⟩ := hhandled hraw
    have htype : r.header.packetType = typeSNPublicSecret := packetType_of_toMessage hm
    rw [handle_snPublicSecret htype, handleSNPublicSecretMessage, withMessage, hm] at hhandle
    simp only [hasks, not_true_eq_false, if_false] at hhandle
    obtain ⟨⟨out2, err2⟩, hsend, hhandle⟩ := bind_eq_ok.mp hhandle
    cases hhandle
    rw [hsrc] at hsend
    obtain ⟨d, hmem, hd⟩ := sendStruct_downlink hPQ.key hwss' hok hsend
    exact ⟨d, hsub d hmem, Or.inl ⟨_, hd⟩⟩
  · obtain ⟨r, m, hraw, hm, rfl⟩ := hholds (.udp addr)
    obtain ⟨out1, err, hhandle, hsrc, hsub⟩ := hhandled hraw
    have htype : r.header.packetType = typeRegisterRequest := packetType_of_toMessage hm
    rw [handle_register htype] at hhandle
    obtain ⟨d, hmem, hd⟩ := handleRegisterMessage_downlink hPQ hwss' hok hm hsrc hhandle
    exact ⟨d, hsub d hmem, hd⟩

end

end Supernode

/-! ## The exchange as a whole -/

section Runs

variable {P : Supernode.Platform} {Q : EdgeClient.Platform} {w w' : Recovery} {ev : Event}
  {sent : List Bytes}

/-- A datagram of the exchange is under way. -/
def Pending (P : Supernode.Platform) (Q : EdgeClient.Platform) (w : Recovery) : Prop :=
  (∃ packet ∈ w.toSN, IsRequest P packet) ∨ ∃ packet ∈ w.toEdge, IsAnswer Q packet

/-- The exchange is not disturbed: while the edge waits, no datagram of the exchange is lost,
every write succeeds, and an answer the edge reads helps. -/
def Undisturbed (P : Supernode.Platform) (Q : EdgeClient.Platform) (w : Recovery) (ev : Event) :
    Prop :=
  w.edge.isWaitingForSNRetryRegisterResponse = true →
    match ev with
    | .edgeReads env i => (∀ n dest data, env.writeOk n dest data = true) ∧
        ∀ packet, w.toEdge[i]? = some packet → Helps Q w.edge packet
    | .snReads env _ => ∀ n dest data, env.writeOk n dest data = true
    | .loseToSN i => ∀ packet, w.toSN[i]? = some packet → ¬ IsRequest P packet
    | .loseToEdge i => ∀ packet, w.toEdge[i]? = some packet → ¬ IsAnswer Q packet
    | _ => True

/-- An edge in UDP mode that does not wait, a supernode that has just started, and nothing
under way. -/
structure Starting (w : Recovery) : Prop where
  notWaiting : w.edge.isWaitingForSNRetryRegisterResponse = false
  overUDP : w.edge.OverUDP w.snAddr
  initial : Supernode.Initial w.sn
  toSN : w.toSN = []
  toEdge : w.toEdge = []

/-- What every undisturbed run keeps. -/
structure Moving (P : Supernode.Platform) (Q : EdgeClient.Platform) (w : Recovery) : Prop where
  overUDP : w.edge.OverUDP w.snAddr
  noWSS : w.sn.wssConnections = ∅
  pending : w.edge.isWaitingForSNRetryRegisterResponse = true → Pending P Q w

theorem mem_eraseIdx_of_ne {l : List Bytes} {i : ℕ} {d : Bytes} (h : d ∈ l) (hi : l[i]? ≠ some d) :
    d ∈ l.eraseIdx i := by
  obtain ⟨j, hj⟩ := List.mem_iff_getElem?.mp h
  refine List.mem_eraseIdx_iff_getElem?.mpr ⟨j, ?_, hj⟩
  rintro rfl
  exact hi hj

theorem mem_eraseIdx_or_eq {l : List Bytes} {i : ℕ} {d d' : Bytes} (h : d ∈ l)
    (hi : l[i]? = some d') : d ∈ l.eraseIdx i ∨ d = d' := by
  by_cases hd : l[i]? = some d
  · exact Or.inr (Option.some.inj (hd.symm.trans hi))
  · exact Or.inl (mem_eraseIdx_of_ne h hd)

theorem Moving.sameLogin (o : Moving P Q w) {e : EdgeClient} {out : List EdgeClient.Output}
    (h : EdgeClient.SameLogin w.edge e) : Moving P Q (w.afterEdge e out).1 where
  overUDP := o.overUDP.of_sameHost h.toSameHost
  noWSS := o.noWSS
  pending hwaits := (o.pending (h.waiting.symm.trans hwaits)).imp
    (fun ⟨packet, hmem, hreq⟩ => ⟨packet, List.mem_append_left _ hmem, hreq⟩) id

theorem Moving.edgeHears (hPQ : CarriesRequests P Q w.edge) (o : Moving P Q w) {e : EdgeClient}
    {env : EdgeClient.Env} {packet : Bytes} {addr : NetAddr} {out : List EdgeClient.Output}
    (h : w.edge.handlePacket Q env packet addr = .ok (e, out)) :
    Moving P Q (w.afterEdge e out).1 where
  overUDP := o.overUDP.of_sameHost (handlePacket_sameHost h)
  noWSS := o.noWSS
  pending hwaits := by
    by_cases hbefore : w.edge.isWaitingForSNRetryRegisterResponse = true
    · exact (o.pending hbefore).imp
        (fun ⟨packet, hmem, hreq⟩ => ⟨packet, List.mem_append_left _ hmem, hreq⟩) id
    · obtain ⟨packet, hmem, hreq⟩ :=
        handlePacket_waits hPQ o.overUDP h (Bool.not_eq_true _ ▸ hbefore) hwaits
      exact Or.inl ⟨packet, List.mem_append_right _ hmem, hreq⟩

/-- A datagram of the supernode: if it was the answer that was pending, the next request is
under way. -/
theorem Moving.edgeReads (hPQ : CarriesRequests P Q w.edge) (o : Moving P Q w) {e : EdgeClient}
    {env : EdgeClient.Env} {i : ℕ} {packet : Bytes} {out : List EdgeClient.Output}
    (hadm : Undisturbed P Q w (.edgeReads env i)) (hi : w.toEdge[i]? = some packet)
    (h : w.edge.handlePacket Q env packet (.udp w.snAddr) = .ok (e, out)) :
    Moving P Q ({ w with toEdge := w.toEdge.eraseIdx i }.afterEdge e out).1 where
  overUDP := o.overUDP.of_sameHost (handlePacket_sameHost h)
  noWSS := o.noWSS
  pending hwaits := by
    have hasked : (∃ d ∈ uplink w.snAddr out, IsRequest P d) →
        Pending P Q ({ w with toEdge := w.toEdge.eraseIdx i }.afterEdge e out).1 :=
      fun ⟨d, hmem, hreq⟩ => Or.inl ⟨d, List.mem_append_right _ hmem, hreq⟩
    by_cases hbefore : w.edge.isWaitingForSNRetryRegisterResponse = true
    · obtain ⟨hok, hhelps⟩ := hadm hbefore
      rcases o.pending hbefore with ⟨d, hmem, hreq⟩ | ⟨d, hmem, hanswer⟩
      · exact Or.inl ⟨d, List.mem_append_left _ hmem, hreq⟩
      · rcases mem_eraseIdx_or_eq hmem hi with hmem | rfl
        · exact Or.inr ⟨d, hmem, hanswer⟩
        · exact hasked (handlePacket_answer hPQ o.overUDP hanswer (hhelps d hi) hok h hbefore hwaits)
    · exact hasked (handlePacket_waits hPQ o.overUDP h (Bool.not_eq_true _ ▸ hbefore) hwaits)

/-- A datagram of the edge: if it was the request that was pending, its answer is under way. -/
theorem Moving.snReads {s : Supernode} (hPQ : CarriesAnswers P Q s) (o : Moving P Q w)
    {env : Supernode.Env} {i : ℕ} {packet : Bytes} {out : List Supernode.Sent}
    (hadm : Undisturbed P Q w (.snReads env i)) (hi : w.toSN[i]? = some packet)
    (h : w.sn.processPacket P env packet (.udp w.edgeAddr) = .ok (s, out)) :
    Moving P Q ({ w with toSN := w.toSN.eraseIdx i }.afterSN s out).1 where
  overUDP := o.overUDP
  noWSS := (Supernode.sameSetup_processPacket h).wssConnections.trans o.noWSS
  pending hwaits := by
    rcases o.pending hwaits with ⟨d, hmem, hreq⟩ | ⟨d, hmem, hanswer⟩
    · rcases mem_eraseIdx_or_eq hmem hi with hmem | rfl
      · exact Or.inl ⟨d, hmem, hreq⟩
      · obtain ⟨a, hmem, hanswer⟩ := processPacket_answers hPQ o.noWSS (hadm hwaits) hreq h
        exact Or.inr ⟨a, List.mem_append_right _ hmem, hanswer⟩
    · exact Or.inr ⟨d, List.mem_append_left _ hmem, hanswer⟩

theorem Moving.afterSN (o : Moving P Q w) {s : Supernode} {out : List Supernode.Sent}
    (h : Supernode.SameSetup w.sn s) : Moving P Q (w.afterSN s out).1 where
  overUDP := o.overUDP
  noWSS := h.wssConnections.trans o.noWSS
  pending hwaits := (o.pending hwaits).imp id
    fun ⟨packet, hmem, hanswer⟩ => ⟨packet, List.mem_append_left _ hmem, hanswer⟩

theorem Moving.lose (o : Moving P Q w) {toSN toEdge : List Bytes}
    (hsn : w.edge.isWaitingForSNRetryRegisterResponse = true →
      ∀ d ∈ w.toSN, IsRequest P d → d ∈ toSN)
    (hedge : w.edge.isWaitingForSNRetryRegisterResponse = true →
      ∀ d ∈ w.toEdge, IsAnswer Q d → d ∈ toEdge) :
    Moving P Q { w with toSN := toSN, toEdge := toEdge } where
  overUDP := o.overUDP
  noWSS := o.noWSS
  pending hwaits := (o.pending hwaits).imp
    (fun ⟨d, hmem, hreq⟩ => ⟨d, hsn hwaits d hmem hreq, hreq⟩)
    fun ⟨d, hmem, hanswer⟩ => ⟨d, hedge hwaits d hmem hanswer, hanswer⟩

theorem Moving.step (hPQ : CarriesExchange P Q w) (hPQ' : CarriesExchange P Q w') (o : Moving P Q w)
    (hadm : Undisturbed P Q w ev) (h : step P Q w ev = .ok (w', sent)) : Moving P Q w' := by
  cases ev with
  | heartbeat env =>
    obtain ⟨⟨e, out, err⟩, hsend, h⟩ := bind_eq_ok.mp h
    cases h
    exact o.sameLogin (EdgeClient.sameLogin_sendHeartbeat hsend)
  | p2pInfos env =>
    obtain ⟨⟨e, out, err⟩, hsend, h⟩ := bind_eq_ok.mp h
    cases h
    exact o.sameLogin (EdgeClient.sameLogin_sendP2PInfos hsend)
  | pings env =>
    cases h
    exact o.sameLogin (EdgeClient.sameLogin_handleP2PUpdates Q env w.edge)
  | frame env frameBuf n =>
    obtain ⟨⟨e, out⟩, htap, h⟩ := bind_eq_ok.mp h
    cases h
    exact o.sameLogin (EdgeClient.sameLogin_handleTAP htap)
  | edgeReads env i =>
    unfold Recovery.step at h
    simp only at h
    split at h
    · cases h
      exact o
    · next packet hi =>
      obtain ⟨⟨e, out⟩, hhandle, h⟩ := bind_eq_ok.mp h
      cases h
      exact o.edgeReads hPQ.1 hadm hi hhandle
  | edgeHears env packet addr =>
    obtain ⟨⟨e, out⟩, hhandle, h⟩ := bind_eq_ok.mp h
    cases h
    exact o.edgeHears hPQ.1 hhandle
  | snReads env i =>
    unfold Recovery.step at h
    simp only at h
    split at h
    · cases h
      exact o
    · next packet hi =>
      obtain ⟨⟨s, out⟩, hprocess, h⟩ := bind_eq_ok.mp h
      cases h
      exact o.snReads hPQ'.2 hadm hi hprocess
  | snHears env packet addr =>
    obtain ⟨⟨s, out⟩, hprocess, h⟩ := bind_eq_ok.mp h
    cases h
    exact o.afterSN (Supernode.sameSetup_processPacket hprocess)
  | cleanup env =>
    obtain ⟨⟨s, out⟩, hcleanup, h⟩ := bind_eq_ok.mp h
    cases h
    exact o.afterSN (Supernode.sameSetup_cleanupStaleEdges hcleanup)
  | loseToSN i =>
    cases h
    exact o.lose (fun hwaits d hmem hreq => mem_eraseIdx_of_ne hmem fun hi => hadm hwaits d hi hreq)
      fun _ d hmem _ => hmem
  | loseToEdge i =>
    cases h
    exact o.lose (fun _ d hmem _ => hmem) fun hwaits d hmem hanswer =>
      mem_eraseIdx_of_ne hmem fun hi => hadm hwaits d hi hanswer
  | restart config netAllocator pem noCommunity noEdge noPool =>
    cases h
    exact ⟨o.overUDP, rfl, o.pending⟩

theorem Starting.moving (h : Starting w) : Moving P Q w where
  overUDP := h.overUDP
  noWSS := by
    obtain ⟨config, netAllocator, pem, noCommunity, noEdge, noPool, hsn⟩ := h.initial
    rw [hsn]
    rfl
  pending hwaits := by
    rw [h.notWaiting] at hwaits
    cases hwaits

end Runs

/-! ## Stuck -/

section Stuck

open EdgeClient

variable {P : Supernode.Platform} {Q : EdgeClient.Platform} {w : Recovery} {e e' : EdgeClient}
  {out : List EdgeClient.Output}

/-- What an edge does of its own accord, and the request to register again. -/
inductive Prompt where
  | heartbeat (env : EdgeClient.Env)
  | p2pInfos (env : EdgeClient.Env)
  | retryRegister (env : EdgeClient.Env) (packet : Bytes) (addr : NetAddr)

/-- GOLINE: edge/requests.go:50-88, edge/handlers.go:158-177 -/
def prompted (Q : EdgeClient.Platform) (e : EdgeClient) :
    Prompt → Go (EdgeClient × List EdgeClient.Output)
  | .heartbeat env => do
    let (e, out, _) ← e.sendHeartbeat Q env
    .ok (e, out)
  | .p2pInfos env => do
    let (e, out, _) ← e.sendP2PInfos Q env
    .ok (e, out)
  | .retryRegister env packet addr => e.handlePacket Q env packet addr

def OfType (packet : Bytes) (t : PacketType) : Prop :=
  ∃ addr r, newRawMessage packet addr = .ok (.ok r) ∧ r.header.packetType = t

/-- The packet of a prompt asks the edge to register again. -/
def IsPrompt (_ : EdgeClient) : Prompt → Prop
  | .retryRegister _ packet _ => OfType packet typeRetryRegisterRequest
  | _ => True

/-- Some prompt, now or after others, makes the edge send a request of the exchange. -/
def CanAsk (Q : EdgeClient.Platform) (e : EdgeClient) : Prop :=
  ∃ e' prompt e'' out, Reach (prompted Q) (· = e) IsPrompt e' ∧ IsPrompt e' prompt ∧
    prompted Q e' prompt = .ok (e'', out) ∧
    ∃ x ∈ out, OfType x.data typeSNPublicSecret ∨ OfType x.data typeRegisterRequest

/-- The edge waits, nothing is under way, and no prompt helps. -/
structure Stuck (Q : EdgeClient.Platform) (w : Recovery) : Prop where
  waiting : w.edge.isWaitingForSNRetryRegisterResponse = true
  toSN : w.toSN = []
  toEdge : w.toEdge = []
  silent : ¬ CanAsk Q w.edge

theorem prompted_waiting (hwaits : e.isWaitingForSNRetryRegisterResponse = true) {prompt : Prompt}
    (hprompt : IsPrompt e prompt) (h : prompted Q e prompt = .ok (e', out)) : e' = e ∧ out = [] := by
  have hwaits' : e.waitsForSupernode = true := by
    unfold waitsForSupernode
    rw [hwaits, Bool.or_true]
  cases prompt with
  | heartbeat env =>
    obtain ⟨⟨e1, out1, err⟩, hsend, h⟩ := bind_eq_ok.mp h
    rw [sendHeartbeat, if_pos hwaits'] at hsend
    cases hsend
    cases h
    exact ⟨rfl, rfl⟩
  | p2pInfos env =>
    obtain ⟨⟨e1, out1, err⟩, hsend, h⟩ := bind_eq_ok.mp h
    rw [sendP2PInfos, if_pos hwaits'] at hsend
    cases hsend
    cases h
    exact ⟨rfl, rfl⟩
  | retryRegister env packet addr =>
    obtain ⟨addr', r', hraw', htype'⟩ := hprompt
    rcases handlePacket_ok h with ⟨-, rfl, rfl⟩ | ⟨r, err, hraw, hhandle⟩
    · exact ⟨rfl, rfl⟩
    · -- the sender's address does not matter for the type
      have htype : r.header.packetType = typeRetryRegisterRequest := by
        obtain ⟨hp', rfl⟩ := newRawMessage_ok hraw'
        obtain ⟨hp, rfl⟩ := newRawMessage_ok hraw
        exact htype'
      rw [handle_retryRegisterRequest htype, handleRetryRegisterRequest,
        if_neg (not_not.mpr htype), if_pos hwaits] at hhandle
      cases hhandle
      exact ⟨rfl, rfl⟩

theorem not_canAsk_of_waiting (hwaits : e.isWaitingForSNRetryRegisterResponse = true) :
    ¬ CanAsk Q e := by
  rintro ⟨e', prompt, e'', out, hreach, hprompt, hstep, x, hx, -⟩
  have hsame : e' = e := Reach.invariant (I := (· = e)) (fun _ h => h)
    (fun e1 prompt1 e2 out1 he1 hprompt1 hstep1 => by
      subst he1
      exact (prompted_waiting hwaits hprompt1 hstep1).1) hreach
  subst hsame
  obtain ⟨-, rfl⟩ := prompted_waiting hwaits hprompt hstep
  exact absurd hx List.not_mem_nil

/-- **No edge gets stuck** while the exchange is not disturbed.
GOLINE: edge/handlers.go:22-65, 158-177, supernode/supernode.go:133-163 -/
theorem never_stuck
    (hPQ : ∀ w, Reach (step P Q) Starting (Undisturbed P Q) w → CarriesExchange P Q w)
    (h : Reach (step P Q) Starting (Undisturbed P Q) w) : ¬ Stuck Q w := by
  have o : Moving P Q w := by
    induction h with
    | init h0 => exact h0.moving
    | step hreach hadm hstep o =>
      exact o.step (hPQ _ hreach) (hPQ _ (hreach.step hadm hstep)) hadm hstep
  intro hstuck
  rcases o.pending hstuck.waiting with ⟨packet, hmem, -⟩ | ⟨packet, hmem, -⟩
  · rw [hstuck.toSN] at hmem
    cases hmem
  · rw [hstuck.toEdge] at hmem
    cases hmem

end Stuck

/-! ## A supernode that has forgotten the edge -/

section Examples

/-- The messages of the exchange, field after field. -/
def exchangeCodecs : Codecs :=
  { Sample.codecs with
    snPublicSecret := ⟨fun s => some (s.isRequest.toUInt8 :: s.pemData), fun
      | [] => none
      | b :: pemData => some ⟨b ≠ 0, pemData⟩⟩
    registerRequest := ⟨fun s => some (Sample.putStrings
        [s.edgeMacAddr, s.edgeDesc, s.communityName, s.encryptedMachineId, s.clearMachineId]),
      fun payload => do
        match ← Sample.getStrings payload with
        | [edgeMacAddr, edgeDesc, communityName, encryptedMachineId, clearMachineId] =>
          some ⟨edgeMacAddr, edgeDesc, communityName, encryptedMachineId, clearMachineId⟩
        | _ => none⟩
    registerResponse := ⟨fun s => some (Sample.putStrings
        [[s.isRegisterOk.toUInt8], s.virtualIp, List.replicate s.masklen 0]),
      fun payload => do
        match ← Sample.getStrings payload with
        | [[ok], virtualIp, mask] => some ⟨ok ≠ 0, virtualIp, mask.length⟩
        | _ => none⟩
    heartbeatPulse := ⟨fun _ => some [0], Sample.codecs.heartbeatPulse.decode⟩ }

def exchangeSN : Supernode.Platform := { Sample.platform with codecs := exchangeCodecs }

def exchangeEdge : EdgeClient.Platform := { Sample.edgePlatform with codecs := exchangeCodecs }

theorem carried_registerResponse (s : RegisterResponse) :
    Conveyed exchangeCodecs.registerResponse exchangeCodecs.registerResponse s := by
  have hflag : ∀ b : Bool, decide (b.toUInt8 ≠ 0) = b := by decide
  refine ⟨_, rfl, ?_⟩
  show (Sample.getStrings (Sample.putStrings _) >>= _) = _
  rw [Sample.getStrings_putStrings]
  exact congrArg some ((RegisterResponse.mk.injEq ..).mpr ⟨hflag _, rfl, List.length_replicate⟩)

theorem carriesExchange_sample (w : Recovery) : CarriesExchange exchangeSN exchangeEdge w := by
  refine ⟨⟨⟨_, rfl, rfl⟩, fun enc => ⟨_, rfl, ?_⟩⟩, ⟨_, rfl, rfl⟩, carried_registerResponse _,
    fun ref _ => carried_registerResponse _⟩
  show (Sample.getStrings (Sample.putStrings _) >>= _) = _
  rw [Sample.getStrings_putStrings]
  rfl

/-- Machine `m` has registered with a supernode that has been restarted since. -/
def forgotten : Recovery where
  edge := (Sample.edge "c" "m" false []).withKey []
  sn := Sample.start
  edgeAddr := ⟨[192, 168, 0, 1], 1000, []⟩
  snAddr := ⟨[192, 168, 0, 254], 7777, []⟩
  toSN := []
  toEdge := []

theorem starting_forgotten : Starting forgotten :=
  ⟨rfl, ⟨rfl, rfl, rfl⟩, ⟨_, _, _, _, _, _, rfl⟩, rfl, rfl⟩

/-- The heartbeat is answered with a request to register, and the edge asks for the key. -/
def asksAgain : List Event :=
  [.heartbeat Sample.edgeEnv, .snReads Sample.env 0, .edgeReads Sample.edgeEnv 0]

/-- The supernode answers the request for the key, and the waiting edge is not stuck. -/
theorem never_stuck_key_answered :
    ∃ w, Reach (step exchangeSN exchangeEdge) Starting (Undisturbed exchangeSN exchangeEdge) w ∧
      w.edge.isWaitingForSNRetryRegisterResponse = true ∧ w.toSN = [] ∧
      ¬ Stuck exchangeEdge w := by
  obtain ⟨w, hrun, htest⟩ := (Option.any_eq_true _ _).mp
    (show (runAllowed (step exchangeSN exchangeEdge)
        (fun w _ => !w.edge.isWaitingForSNRetryRegisterResponse) forgotten asksAgain).any
      (fun w => Passes (step exchangeSN exchangeEdge w (.snReads Sample.env 0)) fun res =>
        decide (res.1.edge.isWaitingForSNRetryRegisterResponse = true ∧ res.1.toSN = [])) = true by
      decide +kernel)
  obtain ⟨⟨w', sent⟩, hstep, hwaits⟩ := exists_of_passes htest
  obtain ⟨hwaits, hsn⟩ := of_decide_eq_true hwaits
  have hasked : Reach (step exchangeSN exchangeEdge) Starting (Undisturbed exchangeSN exchangeEdge) w :=
    .of_runAllowed (fun w ev hallowed hwaits => by simp [hwaits] at hallowed)
      (.init starting_forgotten) hrun
  have hadm : Undisturbed exchangeSN exchangeEdge w (.snReads Sample.env 0) := fun _ _ _ _ => rfl
  have hanswered := hasked.step hadm hstep
  exact ⟨w', hanswered, hwaits, hsn, never_stuck (fun w _ => carriesExchange_sample w) hanswered⟩

/-- The request for the key is lost, and the edge waits for ever. -/
theorem stuck_after_loss :
    ∃ w, Reach (step exchangeSN exchangeEdge) Starting (fun _ _ => True) w ∧
      Stuck exchangeEdge w := by
  obtain ⟨w, hrun, htest⟩ := exists_of_passes
    (x := runEvents (step exchangeSN exchangeEdge) forgotten (asksAgain ++ [.loseToSN 0]))
    (p := fun w => decide (w.edge.isWaitingForSNRetryRegisterResponse = true ∧ w.toSN = [] ∧
      w.toEdge = [])) (by decide +kernel)
  obtain ⟨hwaits, hsn, hedge⟩ := of_decide_eq_true htest
  exact ⟨w, Reach.of_runEvents (.init starting_forgotten) hrun, hwaits, hsn, hedge,
    not_canAsk_of_waiting hwaits⟩

end Examples

end Recovery

end N2nGo
