import N2nGo.Analysis.Datagram
import N2nGo.Analysis.EdgeHandlers
import N2nGo.Model.Edge.Ticks

/-!
# What a message does to an edge

Sending a message changes nothing in an edge but its sequence number. `Handled` lists
what the sixteen handlers can do, and `handle_handled` says that handling a message does
one of these things. Only Data reaches the TAP device (`Handled.quiet`). Properties of runs of
an edge are read off from it.
-/

set_option autoImplicit false

namespace N2nGo.EdgeClient

open N2nGo.Lib N2nGo.Protocol N2nGo.Messages

variable {P : Platform} {env : Env} {e e' : EdgeClient} {out out' : List Output}
  {err : Except Err Unit} {r : RawMessage}

/-- The sequence number has changed. -/
def withSeq (e : EdgeClient) (seq : UInt32) : EdgeClient := { e with seq := seq }

/-! ## Sending -/

variable {dst : Option Bytes} {strategy : UDPWriteStrategy}

theorem edgeHeader_seq {pt : PacketType} {header : ProtoVHeader}
    (h : e.edgeHeader env pt dst = .ok (e', header)) : e' = e.withSeq (e.seq + 1) := by
  obtain ⟨id, -, h⟩ := bind_eq_ok.mp h
  cases h
  rfl

theorem sendStruct_ok {T : Type} [PacketTyped T] {codec : Codec T} {s : T}
    (h : e.sendStruct codec P env out s dst strategy = .ok (e', out', err)) :
    ∃ seq more, e' = e.withSeq seq ∧ out' = out ++ more ∧ NoTap more := by
  unfold sendStruct at h
  split at h
  · cases h
    exact ⟨e.seq, [], rfl, (List.append_nil out).symm, noTap_nil⟩
  · next udpSocket _ =>
    obtain ⟨⟨e1, header⟩, hheader, h⟩ := bind_eq_ok.mp h
    obtain rfl := edgeHeader_seq hheader
    cases hencode : codec.encode s with
    | none =>
      simp only [hencode] at h
      cases h
      exact ⟨_, [], rfl, (List.append_nil out).symm, noTap_nil⟩
    | some payload =>
      simp only [hencode] at h
      obtain ⟨rfl, hsent⟩ := Prod.mk.inj (Except.ok.inj h)
      obtain ⟨more, hmore, hno⟩ := transmit_ok (e.withSeq (e.seq + 1)) env out
        (packProtoVDatagram header payload) udpSocket
      refine ⟨_, more, rfl, ?_, hno⟩
      rw [← hmore, hsent]

theorem edgeHeader_ok {id : MacID} (hid : destID dst = .ok id) (e : EdgeClient) (env : Env)
    (pt : PacketType) :
    ∃ header, e.edgeHeader env pt dst = .ok (e.withSeq (e.seq + 1), header) ∧
      header.packetType = pt ∧ header.destID = id := by
  unfold edgeHeader
  rw [hid]
  exact ⟨_, rfl, rfl, rfl⟩

theorem transmit_written (hlink : e.conn = true ∨ e.wssTransport = true) (env : Env)
    (packet : Bytes) (udpSocket : Option Net.UDPAddr) (out : List Output) :
    ∃ dest err, e.transmit env out packet udpSocket = (out ++ [write env out dest packet], err) := by
  unfold transmit
  by_cases hwss : e.wssTransport = true
  · rw [if_pos hwss]
    exact ⟨_, _, rfl⟩
  · rw [if_neg hwss, if_neg (not_not.mpr (hlink.resolve_right hwss))]
    exact ⟨_, _, rfl⟩

/-- A struct that has an encoding and a destination is written, to the supernode or to a
peer, when there is a transport. -/
theorem sendStruct_written {T : Type} [PacketTyped T] {codec : Codec T} {s : T}
    {udpSocket : Option Net.UDPAddr} {id : MacID} {payload : Bytes}
    (hlink : e.conn = true ∨ e.wssTransport = true)
    (haddr : e.udpAddrWithStrategy P dst strategy = .ok udpSocket) (hid : destID dst = .ok id)
    (hencode : codec.encode s = some payload) (env : Env) (out : List Output) :
    ∃ seq header dest err, e.sendStruct codec P env out s dst strategy =
        .ok (e.withSeq seq, out ++ [write env out dest (packProtoVDatagram header payload)], err) ∧
      header.packetType = PacketTyped.packetType T ∧ header.destID = id := by
  obtain ⟨header, hheader, htype, hdest⟩ :=
    edgeHeader_ok hid e env (PacketTyped.packetType T)
  obtain ⟨dest, err, hsent⟩ := transmit_written (e := e.withSeq (e.seq + 1)) hlink env
    (packProtoVDatagram header payload) udpSocket out
  refine ⟨e.seq + 1, header, dest, err, ?_, htype, hdest⟩
  unfold sendStruct
  rw [haddr]
  simp only [hheader, ok_bind, hencode, hsent]

theorem requestRegister_ok (h : e.requestRegister P env out = .ok (e', out', err)) :
    ∃ seq more, e' = e.withSeq seq ∧ out' = out ++ more ∧ NoTap more := by
  obtain ⟨encrypted, -, h⟩ := bind_eq_ok.mp h
  cases encrypted with
  | error err =>
    cases h
    exact ⟨e.seq, [], rfl, (List.append_nil out).symm, noTap_nil⟩
  | ok encMachineID => exact sendStruct_ok h

/-- Nothing has changed but the sequence number and a counter, and nothing has been written to
the TAP device. -/
def Sent (e e' : EdgeClient) (out : List Output) : Prop :=
  NoTap out ∧ ∃ seq sent, e' = { e.withSeq seq with packetsSent := sent }

theorem sent_none (e : EdgeClient) : Sent e e [] := ⟨noTap_nil, e.seq, e.packetsSent, rfl⟩

theorem sent_transmit {packet : Bytes} {udpSocket : Option Net.UDPAddr} {seq : UInt32} {sent : ℕ}
    (he : e' = { e.withSeq seq with packetsSent := sent })
    (h : e'.transmit env [] packet udpSocket = (out, err)) : Sent e e' out := by
  obtain ⟨more, hmore, hno⟩ := transmit_ok e' env [] packet udpSocket
  rw [h] at hmore
  obtain rfl : out = more := hmore
  exact ⟨hno, seq, sent, he⟩

theorem sent_writePacket {pt : PacketType} {payload : Bytes}
    (h : e.writePacket P env [] pt dst payload strategy = .ok (e', out, err)) : Sent e e' out := by
  unfold writePacket at h
  split at h
  · cases h
    exact sent_none e
  · obtain ⟨⟨e1, header⟩, hheader, h⟩ := bind_eq_ok.mp h
    obtain rfl := edgeHeader_seq hheader
    obtain ⟨rfl, hsent⟩ := Prod.mk.inj (Except.ok.inj h)
    exact sent_transmit rfl hsent

theorem sent_sendVFuze {dst payload : Bytes}
    (h : e.sendVFuze P env [] dst payload strategy = .ok (e', out, err)) : Sent e e' out := by
  unfold sendVFuze at h
  split at h
  · cases h
    exact sent_none e
  · obtain ⟨vfuzh, -, h⟩ := bind_eq_ok.mp h
    obtain ⟨rfl, hsent⟩ := Prod.mk.inj (Except.ok.inj h)
    exact sent_transmit rfl hsent

/-- A frame from the TAP device is dropped or sent. -/
theorem sent_handleTAP {frameBuf : Bytes} {n : ℕ}
    (h : e.handleTAP P env frameBuf n = .ok (e', out)) : Sent e e' out := by
  unfold handleTAP at h
  split at h
  · cases h
    exact sent_none e
  · obtain ⟨ethertype, -, h⟩ := bind_eq_ok.mp h
    split at h
    · cases h
      exact sent_none e
    · split at h
      · cases h
        exact sent_none e
      · obtain ⟨frame, -, h⟩ := bind_eq_ok.mp h
        split at h
        · cases h
          exact sent_none e
        · obtain ⟨destMAC, -, h⟩ := bind_eq_ok.mp h
          split at h
          · obtain ⟨reply, hsend, h⟩ := bind_eq_ok.mp h
            cases h
            exact sent_writePacket hsend
          · split at h
            · obtain ⟨reply, hsend, h⟩ := bind_eq_ok.mp h
              cases h
              exact sent_sendVFuze hsend
            · obtain ⟨reply, hsend, h⟩ := bind_eq_ok.mp h
              cases h
              exact sent_writePacket hsend

theorem sendPings_ok (P : Platform) (env : Env) (pingMsg : PeerToPing) (dst : Option Bytes) (n : ℕ)
    (e : EdgeClient) (out : List Output) :
    ∃ seq more fault, sendPings P env pingMsg dst n e out = (e.withSeq seq, out ++ more, fault) := by
  induction n generalizing e out with
  | zero =>
    refine ⟨e.seq, [], none, ?_⟩
    rw [List.append_nil]
    rfl
  | succ n ih =>
    unfold sendPings
    split
    · next fault _ =>
      refine ⟨e.seq + 1, [], some fault, ?_⟩
      rw [List.append_nil]
      rfl
    · next e1 out1 err hsend =>
      obtain ⟨seq1, more1, rfl, rfl, -⟩ := sendStruct_ok hsend
      obtain ⟨seq2, more2, fault, hrest⟩ := ih (e.withSeq seq1) (out ++ more1)
      exact ⟨seq2, more1 ++ more2, fault, by rw [hrest, List.append_assoc]; rfl⟩

/-- `PingPeer` updates the record and sends. -/
theorem pingPeer_eq (P : Platform) (env : Env) (e : EdgeClient) (out : List Output) (p : PeerRef)
    (n : ℕ) (status : P2PCapacity) :
    ∃ seq more fault, e.pingPeer P env out p n status = ((e.withPeers (e.peers.updateStatus env.now p
      status (e.checkID (e.peers.records.cell p)))).withSeq seq, out ++ more, fault) :=
  sendPings_ok ..

/-! ## What no message changes -/

/-- The links of the edge, where it finds the supernode, and who it is are the same. -/
structure SameHost (e e' : EdgeClient) : Prop where
  conn : e'.conn = e.conn
  wssTransport : e'.wssTransport = e.wssTransport
  supernodeAddr : e'.supernodeAddr = e.supernodeAddr
  machineId : e'.machineId = e.machineId
  macAddr : e'.macAddr = e.macAddr
  community : e'.community = e.community

theorem SameHost.refl (e : EdgeClient) : SameHost e e := ⟨rfl, rfl, rfl, rfl, rfl, rfl⟩

theorem SameHost.trans {e'' : EdgeClient} (h : SameHost e e') (h' : SameHost e' e'') :
    SameHost e e'' :=
  ⟨h'.conn.trans h.conn, h'.wssTransport.trans h.wssTransport,
    h'.supernodeAddr.trans h.supernodeAddr, h'.machineId.trans h.machineId,
    h'.macAddr.trans h.macAddr, h'.community.trans h.community⟩

/-! ## Handling -/

/-- The registry after a report about reachable peers.
GOLINE: edge/handlers_missing.go:44-72 -/
def reportedPeers (now : ℤ) (reg : PeerRegistry) (m : Message PeerP2PInfos) : PeerRegistry :=
  (m.msg.toPeers.map fun info => Net.hardwareAddrString info.macAddr).foldl (markAvailable now)
    (match m.msg.fromPeer with
      | some _ => markAvailable now reg m.edgeMACAddr
      | none => reg)

/-- The edge has a new key of the supernode.
GOLINE: edge/handlers.go:32-35 -/
def withKey (e : EdgeClient) (pubkey : Bytes) : EdgeClient :=
  { e with snPubKey := some pubkey, isWaitingForSNPubKeyUpdate := false }

/-- The edge is registered again.
GOLINE: edge/handlers.go:55-58 -/
def reregistered (e : EdgeClient) : EdgeClient :=
  { e with
    registered := true
    isWaitingForSNRetryRegisterResponse := false
    peers := { e.peers with isWaitingCommunityDatas := false } }

/-- The edge waits for a key and a new registration.
GOLINE: edge/handlers.go:173-174 -/
def waiting (e : EdgeClient) : EdgeClient :=
  { e with isWaitingForSNPubKeyUpdate := true, isWaitingForSNRetryRegisterResponse := true }

/-- What handling a message can do: the edge afterwards and what it writes.
GOLINE: edge/handlers.go:17-242, edge/handlers_missing.go:14-121 -/
inductive Handled (P : Platform) (env : Env) (e : EdgeClient) (r : RawMessage) :
    EdgeClient → List Output → Prop where
  /-- at most an answer is sent, a frame delivered, or leases kept for the API -/
  | idle {out : List Output} (seq : UInt32) (api : Option EdgeClientApi) :
      (r.header.packetType ≠ typeData → NoTap out) →
      Handled P env e r { e.withSeq seq with eapi := api } out
  | peers {m : Message PeerInfoList} {reg : PeerRegistry} {res : Except P2P.Err Unit} :
      toMessage P.codecs.peerInfoList r = .ok m →
      e.peers.handlePeerInfoList P.services env.now env.order m.msg false true = .ok (reg, res) →
      Handled P env e r (e.withPeers reg) []
  | left {m : Message UnregisterRequest} : toMessage P.codecs.unregisterRequest r = .ok m →
      Handled P env e r (e.withPeers (e.peers.removePeer P.services m.edgeMACAddr)) []
  | reported {m : Message PeerP2PInfos} : toMessage P.codecs.peerP2PInfos r = .ok m →
      Handled P env e r (e.withPeers (reportedPeers env.now e.peers m)) []
  | fullState {m : Message P2PFullState} : toMessage P.codecs.p2pFullState r = .ok m →
      Handled P env e r (e.withPeers
        (e.peers.updateP2PCommunityDatas m.msg.reachables m.msg.unreachables).1) []
  | pong {m : Message PeerToPing} {p : PeerRef} : toMessage P.codecs.peerToPing r = .ok m →
      m.msg.isPong = true → e.peers.peers.lookup r.edgeMACAddr = some p →
      Handled P env e r (e.withPeers
        (recordPong env.now e.peers p m.msg.checkId r.header.isFromSupernode)) []
  | key {m : Message SnPublicSecret} {pubkey : Bytes} : toMessage P.codecs.snPublicSecret r = .ok m →
      P.publicKeyFromPEMData m.msg.pemData = some pubkey →
      e.isWaitingForSNRetryRegisterResponse = false → Handled P env e r (e.withKey pubkey) []
  | register {m : Message SnPublicSecret} {pubkey : Bytes} {seq : UInt32} {out : List Output}
      {err : Except Err Unit} : toMessage P.codecs.snPublicSecret r = .ok m →
      P.publicKeyFromPEMData m.msg.pemData = some pubkey →
      e.isWaitingForSNRetryRegisterResponse = true →
      (e.withKey pubkey).requestRegister P env [] = .ok ((e.withKey pubkey).withSeq seq, out, err) →
      Handled P env e r ((e.withKey pubkey).withSeq seq) out
  | accepted {m : Message RegisterResponse} {seq : UInt32} {out : List Output}
      {err : Except Err Unit} : toMessage P.codecs.registerResponse r = .ok m →
      m.msg.isRegisterOk = true →
      e.reregistered.sendPeerListRequest P env [] = .ok (e.reregistered.withSeq seq, out, err) →
      Handled P env e r (e.reregistered.withSeq seq) out
  | retried {seq : UInt32} {out : List Output} :
      r.header.packetType = typeRetryRegisterRequest →
      e.isWaitingForSNRetryRegisterResponse = false →
      e.requestSNPublicKey P env [] = .ok (e.withSeq seq, out, .ok ()) →
      Handled P env e r (e.withSeq seq).waiting out

/-- The handler completes, and does one of these things. -/
def Serves (P : Platform) (env : Env) (e : EdgeClient) (r : RawMessage) (x : Go Reply) : Prop :=
  ∃ e' out err, x = .ok (e', out, err) ∧ Handled P env e r e' out

theorem Handled.same : Handled P env e r e [] := .idle e.seq e.eapi fun _ => noTap_nil

theorem Serves.completes {x : Go Reply} (h : Serves P env e r x) : Completes x := by
  obtain ⟨e', out, err, rfl, -⟩ := h
  exact completes_ok _

theorem serves_same (err : Except Err Unit) : Serves P env e r (.ok (e, [], err)) :=
  ⟨_, _, _, rfl, .same⟩

theorem handled_sendStruct {T : Type} [PacketTyped T] {codec : Codec T} {s : T}
    (h : e.sendStruct codec P env [] s dst strategy = .ok (e', out, err)) :
    Handled P env e r e' out := by
  obtain ⟨seq, more, rfl, rfl, hno⟩ := sendStruct_ok h
  exact .idle seq e.eapi fun _ => hno

theorem serves_withMessage {T : Type} [PacketTyped T] {codec : Codec T} {f : Message T → Go Reply}
    (h : ∀ m, toMessage codec r = .ok m → Serves P env e r (f m)) :
    Serves P env e r (e.withMessage codec r f) := by
  unfold withMessage
  cases hm : toMessage codec r with
  | error err => exact serves_same _
  | ok m => exact h m hm

theorem handled_withMessage {T : Type} [PacketTyped T] {codec : Codec T} {f : Message T → Go Reply}
    (h : e.withMessage codec r f = .ok (e', out, err))
    (hf : ∀ m, toMessage codec r = .ok m → f m = .ok (e', out, err) → Handled P env e r e' out) :
    Handled P env e r e' out := by
  unfold withMessage at h
  cases hm : toMessage codec r with
  | error err =>
    rw [hm] at h
    cases h
    exact .same
  | ok m =>
    rw [hm] at h
    exact hf m hm h

/-! One lemma for each handler that does something. -/

theorem serves_handleSNPublicSecretMessage :
    Serves P env e r (e.handleSNPublicSecretMessage P env r) := by
  refine serves_withMessage fun m hm => ?_
  cases hkey : P.publicKeyFromPEMData m.msg.pemData with
  | none => exact serves_same _
  | some pubkey =>
    simp only
    split
    · next hflag =>
      obtain ⟨⟨e', out, err⟩, hreq⟩ : Completes ((e.withKey pubkey).requestRegister P env []) :=
        completes_requestRegister (Option.some_ne_none _)
      obtain ⟨seq, -, rfl, -⟩ := requestRegister_ok hreq
      exact ⟨_, _, _, hreq, .register hm hkey hflag hreq⟩
    · next hflag => exact ⟨_, _, _, rfl, .key hm hkey (Bool.not_eq_true _ ▸ hflag)⟩

theorem serves_handleRegisterResponseMessage :
    Serves P env e r (e.handleRegisterResponseMessage P env r) := by
  refine serves_withMessage fun m hm => ?_
  split
  · exact serves_same _
  · next hok =>
    obtain ⟨⟨e', out, err⟩, hsend⟩ : Completes (e.reregistered.sendPeerListRequest P env []) :=
      completes_sendStruct _ _ _ fun _ h => by cases h
    obtain ⟨seq, -, rfl, -⟩ := sendStruct_ok hsend
    exact ⟨_, _, _, bind_eq_ok.mpr ⟨_, hsend, rfl⟩, .accepted hm (not_not.mp hok) hsend⟩

theorem serves_handleRetryRegisterRequest :
    Serves P env e r (e.handleRetryRegisterRequest P env r) := by
  unfold handleRetryRegisterRequest
  split
  · exact serves_same _
  · next htype =>
    split
    · exact serves_same _
    · next hflag =>
      obtain ⟨⟨e', out, err⟩, hsend⟩ : Completes (e.requestSNPublicKey P env []) :=
        completes_sendStruct _ _ _ fun _ h => by cases h
      rw [hsend, ok_bind]
      cases err with
      | error err => exact ⟨_, _, _, rfl, handled_sendStruct hsend⟩
      | ok u =>
        obtain ⟨seq, -, rfl, -⟩ := sendStruct_ok hsend
        exact ⟨_, _, _, rfl, .retried (not_not.mp htype) (Bool.not_eq_true _ ▸ hflag) hsend⟩

theorem serves_handleUnregisterRequestMessage :
    Serves P env e r (e.handleUnregisterRequestMessage P r) := by
  refine serves_withMessage fun m hm => ?_
  split
  · exact serves_same _
  · exact ⟨_, _, _, rfl, .left hm⟩

theorem serves_handleP2PStateInfoMessage :
    Serves P env e r (e.handleP2PStateInfoMessage P env r) :=
  serves_withMessage fun _ hm => ⟨_, _, _, rfl, .reported hm⟩

theorem serves_handleP2PFullStateMessage :
    Serves P env e r (e.handleP2PFullStateMessage P r) := by
  refine serves_withMessage fun m hm => ?_
  split
  · exact serves_same _
  · have hall : Handled P env e r (e.withPeers
        (e.peers.updateP2PCommunityDatas m.msg.reachables m.msg.unreachables).1) [] := .fullState hm
    rcases hdatas : e.peers.updateP2PCommunityDatas m.msg.reachables m.msg.unreachables
      with ⟨reg, res | res⟩
    · rw [hdatas] at hall
      exact ⟨_, _, _, rfl, hall⟩
    · rw [hdatas] at hall
      exact ⟨_, _, _, rfl, hall⟩

theorem serves_handlePingMessage : Serves P env e r (e.handlePingMessage P env r) := by
  refine serves_withMessage fun m hm => ?_
  obtain rfl : m.toRawMessage = r := toMessage_ok hm
  split
  · split
    · exact serves_same _
    · next dst hdst =>
      split
      · exact serves_same _
      · obtain ⟨⟨e', out, err⟩, hsend⟩ : Completes (e.sendStruct P.codecs.peerToPing P env []
            ⟨m.msg.checkId, true⟩ (some dst) .bestEffort) :=
          completes_sendStruct _ _ _ fun d hd => by
            cases hd
            exact Net.six_le_length_parseMAC hdst
        exact ⟨_, _, _, bind_eq_ok.mpr ⟨_, hsend, rfl⟩, handled_sendStruct hsend⟩
  · next hpong =>
    unfold PeerRegistry.getPeer
    cases hp : e.peers.peers.lookup m.edgeMACAddr with
    | none => exact serves_same _
    | some p => exact ⟨_, _, _, rfl, .pong hm (not_not.mp hpong) hp⟩

theorem serves_handleICECandidateMessage :
    Serves P env e r (e.handleICECandidateMessage P env r) := by
  refine serves_withMessage fun m hm => ?_
  generalize (if m.msg.targetMac = [] then r.destMACAddr else m.msg.targetMac) = targetMAC
  simp only
  split
  · exact serves_same _
  · split
    · exact serves_same _
    · next dst hdst =>
      obtain ⟨⟨e', out, err⟩, hsend⟩ : Completes (e.sendStruct P.codecs.iceCandidate P env []
          m.msg (some dst) .bestEffort) :=
        completes_sendStruct _ _ _ fun d hd => by
          cases hd
          exact Net.six_le_length_parseMAC hdst
      exact ⟨_, _, _, hsend, handled_sendStruct hsend⟩

theorem serves_handleDataMessage (hdata : r.header.packetType = typeData) :
    Serves P env e r (e.handleDataMessage env r) := by
  unfold handleDataMessage
  rcases hreply : e.handleDataPayload env r.payload with ⟨e', out, err⟩
  obtain rfl : e' = e := (congrArg Prod.fst hreply).symm.trans (handleDataPayload_fst _)
  exact ⟨_, _, _, rfl, .idle e'.seq e'.eapi fun h => absurd hdata h⟩

/-- What holds of the handlers for peer lists, leases and online checks and of every handler
that completes holds of what is dispatched. -/
theorem handle_induction {C : Go Reply → Prop} (hserves : ∀ x, Serves P env e r x → C x)
    (hpeers : C (e.handlePeerInfoMessage P env r))
    (hleases : C (e.handleLeasesInfosMessage P r))
    (honline : C (e.handleOnlineCheckMessage P env r)) : C (e.handle P env r) := by
  have hsame : ∀ err, C (.ok (e, [], err)) := fun err => hserves _ (serves_same err)
  unfold handle
  simp only
  refine iteInduction (motive := C) (fun h => hserves _ (serves_handleDataMessage h)) fun _ => ?_
  refine iteInduction (motive := C) (fun _ => hpeers) fun _ => ?_
  refine iteInduction (motive := C) (fun _ => hserves _ serves_handlePingMessage) fun _ => ?_
  refine iteInduction (motive := C) (fun _ => hserves _ serves_handleP2PFullStateMessage) fun _ => ?_
  refine iteInduction (motive := C) (fun _ => hleases) fun _ => ?_
  refine iteInduction (motive := C) (fun _ => hserves _ serves_handleRetryRegisterRequest) fun _ => ?_
  refine iteInduction (motive := C)
    (fun _ => hserves _ serves_handleRegisterResponseMessage) fun _ => ?_
  refine iteInduction (motive := C)
    (fun _ => hserves _ serves_handleSNPublicSecretMessage) fun _ => ?_
  refine iteInduction (motive := C) (fun _ => hsame _) fun _ => ?_
  refine iteInduction (motive := C)
    (fun _ => hserves _ serves_handleUnregisterRequestMessage) fun _ => ?_
  refine iteInduction (motive := C) (fun _ => hsame _) fun _ => ?_
  refine iteInduction (motive := C) (fun _ => hsame _) fun _ => ?_
  refine iteInduction (motive := C) (fun _ => hserves _ serves_handleP2PStateInfoMessage) fun _ => ?_
  refine iteInduction (motive := C) (fun _ => honline) fun _ => ?_
  refine iteInduction (motive := C) (fun _ => hserves _ serves_handleICECandidateMessage) fun _ => ?_
  exact iteInduction (motive := C)
    (fun _ => hserves _ (serves_withMessage fun _ _ => serves_same _)) fun _ => hsame _

theorem handlePeerInfoMessage_handled
    (h : e.handlePeerInfoMessage P env r = .ok (e', out, err)) : Handled P env e r e' out := by
  refine handled_withMessage h fun m hm h => ?_
  obtain ⟨⟨reg, res⟩, hlist, h⟩ := bind_eq_ok.mp h
  cases res with
  | error res =>
    cases h
    exact .peers hm hlist
  | ok res =>
    cases h
    exact .peers hm hlist

theorem handleLeasesInfosMessage_handled
    (h : e.handleLeasesInfosMessage P r = .ok (e', out, err)) : Handled P env e r e' out := by
  refine handled_withMessage h fun m hm h => ?_
  split at h
  · cases h
    exact .same
  · obtain ⟨_, -, h⟩ := bind_eq_ok.mp h
    cases h
    exact .idle e.seq _ fun _ => noTap_nil

theorem handleOnlineCheckMessage_handled
    (h : e.handleOnlineCheckMessage P env r = .ok (e', out, err)) : Handled P env e r e' out := by
  refine handled_withMessage h fun m hm h => ?_
  split at h
  · cases h
    exact .same
  · exact absurd h (sendAck_ne_ok _)

/-- **Handling a message does one of the things listed.** -/
theorem handle_handled (h : e.handle P env r = .ok (e', out, err)) : Handled P env e r e' out := by
  revert h
  refine handle_induction (C := fun x => x = .ok (e', out, err) → Handled P env e r e' out)
    (fun x hx h => ?_) handlePeerInfoMessage_handled handleLeasesInfosMessage_handled
    handleOnlineCheckMessage_handled
  obtain ⟨e1, out1, err1, rfl, hhandled⟩ := hx
  cases h
  exact hhandled

/-! The handlers of the messages that make an edge register again. -/

theorem handle_retryRegisterRequest (h : r.header.packetType = typeRetryRegisterRequest) :
    e.handle P env r = e.handleRetryRegisterRequest P env r := by
  unfold handle
  simp only [h]
  rfl

theorem handle_registerResponse (h : r.header.packetType = typeRegisterResponse) :
    e.handle P env r = e.handleRegisterResponseMessage P env r := by
  unfold handle
  simp only [h]
  rfl

theorem handle_snPublicSecret (h : r.header.packetType = typeSNPublicSecret) :
    e.handle P env r = e.handleSNPublicSecretMessage P env r := by
  unfold handle
  simp only [h]
  rfl

theorem Handled.sameHost (h : Handled P env e r e' out) : SameHost e e' := by
  cases h <;> exact ⟨rfl, rfl, rfl, rfl, rfl, rfl⟩

theorem Handled.quiet (h : Handled P env e r e' out) (hdata : r.header.packetType ≠ typeData) :
    NoTap out ∧ SameSetup e e' := by
  cases h with
  | idle seq api hout => exact ⟨hout hdata, rfl, rfl, rfl⟩
  | register _ _ _ hsend =>
    obtain ⟨_, more, -, rfl, hno⟩ := requestRegister_ok hsend
    exact ⟨hno, rfl, rfl, rfl⟩
  | accepted _ _ hsend =>
    obtain ⟨_, more, -, rfl, hno⟩ := sendStruct_ok hsend
    exact ⟨hno, rfl, rfl, rfl⟩
  | retried _ _ hsend =>
    obtain ⟨_, more, -, rfl, hno⟩ := sendStruct_ok hsend
    exact ⟨hno, rfl, rfl, rfl⟩
  | _ => exact ⟨noTap_nil, rfl, rfl, rfl⟩

theorem handle_peerInfoList {m : Message PeerInfoList} (hm : toMessage P.codecs.peerInfoList r = .ok m)
    (h : e.handle P env r = .ok (e', out, err)) :
    ∃ reg res, e.peers.handlePeerInfoList P.services env.now env.order m.msg false true =
        .ok (reg, res) ∧ e' = e.withPeers reg ∧ out = [] := by
  have htype : r.header.packetType = typePeerInfo := packetType_of_toMessage hm
  have hhandle : e.handle P env r = e.handlePeerInfoMessage P env r := by
    unfold handle
    simp only [htype]
    rfl
  rw [hhandle, handlePeerInfoMessage, withMessage, hm] at h
  obtain ⟨⟨reg, res⟩, hlist, h⟩ := bind_eq_ok.mp h
  refine ⟨reg, res, hlist, ?_⟩
  cases res with
  | error res =>
    cases h
    exact ⟨rfl, rfl⟩
  | ok res =>
    cases h
    exact ⟨rfl, rfl⟩

theorem handlePacket_ok {packet : Bytes} {addr : NetAddr}
    (h : e.handlePacket P env packet addr = .ok (e', out)) :
    ((∃ err, newRawMessage packet addr = .ok (.error err)) ∧ e' = e ∧ out = []) ∨
      ∃ r err, newRawMessage packet addr = .ok (.ok r) ∧ e.handle P env r = .ok (e', out, err) := by
  unfold handlePacket at h
  obtain ⟨raw, hraw, h⟩ := bind_eq_ok.mp h
  cases raw with
  | error err =>
    cases h
    exact Or.inl ⟨⟨err, hraw⟩, rfl, rfl⟩
  | ok r =>
    obtain ⟨⟨e1, out1, err1⟩, hhandle, h⟩ := bind_eq_ok.mp h
    cases h
    exact Or.inr ⟨r, err1, hraw, hhandle⟩

end N2nGo.EdgeClient
