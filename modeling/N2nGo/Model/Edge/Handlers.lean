import N2nGo.Model.Edge.Wire

/-!
# Message handlers of an edge

What an edge does with the messages it receives, one definition for each handler that
`NewEdgeClient` enters in its table, and the dispatch. A data payload that is too short
to be encrypted skips the pipeline; everything shorter than an Ethernet frame is padded.
-/

set_option autoImplicit false

namespace N2nGo.EdgeClient

open N2nGo.Lib N2nGo.Protocol N2nGo.Messages

/-! ## Data -/

/-- GOLINE: edge/client.go:362-364 -/
def processOutgoingPayload (env : Env) (e : EdgeClient) (payload : Bytes) :
    Except Transform.Err Bytes := e.payloadProcessor.prepareOutput env.rand payload

/-- GOLINE: edge/client.go:366-368 -/
def processIncomingPayload (e : EdgeClient) (payload : Bytes) : Except Transform.Err Bytes :=
  e.payloadProcessor.parseInput payload

/-- GOLINE: edge/handlers.go:103 -/
def minGCMSize : ℕ := 28

/-- GOLINE: edge/handlers.go:114-119 -/
def padFrame (payload : Bytes) : Bytes :=
  if payload.length < 60 then payload ++ List.replicate (60 - payload.length) 0 else payload

/-- What is written to the TAP device, before it is padded.
GOLINE: edge/handlers.go:103-112 -/
def incomingFrame (e : EdgeClient) (payload : Bytes) : Except Err Bytes :=
  if payload.length < minGCMSize then .ok payload
  else match e.processIncomingPayload payload with
    | .error err => .error (.processingIncoming err)
    | .ok frame => .ok frame

/-- GOLINE: edge/handlers.go:98-125 -/
def handleDataPayload (env : Env) (e : EdgeClient) (payload : Bytes) : Reply :=
  match e.incomingFrame payload with
  | .error err => (e, [], .error err)
  | .ok frame =>
    let w := write env [] .tap (padFrame frame)
    (e, [w], if w.ok then .ok () else .error .tapWrite)

/-- GOLINE: edge/handlers.go:127-129 -/
def handleDataMessage (env : Env) (e : EdgeClient) (r : RawMessage) : Go Reply :=
  .ok (e.handleDataPayload env r.payload)

/-! ## Registration -/

/-- The beginning of the handlers that decode their message: an error is returned as it is. -/
def withMessage {T : Type} [PacketTyped T] (codec : Codec T) (e : EdgeClient) (r : RawMessage)
    (f : Message T → Go Reply) : Go Reply :=
  match toMessage codec r with
  | .error err => .ok (e, [], .error (.protocol err))
  | .ok m => f m

/-- GOLINE: edge/handlers.go:17-20 -/
def handleHeartbeatMessage (e : EdgeClient) (_ : RawMessage) : Go Reply := .ok (e, [], .ok ())

/-- GOLINE: edge/handlers.go:22-44 -/
def handleSNPublicSecretMessage (P : Platform) (env : Env) (e : EdgeClient) (r : RawMessage) :
    Go Reply :=
  e.withMessage P.codecs.snPublicSecret r fun rresp =>
    match P.publicKeyFromPEMData rresp.msg.pemData with
    | none => .ok (e, [], .error .invalidPEM)
    | some pubkey =>
      let e := { e with snPubKey := some pubkey, isWaitingForSNPubKeyUpdate := false }
      if e.isWaitingForSNRetryRegisterResponse then e.requestRegister P env []
      else .ok (e, [], .ok ())

/-- A failure to send the request for the peer list is only logged.
GOLINE: edge/handlers.go:46-65 -/
def handleRegisterResponseMessage (P : Platform) (env : Env) (e : EdgeClient) (r : RawMessage) :
    Go Reply :=
  e.withMessage P.codecs.registerResponse r fun rresp =>
    if ¬ rresp.msg.isRegisterOk then .ok (e, [], .error .nackRegister)
    else do
      let e := { e with
        registered := true
        isWaitingForSNRetryRegisterResponse := false
        peers := { e.peers with isWaitingCommunityDatas := false } }
      let (e, out, _) ← e.sendPeerListRequest P env []
      .ok (e, out, .ok ())

/-- GOLINE: edge/handlers.go:158-177 -/
def handleRetryRegisterRequest (P : Platform) (env : Env) (e : EdgeClient) (r : RawMessage) :
    Go Reply :=
  if r.header.packetType ≠ typeRetryRegisterRequest then .ok (e, [], .error .notRetryRegisterRequest)
  else if e.isWaitingForSNRetryRegisterResponse then .ok (e, [], .ok ())
  else do
    let (e, out, err) ← e.requestSNPublicKey P env []
    match err with
    | .error err => .ok (e, out, .error err)
    | .ok _ =>
      .ok ({ e with
        isWaitingForSNPubKeyUpdate := true
        isWaitingForSNRetryRegisterResponse := true }, out, .ok ())

/-! ## Peers -/

/-- Change the registry. -/
def withPeers (e : EdgeClient) (peers : PeerRegistry) : EdgeClient := { e with peers := peers }

/-- GOLINE: edge/handlers.go:131-143 -/
def handlePeerInfoMessage (P : Platform) (env : Env) (e : EdgeClient) (r : RawMessage) : Go Reply :=
  e.withMessage P.codecs.peerInfoList r fun peerMsg => do
    let (peers, err) ←
      e.peers.handlePeerInfoList P.services env.now env.order peerMsg.msg false true
    match err with
    | .error err => .ok (e.withPeers peers, [], .error (.p2p err))
    | .ok _ => .ok (e.withPeers peers, [], .ok ())

/-- The edge's own removal is ignored.
GOLINE: edge/handlers_missing.go:14-29 -/
def handleUnregisterRequestMessage (P : Platform) (e : EdgeClient) (r : RawMessage) : Go Reply :=
  e.withMessage P.codecs.unregisterRequest r fun unreg =>
    if unreg.edgeMACAddr = Net.hardwareAddrString e.macAddr.bytes then .ok (e, [], .ok ())
    else .ok (e.withPeers (e.peers.removePeer P.services unreg.edgeMACAddr), [], .ok ())

/-- Peers of the registry are marked as available.
GOLINE: edge/handlers_missing.go:53-58, 63-69 -/
def markAvailable (now : ℤ) (reg : PeerRegistry) (macAddr : Bytes) : PeerRegistry :=
  match reg.getPeer macAddr with
  | .error _ => reg
  | .ok p => reg.updateStatus now p .available []

/-- GOLINE: edge/handlers_missing.go:44-72 -/
def handleP2PStateInfoMessage (P : Platform) (env : Env) (e : EdgeClient) (r : RawMessage) :
    Go Reply :=
  e.withMessage P.codecs.peerP2PInfos r fun p2pMsg =>
    let peers := match p2pMsg.msg.fromPeer with
      | some _ => markAvailable env.now e.peers p2pMsg.edgeMACAddr
      | none => e.peers
    let peers := (p2pMsg.msg.toPeers.map fun info => Net.hardwareAddrString info.macAddr).foldl
      (markAvailable env.now) peers
    .ok (e.withPeers peers, [], .ok ())

/-- GOLINE: edge/handlers.go:179-188 -/
def handleP2PFullStateMessage (P : Platform) (e : EdgeClient) (r : RawMessage) : Go Reply :=
  e.withMessage P.codecs.p2pFullState r fun fstateMsg =>
    if fstateMsg.msg.isRequest then .ok (e, [], .error .p2pFullStateRequest)
    else
      match e.peers.updateP2PCommunityDatas fstateMsg.msg.reachables fstateMsg.msg.unreachables with
      | (peers, .error err) => .ok (e.withPeers peers, [], .error (.p2p err))
      | (peers, .ok _) => .ok (e.withPeers peers, [], .ok ())

/-- What a pong does to the record of the peer it came from.
GOLINE: edge/handlers.go:221-240 -/
def recordPong (now : ℤ) (reg : PeerRegistry) (p : PeerRef) (checkId : Bytes)
    (fromSupernode : Bool) : PeerRegistry :=
  let reg :=
    if (reg.records.cell p).p2pCheckID = checkId then reg.updateStatus now p .available checkId
    else reg.updateStatus now p .unknown []
  if (reg.records.cell p).p2pStatus = .available then reg.updateFullDuplex p (!fromSupernode)
  else reg

/-- A ping is answered, and a failure to send the answer ignored. A pong with the wrong
check ID is no error either: the error the source makes is not returned.
GOLINE: edge/handlers.go:190-242 -/
def handlePingMessage (P : Platform) (env : Env) (e : EdgeClient) (r : RawMessage) : Go Reply :=
  e.withMessage P.codecs.peerToPing r fun pingMsg =>
    if ¬ pingMsg.msg.isPong then
      match Net.parseMAC pingMsg.edgeMACAddr with
      | none => .ok (e, [], .error .cannotParseSource)
      | some dst =>
        if pingMsg.destMACAddr ≠ Net.hardwareAddrString e.macAddr.bytes then
          .ok (e, [], .error .pingRecipientDiffers)
        else do
          let (e, out, _) ← e.sendStruct P.codecs.peerToPing P env []
            (⟨pingMsg.msg.checkId, true⟩ : PeerToPing) (some dst) .bestEffort
          .ok (e, out, .ok ())
    else
      match e.peers.getPeer pingMsg.edgeMACAddr with
      | .error _ => .ok (e, [], .ok ())
      | .ok p =>
        .ok (e.withPeers (recordPong env.now e.peers p pingMsg.msg.checkId
          pingMsg.header.isFromSupernode), [], .ok ())

/-! ## Other messages -/

/-- The API is followed without a test: it is nil until `Run` has set it.
GOLINE: edge/handlers.go:145-156 -/
def handleLeasesInfosMessage (P : Platform) (e : EdgeClient) (r : RawMessage) : Go Reply :=
  e.withMessage P.codecs.leasesInfos r fun leaseMsg =>
    if leaseMsg.msg.isRequest then .ok (e, [], .error .edgeDoesNotHandleRequest)
    else do
      let _ ← deref e.eapi
      .ok ({ e with eapi := some ⟨false, some leaseMsg.msg⟩ }, [], .ok ())

/-- GOLINE: edge/handlers_missing.go:32-34 -/
def handleAckMessage (e : EdgeClient) (_ : RawMessage) : Go Reply := .ok (e, [], .ok ())

/-- GOLINE: edge/handlers_missing.go:38-40 -/
def handlePeerListRequestMessage (e : EdgeClient) (_ : RawMessage) : Go Reply := .ok (e, [], .ok ())

/-- `SendStruct` of an `Ack`. Its `ProtoReflect` returns a message state in which no message
info was ever stored, so encoding one panics.
GOLINE: edge/wire.go:98-109, protocol/netstruct/ack.go:20-22 -/
def sendAck (P : Platform) (env : Env) (e : EdgeClient) (dst : Option Bytes)
    (strategy : UDPWriteStrategy) : Go Reply :=
  match e.udpAddrWithStrategy P dst strategy with
  | .error err => .ok (e, [], .error err)
  | .ok _ => do
    let _ ← e.edgeHeader env (PacketTyped.packetType Ack) dst
    .error .nilMessageInfo

/-- GOLINE: edge/handlers_missing.go:76-87 -/
def handleOnlineCheckMessage (P : Platform) (env : Env) (e : EdgeClient) (r : RawMessage) :
    Go Reply :=
  e.withMessage P.codecs.onlineCheck r fun oc =>
    if oc.msg.isReply then .ok (e, [], .ok ())
    else e.sendAck P env (bytesToMAC r.header.sourceID) .bestEffort

/-- GOLINE: edge/handlers_missing.go:91-109 -/
def handleICECandidateMessage (P : Platform) (env : Env) (e : EdgeClient) (r : RawMessage) :
    Go Reply :=
  e.withMessage P.codecs.iceCandidate r fun ice =>
    let targetMAC := if ice.msg.targetMac = [] then r.destMACAddr else ice.msg.targetMac
    if targetMAC = [] then .ok (e, [], .error .missingTargetMAC)
    else match Net.parseMAC targetMAC with
      | none => .ok (e, [], .error (.cannotParseTargetMAC targetMAC))
      | some dst => e.sendStruct P.codecs.iceCandidate P env [] ice.msg (some dst) .bestEffort

/-- Credentials are only logged.
GOLINE: edge/handlers_missing.go:113-121 -/
def handleTURNCredentialsMessage (P : Platform) (e : EdgeClient) (r : RawMessage) : Go Reply :=
  e.withMessage P.codecs.turnCredentials r fun _ => .ok (e, [], .ok ())

/-- GOLINE: edge/client.go:236-251, protocol/handler.go:11-17 -/
def handle (P : Platform) (env : Env) (e : EdgeClient) (r : RawMessage) : Go Reply :=
  let t := r.header.packetType
  if t = typeData then e.handleDataMessage env r
  else if t = typePeerInfo then e.handlePeerInfoMessage P env r
  else if t = typePing then e.handlePingMessage P env r
  else if t = typeP2PFullState then e.handleP2PFullStateMessage P r
  else if t = typeLeasesInfos then e.handleLeasesInfosMessage P r
  else if t = typeRetryRegisterRequest then e.handleRetryRegisterRequest P env r
  else if t = typeRegisterResponse then e.handleRegisterResponseMessage P env r
  else if t = typeSNPublicSecret then e.handleSNPublicSecretMessage P env r
  else if t = typeHeartbeat then e.handleHeartbeatMessage r
  else if t = typeUnregisterRequest then e.handleUnregisterRequestMessage P r
  else if t = typeAck then e.handleAckMessage r
  else if t = typePeerListRequest then e.handlePeerListRequestMessage r
  else if t = typeP2PStateInfo then e.handleP2PStateInfoMessage P env r
  else if t = typeOnlineCheck then e.handleOnlineCheckMessage P env r
  else if t = typeICECandidate then e.handleICECandidateMessage P env r
  else if t = typeTURNCredentials then e.handleTURNCredentialsMessage P r
  else .ok (e, [], .error (.protocol (.noMessageHandler t)))

end N2nGo.EdgeClient
