import N2nGo.Model.Supernode.Registration

/-!
# The supernode's packet handlers

`ProcessPacket` and the ten handlers it dispatches to, the removal of stale edges, and
the events a supernode goes through. A handler returns the new state, the sends it
attempted and its error; a panic is the failure of the `Go` computation.
-/

set_option autoImplicit false

namespace N2nGo.Supernode

open N2nGo.Lib N2nGo.Protocol N2nGo.Messages

/-- What a handler leaves behind when it returns. -/
abbrev Reply := Supernode × List Sent × Except Err Unit

/-- A handler for messages of type `T`, run on a raw message. -/
def withMessage {T : Type} [PacketTyped T] (codec : Codec T) (s : Supernode) (r : RawMessage)
    (handle : Message T → Go Reply) : Go Reply :=
  match toMessage codec r with
  | .error e => .ok (s, [], .error (.protocol e))
  | .ok m => handle m

/-! ## Answers about a community -/

/-- GOLINE: supernode/community.go:165-184 -/
def getPeerInfoList (env : Env) (s : Supernode) (cm : CommunityRef) (reqMACAddr : Bytes)
    (full : Bool) : PeerInfoList :=
  let edges := getAllEdges env s cm
  let origin := if full then edges.reverse.find? (·.macAddr = reqMACAddr) else none
  { hasOrigin := origin.isSome
    origin := origin.map Edge.peerInfo
    peerInfos := (edges.filter (·.macAddr ≠ reqMACAddr)).map Edge.peerInfo
    eventType := typeList.toUInt32 }

/-- GOLINE: supernode/community.go:186-194 -/
def getEdgeUDPAddr (s : Supernode) (cm : CommunityRef) (macAddr : Bytes) :
    Except Err Net.UDPAddr :=
  match (s.cms.cell cm).edges.lookup macAddr with
  | none => .error (.unknownEdge (s.cms.cell cm).name macAddr)
  | some ref => .ok (s.edges.cell ref).udpAddr

/-- GOLINE: supernode/community.go:368-399 -/
def getLeasesWithEdgesInfos (env : Env) (s : Supernode) (cm : CommunityRef) :
    Table Bytes LeaseWithEdgeInfos :=
  (s.pools.cell (s.cms.cell cm).ips).leases.entries.foldl (fun extLeases ⟨mac, v⟩ =>
    let extLease :=
      match s.edgeCachedInfos.lookup mac with
      | some cached =>
        ⟨cached.desc, cached.isRegistered, env.now - cached.updatedAt, cached.virtualIP.bytes⟩
      | none => ⟨ascii "unknown", false, -1000000000, []⟩
    extLeases.insert mac ⟨⟨v.ip, v.mac, v.expiry, v.sticky, v.lastRenew⟩, extLease⟩) ∅

/-- GOLINE: supernode/registration.go:165-186 -/
def getOfflineCachedEdges (env : Env) (s : Supernode) (cm : CommunityRef) :
    Table Bytes PeerCachedInfo :=
  s.edgeCachedInfos.entries.foldl (fun offlineEdges ⟨_, v⟩ =>
    if v.community ≠ (s.cms.cell cm).name ∨ v.isRegistered then offlineEdges
    else offlineEdges.insert v.macAddr
      ⟨v.desc, v.macAddr, v.virtualIP.string, (s.cms.cell cm).name, env.now - v.updatedAt⟩) ∅

/-- GOLINE: supernode/community.go:144-163 -/
def getCommunityPeerP2PInfosDatas (env : Env) (s : Supernode) (cm : CommunityRef)
    (edgeMacADDR : Bytes) : Except Err P2PFullState :=
  match (s.cms.cell cm).edges.lookup edgeMacADDR with
  | none => .error (.unknownEdge (s.cms.cell cm).name edgeMacADDR)
  | some _ => .ok
      { communityName := (s.cms.cell cm).name
        isRequest := false
        reachables := some (s.cms.cell cm).communityPeerP2PInfos
        unreachables := some (getOfflineCachedEdges env s cm) }

/-- GOLINE: supernode/community.go:125-136 -/
def setP2PInfosFor (s : Supernode) (cm : CommunityRef) (edgeMacADDR : Bytes) (infos : PeerP2PInfos) :
    Supernode × Except Err Unit :=
  let c := s.cms.cell cm
  match c.edges.lookup edgeMacADDR with
  | none => (s, .error (.unknownEdge c.name edgeMacADDR))
  | some _ =>
    ({ s with cms := s.cms.store cm { c with
        communityPeerP2PInfos := c.communityPeerP2PInfos.insert edgeMacADDR infos } }, .ok ())

/-- Send an answer to a member: over its WebSocket connection if it has one, else to its
UDP address. Three handlers end this way.
GOLINE: supernode/handlers.go:41-56, 80-93, 196-209 -/
def answerMember {T : Type} [PacketTyped T] (codec : Codec T) (env : Env) (s : Supernode)
    (cm : CommunityRef) (edgeMACAddr : Bytes) (p : T) (community : Bytes) : Go Reply :=
  let connID := ((s.getEdge cm edgeMACAddr).map Edge.wssConnID).getD []
  if connID ≠ [] then do
    let (out, err) ← sendStruct codec env s [] p community (.wss connID)
    .ok (s, out, err)
  else match s.getEdgeUDPAddr cm edgeMACAddr with
    | .error e => .ok (s, [], .error e)
    | .ok target => do
      let (out, err) ← sendStruct codec env s [] p community (.udp target)
      .ok (s, out, err)

/-! ## Handlers -/

/-- GOLINE: supernode/handlers.go:13-28 -/
def handleP2PStateInfoMessage (P : Platform) (s : Supernode) (r : RawMessage) : Go Reply :=
  withMessage P.codecs.peerP2PInfos s r fun p2pMsg =>
    match s.getCommunity r with
    | .error e => .ok (s, [], .error e)
    | .ok cm =>
      let (s, err) := setP2PInfosFor s cm r.edgeMACAddr p2pMsg.msg
      .ok (s, [], err)

/-- GOLINE: supernode/handlers.go:30-57 -/
def handlePeerRequestMessage (P : Platform) (env : Env) (s : Supernode) (r : RawMessage) :
    Go Reply :=
  withMessage P.codecs.peerListRequest s r fun peerReqMsg =>
    match s.getCommunity r with
    | .error e => .ok (s, [], .error e)
    | .ok cm =>
      answerMember P.codecs.peerInfoList env s cm r.edgeMACAddr
        (getPeerInfoList env s cm r.edgeMACAddr true) peerReqMsg.msg.communityName

/-- The answer to a request for the leases of a community.
GOLINE: supernode/handlers.go:71-76 -/
def leasesReply (env : Env) (s : Supernode) (cm : CommunityRef) : LeasesInfos :=
  ⟨false, (s.cms.cell cm).name, getLeasesWithEdgesInfos env s cm⟩

/-- GOLINE: supernode/handlers.go:59-94 -/
def handleLeasesInfosMessage (P : Platform) (env : Env) (s : Supernode) (r : RawMessage) :
    Go Reply :=
  withMessage P.codecs.leasesInfos s r fun leaseMsg =>
    if ¬ leaseMsg.msg.isRequest then .ok (s, [], .error .notARequest)
    else match s.getCommunity r with
      | .error e => .ok (s, [], .error e)
      | .ok cm =>
        answerMember P.codecs.leasesInfos env s cm r.edgeMACAddr (leasesReply env s cm)
          (s.cms.cell cm).name

/-- GOLINE: supernode/handlers.go:96-106 -/
def handleUnregisterMessage (P : Platform) (env : Env) (s : Supernode) (r : RawMessage) :
    Go Reply :=
  withMessage P.codecs.unregisterRequest s r fun unReg =>
    match validateEdgeClaimedMACAddr P r.edgeMACAddr unReg.msg.encryptedMachineId
        unReg.msg.communityName with
    | .error e => .ok (s, [], .error e)
    | .ok _ => unregisterEdge P env s r

/-- The end of `handleRegisterMessage`: the record is indexed, the edge is answered and its
community told.
GOLINE: supernode/handlers.go:116-145 -/
def answerRegister (P : Platform) (env : Env) (r : RawMessage) (communityName : Bytes) :
    Supernode × Except Err (EdgeRef × CommunityRef) → Go Reply
  | (s, .error e) => do
    let (out, _) ← sendStruct P.codecs.registerResponse env s [] ⟨false, [], 0⟩ communityName
      r.fromAddr
    .ok (s.count (fun st => { st with packetsDropped := st.packetsDropped + 1 }), out, .error e)
  | (s, .ok (ref, cm)) => do
    let s := (s.setWSSConnID ref r.fromAddr).indexEdge ref
    let edge := s.edges.cell ref
    let (out, _) ← sendStruct P.codecs.registerResponse env s []
      ⟨true, edge.virtualIP.string, edge.vNetMaskLen⟩ communityName r.fromAddr
    broadcastStruct P.codecs.peerInfoList env s out (newPeerInfoEvent typeRegister edge) cm
      r.edgeMACAddr

/-- GOLINE: supernode/handlers.go:108-145 -/
def handleRegisterMessage (P : Platform) (env : Env) (s : Supernode) (r : RawMessage) : Go Reply :=
  withMessage P.codecs.registerRequest s r fun reg => do
    let registered ← registerEdge P env s reg
    answerRegister P env r reg.msg.communityName registered

/-- GOLINE: supernode/handlers.go:147-175 -/
def handleHeartbeatMessage (P : Platform) (env : Env) (s : Supernode) (r : RawMessage) : Go Reply :=
  withMessage P.codecs.heartbeatPulse s r fun pulse =>
    match s.getCommunity r with
    | .error e => .ok (s, [], .error e)
    | .ok cm =>
      let s := s.count fun st => { st with heartbeatsReceived := st.heartbeatsReceived + 1 }
      match decryptMachineID P pulse.msg.encryptedMachineId with
      | .error e => .ok (s, [], .error e)
      | .ok decmacid =>
        let pulse := { pulse with msg := { pulse.msg with clearMachineId := decmacid } }
        match refreshEdge env s cm pulse with
        | (s, .error e) => .ok (s, [], .error e)
        | (s, .ok changed) =>
          match s.getEdge cm r.edgeMACAddr with
          | some edge =>
            if changed then do
              let (s, out, _) ← broadcastStruct P.codecs.peerInfoList env s []
                (newPeerInfoEvent typeRegister edge) cm r.edgeMACAddr
              .ok (s, out, .ok ())
            else .ok (s, [], .ok ())
          | none => .ok (s, [], .ok ())

/-- GOLINE: supernode/handlers.go:177-210 -/
def handleP2PFullStateMessage (P : Platform) (env : Env) (s : Supernode) (r : RawMessage) :
    Go Reply :=
  withMessage P.codecs.p2pFullState s r fun fsMsg =>
    if ¬ fsMsg.msg.isRequest then .ok (s, [], .error .notARequest)
    else match s.getCommunityForEdge r.edgeMACAddr r.communityHash with
      | .error e => .ok (s, [], .error e)
      | .ok cm =>
        match getCommunityPeerP2PInfosDatas env s cm r.edgeMACAddr with
        | .error e => .ok (s, [], .error e)
        | .ok state =>
          answerMember P.codecs.p2pFullState env s cm r.edgeMACAddr state (s.cms.cell cm).name

/-- GOLINE: supernode/handlers.go:213-218 -/
def handlePingMessage (env : Env) (s : Supernode) (r : RawMessage) : Go Reply :=
  if r.header.packetType ≠ typePing then
    .ok (s, [], .error (.protocol (.notPacketOfType typePing)))
  else forwardUnicast env s r

/-- GOLINE: supernode/handlers.go:220-233 -/
def handleSNPublicSecretMessage (P : Platform) (env : Env) (s : Supernode) (r : RawMessage) :
    Go Reply :=
  withMessage P.codecs.snPublicSecret s r fun secretMsg =>
    if ¬ secretMsg.msg.isRequest then .ok (s, [], .error .notARequest)
    else do
      let (out, err) ← sendStruct P.codecs.snPublicSecret env s [] ⟨false, s.pem⟩ [] r.fromAddr
      .ok (s, out, err)

/-- GOLINE: supernode/handlers.go:236-241 -/
def handleDataMessage (env : Env) (s : Supernode) (r : RawMessage) : Go Reply :=
  if r.header.packetType ≠ typeData then
    .ok (s, [], .error (.protocol (.notPacketOfType typeData)))
  else forwardWithFallBack env s r

/-- The handler is chosen by the packet type; types without an entry are an error.
GOLINE: supernode/supernode.go:106-115, protocol/handler.go:11-17 -/
def handle (P : Platform) (env : Env) (s : Supernode) (r : RawMessage) : Go Reply :=
  let t := r.header.packetType
  if t = typeRegisterRequest then handleRegisterMessage P env s r
  else if t = typeUnregisterRequest then handleUnregisterMessage P env s r
  else if t = typeHeartbeat then handleHeartbeatMessage P env s r
  else if t = typeData then handleDataMessage env s r
  else if t = typePeerListRequest then handlePeerRequestMessage P env s r
  else if t = typePing then handlePingMessage env s r
  else if t = typeP2PStateInfo then handleP2PStateInfoMessage P s r
  else if t = typeP2PFullState then handleP2PFullStateMessage P env s r
  else if t = typeLeasesInfos then handleLeasesInfosMessage P env s r
  else if t = typeSNPublicSecret then handleSNPublicSecretMessage P env s r
  else .ok (s, [], .error (.protocol (.noMessageHandler t)))

/-- GOLINE: supernode/handlers.go:243-271 -/
def handleVFuze (env : Env) (s : Supernode) (packet : Bytes) (addr : NetAddr) :
    Go (List Sent) := do
  match ← vFuzePacketDestMACAddr packet with
  | .error _ => .ok []
  | .ok dst =>
    if ¬ s.config.enableVFuze then .ok []
    else match s.edgesByMAC.lookup (Net.hardwareAddrString dst), s.edgesBySocket.lookup addr.string with
      | some dstedge, some srcedge =>
        if (s.edges.cell dstedge).community ≠ (s.edges.cell srcedge).community then .ok []
        else do
          let (out, _) ← forwardPacket env s [] packet (s.edges.cell dstedge)
          .ok out
      | _, _ => .ok []

/-- The answer to a sender the supernode does not know.
GOLINE: supernode/supernode.go:154-161 -/
def askForRegistration (env : Env) (s : Supernode) (out : List Sent) (addr : NetAddr) :
    Go (List Sent) :=
  match addr with
  | .udp _ => do
    let (out, _) ← writePacket env s out typeRetryRegisterRequest [] [] addr
    .ok out
  | .wss _ => .ok out

/-- GOLINE: supernode/supernode.go:133-163 -/
def processPacket (P : Platform) (env : Env) (s : Supernode) (packet : Bytes) (addr : NetAddr) :
    Go (Supernode × List Sent) := do
  let s := s.count fun st => { st with packetsProcessed := st.packetsProcessed + 1 }
  let version ← index packet 0
  if version = versionVFuze then
    let out ← handleVFuze env s packet addr
    .ok (s, out)
  else
    match ← newRawMessage packet addr with
    | .error _ => .ok (s, [])
    | .ok rawMsg =>
      let (s, out, err) ← handle P env s rawMsg
      match err with
      | .ok _ => .ok (s, out)
      | .error e =>
        if e.asksForRegistration then
          let out ← askForRegistration env s out addr
          .ok (s, out)
        else .ok (s, out)

/-! ## Stale edges -/

/-- GOLINE: supernode/community.go:416-427 -/
def getStaleEdgeIDs (env : Env) (s : Supernode) (cm : CommunityRef) : List Bytes :=
  ((getAllEdges env s cm).filter fun edge =>
    env.now - edge.lastHeartbeat > s.config.expiryDuration).map Edge.macAddr

/-- The removals of one `CleanupStaleEdges`. An edge removed here is counted twice.
GOLINE: supernode/cleanup.go:25-33 -/
def cleanupLoop (P : Platform) (env : Env) :
    List (CommunityRef × Bytes) → Supernode → List Sent → Go (Supernode × List Sent)
  | [], s, out => .ok (s, out)
  | (cm, id) :: rest, s, out =>
    match unregister env s cm id with
    | (s, false) => cleanupLoop P env rest s out
    | (s, true) => do
      let s := s.count fun st => { st with edgesUnregistered := st.edgesUnregistered + 1 }
      let (s, out) ← onEdgeUnregistered P env s out cm id
      cleanupLoop P env rest s out

/-- The stale edges of every community, in the order they are removed. The communities are
visited twice, and the edges of each in an order of their own.
GOLINE: supernode/cleanup.go:13-26 -/
def staleEdges (env : Env) (s : Supernode) : List (CommunityRef × Bytes) :=
  let cms := (env.orders 0).visit s.communities.values
  ((env.orders 1).visit cms).flatMap fun cm =>
    (getStaleEdgeIDs (env.ranging (2 + cm)) s cm).map fun id => (cm, id)

/-- GOLINE: supernode/cleanup.go:9-37 -/
def cleanupStaleEdges (P : Platform) (env : Env) (s : Supernode) : Go (Supernode × List Sent) := do
  let stales := staleEdges env s
  let (s, out) ← cleanupLoop P env stales s []
  .ok (s.count (fun st => { st with
      lastCleanupTime := env.now
      lastCleanupEdges := stales.length }), out)

/-! ## Runs -/

/-- What can happen to a supernode: a packet arrives, the cleanup ticker fires, a
WebSocket connection opens or closes. -/
inductive Event where
  | packet (env : Env) (packet : Bytes) (addr : NetAddr)
  | cleanup (env : Env)
  | connect (connID : Bytes) (conn : ConnRef)
  | disconnect (connID : Bytes)

/-- GOLINE: supernode/supernode.go:133-163, 289-330, 339-349, supernode/cleanup.go:39-53 -/
def step (P : Platform) (s : Supernode) : Event → Go (Supernode × List Sent)
  | .packet env packet addr => processPacket P env s packet addr
  | .cleanup env => cleanupStaleEdges P env s
  | .connect connID conn =>
    .ok ({ s with wssConnections := s.wssConnections.insert connID conn }, [])
  | .disconnect connID => .ok ({ s with wssConnections := s.wssConnections.erase connID }, [])

end N2nGo.Supernode
