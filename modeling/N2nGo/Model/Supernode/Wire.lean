import N2nGo.Model.Supernode.State

/-!
# Sending packets from the supernode

Every function takes the attempts made so far in the call (`out`) and returns them
with its own appended, so that a handler's result lists its sends in order. Reading
the first byte of a packet is checked: a caller that passes an empty packet panics.

`SendStruct` and `WritePacket` have a branch for a nil address; their callers never
pass one, and `NetAddr` has no nil.
-/

set_option autoImplicit false

namespace N2nGo.Supernode

open N2nGo.Lib N2nGo.Protocol N2nGo.Messages

/-! ## Looking edges up -/

/-- GOLINE: supernode/registration.go:54-69 -/
def getCommunityForEdge (s : Supernode) (edgeMACAddr : Bytes) (communityHash : UInt32) :
    Except Err CommunityRef :=
  match s.communities.lookup communityHash with
  | none => .error .communityNotFound
  | some cm =>
    match (s.cms.cell cm).edges.lookup edgeMACAddr with
    | none => .error (.communityUnknownEdge (s.cms.cell cm).name edgeMACAddr)
    | some _ => .ok cm

/-- GOLINE: supernode/registration.go:71-73 -/
def getCommunity (s : Supernode) (r : RawMessage) : Except Err CommunityRef :=
  s.getCommunityForEdge r.edgeMACAddr r.communityHash

/-- A copy of the record, as the source returns it.
GOLINE: supernode/community.go:329-341 -/
def getEdge (s : Supernode) (cm : CommunityRef) (macAddr : Bytes) : Option Edge :=
  ((s.cms.cell cm).edges.lookup macAddr).map s.edges.cell

/-- Copies of all records, in the order the map is visited.
GOLINE: supernode/community.go:344-355 -/
def getAllEdges (env : Env) (s : Supernode) (cm : CommunityRef) : List Edge :=
  (env.order.visit (s.cms.cell cm).edges.values).map s.edges.cell

/-! ## Forwarding -/

/-- Where packets for the edge are written, if its connection is still known.
GOLINE: supernode/wire.go:64-79 -/
def route (s : Supernode) (target : Edge) : Option Dest :=
  if target.wssConnID ≠ [] then (s.wssConnections.lookup target.wssConnID).map .wss
  else some (.udp target.udpAddr)

/-- The end of `forwardPacket`: one write to the edge, or an error when its connection is
gone.
GOLINE: supernode/wire.go:63-82 -/
def sendTo (env : Env) (s : Supernode) (out : List Sent) (packet : Bytes) (target : Edge) :
    List Sent × Except Err Unit :=
  match s.route target with
  | none =>
    (out ++ [⟨some target, none, packet, false⟩], .error (.wssConnectionNotFound target.wssConnID))
  | some dest =>
    if env.writeOk out.length dest packet then
      (out ++ [⟨some target, some dest, packet, true⟩], .ok ())
    else (out ++ [⟨some target, some dest, packet, false⟩], .error .failedToSend)

/-- GOLINE: supernode/wire.go:55-82 -/
def forwardPacket (env : Env) (s : Supernode) (out : List Sent) (packet : Bytes) (target : Edge) :
    Go (List Sent × Except Err Unit) := do
  let version ← index packet 0
  let flagged ←
    if version = versionV then flagPacketFromSupernode packet else .ok (.ok packet)
  match flagged with
  | .error e => .ok (out, .error (.protocol e))
  | .ok packet => .ok (sendTo env s out packet target)

/-- The loop of `broadcast`, with the numbers of packets sent and dropped.
GOLINE: supernode/wire.go:88-101 -/
def broadcastLoop (env : Env) (s : Supernode) (packet senderID : Bytes) :
    List Edge → List Sent → ℕ → ℕ → Go (List Sent × ℕ × ℕ)
  | [], out, sentCount, dropped => .ok (out, sentCount, dropped)
  | target :: targets, out, sentCount, dropped =>
    if target.macAddr = senderID then broadcastLoop env s packet senderID targets out sentCount dropped
    else do
      let (out, err) ← forwardPacket env s out packet target
      match err with
      | .error _ => broadcastLoop env s packet senderID targets out sentCount (dropped + 1)
      | .ok _ => broadcastLoop env s packet senderID targets out (sentCount + 1) dropped

/-- GOLINE: supernode/wire.go:85-106 -/
def broadcast (env : Env) (s : Supernode) (out : List Sent) (packet : Bytes) (cm : CommunityRef)
    (senderID : Bytes) : Go (Supernode × List Sent) := do
  let (out, sentCount, dropped) ←
    broadcastLoop env s packet senderID (getAllEdges env s cm) out 0 0
  .ok (s.count (fun st => { st with
    packetsForwarded := st.packetsForwarded + sentCount
    packetsDropped := st.packetsDropped + dropped }), out)

/-- GOLINE: supernode/wire.go:13-31 -/
def forwardUnicast (env : Env) (s : Supernode) (r : RawMessage) :
    Go (Supernode × List Sent × Except Err Unit) :=
  match s.getCommunity r with
  | .error e => .ok (s, [], .error e)
  | .ok cm =>
    match s.getEdge cm r.destMACAddr with
    | none => .ok (s, [], .error (.unicastForwardFail r.edgeMACAddr))
    | some targetEdge => do
      let (out, err) ← forwardPacket env s [] r.rawPacket targetEdge
      match err with
      | .error _ =>
        .ok (s.count (fun st => { st with packetsDropped := st.packetsDropped + 1 }),
          out, .error (.failedToForward targetEdge.macAddr))
      | .ok _ =>
        .ok (s.count (fun st => { st with packetsForwarded := st.packetsForwarded + 1 }),
          out, .ok ())

/-- GOLINE: supernode/wire.go:33-52 -/
def forwardWithFallBack (env : Env) (s : Supernode) (r : RawMessage) :
    Go (Supernode × List Sent × Except Err Unit) :=
  match s.getCommunity r with
  | .error e => .ok (s, [], .error e)
  | .ok cm =>
    match s.getEdge cm r.destMACAddr with
    | none => do
      let (s, out) ← broadcast env s [] r.rawPacket cm r.edgeMACAddr
      .ok (s, out, .ok ())
    | some targetEdge => do
      let (out, err) ← forwardPacket env s [] r.rawPacket targetEdge
      match err with
      | .ok _ =>
        .ok (s.count (fun st => { st with packetsForwarded := st.packetsForwarded + 1 }),
          out, .ok ())
      | .error _ =>
        let s := s.count fun st => { st with packetsDropped := st.packetsDropped + 1 }
        let (s, out) ← broadcast env s out r.rawPacket cm r.edgeMACAddr
        .ok (s, out, .ok ())

/-! ## The supernode's own packets -/

/-- The destination is always nil in the calls the supernode makes.
GOLINE: supernode/wire.go:147-162 -/
def snHeader (env : Env) (pt : PacketType) (community : Bytes) : ProtoVHeader :=
  { version := versionV
    ttl := 64
    packetType := pt
    flags := flagFromSuperNode
    sequence := 0
    communityID := hashCommunity community
    sourceID := supernodeMACAddr
    destID := MacID.zero
    timestamp := env.unix
    checksum := 0 }

/-- The registered edge that is reached over the live connection named by `addr`. All
candidates hold the same connection ID.
GOLINE: supernode/wire.go:114-126, 176-186 -/
def findWSSEdge (env : Env) (s : Supernode) (addr : NetAddr) : Option Edge :=
  ((env.order.visit s.edgesByMAC.values).map s.edges.cell).find? fun edge =>
    edge.wssConnID ≠ [] ∧ (s.wssConnections.lookup edge.wssConnID).isSome ∧
      edge.wssConnID = addr.string

/-- A write to a bare UDP address.
GOLINE: supernode/wire.go:136-139, 211-215 -/
def writeToUDP (env : Env) (out : List Sent) (packet : Bytes) (addr : Net.UDPAddr) :
    List Sent × Except Err Unit :=
  let ok := env.writeOk out.length (.udp addr) packet
  (out ++ [⟨none, some (.udp addr), packet, ok⟩], if ok then .ok () else .error .failedToSend)

/-- GOLINE: supernode/wire.go:108-145 -/
def writePacket (env : Env) (s : Supernode) (out : List Sent) (pt : PacketType)
    (community payload : Bytes) (addr : NetAddr) : Go (List Sent × Except Err Unit) :=
  let packet := packProtoVDatagram (snHeader env pt community) payload
  match s.findWSSEdge env addr with
  | some targetEdge => forwardPacket env s out packet targetEdge
  | none =>
    match addr with
    | .udp udpAddr => .ok (writeToUDP env out packet udpAddr)
    | .wss _ => .ok (out, .error .nonUDPAddress)

/-- GOLINE: supernode/wire.go:168-222 -/
def sendStruct {T : Type} [PacketTyped T] (codec : Codec T) (env : Env) (s : Supernode)
    (out : List Sent) (p : T) (community : Bytes) (addr : NetAddr) :
    Go (List Sent × Except Err Unit) :=
  match codec.encode p with
  | none => .ok (out, .error (.protocol .encoding))
  | some payload =>
    let packet := packProtoVDatagram (snHeader env (PacketTyped.packetType T) community) payload
    match s.findWSSEdge env addr with
    | some targetEdge => forwardPacket env s out packet targetEdge
    | none =>
      match addr with
      | .udp udpAddr => .ok (writeToUDP env out packet udpAddr)
      | .wss connID =>
        match s.wssConnections.lookup connID with
        | none => .ok (out, .error .nonUDPAddress)
        | some conn =>
          let ok := env.writeOk out.length (.wss conn) packet
          .ok (out ++ [⟨none, some (.wss conn), packet, ok⟩],
            if ok then .ok () else .error .failedToSend)

/-- GOLINE: supernode/wire.go:224-237 -/
def broadcastStruct {T : Type} [PacketTyped T] (codec : Codec T) (env : Env) (s : Supernode)
    (out : List Sent) (p : T) (cm : CommunityRef) (senderMac : Bytes) :
    Go (Supernode × List Sent × Except Err Unit) :=
  match codec.encode p with
  | none => .ok (s, out, .error (.protocol .encoding))
  | some payload => do
    let packet :=
      packProtoVDatagram (snHeader env (PacketTyped.packetType T) (s.cms.cell cm).name) payload
    let (s, out) ← broadcast env s out packet cm senderMac
    .ok (s, out, .ok ())

end N2nGo.Supernode
