import N2nGo.Model.Supernode.Wire
import N2nGo.Model.Machine

/-!
# Communities and membership

Registration, refresh and removal of edges. A critical section of the source is one
definition here: `registerCommunityRead` and `registerCommunityCreate` are the two
halves of `RegisterCommunity`, `edgeUpdate` and `indexEdge` the two tables a
registration writes, `unregister` and `onEdgeUnregistered` the two a removal writes.
The handlers run them one after the other; the interleavings run them one at a time.
-/

set_option autoImplicit false

namespace N2nGo.Supernode

open N2nGo.Lib N2nGo.Protocol N2nGo.Messages

/-! ## Virtual networks -/

/-- The number of leading one bits of a 32-bit mask; 0 when the mask is not canonical.
This is the first result of `IPMask.Size`. -/
def maskSize (mask : UInt32) : ℕ :=
  ((List.range 33).find? fun ones => mask.toNat == 2 ^ 32 - 2 ^ (32 - ones)).getD 0

/-- `netip.Addr.Prefix` over IPv4 keeps the top bits. -/
def addrPrefix (addr : UInt32) (bits : ℕ) : Option Prefix :=
  if bits ≤ 32 then
    some ⟨UInt32.ofNat (addr.toNat / 2 ^ (32 - bits) * 2 ^ (32 - bits)), bits⟩
  else none

/-- GOLINE: supernode/network.go:25-46 -/
def proposeVirtualNetwork (P : Platform) (m : NetworkAllocator) (community : Bytes) :
    Go (Option Prefix) := do
  let h ← slice (P.sha256 community) 0 4
  let hash ← readUint32 h
  let offset := hash &&& 0x00FFFFFF
  let base ← readUint32 m.baseNetwork
  let maskUint ← readUint32 m.mask
  let hostPart := offset &&& ~~~maskUint
  let vipUint := (base &&& maskUint) ||| hostPart
  .ok (addrPrefix vipUint (maskSize maskUint))

/-! ## Communities -/

/-- The pool registered for the CIDR, or a new one.
GOLINE: supernode/community.go:77-86 -/
def poolFor (P : Platform) (s : Supernode) (cidr : Bytes) : Option (Supernode × ℕ) :=
  match s.registeredPools.lookup cidr with
  | some ips => some (s, ips)
  | none => (P.newIPPool cidr).map fun pool =>
      ({ s with
          pools := s.pools.alloc pool
          registeredPools := s.registeredPools.insert cidr s.pools.next }, s.pools.next)

/-- GOLINE: supernode/community.go:76-109 -/
def newCommunityWithConfig (P : Platform) (s : Supernode) (name : Bytes) (subnet : Prefix) :
    Supernode × Except Err Community :=
  match poolFor P s subnet.cidr with
  | none => (s, .error (.newIPPoolFailed subnet.cidr))
  | some (s, ips) =>
    (s, .ok
      { name := name
        subnet := subnet
        maskLen := subnet.bits
        ips := ips
        communityPeerP2PInfos := ∅
        edges := ∅ })

/-- The answer of `RegisterCommunity` when it has found a community.
GOLINE: supernode/registration.go:22-27, 32-37 -/
def existingCommunity (s : Supernode) (communityName : Bytes) (communityHash : UInt32)
    (cm : CommunityRef) : Except Err CommunityRef :=
  if (s.cms.cell cm).name = communityName then .ok cm
  else .error (.differentNameExists communityHash communityName)

/-- The hash test and the read-locked lookup of `RegisterCommunity`.
GOLINE: supernode/registration.go:15-21 -/
def registerCommunityRead (s : Supernode) (communityName : Bytes) (communityHash : UInt32) :
    Except Err (Option CommunityRef) :=
  if communityHash ≠ hashCommunity communityName then
    .error (.wrongHash communityHash communityName (hashCommunity communityName))
  else .ok (s.communities.lookup communityHash)

/-- The write-locked half of `RegisterCommunity`. `found` is what the read-locked half
saw: the source tests those variables again and does not look the hash up again.
GOLINE: supernode/registration.go:28-51 -/
def registerCommunityCreate (P : Platform) (s : Supernode) (communityName : Bytes)
    (communityHash : UInt32) (found : Option CommunityRef) :
    Go (Supernode × Except Err CommunityRef) :=
  match found with
  | some cm => .ok (s, s.existingCommunity communityName communityHash cm)
  | none => do
    match ← proposeVirtualNetwork P s.netAllocator communityName with
    | none => .ok (s, .error (.failedToAllocateNetwork communityName))
    | some subnet =>
      match newCommunityWithConfig P s communityName subnet with
      | (s, .error e) => .ok (s, .error e)
      | (s, .ok c) =>
        .ok ({ s with
            cms := s.cms.alloc c
            communities := s.communities.insert communityHash s.cms.next }, .ok s.cms.next)

/-- GOLINE: supernode/registration.go:14-52 -/
def registerCommunity (P : Platform) (s : Supernode) (communityName : Bytes)
    (communityHash : UInt32) : Go (Supernode × Except Err CommunityRef) :=
  match s.registerCommunityRead communityName communityHash with
  | .error e => .ok (s, .error e)
  | .ok (some cm) => .ok (s, s.existingCommunity communityName communityHash cm)
  | .ok none => registerCommunityCreate P s communityName communityHash none

/-! ## Members -/

/-- GOLINE: supernode/community.go:21-33 -/
def addrToIP : NetAddr → Option Bytes
  | .udp a => some a.ip
  | .wss _ => none

/-- GOLINE: supernode/community.go:35-47 -/
def addrToPort : NetAddr → Option ℕ
  | .udp a => some a.port
  | .wss _ => none

/-- GOLINE: supernode/registration.go:145-156 -/
def setEdgeCachedInfo (env : Env) (s : Supernode) (macAddr desc community : Bytes)
    (isRegistered : Bool) (vip : Net.Addr) : Supernode :=
  { s with edgeCachedInfos :=
      s.edgeCachedInfos.insert macAddr ⟨macAddr, desc, community, isRegistered, env.now, vip⟩ }

/-- The record of an edge that registers for the first time.
GOLINE: supernode/community.go:282-300 -/
def newEdge (env : Env) (c : Community) (regMsg : Message RegisterRequest) (vip : Net.Addr) : Edge :=
  { desc := regMsg.msg.edgeDesc
    publicIP := (addrToIP regMsg.fromAddr).getD []
    publicPort := (addrToPort regMsg.fromAddr).getD 0
    community := c.name
    virtualIP := vip
    vNetMaskLen := c.maskLen
    lastHeartbeat := env.now
    lastSequence := regMsg.header.sequence
    macAddr := regMsg.edgeMACAddr
    machineID := regMsg.msg.clearMachineId
    wssConnID := [] }

/-- What a repeated registration changes in the record. A WebSocket address changes
neither the IP nor the port.
GOLINE: supernode/community.go:315-321 -/
def reRegistered (env : Env) (edge : Edge) (regMsg : Message RegisterRequest) : Edge :=
  { edge with
    publicIP := (addrToIP regMsg.fromAddr).getD edge.publicIP
    publicPort := (addrToPort regMsg.fromAddr).getD edge.publicPort
    lastHeartbeat := env.now
    lastSequence := regMsg.header.sequence }

/-- GOLINE: supernode/community.go:258-326 -/
def edgeUpdate (P : Platform) (env : Env) (s : Supernode) (cm : CommunityRef)
    (regMsg : Message RegisterRequest) : Supernode × Except Err EdgeRef :=
  let c := s.cms.cell cm
  match c.edges.lookup regMsg.edgeMACAddr with
  | none =>
    let request := P.requestIP (s.pools.cell c.ips) regMsg.edgeMACAddr true env.now
    let s := { s with pools := s.pools.store c.ips request.2 }
    match request.1 with
    | none => (s, .error .ipAllocationFailed)
    | some nvip =>
      match Net.parseAddr (Net.ipString nvip) with
      | none => (s, .error (.virtualIPUnparsable nvip))
      | some vip =>
        let edge := newEdge env c regMsg vip
        let s' := { s with
          edges := s.edges.alloc edge
          cms := s.cms.store cm { c with edges := c.edges.insert regMsg.edgeMACAddr s.edges.next } }
        (setEdgeCachedInfo env s' regMsg.edgeMACAddr edge.desc c.name true vip, .ok s.edges.next)
  | some ref =>
    if c.name ≠ (s.edges.cell ref).community then
      (s, .error (.communityMismatch (s.edges.cell ref).macAddr))
    else
      ({ s with edges := s.edges.store ref (reRegistered env (s.edges.cell ref) regMsg) }, .ok ref)

/-- What a heartbeat changes in the record. A WebSocket address is parsed as an IP, and its
port is 0.
GOLINE: supernode/community.go:236-247 -/
def refreshed (env : Env) (edge : Edge) (hbMsg : Message HeartbeatPulse) : Edge :=
  { edge with
    publicIP := (addrToIP hbMsg.fromAddr).getD (Net.parseIP hbMsg.fromAddr.string)
    publicPort := (addrToPort hbMsg.fromAddr).getD 0
    lastHeartbeat := env.now
    lastSequence := hbMsg.header.sequence }

/-- Whether a heartbeat changed the address of the record.
GOLINE: supernode/community.go:249-254 -/
def addressChanged (edge : Edge) (hbMsg : Message HeartbeatPulse) : Bool :=
  let newPort := (addrToPort hbMsg.fromAddr).getD 0
  let newIP := (addrToIP hbMsg.fromAddr).getD []
  let newIP := if newIP = [] then Net.parseIP hbMsg.fromAddr.string else newIP
  edge.publicPort != newPort || !Net.ipEqual edge.publicIP newIP

/-- GOLINE: supernode/community.go:224-255 -/
def refreshEdge (env : Env) (s : Supernode) (cm : CommunityRef) (hbMsg : Message HeartbeatPulse) :
    Supernode × Except Err Bool :=
  match (s.cms.cell cm).edges.lookup hbMsg.edgeMACAddr with
  | none => (s, .error (.unknownEdge (s.cms.cell cm).name hbMsg.edgeMACAddr))
  | some ref =>
    let edge := s.edges.cell ref
    if hbMsg.msg.clearMachineId ≠ edge.machineID then
      (s, .error (.wrongMachineID (s.cms.cell cm).name hbMsg.edgeMACAddr))
    else
      ({ s with edges := s.edges.store ref (refreshed env edge hbMsg) },
        .ok (addressChanged edge hbMsg))

/-- GOLINE: supernode/community.go:203-222 -/
def unregister (env : Env) (s : Supernode) (cm : CommunityRef) (edgeMACAddr : Bytes) :
    Supernode × Bool :=
  let c := s.cms.cell cm
  match c.edges.lookup edgeMACAddr with
  | none => (s, false)
  | some ref =>
    let edge := s.edges.cell ref
    let s := setEdgeCachedInfo env s edgeMACAddr edge.desc c.name false edge.virtualIP
    ({ s with cms := s.cms.store cm { c with
        edges := c.edges.erase edgeMACAddr
        communityPeerP2PInfos := c.communityPeerP2PInfos.erase edgeMACAddr } }, true)

/-- GOLINE: supernode/registration.go:187-195 -/
def newPeerInfoEvent (eventType : UInt8) (edge : Edge) : PeerInfoList :=
  { hasOrigin := false, origin := none, peerInfos := [edge.peerInfo], eventType := eventType.toUInt32 }

/-- The locked part of `onEdgeUnregistered`: the record indexed under the MAC is followed
without a test for nil.
GOLINE: supernode/registration.go:134-139 -/
def unindexEdge (s : Supernode) (edgeMACAddr : Bytes) : Go (Supernode × PeerInfoList) := do
  let ref ← deref (s.edgesByMAC.lookup edgeMACAddr)
  let edge := s.edges.cell ref
  .ok ({ s with
      edgesBySocket := s.edgesBySocket.erase edge.udpAddr.string
      edgesByMAC := s.edgesByMAC.erase edgeMACAddr }, newPeerInfoEvent typeUnregister edge)

/-- GOLINE: supernode/registration.go:133-143 -/
def onEdgeUnregistered (P : Platform) (env : Env) (s : Supernode) (out : List Sent)
    (cm : CommunityRef) (edgeMACAddr : Bytes) : Go (Supernode × List Sent) := do
  let (s, pil) ← s.unindexEdge edgeMACAddr
  let s := s.count fun st => { st with edgesUnregistered := st.edgesUnregistered + 1 }
  let (s, out, _) ← broadcastStruct P.codecs.peerInfoList env s out pil cm edgeMACAddr
  .ok (s, out)

/-! ## Whole operations -/

/-- GOLINE: supernode/crypto.go:16-22 -/
def decryptMachineID (P : Platform) (encMachineID : Bytes) : Except Err Bytes :=
  match P.decryptOAEP encMachineID with
  | some machineID => .ok machineID
  | none => .error .failedToDecrypt

/-- GOLINE: supernode/registration.go:115-131 -/
def validateEdgeClaimedMACAddr (P : Platform) (claimedMAC encryptedID communityName : Bytes) :
    Except Err Bytes :=
  match decryptMachineID P encryptedID with
  | .error e => .error e
  | .ok machineID =>
    let computed :=
      Net.hardwareAddrString (Machine.extGenerateMacFor communityName machineID).bytes
    if computed ≠ claimedMAC then .error (.macMismatch computed claimedMAC) else .ok machineID

/-- GOLINE: supernode/registration.go:76-98 -/
def registerEdge (P : Platform) (env : Env) (s : Supernode) (regMsg : Message RegisterRequest) :
    Go (Supernode × Except Err (EdgeRef × CommunityRef)) :=
  match validateEdgeClaimedMACAddr P regMsg.edgeMACAddr regMsg.msg.encryptedMachineId
      regMsg.msg.communityName with
  | .error e => .ok (s, .error e)
  | .ok machineID => do
    let regMsg := { regMsg with msg := { regMsg.msg with clearMachineId := machineID } }
    match ← registerCommunity P s regMsg.msg.communityName regMsg.communityHash with
    | (s, .error e) => .ok (s, .error e)
    | (s, .ok cm) =>
      match edgeUpdate P env s cm regMsg with
      | (s, .error e) => .ok (s, .error e)
      | (s, .ok edge) =>
        .ok (s.count (fun st => { st with edgesRegistered := st.edgesRegistered + 1 }),
          .ok (edge, cm))

/-- A registration over a WebSocket records the connection.
GOLINE: supernode/handlers.go:124-127 -/
def setWSSConnID (s : Supernode) (ref : EdgeRef) (fromAddr : NetAddr) : Supernode :=
  match fromAddr with
  | .wss connID => { s with edges := s.edges.store ref { s.edges.cell ref with wssConnID := connID } }
  | .udp _ => s

/-- The locked part of `handleRegisterMessage`.
GOLINE: supernode/handlers.go:129-136 -/
def indexEdge (s : Supernode) (ref : EdgeRef) : Supernode :=
  let edge := s.edges.cell ref
  let bySocket := s.edgesBySocket.insert edge.udpAddr.string ref
  { s with
    edgesByMAC := s.edgesByMAC.insert edge.macAddr ref
    edgesBySocket := if edge.wssConnID ≠ [] then bySocket.insert edge.wssConnID ref else bySocket }

/-- GOLINE: supernode/registration.go:101-113 -/
def unregisterEdge (P : Platform) (env : Env) (s : Supernode) (r : RawMessage) :
    Go (Supernode × List Sent × Except Err Unit) :=
  match s.getCommunity r with
  | .error e => .ok (s, [], .error e)
  | .ok cm =>
    match unregister env s cm r.edgeMACAddr with
    | (s, false) => .ok (s, [], .ok ())
    | (s, true) => do
      let (s, out) ← onEdgeUnregistered P env s [] cm r.edgeMACAddr
      .ok (s, out, .ok ())

end N2nGo.Supernode
