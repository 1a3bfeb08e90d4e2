import N2nGo.Model.Edge.State

/-!
# Sending packets from an edge

A packet goes to the supernode or straight to a peer; over a WebSocket it always goes to
the supernode. Every function takes the writes made so far in the call (`out`) and
returns them with its own appended. Cutting a destination to six bytes is checked: an
address that is too short panics.
-/

set_option autoImplicit false

namespace N2nGo.EdgeClient

open N2nGo.Lib N2nGo.Protocol N2nGo.Messages

/-- What a sending function returns: the edge, the writes so far, and its error. -/
abbrev Reply := EdgeClient × List Output × Except Err Unit

/-- Where a packet for `dst` goes. A peer's socket that does not parse is a nil address.
GOLINE: edge/wire.go:14-47 -/
def udpAddrWithStrategy (P : Platform) (e : EdgeClient) (dst : Option Bytes)
    (strategy : UDPWriteStrategy) : Except Err (Option Net.UDPAddr) :=
  if e.wssTransport then .ok e.supernodeAddr
  else match strategy with
    | .enforceSupernode => .ok e.supernodeAddr
    | .bestEffort | .enforceP2P =>
      match dst with
      | none =>
        if strategy = .enforceP2P then .error .enforceP2PNilDest else .ok e.supernodeAddr
      | some dst =>
        match e.peers.getPeer (Net.hardwareAddrString dst) with
        | .error err =>
          if strategy = .enforceP2P then .error (.enforceP2PPeerNotFound err)
          else .ok e.supernodeAddr
        | .ok p =>
          if (e.peers.records.cell p).p2pStatus ≠ .available ∧ strategy = .bestEffort then
            .ok e.supernodeAddr
          else .ok ((e.peers.records.cell p).udpAddr P.services)

/-- `copy(id[:], mac[:6])`. -/
def macID (mac : Bytes) : Go MacID :=
  if h : 6 ≤ mac.length then .ok ⟨mac.take 6, by simp [h]⟩ else .error .indexOutOfRange

/-- The destination in a header, zero where there is none.
GOLINE: edge/wire.go:61-63 -/
def destID (dst : Option Bytes) : Go MacID :=
  match dst with
  | some dst => macID dst
  | none => .ok MacID.zero

/-- The header of the edge's next packet.
GOLINE: edge/wire.go:49-65 -/
def edgeHeader (env : Env) (e : EdgeClient) (pt : PacketType) (dst : Option Bytes) :
    Go (EdgeClient × ProtoVHeader) := do
  let id ← destID dst
  .ok ({ e with seq := e.seq + 1 },
    { version := versionV
      ttl := 64
      packetType := pt
      flags := 0
      sequence := ((e.seq + 1) &&& 0xFFFF).toUInt16
      communityID := hashCommunity e.community
      sourceID := e.macAddr
      destID := id
      timestamp := env.unix
      checksum := 0 })

/-- A write; nothing can be written to a nil address. -/
def write (env : Env) (out : List Output) (dest : Dest) (data : Bytes) : Output :=
  ⟨dest, data, dest ≠ .udp none ∧ env.writeOk out.length dest data⟩

/-- The end of the sending functions: the packet goes out over whichever transport there
is.
GOLINE: edge/wire.go:77-95, 112-130, 146-163 -/
def transmit (env : Env) (e : EdgeClient) (out : List Output) (packet : Bytes)
    (udpSocket : Option Net.UDPAddr) : List Output × Except Err Unit :=
  if e.wssTransport then
    let w := write env out .wss packet
    (out ++ [w], if w.ok then .ok () else .error .failedToSendWSS)
  else if ¬ e.conn then (out, .error .noTransport)
  else
    let w := write env out (.udp udpSocket) packet
    (out ++ [w], if w.ok then .ok () else .error .failedToSendUDP)

/-- GOLINE: edge/wire.go:67-96 -/
def writePacket (P : Platform) (env : Env) (e : EdgeClient) (out : List Output) (pt : PacketType)
    (dst : Option Bytes) (payload : Bytes) (strategy : UDPWriteStrategy) : Go Reply :=
  match e.udpAddrWithStrategy P dst strategy with
  | .error err => .ok (e, out, .error err)
  | .ok udpSocket => do
    let (e, header) ← e.edgeHeader env pt dst
    let e := { e with packetsSent := e.packetsSent + 1 }
    .ok (e, e.transmit env out (packProtoVDatagram header payload) udpSocket)

/-- GOLINE: edge/wire.go:98-131 -/
def sendStruct {T : Type} [PacketTyped T] (codec : Codec T) (P : Platform) (env : Env)
    (e : EdgeClient) (out : List Output) (s : T) (dst : Option Bytes)
    (strategy : UDPWriteStrategy) : Go Reply :=
  match e.udpAddrWithStrategy P dst strategy with
  | .error err => .ok (e, out, .error err)
  | .ok udpSocket => do
    let (e, header) ← e.edgeHeader env (PacketTyped.packetType T) dst
    match codec.encode s with
    | none => .ok (e, out, .error (.protocol .encoding))
    | some payload => .ok (e, e.transmit env out (packProtoVDatagram header payload) udpSocket)

/-- The length of the frame that the source also passes is not used.
GOLINE: edge/wire.go:133-164 -/
def sendVFuze (P : Platform) (env : Env) (e : EdgeClient) (out : List Output) (dst payload : Bytes)
    (strategy : UDPWriteStrategy) : Go Reply :=
  match e.udpAddrWithStrategy P (some dst) strategy with
  | .error err => .ok (e, out, .error err)
  | .ok udpSocket => do
    let vfuzh ← vFuzeHeaderBytes dst
    let e := { e with packetsSent := e.packetsSent + 1 }
    .ok (e, e.transmit env out (vfuzh ++ payload) udpSocket)

/-! ## Requests to the supernode -/

/-- GOLINE: edge/requests.go:38-47 -/
def sendPeerListRequest (P : Platform) (env : Env) (e : EdgeClient) (out : List Output) : Go Reply :=
  e.sendStruct P.codecs.peerListRequest P env out (⟨e.community⟩ : PeerListRequest) none
    .enforceSupernode

/-- GOLINE: edge/setup.go:320-328 -/
def requestSNPublicKey (P : Platform) (env : Env) (e : EdgeClient) (out : List Output) : Go Reply :=
  e.sendStruct P.codecs.snPublicSecret P env out (⟨true, []⟩ : SnPublicSecret) none .enforceSupernode

/-- A nil key is dereferenced.
GOLINE: edge/client.go:354-360 -/
def encryptedMachineID (P : Platform) (e : EdgeClient) : Go (Except Err Bytes) := do
  let key ← deref e.snPubKey
  match P.encryptOAEP key e.machineId with
  | none => .ok (.error .encryptFailed)
  | some encMachineID => .ok (.ok encMachineID)

/-- GOLINE: edge/setup.go:330-346 -/
def requestRegister (P : Platform) (env : Env) (e : EdgeClient) (out : List Output) : Go Reply := do
  match ← e.encryptedMachineID P with
  | .error err => .ok (e, out, .error err)
  | .ok encMachineID =>
    e.sendStruct P.codecs.registerRequest P env out
      (⟨Net.hardwareAddrString e.macAddr.bytes, e.id, e.community, encMachineID, []⟩ :
        RegisterRequest) none .enforceSupernode

end N2nGo.EdgeClient
