import N2nGo.Model.Edge.Ticks
import N2nGo.Model.Supernode.Connections

/-!
# The address of an edge

An edge learns its address from the answers to its registrations. `InitialRegister` reads the
first answer before the loops start; the loops handle the answers to the registrations that
a restarted supernode asks for. Here are an edge on either transport, the supernode with its
connections, and the packets under way between them. They arrive in any order and may be
lost, the edge may come to be reached in another way, and the supernode may restart. The
buffers that packets are read into, and the fast path, are left out.
-/

set_option autoImplicit false

namespace N2nGo

open N2nGo.Lib N2nGo.Protocol N2nGo.Messages

namespace EdgeClient

/-- Why `InitialRegister` fails. -/
inductive SetupErr where
  | request (e : Err)
  | ackTimeout
  | shortPacket
  | protocol (e : Protocol.Err)
  | nackRegister
  | invalidVirtualIP (virtualIP : Bytes)
  deriving DecidableEq

/-- `fmt.Sprintf("%s/%d", rresp.Msg.VirtualIp, rresp.Msg.Masklen)`.
GOLINE: edge/setup.go:292 -/
def assigned (rresp : RegisterResponse) : Bytes := rresp.virtualIp ++ 47 :: Net.itoa rresp.masklen

/-- GOLINE: edge/setup.go:293 -/
def parsedVirtualIP (virtualIP : Bytes) : Bytes := Net.parseIP (virtualIP.takeWhile (· != 47))

/-- What `InitialRegister` does with the packet it has read: the edge, its `VirtualIP` and the
error. An address that does not parse is kept all the same.
GOLINE: edge/setup.go:277-301, protocol/message.go:172-178 -/
def initialAnswer (P : Platform) (e : EdgeClient) (virtualIP packet : Bytes) (addr : NetAddr) :
    Go (EdgeClient × Bytes × Except SetupErr Unit) :=
  if packet.length < protoVHeaderSize then .ok (e, virtualIP, .error .shortPacket)
  else do
    match ← newRawMessage packet addr with
    | .error err => .ok (e, virtualIP, .error (.protocol err))
    | .ok r =>
      match toMessage P.codecs.registerResponse r with
      | .error err => .ok (e, virtualIP, .error (.protocol err))
      | .ok rresp =>
        if ¬ rresp.msg.isRegisterOk then .ok (e, virtualIP, .error .nackRegister)
        else
          let virtualIP := assigned rresp.msg
          if parsedVirtualIP virtualIP = [] then
            .ok (e, virtualIP, .error (.invalidVirtualIP virtualIP))
          else .ok ({ e with registered := true }, virtualIP, .ok ())

/-- Where an edge is in its life. -/
inductive Stage where
  /-- before `InitialRegister` -/
  | starting
  /-- `InitialRegister` has sent its request and reads -/
  | registering
  /-- the loops run -/
  | running
  | failed (err : SetupErr)
  deriving DecidableEq

/-- The positive answer in a packet, if it is one. -/
def positive (P : Platform) (packet : Bytes) (addr : NetAddr) : Option RegisterResponse :=
  match newRawMessage packet addr with
  | .ok (.ok r) =>
    match toMessage P.codecs.registerResponse r with
    | .ok rresp => if rresp.msg.isRegisterOk then some rresp.msg else none
    | .error _ => none
  | _ => none

end EdgeClient

/-- An edge with its `VirtualIP`, the supernode, how the supernode reaches the edge, and the
packets under way. `processed` is the last positive answer that the edge has processed; the
program does not keep it. -/
structure Assignment where
  edge : EdgeClient
  virtualIP : Bytes
  stage : EdgeClient.Stage
  hub : Supernode.Hub
  link : Supernode.Dest
  toSN : List Bytes
  toEdge : List Bytes
  processed : Option RegisterResponse

namespace Assignment

open EdgeClient (Stage)

/-- What of the edge's writes is now under way to the supernode. -/
def uplink (e : EdgeClient) (out : List EdgeClient.Output) : List Bytes :=
  (out.filter fun w => (w.dest = .wss || w.dest = .udp e.supernodeAddr) && w.ok).map
    EdgeClient.Output.data

/-- What of the supernode's writes is now under way to the edge. -/
def downlink (link : Supernode.Dest) (out : List Supernode.Sent) : List Bytes :=
  (out.filter fun x => x.dest = some link && x.ok).map Supernode.Sent.packet

/-- The edge has done something. -/
def afterEdge (c : Assignment) (e : EdgeClient) (out : List EdgeClient.Output) : Assignment :=
  { c with edge := e, toSN := c.toSN ++ uplink c.edge out }

/-- The supernode has done something. -/
def afterHub (c : Assignment) (h : Supernode.Hub) (out : List Supernode.Sent) : Assignment :=
  { c with hub := h, toEdge := c.toEdge ++ downlink c.link out }

/-- The edge reads a packet. Only `InitialRegister` changes `VirtualIP`.
GOLINE: edge/setup.go:254-301, edge/routines.go:267-279, 374-388, edge/handlers.go:46-65 -/
def read (Q : EdgeClient.Platform) (env : EdgeClient.Env) (c : Assignment) (packet : Bytes)
    (addr : NetAddr) : Go Assignment :=
  let processed := (EdgeClient.positive Q packet addr).or c.processed
  match c.stage with
  | .registering => do
    let (e, virtualIP, err) ← c.edge.initialAnswer Q c.virtualIP packet addr
    .ok { c with
      edge := e
      virtualIP := virtualIP
      stage := match err with
        | .ok _ => .running
        | .error err => .failed err
      processed := processed }
  | .running => do
    let (e, out) ← c.edge.handlePacket Q env packet addr
    .ok { c.afterEdge e out with processed := processed }
  | _ => .ok c

/-- A packet of the edge arrives at the supernode. -/
def arrival (env : Supernode.Env) (packet : Bytes) : Supernode.Dest → Supernode.Hub.Event
  | .udp addr => .datagram env packet addr
  | .wss conn => .received env conn packet

/-- What can happen. Anything may arrive from elsewhere, at the edge and at the supernode. -/
inductive Event where
  | initialRegister (env : EdgeClient.Env)
  | timeout
  | heartbeat (env : EdgeClient.Env)
  | p2pInfos (env : EdgeClient.Env)
  | pings (env : EdgeClient.Env)
  | frame (env : EdgeClient.Env) (frameBuf : Bytes) (n : ℕ)
  | reads (env : EdgeClient.Env) (i : ℕ) (addr : NetAddr)
  | hears (env : EdgeClient.Env) (packet : Bytes) (addr : NetAddr)
  | arrives (env : Supernode.Env) (i : ℕ)
  | elsewhere (ev : Supernode.Hub.Event)
  | loseToSN (i : ℕ)
  | loseToEdge (i : ℕ)
  /-- a NAT gives the edge another address -/
  | rebind (addr : Net.UDPAddr)
  /-- the WebSocket fails, and with it what is under way -/
  | disconnected
  | reconnected (env : EdgeClient.Env) (conn : ConnRef)
  /-- the supernode is started again; connections keep their numbers apart -/
  | restart (config : Supernode.Config) (netAllocator : NetworkAllocator) (pem : Bytes)
      (noCommunity : Community) (noEdge : Edge) (noPool : IPPool)

/-- One event.
GOLINE: edge/setup.go:254-301, edge/routines.go:57-125, 144-280, 282-389 -/
def step (P : Supernode.Platform) (Q : EdgeClient.Platform) (c : Assignment) :
    Event → Go (Assignment × Unit)
  | .initialRegister env =>
    if c.stage = .starting then do
      let (e, out, err) ← c.edge.requestRegister Q env []
      .ok ({ c.afterEdge e out with
        stage := match err with
          | .ok _ => .registering
          | .error err => .failed (.request err) }, ())
    else .ok (c, ())
  | .timeout => .ok (if c.stage = .registering then { c with stage := .failed .ackTimeout } else c, ())
  | .heartbeat env =>
    if c.stage = .running then do
      let (e, out, _) ← c.edge.sendHeartbeat Q env
      .ok (c.afterEdge e out, ())
    else .ok (c, ())
  | .p2pInfos env =>
    if c.stage = .running then do
      let (e, out, _) ← c.edge.sendP2PInfos Q env
      .ok (c.afterEdge e out, ())
    else .ok (c, ())
  | .pings env =>
    if c.stage = .running then
      let (e, out) := c.edge.handleP2PUpdates Q env
      .ok (c.afterEdge e out, ())
    else .ok (c, ())
  | .frame env frameBuf n =>
    if c.stage = .running then do
      let (e, out) ← c.edge.handleTAP Q env frameBuf n
      .ok (c.afterEdge e out, ())
    else .ok (c, ())
  | .reads env i addr =>
    match c.toEdge[i]? with
    | none => .ok (c, ())
    | some packet =>
      if c.stage = .registering ∨ c.stage = .running then do
        let c ← read Q env { c with toEdge := c.toEdge.eraseIdx i } packet addr
        .ok (c, ())
      else .ok (c, ())
  | .hears env packet addr => do
    let c ← read Q env c packet addr
    .ok (c, ())
  | .arrives env i =>
    match c.toSN[i]? with
    | none => .ok (c, ())
    | some packet => do
      let (h, out) ← c.hub.step P (arrival env packet c.link)
      .ok ({ c with toSN := c.toSN.eraseIdx i }.afterHub h out, ())
  | .elsewhere ev => do
    let (h, out) ← c.hub.step P ev
    .ok (c.afterHub h out, ())
  | .loseToSN i => .ok ({ c with toSN := c.toSN.eraseIdx i }, ())
  | .loseToEdge i => .ok ({ c with toEdge := c.toEdge.eraseIdx i }, ())
  | .rebind addr => .ok (if c.edge.wssTransport then c else { c with link := .udp addr }, ())
  | .disconnected =>
    .ok (if c.stage = .running ∧ c.edge.wssTransport then
      { c with edge := { c.edge with wssTransport := false }, toSN := [], toEdge := [] } else c, ())
  | .reconnected env conn =>
    if c.stage = .running ∧ ¬ c.edge.wssTransport ∧ ¬ c.edge.conn then do
      let e := { c.edge with
        wssTransport := true
        registered := false
        isWaitingForSNRetryRegisterResponse := true }
      let (e, out, _) ← e.requestSNPublicKey Q env []
      .ok ({ c with link := .wss conn }.afterEdge e out, ())
    else .ok (c, ())
  | .restart config netAllocator pem noCommunity noEdge noPool =>
    .ok ({ c with
      hub := { c.hub with
        sn := .newSupernodeWithConfig config netAllocator pem noCommunity noEdge noPool
        handlers := ∅ } }, ())

end Assignment

end N2nGo
