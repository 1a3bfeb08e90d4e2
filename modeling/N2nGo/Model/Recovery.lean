import N2nGo.Model.Edge.Ticks
import N2nGo.Model.Supernode.Handlers

/-!
# An edge and a supernode that may restart

An edge in UDP mode, the supernode, and the datagrams under way between them. The network
delivers datagrams in any order and may lose them; the supernode may restart with a new
key, and it serves other edges too. What the edge hears from its peers is arbitrary. A
datagram is handled as it arrives: the buffer it is read into, and the fast path, are left
out.
-/

set_option autoImplicit false

namespace N2nGo

open N2nGo.Lib N2nGo.Protocol

/-- The edge and the supernode, the addresses at which they see each other, and the
datagrams under way. -/
structure Recovery where
  edge : EdgeClient
  sn : Supernode
  edgeAddr : Net.UDPAddr
  snAddr : Net.UDPAddr
  toSN : List Bytes
  toEdge : List Bytes

namespace Recovery

/-- What of the edge's writes is now under way to the supernode. -/
def uplink (addr : Net.UDPAddr) (out : List EdgeClient.Output) : List Bytes :=
  (out.filter fun w => w.dest = .udp (some addr) && w.ok).map EdgeClient.Output.data

/-- What of the supernode's writes is now under way to the edge. -/
def downlink (addr : Net.UDPAddr) (out : List Supernode.Sent) : List Bytes :=
  (out.filter fun x => x.dest = some (.udp addr) && x.ok).map Supernode.Sent.packet

/-- The edge has done something. -/
def afterEdge (w : Recovery) (e : EdgeClient) (out : List EdgeClient.Output) :
    Recovery × List Bytes :=
  ({ w with edge := e, toSN := w.toSN ++ uplink w.snAddr out }, uplink w.snAddr out)

/-- The supernode has done something. -/
def afterSN (w : Recovery) (s : Supernode) (out : List Supernode.Sent) : Recovery × List Bytes :=
  ({ w with sn := s, toEdge := w.toEdge ++ downlink w.edgeAddr out }, downlink w.edgeAddr out)

/-- What can happen: the ticks of the edge and the frames it reads, a datagram that arrives,
a packet from elsewhere, the removal of stale edges, a loss, and a restart. -/
inductive Event where
  | heartbeat (env : EdgeClient.Env)
  | p2pInfos (env : EdgeClient.Env)
  | pings (env : EdgeClient.Env)
  | frame (env : EdgeClient.Env) (frameBuf : Bytes) (n : ℕ)
  | edgeReads (env : EdgeClient.Env) (i : ℕ)
  | edgeHears (env : EdgeClient.Env) (packet : Bytes) (addr : NetAddr)
  | snReads (env : Supernode.Env) (i : ℕ)
  | snHears (env : Supernode.Env) (packet : Bytes) (addr : Net.UDPAddr)
  | cleanup (env : Supernode.Env)
  | loseToSN (i : ℕ)
  | loseToEdge (i : ℕ)
  | restart (config : Supernode.Config) (netAllocator : NetworkAllocator) (pem : Bytes)
      (noCommunity : Community) (noEdge : Edge) (noPool : IPPool)

/-- One event; the second part of the result is what is newly under way.
GOLINE: edge/routines.go:57-125, 144-280, supernode/supernode.go:133-163,
supernode/cleanup.go:9-37 -/
def step (P : Supernode.Platform) (Q : EdgeClient.Platform) (w : Recovery) :
    Event → Go (Recovery × List Bytes)
  | .heartbeat env => do
    let (e, out, _) ← w.edge.sendHeartbeat Q env
    .ok (w.afterEdge e out)
  | .p2pInfos env => do
    let (e, out, _) ← w.edge.sendP2PInfos Q env
    .ok (w.afterEdge e out)
  | .pings env =>
    let (e, out) := w.edge.handleP2PUpdates Q env
    .ok (w.afterEdge e out)
  | .frame env frameBuf n => do
    let (e, out) ← w.edge.handleTAP Q env frameBuf n
    .ok (w.afterEdge e out)
  | .edgeReads env i =>
    match w.toEdge[i]? with
    | none => .ok (w, [])
    | some packet => do
      let (e, out) ← w.edge.handlePacket Q env packet (.udp w.snAddr)
      .ok ({ w with toEdge := w.toEdge.eraseIdx i }.afterEdge e out)
  | .edgeHears env packet addr => do
    let (e, out) ← w.edge.handlePacket Q env packet addr
    .ok (w.afterEdge e out)
  | .snReads env i =>
    match w.toSN[i]? with
    | none => .ok (w, [])
    | some packet => do
      let (s, out) ← w.sn.processPacket P env packet (.udp w.edgeAddr)
      .ok ({ w with toSN := w.toSN.eraseIdx i }.afterSN s out)
  | .snHears env packet addr => do
    let (s, out) ← w.sn.processPacket P env packet (.udp addr)
    .ok (w.afterSN s out)
  | .cleanup env => do
    let (s, out) ← w.sn.cleanupStaleEdges P env
    .ok (w.afterSN s out)
  | .loseToSN i => .ok ({ w with toSN := w.toSN.eraseIdx i }, [])
  | .loseToEdge i => .ok ({ w with toEdge := w.toEdge.eraseIdx i }, [])
  | .restart config netAllocator pem noCommunity noEdge noPool =>
    .ok ({ w with sn := .newSupernodeWithConfig config netAllocator pem noCommunity noEdge noPool }, [])

end Recovery

end N2nGo
