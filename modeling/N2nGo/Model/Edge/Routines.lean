import N2nGo.Model.Edge.Handlers
import N2nGo.Model.Tuntap

/-!
# The two loops of the data path

One round of the loop that reads datagrams and one round of the loop that reads frames.
Both read into a buffer that is reused, so a round sees the bytes just read followed by
whatever earlier rounds left. Errors end up in the log; that a closed socket or device
ends the loop is left out.
-/

set_option autoImplicit false

namespace N2nGo.EdgeClient

open N2nGo.Lib N2nGo.Protocol

/-- GOLINE: buffers/pool.go:10 -/
def defaultBufferSize : ℕ := 65507

/-- GOLINE: edge/globals.go:6 -/
def disablePeerSocketCheckingInVFuze : Bool := true

/-- GOLINE: edge/client.go:337-343 -/
def isKnownPeerSocket (e : EdgeClient) (addr : Option Net.UDPAddr) : Bool :=
  match addr with
  | none => false
  | some addr => (e.peers.peerBySocket.lookup addr.string).isSome

/-- Both addresses are followed without a test.
GOLINE: edge/client.go:345-347 -/
def isSupernodeUDPAddr (e : EdgeClient) (addr : Option Net.UDPAddr) : Go Bool := do
  let addr ← deref addr
  let sn ← deref e.supernodeAddr
  .ok (Net.ipEqual addr.ip sn.ip && addr.port == sn.port)

/-- GOLINE: edge/handlers.go:85-93 -/
def isTrustedSocket (e : EdgeClient) (addr : Option Net.UDPAddr) : Go Bool :=
  if disablePeerSocketCheckingInVFuze then .ok true
  else do
    let fromSupernode ← e.isSupernodeUDPAddr addr
    .ok (fromSupernode || e.isKnownPeerSocket addr)

/-- The whole buffer is searched for the destination, and cut to `n` bytes only at the end.
GOLINE: edge/handlers.go:68-96 -/
def handleVFuzePacket (env : Env) (e : EdgeClient) (packetBuf : Bytes) (n : ℕ)
    (addr : Option Net.UDPAddr) : Go Reply :=
  if ¬ e.enableVFuze then .ok (e, [], .ok ())
  else do
    match ← vFuzePacketDestMACAddr packetBuf with
    | .error _ => .ok (e, [], .ok ())
    | .ok dst =>
      if Net.hardwareAddrString e.macAddr.bytes ≠ Net.hardwareAddrString dst then .ok (e, [], .ok ())
      else if ← e.isTrustedSocket addr then
        let payload ← slice packetBuf protoVFuzeSize n
        .ok (e.handleDataPayload env payload)
      else .ok (e, [], .ok ())

/-- `addr.(*net.UDPAddr)`. -/
def udpAddr? : NetAddr → Option Net.UDPAddr
  | .udp addr => some addr
  | .wss _ => none

/-- A packet is parsed and its message handled.
GOLINE: edge/routines.go:267-279, 374-388 -/
def handlePacket (P : Platform) (env : Env) (e : EdgeClient) (packet : Bytes) (addr : NetAddr) :
    Go (EdgeClient × List Output) := do
  match ← newRawMessage packet addr with
  | .error _ => .ok (e, [])
  | .ok rawMsg =>
    let (e, out, _) ← e.handle P env rawMsg
    .ok (e, out)

/-- What happens once `n` bytes have been read into the buffer. The loop for WebSockets has
the same body; there `addr` is no UDP address.
GOLINE: edge/routines.go:249-280, 356-389 -/
def receive (P : Platform) (env : Env) (e : EdgeClient) (packetBuf : Bytes) (n : ℕ)
    (addr : NetAddr) : Go (EdgeClient × List Output) := do
  let e := { e with packetsRecv := e.packetsRecv + 1 }
  let version ← index packetBuf 0
  if version = versionVFuze then
    let (e, out, _) ← e.handleVFuzePacket env packetBuf n (udpAddr? addr)
    .ok (e, out)
  else if n < protoVHeaderSize then .ok (e, [])
  else
    let packet ← slice packetBuf 0 n
    e.handlePacket P env packet addr

/-- What happens once a frame of `n` bytes has been read into the buffer. The Ethertype is
read from the whole buffer. What is logged about ARP frames is left out: it only reads
the addresses the frame begins with.
GOLINE: edge/routines.go:144-213 -/
def handleTAP (P : Platform) (env : Env) (e : EdgeClient) (frameBuf : Bytes) (n : ℕ) :
    Go (EdgeClient × List Output) :=
  if n < 14 then .ok (e, [])
  else do
    match ← Tuntap.getEthertype frameBuf with
    | .error _ => .ok (e, [])
    | .ok ethertype =>
      if ethertype = Tuntap.ethertypeIPv6 then .ok (e, [])
      else do
        let frame ← slice frameBuf 0 n
        match e.processOutgoingPayload env frame with
        | .error _ => .ok (e, [])
        | .ok payload =>
          let destMAC ← Tuntap.fastDestination frameBuf
          if Tuntap.isBroadcast destMAC then
            let (e, out, _) ← e.writePacket P env [] typeData (some destMAC) payload .enforceSupernode
            .ok (e, out)
          else if e.enableVFuze then
            let (e, out, _) ← e.sendVFuze P env [] destMAC payload .bestEffort
            .ok (e, out)
          else
            let (e, out, _) ← e.writePacket P env [] typeData (some destMAC) payload .bestEffort
            .ok (e, out)

/-! ## A running edge -/

/-- The buffer after a read: the bytes read, then what was there before. -/
def filled (d stale : Bytes) : Bytes := d ++ stale.drop d.length

/-- An edge with the buffers its two loops read into.
GOLINE: edge/routines.go:128-134, 226-228 -/
structure Running where
  edge : EdgeClient
  packetBuf : Bytes
  frameBuf : Bytes

/-- What a running edge meets: datagrams, frames, and `Run` starting the web API after the
loops.
GOLINE: edge/client.go:257-286 -/
inductive Event where
  | datagram (env : Env) (d : Bytes) (addr : NetAddr)
  | frame (env : Env) (f : Bytes)
  | apiStarted

/-- A read takes no more than the buffer holds.
GOLINE: edge/client.go:266-283, edge/routines.go:136-280 -/
def Running.step (P : Platform) (s : Running) : Event → Go (Running × List Output)
  | .datagram env d addr => do
    let d := d.take s.packetBuf.length
    let packetBuf := filled d s.packetBuf
    let (edge, out) ← s.edge.receive P env packetBuf d.length addr
    .ok ({ s with edge, packetBuf }, out)
  | .frame env f => do
    let f := f.take s.frameBuf.length
    let frameBuf := filled f s.frameBuf
    let (edge, out) ← s.edge.handleTAP P env frameBuf f.length
    .ok ({ s with edge, frameBuf }, out)
  | .apiStarted => .ok ({ s with edge := { s.edge with eapi := some ⟨false, none⟩ } }, [])

end N2nGo.EdgeClient
