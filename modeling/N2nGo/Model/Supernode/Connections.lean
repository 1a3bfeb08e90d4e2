import N2nGo.Model.Supernode.Handlers

/-!
# WebSocket connections

The listeners of a supernode turn every accepted WebSocket into a `WSSTransport` and a
goroutine that reads from it. An edge record and the table `wssConnections` know a
connection by a name that is built from the remote address; the goroutine has the
transport itself. When the goroutine can no longer read it leaves its loop, and its
deferred function deletes the entry of that name, at some later time.

A `Hub` is the supernode together with those goroutines. Every accepted WebSocket gets a
new transport, so a number that is never used twice stands for its identity.
-/

set_option autoImplicit false

namespace N2nGo.Supernode

open N2nGo.Lib N2nGo.Protocol N2nGo.Messages

/-- A goroutine in `handleWSSConnection`. It is `reading` until a read fails; then only its
deferred function is left to run. -/
structure Handler where
  connID : Bytes
  reading : Bool
  deriving DecidableEq

/-- The supernode and the goroutines that serve its connections. -/
structure Hub where
  sn : Supernode
  handlers : Table ConnRef Handler
  nextConn : ConnRef

/-- GOLINE: supernode/supernode.go:292, 328 -/
def connName (tls : Bool) (remoteAddr : Bytes) : Bytes :=
  (if tls then ascii "wss-" else ascii "ws-") ++ remoteAddr

namespace Hub

inductive Event where
  /-- a WebSocket is accepted, by the listener for TLS or by the other one -/
  | accept (tls : Bool) (remoteAddr : Bytes)
  /-- reading from the connection fails -/
  | drop (conn : ConnRef)
  /-- the deferred function of a goroutine that has stopped reading -/
  | cleanup (conn : ConnRef)
  /-- a packet arrives over the connection -/
  | received (env : Env) (conn : ConnRef) (packet : Bytes)
  /-- a packet arrives at the UDP socket -/
  | datagram (env : Env) (packet : Bytes) (addr : Net.UDPAddr)
  /-- the ticker that removes stale edges -/
  | expire (env : Env)

/-- The hub after an event of its supernode. -/
def lift (h : Hub) (x : Go (Supernode × List Sent)) : Go (Hub × List Sent) := do
  let (sn, out) ← x
  .ok ({ h with sn := sn }, out)

/-- An event that no goroutine can take part in changes nothing.
GOLINE: supernode/supernode.go:274-371 -/
def step (P : Platform) (h : Hub) : Event → Go (Hub × List Sent)
  | .accept tls remoteAddr => do
    let connID := connName tls remoteAddr
    let (sn, out) ← Supernode.step P h.sn (.connect connID h.nextConn)
    .ok ({ sn := sn
           handlers := h.handlers.insert h.nextConn ⟨connID, true⟩
           nextConn := h.nextConn + 1 }, out)
  | .drop conn =>
    match h.handlers.lookup conn with
    | some handler =>
      .ok ({ h with handlers := h.handlers.insert conn { handler with reading := false } }, [])
    | none => .ok (h, [])
  | .cleanup conn =>
    match h.handlers.lookup conn with
    | some ⟨connID, false⟩ => do
      let (sn, out) ← Supernode.step P h.sn (.disconnect connID)
      .ok ({ h with sn := sn, handlers := h.handlers.erase conn }, out)
    | _ => .ok (h, [])
  | .received env conn packet =>
    match h.handlers.lookup conn with
    | some ⟨connID, true⟩ => h.lift (Supernode.step P h.sn (.packet env packet (.wss connID)))
    | _ => .ok (h, [])
  | .datagram env packet addr => h.lift (Supernode.step P h.sn (.packet env packet (.udp addr)))
  | .expire env => h.lift (Supernode.step P h.sn (.cleanup env))

end Hub

end N2nGo.Supernode
