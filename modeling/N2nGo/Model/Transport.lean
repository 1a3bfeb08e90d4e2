import N2nGo.Lib.NetText
import N2nGo.Lib.Stream

/-!
# The SOCKS5 handshake

Package `transport`: before a WebSocket goes through a SOCKS5 proxy over TLS, the client asks
the proxy for a connection to its target. It reads both answers with one `Read` each, into
buffers that begin as zeros, and looks at the first two bytes of each buffer.
-/

set_option autoImplicit false

namespace N2nGo.Transport

open N2nGo.Lib

/-- A `net.TCPAddr`. -/
structure TCPAddr where
  ip : Bytes
  port : ℕ
  deriving DecidableEq

/-- What the handshake depends on besides the bytes from the proxy: the resolver, and which
writes succeed. -/
structure Platform where
  resolveTCPAddr : Bytes → Option TCPAddr
  writeOk : ℕ → Bool

/-- A connection to the proxy. -/
structure Conn where
  incoming : Incoming
  written : List Bytes

/-- GOLINE: transport/wss.go:275-341 -/
inductive HandshakeErr where
  | sendMethods
  | readMethodSelection
  | invalidVersion (version : UInt8)
  | noAcceptableMethods
  | resolveTarget
  | sendConnectRequest
  | readConnectResponse
  | invalidResponseVersion (version : UInt8)
  | connectionFailed (code : UInt8)
  deriving DecidableEq

/-- A buffer of `n` zeros into which `b` was read. -/
def filled (n : ℕ) (b : Bytes) : Bytes := b ++ List.replicate (n - b.length) 0

/-- `IP.To16`; the result is empty where Go returns nil. -/
def to16 (ip : Bytes) : Bytes :=
  if ip.length = 4 then Net.v4InV6Prefix ++ ip
  else if ip.length = 16 then ip
  else []

/-- The CONNECT request.
GOLINE: transport/wss.go:303-320 -/
def connectRequest (addr : TCPAddr) : Bytes :=
  let req :=
    if Net.to4 addr.ip ≠ [] then [0x05, 0x01, 0x00, 0x01] ++ Net.to4 addr.ip
    else if to16 addr.ip ≠ [] then [0x05, 0x01, 0x00, 0x04] ++ to16 addr.ip
    else
      let hostBytes := Net.ipString addr.ip
      [0x05, 0x01, 0x00, 0x03, UInt8.ofNat hostBytes.length] ++ hostBytes
  req ++ [UInt8.ofNat (addr.port >>> 8), UInt8.ofNat (addr.port &&& 0xFF)]

/-- `conn.Write`; `none` is an error. -/
def write (P : Platform) (conn : Conn) (b : Bytes) : Option Conn :=
  if P.writeOk conn.written.length then some { conn with written := conn.written ++ [b] } else none

/-- The answer to the CONNECT request.
GOLINE: transport/wss.go:327-340 -/
def readResponse (conn : Conn) : Go (Conn × Except HandshakeErr Unit) :=
  match conn.incoming.read 10 with
  | none => .ok (conn, .error .readConnectResponse)
  | some (b, incoming) => do
    let conn := { conn with incoming := incoming }
    let resp := filled 10 b
    let version ← index resp 0
    if version ≠ 0x05 then .ok (conn, .error (.invalidResponseVersion version))
    else
      let code ← index resp 1
      if code ≠ 0x00 then .ok (conn, .error (.connectionFailed code))
      else .ok (conn, .ok ())

/-- The CONNECT request and its answer.
GOLINE: transport/wss.go:298-340 -/
def connect (P : Platform) (conn : Conn) (targetAddr : Bytes) :
    Go (Conn × Except HandshakeErr Unit) :=
  match P.resolveTCPAddr targetAddr with
  | none => .ok (conn, .error .resolveTarget)
  | some addr =>
    match write P conn (connectRequest addr) with
    | none => .ok (conn, .error .sendConnectRequest)
    | some conn => readResponse conn

/-- GOLINE: transport/wss.go:275-341 -/
def socks5Handshake (P : Platform) (conn : Conn) (targetAddr : Bytes) :
    Go (Conn × Except HandshakeErr Unit) :=
  match write P conn [0x05, 0x01, 0x00] with
  | none => .ok (conn, .error .sendMethods)
  | some conn =>
    match conn.incoming.read 2 with
    | none => .ok (conn, .error .readMethodSelection)
    | some (b, incoming) => do
      let conn := { conn with incoming := incoming }
      let response := filled 2 b
      let version ← index response 0
      if version ≠ 0x05 then .ok (conn, .error (.invalidVersion version))
      else
        let method ← index response 1
        if method = 0xFF then .ok (conn, .error .noAcceptableMethods)
        else connect P conn targetAddr

end N2nGo.Transport
