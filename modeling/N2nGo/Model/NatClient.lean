import N2nGo.Lib.NetText
import N2nGo.Lib.Table
import N2nGo.Lib.Url

/-!
# Port mappings on a UPnP gateway

The UPnP part of package `natclient`: a client asks the gateway for port mappings, keeps
track of them by external port, and deletes what it tracks when it is cleaned up. What a
gateway does with a request is a parameter (`Router`): it has a state of its own and may
answer with an error, whose text the client looks into.
-/

set_option autoImplicit false

namespace N2nGo.NatClient

open N2nGo.Lib

/-! ## Gateways -/

/-- The four clients of `goupnp` that the type switches list. -/
inductive GatewayClient where
  | wanIPConnection2
  | wanPPPConnection1IGD2
  | wanIPConnection1
  | wanPPPConnection1IGD1
  deriving DecidableEq

/-- What a gateway is asked to store for an external port and a protocol. The remote host is
always empty and the mapping always enabled. -/
structure Mapping where
  internalPort : UInt16
  internalClient : Bytes
  description : Bytes
  leaseDuration : UInt32
  deriving DecidableEq

/-- The two SOAP calls, on gateways with state `G`: the new state and the text of the error,
if there is one. -/
structure Router (G : Type) where
  addPortMapping : G → UInt16 → Bytes → Mapping → G × Option Bytes
  deletePortMapping : G → UInt16 → Bytes → G × Option Bytes

/-! ## The client -/

/-- `gateway` is `none` where the interface is nil. What discovery finds is one of the four
clients.
GOLINE: natclient/upnp_impl.go:15-21 -/
structure UPnPClient where
  gateway : Option GatewayClient
  localIP : Bytes
  mappedPorts : Table UInt16 Bytes

/-- The client when discovery has found a gateway.
GOLINE: natclient/upnp_impl.go:27-58 -/
def newUPnPClient (gateway : GatewayClient) (localIP : Bytes) : UPnPClient :=
  { gateway := some gateway, localIP := localIP, mappedPorts := ∅ }

/-- An upper-case letter for a lower-case one. -/
def toUpper (b : UInt8) : UInt8 := if 97 ≤ b && b ≤ 122 then b - 32 else b

/-- Outside ASCII no character has `U`, `D` or `P` as its upper case, so that the comparison
is decided by the letters of ASCII.
GOLINE: natclient/client.go:200-206 -/
def standardizeProtocol (protocol : Bytes) : Bytes :=
  if protocol.map toUpper = ascii "UDP" then ascii "UDP" else ascii "TCP"

/-- `fmt.Sprintf("%d/%s", externalPort, protocolUpper)`. -/
def portText (externalPort : UInt16) (protocolUpper : Bytes) : Bytes :=
  Net.itoa externalPort.toNat ++ 47 :: protocolUpper

/-- The error returned for an answer that is not retried.
GOLINE: natclient/upnp_impl.go:189-200 -/
def addRefused (externalPort : UInt16) (protocolUpper err : Bytes) : Bytes :=
  if Url.contains err (ascii "ConflictInMappingEntry") then
    ascii "UPnP: AddPortMapping failed - port " ++ portText externalPort protocolUpper ++
      ascii " may already be mapped: " ++ err
  else
    ascii "UPnP: AddPortMapping failed for " ++ portText externalPort protocolUpper ++
      ascii ": " ++ err

section Calls

variable {G : Type} (R : Router G)

/-- The source retries by calling itself with lease 0; that call cannot retry again.
GOLINE: natclient/upnp_impl.go:152-205 -/
def addPortMapping (g : G) (c : UPnPClient) (protocol : Bytes) (externalPort internalPort : UInt16)
    (description : Bytes) (leaseDuration : UInt32) : G × UPnPClient × Except Bytes Unit :=
  let protocolUpper := standardizeProtocol protocol
  let tracked := { c with mappedPorts := c.mappedPorts.insert externalPort protocolUpper }
  match c.gateway with
  | none => (g, c, .error (ascii "UPnP: unknown gateway type (<nil>) for AddPortMapping"))
  | some _ =>
    match R.addPortMapping g externalPort protocolUpper
        ⟨internalPort, c.localIP, description, leaseDuration⟩ with
    | (g, none) => (g, tracked, .ok ())
    | (g, some err) =>
      if !Url.contains err (ascii "ConflictInMappingEntry") &&
          (Url.contains err (ascii "OnlyPermanentLeasesSupported") && leaseDuration != 0) then
        match R.addPortMapping g externalPort protocolUpper
            ⟨internalPort, c.localIP, description, 0⟩ with
        | (g, none) => (g, tracked, .ok ())
        | (g, some err) => (g, c, .error (addRefused externalPort protocolUpper err))
      else (g, c, .error (addRefused externalPort protocolUpper err))

/-- GOLINE: natclient/upnp_impl.go:208-244 -/
def deletePortMapping (g : G) (c : UPnPClient) (protocol : Bytes) (externalPort : UInt16) :
    G × UPnPClient × Except Bytes Unit :=
  let protocolUpper := standardizeProtocol protocol
  let untracked := { c with mappedPorts := c.mappedPorts.erase externalPort }
  match c.gateway with
  | none => (g, c, .error (ascii "UPnP: unknown gateway type (<nil>) for DeletePortMapping"))
  | some _ =>
    match R.deletePortMapping g externalPort protocolUpper with
    | (g, none) => (g, untracked, .ok ())
    | (g, some err) =>
      if Url.contains err (ascii "NoSuchEntryInArray") then (g, untracked, .ok ())
      else (g, c, .error (ascii "UPnP: DeletePortMapping failed for " ++
        portText externalPort protocolUpper ++ ascii ": " ++ err))

/-- The deletions of a cleanup. Errors are only logged.
GOLINE: natclient/upnp_impl.go:258-267 -/
def cleanupLoop : List (Sigma fun _ : UInt16 => Bytes) → G → UPnPClient → G × UPnPClient
  | [], g, c => (g, c)
  | ⟨port, protocol⟩ :: rest, g, c =>
    let (g, c, _) := deletePortMapping R g c protocol port
    cleanupLoop rest g c

/-- The loop runs over a copy of the map.
GOLINE: natclient/upnp_impl.go:247-272 -/
def cleanupAllMappings (order : MapOrder) (g : G) (c : UPnPClient) : G × UPnPClient :=
  match c.gateway with
  | none => (g, c)
  | some _ => cleanupLoop R (order.visit c.mappedPorts.entries) g c

/-- `none` is the nil client.
GOLINE: natclient/client.go:140-146 -/
def cleanup (order : MapOrder) (g : G) : Option UPnPClient → G × Option UPnPClient
  | none => (g, none)
  | some c =>
    let (g, c) := cleanupAllMappings R order g c
    (g, some c)

/-! ## Sequences of calls -/

/-- A call of the client. -/
inductive Call where
  | add (protocol : Bytes) (externalPort internalPort : UInt16) (description : Bytes)
      (leaseDuration : UInt32)
  | delete (protocol : Bytes) (externalPort : UInt16)

/-- One call; its error is dropped. -/
def call : G × UPnPClient → Call → G × UPnPClient
  | (g, c), .add protocol externalPort internalPort description leaseDuration =>
    let (g, c, _) :=
      addPortMapping R g c protocol externalPort internalPort description leaseDuration
    (g, c)
  | (g, c), .delete protocol externalPort =>
    let (g, c, _) := deletePortMapping R g c protocol externalPort
    (g, c)

/-- The gateway and the client after the calls. -/
def run (g : G) (c : UPnPClient) (calls : List Call) : G × UPnPClient := calls.foldl (call R) (g, c)

end Calls

/-- The gateway that stores one mapping for each protocol and external port and always
succeeds. -/
def storing : Router (Table (Bytes × UInt16) Mapping) where
  addPortMapping g externalPort protocol m := (g.insert (protocol, externalPort) m, none)
  deletePortMapping g externalPort protocol := (g.erase (protocol, externalPort), none)

end N2nGo.NatClient
