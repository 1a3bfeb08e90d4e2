import N2nGo.Model.NatClient

/-!
# Which port mappings a cleanup deletes

The gateway tells mappings apart by protocol and external port, the client tracks them by
external port alone. What it tracks of a port is the protocol of the last call on that port,
if that call added a mapping. The cleanup deletes exactly the tracked mappings, so it is
complete when every mapping that was added and not deleted is the one its port was last
called for.
-/

set_option autoImplicit false

namespace N2nGo.NatClient

open N2nGo.Lib

/-! ## What calls ask for -/

/-- The protocol and the external port that the gateway is asked about. -/
def Call.key : Call → Bytes × UInt16
  | .add protocol externalPort _ _ _ => (standardizeProtocol protocol, externalPort)
  | .delete protocol externalPort => (standardizeProtocol protocol, externalPort)

def Call.adds : Call → Bool
  | .add .. => true
  | .delete .. => false

/-- The mapping was added and not deleted: the last call on it added it. -/
def outstanding (calls : List Call) (key : Bytes × UInt16) : Bool :=
  calls.foldl (fun b c => if c.key = key then c.adds else b) false

/-- The protocol of the last call on the port, of either protocol, if it added a mapping. -/
def lastAdded (calls : List Call) (port : UInt16) : Option Bytes :=
  calls.foldl (fun p c =>
    if c.key.2 = port then (if c.adds then some c.key.1 else none) else p) none

theorem outstanding_concat (calls : List Call) (c : Call) (key : Bytes × UInt16) :
    outstanding (calls ++ [c]) key = if c.key = key then c.adds else outstanding calls key := by
  unfold outstanding
  rw [List.foldl_concat]

theorem lastAdded_concat (calls : List Call) (c : Call) (port : UInt16) :
    lastAdded (calls ++ [c]) port =
      if c.key.2 = port then (if c.adds then some c.key.1 else none) else lastAdded calls port := by
  unfold lastAdded
  rw [List.foldl_concat]

theorem standardizeProtocol_idem (protocol : Bytes) :
    standardizeProtocol (standardizeProtocol protocol) = standardizeProtocol protocol := by
  have hall : ∀ p ∈ [ascii "UDP", ascii "TCP"], standardizeProtocol p = p := by decide +kernel
  apply hall
  by_cases h : protocol.map toUpper = ascii "UDP"
  · simp [standardizeProtocol, h]
  · simp [standardizeProtocol, h]

theorem standardizeProtocol_key (c : Call) : standardizeProtocol c.key.1 = c.key.1 := by
  cases c with
  | add protocol _ _ _ _ => exact standardizeProtocol_idem protocol
  | delete protocol _ => exact standardizeProtocol_idem protocol

variable {calls : List Call}

theorem standard_of_lastAdded {port : UInt16} {protocol : Bytes}
    (h : lastAdded calls port = some protocol) : standardizeProtocol protocol = protocol := by
  induction calls using List.reverseRecOn with
  | nil => cases h
  | append_singleton calls c ih =>
    rw [lastAdded_concat] at h
    split at h
    · split at h
      · cases h
        exact standardizeProtocol_key c
      · cases h
    · exact ih h

/-! ## The client and the gateway that always succeeds -/

/-- The client tracks of each port what it was last called for, and what is outstanding is
stored. -/
structure Follows (calls : List Call) (st : Table (Bytes × UInt16) Mapping × UPnPClient) :
    Prop where
  connected : st.2.gateway.isSome
  tracked : ∀ port, st.2.mappedPorts.lookup port = lastAdded calls port
  stored : ∀ key, outstanding calls key = true → key ∈ st.1

section

variable {g : Table (Bytes × UInt16) Mapping} {c : UPnPClient} (h : c.gateway.isSome)
  (protocol : Bytes)
include h

theorem addPortMapping_storing (ext int : UInt16) (desc : Bytes) (lease : UInt32) :
    addPortMapping storing g c protocol ext int desc lease =
      (g.insert (standardizeProtocol protocol, ext) ⟨int, c.localIP, desc, lease⟩,
        { c with mappedPorts := c.mappedPorts.insert ext (standardizeProtocol protocol) },
        .ok ()) := by
  obtain ⟨gateway, hgateway⟩ := Option.isSome_iff_exists.mp h
  simp only [addPortMapping, hgateway, storing]

theorem deletePortMapping_storing (ext : UInt16) :
    deletePortMapping storing g c protocol ext =
      (g.erase (standardizeProtocol protocol, ext),
        { c with mappedPorts := c.mappedPorts.erase ext }, .ok ()) := by
  obtain ⟨gateway, hgateway⟩ := Option.isSome_iff_exists.mp h
  simp only [deletePortMapping, hgateway, storing]

end

variable {st : Table (Bytes × UInt16) Mapping × UPnPClient}

theorem Follows.call (h : Follows calls st) (c : Call) :
    Follows (calls ++ [c]) (call storing st c) := by
  obtain ⟨g, client⟩ := st
  cases c with
  | add protocol ext int desc lease =>
    simp only [NatClient.call, addPortMapping_storing h.connected]
    refine ⟨h.connected, fun port => ?_, fun key hkey => ?_⟩
    · rw [Table.lookup_insert_if, lastAdded_concat, h.tracked port]
      simp only [Call.key, Call.adds, if_true, eq_comm]
    · rw [outstanding_concat] at hkey
      rw [AList.mem_insert]
      split at hkey
      · next heq => exact Or.inl heq.symm
      · exact Or.inr (h.stored key hkey)
  | delete protocol ext =>
    simp only [NatClient.call, deletePortMapping_storing h.connected]
    refine ⟨h.connected, fun port => ?_, fun key hkey => ?_⟩
    · rw [Table.lookup_erase_if, lastAdded_concat, h.tracked port]
      simp only [Call.key, Call.adds, Bool.false_eq_true, if_false, eq_comm]
    · rw [outstanding_concat] at hkey
      rw [AList.mem_erase]
      split at hkey
      · cases hkey
      · next hne => exact ⟨fun heq => hne heq.symm, h.stored key hkey⟩

theorem follows_run (g : Table (Bytes × UInt16) Mapping) (gateway : GatewayClient) (localIP : Bytes)
    (calls : List Call) : Follows calls (run storing g (newUPnPClient gateway localIP) calls) := by
  induction calls using List.reverseRecOn with
  | nil =>
    refine ⟨rfl, fun port => AList.lookup_empty port, fun key hkey => ?_⟩
    cases hkey
  | append_singleton calls c ih =>
    unfold run at ih ⊢
    rw [List.foldl_concat]
    exact ih.call c

/-! ## The cleanup -/

theorem mem_cleanupLoop {entries : List (Sigma fun _ : UInt16 => Bytes)}
    {g : Table (Bytes × UInt16) Mapping} {c : UPnPClient} (h : c.gateway.isSome)
    (key : Bytes × UInt16) :
    key ∈ (cleanupLoop storing entries g c).1 ↔
      key ∈ g ∧ ∀ e ∈ entries, key ≠ (standardizeProtocol e.2, e.1) := by
  induction entries generalizing g c with
  | nil => simp [cleanupLoop]
  | cons e entries ih =>
    obtain ⟨port, protocol⟩ := e
    simp only [cleanupLoop, deletePortMapping_storing h]
    rw [ih (c := { c with mappedPorts := c.mappedPorts.erase port }) h, AList.mem_erase,
      List.forall_mem_cons, and_assoc, and_left_comm]

theorem mem_cleanupAllMappings (order : MapOrder) (h : Follows calls st) (key : Bytes × UInt16) :
    key ∈ (cleanupAllMappings storing order st.1 st.2).1 ↔
      key ∈ st.1 ∧ lastAdded calls key.2 ≠ some key.1 := by
  obtain ⟨gateway, hgateway⟩ := Option.isSome_iff_exists.mp h.connected
  simp only [cleanupAllMappings, hgateway]
  rw [mem_cleanupLoop h.connected]
  refine and_congr_right fun _ => ?_
  constructor
  · intro hne hlast
    have hentry : (⟨key.2, key.1⟩ : Sigma fun _ : UInt16 => Bytes) ∈
        order.visit st.2.mappedPorts.entries := by
      rw [MapOrder.mem_visit, ← Table.lookup_eq_some_iff, h.tracked]
      exact hlast
    refine hne _ hentry (Prod.ext ?_ rfl)
    exact (standard_of_lastAdded hlast).symm
  · rintro hlast ⟨port, protocol⟩ hentry rfl
    rw [MapOrder.mem_visit, ← Table.lookup_eq_some_iff, h.tracked] at hentry
    exact hlast (by rw [standard_of_lastAdded hentry]; exact hentry)

/-- **The cleanup is complete exactly if every outstanding mapping is the one its port was
last called for.** The gateway may hold anything before the first call.
GOLINE: natclient/upnp_impl.go:151-272 -/
theorem cleanup_complete_iff (order : MapOrder) (g : Table (Bytes × UInt16) Mapping)
    (gateway : GatewayClient) (localIP : Bytes) (calls : List Call) :
    (∀ key, outstanding calls key = true →
      key ∉ (cleanupAllMappings storing order
        (run storing g (newUPnPClient gateway localIP) calls).1
        (run storing g (newUPnPClient gateway localIP) calls).2).1) ↔
      ∀ key, outstanding calls key = true → lastAdded calls key.2 = some key.1 := by
  have hfollows := follows_run g gateway localIP calls
  refine forall_congr' fun key => imp_congr_right fun hkey => ?_
  rw [mem_cleanupAllMappings order hfollows, not_and, ne_eq, not_not]
  exact ⟨fun h => h (hfollows.stored key hkey), fun h _ => h⟩

/-- What an empty gateway stores after the calls of a new client and its cleanup. -/
def leftAfter (calls : List Call) : List (Bytes × UInt16) :=
  let st := run storing ∅ (newUPnPClient .wanIPConnection2 (ascii "10.0.0.2")) calls
  (cleanupAllMappings storing .stored st.1 st.2).1.keys

def addUDP : Call := .add (ascii "udp") 7 7 [] 0

def addTCP : Call := .add (ascii "tcp") 7 7 [] 0

/-- Port 7 is mapped for UDP and then for TCP: the cleanup leaves the UDP mapping behind. The
same happens when the mapping for TCP, which was never there, is deleted. -/
theorem cleanup_not_complete :
    (outstanding [addUDP, addTCP] (ascii "UDP", 7) = true ∧
      leftAfter [addUDP, addTCP] = [(ascii "UDP", 7)]) ∧
    outstanding [addUDP, .delete (ascii "tcp") 7] (ascii "UDP", 7) = true ∧
      leftAfter [addUDP, .delete (ascii "tcp") 7] = [(ascii "UDP", 7)] := by
  decide +kernel

end N2nGo.NatClient
