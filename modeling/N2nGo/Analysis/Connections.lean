import N2nGo.Analysis.Contact
import N2nGo.Model.Supernode.Connections

/-!
# WebSocket delivery

A record and `wssConnections` know a connection by its name, and a name can come back: a
client that reconnects from the same address gets the name of its old connection. Packets
for a record that was registered over the old connection then go to the new one, and when
the goroutine of the old connection ends it deletes the entry of the new one. If a name
comes back only after the goroutine of its old connection has ended and nobody who
registered over it can be found any more, packets stay on the connection of the last
registration (`wss_delivery_stays`).
-/

set_option autoImplicit false

namespace N2nGo.Supernode

open N2nGo.Lib N2nGo.Protocol N2nGo.Messages

/-! ## Accepted registrations -/

/-- The record for which the packet is accepted as a registration.
GOLINE: supernode/handlers.go:108-136 -/
def registeredRef (P : Platform) (env : Env) (s : Supernode) (packet : Bytes) (addr : NetAddr) :
    Option EdgeRef :=
  match newRawMessage packet addr with
  | .ok (.ok r) =>
    match toMessage P.codecs.registerRequest r with
    | .ok reg =>
      match registerEdge P env s.counted reg with
      | .ok (_, .ok (ref, _)) => some ref
      | _ => none
    | .error _ => none
  | _ => none

section Packets

variable {P : Platform} {env : Env} {s s' : Supernode} {packet : Bytes} {addr : NetAddr}
  {out : List Sent} {ref : EdgeRef}

variable {reg : Message RegisterRequest}

theorem registeredRef_eq_some {r : RawMessage} {s1 : Supernode} {cm : CommunityRef}
    (hraw : newRawMessage packet addr = .ok (.ok r))
    (hmsg : toMessage P.codecs.registerRequest r = .ok reg)
    (hreg : registerEdge P env s.counted reg = .ok (s1, .ok (ref, cm))) :
    registeredRef P env s packet addr = some ref := by
  unfold registeredRef
  simp only [hraw, hmsg, hreg]

theorem exists_of_registeredRef (h : registeredRef P env s packet addr = some ref) :
    ∃ r reg s1 cm, newRawMessage packet addr = .ok (.ok r) ∧
      toMessage P.codecs.registerRequest r = .ok reg ∧
      registerEdge P env s.counted reg = .ok (s1, .ok (ref, cm)) := by
  unfold registeredRef at h
  split at h
  · next r hraw =>
    split at h
    · next reg hmsg =>
      split at h
      · next s1 ref' cm hreg =>
        cases h
        exact ⟨r, reg, s1, cm, hraw, hmsg, hreg⟩
      · cases h
    · cases h
  · cases h

/-- The record can be found in the new state only if it could be found before, and `f` of it
is the same. -/
def Preserves {α : Type} (f : Edge → α) (s s' : Supernode) (ref : EdgeRef) : Prop :=
  s'.registry.Known ref → s.registry.Known ref ∧ f (s'.edges.cell ref) = f (s.edges.cell ref)

section Preserves

variable {α : Type} {f : Edge → α}

theorem Preserves.of_registry_eq (h : s'.registry = s.registry) (ref : EdgeRef) : Preserves f s s' ref := by
  intro hk
  rw [h] at hk
  exact ⟨hk, congrArg f (congrFun (congrArg Registry.record h) ref)⟩

theorem Preserves.trans {s1 : Supernode} (h : Preserves f s s1 ref) (h' : Preserves f s1 s' ref) :
    Preserves f s s' ref := by
  intro hk
  obtain ⟨hk1, hf1⟩ := h' hk
  obtain ⟨hk0, hf0⟩ := h hk1
  exact ⟨hk0, hf1.trans hf0⟩

theorem Preserves.registerCommunity (v : s.registry.Valid hashCommunity) {name : Bytes}
    {hash : UInt32} {res : Except Err CommunityRef}
    (h : registerCommunity P s name hash = .ok (s', res)) (ref : EdgeRef) : Preserves f s s' ref := by
  rcases registerCommunity_ok h with ⟨-, hsame⟩ | ⟨cm, -, -, ⟨rfl, -⟩ | ⟨hfree, -, hcreate⟩⟩
  · exact .of_registry_eq hsame ref
  · exact .of_registry_eq rfl ref
  · intro hk
    rw [hcreate] at hk
    exact ⟨Registry.known_create v hfree hk,
      congrArg f (congrFun (congrArg Registry.record hcreate) ref)⟩

theorem Preserves.registerEdge_error (v : s.registry.Valid hashCommunity) {e : Err}
    (h : registerEdge P env s reg = .ok (s', .error e)) (ref : EdgeRef) : Preserves f s s' ref := by
  rcases registerEdge_ok h with ⟨-, hsame⟩ | ⟨cm, s0, hcommunity, ⟨-, hsame⟩ |
    ⟨id, -, ⟨_, -, hres, -⟩ | ⟨_, -, hres, -⟩⟩⟩
  · exact .of_registry_eq hsame ref
  · exact (Preserves.registerCommunity v hcommunity ref).trans (.of_registry_eq hsame ref)
  · cases hres
  · cases hres

theorem Preserves.registered (v : s.registry.Valid hashCommunity) {s1 : Supernode} {ref0 : EdgeRef}
    {cm : CommunityRef} (h : registerEdge P env s reg = .ok (s1, .ok (ref0, cm))) (addr : NetAddr)
    (hne : ref ≠ ref0) : Preserves f s ((s1.setWSSConnID ref0 addr).indexEdge ref0) ref := by
  rcases registerEdge_ok h with ⟨⟨e, he⟩, -⟩ | ⟨cm', s0, hcommunity, ⟨⟨e, he⟩, -⟩ |
    ⟨id, -, ⟨vip, -, hres, henroll⟩ | ⟨ref', -, hres, hwrite⟩⟩⟩
  · cases he
  · cases he
  · cases hres
    refine (Preserves.registerCommunity v hcommunity ref).trans fun hk => ?_
    have hjoin := registry_join henroll addr
    rw [hjoin] at hk
    refine ⟨?_, ?_⟩
    · rcases Registry.known_index hk with hk | heq
      · exact (Registry.known_enroll hk).resolve_right hne
      · exact absurd heq hne
    · exact congrArg f ((congrFun (congrArg Registry.record hjoin) ref).trans
        (Function.update_of_ne hne ..))
  · cases hres
    refine (Preserves.registerCommunity v hcommunity ref).trans fun hk => ?_
    have hrejoin := registry_rejoin hwrite addr
    rw [hrejoin] at hk
    refine ⟨(Registry.known_index hk).resolve_right hne, ?_⟩
    exact congrArg f ((congrFun (congrArg Registry.record hrejoin) ref).trans
      (Function.update_of_ne hne ..))

/-- A message that is not an accepted registration keeps of every record what a heartbeat
keeps. -/
theorem Handled.preserves {r : RawMessage} {err : Except Err Unit}
    (hf : ∀ env edge pulse, f (Supernode.refreshed env edge pulse) = f edge)
    (v : s.registry.Valid hashCommunity) (h : Handled P env s r s' out err)
    (hno : ∀ reg s1 ref cm, toMessage P.codecs.registerRequest r = .ok reg →
      registerEdge P env s reg ≠ .ok (s1, .ok (ref, cm))) (ref : EdgeRef) : Preserves f s s' ref := by
  cases h with
  | idle hidle _ => exact .of_registry_eq hidle.registry_eq ref
  | refused _ _ hreg _ => exact Preserves.registerEdge_error v hreg ref
  | registered _ hmsg hreg _ _ => exact absurd hreg (hno _ _ _ _ hmsg)
  | @refreshed pulse cm ref' _ _ _ _ _ =>
    intro hk
    refine ⟨hk, ?_⟩
    show f ((s.edges.store ref' _).cell ref) = _
    rw [Heap.cell_store]
    split
    · next heq => rw [heq, hf]
    · rfl
  | removed _ _ _ _ hun hunindex =>
    obtain ⟨-, -, hleave⟩ := registry_removed hun hunindex
    intro hk
    rw [registry_count, hleave] at hk
    exact ⟨Registry.known_leave hk, congrArg f
      (congrFun ((congrArg Registry.record hleave).trans Registry.record_unindex) ref)⟩

theorem Preserves.cleanupStaleEdges (h : cleanupStaleEdges P env s = .ok (s', out)) (ref : EdgeRef) :
    Preserves f s s' ref := by
  obtain ⟨ops, hrun, -, hops⟩ := cleanupStaleEdges_run h
  have hleave : ∀ op ∈ ops, ∃ cm mac, op = .leave cm mac := fun op hop => by
    obtain ⟨cm, mac, -, heq⟩ := hops op hop
    exact ⟨cm, mac, heq⟩
  intro hk
  exact ⟨Registry.known_run_leave hrun hleave hk,
    congrArg f (congrFun (Registry.record_run_leave hrun hleave).1 ref)⟩

end Preserves

/-- The other records: they can be found in the new state only if they could be found before,
and their connection is the same. -/
def Undisturbed (s s' : Supernode) (ref : EdgeRef) : Prop :=
  Preserves Edge.wssConnID s s' ref

/-- **What a packet does to the connections in records.** Only an accepted registration
changes one, and it sets it to its own connection or leaves it. -/
theorem processPacket_connections (v : s.registry.Valid hashCommunity)
    (h : processPacket P env s packet addr = .ok (s', out)) :
    (registeredRef P env s packet addr = none ∧ ∀ ref, Undisturbed s s' ref) ∨
      ∃ r ref0, newRawMessage packet addr = .ok (.ok r) ∧
        registeredRef P env s packet addr = some ref0 ∧ (∀ ref, ref ≠ ref0 → Undisturbed s s' ref) ∧
        ∃ edge, s'.edges.cell ref0 = withConn addr edge ∧
          (edge.wssConnID = [] ∨ s.senderRecord r = some (s.edges.cell ref0) ∧
            edge.wssConnID = (s.edges.cell ref0).wssConnID) := by
  cases hreg : registeredRef P env s packet addr with
  | some ref0 =>
    obtain ⟨r, reg, s1, cm, hraw, hmsg, hreg1⟩ := exists_of_registeredRef hreg
    obtain ⟨out1, err, hhandle, -⟩ := processPacket_message hraw h
    obtain ⟨f, out2, err2, haccepted, -⟩ := handleRegisterMessage_accepted hmsg hreg1 rfl
    rw [handle_register (packetType_of_toMessage hmsg), haccepted] at hhandle
    cases hhandle
    have hfrom : r.fromAddr = addr := by
      obtain ⟨-, rfl⟩ := newRawMessage_ok hraw
      rfl
    refine Or.inr ⟨r, ref0, hraw, rfl, fun ref hne => ?_, s1.edges.cell ref0, ?_, ?_⟩
    · exact Preserves.registered (s := s.counted) v hreg1 r.fromAddr hne
    · rw [← hfrom]
      exact cell_indexed s1 ref0 r.fromAddr
    · rcases registerEdge_record hmsg hreg1 with ⟨-, c, regMsg, vip, -, hrec⟩ | ⟨hsome, hrec⟩
      · rw [hrec]
        exact Or.inl rfl
      · rw [hrec]
        exact Or.inr ⟨hsome, rfl⟩
  | none =>
    refine Or.inl ⟨rfl, fun ref => ?_⟩
    rcases processPacket_ok h with rfl | ⟨r, out1, err, hraw, hhandled, -⟩
    · exact Preserves.of_registry_eq rfl ref
    · refine hhandled.preserves (s := s.counted) (fun _ _ _ => rfl) v (fun reg s1 ref cm hmsg hreg1 => ?_) ref
      rw [registeredRef_eq_some hraw hmsg hreg1] at hreg
      cases hreg

end Packets

/-! ## Runs of the hub -/

namespace Hub

/-- A hub whose supernode has just started. -/
def Initial (h : Hub) : Prop := Supernode.Initial h.sn ∧ h.handlers = ∅ ∧ h.nextConn = 0

/-- The accepted registration that the event is: its record, and its connection unless it
came over UDP. -/
def registered (P : Platform) (h : Hub) : Event → Option (EdgeRef × Option ConnRef)
  | .received env conn packet =>
    match h.handlers.lookup conn with
    | some ⟨connID, true⟩ => (registeredRef P env h.sn packet (.wss connID)).map (·, some conn)
    | _ => none
  | .datagram env packet addr => (registeredRef P env h.sn packet (.udp addr)).map (·, none)
  | _ => none

/-- The connection of the last accepted registration of a record. -/
def lastRegistered (P : Platform) :
    List (Taken Hub Event (List Sent)) → EdgeRef → Option (Option ConnRef)
  | [], _ => none
  | t :: hist, ref =>
    match t.before.registered P t.event with
    | some (ref', conn) => if ref' = ref then some conn else lastRegistered P hist ref
    | none => lastRegistered P hist ref

/-- The connection is served by a goroutine that reads from it. -/
def Live (h : Hub) (conn : ConnRef) : Prop := ∃ connID, h.handlers.lookup conn = some ⟨connID, true⟩

/-- A packet forwarded to the edge is written to `conn`, or there is an error. -/
def StaysOn (s : Supernode) (edge : Edge) (conn : ConnRef) : Prop :=
  ∀ env packet out err, forwardPacket env s [] packet edge = .ok (out, err) →
    (∃ e, err = .error e) ∨ ∃ x, out = [x] ∧ x.dest = some (.wss conn)

/-- A connection is accepted only under a name that no goroutine and no known record has, and
no edge whose record names a connection sends a registration over UDP. -/
def FreshNames (h : Hub) : Event → Prop
  | .accept tls remoteAddr =>
    (∀ conn handler, h.handlers.lookup conn = some handler →
      handler.connID ≠ connName tls remoteAddr) ∧
    ∀ ref, h.sn.registry.Known ref → (h.sn.edges.cell ref).wssConnID ≠ connName tls remoteAddr
  | .datagram _ packet addr => ∀ r edge, newRawMessage packet (.udp addr) = .ok (.ok r) →
    r.header.packetType = typeRegisterRequest → h.sn.senderRecord r = some edge →
    edge.wssConnID = []
  | _ => True

/-- The invariant: the table has exactly the connections that goroutines serve, and a name in
a known record leads to the connection of the last registration or nowhere. -/
structure Sound (P : Platform) (hist : List (Taken Hub Event (List Sent))) (h : Hub) : Prop where
  valid : h.sn.registry.Valid hashCommunity
  numbered : ∀ conn handler, h.handlers.lookup conn = some handler → conn < h.nextConn
  served : ∀ name conn, h.sn.wssConnections.lookup name = some conn ↔
    ∃ reading, h.handlers.lookup conn = some ⟨name, reading⟩
  last : ∀ ref, h.sn.registry.Known ref → (h.sn.edges.cell ref).wssConnID ≠ [] →
    ∃ conn, lastRegistered P hist ref = some (some conn) ∧
      ∀ conn', h.sn.wssConnections.lookup (h.sn.edges.cell ref).wssConnID = some conn' →
        conn' = conn

variable {P : Platform} {hist : List (Taken Hub Event (List Sent))} {h h' : Hub} {ev : Event}
  {out : List Sent}

variable {conn : ConnRef}

theorem staysOn_of_route {s : Supernode} {edge : Edge}
    (hroute : ∀ dest, s.route edge = some dest → dest = .wss conn) : StaysOn s edge conn := by
  intro env packet out err hfwd
  rcases forwardPacket_ok env s [] edge hfwd with ⟨-, herr⟩ | ⟨packet', hout, herr⟩
  · exact Or.inl herr
  · cases hdest : s.route edge with
    | none =>
      refine Or.inl ?_
      have hok : (attempt env s packet' 0 edge).ok = false := by
        unfold attempt
        rw [hdest]
        rfl
      cases err with
      | error e => exact ⟨e, rfl⟩
      | ok u =>
        have htrue := herr.mp rfl
        rw [List.length_nil, hok] at htrue
        cases htrue
    | some dest =>
      refine Or.inr ⟨_, hout, ?_⟩
      exact hdest.trans (congrArg some (hroute dest hdest))

theorem Sound.staysOn (o : Sound P hist h) {ref : EdgeRef} (hk : h.sn.registry.Known ref)
    (hconn : (h.sn.edges.cell ref).wssConnID ≠ []) :
    ∃ conn, lastRegistered P hist ref = some (some conn) ∧
      StaysOn h.sn (h.sn.edges.cell ref) conn := by
  obtain ⟨conn, hlast, honly⟩ := o.last ref hk hconn
  refine ⟨conn, hlast, staysOn_of_route fun dest hdest => ?_⟩
  rw [route, if_pos hconn] at hdest
  obtain ⟨conn', hconn', rfl⟩ := Option.map_eq_some_iff.mp hdest
  rw [honly conn' hconn']

theorem Sound.conn_eq (o : Sound P hist h) {name : Bytes} {conn' : ConnRef} {b b' : Bool}
    (hc : h.handlers.lookup conn = some ⟨name, b⟩) (hc' : h.handlers.lookup conn' = some ⟨name, b'⟩) :
    conn = conn' := by
  have h1 := (o.served name conn).mpr ⟨b, hc⟩
  have h2 := (o.served name conn').mpr ⟨b', hc'⟩
  rw [h1] at h2
  exact Option.some.inj h2

variable {t : Taken Hub Event (List Sent)}

theorem lastRegistered_cons_none {ref : EdgeRef} (ht : t.before.registered P t.event = none) :
    lastRegistered P (t :: hist) ref = lastRegistered P hist ref := by
  simp only [lastRegistered, ht]

theorem lastRegistered_cons_some {ref ref' : EdgeRef} {conn : Option ConnRef}
    (ht : t.before.registered P t.event = some (ref', conn)) :
    lastRegistered P (t :: hist) ref =
      if ref' = ref then some conn else lastRegistered P hist ref := by
  simp only [lastRegistered, ht]

section

variable (o : Sound P hist h)
include o

/-- A step of the supernode that keeps the connections: the records that it disturbs are
registered by it, over the connection that their name leads to. -/
theorem Sound.lift {sn : Supernode} (ref0 : Option EdgeRef) (via : Option ConnRef)
    (ht : t.before.registered P t.event = ref0.map (·, via))
    (hvalid : sn.registry.Valid hashCommunity) (hconns : sn.wssConnections = h.sn.wssConnections)
    (hothers : ∀ ref, ref0 ≠ some ref → Undisturbed h.sn sn ref)
    (hnew : ∀ ref, ref0 = some ref → (sn.edges.cell ref).wssConnID ≠ [] → ∃ conn, via = some conn ∧
      ∀ conn', sn.wssConnections.lookup (sn.edges.cell ref).wssConnID = some conn' → conn' = conn) :
    Sound P (t :: hist) { h with sn := sn } := by
  refine ⟨hvalid, o.numbered, fun name conn => ?_, fun ref hk hconn => ?_⟩
  · show sn.wssConnections.lookup name = some conn ↔ _
    rw [hconns]
    exact o.served name conn
  · by_cases hreg : ref0 = some ref
    · obtain ⟨conn, rfl, honly⟩ := hnew ref hreg hconn
      refine ⟨conn, ?_, honly⟩
      rw [hreg] at ht
      rw [lastRegistered_cons_some ht, if_pos rfl]
    · obtain ⟨hk', hname⟩ := hothers ref hreg hk
      have hconn' : (sn.edges.cell ref).wssConnID ≠ [] := hconn
      rw [hname] at hconn'
      obtain ⟨conn, hlast, honly⟩ := o.last ref hk' hconn'
      refine ⟨conn, ?_, fun conn' hlook => honly conn' ?_⟩
      · cases href : ref0 with
        | none =>
          rw [href] at ht
          rw [lastRegistered_cons_none ht, hlast]
        | some ref1 =>
          rw [href] at ht hreg
          rw [lastRegistered_cons_some ht, if_neg fun heq => hreg (congrArg some heq), hlast]
      · rw [← hname, ← hconns]
        exact hlook

theorem Sound.unchanged (ht : t.before.registered P t.event = none) : Sound P (t :: hist) h :=
  o.lift none none ht o.valid rfl
    (fun ref _ => Preserves.of_registry_eq rfl ref) (fun ref heq => by cases heq)

/-! One lemma for each kind of event. -/

theorem Sound.accept {tls : Bool} {remoteAddr : Bytes}
    (hadm : FreshNames h (.accept tls remoteAddr))
    (hstep : step P h (.accept tls remoteAddr) = .ok (h', out)) :
    Sound P (⟨h, .accept tls remoteAddr, out⟩ :: hist) h' := by
  obtain ⟨hname, hrecords⟩ := hadm
  cases hstep
  refine ⟨o.valid, ?_, ?_, ?_⟩
  · intro conn handler hlook
    rw [Table.lookup_insert_if] at hlook
    split at hlook
    · next heq =>
      rw [heq]
      exact Nat.lt_succ_self _
    · exact Nat.lt_succ_of_lt (o.numbered conn handler hlook)
  · intro name conn
    show (h.sn.wssConnections.insert (connName tls remoteAddr) h.nextConn).lookup name = some conn ↔
      ∃ reading, (h.handlers.insert h.nextConn ⟨connName tls remoteAddr, true⟩).lookup conn =
        some ⟨name, reading⟩
    rw [Table.lookup_insert_if, Table.lookup_insert_if]
    by_cases hn : name = connName tls remoteAddr
    · subst hn
      rw [if_pos rfl]
      by_cases hc : conn = h.nextConn
      · subst hc
        rw [if_pos rfl]
        exact iff_of_true rfl ⟨true, rfl⟩
      · rw [if_neg hc]
        refine iff_of_false (fun heq => hc (Option.some.inj heq).symm) ?_
        rintro ⟨reading, hlook⟩
        exact hname conn _ hlook rfl
    · rw [if_neg hn, o.served name conn]
      by_cases hc : conn = h.nextConn
      · subst hc
        rw [if_pos rfl]
        refine iff_of_false ?_ ?_
        · rintro ⟨reading, hlook⟩
          exact absurd (o.numbered _ _ hlook) (Nat.lt_irrefl _)
        · rintro ⟨reading, hlook⟩
          cases hlook
          exact hn rfl
      · rw [if_neg hc]
  · intro ref hk hconn
    have hsame : Sound P (⟨h, .accept tls remoteAddr, []⟩ :: hist) h := o.unchanged rfl
    obtain ⟨conn, hlast, honly⟩ := hsame.last ref hk hconn
    refine ⟨conn, hlast, fun conn' hlook => honly conn' ?_⟩
    have hlook' : (h.sn.wssConnections.insert (connName tls remoteAddr) h.nextConn).lookup
        (h.sn.edges.cell ref).wssConnID = some conn' := hlook
    rwa [Table.lookup_insert_if, if_neg (hrecords ref hk)] at hlook'

theorem Sound.drop (hstep : step P h (.drop conn) = .ok (h', out)) :
    Sound P (⟨h, .drop conn, out⟩ :: hist) h' := by
  have hsame : Sound P (⟨h, .drop conn, out⟩ :: hist) h := o.unchanged rfl
  simp only [step] at hstep
  cases hlook : h.handlers.lookup conn with
  | none =>
    rw [hlook] at hstep
    cases hstep
    exact hsame
  | some handler =>
    rw [hlook] at hstep
    cases hstep
    refine ⟨o.valid, ?_, ?_, hsame.last⟩
    · intro conn' handler' hlook'
      rw [Table.lookup_insert_if] at hlook'
      split at hlook'
      · next heq =>
        rw [heq]
        exact o.numbered conn handler hlook
      · exact o.numbered conn' handler' hlook'
    · intro name conn'
      rw [Table.lookup_insert_if]
      split
      · next heq =>
        subst heq
        rw [o.served name conn', hlook]
        constructor
        · rintro ⟨reading, heq⟩
          cases heq
          exact ⟨false, rfl⟩
        · rintro ⟨reading, heq⟩
          cases heq
          exact ⟨handler.reading, rfl⟩
      · exact o.served name conn'

/-- The deferred function of one connection leaves every other connection in the table. -/
theorem Sound.cleanup (hstep : step P h (.cleanup conn) = .ok (h', out)) :
    Sound P (⟨h, .cleanup conn, out⟩ :: hist) h' ∧
      ∀ name conn', conn' ≠ conn → h.sn.wssConnections.lookup name = some conn' →
        h'.sn.wssConnections.lookup name = some conn' := by
  have hsame : Sound P (⟨h, .cleanup conn, out⟩ :: hist) h := o.unchanged rfl
  simp only [step] at hstep
  split at hstep
  · next connID hserved =>
    cases hstep
    have hown := (o.served connID conn).mpr ⟨false, hserved⟩
    refine ⟨⟨o.valid, ?_, ?_, ?_⟩, ?_⟩
    · intro conn' handler hlook
      rw [Table.lookup_erase_if] at hlook
      split at hlook
      · cases hlook
      · exact o.numbered conn' handler hlook
    · intro name conn'
      show (h.sn.wssConnections.erase connID).lookup name = some conn' ↔
        ∃ reading, (h.handlers.erase conn).lookup conn' = some ⟨name, reading⟩
      rw [Table.lookup_erase_if, Table.lookup_erase_if]
      by_cases hc : conn' = conn
      · subst hc
        rw [if_pos rfl]
        refine iff_of_false ?_ (by simp)
        split
        · simp
        · next hne =>
          intro hlook
          obtain ⟨reading, hlook⟩ := (o.served name conn').mp hlook
          rw [hserved] at hlook
          cases hlook
          exact hne rfl
      · rw [if_neg hc]
        split
        · next heq =>
          subst heq
          refine iff_of_false (by simp) ?_
          rintro ⟨reading, hlook⟩
          exact hc (o.conn_eq hlook hserved)
        · exact o.served name conn'
    · intro ref hk hconn
      obtain ⟨conn', hlast, honly⟩ := hsame.last ref hk hconn
      refine ⟨conn', hlast, fun conn'' hlook => honly conn'' ?_⟩
      have hlook' : (h.sn.wssConnections.erase connID).lookup (h.sn.edges.cell ref).wssConnID =
        some conn'' := hlook
      rw [Table.lookup_erase_if] at hlook'
      split at hlook'
      · cases hlook'
      · exact hlook'
    · intro name conn' hne hlook
      show (h.sn.wssConnections.erase connID).lookup name = some conn'
      rw [Table.lookup_erase_if, if_neg, hlook]
      rintro rfl
      rw [hown] at hlook
      exact hne (Option.some.inj hlook).symm
  · cases hstep
    exact ⟨hsame, fun _ _ _ hlook => hlook⟩

/-- A packet keeps the invariant if the connection it came over is the one its sender's
name leads to. -/
theorem Sound.packet {env : Env} {packet : Bytes} {addr : NetAddr} {sn : Supernode}
    (via : Option ConnRef)
    (ht : t.before.registered P t.event = (registeredRef P env h.sn packet addr).map (·, via))
    (hstep : Supernode.step P h.sn (.packet env packet addr) = .ok (sn, out))
    (hvia : ∀ r ref edge, newRawMessage packet addr = .ok (.ok r) →
      r.header.packetType = typeRegisterRequest →
      edge.wssConnID = [] ∨ h.sn.senderRecord r = some (h.sn.edges.cell ref) ∧
        edge.wssConnID = (h.sn.edges.cell ref).wssConnID →
      (withConn addr edge).wssConnID ≠ [] → ∃ conn, via = some conn ∧
        ∀ conn', h.sn.wssConnections.lookup (withConn addr edge).wssConnID = some conn' →
          conn' = conn) : Sound P (t :: hist) { h with sn := sn } := by
  have hsetup := sameSetup_processPacket hstep
  have hvalid : sn.registry.Valid hashCommunity := by
    obtain ⟨ops, hrun, -⟩ := step_registry o.valid hstep
    exact o.valid.run hrun
  rcases processPacket_connections o.valid hstep with
    ⟨hnone, hall⟩ | ⟨r, ref0, hraw, hsome, hothers, edge, hcell, hedge⟩
  · refine o.lift _ via ht hvalid hsetup.wssConnections (fun ref _ => hall ref) fun ref heq => ?_
    rw [hnone] at heq
    cases heq
  · refine o.lift _ via ht hvalid hsetup.wssConnections (fun ref hne => hothers ref ?_) fun ref heq => ?_
    · rintro rfl
      exact hne hsome
    · rw [hsome] at heq
      cases heq
      obtain ⟨r', reg, s1, cm, hraw', hmsg, -⟩ := exists_of_registeredRef hsome
      rw [hraw] at hraw'
      cases hraw'
      rw [hcell, hsetup.wssConnections]
      exact hvia r ref0 edge hraw (packetType_of_toMessage hmsg) hedge

theorem Sound.received {env : Env} {packet : Bytes}
    (hstep : step P h (.received env conn packet) = .ok (h', out)) :
    Sound P (⟨h, .received env conn packet, out⟩ :: hist) h' := by
  simp only [step] at hstep
  split at hstep
  · next connID hserved =>
    obtain ⟨⟨sn, out1⟩, hpacket, heq⟩ := bind_eq_ok.mp hstep
    cases heq
    have ht : h.registered P (.received env conn packet) =
        (registeredRef P env h.sn packet (.wss connID)).map (·, some conn) := by
      simp only [registered, hserved]
    refine o.packet _ ht hpacket fun r ref edge _ _ _ _ => ⟨conn, rfl, fun conn' hlook => ?_⟩
    have hown := (o.served connID conn).mpr ⟨true, hserved⟩
    exact Option.some.inj (hlook.symm.trans hown)
  · cases hstep
    exact o.unchanged (by simp only [registered])

theorem Sound.datagram {env : Env} {packet : Bytes} {addr : Net.UDPAddr}
    (hadm : FreshNames h (.datagram env packet addr))
    (hstep : step P h (.datagram env packet addr) = .ok (h', out)) :
    Sound P (⟨h, .datagram env packet addr, out⟩ :: hist) h' := by
  obtain ⟨⟨sn, out1⟩, hpacket, heq⟩ := bind_eq_ok.mp hstep
  cases heq
  refine o.packet none rfl hpacket fun r ref edge hraw htype hedge hconn => ?_
  refine absurd ?_ hconn
  rcases hedge with hempty | ⟨hsome, hname⟩
  · exact hempty
  · exact hname.trans (hadm r _ hraw htype hsome)

theorem Sound.expire {env : Env} (hstep : step P h (.expire env) = .ok (h', out)) :
    Sound P (⟨h, .expire env, out⟩ :: hist) h' := by
  obtain ⟨⟨sn, out1⟩, hexpire, heq⟩ := bind_eq_ok.mp hstep
  cases heq
  obtain ⟨ops, hrun, -⟩ := cleanupStaleEdges_run hexpire
  exact o.lift none none rfl (o.valid.run hrun)
    (sameSetup_cleanupStaleEdges hexpire).wssConnections
    (fun ref _ => Preserves.cleanupStaleEdges hexpire ref) (fun ref heq => by cases heq)

end

/-! ## The result -/

theorem sound_initial (h0 : Initial h) : Sound P [] h := by
  obtain ⟨hsn, hhandlers, -⟩ := h0
  obtain ⟨config, netAllocator, pem, noCommunity, noEdge, noPool, hnew⟩ := id hsn
  refine ⟨valid_initial hsn, ?_, ?_, ?_⟩
  · intro conn handler hlook
    rw [hhandlers] at hlook
    cases hlook
  · intro name conn
    rw [hhandlers, hnew]
    exact iff_of_false (fun hlook => by cases hlook) (by rintro ⟨_, hlook⟩; cases hlook)
  · intro ref hk
    have hlt := hk.lt (valid_initial hsn)
    rw [hnew] at hlt
    exact absurd hlt (Nat.not_lt_zero _)

theorem Sound.step (o : Sound P hist h) (hadm : FreshNames h ev)
    (hstep : step P h ev = .ok (h', out)) : Sound P (⟨h, ev, out⟩ :: hist) h' := by
  cases ev with
  | accept tls remoteAddr => exact o.accept hadm hstep
  | drop conn => exact o.drop hstep
  | cleanup conn => exact (o.cleanup hstep).1
  | received env conn packet => exact o.received hstep
  | datagram env packet addr => exact o.datagram hadm hstep
  | expire env => exact o.expire hstep

theorem sound_of_trace (htrace : Trace (Hub.step P) Initial FreshNames hist h) : Sound P hist h :=
  htrace.invariant (fun _ => sound_initial) fun _ _ _ _ _ o => o.step

end Hub

/-- **Packets stay on the connection of the last registration**, and the end of one
connection leaves the others in the table, as long as the names of connections are fresh.
GOLINE: supernode/wire.go:55-82, supernode/supernode.go:289-370 -/
theorem wss_delivery_stays (P : Platform) (hist : List (Taken Hub Hub.Event (List Sent))) (h : Hub)
    (htrace : Trace (Hub.step P) Hub.Initial Hub.FreshNames hist h) :
    (∀ ref, h.sn.registry.Known ref → (h.sn.edges.cell ref).wssConnID ≠ [] →
      ∃ conn, Hub.lastRegistered P hist ref = some (some conn) ∧
        Hub.StaysOn h.sn (h.sn.edges.cell ref) conn) ∧
    ∀ conn h' out, Hub.step P h (.cleanup conn) = .ok (h', out) →
      ∀ name conn', conn' ≠ conn → h.sn.wssConnections.lookup name = some conn' →
        h'.sn.wssConnections.lookup name = some conn' := by
  have o := Hub.sound_of_trace htrace
  refine ⟨fun ref hk hconn => o.staysOn hk hconn, fun conn h' out hstep => ?_⟩
  exact (o.cleanup hstep).2

/-! ## One address, two connections -/

def Hub.start : Hub := ⟨Sample.start, ∅, 0⟩

theorem Hub.initial_start : Hub.Initial Hub.start := ⟨⟨_, _, _, _, _, _, rfl⟩, rfl, rfl⟩

/-- A client connects. -/
def Hub.connected : Hub :=
  { sn := { Sample.start with wssConnections := (∅ : Table Bytes ConnRef).insert (ascii "ws-a") 0 }
    handlers := (∅ : Table ConnRef Handler).insert 0 ⟨ascii "ws-a", true⟩
    nextConn := 1 }

theorem Hub.connected_trace : Trace (Hub.step Sample.platform) Hub.Initial Hub.FreshNames
    [⟨Hub.start, .accept false (ascii "a"), []⟩] Hub.connected := by
  refine .step (.init Hub.initial_start) ⟨?_, fun ref hk => ?_⟩ rfl
  · intro conn handler hlook
    cases hlook
  · exact absurd (hk.lt (valid_initial Hub.initial_start.1)) (Nat.not_lt_zero _)

/-- The client registers machine `m` in `c`, loses its connection and connects again from the
same address. -/
def reconnects : List Hub.Event :=
  [.accept false (ascii "a"), .received Sample.env 0 registrationPacket, .drop 0,
    .accept false (ascii "a")]

/-- Machine `m` is indexed under the first record, which was last registered over `conn`. -/
def indexedOver (hist : List (Taken Hub Hub.Event (List Sent))) (h : Hub) (conn : ConnRef) : Bool :=
  decide (h.sn.edgesByMAC.lookup (macText "c" "m") = some 0 ∧
    (h.sn.edges.cell 0).wssConnID = ascii "ws-a" ∧
    Hub.lastRegistered Sample.platform hist 0 = some (some conn))

/-- Packets for the client stay on its only connection. -/
theorem wss_delivery_stays_connected :
    ∃ hist h, Trace (Hub.step Sample.platform) Hub.Initial Hub.FreshNames hist h ∧
      (h.sn.edges.cell 0).wssConnID = ascii "ws-a" ∧
      Hub.StaysOn h.sn (h.sn.edges.cell 0) 0 := by
  obtain ⟨⟨h, out⟩, hstep, htest⟩ := exists_of_passes
    (x := Hub.step Sample.platform Hub.connected (.received Sample.env 0 registrationPacket))
    (p := fun res => indexedOver [⟨Hub.connected, .received Sample.env 0 registrationPacket, res.2⟩,
      ⟨Hub.start, .accept false (ascii "a"), []⟩] res.1 0) (by decide +kernel)
  obtain ⟨hkey, hname, hlast⟩ := of_decide_eq_true htest
  have htrace := Hub.connected_trace.step (show Hub.FreshNames _ (.received _ _ _) from trivial) hstep
  obtain ⟨conn, hlast', hstays⟩ := (wss_delivery_stays Sample.platform _ h htrace).1 0
    (Or.inr ⟨_, hkey⟩) (by rw [hname]; decide)
  rw [hlast] at hlast'
  cases hlast'
  exact ⟨_, h, htrace, hname, hstays⟩

/-- The client's packets move to the new connection, although only the old one has seen a
registration. When the goroutine of the old connection ends, the new connection is no longer
in the table. -/
theorem wss_delivery_moves :
    ∃ hist h h' out, Trace (Hub.step Sample.platform) Hub.Initial (fun _ _ => True) hist h ∧
      h.sn.registry.Known 0 ∧ (h.sn.edges.cell 0).wssConnID ≠ [] ∧
      Hub.lastRegistered Sample.platform hist 0 = some (some 0) ∧
      ¬ Hub.StaysOn h.sn (h.sn.edges.cell 0) 0 ∧
      Hub.step Sample.platform h (.cleanup 0) = .ok (h', out) ∧ h.Live 1 ∧
      h.sn.wssConnections.lookup (ascii "ws-a") = some 1 ∧
      h'.sn.wssConnections.lookup (ascii "ws-a") = none := by
  obtain ⟨⟨hist, h⟩, hrun, htest⟩ := (Option.any_eq_true _ _).mp
    (show (traceAllowed (Hub.step Sample.platform) (fun _ _ => true) [] Hub.start reconnects).any
      (fun res => indexedOver res.1 res.2 0 &&
        decide (res.2.sn.wssConnections.lookup (ascii "ws-a") = some 1 ∧
          res.2.handlers.lookup 1 = some ⟨ascii "ws-a", true⟩) &&
        Passes (Hub.step Sample.platform res.2 (.cleanup 0)) fun res' =>
          decide (res'.1.sn.wssConnections.lookup (ascii "ws-a") = none)) = true by
      decide +kernel)
  obtain ⟨htest, hcleanup⟩ := Bool.and_eq_true_iff.mp htest
  obtain ⟨hindexed, htable⟩ := Bool.and_eq_true_iff.mp htest
  obtain ⟨hkey, hname, hlast⟩ := of_decide_eq_true hindexed
  obtain ⟨hlook, hlive⟩ := of_decide_eq_true htable
  obtain ⟨⟨h', out⟩, hcleanup, hgone⟩ := exists_of_passes hcleanup
  have hne : (h.sn.edges.cell 0).wssConnID ≠ [] := by
    rw [hname]
    decide
  refine ⟨hist, h, h', out, .of_traceAllowed (fun _ _ _ => trivial) (.init Hub.initial_start) hrun,
    Or.inr ⟨_, hkey⟩, hne, hlast, fun hstays => ?_, hcleanup, ⟨_, hlive⟩, hlook,
    of_decide_eq_true hgone⟩
  -- one byte that is no ProtoV packet goes to the second connection
  have hroute : h.sn.route (h.sn.edges.cell 0) = some (.wss 1) := by
    rw [route, if_pos hne, hname, hlook]
    rfl
  obtain ⟨err, hfwd, herr⟩ := forwardPacket_of_ne_versionV Sample.env h.sn [] (h.sn.edges.cell 0)
    (show (0 : UInt8) ≠ versionV by decide) []
  have hok : err = .ok () := herr.mpr (by simp [attempt, hroute, Sample.env])
  rcases hstays _ _ _ _ hfwd with ⟨e, he⟩ | ⟨x, hx, hdest⟩
  · rw [hok] at he
    cases he
  · obtain rfl := List.singleton_inj.mp hx
    exact absurd (hroute.symm.trans hdest) (by decide)

end N2nGo.Supernode
