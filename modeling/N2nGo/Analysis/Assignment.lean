import N2nGo.Analysis.Connections
import N2nGo.Analysis.Recovery
import N2nGo.Model.Assignment

/-!
# The address of an edge and of its record

The supernode answers a registration with the address in the record, and shows the other
edges the address in the record. `InitialRegister` takes the address over from the answer;
`handleRegisterResponseMessage`, which gets the answers to later registrations, does not.
As long as those carry the address that the edge has, and nothing else goes wrong between
an answer and the edge, edge and record agree (`address_agreement`).
-/

set_option autoImplicit false

namespace N2nGo

open N2nGo.Lib N2nGo.Protocol N2nGo.Messages

/-! ## Registrations and their answers -/

namespace Supernode

/-- Whose record it is, and its address. -/
def tenancy (edge : Edge) : Bytes × Bytes × Net.Addr × ℕ :=
  (edge.macAddr, edge.community, edge.virtualIP, edge.vNetMaskLen)

section Packets

variable {P : Platform} {env : Env} {s s' : Supernode} {packet : Bytes} {addr : NetAddr}
  {out : List Sent} {ref : EdgeRef}

theorem registerEdge_owner (v : s.registry.Valid hashCommunity) {r : RawMessage}
    {reg : Message RegisterRequest} {s1 : Supernode} {cm : CommunityRef}
    (hmsg : toMessage P.codecs.registerRequest r = .ok reg)
    (h : registerEdge P env s reg = .ok (s1, .ok (ref, cm))) :
    (s1.edges.cell ref).macAddr = r.edgeMACAddr ∧
      hashCommunity (s1.edges.cell ref).community = r.communityHash := by
  obtain rfl : reg.toRawMessage = r := toMessage_ok hmsg
  rcases registerEdge_ok h with ⟨⟨e, he⟩, -⟩ | ⟨cm', s0, hcommunity, hcases⟩
  · cases he
  obtain ⟨v0, hgroup⟩ := known_registerCommunity v hcommunity
  rcases hcases with ⟨⟨e, he⟩, -⟩ | ⟨id, -, ⟨vip, -, hres, henroll⟩ | ⟨ref', hmember, hres, hwrite⟩⟩
  · cases he
  · cases hres
    have hrec : s1.edges.cell s0.edges.next = newEdge env (s0.cms.cell cm)
        { reg with msg := { reg.msg with clearMachineId := id } } vip := by
      show s1.registry.record s0.registry.records = _
      rw [henroll]
      simp [Registry.enroll]
    rw [hrec]
    exact ⟨rfl, v0.group_hash hgroup⟩
  · cases hres
    have hlisted : s0.registry.Listed cm reg.edgeMACAddr ref := ⟨⟨_, hgroup⟩, hmember⟩
    have hrec : s1.edges.cell ref = reRegistered env (s0.registry.record ref) reg := by
      show s1.registry.record ref = _
      rw [hwrite]
      exact Function.update_self ..
    rw [hrec]
    refine ⟨v0.listed_key hlisted, ?_⟩
    exact (congrArg hashCommunity (v0.listed_home hlisted)).trans (v0.group_hash hgroup)

/-- **What a packet does to the tenancies.** Only an accepted registration changes one, the
sender's, and it is answered with the address in the record. -/
theorem processPacket_tenants (v : s.registry.Valid hashCommunity)
    (h : processPacket P env s packet addr = .ok (s', out)) (ref : EdgeRef) :
    Preserves tenancy s s' ref ∨
      ∃ r reg s2 out1 err, newRawMessage packet addr = .ok (.ok r) ∧
        toMessage P.codecs.registerRequest r = .ok reg ∧
        (s'.edges.cell ref).macAddr = r.edgeMACAddr ∧
        hashCommunity (s'.edges.cell ref).community = r.communityHash ∧
        s2.wssConnections = s.wssConnections ∧ s'.registry.Known ref ∧
        sendStruct P.codecs.registerResponse env s2 [] (Recovery.answerFor (s'.edges.cell ref))
          reg.msg.communityName addr = .ok (out1, err) ∧ ∀ x ∈ out1, x ∈ out := by
  cases hreg : registeredRef P env s packet addr with
  | some ref0 =>
    obtain ⟨r, reg, s1, cm, hraw, hmsg, hreg1⟩ := exists_of_registeredRef hreg
    obtain ⟨out1, err, hhandle, hout⟩ := processPacket_message hraw h
    obtain ⟨f, out2, err2, haccepted, err3, hsend⟩ := handleRegisterMessage_accepted hmsg hreg1 rfl
    rw [handle_register (packetType_of_toMessage hmsg), haccepted] at hhandle
    cases hhandle
    by_cases hne : ref = ref0
    · subst hne
      have hfrom : r.fromAddr = addr := by
        obtain ⟨-, rfl⟩ := newRawMessage_ok hraw
        rfl
      obtain ⟨hmac, hcommunity⟩ := registerEdge_owner (s := s.counted) v hmsg hreg1
      have hcell := cell_indexed s1 ref r.fromAddr
      have hsetup := (sameSetup_registerEdge hreg1).trans (sameSetup_indexed s1 ref r.fromAddr)
      refine Or.inr ⟨r, reg, _, out2, err3, hraw, hmsg, ?_, ?_, hsetup.wssConnections,
        Recovery.known_indexEdge (s1.setWSSConnID ref r.fromAddr) ref, ?_, ?_⟩
      · exact (congrArg Edge.macAddr hcell).trans ((macAddr_withConn _ _).trans hmac)
      · refine (congrArg (fun edge => hashCommunity edge.community) hcell).trans ?_
        simp only [community_withConn]
        exact hcommunity
      · rw [← hfrom]
        exact hsend
      · intro x hx
        rcases hout with rfl | hask
        · exact List.mem_append_left _ hx
        · obtain ⟨xs, rfl, -⟩ := askForRegistration_ok hask
          exact List.mem_append_left _ (List.mem_append_left _ hx)
    · exact Or.inl (Preserves.registered (s := s.counted) v hreg1 r.fromAddr hne)
  | none =>
    refine Or.inl ?_
    rcases processPacket_ok h with rfl | ⟨r, out1, err, hraw, hhandled, -⟩
    · exact .of_registry_eq rfl ref
    · refine hhandled.preserves (s := s.counted) (fun _ _ _ => rfl) v (fun reg s1 ref cm hmsg hreg1 => ?_) ref
      rw [registeredRef_eq_some hraw hmsg hreg1] at hreg
      cases hreg

end Packets

/-! ## Connections have names of their own -/

theorem string_ne_connName (a : Net.UDPAddr) (tls : Bool) (remoteAddr : Bytes) :
    a.string ≠ connName tls remoteAddr := by
  intro heq
  have hhead : a.string.head? = some 119 := by
    rw [heq]
    cases tls <;> rfl
  rcases Net.head_string a hhead with hdigit | hmem
  · cases hdigit
  · revert hmem
    decide

namespace Hub

/-- The registry is valid, and every known connection has the name its listener gave it. -/
structure Tidy (h : Hub) : Prop where
  valid : h.sn.registry.Valid hashCommunity
  names : ∀ connID conn, h.sn.wssConnections.lookup connID = some conn →
    ∃ tls remoteAddr, connID = connName tls remoteAddr

variable {P : Platform} {h h' : Hub} {ev : Event} {out : List Sent}

/-- The packet that the event hands to `ProcessPacket`.
GOLINE: supernode/supernode.go:107-131, 332-371 -/
def packetOf (h : Hub) : Event → Option (Env × Bytes × NetAddr)
  | .received env conn packet =>
    match h.handlers.lookup conn with
    | some ⟨connID, true⟩ => some (env, packet, .wss connID)
    | _ => none
  | .datagram env packet addr => some (env, packet, .udp addr)
  | _ => none

/-- What an event does to the supernode: it processes a packet, removes stale edges, or
changes the table of connections.
GOLINE: supernode/supernode.go:274-371 -/
inductive Moved (P : Platform) (h : Hub) (ev : Event) (h' : Hub) (out : List Sent) : Prop where
  | packet (env : Env) (packet : Bytes) (addr : NetAddr) :
      h.packetOf ev = some (env, packet, addr) →
      processPacket P env h.sn packet addr = .ok (h'.sn, out) → Moved P h ev h' out
  | expired (env : Env) : cleanupStaleEdges P env h.sn = .ok (h'.sn, out) → Moved P h ev h' out
  | connections : h'.sn.registry = h.sn.registry →
      (∀ connID conn, h'.sn.wssConnections.lookup connID = some conn →
        h.sn.wssConnections.lookup connID = some conn ∨ ∃ tls remoteAddr, connID = connName tls remoteAddr) →
      Moved P h ev h' out

theorem step_moved (hstep : step P h ev = .ok (h', out)) : Moved P h ev h' out := by
  cases ev with
  | accept tls remoteAddr =>
    cases hstep
    refine .connections rfl fun connID conn hlook => ?_
    rw [Table.lookup_insert_if] at hlook
    split at hlook
    · next heq => exact Or.inr ⟨tls, remoteAddr, heq⟩
    · exact Or.inl hlook
  | drop conn =>
    refine .connections ?_ fun connID conn hlook => Or.inl ?_
    all_goals
      unfold step at hstep
      simp only at hstep
      split at hstep
      all_goals cases hstep
    · rfl
    · rfl
    · exact hlook
    · exact hlook
  | cleanup conn =>
    unfold step at hstep
    simp only at hstep
    split at hstep
    · cases hstep
      refine .connections rfl fun connID conn hlook => Or.inl ?_
      rw [Table.lookup_erase_if] at hlook
      split at hlook
      · cases hlook
      · exact hlook
    · cases hstep
      exact .connections rfl fun connID conn hlook => Or.inl hlook
  | received env conn packet =>
    unfold step at hstep
    simp only at hstep
    split at hstep
    · next connID hhandler =>
      obtain ⟨⟨sn, out1⟩, hpacket, heq⟩ := bind_eq_ok.mp hstep
      cases heq
      refine .packet env packet (.wss connID) ?_ hpacket
      simp only [packetOf, hhandler]
    · cases hstep
      exact .connections rfl fun connID conn hlook => Or.inl hlook
  | datagram env packet addr =>
    obtain ⟨⟨sn, out1⟩, hpacket, heq⟩ := bind_eq_ok.mp hstep
    cases heq
    exact .packet env packet (.udp addr) rfl hpacket
  | expire env =>
    obtain ⟨⟨sn, out1⟩, hexpire, heq⟩ := bind_eq_ok.mp hstep
    cases heq
    exact .expired env hexpire

theorem Tidy.step (o : h.Tidy) (hstep : step P h ev = .ok (h', out)) : h'.Tidy := by
  have hsame : SameSetup h.sn h'.sn → ∀ connID conn,
      h'.sn.wssConnections.lookup connID = some conn →
        ∃ tls remoteAddr, connID = connName tls remoteAddr := by
    intro hsetup connID conn hlook
    rw [hsetup.wssConnections] at hlook
    exact o.names connID conn hlook
  cases step_moved hstep with
  | packet env packet addr _ hpacket =>
    obtain ⟨ops, hrun, -⟩ := step_registry o.valid
      (show Supernode.step P h.sn (.packet env packet addr) = .ok (h'.sn, out) from hpacket)
    exact ⟨o.valid.run hrun, hsame (sameSetup_processPacket hpacket)⟩
  | expired env hexpire =>
    obtain ⟨ops, hrun, -⟩ := cleanupStaleEdges_run hexpire
    exact ⟨o.valid.run hrun, hsame (sameSetup_cleanupStaleEdges hexpire)⟩
  | connections hregistry hnames =>
    refine ⟨by rw [hregistry]; exact o.valid, fun connID conn hlook => ?_⟩
    rcases hnames connID conn hlook with hlook | hname
    · exact o.names connID conn hlook
    · exact hname

theorem tidy_initial (h0 : Supernode.Initial h.sn) : h.Tidy := by
  refine ⟨valid_initial h0, fun connID conn hlook => ?_⟩
  obtain ⟨config, netAllocator, pem, noCommunity, noEdge, noPool, hnew⟩ := h0
  rw [hnew] at hlook
  cases hlook

end Hub

end Supernode

namespace Assignment

open EdgeClient (assigned positive)
open Recovery (Holds Conveyed CarriesRecords holds_pack)

/-! ## An answer on its way -/

section Answers

open Supernode

variable {P : Supernode.Platform} {env : Supernode.Env} {s : Supernode} {out : List Sent}
  {addr : NetAddr} {link : Dest}

/-- What is sent to the address is written to the link. -/
def LeadsTo (s : Supernode) : NetAddr → Dest → Prop
  | .udp a, link => link = .udp a ∧ s.wssConnections.lookup a.string = none
  | .wss connID, link => ∃ conn, s.wssConnections.lookup connID = some conn ∧ link = .wss conn

theorem mem_downlink {x : Sent} (hx : x ∈ out) (hdest : x.dest = some link) (hok : x.ok = true) :
    x.packet ∈ downlink link out := by
  unfold downlink
  refine List.mem_map.mpr ⟨x, List.mem_filter.mpr ⟨hx, ?_⟩, rfl⟩
  exact Bool.and_eq_true_iff.mpr ⟨decide_eq_true hdest, hok⟩

theorem route_of_findWSSEdge {target : Edge} (hlink : LeadsTo s addr link)
    (h : s.findWSSEdge env addr = some target) : s.route target = some link := by
  have htest := List.find?_some h
  simp only [ne_eq, decide_not, Bool.decide_and, Bool.and_eq_true, Bool.not_eq_true',
    decide_eq_false_iff_not, decide_eq_true_eq] at htest
  obtain ⟨hname, hlive, haddr⟩ := htest
  cases addr with
  | udp a =>
    rw [haddr, show (NetAddr.udp a).string = a.string from rfl, hlink.2] at hlive
    cases hlive
  | wss connID =>
    obtain ⟨conn, hlook, rfl⟩ := hlink
    unfold route
    rw [if_pos hname, haddr, show (NetAddr.wss connID).string = connID from rfl, hlook]
    rfl

/-- **An answer is under way to the edge**, if it can be written. -/
theorem sendStruct_downlink {T : Type} [PacketTyped T] {codec codec' : Codec T}
    {p : T} (hcarried : Conveyed codec codec' p) (hlink : LeadsTo s addr link)
    (hok : ∀ n dest data, env.writeOk n dest data = true) {name : Bytes}
    {err : Except Supernode.Err Unit}
    (h : sendStruct codec env s [] p name addr = .ok (out, err)) :
    ∃ x ∈ out, x.dest = some link ∧ x.ok = true ∧ Holds codec' x.packet p := by
  obtain ⟨payload, hencode, hdecode⟩ := hcarried
  have hholds : Holds codec' (packProtoVDatagram (snHeader env (PacketTyped.packetType T) name) payload) p :=
    holds_pack rfl rfl hdecode
  unfold sendStruct at h
  simp only [hencode] at h
  cases hfind : s.findWSSEdge env addr with
  | some target =>
    -- the packet carries the flag already
    have hroute := route_of_findWSSEdge hlink hfind
    have hversion : (snHeader env (PacketTyped.packetType T) name).version = versionV := rfl
    obtain ⟨err', hfwd, -⟩ := forwardPacket_of_isProtoV env s [] target (isProtoV_pack hversion payload)
    rw [hfind] at h
    simp only [hfwd] at h
    cases h
    refine ⟨_, List.mem_singleton_self _, hroute, ?_, ?_⟩
    · simp only [attempt, hroute, Option.map_some, Option.getD_some, hok]
    · show Holds codec' (withSupernodeFlag _) p
      rw [withSupernodeFlag_pack hversion]
      exact holds_pack rfl rfl hdecode
  | none =>
    rw [hfind] at h
    cases addr with
    | udp a =>
      obtain ⟨rfl, -⟩ := hlink
      simp only [writeToUDP, hok, List.nil_append] at h
      cases h
      exact ⟨_, List.mem_singleton_self _, rfl, rfl, hholds⟩
    | wss connID =>
      obtain ⟨conn, hlook, rfl⟩ := hlink
      simp only [hlook, hok, List.nil_append] at h
      cases h
      exact ⟨_, List.mem_singleton_self _, rfl, rfl, hholds⟩

end Answers

/-! ## Runs that keep the address -/

/-- The record is the edge's: it has its MAC and is of its community. -/
def Owns (c : Assignment) (edge : Edge) : Prop :=
  edge.macAddr = Net.hardwareAddrString c.edge.macAddr.bytes ∧
    hashCommunity edge.community = hashCommunity c.edge.community

/-- The packet is a request to register the edge. -/
def Registers (P : Supernode.Platform) (c : Assignment) (packet : Bytes) (addr : NetAddr) : Prop :=
  ∃ r reg, newRawMessage packet addr = .ok (.ok r) ∧
    toMessage P.codecs.registerRequest r = .ok reg ∧
    r.edgeMACAddr = Net.hardwareAddrString c.edge.macAddr.bytes ∧
    r.communityHash = hashCommunity c.edge.community

/-- A positive answer that a running edge reads carries the address the edge has. -/
def Confirms (Q : EdgeClient.Platform) (c : Assignment) (packet : Bytes) (addr : NetAddr) : Prop :=
  c.stage = .running → ∀ response, positive Q packet addr = some response →
    assigned response = c.virtualIP

/-- The steps that keep the address: later answers carry the address the edge has; a request
to register the edge comes from the edge, and its answer can be written to the edge; and no
positive answer is lost. -/
def Steady (P : Supernode.Platform) (Q : EdgeClient.Platform) (c : Assignment) : Event → Prop
  | .reads _ i addr => ∀ packet, c.toEdge[i]? = some packet → Confirms Q c packet addr
  | .hears _ packet addr => Confirms Q c packet addr
  | .arrives env i => ∀ packet, c.toSN[i]? = some packet →
      ∀ env' packet' addr, c.hub.packetOf (arrival env packet c.link) = some (env', packet', addr) →
        Registers P c packet' addr →
        (∀ n dest data, env'.writeOk n dest data = true) ∧
          ∀ connID, addr = .wss connID → ∃ conn, c.link = .wss conn ∧
            c.hub.sn.wssConnections.lookup connID = some conn
  | .elsewhere ev => ∀ env packet addr, c.hub.packetOf ev = some (env, packet, addr) →
      ¬ Registers P c packet addr
  | .loseToEdge i => ∀ packet, c.toEdge[i]? = some packet → ∀ addr, positive Q packet addr = none
  | .disconnected => ∀ packet ∈ c.toEdge, ∀ addr, positive Q packet addr = none
  | _ => True

/-- An edge that has not registered yet, a supernode that has just started, and nothing under
way. -/
structure Starting (c : Assignment) : Prop where
  stage : c.stage = .starting
  virtualIP : c.virtualIP = []
  processed : c.processed = none
  initial : Supernode.Initial c.hub.sn
  toEdge : c.toEdge = []

/-- The address as the supernode shows it to the other edges, with the length of the mask.
GOLINE: supernode/edge.go:43-52 -/
def shownAddress (edge : Edge) : Bytes := edge.peerInfo.virtualIp ++ 47 :: Net.itoa edge.vNetMaskLen

/-- A positive answer with this address is under way to the edge. -/
def InFlight (Q : EdgeClient.Platform) (c : Assignment) (address : Bytes) : Prop :=
  ∃ packet ∈ c.toEdge, ∃ response, Holds Q.codecs.registerResponse packet response ∧
    response.isRegisterOk = true ∧ assigned response = address

/-- What every steady run keeps: the edge has the address of the last answer, and a record of
the edge has this address or its answer is under way. -/
structure Sound (Q : EdgeClient.Platform) (c : Assignment) : Prop where
  tidy : c.hub.Tidy
  installed : ∀ response, c.processed = some response → c.virtualIP = assigned response
  unset : c.stage = .starting ∨ c.stage = .registering → c.virtualIP = []
  shown : ∀ ref, c.hub.sn.registry.Known ref → c.Owns (c.hub.sn.edges.cell ref) →
    c.virtualIP = shownAddress (c.hub.sn.edges.cell ref) ∨
      InFlight Q c (shownAddress (c.hub.sn.edges.cell ref))

section Runs

variable {P : Supernode.Platform} {Q : EdgeClient.Platform} {c c' : Assignment} {packet : Bytes}
  {addr : NetAddr} {response : RegisterResponse}

theorem positive_of_holds (h : Holds Q.codecs.registerResponse packet response)
    (hok : response.isRegisterOk = true) (addr : NetAddr) : positive Q packet addr = some response := by
  obtain ⟨r, m, hraw, hm, rfl⟩ := h addr
  unfold positive
  simp only [hraw, hm, hok, if_true]

/-- Nothing that matters has changed: a record is as before or its answer is under way, and
no positive answer is gone. -/
theorem Sound.frame (o : Sound Q c) (htidy : c'.hub.Tidy) (hvip : c'.virtualIP = c.virtualIP)
    (hprocessed : c'.processed = c.processed)
    (hstage : c'.stage = .starting ∨ c'.stage = .registering →
      c.stage = .starting ∨ c.stage = .registering)
    (hmac : c'.edge.macAddr = c.edge.macAddr) (hcommunity : c'.edge.community = c.edge.community)
    (hkept : ∀ ref, Supernode.Preserves Supernode.tenancy c.hub.sn c'.hub.sn ref ∨
      (c'.Owns (c'.hub.sn.edges.cell ref) → InFlight Q c' (shownAddress (c'.hub.sn.edges.cell ref))))
    (hflight : ∀ packet ∈ c.toEdge, (∃ response, positive Q packet (.wss []) = some response) →
      packet ∈ c'.toEdge) : Sound Q c' where
  tidy := htidy
  installed response h := hvip.trans (o.installed response (hprocessed ▸ h))
  unset h := hvip.trans (o.unset (hstage h))
  shown ref hk howns := by
    rcases hkept ref with hpreserves | hanswered
    swap
    · exact Or.inr (hanswered howns)
    obtain ⟨hk0, hsame⟩ := hpreserves hk
    obtain ⟨hrmac, hrest⟩ := Prod.mk.inj hsame
    obtain ⟨hrcommunity, hrest⟩ := Prod.mk.inj hrest
    obtain ⟨hrvip, hrmask⟩ := Prod.mk.inj hrest
    have howns0 : c.Owns (c.hub.sn.edges.cell ref) := by
      refine ⟨?_, ?_⟩
      · rw [← hrmac, ← hmac]
        exact howns.1
      · rw [← hrcommunity, ← hcommunity]
        exact howns.2
    have haddress : shownAddress (c'.hub.sn.edges.cell ref) = shownAddress (c.hub.sn.edges.cell ref) := by
      simp only [shownAddress, Edge.peerInfo, hrvip, hrmask]
    rw [haddress, hvip]
    rcases o.shown ref hk0 howns0 with hshown | ⟨packet, hmem, response, hholds, hok, hassigned⟩
    · exact Or.inl hshown
    · exact Or.inr ⟨packet, hflight packet hmem ⟨response, positive_of_holds hholds hok _⟩, response,
        hholds, hok, hassigned⟩

theorem Sound.sameHub (o : Sound Q c) (hhub : c'.hub = c.hub) (hvip : c'.virtualIP = c.virtualIP)
    (hprocessed : c'.processed = c.processed)
    (hstage : c'.stage = .starting ∨ c'.stage = .registering →
      c.stage = .starting ∨ c.stage = .registering)
    (hmac : c'.edge.macAddr = c.edge.macAddr) (hcommunity : c'.edge.community = c.edge.community)
    (hflight : ∀ packet ∈ c.toEdge, (∃ response, positive Q packet (.wss []) = some response) →
      packet ∈ c'.toEdge) : Sound Q c' := by
  have hregistry : c'.hub.sn.registry = c.hub.sn.registry := by rw [hhub]
  refine o.frame ?_ hvip hprocessed hstage hmac hcommunity (fun ref => Or.inl ?_) hflight
  · rw [hhub]
    exact o.tidy
  · exact .of_registry_eq hregistry ref

theorem Sound.edge (o : Sound Q c) {e : EdgeClient} (out : List EdgeClient.Output)
    (h : EdgeClient.SameHost c.edge e) : Sound Q (c.afterEdge e out) :=
  o.sameHub rfl rfl rfl id h.macAddr h.community fun _ hmem _ => hmem

theorem shownAddress_ne_nil (edge : Edge) : shownAddress edge ≠ [] := by
  unfold shownAddress
  simp

/-- What `InitialRegister` makes of a packet: it takes the address of a positive answer, and
fails on any other packet. -/
theorem initialAnswer_ok {e e' : EdgeClient} {virtualIP virtualIP' : Bytes}
    {err : Except EdgeClient.SetupErr Unit}
    (h : e.initialAnswer Q virtualIP packet addr = .ok (e', virtualIP', err)) :
    (e'.macAddr = e.macAddr ∧ e'.community = e.community) ∧
      ((positive Q packet addr = none ∧ virtualIP' = virtualIP) ∨
        ∃ response, positive Q packet addr = some response ∧ virtualIP' = assigned response) := by
  have hnone : ∀ {err'}, (e, virtualIP, Except.error err') = (e', virtualIP', err) →
      positive Q packet addr = none →
      (e'.macAddr = e.macAddr ∧ e'.community = e.community) ∧
        ((positive Q packet addr = none ∧ virtualIP' = virtualIP) ∨
          ∃ response, positive Q packet addr = some response ∧ virtualIP' = assigned response) := by
    intro err' heq hpositive
    cases heq
    exact ⟨⟨rfl, rfl⟩, Or.inl ⟨hpositive, rfl⟩⟩
  unfold EdgeClient.initialAnswer at h
  split at h
  · next hshort =>
    refine hnone (Except.ok.inj h) ?_
    unfold positive
    split
    · next hraw =>
      obtain ⟨⟨hlen, -⟩, -⟩ := newRawMessage_ok hraw
      omega
    · rfl
  · obtain ⟨raw, hraw, h⟩ := bind_eq_ok.mp h
    cases raw with
    | error err => exact hnone (Except.ok.inj h) (by simp only [positive, hraw])
    | ok r =>
      simp only at h
      cases hmsg : toMessage Q.codecs.registerResponse r with
      | error err =>
        rw [hmsg] at h
        exact hnone (Except.ok.inj h) (by simp only [positive, hraw, hmsg])
      | ok rresp =>
        rw [hmsg] at h
        simp only at h
        split at h
        · next hnack =>
          exact hnone (Except.ok.inj h) (by simp only [positive, hraw, hmsg, hnack]; rfl)
        · next hack =>
          have hpositive : positive Q packet addr = some rresp.msg := by
            simp only [positive, hraw, hmsg, not_not.mp hack, if_true]
          split at h
          · cases h
            exact ⟨⟨rfl, rfl⟩, Or.inr ⟨_, hpositive, rfl⟩⟩
          · cases h
            exact ⟨⟨rfl, rfl⟩, Or.inr ⟨_, hpositive, rfl⟩⟩

/-- **A packet that the edge reads.** The first answer brings the address, a later one finds
it there. -/
theorem Sound.read (o : Sound Q c) {env : EdgeClient.Env} {toEdge : List Bytes}
    (hreading : c.stage = .registering ∨ c.stage = .running)
    (hsub : ∀ d ∈ c.toEdge, d ∈ toEdge ∨ d = packet) (hconfirms : Confirms Q c packet addr)
    (h : read Q env { c with toEdge := toEdge } packet addr = .ok c') : Sound Q c' := by
  have hrest : ∀ {a}, InFlight Q c a →
      (∃ d ∈ toEdge, ∃ response, Holds Q.codecs.registerResponse d response ∧
        response.isRegisterOk = true ∧ assigned response = a) ∨
      ∃ response, positive Q packet addr = some response ∧ assigned response = a := by
    rintro a ⟨d, hmem, response, hholds, hok, hassigned⟩
    rcases hsub d hmem with hmem | rfl
    · exact Or.inl ⟨d, hmem, response, hholds, hok, hassigned⟩
    · exact Or.inr ⟨response, positive_of_holds hholds hok addr, hassigned⟩
  unfold Assignment.read at h
  rcases hreading with hstage | hstage
  · simp only [hstage] at h
    obtain ⟨⟨e, virtualIP, err⟩, hanswer, h⟩ := bind_eq_ok.mp h
    cases h
    have hunset : c.virtualIP = [] := o.unset (Or.inr hstage)
    obtain ⟨⟨hmac, hcommunity⟩, hcases⟩ := initialAnswer_ok hanswer
    refine ⟨o.tidy, fun response hresponse => ?_, fun hstarting => ?_, fun ref hk howns => ?_⟩
    · rcases hcases with ⟨hnone, rfl⟩ | ⟨response', hsome, rfl⟩
      · rw [hnone] at hresponse
        exact o.installed response hresponse
      · rw [hsome] at hresponse
        cases hresponse
        rfl
    · cases err with
      | ok u => rcases hstarting with hs | hs <;> cases hs
      | error err => rcases hstarting with hs | hs <;> cases hs
    · have howns' : c.Owns (c.hub.sn.edges.cell ref) :=
        ⟨howns.1.trans (by rw [hmac]), howns.2.trans (by rw [hcommunity])⟩
      rcases o.shown ref hk howns' with hshown | hflight
      · rw [hunset] at hshown
        exact absurd hshown.symm (shownAddress_ne_nil _)
      · rcases hrest hflight with hflight | ⟨response, hpositive, hassigned⟩
        · exact Or.inr hflight
        · rcases hcases with ⟨hnone, -⟩ | ⟨response', hsome, rfl⟩
          · rw [hnone] at hpositive
            cases hpositive
          · rw [hsome] at hpositive
            cases hpositive
            exact Or.inl hassigned
  · simp only [hstage] at h
    obtain ⟨⟨e, out⟩, hhandle, h⟩ := bind_eq_ok.mp h
    cases h
    have hsame := Recovery.handlePacket_sameHost hhandle
    refine ⟨o.tidy, fun response hresponse => ?_, fun hstarting => ?_, fun ref hk howns => ?_⟩
    · cases hpositive : positive Q packet addr with
      | none =>
        rw [hpositive] at hresponse
        exact o.installed response hresponse
      | some response' =>
        rw [hpositive] at hresponse
        cases hresponse
        exact (hconfirms hstage _ hpositive).symm
    · rcases hstarting with hs | hs <;> cases hs
    · have howns' : c.Owns (c.hub.sn.edges.cell ref) :=
        ⟨howns.1.trans (congrArg (fun mac => Net.hardwareAddrString mac.bytes) hsame.macAddr),
          howns.2.trans (congrArg hashCommunity hsame.community)⟩
      rcases o.shown ref hk howns' with hshown | hflight
      · exact Or.inl hshown
      · rcases hrest hflight with hflight | ⟨response, hpositive, hassigned⟩
        · exact Or.inr hflight
        · exact Or.inl ((hconfirms hstage response hpositive).symm.trans hassigned)

/-- **An event at the supernode.** A registration of the edge is answered to the edge. -/
theorem Sound.hub {h : Supernode.Hub} (hPQ : CarriesRecords P Q h.sn)
    (o : Sound Q c) {ev : Supernode.Hub.Event} {out : List Supernode.Sent}
    (toSN : List Bytes)
    (hreg : ∀ env packet addr, c.hub.packetOf ev = some (env, packet, addr) →
      Registers P c packet addr → (∀ n dest data, env.writeOk n dest data = true) ∧
        ∀ s : Supernode, s.wssConnections = c.hub.sn.wssConnections → LeadsTo s addr c.link)
    (hstep : c.hub.step P ev = .ok (h, out)) :
    Sound Q ({ c with toSN := toSN }.afterHub h out) := by
  refine o.frame (o.tidy.step hstep) rfl rfl id rfl rfl (fun ref => ?_)
    fun _ hmem _ => List.mem_append_left _ hmem
  cases Supernode.Hub.step_moved hstep with
  | expired env hexpire => exact Or.inl (.cleanupStaleEdges hexpire ref)
  | connections hregistry _ => exact Or.inl (.of_registry_eq hregistry ref)
  | packet env packet addr hpacket hprocess =>
    rcases Supernode.processPacket_tenants o.tidy.valid hprocess ref with hpreserves |
      ⟨r, reg, s2, out1, err, hraw, hmsg, hmac, hcommunity, hwss, hk, hsend, hsub⟩
    · exact Or.inl hpreserves
    · refine Or.inr fun howns => ?_
      obtain ⟨hok, hlink⟩ := hreg env packet addr hpacket
        ⟨r, reg, hraw, hmsg, hmac.symm.trans howns.1, hcommunity.symm.trans howns.2⟩
      obtain ⟨x, hx, hdest, hxok, hholds⟩ := sendStruct_downlink (hPQ ref hk) (hlink s2 hwss) hok hsend
      exact ⟨x.packet, List.mem_append_right _ (mem_downlink (hsub x hx) hdest hxok), _, hholds, rfl, rfl⟩

theorem leadsTo_of_arrival (o : c.hub.Tidy) {env env' : Supernode.Env} {packet' : Bytes}
    (hpacket : c.hub.packetOf (arrival env packet c.link) = some (env', packet', addr))
    (hconn : ∀ connID, addr = .wss connID → ∃ conn, c.link = .wss conn ∧
      c.hub.sn.wssConnections.lookup connID = some conn) {s : Supernode}
    (hwss : s.wssConnections = c.hub.sn.wssConnections) : LeadsTo s addr c.link := by
  cases hlink : c.link with
  | udp a =>
    rw [hlink] at hpacket
    cases hpacket
    refine ⟨rfl, ?_⟩
    rw [hwss]
    cases hlook : c.hub.sn.wssConnections.lookup a.string with
    | none => rfl
    | some conn =>
      obtain ⟨tls, remoteAddr, hname⟩ := o.names _ _ hlook
      exact absurd hname (Supernode.string_ne_connName a tls remoteAddr)
  | wss conn =>
    rw [hlink] at hpacket
    simp only [arrival, Supernode.Hub.packetOf] at hpacket
    split at hpacket
    · cases hpacket
      obtain ⟨conn', hlink', hlook⟩ := hconn _ rfl
      rw [hlink] at hlink'
      exact ⟨conn', hwss ▸ hlook, hlink'⟩
    · cases hpacket

theorem Sound.step (hPQ : CarriesRecords P Q c'.hub.sn)
    (o : Sound Q c) {ev : Event} {u : Unit} (hadm : Steady P Q c ev)
    (h : step P Q c ev = .ok (c', u)) : Sound Q c' := by
  cases ev with
  | initialRegister env =>
    unfold Assignment.step at h
    simp only at h
    split at h
    · next hstage =>
      obtain ⟨⟨e, out, err⟩, hsend, h⟩ := bind_eq_ok.mp h
      cases h
      obtain ⟨seq, -, rfl, -⟩ := EdgeClient.requestRegister_ok hsend
      exact o.sameHub rfl rfl rfl (fun _ => Or.inl hstage) rfl rfl fun _ hmem _ => hmem
    · cases h
      exact o
  | timeout =>
    cases h
    split
    · refine o.sameHub rfl rfl rfl (fun hs => ?_) rfl rfl fun _ hmem _ => hmem
      rcases hs with hs | hs <;> cases hs
    · exact o
  | heartbeat env =>
    unfold Assignment.step at h
    simp only at h
    split at h
    · obtain ⟨⟨e, out, err⟩, hsend, h⟩ := bind_eq_ok.mp h
      cases h
      exact o.edge out (EdgeClient.sameLogin_sendHeartbeat hsend).toSameHost
    · cases h
      exact o
  | p2pInfos env =>
    unfold Assignment.step at h
    simp only at h
    split at h
    · obtain ⟨⟨e, out, err⟩, hsend, h⟩ := bind_eq_ok.mp h
      cases h
      exact o.edge out (EdgeClient.sameLogin_sendP2PInfos hsend).toSameHost
    · cases h
      exact o
  | pings env =>
    unfold Assignment.step at h
    simp only at h
    split at h
    · cases h
      exact o.edge _ (EdgeClient.sameLogin_handleP2PUpdates Q env c.edge).toSameHost
    · cases h
      exact o
  | frame env frameBuf n =>
    unfold Assignment.step at h
    simp only at h
    split at h
    · obtain ⟨⟨e, out⟩, htap, h⟩ := bind_eq_ok.mp h
      cases h
      exact o.edge out (EdgeClient.sameLogin_handleTAP htap).toSameHost
    · cases h
      exact o
  | reads env i addr =>
    unfold Assignment.step at h
    simp only at h
    split at h
    · cases h
      exact o
    · next packet hi =>
      split at h
      · next hreading =>
        obtain ⟨c1, hread, h⟩ := bind_eq_ok.mp h
        cases h
        exact o.read hreading (fun d hd => Recovery.mem_eraseIdx_or_eq hd hi) (hadm packet hi) hread
      · cases h
        exact o
  | hears env packet addr =>
    obtain ⟨c1, hread, h⟩ := bind_eq_ok.mp h
    cases h
    by_cases hreading : c.stage = .registering ∨ c.stage = .running
    · exact o.read hreading (fun d hd => Or.inl hd) hadm hread
    · obtain ⟨hregistering, hrunning⟩ := not_or.mp hreading
      unfold Assignment.read at hread
      simp only at hread
      cases hread
      exact o
  | arrives env i =>
    unfold Assignment.step at h
    simp only at h
    split at h
    · cases h
      exact o
    · next packet hi =>
      obtain ⟨⟨hub, out⟩, hstep, h⟩ := bind_eq_ok.mp h
      cases h
      refine o.hub hPQ _ (fun env' packet' addr hpacket hreg => ?_) hstep
      obtain ⟨hok, hconn⟩ := hadm packet hi env' packet' addr hpacket hreg
      exact ⟨hok, fun s hwss => leadsTo_of_arrival o.tidy hpacket hconn hwss⟩
  | elsewhere ev =>
    obtain ⟨⟨hub, out⟩, hstep, h⟩ := bind_eq_ok.mp h
    cases h
    exact o.hub hPQ c.toSN (fun env packet addr hpacket hreg =>
      absurd hreg (hadm env packet addr hpacket)) hstep
  | loseToSN i =>
    cases h
    exact o.sameHub rfl rfl rfl id rfl rfl fun _ hmem _ => hmem
  | loseToEdge i =>
    cases h
    refine o.sameHub rfl rfl rfl id rfl rfl fun d hmem hpositive => ?_
    refine Recovery.mem_eraseIdx_of_ne hmem fun hi => ?_
    obtain ⟨response, hpositive⟩ := hpositive
    rw [hadm d hi] at hpositive
    cases hpositive
  | rebind addr =>
    cases h
    split
    · exact o
    · exact o.sameHub rfl rfl rfl id rfl rfl fun _ hmem _ => hmem
  | disconnected =>
    cases h
    split
    · refine o.sameHub rfl rfl rfl id rfl rfl fun d hmem hpositive => ?_
      obtain ⟨response, hpositive⟩ := hpositive
      rw [hadm d hmem] at hpositive
      cases hpositive
    · exact o
  | reconnected env conn =>
    unfold Assignment.step at h
    simp only at h
    split at h
    · obtain ⟨⟨e, out, err⟩, hsend, h⟩ := bind_eq_ok.mp h
      cases h
      have hsame := (EdgeClient.sameLogin_sendStruct hsend).toSameHost
      exact o.sameHub rfl rfl rfl id hsame.macAddr hsame.community fun _ hmem _ => hmem
    · cases h
      exact o
  | restart config netAllocator pem noCommunity noEdge noPool =>
    cases h
    have hinitial : Supernode.Initial (.newSupernodeWithConfig config netAllocator pem noCommunity
      noEdge noPool) := ⟨_, _, _, _, _, _, rfl⟩
    refine o.frame (Supernode.Hub.tidy_initial hinitial) rfl rfl id rfl rfl (fun ref => Or.inl ?_)
      fun _ hmem _ => hmem
    intro hk
    exact absurd (hk.lt (Supernode.valid_initial hinitial)) (Nat.not_lt_zero _)

theorem Starting.sound (h : Starting c) : Sound Q c where
  tidy := Supernode.Hub.tidy_initial h.initial
  installed response hresponse := by
    rw [h.processed] at hresponse
    cases hresponse
  unset _ := h.virtualIP
  shown ref hk _ := by
    have hlt := hk.lt (Supernode.valid_initial h.initial)
    obtain ⟨config, netAllocator, pem, noCommunity, noEdge, noPool, hnew⟩ := h.initial
    rw [hnew] at hlt
    exact absurd hlt (Nat.not_lt_zero _)

end Runs

/-! ## Agreement -/

/-- When the edge has processed a positive answer and none is under way, it has the address of
that answer, and so has every record that the community shows for its MAC. -/
def Agrees (Q : EdgeClient.Platform) (c : Assignment) : Prop :=
  ∀ response, c.processed = some response →
    (∀ packet ∈ c.toEdge, ∀ addr, positive Q packet addr = none) →
    c.virtualIP = assigned response ∧
      ∀ cm ref, c.hub.sn.communities.lookup (hashCommunity c.edge.community) = some cm →
        (c.hub.sn.cms.cell cm).edges.lookup (Net.hardwareAddrString c.edge.macAddr.bytes) = some ref →
        c.virtualIP = shownAddress (c.hub.sn.edges.cell ref)

/-- **Edge and supernode agree on the address**, in every run in which later answers carry the
address that the edge has and no answer goes astray.
GOLINE: edge/setup.go:254-301, edge/handlers.go:46-65, supernode/handlers.go:138-141 -/
theorem address_agreement (P : Supernode.Platform) (Q : EdgeClient.Platform)
    (hPQ : ∀ c, Reach (step P Q) Starting (Steady P Q) c → CarriesRecords P Q c.hub.sn)
    (c : Assignment) (h : Reach (step P Q) Starting (Steady P Q) c) : Agrees Q c := by
  have o : Sound Q c := by
    induction h with
    | init h0 => exact h0.sound
    | step hreach hadm hstep o => exact o.step (hPQ _ (hreach.step hadm hstep)) hadm hstep
  intro response hresponse hnone
  refine ⟨o.installed response hresponse, fun cm ref hcm hmember => ?_⟩
  have hlisted : c.hub.sn.registry.Listed cm (Net.hardwareAddrString c.edge.macAddr.bytes) ref :=
    ⟨⟨_, hcm⟩, hmember⟩
  have howns : c.Owns (c.hub.sn.edges.cell ref) := by
    refine ⟨o.tidy.valid.listed_key hlisted, ?_⟩
    exact (congrArg hashCommunity (o.tidy.valid.listed_home hlisted)).trans (o.tidy.valid.group_hash hcm)
  rcases o.shown ref (Or.inl ⟨_, _, hlisted⟩) howns with hshown |
    ⟨packet, hmem, response', hholds, hok, -⟩
  · exact hshown
  · have hpositive := positive_of_holds hholds hok (.wss [])
    rw [hnone packet hmem] at hpositive
    cases hpositive

/-! ## A supernode that restarts -/

section Examples

open Recovery (exchangeSN exchangeEdge carried_registerResponse)

/-- Machine `m` of `c` is about to register. -/
def unregistered : Assignment where
  edge := (Sample.edge "c" "m" false []).withKey []
  virtualIP := []
  stage := .starting
  hub := ⟨Sample.start, ∅, 0⟩
  link := .udp ⟨[192, 168, 0, 1], 1000, []⟩
  toSN := []
  toEdge := []
  processed := none

theorem starting_unregistered : Starting unregistered :=
  ⟨rfl, rfl, rfl, ⟨_, _, _, _, _, _, rfl⟩, rfl⟩

def snAddr : NetAddr := .udp ⟨[192, 168, 0, 254], 7777, []⟩

/-- The edge registers, and the supernode is started again. -/
def registersOnce : List Event :=
  [.initialRegister Sample.edgeEnv, .arrives Sample.env 0, .reads Sample.edgeEnv 0 snAddr,
    .restart ⟨true, 100⟩ ⟨[10, 0, 0, 0], [255, 0, 0, 0]⟩ [] Sample.noCommunity Sample.noEdge ⟨[], ∅⟩]

/-- The heartbeat is answered with a request to register; the edge asks for the key and
registers again. -/
def registersAgain : List Event :=
  [.heartbeat Sample.edgeEnv, .arrives Sample.env 0, .reads Sample.edgeEnv 0 snAddr,
    .arrives Sample.env 0, .reads Sample.edgeEnv 0 snAddr, .arrives Sample.env 0,
    .reads Sample.edgeEnv 0 snAddr]

/-- Machine `n` of `c` registers from another address. -/
def otherRegisters : Event :=
  .elsewhere (.datagram Sample.env
    (packProtoVDatagram (Sample.header typeRegisterRequest (ascii "c") (ascii "n") MacID.zero)
      (Sample.putStrings [[], [], ascii "c", ascii "n", []])) ⟨[192, 168, 0, 2], 1000, []⟩)

/-- A test for steady steps over UDP. -/
def steadyTest (Q : EdgeClient.Platform) (c : Assignment) : Event → Bool
  | .reads _ i addr => c.toEdge[i]?.all fun packet =>
      decide (c.stage ≠ .running) || (positive Q packet addr).all fun response =>
        decide (assigned response = c.virtualIP)
  | .arrives _ _ => match c.link with
    | .udp _ => true
    | .wss _ => false
  | .initialRegister _ | .heartbeat _ | .restart _ _ _ _ _ _ => true
  | _ => false

theorem steady_of_steadyTest {P : Supernode.Platform} {Q : EdgeClient.Platform} {c : Assignment}
    {ev : Event} (henv : ∀ env i, ev = .arrives env i → env = Sample.env)
    (h : steadyTest Q c ev = true) : Steady P Q c ev := by
  cases ev with
  | reads env i addr =>
    intro packet hi hstage response hpositive
    simp only [steadyTest, hi, Option.all_some, hstage, hpositive, ne_eq, not_true_eq_false,
      decide_false, Bool.false_or, decide_eq_true_eq] at h
    exact h
  | arrives env i =>
    intro packet hi env' packet' addr hpacket _
    rw [henv env i rfl] at hpacket
    cases hlink : c.link with
    | udp a =>
      rw [hlink] at hpacket
      cases hpacket
      exact ⟨fun _ _ _ => rfl, fun connID heq => by cases heq⟩
    | wss conn =>
      simp only [steadyTest, hlink, Bool.false_eq_true] at h
  | initialRegister env => trivial
  | heartbeat env => trivial
  | restart _ _ _ _ _ _ => trivial
  | _ => cases h

/-- The restarted supernode gives the edge the address it had. -/
theorem address_agreement_same_address :
    ∃ c, Reach (step exchangeSN exchangeEdge) Starting (Steady exchangeSN exchangeEdge) c ∧
      c.processed = some ⟨true, ascii "10.0.0.1", 8⟩ ∧ c.toEdge = [] ∧
      c.hub.sn.communities.lookup (hashCommunity c.edge.community) = some 0 ∧
      (c.hub.sn.cms.cell 0).edges.lookup (Net.hardwareAddrString c.edge.macAddr.bytes) = some 0 ∧
      Agrees exchangeEdge c := by
  obtain ⟨c, hrun, htest⟩ := (Option.any_eq_true _ _).mp
    (show (runAllowed (step exchangeSN exchangeEdge) (steadyTest exchangeEdge) unregistered
        (registersOnce ++ registersAgain)).any (fun c =>
      decide (c.processed = some ⟨true, ascii "10.0.0.1", 8⟩ ∧ c.toEdge = [] ∧
        c.hub.sn.communities.lookup (hashCommunity c.edge.community) = some 0 ∧
        (c.hub.sn.cms.cell 0).edges.lookup (Net.hardwareAddrString c.edge.macAddr.bytes) =
          some 0)) = true by decide +kernel)
  obtain ⟨hprocessed, hedge, hcm, hmember⟩ := of_decide_eq_true htest
  have hreach : Reach (step exchangeSN exchangeEdge) Starting (Steady exchangeSN exchangeEdge) c := by
    refine .of_runAllowed_mem (fun c ev hev htest => steady_of_steadyTest (fun env i heq => ?_) htest)
      (.init starting_unregistered) hrun
    subst heq
    have henv : env = Sample.env ∧ i = 0 := by simpa [registersOnce, registersAgain] using hev
    exact henv.1
  exact ⟨c, hreach, hprocessed, hedge, hcm, hmember,
    address_agreement _ _ (fun _ _ _ _ => carried_registerResponse _) c hreach⟩

/-- Machine `n` registers first after the restart and gets 10.0.0.1. Machine `m` is answered
with 10.0.0.2 and goes on with 10.0.0.1. -/
theorem address_disagreement :
    ∃ c, Reach (step exchangeSN exchangeEdge) Starting (fun _ _ => True) c ∧ c.toEdge = [] ∧
      c.processed = some ⟨true, ascii "10.0.0.2", 8⟩ ∧ c.virtualIP = ascii "10.0.0.1/8" ∧
      ¬ Agrees exchangeEdge c := by
  obtain ⟨c, hrun, htest⟩ := exists_of_passes
    (x := runEvents (step exchangeSN exchangeEdge) unregistered
      (registersOnce ++ otherRegisters :: registersAgain))
    (p := fun c => decide (c.toEdge = [] ∧ c.processed = some ⟨true, ascii "10.0.0.2", 8⟩ ∧
      c.virtualIP = ascii "10.0.0.1/8")) (by decide +kernel)
  obtain ⟨hedge, hprocessed, hvip⟩ := of_decide_eq_true htest
  refine ⟨c, Reach.of_runEvents (.init starting_unregistered) hrun, hedge, hprocessed, hvip, ?_⟩
  intro hagrees
  have hnone : ∀ packet ∈ c.toEdge, ∀ addr, positive exchangeEdge packet addr = none := by
    rw [hedge]
    exact fun _ hmem => absurd hmem List.not_mem_nil
  have hsame := (hagrees _ hprocessed hnone).1
  rw [hvip] at hsame
  revert hsame
  decide

end Examples

end Assignment

end N2nGo
