import N2nGo.Analysis.Contact
import N2nGo.Analysis.Isolation

/-!
# The fast path of an edge that moves

`handleVFuze` finds the sender of a packet in `edgesBySocket`, by its address. Only a
registration enters an edge there; a heartbeat from a new address changes the address in
the record and nothing else. So, as long as nobody is removed, an address leads to the
edge that last registered with it (`lookup_iff_lastEntered`), and an edge that moves and
sends only heartbeats cannot use the fast path.
-/

set_option autoImplicit false

namespace N2nGo.Supernode

open N2nGo.Lib N2nGo.Protocol N2nGo.Messages

/-! ## Entries of the index -/

/-- The texts under which a record is entered in `edgesBySocket`.
GOLINE: supernode/handlers.go:131-135 -/
def socketKeys (edge : Edge) : List Bytes :=
  edge.udpAddr.string :: if edge.wssConnID ≠ [] then [edge.wssConnID] else []

/-- One step of the supernode. -/
abbrev SNTaken := Taken Supernode Event (List Sent)

/-- The step is an accepted registration that enters record `ref` under the text.
GOLINE: supernode/handlers.go:108-136 -/
def Enters (P : Platform) (key : Bytes) (ref : EdgeRef) (t : SNTaken) : Prop :=
  ∃ env packet addr r reg s1 cm, t.event = .packet env packet addr ∧
    newRawMessage packet addr = .ok (.ok r) ∧ toMessage P.codecs.registerRequest r = .ok reg ∧
    registerEdge P env t.before.counted reg = .ok (s1, .ok (ref, cm)) ∧
    key ∈ socketKeys (withConn r.fromAddr (s1.edges.cell ref))

/-- The last registration that entered an edge under the text was one of record `ref`. -/
def LastEntered (P : Platform) (key : Bytes) (ref : EdgeRef) (hist : List SNTaken) : Prop :=
  Lately (fun t => ∀ ref', Enters P key ref' t → ref' = ref) (fun t _ => Enters P key ref t) hist

/-- The event removes nobody. -/
def RemovesNobody (s : Supernode) : Event → Prop
  | .packet _ packet addr => ∀ r, newRawMessage packet addr = .ok (.ok r) →
      r.header.packetType ≠ typeUnregisterRequest
  | .cleanup env => staleEdges env s = []
  | _ => True

variable {r : RawMessage}

section Index

variable {P : Platform} {env : Env} {s s' : Supernode} {ev : Event} {out : List Sent} {key : Bytes}
  {ref ref' : EdgeRef} {hist : List SNTaken}

theorem lookup_indexEdge (s : Supernode) (ref : EdgeRef) (key : Bytes) :
    (s.indexEdge ref).edgesBySocket.lookup key =
      if key ∈ socketKeys (s.edges.cell ref) then some ref else s.edgesBySocket.lookup key := by
  unfold indexEdge socketKeys
  by_cases hconn : (s.edges.cell ref).wssConnID = []
  · simp only [hconn, ne_eq, not_true_eq_false, if_false, List.mem_singleton, Table.lookup_insert_if]
  · simp only [hconn, ne_eq, not_false_eq_true, if_true, List.mem_pair, Table.lookup_insert_if]
    by_cases hkey : key = (s.edges.cell ref).wssConnID <;> simp [hkey]

theorem byAddr_registerEdge {reg : Message RegisterRequest} {s1 : Supernode}
    {res : Except Err (EdgeRef × CommunityRef)} (h : registerEdge P env s reg = .ok (s1, res))
    (key : Bytes) : s1.edgesBySocket.lookup key = s.edgesBySocket.lookup key := by
  show s1.registry.byAddr key = s.registry.byAddr key
  rcases registerEdge_ok h with ⟨-, hsame⟩ | ⟨cm, s0, hcommunity, hcases⟩
  · rw [hsame]
  have hs0 : s0.registry.byAddr = s.registry.byAddr := by
    rcases registerCommunity_ok hcommunity with ⟨-, hsame⟩ | ⟨cm', -, -, ⟨rfl, -⟩ | ⟨-, -, hcreate⟩⟩
    · rw [hsame]
    · rfl
    · rw [hcreate]
      rfl
  rw [← hs0]
  rcases hcases with ⟨-, hsame⟩ | ⟨id, -, ⟨vip, -, -, henroll⟩ | ⟨ref, -, -, hwrite⟩⟩
  · rw [hsame]
  · rw [henroll]
    rfl
  · rw [hwrite]
    rfl

theorem byAddr_handled {err : Except Err Unit} (h : Handled P env s r s' out err)
    (htype : r.header.packetType ≠ typeUnregisterRequest)
    (hnone : ∀ reg s1 ref cm, toMessage P.codecs.registerRequest r = .ok reg →
      registerEdge P env s reg ≠ .ok (s1, .ok (ref, cm))) (key : Bytes) :
    s'.edgesBySocket.lookup key = s.edgesBySocket.lookup key := by
  cases h with
  | idle hidle _ => exact congrFun (congrArg Registry.byAddr hidle.registry_eq) key
  | refused f _ hreg _ => exact byAddr_registerEdge hreg key
  | registered f hmsg hreg _ _ => exact absurd hreg (hnone _ _ _ _ hmsg)
  | refreshed f _ _ _ _ => rfl
  | removed f hmsg _ _ _ _ => exact absurd (packetType_of_toMessage hmsg) htype

/-- What one step does to an entry of the index: a registration that enters a record under
the text overwrites it, and every other step keeps it. -/
theorem byAddr_step (hadm : RemovesNobody s ev) (h : step P s ev = .ok (s', out)) (key : Bytes) :
    (∃ ref, Enters P key ref ⟨s, ev, out⟩ ∧ (∀ ref', Enters P key ref' ⟨s, ev, out⟩ → ref' = ref) ∧
        s'.edgesBySocket.lookup key = some ref) ∨
      (∀ ref, ¬ Enters P key ref ⟨s, ev, out⟩) ∧
        s'.edgesBySocket.lookup key = s.edgesBySocket.lookup key := by
  cases ev with
  | connect connID conn =>
    cases h
    refine Or.inr ⟨?_, rfl⟩
    rintro ref ⟨env, packet, addr, r, reg, s1, cm, hev, -⟩
    cases hev
  | disconnect connID =>
    cases h
    refine Or.inr ⟨?_, rfl⟩
    rintro ref ⟨env, packet, addr, r, reg, s1, cm, hev, -⟩
    cases hev
  | cleanup env =>
    refine Or.inr ⟨?_, ?_⟩
    · rintro ref ⟨env, packet, addr, r, reg, s1, cm, hev, -⟩
      cases hev
    · have hstale : staleEdges env s = [] := hadm
      obtain ⟨⟨s1, out1⟩, hloop, h⟩ := bind_eq_ok.mp h
      rw [hstale] at hloop
      cases hloop
      cases h
      rfl
  | packet env packet addr =>
    by_cases hacc : ∃ r reg s1 ref cm, newRawMessage packet addr = .ok (.ok r) ∧
        toMessage P.codecs.registerRequest r = .ok reg ∧
        registerEdge P env s.counted reg = .ok (s1, .ok (ref, cm))
    · obtain ⟨r, reg, s1, ref, cm, hraw, hmsg, hreg⟩ := hacc
      have honly : ∀ ref', Enters P key ref' ⟨s, .packet env packet addr, out⟩ →
          ref' = ref ∧ key ∈ socketKeys (withConn r.fromAddr (s1.edges.cell ref)) := by
        rintro ref' ⟨env', packet', addr', r', reg', s1', cm', hev, hraw', hmsg', hreg', hkey⟩
        cases hev
        cases hraw.symm.trans hraw'
        cases hmsg.symm.trans hmsg'
        cases hreg.symm.trans hreg'
        exact ⟨rfl, hkey⟩
      -- the record is entered under its texts after the registration
      have hlook : s'.edgesBySocket.lookup key =
          if key ∈ socketKeys (withConn r.fromAddr (s1.edges.cell ref)) then some ref
          else s.edgesBySocket.lookup key := by
        obtain ⟨out1, err, hhandle, -⟩ := processPacket_message hraw h
        obtain ⟨f, out2, err2, haccepted, -⟩ := handleRegisterMessage_accepted hmsg hreg rfl
        rw [handle_register (packetType_of_toMessage hmsg), haccepted] at hhandle
        cases hhandle
        have hset : (s1.setWSSConnID ref r.fromAddr).edgesBySocket = s1.edgesBySocket := by
          cases r.fromAddr <;> rfl
        have hkept := byAddr_registerEdge hreg key
        show ((s1.setWSSConnID ref r.fromAddr).indexEdge ref).edgesBySocket.lookup key = _
        rw [lookup_indexEdge, ← cell_indexed, hset, hkept]
        rfl
      by_cases hkey : key ∈ socketKeys (withConn r.fromAddr (s1.edges.cell ref))
      · rw [if_pos hkey] at hlook
        exact Or.inl ⟨ref, ⟨env, packet, addr, r, reg, s1, cm, rfl, hraw, hmsg, hreg, hkey⟩,
          fun ref' hent => (honly ref' hent).1, hlook⟩
      · rw [if_neg hkey] at hlook
        exact Or.inr ⟨fun ref' hent => hkey (honly ref' hent).2, hlook⟩
    · refine Or.inr ⟨?_, ?_⟩
      · rintro ref ⟨env', packet', addr', r, reg, s1, cm, hev, hraw, hmsg, hreg, -⟩
        cases hev
        exact hacc ⟨r, reg, s1, ref, cm, hraw, hmsg, hreg⟩
      · rcases processPacket_ok h with rfl | ⟨r, out1, err, hraw, hhandled, -⟩
        · rfl
        · exact byAddr_handled hhandled (hadm r hraw)
            (fun reg s1 ref cm hmsg hreg => hacc ⟨r, reg, s1, ref, cm, hraw, hmsg, hreg⟩) key

/-- **An address leads to the edge that last registered with it**, as long as nobody is
removed. -/
theorem lookup_iff_lastEntered (h : Trace (step P) Initial RemovesNobody hist s) :
    s.edgesBySocket.lookup key = some ref ↔ LastEntered P key ref hist := by
  refine Trace.invariant (I := fun hist s =>
    s.edgesBySocket.lookup key = some ref ↔ LastEntered P key ref hist) ?_ ?_ h
  · rintro s ⟨config, netAllocator, pem, noCommunity, noEdge, noPool, rfl⟩
    refine iff_of_false (fun hlook => by cases hlook) ?_
    rintro ⟨newer, t, older, heq, -⟩
    cases newer <;> cases heq
  · intro hist s ev s' out ih hadm hstep
    rcases byAddr_step hadm hstep key with ⟨ref', hent, honly, hlook⟩ | ⟨hnone, hlook⟩
    · rw [hlook]
      constructor
      · rintro hsome
        cases hsome
        exact .here honly hent
      · intro hlast
        exact congrArg some ((lately_cons hlast).1 ref' hent)
    · rw [hlook, ih]
      constructor
      · intro hlast
        exact hlast.cons fun ref' hent => absurd hent (hnone ref')
      · intro hlast
        exact (lately_cons hlast).2.resolve_left (hnone ref)

end Index

/-! ## Contacts -/

section Contacts

variable {P : Platform} {env : Env} {s s' : Supernode} {out : List Sent} {ref : EdgeRef}

variable {a : Net.UDPAddr}

theorem length_string_lt_of_zone (h : a.zone ≠ []) :
    (Net.UDPAddr.string ⟨a.ip, a.port, []⟩).length < a.string.length := by
  have hpos : 0 < a.zone.length := List.length_pos_of_ne_nil h
  simp only [Net.UDPAddr.string, h, if_true, if_false]
  generalize (if a.ip = [] then [] else Net.ipString a.ip) = ip
  have hmono : ip.contains 58 = true → (ip ++ 37 :: a.zone).contains 58 = true := by
    rw [List.contains_iff_mem, List.contains_iff_mem]
    exact List.mem_append_left _
  rw [Net.length_joinHostPort, Net.length_joinHostPort, List.length_append, List.length_cons]
  by_cases hip : ip.contains 58 = true
  · rw [if_pos hip, if_pos (hmono hip)]
    omega
  · rw [if_neg hip]
    split
    · omega
    · omega

theorem string_ne_nil (a : Net.UDPAddr) : a.string ≠ [] := by
  unfold Net.UDPAddr.string
  generalize (if a.ip = [] then [] else Net.ipString a.ip) = ip
  simp only
  generalize (if a.zone = [] then ip else ip ++ 37 :: a.zone) = host
  unfold Net.joinHostPort
  split <;> simp

/-- The request enters its sender under the text of the address it came from: the address
has no zone, or the text is the name of the sender's connection.
GOLINE: supernode/edge.go:39-41, supernode/handlers.go:129-136 -/
def EntersSender (s : Supernode) (r : RawMessage) (a : Net.UDPAddr) : Prop :=
  r.header.packetType = typeRegisterRequest ∧
    (a.zone = [] ∨ ∃ edge, s.senderRecord r = some edge ∧ edge.wssConnID = a.string)

/-- Packets that arrive from `a` over the fast path are relayed as those of record `ref`.
GOLINE: supernode/handlers.go:243-271 -/
def RelaysFrom (s : Supernode) (a : Net.UDPAddr) (ref : EdgeRef) : Prop :=
  ∀ dst ref', s.config.enableVFuze = true →
    s.edgesByMAC.lookup (Net.hardwareAddrString dst) = some ref' →
    (s.edges.cell ref').community = (s.edges.cell ref).community →
    s.fastPathTarget dst (.udp a) = some (s.edges.cell ref')

theorem relaysFrom_of_lookup (h : s.edgesBySocket.lookup a.string = some ref) :
    RelaysFrom s a ref := by
  intro dst ref' hconfig hdst hsame
  unfold fastPathTarget
  rw [if_pos hconfig, hdst, show s.edgesBySocket.lookup (NetAddr.udp a).string = some ref from h]
  exact if_pos hsame

theorem mem_socketKeys_iff {reg : Message RegisterRequest} {s1 : Supernode} {cm : CommunityRef}
    (hmsg : toMessage P.codecs.registerRequest r = .ok reg)
    (hreg : registerEdge P env s reg = .ok (s1, .ok (ref, cm))) (haddr : r.fromAddr = .udp a) :
    a.string ∈ socketKeys (withConn r.fromAddr (s1.edges.cell ref)) ↔ EntersSender s r a := by
  have hzone : a.string = Net.UDPAddr.string ⟨a.ip, a.port, []⟩ ↔ a.zone = [] := by
    constructor
    · intro heq
      by_contra hne
      exact absurd (congrArg List.length heq) (Nat.ne_of_gt (length_string_lt_of_zone hne))
    · intro hz
      rw [← hz]
  have htype := packetType_of_toMessage hmsg
  have hfrom : reg.fromAddr = .udp a := (congrArg RawMessage.fromAddr (toMessage_ok hmsg)).trans haddr
  unfold EntersSender
  rcases registerEdge_record hmsg hreg with ⟨hnone, c, regMsg, vip, hfrom', hrec⟩ | ⟨hsome, hrec⟩
  · have hkeys : socketKeys (withConn r.fromAddr (s1.edges.cell ref)) =
        [Net.UDPAddr.string ⟨a.ip, a.port, []⟩] := by
      rw [hrec, haddr]
      simp [socketKeys, withConn, newEdge, Edge.udpAddr, hfrom', haddr, addrToIP, addrToPort]
    rw [hkeys, List.mem_singleton, hzone, hnone]
    simp [show r.header.packetType = typeRegisterRequest from htype]
  · have hkeys : socketKeys (withConn r.fromAddr (s1.edges.cell ref)) =
        Net.UDPAddr.string ⟨a.ip, a.port, []⟩ ::
          if (s.edges.cell ref).wssConnID ≠ [] then [(s.edges.cell ref).wssConnID] else [] := by
      rw [hrec, haddr]
      simp [socketKeys, withConn, reRegistered, Edge.udpAddr, hfrom, addrToIP, addrToPort]
    rw [hkeys, List.mem_cons, hzone, hsome]
    simp only [show r.header.packetType = typeRegisterRequest from htype, true_and,
      Option.some.injEq, exists_eq_left']
    refine or_congr_right ?_
    by_cases hconn : (s.edges.cell ref).wssConnID = []
    · simp [hconn, Ne.symm (string_ne_nil a)]
    · simp [hconn, eq_comm]

theorem Accepted.not_unregister (h : Accepted P env s r ref) :
    r.header.packetType ≠ typeUnregisterRequest := by
  cases h with
  | register hmsg _ =>
    rw [packetType_of_toMessage hmsg]
    decide
  | heartbeat hmsg _ _ _ _ =>
    rw [packetType_of_toMessage hmsg]
    decide

theorem enters_iff {packet : Bytes} {ref' : EdgeRef}
    (hraw : newRawMessage packet (.udp a) = .ok (.ok r)) (haddr : r.fromAddr = .udp a)
    (hacc : Accepted P env s.counted r ref) :
    Enters P a.string ref' ⟨s, .packet env packet (.udp a), out⟩ ↔
      ref' = ref ∧ EntersSender s r a := by
  cases hacc with
  | @register reg s1 _ cm hmsg hreg =>
    have hkeys : a.string ∈ socketKeys (withConn r.fromAddr (s1.edges.cell ref)) ↔
        EntersSender s.counted r a := mem_socketKeys_iff hmsg hreg haddr
    constructor
    · rintro ⟨env', packet', addr', r', reg', s1', cm', hev, hraw', hmsg', hreg', hkey⟩
      cases hev
      cases hraw.symm.trans hraw'
      cases hmsg.symm.trans hmsg'
      cases hreg.symm.trans hreg'
      exact ⟨rfl, hkeys.mp hkey⟩
    · rintro ⟨rfl, hsender⟩
      exact ⟨env, packet, .udp a, r, reg, s1, cm, rfl, hraw, hmsg, hreg, hkeys.mpr hsender⟩
  | heartbeat hmsg _ _ _ _ =>
    have htype : r.header.packetType ≠ typeRegisterRequest := by
      rw [packetType_of_toMessage hmsg]
      decide
    constructor
    · rintro ⟨env', packet', addr', r', reg', s1', cm', hev, hraw', hmsg', -⟩
      cases hev
      cases hraw.symm.trans hraw'
      exact absurd (packetType_of_toMessage hmsg') htype
    · rintro ⟨-, hregister, -⟩
      exact absurd hregister htype

/-- **The fast path follows a contact exactly when the edge has registered from there.** In a
run that removes nobody, message `r` from `a` is accepted as a registration or a heartbeat
of the edge with record `ref`. The index leads from `a` to that edge if and only if the
message is a registration that enters it, or the last registration entered under that
text was one of the edge; and then its packets are relayed.
GOLINE: supernode/handlers.go:108-175, 243-271, supernode/community.go:224-255 -/
theorem fastPath_follows_contact_iff (P : Platform) (env : Env) (hist : List SNTaken)
    (s s' : Supernode) (packet : Bytes) (a : Net.UDPAddr) (r : RawMessage) (ref : EdgeRef)
    (out : List Sent) (hs : Trace (step P) Initial RemovesNobody hist s)
    (hraw : newRawMessage packet (.udp a) = .ok (.ok r)) (hacc : Accepted P env s.counted r ref)
    (h : step P s (.packet env packet (.udp a)) = .ok (s', out)) :
    (s'.edgesBySocket.lookup a.string = some ref ↔
      EntersSender s r a ∨ LastEntered P a.string ref hist) ∧
    (EntersSender s r a ∨ LastEntered P a.string ref hist → RelaysFrom s' a ref) := by
  have haddr : r.fromAddr = .udp a := by
    obtain ⟨hp, rfl⟩ := newRawMessage_ok hraw
    rfl
  have hadm : RemovesNobody s (.packet env packet (.udp a)) := by
    intro r' hraw'
    cases hraw.symm.trans hraw'
    exact hacc.not_unregister
  have henters : ∀ ref', Enters P a.string ref' ⟨s, .packet env packet (.udp a), out⟩ ↔
      ref' = ref ∧ EntersSender s r a := fun ref' => enters_iff hraw haddr hacc
  have hiff : s'.edgesBySocket.lookup a.string = some ref ↔
      EntersSender s r a ∨ LastEntered P a.string ref hist := by
    rw [← lookup_iff_lastEntered hs]
    rcases byAddr_step hadm h a.string with ⟨ref', hent, -, hlook⟩ | ⟨hnone, hlook⟩
    · obtain ⟨rfl, hsender⟩ := (henters ref').mp hent
      exact iff_of_true hlook (Or.inl hsender)
    · have hsender : ¬ EntersSender s r a := fun hsender =>
        hnone ref ((henters ref).mpr ⟨rfl, hsender⟩)
      rw [hlook, or_iff_right hsender]
  exact ⟨hiff, fun hknown => relaysFrom_of_lookup (hiff.mpr hknown)⟩

end Contacts

/-! ## An edge that moves -/

/-- The address of a client. -/
def clientAddr (n : UInt8) : Net.UDPAddr := ⟨[192, 168, 0, n], 1000, []⟩

/-- A registration: the fast path can be used from its address. -/
theorem fastPath_follows_first_registration :
    ∃ s' out, step Sample.platform Sample.start (registers "c" "m" 1) = .ok (s', out) ∧
      s'.edgesBySocket.lookup (clientAddr 1).string = some 0 ∧ RelaysFrom s' (clientAddr 1) 0 := by
  obtain ⟨⟨s', out⟩, hstep, -⟩ := exists_of_passes
    (x := step Sample.platform Sample.start (registers "c" "m" 1)) (p := fun _ => true)
    (by decide +kernel)
  obtain ⟨hiff, hrelays⟩ := fastPath_follows_contact_iff Sample.platform Sample.env [] Sample.start s'
    registrationPacket (clientAddr 1) (registrationFrom (Sample.client 1)) 0 out
    (.init ⟨_, _, _, _, _, _, rfl⟩) (Sample.newRawMessage_request ..)
    (accepted_of_acceptsAs (by decide +kernel)) hstep
  have hsender : EntersSender Sample.start (registrationFrom (Sample.client 1)) (clientAddr 1) :=
    ⟨rfl, Or.inl rfl⟩
  exact ⟨s', out, hstep, hiff.mpr (Or.inl hsender), hrelays (Or.inl hsender)⟩

/-- A heartbeat of machine `m` in `c` that arrives from client 3. -/
def movedHeartbeat : RawMessage :=
  Sample.requestMessage typeHeartbeat (ascii "c") (ascii "m") (Sample.client 3)

def decodedHeartbeat : Message HeartbeatPulse :=
  { movedHeartbeat with msg := ⟨[], ascii "c", ascii "m", []⟩ }

/-- The heartbeat is accepted for the first record of community 0. -/
def acceptsMoved (s : Supernode) : Bool :=
  decide (s.getCommunity movedHeartbeat = .ok 0 ∧
    (s.cms.cell 0).edges.lookup movedHeartbeat.edgeMACAddr = some 0) &&
  (refreshEdge Sample.env s 0
    { decodedHeartbeat with msg := ⟨[], ascii "c", ascii "m", ascii "m"⟩ }).2.toOption.isSome

theorem accepted_of_acceptsMoved {s : Supernode} (h : acceptsMoved s = true) :
    Accepted Sample.platform Sample.env s movedHeartbeat 0 := by
  obtain ⟨hmember, hrefresh⟩ := Bool.and_eq_true_iff.mp h
  obtain ⟨hcm, hmember⟩ := of_decide_eq_true hmember
  have hmsg : toMessage Sample.platform.codecs.heartbeatPulse movedHeartbeat = .ok decodedHeartbeat :=
    toMessage_of_decode rfl rfl
  rcases hres : refreshEdge Sample.env s 0
      { decodedHeartbeat with msg := ⟨[], ascii "c", ascii "m", ascii "m"⟩ } with ⟨s1, e | changed⟩
  · rw [hres] at hrefresh
    cases hrefresh
  · exact .heartbeat hmsg hcm rfl hres hmember

/-- Machine `m` registers at client 1 and sends a heartbeat from client 3. The heartbeat is
accepted, but no packet from client 3 uses the fast path, not even to machine `n`, which
registered at client 2. -/
theorem fastPath_lost_after_heartbeat :
    ∃ hist s s' out, Trace (step Sample.platform) Initial RemovesNobody hist s ∧
      newRawMessage (Sample.request typeHeartbeat (ascii "c") (ascii "m")) (Sample.client 3) =
        .ok (.ok movedHeartbeat) ∧
      Accepted Sample.platform Sample.env s.counted movedHeartbeat 0 ∧
      step Sample.platform s (heartbeats "c" "m" 3) = .ok (s', out) ∧
      s'.edgesBySocket.lookup (clientAddr 3).string = none ∧
      s'.edgesByMAC.lookup (macText "c" "n") = some 1 ∧
      ∀ dst, s'.fastPathTarget dst (Sample.client 3) = none := by
  have hadm : ∀ s : Supernode, ∀ id n, RemovesNobody s (registers "c" id n) := by
    intro s id n r hraw
    rw [Sample.newRawMessage_request] at hraw
    cases hraw
    exact show typeRegisterRequest ≠ typeUnregisterRequest by decide
  obtain ⟨s, hrun, hs⟩ := exists_of_passes
    (x := do
      let first ← step Sample.platform Sample.start (registers "c" "m" 1)
      let second ← step Sample.platform first.1 (registers "c" "n" 2)
      .ok (first.1, first.2, second.1, second.2))
    (p := fun res => acceptsMoved res.2.2.1.counted &&
      Passes (step Sample.platform res.2.2.1 (heartbeats "c" "m" 3)) fun res' => decide (
        res'.1.edgesBySocket.lookup (clientAddr 3).string = none ∧
        res'.1.edgesByMAC.lookup (macText "c" "n") = some 1)) (by decide +kernel)
  obtain ⟨⟨s1, out1⟩, hstep1, hrun⟩ := bind_eq_ok.mp hrun
  obtain ⟨⟨s2, out2⟩, hstep2, hrun⟩ := bind_eq_ok.mp hrun
  cases hrun
  obtain ⟨hacc, hstep⟩ := Bool.and_eq_true_iff.mp hs
  obtain ⟨⟨s', out⟩, hstep, hs'⟩ := exists_of_passes hstep
  obtain ⟨hsocket, hmac⟩ := of_decide_eq_true hs'
  refine ⟨_, s2, s', out, .step (.step (.init ⟨_, _, _, _, _, _, rfl⟩) (hadm _ _ _) hstep1)
    (hadm _ _ _) hstep2, Sample.newRawMessage_request .., accepted_of_acceptsMoved hacc, hstep,
    hsocket, hmac, fun dst => ?_⟩
  by_contra hsome
  obtain ⟨d, hd⟩ := Option.ne_none_iff_exists'.mp hsome
  obtain ⟨-, src, -, -, hsrc, -⟩ := fastPathTarget_eq_some hd
  rw [show s'.edgesBySocket.lookup (Sample.client 3).string = none from hsocket] at hsrc
  cases hsrc

end N2nGo.Supernode
