import N2nGo.Analysis.PeerStatus
import N2nGo.Analysis.Sample

/-!
# What makes a peer available

Traffic to an available peer bypasses the supernode. A peer becomes available when it
answers a ping with the check ID the edge had put into it, and when a report names it as
reachable. Either counts only for the address the peer has now: a new public socket makes
its reachability unknown again.

The history of a run says what was received and written. `Effect` says what a step does
to one peer, and the invariant `Confirmed` follows from it by induction over the run.
-/

set_option autoImplicit false

namespace N2nGo.EdgeClient

open N2nGo.Lib N2nGo.Protocol N2nGo.Messages N2nGo.PeerRegistry

/-! ## What the history shows -/

/-- A step of a run of messages and ticks. -/
abbrev P2PTaken := Taken EdgeClient P2PEvent (List Output)

/-- The event is the reception of a message that decodes to `m`. -/
def Receives {T : Type} [PacketTyped T] (codec : Codec T) (ev : P2PEvent) (m : Message T) : Prop :=
  ∃ env packet addr r, ev = .message env packet addr ∧ newRawMessage packet addr = .ok (.ok r) ∧
    toMessage codec r = .ok m

/-- The event brings these data of a peer, in a list or as a new registration. -/
def Announces (P : Platform) (ev : P2PEvent) (info : PeerInfo) : Prop :=
  ∃ m, Receives P.codecs.peerInfoList ev m ∧
    (m.msg.eventType.toUInt8 = typeList ∨ m.msg.eventType.toUInt8 = typeRegister) ∧
    info ∈ m.msg.peerInfos

/-- The step found the peer with this public socket, and announced no other one for it. -/
structure KeepsSocket (P : Platform) (mac socket : Bytes) (t : P2PTaken) : Prop where
  found : ∃ q, t.before.peers.view mac = some q ∧ q.infos.pubSocket = socket
  announced : ∀ info, Announces P t.event info → info.key = mac → info.pubSocket = socket

/-- On a tick, a ping with this check ID was written to the peer. -/
def Pinged (P : Platform) (mac checkId : Bytes) (t : P2PTaken) : Prop :=
  ∃ env, t.event = .tick env ∧ PingIn P env mac checkId t.output

/-- A pong with this check ID arrived from the peer. -/
def Ponged (P : Platform) (mac checkId : Bytes) (t : P2PTaken) : Prop :=
  ∃ m, Receives P.codecs.peerToPing t.event m ∧ m.msg.isPong = true ∧ m.edgeMACAddr = mac ∧
    m.msg.checkId = checkId

/-- A report that names the peer arrived. -/
def Reported (P : Platform) (mac : Bytes) (t : P2PTaken) : Prop :=
  ∃ m, Receives P.codecs.peerP2PInfos t.event m ∧ Named m mac

/-- No pong without a check ID arrives. -/
def NoEmptyPong (P : Platform) (_ : EdgeClient) (ev : P2PEvent) : Prop :=
  ∀ m, Receives P.codecs.peerToPing ev m → m.msg.isPong = true → m.msg.checkId ≠ []

/-- An edge that knows no peers yet and has a transport. -/
structure Starting (e : EdgeClient) : Prop where
  peers : e.peers.peers = ∅
  linked : e.Linked

variable {P : Platform} {env : Env} {e e' : EdgeClient} {out : List Output} {mac : Bytes}
  {r : RawMessage} {t : P2PTaken} {hist : List P2PTaken}

/-! ## What a step does to a peer -/

/-- What the peer's record says after the step `t`: it was made or reset, or it kept its
address, and a check ID or the status come from where they may come from. -/
inductive Effect (P : Platform) (t : P2PTaken) (mac : Bytes) (q' : Peer) : Prop where
  | reset : q'.p2pStatus = .unknown → q'.p2pCheckID = [] → Effect P t mac q'
  | kept (q : Peer) : t.before.peers.view mac = some q → KeepsSocket P mac q'.infos.pubSocket t →
      (q'.p2pCheckID = [] ∨ q'.p2pCheckID = q.p2pCheckID ∨
        ∀ id : MacID, mac = Net.hardwareAddrString id.bytes → Pinged P mac q'.p2pCheckID t) →
      (q'.p2pStatus = .available →
        q.p2pStatus = .available ∨ Ponged P mac q.p2pCheckID t ∨ Reported P mac t) →
      Effect P t mac q'

/-- The record of a peer in a list is reset, unless the list repeats its socket. -/
theorem announced_record {now : ℤ} {infos : List PeerInfo} {v : Bytes → Option Peer} {q' : Peer}
    (h : infos.foldl (announce now) v mac = some q') :
    (q'.p2pStatus = .unknown ∧ q'.p2pCheckID = []) ∨
      ∃ q, v mac = some q ∧ q'.p2pStatus = q.p2pStatus ∧ q'.p2pCheckID = q.p2pCheckID ∧
        q.infos.pubSocket = q'.infos.pubSocket ∧
        ∀ info ∈ infos, info.key = mac → info.pubSocket = q'.infos.pubSocket := by
  induction infos generalizing v with
  | nil => exact Or.inr ⟨q', h, rfl, rfl, rfl, fun _ hinfo => absurd hinfo List.not_mem_nil⟩
  | cons info infos ih =>
    rcases ih h with hreset | ⟨q1, hq1, hstatus, hcheck, hsocket, hrest⟩
    · exact Or.inl hreset
    · unfold announce at hq1
      rw [Function.update_apply] at hq1
      split at hq1
      · next hkey =>
        have hq1' := Option.some.inj hq1
        cases hv : v info.key with
        | none =>
          rw [hv] at hq1'
          subst hq1'
          exact Or.inl ⟨hstatus, hcheck⟩
        | some q =>
          rw [hv] at hq1'
          subst hq1'
          simp only [infos_announcedPeer] at hsocket
          simp only [announcedPeer, overwritten] at hstatus hcheck
          split at hstatus
          · next hnew =>
            rw [if_pos hnew] at hcheck
            exact Or.inl ⟨hstatus, hcheck⟩
          · next hsame =>
            rw [if_neg hsame] at hcheck
            have hsame' := (not_or.mp hsame).2
            refine Or.inr ⟨q, hkey ▸ hv, hstatus, hcheck,
              (not_not.mp hsame').trans hsocket, fun info' hinfo' hkey' => ?_⟩
            rcases List.mem_cons.mp hinfo' with rfl | hinfo'
            · exact hsocket
            · exact hrest info' hinfo' hkey'
      · next hkey =>
        refine Or.inr ⟨q1, hq1, hstatus, hcheck, hsocket, fun info' hinfo' hkey' => ?_⟩
        rcases List.mem_cons.mp hinfo' with rfl | hinfo'
        · exact absurd hkey'.symm hkey
        · exact hrest info' hinfo' hkey'

theorem applyList_record {now : ℤ} {pil : PeerInfoList} {v : Bytes → Option Peer} {q' : Peer}
    (h : applyList now pil v mac = some q') :
    (q'.p2pStatus = .unknown ∧ q'.p2pCheckID = []) ∨
      ∃ q, v mac = some q ∧ q'.p2pStatus = q.p2pStatus ∧ q'.p2pCheckID = q.p2pCheckID ∧
        q.infos.pubSocket = q'.infos.pubSocket ∧
        (pil.eventType.toUInt8 = typeList ∨ pil.eventType.toUInt8 = typeRegister →
          ∀ info ∈ pil.peerInfos, info.key = mac → info.pubSocket = q'.infos.pubSocket) := by
  unfold applyList at h
  split at h
  · beta_reduce at h
    split at h
    · rcases announced_record h with hreset | ⟨q, hq, hstatus, hcheck, hsocket, hrest⟩
      · exact Or.inl hreset
      · exact Or.inr ⟨q, hq, hstatus, hcheck, hsocket, fun _ => hrest⟩
    · cases h
  · next hlist =>
    split at h
    · rcases announced_record h with hreset | ⟨q, hq, hstatus, hcheck, hsocket, hrest⟩
      · exact Or.inl hreset
      · exact Or.inr ⟨q, hq, hstatus, hcheck, hsocket, fun _ => hrest⟩
    · next hregister =>
      have hnever : ¬ (pil.eventType.toUInt8 = typeList ∨ pil.eventType.toUInt8 = typeRegister) :=
        fun htype => htype.elim hlist hregister
      have hv : v mac = some q' := by
        split at h
        · beta_reduce at h
          split at h
          · cases h
          · exact h
        · exact h
      exact Or.inr ⟨q', hv, rfl, rfl, rfl, fun htype => absurd htype hnever⟩

/-- The peers that a message may make available: the one whose check ID it answers, and
those it reports. -/
def Vouched (P : Platform) (e : EdgeClient) (r : RawMessage) (mac : Bytes) : Prop :=
  (∃ m q, toMessage P.codecs.peerToPing r = .ok m ∧ m.msg.isPong = true ∧ m.edgeMACAddr = mac ∧
    e.peers.view mac = some q ∧ m.msg.checkId = q.p2pCheckID) ∨
  ∃ m, toMessage P.codecs.peerP2PInfos r = .ok m ∧ Named m mac

theorem revised_handled (k : e.peers.Kept) (h : Handled P env e r e' out)
    (hlist : ∀ m, toMessage P.codecs.peerInfoList r ≠ .ok m) :
    Revised e.peers (Vouched P e r) e'.peers := by
  cases h with
  | idle seq api _ => exact .refl k
  | peers hm _ => exact absurd hm (hlist _)
  | left hm => exact .removePeer k P.services _
  | reported hm =>
    exact (revised_reportedPeers k env.now _).mono fun mac hnamed => Or.inr ⟨_, hm, hnamed⟩
  | fullState hm => exact .updateP2PCommunityDatas k _ _
  | @pong m p hm hpong hp =>
    refine (revised_recordPong k hp env.now _ _).mono fun mac hmac => Or.inl ?_
    have hsender : m.edgeMACAddr = mac := by rw [hmac.1, ← toMessage_ok hm]
    exact ⟨m, _, hm, hpong, hsender, hmac.1 ▸ Table.follow_eq_some hp, hmac.2.symm⟩
  | key _ _ _ => exact .refl k
  | register _ _ _ _ => exact .refl k
  | accepted _ _ _ => exact .of_same k rfl rfl
  | retried _ _ _ => exact .refl k

theorem Effect.of_revised {A : Bytes → Prop} {reg : PeerRegistry}
    (h : Revised t.before.peers A reg)
    (hA : ∀ mac, A mac → ∀ q, t.before.peers.view mac = some q →
      Ponged P mac q.p2pCheckID t ∨ Reported P mac t)
    (hno : ∀ info, ¬ Announces P t.event info) {q' : Peer} (hq' : reg.view mac = some q') :
    Effect P t mac q' := by
  obtain ⟨q, hq, hinfos, hcheck, hav⟩ := h.record mac q' hq'
  refine .kept q hq ⟨⟨q, hq, by rw [hinfos]⟩, fun info hinfo => absurd hinfo (hno info)⟩
    (hcheck.imp_right Or.inl) fun hnow => ?_
  exact (hav hnow).imp_right fun hmac => hA mac hmac q hq

theorem effect_message {packet : Bytes} {addr : NetAddr} (k : e.peers.Kept)
    (h : e.handlePacket P env packet addr = .ok (e', out)) :
    e'.peers.Kept ∧ SameHost e e' ∧ ∀ mac q', e'.peers.view mac = some q' →
      Effect P ⟨e, .message env packet addr, out⟩ mac q' := by
  rcases handlePacket_ok h with ⟨⟨err, hraw⟩, rfl, rfl⟩ | ⟨r, err, hraw, hhandle⟩
  · refine ⟨k, .refl _, fun mac q' hq' => ?_⟩
    refine .of_revised (Revised.refl (A := fun _ => False) k) (fun _ hA => hA.elim) ?_ hq'
    rintro info ⟨m, ⟨_, _, _, r, heq, hr, -⟩, -⟩
    cases heq
    rw [hraw] at hr
    cases hr
  have hreceives : ∀ {T : Type} [PacketTyped T] {codec : Codec T} {m : Message T},
      Receives codec (.message env packet addr) m ↔ toMessage codec r = .ok m := by
    intro T _ codec m
    refine ⟨?_, fun hm => ⟨env, packet, addr, r, rfl, hraw, hm⟩⟩
    rintro ⟨_, _, _, r', heq, hr', hm⟩
    cases heq
    rw [hraw] at hr'
    cases hr'
    exact hm
  by_cases hlist : ∃ m, toMessage P.codecs.peerInfoList r = .ok m
  · obtain ⟨m, hm⟩ := hlist
    obtain ⟨reg, res, happly, rfl, rfl⟩ := handle_peerInfoList hm hhandle
    obtain ⟨k', hview⟩ := k.handlePeerInfoList happly
    refine ⟨k', ⟨rfl, rfl, rfl, rfl, rfl, rfl⟩, fun mac q' hq' => ?_⟩
    have hq'' : applyList env.now m.msg e.peers.view mac = some q' := by
      rw [← hview]
      exact hq'
    rcases applyList_record hq'' with hreset | ⟨q, hq, hstatus, hcheck, hsocket, hinfos⟩
    · exact .reset hreset.1 hreset.2
    · refine .kept q hq ⟨⟨q, hq, hsocket⟩, ?_⟩ (Or.inr (Or.inl hcheck))
        fun hav => Or.inl (hstatus.symm.trans hav)
      rintro info ⟨m', hm', htype, hinfo⟩
      have heq := hm.symm.trans (hreceives.mp hm')
      cases heq
      exact hinfos htype info hinfo
  · rw [not_exists] at hlist
    have hhandled := handle_handled hhandle
    have hrevised := revised_handled k hhandled hlist
    refine ⟨hrevised.kept, hhandled.sameHost, fun mac q' hq' => ?_⟩
    refine .of_revised hrevised ?_ ?_ hq'
    · rintro mac (⟨m, q, hm, hpong, hsender, hq, hcheck⟩ | ⟨m, hm, hnamed⟩) q0 hq0
      · obtain rfl : q = q0 := Option.some.inj (hq.symm.trans hq0)
        exact Or.inl ⟨m, hreceives.mpr hm, hpong, hsender, hcheck⟩
      · exact Or.inr ⟨m, hreceives.mpr hm, hnamed⟩
    · rintro info ⟨m, hm, -⟩
      exact hlist m (hreceives.mp hm)

theorem effect_tick (hP : EncodesPings P e) (hlink : e.Linked) (k : e.peers.Kept) {q' : Peer}
    (hq' : (e.handleP2PUpdates P env).1.peers.view mac = some q') :
    Effect P ⟨e, .tick env, (e.handleP2PUpdates P env).2⟩ mac q' := by
  obtain ⟨q, hq, hinfos, hav, hcheck⟩ :=
    (checked_handleP2PUpdates hP hlink k env).record mac q' hq'
  refine .kept q hq ⟨⟨q, hq, by rw [hinfos]⟩, ?_⟩
    (hcheck.imp_right (Or.imp_right fun hping id hid => ⟨env, rfl, hping id hid⟩))
    fun hnow => Or.inl (hav hnow)
  rintro info ⟨m, ⟨_, _, _, _, heq, -⟩, -⟩
  cases heq

/-! ## Runs -/

/-- The peer has answered a ping with its check ID, both since the peer has its public
socket. -/
def Answered (P : Platform) (mac socket : Bytes) (hist : List P2PTaken) : Prop :=
  ∃ checkId, checkId ≠ [] ∧ Lately (KeepsSocket P mac socket) (fun t older =>
    Ponged P mac checkId t ∧
      Lately (KeepsSocket P mac socket) (fun t' _ => Pinged P mac checkId t') older) hist

/-- What holds along every run: a check ID on record was written in a ping, and an available
peer has answered one or was reported, each since the peer has its public socket. -/
structure Confirmed (P : Platform) (hist : List P2PTaken) (e : EdgeClient) : Prop where
  kept : e.peers.Kept
  linked : e.Linked
  checkID : ∀ mac q (id : MacID), e.peers.view mac = some q →
    mac = Net.hardwareAddrString id.bytes → q.p2pCheckID ≠ [] →
    Lately (KeepsSocket P mac q.infos.pubSocket) (fun t _ => Pinged P mac q.p2pCheckID t) hist
  available : ∀ mac q, mac ≠ [] → e.peers.view mac = some q → q.p2pStatus = .available →
    Answered P mac q.infos.pubSocket hist ∨
      Lately (KeepsSocket P mac q.infos.pubSocket) (fun t _ => Reported P mac t) hist

theorem confirmed_starting (h : Starting e) : Confirmed P [] e := by
  have hview : ∀ mac q, e.peers.view mac ≠ some q := fun mac q hq => by
    unfold view Table.follow at hq
    rw [h.peers] at hq
    cases hq
  exact ⟨kept_of_empty h.peers, h.linked, fun mac q _ hq => absurd hq (hview mac q),
    fun mac q _ hq => absurd hq (hview mac q)⟩

theorem eq_of_edgeMACAddr (h : r.edgeMACAddr = mac) (hmac : mac ≠ []) :
    mac = Net.hardwareAddrString r.header.sourceID.bytes := by
  unfold RawMessage.edgeMACAddr bytesToMAC at h
  split at h
  · next heq =>
    split at heq
    · cases heq
    · cases heq
      exact h.symm
  · exact absurd h.symm hmac

theorem Confirmed.step (h : Confirmed P hist t.before) (hadm : NoEmptyPong P t.before t.event)
    (k : e'.peers.Kept) (hlink : e'.Linked)
    (heffect : ∀ mac q', e'.peers.view mac = some q' → Effect P t mac q') :
    Confirmed P (t :: hist) e' := by
  refine ⟨k, hlink, fun mac q' id hq' hid hne => ?_, fun mac q' hmac hq' hav => ?_⟩
  · cases heffect mac q' hq' with
    | reset _ hnil => exact absurd hnil hne
    | kept q hq hkeep hcheck _ =>
      obtain ⟨q0, hq0, hsocket⟩ := hkeep.found
      obtain rfl : q0 = q := Option.some.inj (hq0.symm.trans hq)
      rcases hcheck with hnil | hsame | hping
      · exact absurd hnil hne
      · rw [hsame] at hne ⊢
        have hold := h.checkID mac q0 id hq hid hne
        rw [hsocket] at hold
        exact hold.cons hkeep
      · exact .here hkeep (hping id hid)
  · cases heffect mac q' hq' with
    | reset hunknown _ =>
      rw [hunknown] at hav
      cases hav
    | kept q hq hkeep _ havail =>
      obtain ⟨q0, hq0, hsocket⟩ := hkeep.found
      obtain rfl : q0 = q := Option.some.inj (hq0.symm.trans hq)
      rcases havail hav with hwas | hpong | hreport
      · have hold := h.available mac q0 hmac hq hwas
        rw [hsocket] at hold
        rcases hold with ⟨checkId, hne, hpong⟩ | hreport
        · exact Or.inl ⟨checkId, hne, hpong.cons hkeep⟩
        · exact Or.inr (hreport.cons hkeep)
      · -- the check ID on record is the pong's, so it is not empty and its ping was written
        obtain ⟨m, hm, hpongs, hsender, hcheck⟩ := hpong
        have hne : q0.p2pCheckID ≠ [] := hcheck ▸ hadm m hm hpongs
        have hping := h.checkID mac q0 _ hq (eq_of_edgeMACAddr hsender hmac) hne
        rw [hsocket] at hping
        exact Or.inl ⟨q0.p2pCheckID, hne, .here hkeep ⟨⟨m, hm, hpongs, hsender, hcheck⟩, hping⟩⟩
      · exact Or.inr (.here hkeep hreport)

/-- **An available peer has answered a ping or was reported.** In every run of messages and
ticks without pongs that carry no check ID, a peer with status available has sent a pong
with the check ID of a ping written to it before, or was named as reachable in a report,
all since its public socket was last set.
GOLINE: edge/handlers.go:190-242, edge/handlers_missing.go:44-72, edge/routines.go:17-54, p2p/p2p.go:200-268 -/
theorem available_confirmed
    (hP : ∀ hist e, Trace (p2pStep P) Starting (NoEmptyPong P) hist e → EncodesPings P e)
    (h : Trace (p2pStep P) Starting (NoEmptyPong P) hist e) {q : Peer}
    (hmac : mac ≠ []) (hq : e.peers.view mac = some q) (hav : q.p2pStatus = .available) :
    Answered P mac q.infos.pubSocket hist ∨
      Lately (KeepsSocket P mac q.infos.pubSocket) (fun t _ => Reported P mac t) hist := by
  have hinv : Confirmed P hist e := by
    clear hq hav
    induction h with
    | init he => exact confirmed_starting he
    | @step hist e e' ev out htrace hadm hstep hI =>
      cases ev with
      | message env packet addr =>
        obtain ⟨k, hlink, heffect⟩ := effect_message hI.kept hstep
        exact hI.step hadm k (hlink.linked hI.linked) heffect
      | tick env =>
        cases hstep
        have hchecked := checked_handleP2PUpdates (hP _ _ htrace) hI.linked hI.kept env
        exact hI.step hadm hchecked.kept (hchecked.host.linked hI.linked)
          fun mac q' hq' => effect_tick (hP _ _ htrace) hI.linked hI.kept hq'
  exact hinv.available mac q hmac hq hav

/-! ## One peer -/

section Examples

/-- The edge with machine ID `p`, as a list announces it. -/
def peerP : PeerInfo :=
  ⟨[], (Machine.extGenerateMacFor (ascii "c") (ascii "p")).bytes, ascii "10.0.0.1:5", ascii "c", []⟩

/-- Lists and reports are encoded field after field; a ping is a byte and its check ID. -/
def peerPlatform : Platform :=
  { Sample.edgePlatform with
    codecs := { Sample.codecs with
      peerInfoList := Sample.peerInfoList
      peerP2PInfos := Sample.peerP2PInfos
      peerToPing := ⟨fun m => some (m.isPong.toUInt8 :: m.checkId), fun payload =>
        payload.head?.map fun b => ⟨payload.tail, b ≠ 0⟩⟩ } }

theorem encodesPings_peerPlatform (e : EdgeClient) : EncodesPings peerPlatform e :=
  fun _ q _ => ⟨0 :: e.checkID q, rfl⟩

/-- The edge with machine ID `m`, connected. -/
def edgeM : EdgeClient := { Sample.edge "c" "m" false [] with conn := true }

theorem starting_edgeM : Starting edgeM := ⟨rfl, Or.inl rfl⟩

/-- A message from `peerP`. -/
def fromPeerP (pt : PacketType) (payload : Bytes) : P2PEvent :=
  .message Sample.edgeEnv (packProtoVDatagram
    (Sample.header pt (ascii "c") (ascii "p") MacID.zero) payload) (Sample.client 5)

/-- A list with the one peer. -/
def listOf (info : PeerInfo) : P2PEvent :=
  fromPeerP typePeerInfo ((Sample.peerInfoList.encode ⟨false, none, [info], 2⟩).getD [])

/-- A report that names the one peer. -/
def reportOf (info : PeerInfo) : P2PEvent :=
  fromPeerP typeP2PStateInfo ((Sample.peerP2PInfos.encode ⟨none, [info]⟩).getD [])

/-- The check ID that `edgeM` puts into its pings. -/
def checkIDP : Bytes := edgeM.checkID ⟨peerP, .unknown, false, [], 0, 0⟩

/-- No pong arrives with a check ID that passes the test. -/
def pongsNot (bad : Bytes → Bool) (_ : EdgeClient) : P2PEvent → Bool
  | .message _ packet addr =>
    match newRawMessage packet addr with
    | .ok (.ok r) =>
      match toMessage peerPlatform.codecs.peerToPing r with
      | .ok m => !(m.msg.isPong && bad m.msg.checkId)
      | .error _ => true
    | _ => true
  | .tick _ => true

theorem not_bad_of_pongsNot {bad : Bytes → Bool} {ev : P2PEvent} (h : pongsNot bad e ev = true)
    {m : Message PeerToPing} (hm : Receives peerPlatform.codecs.peerToPing ev m)
    (hpong : m.msg.isPong = true) : bad m.msg.checkId = false := by
  obtain ⟨env, packet, addr, r, rfl, hraw, hm⟩ := hm
  simpa [pongsNot, hraw, hm, hpong] using h

/-- The run makes the peer available. -/
def endsAvailable (bad : Bytes → Bool) (es : List P2PEvent) : Bool :=
  (traceAllowed (p2pStep peerPlatform) (pongsNot bad) [] edgeM es).any fun res =>
    (res.2.peers.view peerP.key).any fun q => decide (q.p2pStatus = .available)

theorem exists_available {bad : Bytes → Bool} {es : List P2PEvent}
    {adm : EdgeClient → P2PEvent → Prop} (hadm : ∀ e ev, pongsNot bad e ev = true → adm e ev)
    (h : endsAvailable bad es = true) :
    ∃ (hist : List P2PTaken) (e : EdgeClient) (q : Peer),
      Trace (p2pStep peerPlatform) Starting adm hist e ∧
      e.peers.view peerP.key = some q ∧ q.p2pStatus = .available := by
  obtain ⟨⟨hist, e⟩, hrun, hres⟩ := (Option.any_eq_true _ _).mp h
  obtain ⟨q, hq, hav⟩ := (Option.any_eq_true _ _).mp hres
  exact ⟨hist, e, q, .of_traceAllowed hadm (.init starting_edgeM) hrun, hq, of_decide_eq_true hav⟩

/-- A ping that is answered makes the peer available. -/
theorem available_confirmed_answered :
    ∃ (hist : List P2PTaken) (e : EdgeClient) (q : Peer),
      Trace (p2pStep peerPlatform) Starting (NoEmptyPong peerPlatform) hist e ∧
      e.peers.view peerP.key = some q ∧ q.p2pStatus = .available ∧
      (Answered peerPlatform peerP.key q.infos.pubSocket hist ∨
        Lately (KeepsSocket peerPlatform peerP.key q.infos.pubSocket)
          (fun t _ => Reported peerPlatform peerP.key t) hist) := by
  have hends : endsAvailable (· == []) [listOf peerP, .tick Sample.edgeEnv,
      fromPeerP typePing (1 :: checkIDP)] = true := by
    decide +kernel
  have hadm : ∀ e ev, pongsNot (· == []) e ev = true → NoEmptyPong peerPlatform e ev :=
    fun e ev hok m hm hpong => by simpa using not_bad_of_pongsNot hok hm hpong
  obtain ⟨hist, e, q, htrace, hq, hav⟩ := exists_available hadm hends
  exact ⟨hist, e, q, htrace, hq, hav,
    available_confirmed (fun _ e _ => encodesPings_peerPlatform e) htrace (by decide) hq hav⟩

/-- A report makes a pinged peer available although no pong has arrived. -/
theorem available_without_pong :
    ∃ (hist : List P2PTaken) (e : EdgeClient) (q : Peer),
      Trace (p2pStep peerPlatform) Starting (fun _ ev =>
        ∀ m, Receives peerPlatform.codecs.peerToPing ev m → m.msg.isPong = false) hist e ∧
      e.peers.view peerP.key = some q ∧ q.p2pStatus = .available := by
  have hends : endsAvailable (fun _ => true) [listOf peerP, .tick Sample.edgeEnv,
      reportOf peerP] = true := by
    decide +kernel
  refine exists_available (fun e ev hok m hm => ?_) hends
  by_contra hpong
  cases not_bad_of_pongsNot hok hm (Bool.not_eq_false _ ▸ hpong)

end Examples

end N2nGo.EdgeClient
