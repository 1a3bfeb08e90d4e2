import N2nGo.Analysis.Announcements

/-!
# What edges know of their community

An edge that has asked for the peer list and stayed registered since then knows the other
members of its community, up to the packets that are still under way to it: replaying them
on what it has gives the members (`Informed`). Every event keeps this, because it tells the
members what it changes (`told_step`). An edge that has read everything therefore has
exactly the other members (`peers_agree`).
-/

set_option autoImplicit false

namespace N2nGo.PeerView

open N2nGo.Lib N2nGo.Protocol N2nGo.Messages N2nGo.Supernode PeerRegistry

/-- One step of a run. -/
abbrev PeerViewTaken := Taken PeerView Event (List Sent)

/-- Nothing has happened yet. -/
structure Starting (w : PeerView) : Prop where
  sn : Supernode.Initial w.sn
  inbox : ∀ mac, w.inbox mac = []
  peers : ∀ mac, (w.edge mac).peers.peers = ∅

/-- A message about membership, a request for the peer list, the removal of stale edges, or
a connection that opens or closes. -/
def AboutPeers : Supernode.Event → Prop
  | .packet _ packet addr => ∃ r, newRawMessage packet addr = .ok (.ok r) ∧
      (AboutMembership r ∨ r.header.packetType = typePeerListRequest)
  | _ => True

/-- No MAC is registered in a second community. Edges may read at any time. -/
def Orderly (P : Supernode.Platform) (w : PeerView) : Event → Prop
  | .supernode ev => AboutPeers ev ∧ JoinsOneCommunity P w.sn ev
  | .read _ _ _ => True

/-- The edge is registered before the step. -/
def Registered (mac : Bytes) (t : PeerViewTaken) : Prop :=
  ∃ hash cm, t.before.sn.communities.lookup hash = some cm ∧ mac ∈ (t.before.sn.cms.cell cm).edges

/-- The edge is sent a peer list that it has asked for. -/
def Replied (mac : Bytes) (t : PeerViewTaken) : Prop :=
  ∃ ev, t.event = .supernode ev ∧ requester ev = some mac ∧ arrivals (some mac) t.output mac ≠ []

variable {P : Supernode.Platform} {Q : EdgeClient.Platform} {s s' : Supernode}
  {ev : Supernode.Event} {out : List Sent} {mac : Bytes} {w w' : PeerView}
  {hist : List PeerViewTaken}

/-! ## What an event tells an edge -/

/-- The packets tell the edge what has changed if it was registered before, and everything if
it has asked. -/
def Informs (Q : EdgeClient.Platform) (asking : Option Bytes)
    (m m' : Registry UInt32 Bytes Bytes Bytes Edge) (mac : Bytes) (packets : List Bytes) : Prop :=
  ∃ feeds, List.Forall₂ (Carries Q) packets feeds ∧
    ∀ cm, (∃ ref, m'.Listed cm mac ref) →
      (¬ Unregistered m mac → (∃ ref, m.Listed cm mac ref) ∧
        replay feeds (hide mac (members m cm)) = hide mac (members m' cm)) ∧
      (asking = some mac → feeds ≠ [] → ∀ v, replay feeds v = hide mac (members m' cm))

theorem informs_of_told {m m' : Registry UInt32 Bytes Bytes Bytes Edge}
    {inbox : Bytes → List Bytes} (h : Told Q (Unregistered m) m m' inbox) (mac : Bytes) :
    Informs Q none m m' mac (inbox mac) := by
  obtain ⟨feeds, hfeeds, hreplay⟩ := h mac
  refine ⟨feeds, hfeeds, fun cm hl => ⟨hreplay cm hl, fun hasked => ?_⟩⟩
  cases hasked

theorem requester_packet {env : Supernode.Env} {packet : Bytes} {addr : NetAddr} {r : RawMessage}
    (hraw : newRawMessage packet addr = .ok (.ok r)) :
    requester (.packet env packet addr) =
      if r.header.packetType = typePeerListRequest then some r.edgeMACAddr else none := by
  unfold requester
  simp only [hraw]

theorem ne_of_aboutMembership {r : RawMessage} (h : AboutMembership r) :
    r.header.packetType ≠ typePeerListRequest := by
  rcases h with h | h | h
  · rw [h]
    decide
  · rw [h]
    decide
  · rw [h]
    decide

/-- **What an event tells an edge.** -/
theorem informs_step (hPQ : Transmits P Q s.registry) (hPQ' : Transmits P Q s'.registry)
    (p : Proper s.registry) (hev : AboutPeers ev) (hadm : JoinsOneCommunity P s ev)
    (h : Supernode.step P s ev = .ok (s', out)) (mac : Bytes) :
    Informs Q (requester ev) s.registry s'.registry mac (arrivals (requester ev) out mac) := by
  have p' := proper_step p hadm h
  cases ev with
  | packet env packet addr =>
    obtain ⟨r, hraw, hr⟩ := hev
    obtain ⟨out1, err, hhandle, hout⟩ := processPacket_message hraw h
    have harrivals : ∀ asking, arrivals asking out = arrivals asking out1 := fun asking =>
      hout.elim (fun heq => by rw [heq]) fun hask => arrivals_askForRegistration hask asking
    rw [requester_packet hraw, harrivals]
    rcases hr with hr | hr
    · rw [if_neg (ne_of_aboutMembership hr)]
      obtain ⟨hp, hr'⟩ := newRawMessage_ok hraw
      have hproto : IsProtoV r.rawPacket := hr' ▸ hp
      have p1 : Proper s.counted.registry := p
      exact informs_of_told
        (told_handled (s := s.counted) hPQ hPQ' p1 p' hr (handle_handled hproto hhandle)) mac
    · rw [if_pos hr]
      rw [handle_peerListRequest hr] at hhandle
      have p1 : Proper s.counted.registry := p
      obtain ⟨feeds, hfeeds, hall⟩ := told_list (s := s.counted) hPQ p1 hhandle mac
      obtain ⟨rfl, -⟩ := handlePeerRequestMessage_ok hhandle
      refine ⟨feeds, hfeeds, fun cm hl => ?_⟩
      have hcopy : feeds ≠ [] → ∀ v, replay feeds v = hide mac (members s.registry cm) :=
        fun hne => replay_all hne (hall cm hl)
      refine ⟨fun _ => ⟨hl, ?_⟩, fun _ => hcopy⟩
      by_cases hnil : feeds = []
      · rw [hnil]
        rfl
      · exact hcopy hnil _
  | cleanup env => exact informs_of_told (told_cleanup hPQ p h) mac
  | connect connID conn =>
    cases h
    exact informs_of_told (.refl _) mac
  | disconnect connID =>
    cases h
    exact informs_of_told (.refl _) mac

/-! ## Runs -/

/-- What is under way to the edge completes what it has: it then has the other members of its
community, if it has asked for them and stayed registered since. -/
def Informed (Q : EdgeClient.Platform) (hist : List PeerViewTaken) (w : PeerView) (mac : Bytes) :
    Prop :=
  ∃ feeds, List.Forall₂ (Carries Q) (w.inbox mac) feeds ∧
    ∀ cm, (∃ ref, w.sn.registry.Listed cm mac ref) →
      Lately (Registered mac) (fun t _ => Replied mac t) hist →
      replay feeds (infosOf (w.edge mac).peers.view) = hide mac (members w.sn.registry cm)

variable {t : PeerViewTaken}

theorem registered_iff : Registered mac t ↔ ¬ Unregistered t.before.sn.registry mac := by
  unfold Registered Unregistered
  push Not
  constructor
  · rintro ⟨hash, cm, hcm, hmem⟩
    obtain ⟨ref, href⟩ := Table.exists_lookup_of_mem hmem
    exact ⟨cm, ref, ⟨hash, hcm⟩, href⟩
  · rintro ⟨cm, ref, ⟨hash, hcm⟩, href⟩
    exact ⟨hash, cm, hcm, Table.mem_of_lookup href⟩

theorem informed_supernode (hinformed : Informed Q hist w mac)
    (hinforms : Informs Q (requester ev) w.sn.registry s'.registry mac
      (arrivals (requester ev) out mac)) :
    Informed Q (⟨w, .supernode ev, out⟩ :: hist)
      { w with
        sn := s'
        inbox := fun mac => w.inbox mac ++ arrivals (requester ev) out mac } mac := by
  obtain ⟨feeds, hfeeds, hreplay⟩ := hinformed
  obtain ⟨feeds', hfeeds', htold⟩ := hinforms
  refine ⟨feeds ++ feeds', List.rel_append hfeeds hfeeds', fun cm hl hlately => ?_⟩
  obtain ⟨hchange, hall⟩ := htold cm hl
  rw [replay_append]
  obtain ⟨hreg, hreplied | hlately⟩ := lately_cons hlately
  · obtain ⟨ev', hev, hasked, hne⟩ := hreplied
    cases hev
    refine hall hasked ?_ _
    rintro rfl
    rw [hasked] at hfeeds'
    exact hne (List.forall₂_nil_right_iff.mp hfeeds')
  · obtain ⟨hold, hupdate⟩ := hchange (registered_iff.mp hreg)
    rw [hreplay cm hold hlately, hupdate]

theorem lately_of_read {env : EdgeClient.Env} {addr : NetAddr} {reader : Bytes}
    (h : Lately (Registered mac) (fun t _ => Replied mac t)
      (⟨w, .read reader env addr, out⟩ :: hist)) :
    Lately (Registered mac) (fun t _ => Replied mac t) hist := by
  obtain ⟨-, ⟨ev, hev, -⟩ | hlately⟩ := lately_cons h
  · cases hev
  · exact hlately

theorem informed_read {env : EdgeClient.Env} {addr : NetAddr} {packet : Bytes} {rest : List Bytes}
    {e : EdgeClient} {eout : List EdgeClient.Output} {reader : Bytes}
    (k : (w.edge reader).peers.Kept) (hinbox : w.inbox reader = packet :: rest)
    (hread : (w.edge reader).handlePacket Q env packet addr = .ok (e, eout))
    (hinformed : Informed Q hist w mac) :
    Informed Q (⟨w, .read reader env addr, out⟩ :: hist)
      { w with
        inbox := Function.update w.inbox reader rest
        edge := Function.update w.edge reader e } mac := by
  obtain ⟨feeds, hfeeds, hreplay⟩ := hinformed
  by_cases hmac : mac = reader
  · subst hmac
    rw [hinbox] at hfeeds
    cases hfeeds with
    | @cons _ feed _ feeds hcarries hrest =>
      refine ⟨feeds, ?_, fun cm hl hlately => ?_⟩
      · simp only [Function.update_self]
        exact hrest
      · simp only [Function.update_self]
        rw [(hcarries.read k hread).2, ← replay_cons]
        exact hreplay cm hl (lately_of_read hlately)
  · refine ⟨feeds, ?_, fun cm hl hlately => ?_⟩
    · simp only [Function.update_of_ne hmac]
      exact hfeeds
    · simp only [Function.update_of_ne hmac]
      exact hreplay cm hl (lately_of_read hlately)

/-- In every run, the supernode is as in a run of its own, the registry is proper, and every edge keeps its registry of peers and is
informed. -/
structure Consistent (P : Supernode.Platform) (Q : EdgeClient.Platform)
    (hist : List PeerViewTaken) (w : PeerView) : Prop where
  reachable : Reachable P w.sn
  proper : Proper w.sn.registry
  kept : ∀ mac, (w.edge mac).peers.Kept
  informed : ∀ mac, Informed Q hist w mac

theorem consistent_starting (h : Starting w) : Consistent P Q [] w := by
  refine ⟨.init h.sn, ⟨valid_initial h.sn, agrees_initial h.sn, ?_⟩,
    fun mac => kept_of_empty (h.peers mac), fun mac => ⟨[], by rw [h.inbox]; exact .nil, fun cm _ hlately => ?_⟩⟩
  · intro cm mac ref hl
    obtain ⟨config, netAllocator, pem, noCommunity, noEdge, noPool, hsn⟩ := h.sn
    rw [hsn] at hl
    obtain ⟨⟨hash, hcm⟩, -⟩ := hl
    cases hcm
  · obtain ⟨newer, t, older, hnil, -⟩ := hlately
    cases newer <;> cases hnil

theorem consistent_step {ev : Event} (hPQ : ∀ s, Reachable P s → Transmits P Q s.registry)
    (hI : Consistent P Q hist w) (hadm : Orderly P w ev)
    (hstep : step P Q w ev = .ok (w', out)) : Consistent P Q (⟨w, ev, out⟩ :: hist) w' := by
  cases ev with
  | supernode ev =>
    obtain ⟨⟨s', out'⟩, hsn, hstep⟩ := bind_eq_ok.mp hstep
    cases hstep
    have hreach : Reachable P s' := hI.reachable.step trivial hsn
    exact ⟨hreach, proper_step hI.proper hadm.2 hsn, hI.kept, fun mac =>
      informed_supernode (hI.informed mac)
        (informs_step (hPQ _ hI.reachable) (hPQ _ hreach) hI.proper hadm.1 hadm.2 hsn mac)⟩
  | read reader env addr =>
    unfold step at hstep
    cases hinbox : w.inbox reader with
    | nil =>
      simp only [hinbox] at hstep
      cases hstep
      refine ⟨hI.reachable, hI.proper, hI.kept, fun mac => ?_⟩
      obtain ⟨feeds, hfeeds, hreplay⟩ := hI.informed mac
      exact ⟨feeds, hfeeds, fun cm hl hlately => hreplay cm hl (lately_of_read hlately)⟩
    | cons packet rest =>
      simp only [hinbox] at hstep
      obtain ⟨⟨e, eout⟩, hread, hstep⟩ := bind_eq_ok.mp hstep
      cases hstep
      refine ⟨hI.reachable, hI.proper, fun mac => ?_, fun mac =>
        informed_read (hI.kept reader) hinbox hread (hI.informed mac)⟩
      simp only [Function.update_apply]
      split
      · obtain ⟨feeds, hfeeds, -⟩ := hI.informed reader
        rw [hinbox] at hfeeds
        cases hfeeds with
        | cons hcarries _ => exact (hcarries.read (hI.kept reader) hread).1
      · exact hI.kept mac

/-- **Edges agree with the supernode about their peers.** Edge `mac` is a member of `cm`, has
stayed registered since it was sent a peer list it had asked for, and has read everything.
Its peers are then the other members, with the data the supernode has.
GOLINE: p2p/p2p.go:347-406, supernode/handlers.go:30-57, 96-175, supernode/cleanup.go:9-37 -/
theorem peers_agree (hPQ : ∀ s, Reachable P s → Transmits P Q s.registry)
    (h : Trace (step P Q) Starting (Orderly P) hist w)
    {hash : UInt32} {cm : CommunityRef} (hcm : w.sn.communities.lookup hash = some cm)
    (hmember : mac ∈ (w.sn.cms.cell cm).edges)
    (hreply : Lately (Registered mac) (fun t _ => Replied mac t) hist) (hread : w.inbox mac = []) :
    (∀ other, other ∈ (w.edge mac).peers.peers ↔
      other ∈ (w.sn.cms.cell cm).edges ∧ other ≠ mac) ∧
    ∀ other p ref, (w.edge mac).peers.peers.lookup other = some p →
      (w.sn.cms.cell cm).edges.lookup other = some ref →
      ((w.edge mac).peers.records.cell p).infos = (w.sn.edges.cell ref).peerInfo := by
  have hI : Consistent P Q hist w :=
    h.invariant (fun w => consistent_starting) fun hist w ev w' out hI hadm hstep =>
      consistent_step hPQ hI hadm hstep
  obtain ⟨feeds, hfeeds, hreplay⟩ := hI.informed mac
  rw [hread] at hfeeds
  cases hfeeds
  obtain ⟨ref, href⟩ := Table.exists_lookup_of_mem hmember
  have hsame := hreplay cm ⟨ref, ⟨hash, hcm⟩, href⟩ hreply
  have hother : ∀ other, ((w.edge mac).peers.peers.lookup other).map
      (fun p => ((w.edge mac).peers.records.cell p).infos) =
        if other = mac then none
        else ((w.sn.cms.cell cm).edges.lookup other).map fun ref => (w.sn.edges.cell ref).peerInfo := by
    intro other
    have hentry := congrFun hsame other
    rw [replay_nil, hide_apply] at hentry
    unfold infosOf view Table.follow members Registry.content at hentry
    rw [Option.map_map, Option.map_map] at hentry
    exact hentry
  refine ⟨fun other => ?_, fun other p ref hp href => ?_⟩
  · have hentry := hother other
    constructor
    · intro hmem
      obtain ⟨p, hp⟩ := Table.exists_lookup_of_mem hmem
      rw [hp, Option.map_some] at hentry
      split at hentry
      · cases hentry
      · next hne =>
        obtain ⟨ref, href, -⟩ := Option.map_eq_some_iff.mp hentry.symm
        exact ⟨Table.mem_of_lookup href, hne⟩
    · rintro ⟨hmem, hne⟩
      obtain ⟨ref, href⟩ := Table.exists_lookup_of_mem hmem
      rw [if_neg hne, href, Option.map_some] at hentry
      obtain ⟨p, hp, -⟩ := Option.map_eq_some_iff.mp hentry
      exact Table.mem_of_lookup hp
  · have hentry := hother other
    rw [hp, href, Option.map_some, Option.map_some] at hentry
    split at hentry
    · cases hentry
    · exact Option.some.inj hentry

/-! ## A run -/

section Examples

/-- Peer lists are encoded, and every request for one is understood. -/
def listCodecs : Codecs :=
  { Sample.codecs with
    peerListRequest := ⟨fun _ => some [], fun _ => some ⟨[]⟩⟩
    peerInfoList := Sample.peerInfoList }

def listPlatform : Supernode.Platform := { Sample.platform with codecs := listCodecs }

def listEdgePlatform : EdgeClient.Platform := { Sample.edgePlatform with codecs := listCodecs }

theorem transmits_listPlatform (m : Registry UInt32 Bytes Bytes Bytes Edge) :
    Transmits listPlatform listEdgePlatform m := fun pil _ => Sample.decode_peerInfoList pil

def start : PeerView := ⟨Sample.start, fun _ => [], fun _ => Sample.edge "c" "m" false []⟩

theorem starting_start : Starting start := ⟨⟨_, _, _, _, _, _, rfl⟩, fun _ => rfl, fun _ => rfl⟩

/-- The packet is about peers, and there is no community but the one it is for. -/
def orderlyTest (w : PeerView) : Event → Bool
  | .supernode (.packet _ packet addr) =>
    match newRawMessage packet addr with
    | .ok (.ok r) =>
      r.header.packetType ∈ [typeRegisterRequest, typeUnregisterRequest, typeHeartbeat,
        typePeerListRequest] && w.sn.communities.keys.all (· = r.communityHash)
    | _ => false
  | .supernode _ => false
  | .read _ _ _ => true

theorem orderly_of_test (w : PeerView) (ev : Event) (h : orderlyTest w ev = true) :
    Orderly listPlatform w ev := by
  cases ev with
  | read mac env addr => trivial
  | supernode ev =>
    cases ev with
    | packet env packet addr =>
      simp only [orderlyTest] at h
      split at h
      · next r hraw =>
        obtain ⟨htype, hone⟩ := Bool.and_eq_true_iff.mp h
        refine ⟨⟨r, hraw, ?_⟩, ?_⟩
        · have htype : r.header.packetType ∈ [typeRegisterRequest, typeUnregisterRequest,
            typeHeartbeat, typePeerListRequest] := of_decide_eq_true htype
          simp only [List.mem_cons, List.not_mem_nil, or_false] at htype
          unfold AboutMembership
          tauto
        · rintro cm edge ⟨r', hraw', -, -, -, -, -, hmac, hfree⟩ hash cm' hcm' hmem
          rw [hraw] at hraw'
          cases hraw'
          obtain rfl : hash = r.communityHash := of_decide_eq_true
            (List.all_eq_true.mp hone hash (Table.mem_of_lookup hcm'))
          have hnone := hfree cm' hcm'
          obtain ⟨ref, href⟩ := Table.exists_lookup_of_mem hmem
          rw [hmac] at href
          exact absurd (hnone.symm.trans href) (by simp)
      · cases h
    | cleanup env => cases h
    | connect connID conn => cases h
    | disconnect connID => cases h

/-- The edge is a member of the community. -/
def memberTest (name : String) (mac : Bytes) (s : Supernode) : Bool :=
  (s.communities.lookup (hashCommunity (ascii name))).any fun cm => decide (mac ∈ (s.cms.cell cm).edges)

def repliedTest (mac : Bytes) (t : PeerViewTaken) : Bool :=
  match t.event with
  | .supernode ev => decide (requester ev = some mac) && decide (arrivals (some mac) t.output mac ≠ [])
  | .read _ _ _ => false

theorem registered_of_memberTest {name : String} (h : memberTest name mac t.before.sn = true) :
    Registered mac t := by
  obtain ⟨cm, hcm, hmem⟩ := (Option.any_eq_true _ _).mp h
  exact ⟨_, cm, hcm, of_decide_eq_true hmem⟩

theorem replied_of_test (h : repliedTest mac t = true) : Replied mac t := by
  unfold repliedTest at h
  split at h
  · next ev hev =>
    obtain ⟨hasked, hne⟩ := Bool.and_eq_true_iff.mp h
    exact ⟨ev, hev, of_decide_eq_true hasked, of_decide_eq_true hne⟩
  · cases h

/-- Edges `n` and `m` register, `m` asks for the list, and `n` registers again from another
address; `m` reads both messages. -/
def listRun : List Event :=
  [.supernode (registers "c" "n" 1), .supernode (registers "c" "m" 2),
    .supernode (.packet Sample.env (Sample.request typePeerListRequest (ascii "c") (ascii "m"))
      (Sample.client 2)),
    .supernode (registers "c" "n" 3),
    .read (Supernode.macText "c" "m") Sample.edgeEnv (Sample.client 254),
    .read (Supernode.macText "c" "m") Sample.edgeEnv (Sample.client 254)]

/-- After the run, `m` knows `n`. -/
theorem peers_agree_two_members :
    ∃ (hist : List PeerViewTaken) (w : PeerView) (cm : CommunityRef),
      Trace (step listPlatform listEdgePlatform) Starting (Orderly listPlatform) hist w ∧
      Supernode.macText "c" "n" ∈ (w.edge (Supernode.macText "c" "m")).peers.peers ∧
      ∀ other, other ∈ (w.edge (Supernode.macText "c" "m")).peers.peers ↔
        other ∈ (w.sn.cms.cell cm).edges ∧ other ≠ Supernode.macText "c" "m" := by
  have htest : (traceAllowed (step listPlatform listEdgePlatform) orderlyTest [] start listRun).any
      (fun res => memberTest "c" (Supernode.macText "c" "m") res.2.sn &&
        latelyTest (fun t => memberTest "c" (Supernode.macText "c" "m") t.before.sn)
          (repliedTest (Supernode.macText "c" "m")) res.1 &&
        decide (res.2.inbox (Supernode.macText "c" "m") = []) &&
        decide (Supernode.macText "c" "n" ∈ (res.2.edge (Supernode.macText "c" "m")).peers.peers)) = true := by
    decide +kernel
  obtain ⟨⟨hist, w⟩, hrun, hres⟩ := (Option.any_eq_true _ _).mp htest
  simp only [Bool.and_eq_true] at hres
  obtain ⟨⟨⟨hmember, hlately⟩, hread⟩, hknown⟩ := hres
  obtain ⟨cm, hcm, hmember⟩ := (Option.any_eq_true _ _).mp hmember
  have htrace : Trace (step listPlatform listEdgePlatform) Starting (Orderly listPlatform) hist w :=
    .of_traceAllowed orderly_of_test (.init starting_start) hrun
  have hreply : Lately (Registered (Supernode.macText "c" "m"))
      (fun t _ => Replied (Supernode.macText "c" "m") t) hist :=
    .of_latelyTest (fun t => registered_of_memberTest) (fun t _ => replied_of_test) hlately
  exact ⟨hist, w, cm, htrace, of_decide_eq_true hknown,
    (peers_agree (fun s _ => transmits_listPlatform s.registry) htrace hcm (of_decide_eq_true hmember) hreply (of_decide_eq_true hread)).1⟩

end Examples

end N2nGo.PeerView
