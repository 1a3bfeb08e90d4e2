import N2nGo.Analysis.PeerSockets

/-!
# Changes that are still to be reported

Every change of the registry sets `hasPendingChanges`, and `sendP2PInfos` clears it again
when it reports. It clears the flag after it has collected the peers, so a peer that comes
or goes in between is not reported until something else changes. As long as this does not
happen, a registry that differs from the last snapshot has its flag set or is about to be
read (`no_update_lost`).
-/

set_option autoImplicit false

namespace N2nGo

open N2nGo.Lib N2nGo.Protocol N2nGo.Messages

namespace PeerRegistry

/-! ## Changes set the flag -/

/-- The flag is set, or nothing has changed. -/
def Noted (reg reg' : PeerRegistry) : Prop :=
  reg'.hasPendingChanges = true ∨ reg'.peers = reg.peers ∧ reg'.records = reg.records ∧
    reg'.hasPendingChanges = reg.hasPendingChanges

/-- The call brings and removes no peer; it may overwrite those that are there. -/
def KeepsMembers (reg : PeerRegistry) (c : Call) : Prop :=
  c.resets = false ∧ (∀ info ∈ c.brings, info.key ∈ reg.peers) ∧
    ∀ mac ∈ reg.peers, c.drops mac = false

section Calls

variable {services : Bytes → Option ℕ} {now : ℤ} {order : MapOrder} {reg reg1 reg' : PeerRegistry}
  {info : PeerInfo} {infos : List PeerInfo} {overwrite : Bool} {c : Call} {mac : Bytes}

theorem Noted.refl (reg : PeerRegistry) : Noted reg reg := Or.inr ⟨rfl, rfl, rfl⟩

theorem Noted.trans (h : Noted reg reg1) (h' : Noted reg1 reg') : Noted reg reg' := by
  rcases h' with hset | ⟨hpeers', hrecords', hflag'⟩
  · exact Or.inl hset
  · rcases h with hset | ⟨hpeers, hrecords, hflag⟩
    · exact Or.inl (hflag'.trans hset)
    · exact Or.inr ⟨hpeers'.trans hpeers, hrecords'.trans hrecords, hflag'.trans hflag⟩

theorem Noted.pending (h : Noted reg reg') (hset : reg.hasPendingChanges = true) :
    reg'.hasPendingChanges = true := by
  rcases h with hset' | ⟨-, -, hflag⟩
  · exact hset'
  · exact hflag.trans hset

theorem pending_addPeer_true (services : Bytes → Option ℕ) (now : ℤ) (reg : PeerRegistry)
    (info : PeerInfo) : (addPeer services now reg info true).1.hasPendingChanges = true := by
  rcases addPeer_true services now reg info with ⟨p, -, heq⟩ | ⟨-, heq⟩
  · rw [heq]
    rfl
  · rw [heq]
    rfl

theorem noted_addPeer : Noted reg (addPeer services now reg info overwrite).1 := by
  rcases addPeer_eq services now reg info overwrite with ⟨e, heq⟩ | ⟨-, heq⟩
  · rw [heq]
    exact .refl reg
  · rw [heq]
    exact Or.inl (pending_addPeer_true services now reg info)

theorem noted_addPeers : Noted reg (addPeers services now overwrite infos reg).1 :=
  addPeers_invariant services now overwrite infos (fun _ _ _ h => h.trans noted_addPeer) (.refl reg)

theorem noted_removePeer : Noted reg (removePeer services reg mac) := by
  unfold removePeer
  split
  · exact .refl reg
  · exact Or.inl rfl

theorem pending_syncPeers_empty {reset : Bool} (hempty : reg.peers = ∅) (hinfos : infos ≠ []) :
    (syncPeers services now order infos reset overwrite reg).1.hasPendingChanges = true := by
  obtain ⟨info, rest, rfl⟩ := List.exists_cons_of_ne_nil hinfos
  have hnone : reg.peers.lookup info.key = none := by
    rw [hempty]
    rfl
  have hadd : addPeer services now reg info overwrite = addPeer services now reg info true := by
    have hnone : reg.peers.lookup (Net.hardwareAddrString info.macAddr) = none := hnone
    unfold addPeer
    simp only [hnone]
  have hpending : (addPeers services now overwrite (info :: rest) reg).1.hasPendingChanges = true := by
    have h1 := pending_addPeer_true services now reg info
    rw [← hadd] at h1
    unfold addPeers
    split
    · next reg1 e heq =>
      rw [heq] at h1
      exact h1
    · next reg1 ref heq =>
      rw [heq] at h1
      exact noted_addPeers.pending h1
  exact syncPeers_invariant (I := fun reg => reg.hasPendingChanges = true)
    (fun _ _ _ _ h => noted_removePeer.pending h) hpending

/-- **A call that changes the registry sets the flag**, unless it empties it. -/
theorem noted_call (hreset : c.resets = true → c.brings ≠ []) {u : Unit}
    (h : call services reg c = .ok (reg', u)) : Noted reg reg' := by
  cases hresets : c.resets with
  | false =>
    refine call_invariant (I := Noted reg) (fun htrue => ?_) (fun _ => .refl reg)
      (fun reg1 reg2 hpeers hrecords _ hpending h1 => h1.trans (Or.inr ⟨hpeers, hrecords, hpending⟩))
      (fun now reg1 info _ h1 => h1.trans noted_addPeer)
      (fun reg1 mac _ h1 => h1.trans noted_removePeer) h
    rw [hresets] at htrue
    cases htrue
  | true =>
    -- the registry is emptied, so the first peer of the list is new
    have hbrings := hreset hresets
    cases c with
    | addPeer now info overwrite => cases hresets
    | removePeer mac => cases hresets
    | handlePeerInfoList now order pil reset overwrite =>
      obtain ⟨htype, htrue⟩ := Bool.and_eq_true_iff.mp hresets
      have htype := of_decide_eq_true htype
      cases htrue
      simp only [Call.brings, htype, true_or, if_true] at hbrings
      obtain ⟨⟨reg1, res⟩, hlist, h⟩ := bind_eq_ok.mp h
      cases h
      unfold handlePeerInfoList at hlist
      simp only [if_pos htype] at hlist
      obtain ⟨reg2, horigin, hsync⟩ := bind_eq_ok.mp hlist
      obtain ⟨hpeers, -⟩ := setOrigin_ok horigin
      have hpending : (syncPeers services now order pil.peerInfos true overwrite
          reg2).1.hasPendingChanges = true := pending_syncPeers_empty hpeers hbrings
      rw [Except.ok.inj hsync] at hpending
      exact Or.inl hpending

/-! ## Calls that keep the members -/

theorem peers_addPeer (hknown : info.key ∈ reg.peers) :
    (addPeer services now reg info overwrite).1.peers = reg.peers := by
  rcases addPeer_eq services now reg info overwrite with ⟨e, heq⟩ | ⟨-, heq⟩
  · rw [heq]
  · rw [heq]
    rcases addPeer_true services now reg info with ⟨p, -, heq⟩ | ⟨hnone, -⟩
    · rw [heq]
      rfl
    · obtain ⟨p, hp⟩ := Table.exists_lookup_of_mem hknown
      rw [hnone] at hp
      cases hp

theorem peers_removePeer (hnone : mac ∉ reg.peers) : (removePeer services reg mac).peers = reg.peers := by
  unfold removePeer
  rw [AList.lookup_eq_none.mpr hnone]

theorem peers_call (hkeep : KeepsMembers reg c) {u : Unit} (h : call services reg c = .ok (reg', u)) :
    reg'.peers = reg.peers := by
  obtain ⟨hreset, hknown, hkept⟩ := hkeep
  refine call_invariant (I := fun reg1 => reg1.peers = reg.peers) (fun htrue => ?_) (fun _ => rfl)
    (fun reg1 reg2 hpeers _ _ _ h1 => hpeers.trans h1) (fun now reg1 info hinfo h1 => ?_)
    (fun reg1 mac hdrops h1 => ?_) h
  · rw [hreset] at htrue
    cases htrue
  · refine (peers_addPeer ?_).trans h1
    rw [h1]
    exact hknown info hinfo
  · refine (peers_removePeer fun hmem => ?_).trans h1
    rw [h1] at hmem
    have hfalse := hkept mac hmem
    rw [hdrops] at hfalse
    cases hfalse

end Calls

end PeerRegistry

namespace Reporter

open PeerRegistry

/-- The infos are those of the peers in the registry. -/
def Current (reg : PeerRegistry) (infos : List PeerInfo) : Prop :=
  ∀ info, info ∈ infos ↔ ∃ mac, reg.Entry mac info

/-- The pointers lead to the peers in the registry. -/
def Exact (reg : PeerRegistry) (toPeers : List PeerRef) : Prop :=
  ∀ p, p ∈ toPeers ↔ ∃ mac, reg.peers.lookup mac = some p

/-- If the peers differ from the last snapshot, the flag is set or the registry is about to be
read.
GOLINE: edge/requests.go:69-88 -/
def NoUpdateLost (s : Reporter) : Prop :=
  ¬ Current s.reg s.snapshot → s.reg.hasPendingChanges = true ∨ s.pos = .tested

/-- No peer comes or goes between the snapshot and the clearing of the flag, an edge that does
not know its own infos reports no peers, and the registry is not emptied for good. -/
def Unhurried (s : Reporter) : Event → Prop
  | .receive c => (∀ toPeers, s.pos = .copied toPeers → KeepsMembers s.reg c) ∧
      (c.resets = true → c.brings ≠ [])
  | .report _ _ => s.pos = .tested → s.reg.me = none → s.reg.peers = ∅

/-- A new registry, of which nothing has been reported. -/
def Fresh (s : Reporter) : Prop := New s.reg ∧ s.pos = .idle ∧ s.last = []

/-- What holds at each position of `sendP2PInfos`. -/
def UpToDate (s : Reporter) : Prop :=
  match s.pos with
  | .idle => s.reg.hasPendingChanges = true ∨ Current s.reg s.last
  | .tested => s.reg.hasPendingChanges = true
  | .copied toPeers => s.reg.hasPendingChanges = true ∧ Exact s.reg toPeers
  | .cleared toPeers => s.reg.hasPendingChanges = true ∨ Exact s.reg toPeers

section Steps

variable {services : Bytes → Option ℕ} {s s' : Reporter} {reg reg' : PeerRegistry}
  {toPeers : List PeerRef} {infos : List PeerInfo}

theorem Exact.current (h : Exact reg toPeers) : Current reg (read reg toPeers) := by
  intro info
  unfold read
  rw [List.mem_map]
  constructor
  · rintro ⟨p, hp, hinfo⟩
    obtain ⟨mac, hmac⟩ := (h p).mp hp
    exact ⟨mac, p, hmac, hinfo⟩
  · rintro ⟨mac, p, hmac, hinfo⟩
    exact ⟨p, (h p).mpr ⟨mac, hmac⟩, hinfo⟩

theorem Exact.of_peers (h : Exact reg toPeers) (hpeers : reg'.peers = reg.peers) :
    Exact reg' toPeers := by
  unfold Exact
  rw [hpeers]
  exact h

theorem Current.of_same (h : Current reg infos) (hpeers : reg'.peers = reg.peers)
    (hrecords : reg'.records = reg.records) : Current reg' infos := by
  unfold Current Entry
  rw [hpeers, hrecords]
  exact h

theorem exact_peerPointers (order : MapOrder) (h : reg.me = none → reg.peers = ∅) :
    Exact reg (peerPointers order reg) := by
  intro p
  unfold peerPointers
  cases hme : reg.me with
  | none =>
    refine iff_of_false List.not_mem_nil ?_
    rintro ⟨mac, hmac⟩
    rw [h hme] at hmac
    cases hmac
  | some me =>
    show p ∈ order.visit reg.peers.values ↔ _
    rw [MapOrder.mem_visit, Table.mem_values_iff]

theorem UpToDate.receive (h : s.UpToDate) {c : Call} (hadm : s.Unhurried (.receive c)) {u : Unit}
    (hcall : s.reg.call services c = .ok (reg', u)) : UpToDate { s with reg := reg' } := by
  have hnoted := noted_call hadm.2 hcall
  obtain ⟨reg, pos, last⟩ := s
  cases pos with
  | idle =>
    rcases hnoted with hset | ⟨hpeers, hrecords, hflag⟩
    · exact Or.inl hset
    · exact h.imp hflag.trans fun hcurrent => hcurrent.of_same hpeers hrecords
  | tested => exact hnoted.pending h
  | copied toPeers =>
    exact ⟨hnoted.pending h.1, h.2.of_peers (peers_call (hadm.1 toPeers rfl) hcall)⟩
  | cleared toPeers =>
    rcases hnoted with hset | ⟨hpeers, -, hflag⟩
    · exact Or.inl hset
    · exact h.imp hflag.trans fun hexact => hexact.of_peers hpeers

theorem UpToDate.step (h : s.UpToDate) {ev : Event} (hadm : s.Unhurried ev) {u : Unit}
    (hstep : s.step services ev = .ok (s', u)) : s'.UpToDate := by
  cases ev with
  | receive c =>
    obtain ⟨⟨reg', u⟩, hcall, hstep⟩ := bind_eq_ok.mp hstep
    cases hstep
    exact h.receive hadm hcall
  | report order waiting =>
    obtain ⟨reg, pos, last⟩ := s
    cases pos with
    | idle =>
      by_cases htest : ¬ waiting ∧ reg.hasPendingChanges
      · rw [step, if_pos htest] at hstep
        cases hstep
        exact htest.2
      · rw [step, if_neg htest] at hstep
        cases hstep
        exact h
    | tested =>
      cases hstep
      exact ⟨h, exact_peerPointers order (hadm rfl)⟩
    | copied toPeers =>
      cases hstep
      exact Or.inr (h.2.of_peers rfl)
    | cleared toPeers =>
      cases hstep
      exact h.imp id fun hexact => hexact.current

theorem UpToDate.noUpdateLost (h : s.UpToDate) : s.NoUpdateLost := by
  obtain ⟨reg, pos, last⟩ := s
  intro hdiffers
  cases pos with
  | idle => exact Or.inl (h.resolve_right hdiffers)
  | tested => exact Or.inr rfl
  | copied toPeers => exact Or.inl h.1
  | cleared toPeers => exact Or.inl (h.resolve_right fun hexact => hdiffers hexact.current)

/-- **No update is lost** in any interleaving in which no peer comes or goes between the
snapshot and the clearing of the flag, every snapshot is taken by an edge that knows its own
infos or has no peers, and the registry is not emptied for good.
GOLINE: edge/requests.go:69-88, p2p/p2p.go:134-158, 230-291 -/
theorem no_update_lost (services : Bytes → Option ℕ) (s : Reporter)
    (h : Reach (step services) Fresh Unhurried s) : s.NoUpdateLost := by
  have hinv : s.UpToDate := by
    refine Reach.invariant (I := UpToDate) ?_ (fun _ _ _ _ hI hadm hstep => hI.step hadm hstep) h
    rintro ⟨reg, pos, last⟩ ⟨⟨communityName, noPeer, hreg⟩, hpos, hlast⟩
    cases hreg
    cases hpos
    cases hlast
    refine Or.inr fun info => iff_of_false List.not_mem_nil ?_
    rintro ⟨mac, p, hp, -⟩
    cases hp
  exact hinv.noUpdateLost

end Steps

/-! ## A peer that comes at the wrong time -/

namespace Sample

open PeerRegistry.Sample

def fresh : Reporter := ⟨registry, .idle, []⟩

/-- The list of the supernode: this edge is 9, and peer 1 is there. -/
def lists : Event :=
  .receive (.handlePeerInfoList 0 MapOrder.stored
    ⟨true, some (peerInfo 9), [peerInfo 1], typeList.toUInt32⟩ false true)

/-- A peer is announced. -/
def announces (info : PeerInfo) : Event := .receive (.addPeer 0 info true)

def reports : Event := .report MapOrder.stored false

/-- Peer 1 with another description. -/
def described : PeerInfo := { peerInfo 1 with desc := ascii "d" }

def isCleared : ReportPos → Bool
  | .cleared _ => true
  | _ => false

end Sample

/-- A test for `Unhurried`. -/
def unhurriedTest (s : Reporter) : Event → Bool
  | .receive c => !c.resets && (c.brings.all (fun info => decide (info.key ∈ s.reg.peers)) &&
      s.reg.peers.keys.all (fun mac => !c.drops mac) ||
    match s.pos with
    | .copied _ => false
    | _ => true)
  | .report _ _ => s.reg.me.isSome ||
    match s.pos with
    | .tested => false
    | _ => true

theorem unhurried_of_test (s : Reporter) (ev : Event) (h : unhurriedTest s ev = true) :
    s.Unhurried ev := by
  cases ev with
  | receive c =>
    obtain ⟨hreset, h⟩ := Bool.and_eq_true_iff.mp h
    have hreset : c.resets = false := Bool.not_eq_true' _ |>.mp hreset
    refine ⟨fun toPeers hpos => ?_, fun hset => by rw [hreset] at hset; cases hset⟩
    rw [hpos, Bool.or_false] at h
    obtain ⟨hknown, hkept⟩ := Bool.and_eq_true_iff.mp h
    refine ⟨hreset, fun info hinfo => of_decide_eq_true (List.all_eq_true.mp hknown info hinfo),
      fun mac hmac => ?_⟩
    exact Bool.not_eq_true' _ |>.mp (List.all_eq_true.mp hkept mac hmac)
  | report order waiting =>
    intro hpos hme
    unfold unhurriedTest at h
    rw [hpos, hme] at h
    cases h

open Reporter.Sample PeerRegistry.Sample

/-- Peer 1 changes its description while it is being reported: the report has the new one. -/
theorem no_update_lost_described :
    ∃ s, Reach (step noServices) Fresh Unhurried s ∧ s.last = [described] ∧ s.NoUpdateLost := by
  obtain ⟨s, hrun, hlast⟩ := (Option.any_eq_true _ _).mp
    (show Option.any (fun s : Reporter => decide (s.last = [described]))
      (runAllowed (step noServices) unhurriedTest fresh
        [lists, Sample.reports, Sample.reports, announces described, Sample.reports,
          Sample.reports]) = true by decide +kernel)
  have hreach : Reach (step noServices) Fresh Unhurried s :=
    .of_runAllowed unhurried_of_test (.init ⟨⟨_, _, rfl⟩, rfl, rfl⟩) hrun
  exact ⟨s, hreach, of_decide_eq_true hlast, no_update_lost noServices s hreach⟩

/-- Peer 2 comes after the snapshot and before the flag is cleared: it is in the registry, not
in the snapshot, and nothing is pending. -/
theorem update_lost :
    ∃ s, Reach (step noServices) Fresh (fun _ _ => True) s ∧
      s.reg.Entry (peerInfo 2).key (peerInfo 2) ∧ s.snapshot = [peerInfo 1] ∧
      s.reg.hasPendingChanges = false ∧ ¬ s.NoUpdateLost := by
  obtain ⟨s, hrun, hs⟩ := exists_of_passes
    (x := runEvents (step noServices) fresh
      [lists, Sample.reports, Sample.reports, announces (peerInfo 2), Sample.reports])
    (p := fun s : Reporter => decide (s.reg.peers.lookup (peerInfo 2).key = some 1 ∧
      (s.reg.records.cell 1).infos = peerInfo 2 ∧ s.snapshot = [peerInfo 1] ∧
      s.reg.hasPendingChanges = false) && isCleared s.pos) (by decide +kernel)
  obtain ⟨hs, hpos⟩ := Bool.and_eq_true_iff.mp hs
  obtain ⟨hpeer, hinfo, hsnapshot, hflag⟩ := of_decide_eq_true hs
  have hentry : s.reg.Entry (peerInfo 2).key (peerInfo 2) := ⟨1, hpeer, hinfo⟩
  refine ⟨s, .of_runEvents (.init ⟨⟨_, _, rfl⟩, rfl, rfl⟩) hrun, hentry, hsnapshot, hflag,
    fun hnone => ?_⟩
  have hdiffers : ¬ Current s.reg s.snapshot := by
    intro hcurrent
    have hmem := (hcurrent (peerInfo 2)).mpr ⟨_, hentry⟩
    rw [hsnapshot] at hmem
    exact absurd (List.mem_singleton.mp hmem) (by decide)
  rcases hnone hdiffers with hset | htested
  · rw [hflag] at hset
    cases hset
  · rw [htested] at hpos
    cases hpos

end Reporter

end N2nGo
