import N2nGo.Analysis.Budget
import N2nGo.Analysis.Reachability

/-!
# Flags that follow the status of a peer

Two flags go with the status of a peer. `isFullDuplex` may be set only when the peer is
available, and is not taken back when the status changes. `hasPendingChanges` is set when
a status is asked for that the peer does not have, which is not the same as a change of
its status: a peer that is given up while it is pending has been asked for the status it
has. Both results name the updates at which the flag is left behind.

The second one is about an edge with its ticks, messages and reports; a tick and a message
are runs of single updates of the registry (`reach_tick`, `reach_handled`).
-/

set_option autoImplicit false

namespace N2nGo

open N2nGo.Lib N2nGo.Protocol N2nGo.Messages

namespace PeerRegistry

open Peer

variable {services : Bytes → Option ℕ} {reg reg' reg'' : PeerRegistry} {mac : Bytes} {p : PeerRef}
  {u : Unit} {op : Operation} {q : Peer}

/-! ## Full duplex -/

/-- A ping goes to a peer that still has the status for which it was listed. -/
def AsListed (reg : PeerRegistry) : Operation → Prop
  | .ping _ p asAvailable _ =>
    if asAvailable then (reg.records.cell p).p2pStatus = .available
    else (reg.records.cell p).p2pStatus = .unknown ∨ (reg.records.cell p).p2pStatus = .pending
  | .call _ | .pong _ _ _ _ | .report _ _ | .sweep _ _ => True

/-- A peer in full duplex keeps its addresses, its pongs carry the check ID on record, and no
ping makes it pending. A tick lists the peers before it pings them, so a peer may get into
full duplex in between.
GOLINE: edge/routines.go:17-55 -/
def KeepsDuplex (reg : PeerRegistry) : Operation → Prop
  | .ping _ p asAvailable _ =>
    asAvailable = false → (reg.records.cell p).isFullDuplex = false
  | .pong _ p checkId _ =>
    (reg.records.cell p).isFullDuplex = true → (reg.records.cell p).p2pCheckID = checkId
  | .call c => c.resets = false → c.overwrites = true → ∀ info ∈ c.brings, ∀ p,
    reg.peers.lookup info.key = some p → (reg.records.cell p).isFullDuplex = true →
      ¬ Readdressed (reg.records.cell p).infos info
  | .report _ _ | .sweep _ _ => True

/-- Full duplex is for peers that are available. -/
def DuplexAvailable (q : Peer) : Prop := q.isFullDuplex = true → q.p2pStatus = .available

theorem status_updateP2PStatus_available (h : 1 ≤ q.pendingTTL) (now : ℤ) (checkid : Bytes) :
    (q.updateP2PStatus now .available checkid).1.p2pStatus = .available := by
  rw [updateP2PStatus_available, if_neg (Int.not_lt.mpr h)]

theorem DuplexAvailable.asked (h : DuplexAvailable q) (hq : q.Budgeted) (now : ℤ) (checkid : Bytes) :
    DuplexAvailable (q.updateP2PStatus now .available checkid).1 := by
  intro hduplex
  rw [duplex_updateP2PStatus] at hduplex
  exact status_updateP2PStatus_available (hq.available (h hduplex)) now checkid

theorem DuplexAvailable.effect (h : DuplexAvailable q) (hq : q.Budgeted)
    (hcell : reg.records.cell p = q) (hadm : reg.KeepsDuplex op) :
    DuplexAvailable (reg.effect op p q) := by
  cases op with
  | call c => exact h
  | ping now p' asAvailable checkid =>
    simp only [PeerRegistry.effect]
    split
    · next heq =>
      subst heq hcell
      cases asAvailable with
      | true => exact h.asked hq now checkid
      | false =>
        intro hduplex
        rw [duplex_updateP2PStatus, hadm rfl] at hduplex
        cases hduplex
    · exact h
  | pong now p' checkId fromSupernode =>
    simp only [PeerRegistry.effect]
    split
    · next heq =>
      subst heq hcell
      intro hduplex
      by_contra hnot
      rw [duplex_pongedPeer, if_neg hnot] at hduplex
      -- the flag was set before, so the pong carries the right check ID
      rw [status_pongedPeer, if_pos (hadm hduplex)] at hnot
      exact hnot (status_updateP2PStatus_available (hq.available (h hduplex)) now checkId)
    · exact h
  | report now mac =>
    simp only [PeerRegistry.effect]
    split
    · exact h.asked hq now []
    · exact h
  | sweep now order => exact h

/-- **An update keeps peers in full duplex available.** -/
theorem duplexAvailable_operate (hs : reg.Sound)
    (h : ∀ p, p < reg.records.next → DuplexAvailable (reg.records.cell p))
    (hadm : reg.KeepsDuplex op) (hop : operate services reg op = .ok (reg', u)) :
    ∀ p, p < reg'.records.next → DuplexAvailable (reg'.records.cell p) := by
  intro p hp
  rcases operate_cases hs hop with ⟨c, rfl, hcall⟩ | ⟨-, -, hnext, hcell⟩
  · -- in the course of the call a peer in full duplex keeps its addresses
    have hrewritten : Rewritten (fun p q => DuplexAvailable q ∧
        q.isFullDuplex = (reg.records.cell p).isFullDuplex ∧
        (q.isFullDuplex = true → ¬ Readdressed (reg.records.cell p).infos q.infos)) reg c reg' := by
      refine .call hs.linked (fun hreset htrue info hinfo p hlook now q hq => ?_)
        (fun p hp => ⟨h p hp, rfl, fun _ => by simp [Readdressed]⟩) hcall
      obtain ⟨hav, hsame, hinfos⟩ := hq
      have hnew : q.isFullDuplex = true → ¬ Readdressed (reg.records.cell p).infos info :=
        fun hduplex => hadm hreset htrue info hinfo p hlook (hsame ▸ hduplex)
      rw [overwritten_eq]
      refine ⟨fun hduplex => ?_, hsame, hnew⟩
      have hkept : ¬ Readdressed q.infos info := by
        have h1 := hinfos hduplex
        have h2 := hnew hduplex
        unfold Readdressed at h1 h2 ⊢
        push Not at h1 h2 ⊢
        rw [← h1.1, ← h1.2]
        exact h2
      simp only [hkept, if_false]
      exact hav hduplex
    by_cases hlt : p < reg.records.next
    · exact (hrewritten.old p hlt).1
    · intro hduplex
      rw [(hrewritten.new p (Nat.not_lt.mp hlt) hp).duplex] at hduplex
      cases hduplex
  · have hlt : p < reg.records.next := hnext ▸ hp
    rw [hcell]
    exact (h p hlt).effect (hs.budgeted p hlt) rfl hadm

/-- **A peer in full duplex is available**, in every registry that updates lead to, if no peer in
full duplex gets another address, sends a pong with a wrong check ID or is pinged as pending.
GOLINE: p2p/p2p.go:185-256, edge/handlers.go:210-240, edge/routines.go:17-55 -/
theorem full_duplex_available (services : Bytes → Option ℕ) (reg : PeerRegistry)
    (h : Reach (operate services) New KeepsDuplex reg)
    (mac : Bytes) (q : Peer) (hq : reg.view mac = some q) (hduplex : q.isFullDuplex = true) :
    q.p2pStatus = .available := by
  have hinv : reg.Sound ∧ ∀ p, p < reg.records.next → DuplexAvailable (reg.records.cell p) := by
    refine h.invariant (I := fun reg => reg.Sound ∧ ∀ p, p < reg.records.next →
      DuplexAvailable (reg.records.cell p)) (fun reg hnew => ⟨sound_of_new hnew, fun p hp => ?_⟩) ?_
    · obtain ⟨communityName, noPeer, rfl⟩ := hnew
      exact absurd hp (Nat.not_lt_zero p)
    · rintro reg op reg' u ⟨hs, hd⟩ hadm hop
      exact ⟨hs.operate hop, duplexAvailable_operate hs hd hadm hop⟩
  obtain ⟨p, hp, rfl⟩ := Table.exists_lookup_of_follow hq
  exact hinv.2 p (hinv.1.linked.lt mac p hp) hduplex

namespace Sample

/-- A peer is added and pinged, and its pong comes straight back. -/
def answered : List Operation := [.call (adds 1), .ping 0 0 false [7], .pong 0 0 [7] false]

/-- Whether a ping or pong is as it should be, and a call brings no peer that is there. -/
def duplexTest (reg : PeerRegistry) : Operation → Bool
  | .ping _ p asAvailable _ => !asAvailable && (reg.records.cell p).p2pStatus = .unknown &&
    !(reg.records.cell p).isFullDuplex
  | .pong _ p checkId _ => (reg.records.cell p).p2pCheckID = checkId
  | .call c => c.brings.all fun info => (reg.peers.lookup info.key).isNone
  | .report _ _ | .sweep _ _ => true

theorem keepsDuplex_of_test (reg : PeerRegistry) (op : Operation) (h : duplexTest reg op = true) :
    reg.AsListed op ∧ reg.KeepsDuplex op := by
  cases op with
  | ping now p asAvailable checkid =>
    simp only [duplexTest, Bool.and_eq_true, Bool.not_eq_true', decide_eq_true_eq] at h
    obtain ⟨⟨rfl, hunknown⟩, hduplex⟩ := h
    exact ⟨Or.inl hunknown, fun _ => hduplex⟩
  | pong now p checkId fromSupernode => exact ⟨trivial, fun _ => of_decide_eq_true h⟩
  | call c =>
    refine ⟨trivial, fun _ _ info hinfo p hp => ?_⟩
    have hnone := List.all_eq_true.mp h info hinfo
    rw [hp] at hnone
    cases hnone
  | report now mac => exact ⟨trivial, trivial⟩
  | sweep now order => exact ⟨trivial, trivial⟩

end Sample

open PeerRegistry.Sample

/-- The peer whose pong came straight back is in full duplex and available. -/
theorem full_duplex_available_answered :
    ∃ reg q, Reach (operate noServices) New KeepsDuplex reg ∧
      reg.view (peerInfo 1).key = some q ∧ q.isFullDuplex = true ∧ q.p2pStatus = .available := by
  have hrun : (runAllowed (operate noServices) duplexTest registry answered).any (fun reg =>
      (reg.view (peerInfo 1).key).any (·.isFullDuplex)) = true := by decide +kernel
  obtain ⟨reg, hreg, htest⟩ := (Option.any_eq_true _ _).mp hrun
  obtain ⟨q, hq, hduplex⟩ := (Option.any_eq_true _ _).mp htest
  have hreach : Reach (operate noServices) New KeepsDuplex reg :=
    .of_runAllowed (fun reg op hop => (keepsDuplex_of_test reg op hop).2) (.init ⟨_, _, rfl⟩) hreg
  exact ⟨reg, q, hreach, hq, hduplex,
    full_duplex_available noServices reg hreach (peerInfo 1).key q hq hduplex⟩

/-- A second pong, with another check ID: the peer is in full duplex and unknown. -/
theorem full_duplex_unknown :
    ∃ reg q, Reach (operate noServices) New AsListed reg ∧
      reg.view (peerInfo 1).key = some q ∧ q.isFullDuplex = true ∧ q.p2pStatus = .unknown := by
  have hrun : (runAllowed (operate noServices) duplexTest registry answered).any (fun reg =>
      ((EdgeClient.recordPong 0 reg 0 [8] false).view (peerInfo 1).key).any fun q =>
        q.isFullDuplex && q.p2pStatus = .unknown) = true := by decide +kernel
  obtain ⟨reg, hreg, htest⟩ := (Option.any_eq_true _ _).mp hrun
  obtain ⟨q, hq, hflags⟩ := (Option.any_eq_true _ _).mp htest
  obtain ⟨hduplex, hunknown⟩ := Bool.and_eq_true_iff.mp hflags
  have hreach : Reach (operate noServices) New AsListed reg :=
    .of_runAllowed (fun reg op hop => (keepsDuplex_of_test reg op hop).1) (.init ⟨_, _, rfl⟩) hreg
  have hpong : operate noServices reg (.pong 0 0 [8] false) =
      .ok (EdgeClient.recordPong 0 reg 0 [8] false, ()) := rfl
  have hlisted : reg.AsListed (.pong 0 0 [8] false) := trivial
  exact ⟨_, q, hreach.step hlisted hpong, hq, hduplex, of_decide_eq_true hunknown⟩

/-! ## Announcements -/

/-- Neither the last ping of a budget, nor a pong with a wrong check ID from a peer without a
budget. These two change a status to another one than is asked for, while the peer has the one
that is asked for. -/
def AnnouncesChange (reg : PeerRegistry) : Operation → Prop
  | .ping _ p asAvailable _ => asAvailable = false →
    ¬ ((reg.records.cell p).p2pStatus = .pending ∧ (reg.records.cell p).pendingTTL = 1)
  | .pong _ p checkId _ =>
    (reg.records.cell p).p2pCheckID ≠ checkId → ¬ Depleted (reg.records.cell p)
  | .call c => c.resets = true → c.brings ≠ []
  | .report _ _ | .sweep _ _ => True

/-- The flag is set, or there are the same peers with the same statuses. -/
def Told (reg reg' : PeerRegistry) : Prop :=
  reg'.hasPendingChanges = true ∨ reg'.hasPendingChanges = reg.hasPendingChanges ∧
    reg'.peers = reg.peers ∧ reg'.records.next = reg.records.next ∧
    ∀ p, p < reg.records.next → (reg'.records.cell p).p2pStatus = (reg.records.cell p).p2pStatus

theorem Told.refl (reg : PeerRegistry) : Told reg reg := Or.inr ⟨rfl, rfl, rfl, fun _ _ => rfl⟩

theorem Told.trans (h : Told reg reg') (h' : Told reg' reg'') : Told reg reg'' := by
  rcases h' with hset | ⟨hflag', hpeers', hnext', hstatus'⟩
  · exact Or.inl hset
  · rcases h with hset | ⟨hflag, hpeers, hnext, hstatus⟩
    · exact Or.inl (hflag'.trans hset)
    · exact Or.inr ⟨hflag'.trans hflag, hpeers'.trans hpeers, hnext'.trans hnext, fun p hp =>
        (hstatus' p (hnext.symm ▸ hp)).trans (hstatus p hp)⟩

theorem Noted.told (h : Noted reg reg') : Told reg reg' := by
  rcases h with hset | ⟨hpeers, hrecords, hflag⟩
  · exact Or.inl hset
  · refine Or.inr ⟨hflag, hpeers, ?_, fun p _ => ?_⟩
    · rw [hrecords]
    · rw [hrecords]

theorem pending_setPendingChangesIf (changed : Bool) :
    (reg.setPendingChangesIf changed).hasPendingChanges = (changed || reg.hasPendingChanges) := by
  cases changed <;> rfl

/-- The announcement is missing only where the status asked for is the old one. -/
theorem told_updateStatus (now : ℤ) (status : P2PCapacity) (checkid : Bytes)
    (h : p < reg.records.next → (reg.records.cell p).p2pStatus = status →
      ((reg.records.cell p).updateP2PStatus now status checkid).1.p2pStatus = status) :
    Told reg (reg.updateStatus now p status checkid) := by
  have hflag : (reg.updateStatus now p status checkid).hasPendingChanges =
      (decide ((reg.records.cell p).p2pStatus ≠ status) || reg.hasPendingChanges) :=
    pending_setPendingChangesIf _
  by_cases hsame : (reg.records.cell p).p2pStatus = status
  · refine Or.inr ⟨by simpa [hsame] using hflag, peers_updateStatus _ _, next_updateStatus _ _ _ _,
      fun p' hp' => ?_⟩
    rw [cell_updateStatus]
    split
    · next heq =>
      subst heq
      rw [h hp' hsame, hsame]
    · rfl
  · exact Or.inl (by simpa [hsame] using hflag)

theorem told_updateFullDuplex (value : Bool) : Told reg (reg.updateFullDuplex p value) := by
  unfold updateFullDuplex
  split
  · exact .refl reg
  · next peer changed hset =>
    have hstatus : peer.p2pStatus = (reg.records.cell p).p2pStatus := by
      unfold Peer.setFullDuplex at hset
      split at hset
      · cases hset
      · cases hset
        rfl
    cases changed with
    | true => exact Or.inl rfl
    | false =>
      refine Or.inr ⟨rfl, rfl, rfl, fun p' _ => ?_⟩
      show ((reg.records.store p peer).cell p').p2pStatus = _
      rw [Heap.cell_store]
      split
      · next heq => rw [heq, hstatus]
      · rfl

theorem available_steady (hs : reg.Sound) (now : ℤ) (checkid : Bytes) (hp : p < reg.records.next)
    (hav : (reg.records.cell p).p2pStatus = .available) :
    ((reg.records.cell p).updateP2PStatus now .available checkid).1.p2pStatus = .available :=
  status_updateP2PStatus_available ((hs.budgeted p hp).available hav) now checkid

/-- **What an update changes it announces.** -/
theorem told_operate (hs : reg.Sound) (hadm : reg.AnnouncesChange op)
    (hop : operate services reg op = .ok (reg', u)) : Told reg reg' := by
  cases op with
  | call c => exact (noted_call hadm hop).told
  | ping now p asAvailable checkid =>
    cases hop
    refine told_updateStatus now _ checkid fun hp hstatus => ?_
    cases asAvailable with
    | true => exact available_steady hs now checkid hp hstatus
    | false =>
      have hpending : (reg.records.cell p).p2pStatus = .pending := hstatus
      have hsteady := (hs.budgeted p hp).steady (hadm rfl)
        (fun hdepleted => by cases hpending.symm.trans hdepleted.1) now checkid
      rwa [hpending] at hsteady
  | pong now p checkId fromSupernode =>
    cases hop
    unfold EdgeClient.recordPong
    have hduplex : ∀ reg1, Told reg reg1 → Told reg
        (if (reg1.records.cell p).p2pStatus = .available then reg1.updateFullDuplex p (!fromSupernode)
        else reg1) := by
      intro reg1 h1
      split
      · exact h1.trans (told_updateFullDuplex _)
      · exact h1
    refine hduplex _ ?_
    split
    · exact told_updateStatus now _ checkId fun hp hav => available_steady hs now checkId hp hav
    · next hwrong =>
      refine told_updateStatus now _ [] fun hp hunknown => ?_
      have hsteady := (hs.budgeted p hp).steady
        (fun hlast => by cases hunknown.symm.trans hlast.1) (hadm hwrong) now []
      rwa [hunknown] at hsteady
  | report now mac =>
    cases hop
    unfold EdgeClient.markAvailable getPeer
    cases hp : reg.peers.lookup mac with
    | none => exact .refl reg
    | some p =>
      exact told_updateStatus now _ [] fun hlt hav => available_steady hs now [] hlt hav
  | sweep now order =>
    cases hop
    rw [hs.getP2PendingPeers now order]
    exact .refl reg

theorem told_of_reach (hs : reg.Sound)
    (h : Reach (operate services) (· = reg) AnnouncesChange reg') : reg'.Sound ∧ Told reg reg' := by
  refine h.invariant (I := fun reg' => reg'.Sound ∧ Told reg reg')
    (fun reg' heq => ?_) ?_
  · subst heq
    exact ⟨hs, .refl _⟩
  · rintro reg1 op reg2 u ⟨hs1, htold⟩ hadm hop
    exact ⟨hs1.operate hop, htold.trans (told_operate hs1 hadm hop)⟩

/-! ## Ticks and messages as runs of updates -/

/-- The tables and the flag are the same. -/
structure SamePeers (reg reg' : PeerRegistry) : Prop where
  peers : reg'.peers = reg.peers
  records : reg'.records = reg.records
  flag : reg'.hasPendingChanges = reg.hasPendingChanges

theorem SamePeers.refl (reg : PeerRegistry) : SamePeers reg reg := ⟨rfl, rfl, rfl⟩

theorem nodup_peersWith (hs : reg.Sound) (order : MapOrder) (status : P2PCapacity) :
    (reg.peersWith order status).Nodup :=
  ((order.visit_perm _).nodup_iff.mpr hs.linked.nodup_values).filter _

theorem mem_peersWith {order : MapOrder} {status : P2PCapacity} (h : p ∈ reg.peersWith order status) :
    (∃ mac, reg.peers.lookup mac = some p) ∧ (reg.records.cell p).p2pStatus = status := by
  obtain ⟨hmem, hstatus⟩ := List.mem_filter.mp h
  exact ⟨EdgeClient.exists_lookup_of_mem_visit hmem, of_decide_eq_true hstatus⟩

end PeerRegistry

namespace EdgeClient

open PeerRegistry Peer

variable {P : Platform} {env : Env} {e e' : EdgeClient} {out : List Output} {r : RawMessage}

/-- Pings, one after the other: each finds its record as it was when the peers were listed. -/
theorem reach_pingPeers (P : Platform) (env : Env) (asAvailable : Bool)
    (adm : PeerRegistry → Operation → Prop) {ps : List PeerRef} (hps : ps.Nodup) (e : EdgeClient)
    (out : List Output)
    (hadm : ∀ p ∈ ps, ∀ reg : PeerRegistry, reg.records.cell p = e.peers.records.cell p →
      ∀ checkid, adm reg (.ping env.now p asAvailable checkid)) :
    Reach (operate P.services) (· = e.peers) adm
      (pingPeers P env (pingStatus asAvailable) ps e out).1.peers ∧
    (pingPeers P env (pingStatus asAvailable) ps e out).1.peers.peers = e.peers.peers ∧
    ∀ p, (pingPeers P env (pingStatus asAvailable) ps e out).1.peers.records.cell p =
        e.peers.records.cell p ∨
      p ∈ ps ∧ ∃ checkid, (pingPeers P env (pingStatus asAvailable) ps e out).1.peers.records.cell p =
        ((e.peers.records.cell p).updateP2PStatus env.now (pingStatus asAvailable) checkid).1 := by
  induction ps generalizing e out with
  | nil => exact ⟨.init rfl, rfl, fun p => Or.inl rfl⟩
  | cons p ps ih =>
    obtain ⟨hnot, hps'⟩ := List.nodup_cons.mp hps
    let checkid := e.checkID (e.peers.records.cell p)
    have hping : (e.pingPeer P env out p 3 (pingStatus asAvailable)).1.peers =
        e.peers.updateStatus env.now p (pingStatus asAvailable) checkid := peers_pingPeer env out 3 _
    have hcell : ∀ p', (e.peers.updateStatus env.now p (pingStatus asAvailable) checkid).records.cell p' =
        e.peers.records.cell p' ∨ p' ∈ p :: ps ∧ p' = p ∧ ∃ checkid',
        (e.peers.updateStatus env.now p (pingStatus asAvailable) checkid).records.cell p' =
          ((e.peers.records.cell p').updateP2PStatus env.now (pingStatus asAvailable) checkid').1 := by
      intro p'
      rw [cell_updateStatus]
      split
      · next heq => exact Or.inr ⟨heq ▸ List.mem_cons_self, heq, checkid, rfl⟩
      · exact Or.inl rfl
    have hoperate : operate P.services e.peers (.ping env.now p asAvailable checkid) =
        .ok (e.peers.updateStatus env.now p (pingStatus asAvailable) checkid, ()) := rfl
    have hfirst := Reach.one hoperate (hadm p List.mem_cons_self e.peers rfl checkid)
    unfold pingPeers
    split
    · next e1 out1 fault heq =>
      rw [heq] at hping
      simp only at hping
      rw [hping]
      exact ⟨hfirst, peers_updateStatus _ _, fun p' => (hcell p').imp_right fun h => ⟨h.1, h.2.2⟩⟩
    · next e1 out1 heq =>
      rw [heq] at hping
      simp only at hping
      have hother : ∀ p' ∈ ps, e1.peers.records.cell p' = e.peers.records.cell p' := by
        intro p' hp'
        rw [hping]
        refine (hcell p').resolve_right ?_
        rintro ⟨-, rfl, -⟩
        exact hnot hp'
      obtain ⟨hrest, hpeers, hcells⟩ := ih hps' e1 out1 fun p' hp' reg hreg =>
        hadm p' (List.mem_cons_of_mem p hp') reg (hreg.trans (hother p' hp'))
      refine ⟨(hping.symm ▸ hfirst).trans hrest, ?_, fun p' => ?_⟩
      · rw [hpeers, hping]
        exact peers_updateStatus _ _
      · rcases hcells p' with hsame | ⟨hp', checkid', hnew⟩
        · rw [hsame, hping]
          exact (hcell p').imp_right fun h => ⟨h.1, h.2.2⟩
        · refine Or.inr ⟨List.mem_cons_of_mem p hp', checkid', ?_⟩
          rw [hnew, hother p' hp']

/-- No pending peer has only one ping left. -/
def NoLastPing (reg : PeerRegistry) : Prop :=
  ∀ mac p, reg.peers.lookup mac = some p → (reg.records.cell p).p2pStatus = .pending →
    (reg.records.cell p).pendingTTL ≠ 1

/-- How a tick updates the registry: peers are pinged as they are listed, and if no pending
peer has only one ping left, changes are announced. -/
def TickUpdate (reg0 reg : PeerRegistry) (op : Operation) : Prop :=
  reg.AsListed op ∧ (NoLastPing reg0 → reg.AnnouncesChange op)

/-- **A tick is a run of pings**, to the peers that are unknown, pending and available. -/
theorem reach_tick (hs : e.peers.Sound) (env : Env) :
    Reach (operate P.services) (· = e.peers) (TickUpdate e.peers)
      (e.handleP2PUpdates P env).1.peers := by
  obtain ⟨h1, hpeers1, hcells1⟩ := reach_pingPeers P env false (TickUpdate e.peers)
    (nodup_peersWith hs env.order .unknown) e [] fun p hp reg hreg checkid => by
      have hunknown : (reg.records.cell p).p2pStatus = .unknown := by
        rw [hreg]
        exact (mem_peersWith hp).2
      exact ⟨Or.inl hunknown, fun _ _ hlast => by cases hunknown.symm.trans hlast.1⟩
  have hpending : pingStatus false = .pending := rfl
  have havailable : pingStatus true = .available := rfl
  rw [hpending] at h1 hpeers1 hcells1
  unfold handleP2PUpdates updatePeersP2PStates getP2PUnknownPeers
  split
  · next e1 out1 fault heq =>
    rw [heq] at h1
    exact h1
  · next e1 out1 heq =>
    rw [heq] at h1 hpeers1 hcells1
    simp only at h1 hpeers1 hcells1
    have hs1 : e1.peers.Sound :=
      h1.invariant (fun _ h0 => h0 ▸ hs) fun _ _ _ _ hI _ hop => hI.operate hop
    obtain ⟨h2, -, -⟩ := reach_pingPeers P env false (TickUpdate e.peers)
      (nodup_peersWith hs1 env.order .pending) e1 out1 fun p hp reg hreg checkid => by
        obtain ⟨⟨mac, hlook⟩, hstatus⟩ := mem_peersWith hp
        refine ⟨Or.inr (by rw [hreg]; exact hstatus), fun hnone _ hlast => ?_⟩
        rw [hreg] at hlast
        rcases hcells1 p with hsame | ⟨hmem, checkid', hnew⟩
        · rw [hsame] at hlast
          exact hnone mac p (hpeers1 ▸ hlook) hlast.1 hlast.2
        · -- a peer that was unknown has just got its budget
          have hbudget := hlast.2
          rw [hnew, updateP2PStatus_eq] at hbudget
          simp [nextTTL, (mem_peersWith hmem).2] at hbudget
    rw [hpending] at h2
    have h12 := h1.trans h2
    rw [hs1.getP2PendingPeers env.now env.order]
    simp only
    split
    · next e2 out2 fault heq' =>
      rw [show e1.withPeers e1.peers = e1 from rfl] at heq'
      rw [heq'] at h12
      exact h12
    · next e2 out2 heq' =>
      rw [show e1.withPeers e1.peers = e1 from rfl] at heq'
      rw [heq'] at h12
      simp only at h12
      have hs2 : e2.peers.Sound :=
        h12.invariant (fun _ h0 => h0 ▸ hs) fun _ _ _ _ hI _ hop => hI.operate hop
      obtain ⟨h3, -, -⟩ := reach_pingPeers P env true (TickUpdate e.peers)
        (nodup_peersWith hs2 env.order .available) e2 out2 fun p hp reg hreg checkid => by
          have hav : (reg.records.cell p).p2pStatus = .available := by
            rw [hreg]
            exact (mem_peersWith hp).2
          exact ⟨hav, fun _ hfalse => by cases hfalse⟩
      rw [havailable] at h3
      exact h12.trans h3

theorem reach_markAvailables (services : Bytes → Option ℕ) (now : ℤ) (macs : List Bytes)
    (reg : PeerRegistry) :
    Reach (operate services) (· = reg) AnnouncesChange (macs.foldl (markAvailable now) reg) := by
  induction macs generalizing reg with
  | nil => exact .init rfl
  | cons mac macs ih =>
    have hreport : operate services reg (.report now mac) = .ok (markAvailable now reg mac, ()) := rfl
    exact (Reach.one hreport trivial).trans (ih (markAvailable now reg mac))

/-- A pong with a wrong check ID comes only from a peer that has a budget. -/
def SparesPong (P : Platform) (e : EdgeClient) (r : RawMessage) : Prop :=
  ∀ m p, toMessage P.codecs.peerToPing r = .ok m → m.msg.isPong = true →
    e.peers.peers.lookup r.edgeMACAddr = some p →
    (e.peers.records.cell p).p2pCheckID ≠ m.msg.checkId → ¬ Depleted (e.peers.records.cell p)

/-- **A message is a run of updates** that announce what they change, as far as the peers go. -/
theorem reach_handled (h : Handled P env e r e' out) (hpong : SparesPong P e r) :
    ∃ reg, Reach (operate P.services) (· = e.peers) AnnouncesChange reg ∧ SamePeers reg e'.peers := by
  cases h with
  | idle seq api _ => exact ⟨_, .init rfl, .refl _⟩
  | peers hm hlist =>
    rename_i m reg res
    have hcall : operate P.services e.peers
        (.call (.handlePeerInfoList env.now env.order m.msg false true)) = .ok (reg, ()) := by
      simp only [operate, PeerRegistry.call, hlist, ok_bind]
    refine ⟨reg, .one hcall fun hreset => ?_, .refl _⟩
    simp [Call.resets] at hreset
  | left hm =>
    rename_i m
    have hcall : operate P.services e.peers (.call (.removePeer m.edgeMACAddr)) =
        .ok (e.peers.removePeer P.services m.edgeMACAddr, ()) := rfl
    exact ⟨_, .one hcall fun hreset => (by cases hreset), .refl _⟩
  | reported hm =>
    rename_i m
    unfold reportedPeers
    cases hfrom : m.msg.fromPeer with
    | none => exact ⟨_, reach_markAvailables P.services env.now _ e.peers, .refl _⟩
    | some info =>
      have hreport : operate P.services e.peers (.report env.now m.edgeMACAddr) =
          .ok (markAvailable env.now e.peers m.edgeMACAddr, ()) := rfl
      exact ⟨_, (Reach.one hreport trivial).trans (reach_markAvailables P.services env.now _ _),
        .refl _⟩
  | fullState hm =>
    rename_i m
    refine ⟨_, .init rfl, ?_⟩
    unfold updateP2PCommunityDatas
    cases m.msg.reachables with
    | none => exact .refl _
    | some reachables => exact ⟨rfl, rfl, rfl⟩
  | pong hm hispong hp =>
    rename_i m p
    have hoperate : operate P.services e.peers
        (.pong env.now p m.msg.checkId r.header.isFromSupernode) = .ok (_, ()) := rfl
    exact ⟨_, .one hoperate (hpong m p hm hispong hp), .refl _⟩
  | key hm hkey hflag => exact ⟨_, .init rfl, .refl _⟩
  | register _ _ _ _ => exact ⟨_, .init rfl, .refl _⟩
  | accepted _ _ _ => exact ⟨_, .init rfl, ⟨rfl, rfl, rfl⟩⟩
  | retried _ _ _ => exact ⟨_, .init rfl, ⟨rfl, rfl, rfl⟩⟩

/-! ## Reports that are due -/

/-- The statuses of the peers. -/
def statuses (e : EdgeClient) (mac : Bytes) : Option P2PCapacity :=
  (e.peers.view mac).map Peer.p2pStatus

/-- A peer is in one of the registries and not in the other. -/
def membersDiffer (e e' : EdgeClient) : Bool :=
  e.peers.peers.keys.any (· ∉ e'.peers.peers.keys) || e'.peers.peers.keys.any (· ∉ e.peers.peers.keys)

/-- `sendP2PInfos` gets to `ClearPendingChanges`.
GOLINE: edge/requests.go:69-82 -/
def clears (e : EdgeClient) : Bool := !e.waitsForSupernode && e.peers.hasPendingChanges

theorem sendP2PInfos_ok {err : Except Err Unit} (h : e.sendP2PInfos P env = .ok (e', out, err)) :
    if e.clears then ∃ seq, e' = (e.withPeers e.peers.clearPendingChanges).withSeq seq else e' = e := by
  unfold sendP2PInfos at h
  unfold clears
  split at h
  · next hwaits =>
    cases h
    simp [hwaits]
  · next hwaits =>
    split at h
    · next hnone =>
      cases h
      simp [hnone]
    · next hpending =>
      obtain ⟨seq, more, rfl, -⟩ := sendStruct_ok h
      simp only [hwaits, not_not.mp hpending]
      exact ⟨seq, rfl⟩

end EdgeClient

/-- An edge, with the statuses of its peers at the last `ClearPendingChanges` and whether a peer
has come or gone since then. The program keeps neither. -/
structure Announcer where
  edge : EdgeClient
  known : Bytes → Option P2PCapacity
  moved : Bool

namespace Announcer

open EdgeClient PeerRegistry Peer

/-- Ping ticks, messages and reports, one at a time. -/
inductive Event where
  | p2p (ev : P2PEvent)
  | sendP2PInfos (env : Env)

/-- GOLINE: edge/routines.go:57-80, 267-279, edge/requests.go:69-88 -/
def step (P : Platform) (s : Announcer) : Event → Go (Announcer × Unit)
  | .p2p ev => do
    let (e, _) ← s.edge.p2pStep P ev
    .ok (⟨e, s.known, s.moved || membersDiffer s.edge e⟩, ())
  | .sendP2PInfos env => do
    let (e, _, _) ← s.edge.sendP2PInfos P env
    .ok (if s.edge.clears then ⟨e, s.edge.statuses, false⟩ else { s with edge := e }, ())

/-- The edge has a new registry. -/
def Fresh (s : Announcer) : Prop := New s.edge.peers ∧ s.known = (fun _ => none) ∧ s.moved = false

/-- No pending peer has only one ping left at a tick, and a pong with a wrong check ID comes only
from a peer that has a budget. -/
def NoSilentGiveUp (P : Platform) (s : Announcer) : Event → Prop
  | .p2p (.tick _) => NoLastPing s.edge.peers
  | .p2p (.message _ packet addr) =>
    ∀ r, newRawMessage packet addr = .ok (.ok r) → SparesPong P s.edge r
  | .sendP2PInfos _ => True

/-- What is not announced has not changed. -/
structure Announced (s : Announcer) : Prop where
  sound : s.edge.peers.Sound
  flag : s.edge.peers.hasPendingChanges = true ∨ s.edge.statuses = s.known ∧ s.moved = false

variable {P : Platform} {s s' : Announcer} {u : Unit}

theorem announced_of_fresh (h : Fresh s) : s.Announced := by
  obtain ⟨hnew, hknown, hmoved⟩ := h
  refine ⟨sound_of_new hnew, Or.inr ⟨?_, hmoved⟩⟩
  obtain ⟨communityName, noPeer, hreg⟩ := hnew
  rw [hknown]
  funext mac
  unfold EdgeClient.statuses
  rw [hreg]
  rfl

theorem Announced.told {e : EdgeClient} (h : s.Announced) (hs : e.peers.Sound)
    (htold : Told s.edge.peers e.peers) :
    (⟨e, s.known, s.moved || membersDiffer s.edge e⟩ : Announcer).Announced := by
  refine ⟨hs, ?_⟩
  rcases htold with hset | ⟨hflag, hpeers, -, hstatus⟩
  · exact Or.inl hset
  · rcases h.flag with hset | ⟨hknown, hmoved⟩
    · exact Or.inl (hflag.trans hset)
    · refine Or.inr ⟨?_, ?_⟩
      · rw [← hknown]
        funext mac
        unfold EdgeClient.statuses PeerRegistry.view Table.follow
        simp only [hpeers]
        cases hlook : s.edge.peers.peers.lookup mac with
        | none => rfl
        | some p => exact congrArg some (hstatus p (h.sound.linked.lt mac p hlook))
      · simp [hmoved, membersDiffer, hpeers]

theorem told_samePeers {reg reg1 reg' : PeerRegistry} (h : SamePeers reg1 reg') (hs : reg1.Sound)
    (htold : Told reg reg1) : reg'.Sound ∧ Told reg reg' := by
  refine ⟨⟨?_, ?_⟩, ?_⟩
  · rw [h.peers, h.records]
    exact hs.linked
  · rw [h.records]
    exact hs.budgeted
  · unfold Told
    rw [h.peers, h.records, h.flag]
    exact htold

/-- **A step keeps the peers announced.** -/
theorem Announced.step {ev : Event} (h : s.Announced) (hadm : NoSilentGiveUp P s ev)
    (hs : s.step P ev = .ok (s', u)) : s'.Announced := by
  cases ev with
  | p2p ev =>
    obtain ⟨⟨e, out⟩, hev, hs⟩ := bind_eq_ok.mp hs
    cases hs
    cases ev with
    | tick env =>
      cases hev
      have hreach : Reach (operate P.services) (· = s.edge.peers) AnnouncesChange
          (s.edge.handleP2PUpdates P env).1.peers :=
        (reach_tick h.sound env).mono fun _ _ hop => hop.2 hadm
      obtain ⟨hsound, htold⟩ := told_of_reach h.sound hreach
      exact h.told hsound htold
    | message env packet addr =>
      rcases handlePacket_ok hev with ⟨-, rfl, -⟩ | ⟨r, err, hraw, hhandle⟩
      · exact h.told h.sound (.refl _)
      · obtain ⟨reg, hreach, hsame⟩ := reach_handled (handle_handled hhandle) (hadm r hraw)
        obtain ⟨hsound, htold⟩ := told_of_reach h.sound hreach
        obtain ⟨hsound', htold'⟩ := told_samePeers hsame hsound htold
        exact h.told hsound' htold'
  | sendP2PInfos env =>
    obtain ⟨⟨e, out, err⟩, hsend, hs⟩ := bind_eq_ok.mp hs
    cases hs
    have hok := sendP2PInfos_ok hsend
    cases hclears : s.edge.clears with
    | true =>
      rw [hclears, if_pos rfl] at hok
      obtain ⟨seq, rfl⟩ := hok
      exact ⟨⟨h.sound.linked, h.sound.budgeted⟩, Or.inr ⟨rfl, rfl⟩⟩
    | false =>
      rw [hclears, if_neg (by simp)] at hok
      rw [hok]
      exact h

/-- **Changes of the statuses are announced**, in every run in which no peer is given up silently:
when a status is not what it was at the last `ClearPendingChanges`, or a peer has come or gone
since, there are pending changes.
GOLINE: p2p/p2p.go:200-228, 320-332, edge/routines.go:41-54, edge/handlers.go:219-239 -/
theorem status_changes_announced (P : Platform) (s : Announcer)
    (h : Reach (step P) Fresh (NoSilentGiveUp P) s)
    (hchanged : s.moved = true ∨ ∃ mac, s.edge.statuses mac ≠ s.known mac) :
    s.edge.peers.hasPendingChanges = true := by
  have hann : s.Announced :=
    h.invariant (fun _ => announced_of_fresh) fun _ _ _ _ hI hadm hs => hI.step hadm hs
  refine hann.flag.resolve_right ?_
  rintro ⟨hknown, hmoved⟩
  rcases hchanged with hchanged | ⟨mac, hne⟩
  · rw [hmoved] at hchanged
    cases hchanged
  · exact hne (congrFun hknown mac)

/-! ## A peer that does not answer -/

/-- A peer is listed and reported, and pinged. -/
def pinged : List Event := [.p2p (listOf peerP), .sendP2PInfos Sample.edgeEnv,
  .p2p (.tick Sample.edgeEnv)]

/-- No pong comes, and no tick takes the last ping of a peer. -/
def noSilentTest (s : Announcer) : Event → Bool
  | .p2p (.tick _) => s.edge.peers.peers.values.all fun p =>
    decide ((s.edge.peers.records.cell p).pendingTTL ≠ 1)
  | .p2p ev => pongsNot (fun _ => true) s.edge ev
  | .sendP2PInfos _ => true

theorem noSilentGiveUp_of_test (s : Announcer) (ev : Event) (h : noSilentTest s ev = true) :
    NoSilentGiveUp peerPlatform s ev := by
  cases ev with
  | p2p ev =>
    cases ev with
    | tick env =>
      intro mac p hp _
      exact of_decide_eq_true (List.all_eq_true.mp h p (Table.mem_values_iff.mpr ⟨mac, hp⟩))
    | message env packet addr =>
      intro r hraw m p hm hpong
      have hno : pongsNot (fun _ => true) s.edge (.message env packet addr) = true := h
      cases not_bad_of_pongsNot hno ⟨env, packet, addr, r, rfl, hraw, hm⟩ hpong
  | sendP2PInfos env => exact trivial

/-- The peer has been reported as unknown and is pending now: there are changes to report. -/
theorem status_changes_announced_pinged :
    ∃ s, Reach (step peerPlatform) Fresh (NoSilentGiveUp peerPlatform) s ∧
      s.known peerP.key = some .unknown ∧ s.edge.statuses peerP.key = some .pending ∧
      s.edge.peers.hasPendingChanges = true := by
  have hrun : (runAllowed (step peerPlatform) noSilentTest ⟨edgeM, fun _ => none, false⟩ pinged).any
      (fun s => decide (s.known peerP.key = some .unknown ∧
        s.edge.statuses peerP.key = some .pending)) = true := by
    decide +kernel
  obtain ⟨s, hs, htest⟩ := (Option.any_eq_true _ _).mp hrun
  obtain ⟨hknown, hnow⟩ := of_decide_eq_true htest
  have hreach : Reach (step peerPlatform) Fresh (NoSilentGiveUp peerPlatform) s :=
    .of_runAllowed noSilentGiveUp_of_test (.init ⟨⟨_, _, rfl⟩, rfl, rfl⟩) hs
  refine ⟨s, hreach, hknown, hnow, status_changes_announced peerPlatform s hreach (Or.inr ⟨peerP.key, ?_⟩)⟩
  rw [hknown, hnow]
  simp

/-- The peer is pinged until one ping is left, which is reported; the next tick gives it up, and
there is nothing to report. -/
theorem status_change_unannounced :
    ∃ s, Reach (step peerPlatform) Fresh (fun _ _ => True) s ∧
      s.known peerP.key = some .pending ∧ s.edge.statuses peerP.key = some .unavailable ∧
      s.edge.peers.hasPendingChanges = false := by
  obtain ⟨s, hrun, htest⟩ := exists_of_passes
    (x := runEvents (step peerPlatform) ⟨edgeM, fun _ => none, false⟩
      (.p2p (listOf peerP) :: List.replicate 29 (.p2p (.tick Sample.edgeEnv)) ++
        [.sendP2PInfos Sample.edgeEnv, .p2p (.tick Sample.edgeEnv)]))
    (p := fun s => decide (s.known peerP.key = some .pending ∧
      s.edge.statuses peerP.key = some .unavailable ∧ s.edge.peers.hasPendingChanges = false))
    (by decide +kernel)
  obtain ⟨hknown, hnow, hflag⟩ := of_decide_eq_true htest
  exact ⟨s, .of_runEvents (.init ⟨⟨_, _, rfl⟩, rfl, rfl⟩) hrun, hknown, hnow, hflag⟩

end Announcer

end N2nGo
