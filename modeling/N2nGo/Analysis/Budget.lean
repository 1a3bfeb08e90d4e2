import N2nGo.Analysis.PeerRecords

/-!
# The budget of pings

A peer that goes from unknown to pending gets a budget of thirty pings, and is given up
when it is used up. The first result is about the budget itself, for every order of
updates. The second is about when a peer is given up: the budget is tested whatever
status is asked for, and a peer that was never pinged has none, so a report or a pong
about such a peer gives it up at once. In runs where this does not happen, a peer is
given up by the last ping of a budget and by nothing else.
-/

set_option autoImplicit false

namespace N2nGo

open N2nGo.Lib N2nGo.Protocol N2nGo.Messages

namespace Peer

variable {now : ℤ} {q : Peer} {status : P2PCapacity} {checkid : Bytes}

/-! ## Requests in a row -/

/-- The record after several requests to be pending. -/
def askPending (q : Peer) (calls : List (ℤ × Bytes)) : Peer :=
  calls.foldl (fun q call => (q.updateP2PStatus call.1 .pending call.2).1) q

theorem nextTTL_of_ne_pending (q : Peer) (h : status ≠ .pending) : q.nextTTL status = q.pendingTTL := by
  unfold nextTTL
  rw [if_neg h]
  split
  · rfl
  · exact if_neg fun hpending => h hpending.2

theorem Budgeted.given_up (h : q.Budgeted) (hq : q.p2pStatus = .unavailable) (now : ℤ)
    (status : P2PCapacity) (checkid : Bytes) :
    (q.updateP2PStatus now status checkid).1.p2pStatus = .unavailable := by
  have hzero := h.unavailable hq
  have hspent : q.nextTTL status < 1 := by
    unfold nextTTL
    rw [hq]
    split
    · next heq =>
      rw [← heq, if_neg (by simp)]
      omega
    · rw [if_neg (by simp)]
      omega
  rw [updateP2PStatus_eq]
  exact if_pos hspent

/-- A pending record stays so as long as the budget lasts, and is given up then. -/
theorem Budgeted.askPending_status (h : q.Budgeted) (hq : q.p2pStatus = .pending)
    (calls : List (ℤ × Bytes)) :
    (q.askPending calls).p2pStatus =
      if (calls.length : ℤ) < q.pendingTTL then .pending else .unavailable := by
  have hlost : ∀ (calls : List (ℤ × Bytes)) (q : Peer), q.Budgeted → q.p2pStatus = .unavailable →
      (q.askPending calls).p2pStatus = .unavailable := by
    intro calls
    induction calls with
    | nil => exact fun q _ hq => hq
    | cons call calls ih =>
      exact fun q h hq => ih _ (h.updateP2PStatus call.1 call.2 (by simp)) (h.given_up hq _ _ _)
  induction calls generalizing q with
  | nil =>
    have hone := h.pending hq
    rw [if_pos (by simpa using Int.lt_of_lt_of_le Int.one_pos hone)]
    exact hq
  | cons call calls ih =>
    have h1 : (q.updateP2PStatus call.1 .pending call.2).1.Budgeted :=
      h.updateP2PStatus call.1 call.2 (by simp)
    have hnext : q.nextTTL .pending = q.pendingTTL - 1 := by
      unfold nextTTL
      rw [if_pos hq, if_pos rfl]
    have hcall := updateP2PStatus_eq call.1 q .pending call.2
    rw [hnext] at hcall
    have hlength : (((call :: calls).length : ℕ) : ℤ) = calls.length + 1 := by simp
    rw [hlength]
    by_cases hspent : q.pendingTTL - 1 < 1
    · have hgone : (q.updateP2PStatus call.1 .pending call.2).1.p2pStatus = .unavailable := by
        rw [hcall]
        exact if_pos hspent
      rw [if_neg (by omega)]
      exact hlost calls _ h1 hgone
    · have hstill : (q.updateP2PStatus call.1 .pending call.2).1.p2pStatus = .pending := by
        rw [hcall]
        exact if_neg hspent
      have hrest := ih h1 hstill
      rw [hcall] at hrest
      refine Eq.trans (congrArg (fun q' => (askPending q' calls).p2pStatus) hcall) (hrest.trans ?_)
      exact if_congr (by constructor <;> intro hlt <;> simp only at * <;> omega) rfl rfl

/-- The peer is unknown and has no budget: it was never pinged, or was given up before it got
another address. -/
def Depleted (q : Peer) : Prop := q.p2pStatus = .unknown ∧ q.pendingTTL < 1

/-- A peer with a budget is not given up when another status than pending is asked for. -/
theorem Budgeted.kept_up (h : q.Budgeted) (hq : q.p2pStatus ≠ .unavailable)
    (hdepleted : ¬ Depleted q) (hstatus : status ≠ .pending)
    (hstatus' : status ≠ .unavailable) (now : ℤ) (checkid : Bytes) :
    (q.updateP2PStatus now status checkid).1.p2pStatus ≠ .unavailable := by
  have hone : ¬ q.pendingTTL < 1 := by
    intro hlt
    cases hs : q.p2pStatus with
    | unknown => exact hdepleted ⟨hs, hlt⟩
    | pending => exact absurd (h.pending hs) (Int.not_le.mpr hlt)
    | available => exact absurd (h.available hs) (Int.not_le.mpr hlt)
    | fullDuplex => exact h.simplex hs
    | unavailable => exact hq hs
  rw [updateP2PStatus_eq, nextTTL_of_ne_pending q hstatus]
  simp only [hone, if_false]
  exact hstatus'

/-- A request for the status that a peer has leaves it, as long as there is a budget. -/
theorem Budgeted.steady (h : q.Budgeted) (hlast : ¬ (q.p2pStatus = .pending ∧ q.pendingTTL = 1))
    (hspares : ¬ Depleted q) (now : ℤ) (checkid : Bytes) :
    (q.updateP2PStatus now q.p2pStatus checkid).1.p2pStatus = q.p2pStatus := by
  rw [updateP2PStatus_eq]
  have hnext : q.nextTTL q.p2pStatus = if q.p2pStatus = .pending then q.pendingTTL - 1 else q.pendingTTL := by
    unfold nextTTL
    rw [if_pos rfl]
  simp only [hnext]
  cases hs : q.p2pStatus with
  | pending =>
    have hone := h.pending hs
    have hne : q.pendingTTL ≠ 1 := fun heq => hlast ⟨hs, heq⟩
    rw [if_pos rfl, if_neg (by omega)]
  | unknown =>
    have hone : ¬ q.pendingTTL < 1 := fun hlt => hspares ⟨hs, hlt⟩
    simp [hone]
  | available =>
    have hone := h.available hs
    simp [Int.not_lt.mpr hone]
  | unavailable => simp [h.unavailable hs]
  | fullDuplex => exact absurd hs h.simplex

end Peer

namespace PeerRegistry

open Peer

variable {services : Bytes → Option ℕ} {reg reg' : PeerRegistry} {mac : Bytes} {p : PeerRef} {u : Unit}
  {op : Operation}

/-! ## Requests in any order -/

/-- A call changes the status of a record that has been given up only where it overwrites the
record by infos with other addresses. -/
theorem given_up_call {c : Call} (h : reg.Sound) (hp : p < reg.records.next)
    (hq : (reg.records.cell p).p2pStatus = .unavailable)
    (hcall : reg.call services c = .ok (reg', u))
    (hchanged : (reg'.records.cell p).p2pStatus ≠ .unavailable) :
    c.overwrites = true ∧ ∃ info ∈ c.brings, reg.peers.lookup info.key = some p ∧
      Readdressed (reg.records.cell p).infos info := by
  by_contra hnone
  -- as long as no such infos come, the record keeps its status and its addresses
  let old (p' : PeerRef) (q : Peer) : Prop := p' = p → q.p2pStatus = .unavailable ∧
    ¬ Readdressed (reg.records.cell p).infos q.infos
  have hsurvives : Survives old reg c := by
    rintro - htrue info hinfo p' hlook now q hq rfl
    obtain ⟨hstatus, hsame⟩ := hq rfl
    have hinfos : ¬ Readdressed (reg.records.cell p').infos info :=
      fun hnew => hnone ⟨htrue, info, hinfo, hlook, hnew⟩
    have hkept : ¬ Readdressed q.infos info := by
      unfold Readdressed at hsame hinfos ⊢
      push Not at hsame hinfos ⊢
      rw [← hsame.1, ← hsame.2]
      exact hinfos
    rw [overwritten_eq]
    simp only [hkept, if_false]
    exact ⟨hstatus, hinfos⟩
  have hrewritten := Rewritten.call h.linked hsurvives (fun p' _ heq => by
    rw [heq]
    exact ⟨hq, by simp [Readdressed]⟩) hcall
  exact hchanged (hrewritten.old p hp rfl).1

/-- **The budget of pings.** In every registry that updates lead to, in any order, the budget of
a peer is between 0 and 30 and not used up while the peer is pending or available. A peer that
becomes pending stays so for at most 29 further requests and is given up by the next one. A peer
that has been given up stays so whatever is asked for, until it is overwritten with another
address.
GOLINE: p2p/p2p.go:60-62, 200-268, 310-342, edge/routines.go:17-54 -/
theorem hole_punching_budget (services : Bytes → Option ℕ) (reg : PeerRegistry)
    (h : Reach (operate services) New (fun _ _ => True) reg) (mac : Bytes) (p : PeerRef)
    (hp : reg.peers.lookup mac = some p) :
    (0 ≤ (reg.records.cell p).pendingTTL ∧ (reg.records.cell p).pendingTTL ≤ 30 ∧
      ((reg.records.cell p).p2pStatus = .pending ∨ (reg.records.cell p).p2pStatus = .available →
        1 ≤ (reg.records.cell p).pendingTTL)) ∧
    (∀ now checkid, (reg.records.cell p).p2pStatus ≠ .pending →
      ((reg.records.cell p).updateP2PStatus now .pending checkid).1.p2pStatus = .pending →
      ∃ k ≤ 29, ((reg.records.cell p).p2pStatus = .unknown → k = 29) ∧ ∀ calls,
        (((reg.records.cell p).updateP2PStatus now .pending checkid).1.askPending calls).p2pStatus =
          if calls.length ≤ k then .pending else .unavailable) ∧
    ((reg.records.cell p).p2pStatus = .unavailable →
      (∀ now status checkid,
        ((reg.records.cell p).updateP2PStatus now status checkid).1.p2pStatus = .unavailable) ∧
      (∀ now info, info.key = mac → Readdressed (reg.records.cell p).infos info →
        ((addPeer services now reg info true).1.records.cell p).p2pStatus = .unknown) ∧
      ∀ op reg' u, operate services reg op = .ok (reg', u) →
        (reg'.records.cell p).p2pStatus ≠ .unavailable →
        ∃ c, op = .call c ∧ c.overwrites = true ∧ ∃ info ∈ c.brings,
          reg.peers.lookup info.key = some p ∧ Readdressed (reg.records.cell p).infos info) := by
  have hsound : reg.Sound :=
    h.invariant (fun _ => sound_of_new) fun _ _ _ _ hs _ hop => hs.operate hop
  have hlt := hsound.linked.lt mac p hp
  have hq := hsound.budgeted p hlt
  refine ⟨⟨hq.nonneg, hq.le, fun hs => hs.elim hq.pending hq.available⟩, ?_, ?_⟩
  · intro now checkid hnot hpending
    have hq1 : ((reg.records.cell p).updateP2PStatus now .pending checkid).1.Budgeted :=
      hq.updateP2PStatus now checkid (by simp)
    have hone := hq1.pending hpending
    have hle := hq1.le
    refine ⟨((((reg.records.cell p).updateP2PStatus now .pending checkid).1.pendingTTL) - 1).toNat,
      by omega, fun hunknown => ?_, fun calls => ?_⟩
    · rw [updateP2PStatus_eq]
      unfold nextTTL
      simp [hunknown]
    · rw [hq1.askPending_status hpending]
      exact if_congr (by omega) rfl rfl
  · intro hgone
    refine ⟨fun now status checkid => hq.given_up hgone now status checkid, ?_, ?_⟩
    · rintro now info rfl hnew
      rcases addPeer_true services now reg info with ⟨p', hp', hadd⟩ | ⟨hnone, -⟩
      · obtain rfl : p = p' := Option.some.inj (hp.symm.trans hp')
        rw [hadd, overwritten_eq]
        simp [setPendingChanges, hnew]
      · rw [hp] at hnone
        cases hnone
    · intro op reg' u hop hchanged
      rcases operate_cases hsound hop with ⟨c, rfl, hcall⟩ | ⟨hnot, -, -, hcell⟩
      · exact ⟨c, rfl, given_up_call hsound hlt hgone hcall hchanged⟩
      · refine absurd ?_ hchanged
        rw [hcell]
        cases op with
        | call c => exact absurd rfl (hnot c)
        | ping now p' asAvailable checkid =>
          simp only [effect]
          split
          · exact hq.given_up hgone _ _ _
          · exact hgone
        | pong now p' checkId fromSupernode =>
          simp only [effect, apply_ite Peer.p2pStatus, status_pongedPeer, hq.given_up hgone, ite_self,
            hgone]
        | report now mac =>
          simp only [effect]
          split
          · exact hq.given_up hgone _ _ _
          · exact hgone
        | sweep now order => exact hgone

/-! ## When a peer is given up -/

/-- The update asks record `p` to be pending. -/
def asksPending (p : PeerRef) : Operation → Bool
  | .ping _ p' asAvailable _ => p = p' && !asAvailable
  | .call _ | .pong _ _ _ _ | .report _ _ | .sweep _ _ => false

/-- The step takes record `p` from unknown to pending, which starts its budget. -/
def Starts (p : PeerRef) (t : Taken PeerRegistry Operation Unit) : Prop :=
  asksPending p t.event = true ∧ (t.before.records.cell p).p2pStatus = .unknown

/-- The step asks record `p` to be pending when it is, which takes one from its budget. -/
def Spends (p : PeerRef) (t : Taken PeerRegistry Operation Unit) : Prop :=
  asksPending p t.event = true ∧ (t.before.records.cell p).p2pStatus = .pending

instance (p : PeerRef) : DecidablePred (Starts p) := fun _ => inferInstanceAs (Decidable (_ ∧ _))

instance (p : PeerRef) : DecidablePred (Spends p) := fun _ => inferInstanceAs (Decidable (_ ∧ _))

/-- Since the budget of record `p` was last started, `n` has been taken from it. -/
def Spent (p : PeerRef) (n : ℕ) (hist : List (Taken PeerRegistry Operation Unit)) : Prop :=
  ∃ newer t older, hist = newer ++ t :: older ∧ Starts p t ∧ (∀ t' ∈ newer, ¬ Starts p t') ∧
    newer.countP (fun t' => decide (Spends p t')) = n

/-- Neither a pong nor a report nor a ping as available is about a peer without a budget. -/
def SparesDepleted (reg : PeerRegistry) : Operation → Prop
  | .ping _ p asAvailable _ => asAvailable = true → ¬ Depleted (reg.records.cell p)
  | .pong _ p _ _ => ¬ Depleted (reg.records.cell p)
  | .report _ mac => ∀ p, reg.peers.lookup mac = some p → ¬ Depleted (reg.records.cell p)
  | .call _ | .sweep _ _ => True

section Spent

variable {hist : List (Taken PeerRegistry Operation Unit)} {t : Taken PeerRegistry Operation Unit}
  {n : ℕ}

theorem Spent.start (h : Starts p t) (hist : List (Taken PeerRegistry Operation Unit)) :
    Spent p 0 (t :: hist) :=
  ⟨[], t, hist, rfl, h, fun _ ht => absurd ht List.not_mem_nil, rfl⟩

theorem Spends.not_starts (h : Spends p t) : ¬ Starts p t := by
  intro hstart
  have hunknown := hstart.2
  rw [h.2] at hunknown
  cases hunknown

theorem Spent.cons (h : Spent p n hist) (ht : ¬ Starts p t) :
    Spent p (n + if Spends p t then 1 else 0) (t :: hist) := by
  obtain ⟨newer, t0, older, rfl, hstart, hnewer, rfl⟩ := h
  refine ⟨t :: newer, t0, older, rfl, hstart, fun t' ht' => ?_, ?_⟩
  · rcases List.mem_cons.mp ht' with rfl | ht'
    · exact ht
    · exact hnewer t' ht'
  · rw [List.countP_cons]
    simp only [decide_eq_true_eq]

end Spent

theorem ttl_effect (reg : PeerRegistry) (op : Operation) (p : PeerRef) (q : Peer) :
    (reg.effect op p q).pendingTTL =
      if asksPending p op then q.nextTTL .pending else q.pendingTTL := by
  have hother : ∀ now status checkid, status ≠ .pending →
      (q.updateP2PStatus now status checkid).1.pendingTTL = q.pendingTTL := by
    intro now status checkid hne
    rw [updateP2PStatus_eq]
    exact nextTTL_of_ne_pending q hne
  cases op with
  | call c => rfl
  | ping now p' asAvailable checkid =>
    simp only [effect]
    cases asAvailable with
    | true =>
      simp only [asksPending, Bool.not_true, Bool.and_false, Bool.false_eq_true, if_false]
      split
      · exact hother now .available checkid (by simp)
      · rfl
    | false =>
      simp only [asksPending, Bool.not_false, Bool.and_true, decide_eq_true_eq]
      split
      · rw [updateP2PStatus_eq]
        rfl
      · rfl
  | pong now p' checkId fromSupernode =>
    simp only [effect, pongedPeer, apply_ite Peer.pendingTTL, asksPending]
    simp [hother]
  | report now mac =>
    simp only [effect, asksPending, Bool.false_eq_true, if_false]
    split
    · exact hother now .available [] (by simp)
    · rfl
  | sweep now order => rfl

/-- **What gives a peer up**: a request to be pending, with one ping left. -/
theorem given_up_effect {q : Peer} (hq : q.Budgeted) (hbefore : q.p2pStatus ≠ .unavailable)
    (hcell : reg.records.cell p = q) (hadm : reg.SparesDepleted op)
    (hafter : (reg.effect op p q).p2pStatus = .unavailable) :
    asksPending p op = true ∧ q.p2pStatus = .pending ∧ q.pendingTTL = 1 := by
  cases op with
  | call c => exact absurd hafter hbefore
  | ping now p' asAvailable checkid =>
    simp only [effect] at hafter
    split at hafter
    · next heq =>
      subst heq
      cases asAvailable with
      | true =>
        have hspares : ¬ Depleted q := hcell ▸ hadm rfl
        exact absurd hafter (hq.kept_up hbefore hspares (by simp [pingStatus]) (by simp [pingStatus]) _ _)
      | false =>
        refine ⟨by simp [asksPending], ?_⟩
        rw [updateP2PStatus_eq] at hafter
        have hspent : q.nextTTL .pending < 1 := by
          by_contra hnot
          simp only [pingStatus, Bool.false_eq_true, if_false, hnot] at hafter
          cases hafter
        unfold nextTTL at hspent
        split at hspent
        · next hpending =>
          rw [if_pos rfl] at hspent
          have hone := hq.pending hpending
          exact ⟨hpending, by omega⟩
        · next hne =>
          split at hspent
          · omega
          · next hunknown =>
            cases hs : q.p2pStatus with
            | unknown => exact absurd ⟨hs, rfl⟩ hunknown
            | pending => exact absurd hs hne
            | available => exact absurd (hq.available hs) (Int.not_le.mpr hspent)
            | fullDuplex => exact absurd hs hq.simplex
            | unavailable => exact absurd hs hbefore
    · exact absurd hafter hbefore
  | pong now p' checkId fromSupernode =>
    simp only [effect] at hafter
    split at hafter
    · next heq =>
      subst heq
      have hspares : ¬ Depleted q := hcell ▸ hadm
      rw [status_pongedPeer] at hafter
      split at hafter
      · exact absurd hafter (hq.kept_up hbefore hspares (by simp) (by simp) _ _)
      · exact absurd hafter (hq.kept_up hbefore hspares (by simp) (by simp) _ _)
    · exact absurd hafter hbefore
  | report now mac =>
    simp only [effect] at hafter
    split at hafter
    · next hlook =>
      have hspares : ¬ Depleted q := hcell ▸ hadm p hlook
      exact absurd hafter (hq.kept_up hbefore hspares (by simp) (by simp) _ _)
    · exact absurd hafter hbefore
  | sweep now order => exact absurd hafter hbefore

/-- What is left of a budget is thirty less what has been taken from it. -/
structure Accounted (hist : List (Taken PeerRegistry Operation Unit)) (reg : PeerRegistry) : Prop where
  sound : reg.Sound
  spent : ∀ p, p < reg.records.next → 1 ≤ (reg.records.cell p).pendingTTL →
    ∃ n : ℕ, Spent p n hist ∧ (reg.records.cell p).pendingTTL = 30 - n

/-- **An update keeps the account.** -/
theorem Accounted.step {hist : List (Taken PeerRegistry Operation Unit)} (h : Accounted hist reg)
    (hop : operate services reg op = .ok (reg', u)) : Accounted (⟨reg, op, u⟩ :: hist) reg' := by
  refine ⟨h.sound.operate hop, fun p hp hone => ?_⟩
  have hidle : ¬ asksPending p op = true → p < reg.records.next →
      (reg'.records.cell p).pendingTTL = (reg.records.cell p).pendingTTL →
      ∃ n : ℕ, Spent p n (⟨reg, op, u⟩ :: hist) ∧ (reg'.records.cell p).pendingTTL = 30 - n := by
    intro hnot hlt hsame
    obtain ⟨n, hn, httl⟩ := h.spent p hlt (hsame ▸ hone)
    refine ⟨n, ?_, hsame.trans httl⟩
    have hcons := hn.cons (t := ⟨reg, op, u⟩) fun hstart => hnot hstart.1
    rwa [if_neg fun hspend => hnot hspend.1] at hcons
  rcases operate_cases h.sound hop with ⟨c, rfl, hcall⟩ | ⟨-, -, hnext, hcell⟩
  · have hnot : ¬ asksPending p (.call c) = true := by simp [asksPending]
    have hrewritten : Rewritten (fun p q => q.pendingTTL = (reg.records.cell p).pendingTTL) reg c reg' :=
      .call h.sound.linked (fun _ _ info _ _ _ now q hq => by rw [overwritten_eq]; exact hq)
        (fun _ _ => rfl) hcall
    by_cases hlt : p < reg.records.next
    · exact hidle hnot hlt (hrewritten.old p hlt)
    · -- a record that has just come has no budget
      have hzero := (hrewritten.new p (Nat.not_lt.mp hlt) hp).ttl
      rw [hzero] at hone
      exact absurd hone (by decide)
  · have hlt : p < reg.records.next := hnext ▸ hp
    have httl : (reg'.records.cell p).pendingTTL = _ := (congrArg Peer.pendingTTL (hcell p)).trans
      (ttl_effect reg op p (reg.records.cell p))
    by_cases hasks : asksPending p op = true
    · rw [if_pos hasks] at httl
      unfold nextTTL at httl
      split at httl
      · next hpending =>
        rw [if_pos rfl] at httl
        obtain ⟨n, hn, hleft⟩ := h.spent p hlt (by omega)
        have hspends : Spends p ⟨reg, op, u⟩ := ⟨hasks, hpending⟩
        have hcons := hn.cons hspends.not_starts
        rw [if_pos hspends] at hcons
        exact ⟨n + 1, hcons, by push_cast; omega⟩
      · next hne =>
        split at httl
        · next hunknown => exact ⟨0, .start ⟨hasks, hunknown.1⟩ hist, httl⟩
        · next hnot =>
          obtain ⟨n, hn, hleft⟩ := h.spent p hlt (httl ▸ hone)
          have hcons := hn.cons (t := ⟨reg, op, u⟩) fun hstart => hnot ⟨hstart.2, rfl⟩
          rw [if_neg fun hspend => hne hspend.2] at hcons
          exact ⟨n, hcons, httl.trans hleft⟩
    · rw [if_neg hasks] at httl
      exact hidle hasks hlt httl

theorem accounted_of_trace {adm : PeerRegistry → Operation → Prop}
    {hist : List (Taken PeerRegistry Operation Unit)}
    (h : Trace (operate services) New adm hist reg) : Accounted hist reg := by
  refine h.invariant (fun reg hnew => ⟨sound_of_new hnew, fun p hp => ?_⟩)
    fun _ _ _ _ _ hI _ hop => hI.step hop
  obtain ⟨communityName, noPeer, rfl⟩ := hnew
  exact absurd hp (Nat.not_lt_zero p)

/-- **No peer is given up early**, in a run in which no pong, report or ping as available is about
a peer without a budget: a record becomes unavailable only by a request to be pending that takes
the last of the thirty pings since it last went from unknown to pending.
GOLINE: p2p/p2p.go:60-62, 200-268, edge/handlers_missing.go:51-70, edge/handlers.go:210-228 -/
theorem no_premature_give_up (services : Bytes → Option ℕ)
    (hist : List (Taken PeerRegistry Operation Unit)) (reg reg' : PeerRegistry)
    (h : Trace (operate services) New SparesDepleted hist reg) (op : Operation) (u : Unit)
    (hadm : reg.SparesDepleted op) (hop : operate services reg op = .ok (reg', u)) (p : PeerRef)
    (hp : p < reg.records.next) (hbefore : (reg.records.cell p).p2pStatus ≠ .unavailable)
    (hafter : (reg'.records.cell p).p2pStatus = .unavailable) :
    Spends p ⟨reg, op, u⟩ ∧ Spent p 30 (⟨reg, op, u⟩ :: hist) := by
  have haccount := accounted_of_trace h
  have hsound := haccount.sound
  rcases operate_cases hsound hop with ⟨c, rfl, hcall⟩ | ⟨-, -, -, hcell⟩
  · have hrewritten : Rewritten (fun p' q => p' = p → q.p2pStatus ≠ .unavailable) reg c reg' :=
      .call hsound.linked (fun _ _ info _ _ _ now q hq heq => by
        rw [overwritten_eq]
        simp only
        split
        · simp
        · exact hq heq) (fun p' _ heq => heq ▸ hbefore) hcall
    exact absurd hafter (hrewritten.old p hp rfl)
  · rw [hcell] at hafter
    obtain ⟨hasks, hpending, hlast⟩ :=
      given_up_effect (hsound.budgeted p hp) hbefore rfl hadm hafter
    have hspends : Spends p ⟨reg, op, u⟩ := ⟨hasks, hpending⟩
    refine ⟨hspends, ?_⟩
    obtain ⟨n, hn, hleft⟩ := haccount.spent p hp hlast.ge
    obtain rfl : n = 29 := by omega
    have hcons := hn.cons hspends.not_starts
    rwa [if_pos hspends] at hcons

/-! ## A peer that nobody has pinged -/

/-- A call, or a ping of a peer that is not available. -/
def Sample.callsAndPings (_ : PeerRegistry) : Operation → Bool
  | .call _ => true
  | .ping _ _ asAvailable _ => !asAvailable
  | .pong _ _ _ _ | .report _ _ | .sweep _ _ => false

open PeerRegistry.Sample

/-- A peer has just been added. Once it is pending, 29 more requests leave it so. -/
theorem hole_punching_budget_added :
    ∃ reg, Reach (operate noServices) New (fun _ _ => True) reg ∧
      reg.peers.lookup (peerInfo 1).key = some 0 ∧ (reg.records.cell 0).p2pStatus = .unknown ∧
      ∀ calls, (((reg.records.cell 0).updateP2PStatus 0 .pending []).1.askPending calls).p2pStatus =
        if calls.length ≤ 29 then .pending else .unavailable := by
  obtain ⟨reg, hrun, htest⟩ := exists_of_passes
    (x := runEvents (operate noServices) registry [.call (adds 1)])
    (p := fun reg => decide (reg.peers.lookup (peerInfo 1).key = some 0 ∧
      (reg.records.cell 0).p2pStatus = .unknown ∧
      ((reg.records.cell 0).updateP2PStatus 0 .pending []).1.p2pStatus = .pending)) (by decide +kernel)
  obtain ⟨hp, hunknown, hpending⟩ := of_decide_eq_true htest
  have hreach : Reach (operate noServices) New (fun _ _ => True) reg :=
    .of_runEvents (.init ⟨_, _, rfl⟩) hrun
  obtain ⟨-, henters, -⟩ := hole_punching_budget noServices reg hreach (peerInfo 1).key 0 hp
  obtain ⟨k, -, hk, hcalls⟩ := henters 0 [] (by rw [hunknown]; simp) hpending
  exact ⟨reg, hreach, hp, hunknown, hk hunknown ▸ hcalls⟩

/-- A peer is added and pinged thirty times; the next ping gives it up. -/
theorem no_premature_give_up_pinged :
    ∃ hist reg, Trace (operate noServices) New SparesDepleted hist reg ∧
      (reg.records.cell 0).p2pStatus = .pending ∧
      ((reg.updateStatus 0 0 .pending []).records.cell 0).p2pStatus = .unavailable ∧
      Spent 0 30 (⟨reg, .ping 0 0 false [], ()⟩ :: hist) := by
  have hadm : ∀ s op, callsAndPings s op = true → SparesDepleted s op := by
    intro s op hop
    cases op with
    | call c => exact trivial
    | ping now p asAvailable checkid =>
      rintro rfl
      cases hop
    | pong now p checkId fromSupernode => cases hop
    | report now mac => cases hop
    | sweep now order => cases hop
  have hrun : (traceAllowed (operate noServices) callsAndPings [] registry
      (.call (adds 1) :: List.replicate 30 (.ping 0 0 false []))).any (fun r => decide
        (r.2.records.next = 1 ∧ (r.2.records.cell 0).p2pStatus = .pending ∧
          ((r.2.updateStatus 0 0 .pending []).records.cell 0).p2pStatus = .unavailable)) = true := by
    decide +kernel
  obtain ⟨r, hr, htest⟩ := (Option.any_eq_true _ _).mp hrun
  obtain ⟨hnext, hpending, hgone⟩ := of_decide_eq_true htest
  have htrace : Trace (operate noServices) New SparesDepleted r.1 r.2 :=
    .of_traceAllowed hadm (.init ⟨_, _, rfl⟩) hr
  refine ⟨r.1, r.2, htrace, hpending, hgone, ?_⟩
  exact (no_premature_give_up noServices r.1 r.2 _ htrace (.ping 0 0 false []) ()
    (fun hfalse => by cases hfalse) rfl 0 (by rw [hnext]; decide) (by rw [hpending]; simp) hgone).2

/-- A peer is added, and a report says that it is reachable. That gives it up. -/
theorem premature_give_up :
    ∃ reg reg', Reach (operate noServices) New (fun _ _ => True) reg ∧
      operate noServices reg (.report 0 (peerInfo 1).key) = .ok (reg', ()) ∧
      reg.peers.lookup (peerInfo 1).key = some 0 ∧ (reg.records.cell 0).p2pStatus = .unknown ∧
      (reg'.records.cell 0).p2pStatus = .unavailable ∧
      ¬ Spends 0 ⟨reg, .report 0 (peerInfo 1).key, ()⟩ := by
  obtain ⟨reg, hrun, htest⟩ := exists_of_passes
    (x := runEvents (operate noServices) registry [.call (adds 1)])
    (p := fun reg => decide (reg.peers.lookup (peerInfo 1).key = some 0 ∧
      (reg.records.cell 0).p2pStatus = .unknown ∧
      ((EdgeClient.markAvailable 0 reg (peerInfo 1).key).records.cell 0).p2pStatus = .unavailable))
    (by decide +kernel)
  obtain ⟨hp, hunknown, hgone⟩ := of_decide_eq_true htest
  exact ⟨reg, _, .of_runEvents (.init ⟨_, _, rfl⟩) hrun, rfl, hp, hunknown, hgone,
    fun hspends => by cases hspends.1⟩

end PeerRegistry

end N2nGo
