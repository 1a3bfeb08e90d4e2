import N2nGo.Analysis.Pending
import N2nGo.Analysis.PeerStatus

/-!
# What becomes of a record

The edge changes its registry by single updates: calls that add, overwrite and remove
peers, and updates of the status of one record. `Rewritten.call` says what a call does to
the records that were there and to those that come, and `operate_cases` what any other
update does to each record. The status of a record is bound to the budget of pings that it
has left (`Peer.Budgeted`), and every update keeps it so.
-/

set_option autoImplicit false

namespace N2nGo

open N2nGo.Lib N2nGo.Protocol N2nGo.Messages

/-! ## One record -/

namespace Peer

variable {now : ℤ} {q : Peer} {status : P2PCapacity} {checkid : Bytes}

/-- The budget after a status has been asked for.
GOLINE: p2p/p2p.go:203-213 -/
def nextTTL (q : Peer) (status : P2PCapacity) : ℤ :=
  if q.p2pStatus = status then if status = .pending then q.pendingTTL - 1 else q.pendingTTL
  else if q.p2pStatus = .unknown ∧ status = .pending then 30
  else q.pendingTTL

theorem updateP2PStatus_eq (now : ℤ) (q : Peer) (status : P2PCapacity) (checkid : Bytes) :
    (q.updateP2PStatus now status checkid).1 =
      { q with
        p2pStatus := if q.nextTTL status < 1 then .unavailable else status
        p2pCheckID := if q.nextTTL status < 1 then [] else checkid
        pendingTTL := q.nextTTL status
        updatedAt := now } := by
  have hspent : ∀ q' : Peer, q' = { q with pendingTTL := q.nextTTL status } →
      { (if q'.pendingTTL < 1 then { q' with p2pCheckID := [], p2pStatus := .unavailable }
        else { q' with p2pCheckID := checkid, p2pStatus := status }) with updatedAt := now } =
      { q with
        p2pStatus := if q.nextTTL status < 1 then .unavailable else status
        p2pCheckID := if q.nextTTL status < 1 then [] else checkid
        pendingTTL := q.nextTTL status
        updatedAt := now } := by
    rintro q' rfl
    by_cases hlt : q.nextTTL status < 1
    · simp [hlt]
    · simp [hlt]
  refine hspent _ ?_
  unfold nextTTL resetPendingTTL
  split
  · split
    · rfl
    · rfl
  · split
    · rfl
    · rfl

/-- The budget is at most 30, is not used up while a ping may still be answered, and is used
up once the peer is given up. -/
structure Budgeted (q : Peer) : Prop where
  simplex : q.p2pStatus ≠ .fullDuplex
  nonneg : 0 ≤ q.pendingTTL
  le : q.pendingTTL ≤ 30
  pending : q.p2pStatus = .pending → 1 ≤ q.pendingTTL
  available : q.p2pStatus = .available → 1 ≤ q.pendingTTL
  unavailable : q.p2pStatus = .unavailable → q.pendingTTL = 0

/-- A record that nobody has pinged. -/
structure Blank (q : Peer) : Prop where
  status : q.p2pStatus = .unknown
  duplex : q.isFullDuplex = false
  ttl : q.pendingTTL = 0

theorem Blank.budgeted (h : q.Blank) : q.Budgeted where
  simplex := fun hq => by rw [h.status] at hq; cases hq
  nonneg := h.ttl.ge
  le := by rw [h.ttl]; decide
  pending := fun hq => by rw [h.status] at hq; cases hq
  available := fun hq => by rw [h.status] at hq; cases hq
  unavailable := fun _ => h.ttl

theorem Budgeted.nextTTL_bounds (h : q.Budgeted) (status : P2PCapacity) :
    0 ≤ q.nextTTL status ∧ q.nextTTL status ≤ 30 := by
  have h0 := h.nonneg
  have h30 := h.le
  unfold nextTTL
  split
  · next heq =>
    split
    · next hpending =>
      have h1 := h.pending (heq.trans hpending)
      omega
    · omega
  · split
    · omega
    · omega

theorem Budgeted.updateP2PStatus (h : q.Budgeted) (now : ℤ) (checkid : Bytes)
    (hstatus : status ≠ .unavailable ∧ status ≠ .fullDuplex) : (q.updateP2PStatus now status checkid).1.Budgeted := by
  obtain ⟨h0, h30⟩ := h.nextTTL_bounds status
  rw [updateP2PStatus_eq]
  by_cases hspent : q.nextTTL status < 1
  · simp only [hspent, if_true]
    have hzero : q.nextTTL status = 0 := by omega
    exact ⟨by simp, h0, h30, fun hq => (by cases hq), fun hq => (by cases hq), fun _ => hzero⟩
  · simp only [hspent, if_false]
    have hone : 1 ≤ q.nextTTL status := by omega
    exact ⟨hstatus.2, h0, h30, fun _ => hone, fun _ => hone, fun hq => absurd hq hstatus.1⟩

/-- The addresses at which a peer is reached have changed. -/
def Readdressed (old new : PeerInfo) : Prop :=
  old.virtualIp ≠ new.virtualIp ∨ old.pubSocket ≠ new.pubSocket

instance (old new : PeerInfo) : Decidable (Readdressed old new) :=
  inferInstanceAs (Decidable (_ ∨ _))

end Peer

namespace PeerRegistry

open Peer

section Overwritten

variable (now : ℤ) {q : Peer} {info : PeerInfo}

theorem overwritten_eq (q : Peer) (info : PeerInfo) :
    overwritten now q info =
      { q with
        infos := info
        p2pStatus := if Readdressed q.infos info then .unknown else q.p2pStatus
        p2pCheckID := if Readdressed q.infos info then [] else q.p2pCheckID
        updatedAt := now } := by
  unfold overwritten
  by_cases hchanged : Readdressed q.infos info
  · have hif : (if q.infos.virtualIp ≠ info.virtualIp ∨ q.infos.pubSocket ≠ info.pubSocket then
        { q with p2pStatus := .unknown, p2pCheckID := [] } else q) =
        { q with p2pStatus := .unknown, p2pCheckID := [] } := if_pos hchanged
    simp only [hif, hchanged, if_true]
  · have hif : (if q.infos.virtualIp ≠ info.virtualIp ∨ q.infos.pubSocket ≠ info.pubSocket then
        { q with p2pStatus := .unknown, p2pCheckID := [] } else q) = q := if_neg hchanged
    simp only [hif, hchanged, if_false]

theorem budgeted_overwritten (h : q.Budgeted) : (overwritten now q info).Budgeted := by
  rw [overwritten_eq]
  by_cases hchanged : Readdressed q.infos info
  · simp only [hchanged, if_true]
    exact ⟨by simp, h.nonneg, h.le, fun hq => (by cases hq), fun hq => (by cases hq),
      fun hq => (by cases hq)⟩
  · simp only [hchanged, if_false]
    exact ⟨h.simplex, h.nonneg, h.le, h.pending, h.available, h.unavailable⟩

theorem blank_overwritten (h : q.Blank) : (overwritten now q info).Blank := by
  rw [overwritten_eq]
  refine ⟨?_, h.duplex, h.ttl⟩
  by_cases hchanged : Readdressed q.infos info
  · simp only [hchanged, if_true]
  · simp only [hchanged, if_false]
    exact h.status

end Overwritten

/-! ## Calls -/

variable {services : Bytes → Option ℕ} {now : ℤ} {order : MapOrder} {reg reg' reg1 : PeerRegistry}
  {c : Call} {mac : Bytes} {p : PeerRef} {u : Unit}

/-- A registry in the course of a call from `reg`: what holds of the old records, and that new
records are blank. Old records are found where they were. -/
structure Rewritten (old : PeerRef → Peer → Prop) (reg : PeerRegistry) (c : Call)
    (reg' : PeerRegistry) : Prop where
  next : reg.records.next ≤ reg'.records.next
  linked : Table.Linked reg'.peers reg'.records
  found : ∀ mac p, p < reg.records.next → reg'.peers.lookup mac = some p →
    c.resets = false ∧ reg.peers.lookup mac = some p
  old : ∀ p, p < reg.records.next → old p (reg'.records.cell p)
  new : ∀ p, reg.records.next ≤ p → p < reg'.records.next → (reg'.records.cell p).Blank

/-- What holds of the old records survives that they are overwritten by the call. -/
def Survives (old : PeerRef → Peer → Prop) (reg : PeerRegistry) (c : Call) : Prop :=
  c.resets = false → c.overwrites = true → ∀ info ∈ c.brings, ∀ p,
    reg.peers.lookup info.key = some p → ∀ now q, old p q → old p (overwritten now q info)

variable {old : PeerRef → Peer → Prop}

theorem Rewritten.of_same (h : Rewritten old reg c reg1) (hpeers : reg'.peers = reg1.peers)
    (hrecords : reg'.records = reg1.records) : Rewritten old reg c reg' := by
  refine ⟨?_, ?_, ?_, ?_, ?_⟩
  · rw [hrecords]
    exact h.next
  · rw [hpeers, hrecords]
    exact h.linked
  · rw [hpeers]
    exact h.found
  · rw [hrecords]
    exact h.old
  · rw [hrecords]
    exact h.new

theorem Rewritten.overwrite (hold : Survives old reg c) (h : Rewritten old reg c reg1)
    {info : PeerInfo} (hinfo : info ∈ c.brings) (htrue : c.overwrites = true)
    (hp : reg1.peers.lookup info.key = some p) (now : ℤ) :
    Rewritten old reg c (reg1.store p (overwritten now (reg1.records.cell p) info)) := by
  refine ⟨h.next, h.linked.store _ _, h.found, fun p' hp' => ?_, fun p' hle hlt => ?_⟩
  · unfold PeerRegistry.store
    rw [Heap.cell_store]
    split
    · next heq =>
      subst heq
      obtain ⟨hreset, hlook⟩ := h.found info.key p' hp' hp
      exact hold hreset htrue info hinfo p' hlook now _ (h.old p' hp')
    · exact h.old p' hp'
  · unfold PeerRegistry.store
    rw [Heap.cell_store]
    split
    · next heq =>
      subst heq
      exact blank_overwritten now (h.new p' hle hlt)
    · exact h.new p' hle hlt

theorem Rewritten.enter (h : Rewritten old reg c reg1) (mac : Bytes) {q : Peer} (hq : q.Blank) :
    Rewritten old reg c { reg1 with
      records := reg1.records.alloc q, peers := reg1.peers.insert mac reg1.records.next } := by
  have hnext := h.next
  refine ⟨Nat.le_succ_of_le hnext, h.linked.alloc _ _, fun mac' p' hlt hp' => ?_,
    fun p' hp' => ?_, fun p' hle hlt => ?_⟩
  · simp only [Table.lookup_insert_if] at hp'
    split at hp'
    · cases hp'
      exact absurd hlt (Nat.not_lt.mpr hnext)
    · exact h.found mac' p' hlt hp'
  · simp only [Heap.cell_alloc]
    rw [if_neg (Nat.ne_of_lt (Nat.lt_of_lt_of_le hp' hnext))]
    exact h.old p' hp'
  · simp only [Heap.cell_alloc]
    split
    · exact hq
    · next hne =>
      exact h.new p' hle (Nat.lt_of_le_of_ne (Nat.le_of_lt_succ hlt) hne)

theorem Rewritten.addPeer (hold : Survives old reg c) (h : Rewritten old reg c reg1)
    {info : PeerInfo} (hinfo : info ∈ c.brings) (services : Bytes → Option ℕ) (now : ℤ) :
    Rewritten old reg c (PeerRegistry.addPeer services now reg1 info c.overwrites).1 := by
  rcases addPeer_eq services now reg1 info c.overwrites with ⟨e, heq⟩ | ⟨hmay, heq⟩
  · rw [heq]
    exact h
  · rw [heq]
    rcases addPeer_true services now reg1 info with ⟨p, hp, hadd⟩ | ⟨hnone, hadd⟩
    · have htrue : c.overwrites = true := hmay.resolve_right fun hnone => by
        rw [hp] at hnone
        cases hnone
      rw [hadd]
      exact (h.overwrite hold hinfo htrue hp now).of_same rfl rfl
    · rw [hadd]
      exact (h.enter info.key ⟨rfl, rfl, rfl⟩).of_same rfl rfl

theorem Rewritten.removePeer (h : Rewritten old reg c reg1) (services : Bytes → Option ℕ)
    (mac : Bytes) : Rewritten old reg c (PeerRegistry.removePeer services reg1 mac) := by
  have hfound : ∀ mac' p', (reg1.peers.erase mac).lookup mac' = some p' →
      reg1.peers.lookup mac' = some p' := by
    intro mac' p' hp'
    rw [Table.lookup_erase_if] at hp'
    split at hp'
    · cases hp'
    · exact hp'
  unfold PeerRegistry.removePeer
  split
  · exact h
  · exact ⟨h.next, h.linked.erase mac,
      fun mac' p' hlt hp' => h.found mac' p' hlt (hfound mac' p' hp'), h.old, h.new⟩

/-- **What a call does to the records**: those that were there keep what survives an
overwriting, and those that come are blank. -/
theorem Rewritten.call (hlinked : Table.Linked reg.peers reg.records) (hold : Survives old reg c)
    (h0 : ∀ p, p < reg.records.next → old p (reg.records.cell p))
    (h : PeerRegistry.call services reg c = .ok (reg', u)) : Rewritten old reg c reg' := by
  refine call_invariant (I := Rewritten old reg c) (fun _ => ?_) (fun hreset => ?_)
    (fun reg1 reg2 hpeers hrecords _ _ h1 => h1.of_same hpeers hrecords)
    (fun now reg1 info hinfo h1 => h1.addPeer hold hinfo services now)
    (fun reg1 mac _ h1 => h1.removePeer services mac) h
  · exact ⟨Nat.le_refl _, ⟨fun _ _ hp => (by cases hp), fun _ _ _ hp => (by cases hp)⟩,
      fun _ _ _ hp => (by cases hp), h0, fun p hle hlt => absurd hlt (Nat.not_lt.mpr hle)⟩
  · exact ⟨Nat.le_refl _, hlinked, fun _ _ _ hp => ⟨hreset, hp⟩, h0,
      fun p hle hlt => absurd hlt (Nat.not_lt.mpr hle)⟩

/-! ## Updates of single records -/

/-- What a pong makes of the record of its sender.
GOLINE: edge/handlers.go:221-240 -/
def pongedPeer (now : ℤ) (q : Peer) (checkId : Bytes) (fromSupernode : Bool) : Peer :=
  let q1 :=
    if q.p2pCheckID = checkId then (q.updateP2PStatus now .available checkId).1
    else (q.updateP2PStatus now .unknown []).1
  if q1.p2pStatus = .available then { q1 with isFullDuplex := !fromSupernode } else q1

theorem status_pongedPeer (now : ℤ) (q : Peer) (checkId : Bytes) (fromSupernode : Bool) :
    (pongedPeer now q checkId fromSupernode).p2pStatus =
      if q.p2pCheckID = checkId then (q.updateP2PStatus now .available checkId).1.p2pStatus
      else (q.updateP2PStatus now .unknown []).1.p2pStatus := by
  simp only [pongedPeer, apply_ite Peer.p2pStatus, ite_self]

theorem duplex_updateP2PStatus (now : ℤ) (q : Peer) (status : P2PCapacity) (checkid : Bytes) :
    (q.updateP2PStatus now status checkid).1.isFullDuplex = q.isFullDuplex := by
  rw [updateP2PStatus_eq]

theorem duplex_pongedPeer (now : ℤ) (q : Peer) (checkId : Bytes) (fromSupernode : Bool) :
    (pongedPeer now q checkId fromSupernode).isFullDuplex =
      if (pongedPeer now q checkId fromSupernode).p2pStatus = .available then !fromSupernode
      else q.isFullDuplex := by
  rw [status_pongedPeer]
  simp only [pongedPeer, apply_ite Peer.isFullDuplex, apply_ite Peer.p2pStatus,
    duplex_updateP2PStatus, ite_self]

/-- What an update other than a call makes of a record. -/
def effect (reg : PeerRegistry) : Operation → PeerRef → Peer → Peer
  | .ping now p asAvailable checkid, p', q =>
    if p' = p then (q.updateP2PStatus now (pingStatus asAvailable) checkid).1 else q
  | .pong now p checkId fromSupernode, p', q =>
    if p' = p then pongedPeer now q checkId fromSupernode else q
  | .report now mac, p', q =>
    if reg.peers.lookup mac = some p' then (q.updateP2PStatus now .available []).1 else q
  | .call _, _, q | .sweep _ _, _, q => q

theorem cell_updateStatus (now : ℤ) (p p' : PeerRef) (status : P2PCapacity) (checkid : Bytes) :
    (reg.updateStatus now p status checkid).records.cell p' =
      if p' = p then ((reg.records.cell p').updateP2PStatus now status checkid).1
      else reg.records.cell p' := by
  rw [records_updateStatus, Heap.cell_store]
  split
  · next heq => rw [heq]
  · rfl

theorem next_updateStatus (now : ℤ) (p : PeerRef) (status : P2PCapacity) (checkid : Bytes) :
    (reg.updateStatus now p status checkid).records.next = reg.records.next := by
  rw [records_updateStatus]
  rfl

theorem records_updateFullDuplex (hp : (reg.records.cell p).p2pStatus = .available) (value : Bool) :
    (reg.updateFullDuplex p value).records =
      reg.records.store p { reg.records.cell p with isFullDuplex := value } := by
  have hset : (reg.records.cell p).setFullDuplex value =
      ({ reg.records.cell p with isFullDuplex := value },
        .ok (value != (reg.records.cell p).isFullDuplex)) := by
    unfold Peer.setFullDuplex
    rw [if_neg (by rw [hp]; simp)]
  unfold updateFullDuplex
  rw [hset]
  exact records_setPendingChangesIf _

theorem peers_updateFullDuplex (value : Bool) :
    (reg.updateFullDuplex p value).peers = reg.peers := by
  unfold updateFullDuplex
  split
  · rfl
  · exact peers_setPendingChangesIf _

theorem recordPong_eq (now : ℤ) (reg : PeerRegistry) (p : PeerRef) (checkId : Bytes)
    (fromSupernode : Bool) :
    (EdgeClient.recordPong now reg p checkId fromSupernode).peers = reg.peers ∧
      (EdgeClient.recordPong now reg p checkId fromSupernode).records =
        reg.records.store p (pongedPeer now (reg.records.cell p) checkId fromSupernode) := by
  have hduplex : ∀ status checkid,
      (if ((reg.updateStatus now p status checkid).records.cell p).p2pStatus = .available then
          (reg.updateStatus now p status checkid).updateFullDuplex p (!fromSupernode)
        else reg.updateStatus now p status checkid).peers = reg.peers ∧
      (if ((reg.updateStatus now p status checkid).records.cell p).p2pStatus = .available then
          (reg.updateStatus now p status checkid).updateFullDuplex p (!fromSupernode)
        else reg.updateStatus now p status checkid).records =
        reg.records.store p
          (if ((reg.records.cell p).updateP2PStatus now status checkid).1.p2pStatus = .available then
            { ((reg.records.cell p).updateP2PStatus now status checkid).1 with
              isFullDuplex := !fromSupernode }
          else ((reg.records.cell p).updateP2PStatus now status checkid).1) := by
    intro status checkid
    have hcell : (reg.updateStatus now p status checkid).records.cell p =
        ((reg.records.cell p).updateP2PStatus now status checkid).1 := by
      rw [cell_updateStatus, if_pos rfl]
    rw [hcell]
    split
    · next hav =>
      refine ⟨(peers_updateFullDuplex _).trans (peers_updateStatus _ _), ?_⟩
      rw [records_updateFullDuplex (hcell ▸ hav), hcell, records_updateStatus]
      ext p'
      · simp only [Heap.cell_store]
        split
        · rfl
        · rfl
      · rfl
    · exact ⟨peers_updateStatus _ _, records_updateStatus _ _⟩
  unfold EdgeClient.recordPong pongedPeer
  by_cases hcheck : (reg.records.cell p).p2pCheckID = checkId
  · simp only [if_pos hcheck]
    exact hduplex .available checkId
  · simp only [if_neg hcheck]
    exact hduplex .unknown []

/-- The sweep has nothing to do as long as no pending peer has used up its budget. -/
theorem getP2PendingPeersLoop_eq (now : ℤ) {ps : List PeerRef} (acc : List PeerRef)
    (h : ∀ p ∈ ps, (reg.records.cell p).p2pStatus = .pending → 0 < (reg.records.cell p).pendingTTL) :
    getP2PendingPeersLoop now ps reg acc =
      (reg, acc ++ ps.filter fun p => (reg.records.cell p).p2pStatus = .pending) := by
  induction ps generalizing acc with
  | nil => rw [List.filter_nil, List.append_nil]; rfl
  | cons p ps ih =>
    have hrest := fun acc => ih acc fun p' hp' => h p' (List.mem_cons_of_mem p hp')
    unfold getP2PendingPeersLoop
    simp only
    by_cases hpending : (reg.records.cell p).p2pStatus = .pending
    · rw [if_pos hpending, if_pos (h p List.mem_cons_self hpending), hrest,
        List.filter_cons_of_pos (by simpa using hpending), List.append_assoc]
      rfl
    · rw [if_neg hpending, hrest, List.filter_cons_of_neg (by simpa using hpending)]

/-- Different addresses have different records, and each has the budget that its status asks
for. -/
structure Sound (reg : PeerRegistry) : Prop where
  linked : Table.Linked reg.peers reg.records
  budgeted : ∀ p, p < reg.records.next → (reg.records.cell p).Budgeted

theorem Sound.getP2PendingPeers (h : reg.Sound) (now : ℤ) (order : MapOrder) :
    reg.getP2PendingPeers now order = (reg, reg.peersWith order .pending) := by
  unfold PeerRegistry.getP2PendingPeers
  rw [getP2PendingPeersLoop_eq now []]
  · rfl
  · intro p hp hpending
    obtain ⟨mac, hlook⟩ := EdgeClient.exists_lookup_of_mem_visit hp
    exact (h.budgeted p (h.linked.lt mac p hlook)).pending hpending

/-- **What an update does**: it is a call, or each record becomes what `effect` says. -/
theorem operate_cases {op : Operation} (hs : reg.Sound) (h : operate services reg op = .ok (reg', u)) :
    (∃ c, op = .call c ∧ reg.call services c = .ok (reg', u)) ∨
      (∀ c, op ≠ .call c) ∧ reg'.peers = reg.peers ∧ reg'.records.next = reg.records.next ∧
        ∀ p, reg'.records.cell p = reg.effect op p (reg.records.cell p) := by
  cases op with
  | call c => exact Or.inl ⟨c, rfl, h⟩
  | ping now p asAvailable checkid =>
    cases h
    exact Or.inr ⟨fun c => (by simp), peers_updateStatus _ _, next_updateStatus _ _ _ _,
      fun p' => cell_updateStatus _ _ _ _ _⟩
  | pong now p checkId fromSupernode =>
    cases h
    obtain ⟨hpeers, hrecords⟩ := recordPong_eq now reg p checkId fromSupernode
    refine Or.inr ⟨fun c => (by simp), hpeers, by rw [hrecords]; rfl, fun p' => ?_⟩
    rw [hrecords, Heap.cell_store]
    simp only [effect]
    split
    · next heq => rw [heq]
    · rfl
  | report now mac =>
    cases h
    refine Or.inr ⟨fun c => (by simp), ?_⟩
    unfold EdgeClient.markAvailable getPeer
    cases hp : reg.peers.lookup mac with
    | none =>
      refine ⟨rfl, rfl, fun p => ?_⟩
      simp only [effect, hp, reduceCtorEq, if_false]
    | some p =>
      refine ⟨peers_updateStatus _ _, next_updateStatus _ _ _ _, fun p' => ?_⟩
      simp only [effect, hp, cell_updateStatus, Option.some.injEq]
      exact if_congr eq_comm rfl rfl
  | sweep now order =>
    cases h
    rw [hs.getP2PendingPeers now order]
    exact Or.inr ⟨fun c => (by simp), rfl, rfl, fun p => rfl⟩

theorem budgeted_pongedPeer {q : Peer} (h : q.Budgeted) (now : ℤ) (checkId : Bytes)
    (fromSupernode : Bool) : (pongedPeer now q checkId fromSupernode).Budgeted := by
  have hduplex : ∀ q1 : Peer, q1.Budgeted →
      (if q1.p2pStatus = .available then { q1 with isFullDuplex := !fromSupernode } else q1).Budgeted := by
    intro q1 h1
    split
    · exact ⟨h1.simplex, h1.nonneg, h1.le, h1.pending, h1.available, h1.unavailable⟩
    · exact h1
  unfold pongedPeer
  refine hduplex _ ?_
  split
  · exact h.updateP2PStatus now checkId (by simp)
  · exact h.updateP2PStatus now [] (by simp)

theorem budgeted_effect {q : Peer} (h : q.Budgeted) (reg : PeerRegistry) (op : Operation)
    (p : PeerRef) : (reg.effect op p q).Budgeted := by
  cases op with
  | call c => exact h
  | ping now p' asAvailable checkid =>
    simp only [effect]
    split
    · refine h.updateP2PStatus now checkid ?_
      cases asAvailable <;> simp [pingStatus]
    · exact h
  | pong now p' checkId fromSupernode =>
    simp only [effect]
    split
    · exact budgeted_pongedPeer h now checkId fromSupernode
    · exact h
  | report now mac =>
    simp only [effect]
    split
    · exact h.updateP2PStatus now [] (by simp)
    · exact h
  | sweep now order => exact h

/-- **Every update keeps the budgets.** -/
theorem Sound.operate {op : Operation} (h : reg.Sound)
    (hop : PeerRegistry.operate services reg op = .ok (reg', u)) : reg'.Sound := by
  rcases operate_cases h hop with ⟨c, -, hcall⟩ | ⟨-, hpeers, hnext, hcell⟩
  · have hrewritten : Rewritten (fun _ q => q.Budgeted) reg c reg' :=
      .call h.linked (fun _ _ _ _ _ _ now q hq => budgeted_overwritten now hq) h.budgeted hcall
    refine ⟨hrewritten.linked, fun p hp => ?_⟩
    by_cases hold : p < reg.records.next
    · exact hrewritten.old p hold
    · exact (hrewritten.new p (Nat.not_lt.mp hold) hp).budgeted
  · refine ⟨⟨fun mac p hp => ?_, ?_⟩, fun p hp => ?_⟩
    · rw [hnext]
      exact h.linked.lt mac p (hpeers ▸ hp)
    · rw [hpeers]
      exact h.linked.inj
    · rw [hcell]
      exact budgeted_effect (h.budgeted p (hnext ▸ hp)) reg op p

theorem sound_of_new (h : New reg) : reg.Sound := by
  obtain ⟨communityName, noPeer, rfl⟩ := h
  exact ⟨⟨fun mac p hp => (by cases hp), fun mac mac' p hp => (by cases hp)⟩,
    fun p hp => absurd hp (Nat.not_lt_zero p)⟩

end PeerRegistry

end N2nGo
