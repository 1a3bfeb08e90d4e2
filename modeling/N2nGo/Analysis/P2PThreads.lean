import N2nGo.Analysis.P2PInfos

/-!
# P2P infos side by side with removals

`SetP2PInfosFor` looks the edge up under `edgeMu` and writes its infos under `p2pMu`, with
nothing held in between. If the edge is removed between the two, its infos are written
after `Unregister` has deleted them and stay for good. A full state refers to the map of
the infos until it is encoded, so infos that are written in the meantime show up in it, next
to the list of offline edges it was built with. As long as the write happens while the edge
is a member, or while its removal still holds `edgeMu`, and while no full state that waits
to be encoded lists the edge as offline, only members have infos and no full state lists an
edge as reachable and unreachable (`p2pInfos_in_order`).
-/

set_option autoImplicit false

namespace N2nGo.Supernode

open N2nGo.Lib N2nGo.Protocol N2nGo.Messages

/-! ## Interleavings -/

abbrev P2PPool := Pool P2PShared P2PTask

/-- The call is about to begin. -/
def P2PTask.Begins : P2PTask → Prop
  | .report _ _ | .update _ _ | .remove _ _ | .ask _ _ => True
  | _ => False

/-- The call has begun and not returned. -/
def P2PTask.InProgress : P2PTask → Prop
  | .write _ _ | .erase _ | .build _ => True
  | _ => False

/-- Calls about to begin on community `cm`, in a state the supernode can be in. -/
def P2PBegins (P : Platform) (cm : CommunityRef) (c : P2PPool) : Prop :=
  ∃ s task hash, Reachable P s ∧ s.communities.lookup hash = some cm ∧
    (∀ i, (task i).Begins) ∧ c = Pool.start ⟨s, false⟩ task

/-- The removal of the edge has begun and still holds `edgeMu`. -/
def Leaving (c : P2PPool) (mac : Bytes) : Prop := ∃ i, c.task i = .erase mac

/-- If the goroutine is about to write infos, they are those of a member or of an edge whose
removal is in progress, and no full state that is held lists the edge as unreachable. -/
def WritesInTime (cm : CommunityRef) (c : P2PPool) (i : ℕ) : Prop :=
  ∀ mac infos, c.task i = .write mac infos →
    (mac ∈ (c.shared.sn.cms.cell cm).edges ∨ Leaving c mac) ∧
      ∀ j state, c.task j = .send state → mac ∉ state.unreachables

/-- A full state that the goroutine holds, or has encoded, lists no edge twice. -/
def P2PTask.Separates (cm : CommunityRef) (s : Supernode) : P2PTask → Prop
  | .send state => Separate (state.read s cm)
  | .done (some state) => Separate state
  | _ => True

theorem P2PTask.Separates.mono {cm : CommunityRef} {s s' : Supernode} {t : P2PTask}
    (h : t.Separates cm s) (hinfos : ∀ mac ∈ (s'.cms.cell cm).communityPeerP2PInfos,
      mac ∈ (s.cms.cell cm).communityPeerP2PInfos) : t.Separates cm s' := by
  cases t with
  | send state =>
    exact separate_read_iff.mpr fun mac hmac => separate_read_iff.mp h mac (hinfos mac hmac)
  | done state => cases state <;> exact h
  | _ => exact h

theorem P2PTask.Separates.write {cm : CommunityRef} {s : Supernode} {t : P2PTask} {mac : Bytes}
    (h : t.Separates cm s) (infos : PeerP2PInfos)
    (hheld : ∀ state, t = .send state → mac ∉ state.unreachables) :
    t.Separates cm (writeP2PInfos s cm mac infos) := by
  cases t with
  | send state =>
    refine separate_read_iff.mpr fun mac' hmac' => ?_
    rw [cell_writeP2PInfos] at hmac'
    rcases (AList.mem_insert _).mp hmac' with rfl | hold
    · exact hheld state rfl
    · exact separate_read_iff.mp h mac' hold
  | done state => cases state <;> exact h
  | _ => exact h

/-- The invariant of the interleavings. -/
structure P2POrdered (cm : CommunityRef) (c : P2PPool) : Prop where
  consistent : Consistent c.shared.sn cm (Leaving c)
  cached : CachedByMAC c.shared.sn
  locked : ∀ i mac, c.task i = .erase mac → c.shared.edgeMu = true
  alone : ∀ i j mac mac', c.task i = .erase mac → c.task j = .erase mac' → i = j
  states : ∀ i, (c.task i).Separates cm c.shared.sn

variable {mac : Bytes}

section Interleavings

variable {P : Platform} {cm : CommunityRef} {c c' : P2PPool} {i : ℕ} {s : Supernode} {t : P2PTask}

theorem task_advance_of_erase {sh : P2PShared} (ht : ∀ mac, t ≠ .erase mac) {j : ℕ}
    (hj : (c.advance i sh t).task j = .erase mac) : j ≠ i ∧ c.task j = .erase mac := by
  rw [Pool.task_advance] at hj
  split at hj
  · exact absurd hj (ht mac)
  · next hne => exact ⟨hne, hj⟩

theorem separates_advance {sh : P2PShared} (hold : ∀ j, (c.task j).Separates cm sh.sn)
    (hnew : t.Separates cm sh.sn) (j : ℕ) : ((c.advance i sh t).task j).Separates cm sh.sn := by
  rw [Pool.task_advance]
  split
  · exact hnew
  · exact hold j

theorem P2POrdered.advance (o : P2POrdered cm c) (hcons : Consistent s cm (Leaving c))
    (hcached : CachedByMAC s) (hi : ∀ mac, c.task i ≠ .erase mac) (ht : ∀ mac, t ≠ .erase mac)
    (hold : ∀ j, (c.task j).Separates cm s) (hnew : t.Separates cm s) :
    P2POrdered cm (c.advance i ⟨s, c.shared.edgeMu⟩ t) := by
  refine ⟨hcons.mono ?_, hcached, ?_, ?_, separates_advance hold hnew⟩
  · rintro mac ⟨j, hj⟩
    have hne : j ≠ i := by
      rintro rfl
      exact hi mac hj
    exact ⟨j, by rw [Pool.task_advance, if_neg hne, hj]⟩
  · exact fun j mac hj => o.locked j mac (task_advance_of_erase ht hj).2
  · exact fun j l mac mac' hj hl => o.alone j l mac mac' (task_advance_of_erase ht hj).2
      (task_advance_of_erase ht hl).2

theorem P2POrdered.erase (o : P2POrdered cm c) (hi : c.task i = .erase mac) :
    P2POrdered cm (c.advance i ⟨eraseP2PInfos c.shared.sn cm mac, false⟩ (.done none)) := by
  have ht : ∀ mac', P2PTask.done none ≠ .erase mac' := fun mac' h => by cases h
  -- the lock admits one removal at a time, so nobody is leaving now
  have hnone : ∀ {j mac'}, (c.advance i ⟨eraseP2PInfos c.shared.sn cm mac, false⟩
      (.done none)).task j ≠ .erase mac' := fun hj => by
    obtain ⟨hne, hj⟩ := task_advance_of_erase ht hj
    exact hne (o.alone _ _ _ _ hj hi)
  have hinfos : ∀ mac' ∈ ((eraseP2PInfos c.shared.sn cm mac).cms.cell cm).communityPeerP2PInfos,
      mac' ∈ (c.shared.sn.cms.cell cm).communityPeerP2PInfos := fun mac' hmac' => by
    rw [cell_eraseP2PInfos] at hmac'
    exact (AList.mem_erase.mp hmac').2
  refine ⟨(o.consistent.mono ?_).erase, o.cached, fun j mac' hj => absurd hj hnone,
    fun j l mac' _ hj => absurd hj hnone,
    separates_advance (fun j => (o.states j).mono hinfos) trivial⟩
  · rintro mac' ⟨j, hj⟩
    obtain rfl := o.alone _ _ _ _ hj hi
    rw [hi] at hj
    cases hj
    exact Or.inr rfl

theorem P2POrdered.remove (o : P2POrdered cm c) (hfree : c.shared.edgeMu = false) {env : Env}
    (hremove : removeEdge env c.shared.sn cm mac = some s) :
    P2POrdered cm (c.advance i ⟨s, true⟩ (.erase mac)) := by
  have hnone : ∀ j mac', c.task j ≠ .erase mac' := fun j mac' hj => by
    rw [o.locked j mac' hj] at hfree
    cases hfree
  have honly : ∀ {j mac'}, (c.advance i ⟨s, true⟩ (.erase mac)).task j = .erase mac' → j = i := by
    intro j mac' hj
    rw [Pool.task_advance] at hj
    split at hj
    · next heq => exact heq
    · exact absurd hj (hnone j mac')
  obtain ⟨hcms, info, hcached, hinfo, -⟩ := removeEdge_eq_some hremove
  have hinfos : ∀ mac' ∈ (s.cms.cell cm).communityPeerP2PInfos,
      mac' ∈ (c.shared.sn.cms.cell cm).communityPeerP2PInfos := fun mac' hmac' => by
    rw [hcms, Heap.cell_store_self] at hmac'
    exact hmac'
  refine ⟨(o.consistent.removeEdge hremove).mono ?_, o.cached.insert hcached hinfo,
    fun _ _ _ => rfl, fun j l _ _ hj hl => (honly hj).trans (honly hl).symm,
    separates_advance (fun j => (o.states j).mono hinfos) trivial⟩
  · rintro mac' (⟨j, hj⟩ | rfl)
    · exact absurd hj (hnone j mac')
    · exact ⟨i, by rw [Pool.task_advance, if_pos rfl]⟩

theorem P2POrdered.locked_step (o : P2POrdered cm c) (hfree : c.shared.edgeMu = false)
    {sh : P2PShared} (h : (c.task i).locked P cm c.shared.sn = (sh, t)) :
    P2POrdered cm (c.advance i sh t) := by
  have hnone : ∀ j mac, c.task j ≠ .erase mac := fun j mac hj => by
    rw [o.locked j mac hj] at hfree
    cases hfree
  -- a step that leaves the supernode as it is
  have hkeep : ∀ {t}, (∀ mac, t ≠ .erase mac) → t.Separates cm c.shared.sn →
      P2POrdered cm (c.advance i ⟨c.shared.sn, false⟩ t) := fun ht hnew => by
    have hadvance := o.advance o.consistent o.cached (hnone i) ht o.states hnew
    rwa [hfree] at hadvance
  cases htask : c.task i with
  | report mac infos =>
    rw [htask] at h
    simp only [P2PTask.locked] at h
    split at h <;> cases h <;> exact hkeep (fun _ h => by cases h) trivial
  | write mac infos =>
    rw [htask] at h
    cases h
    exact hkeep (fun _ h => by cases h) trivial
  | update env regMsg =>
    rcases hup : edgeUpdate P env c.shared.sn cm regMsg with ⟨s1, res⟩
    rw [htask, P2PTask.locked, hup] at h
    cases h
    have hstates : ∀ j, (c.task j).Separates cm s1 := fun j =>
      (o.states j).mono fun mac hmac => by rwa [infos_edgeUpdate hup] at hmac
    have hadvance := o.advance (o.consistent.edgeUpdate hup) (o.cached.edgeUpdate hup) (hnone i)
      (fun _ h => by cases h) hstates (t := .done none) trivial
    rwa [hfree] at hadvance
  | remove env mac =>
    rw [htask] at h
    simp only [P2PTask.locked] at h
    split at h
    · cases h
      exact hkeep (fun _ h => by cases h) trivial
    · next hremove =>
      cases h
      exact o.remove hfree hremove
  | erase mac => exact absurd htask (hnone i mac)
  | ask env mac =>
    rw [htask] at h
    simp only [P2PTask.locked] at h
    split at h <;> cases h <;> exact hkeep (fun _ h => by cases h) trivial
  | build env =>
    rw [htask] at h
    cases h
    refine hkeep (fun _ h => by cases h) ?_
    exact separate_buildP2PFullState (o.consistent.mono fun mac ⟨j, hj⟩ => hnone j mac hj) o.cached
  | send state =>
    rw [htask] at h
    cases h
    exact hkeep (fun _ h => by cases h) (htask ▸ o.states i)
  | done state =>
    rw [htask] at h
    cases h
    exact hkeep (fun _ h => by cases h) (htask ▸ o.states i)

theorem next_of_needs_edgeMu {sh : P2PShared} (hwrite : ∀ mac infos, t ≠ .write mac infos)
    (herase : ∀ mac, t ≠ .erase mac) (hsend : ∀ state, t ≠ .send state) :
    P2PTask.next P cm sh t = if sh.edgeMu then .ok (sh, t) else .ok (t.locked P cm sh.sn) := by
  cases t with
  | write mac infos => exact absurd rfl (hwrite mac infos)
  | erase mac => exact absurd rfl (herase mac)
  | send state => exact absurd rfl (hsend state)
  | report mac infos => rfl
  | update env regMsg => rfl
  | remove env mac => rfl
  | ask env mac => rfl
  | build env => rfl
  | done state => rfl

theorem P2POrdered.write (o : P2POrdered cm c) (hadm : WritesInTime cm c i) {infos : PeerP2PInfos}
    (htask : c.task i = .write mac infos) :
    P2POrdered cm (c.advance i ⟨writeP2PInfos c.shared.sn cm mac infos, c.shared.edgeMu⟩
      (.done none)) := by
  obtain ⟨hmember, hheld⟩ := hadm mac infos htask
  exact o.advance (o.consistent.write infos hmember) o.cached
    (fun _ h => by rw [htask] at h; cases h) (fun _ h => by cases h)
    (fun j => (o.states j).write infos (hheld j)) trivial

/-- **A step taken in time keeps the order.** -/
theorem P2POrdered.step (o : P2POrdered cm c) (hadm : WritesInTime cm c i)
    (h : Pool.step (P2PTask.next P cm) c i = .ok (c', ())) : P2POrdered cm c' := by
  obtain ⟨sh, t, hnext, rfl⟩ := Pool.step_eq_ok_iff.mp h
  by_cases herase : ∃ mac, c.task i = .erase mac
  · obtain ⟨mac, htask⟩ := herase
    rw [htask] at hnext
    cases hnext
    exact o.erase htask
  have hi : ∀ mac, c.task i ≠ .erase mac := not_exists.mp herase
  by_cases hwrite : ∃ mac infos, c.task i = .write mac infos
  · obtain ⟨mac, infos, htask⟩ := hwrite
    rw [htask] at hnext
    cases hnext
    exact o.write hadm htask
  by_cases hsend : ∃ state, c.task i = .send state
  · obtain ⟨state, htask⟩ := hsend
    rw [htask] at hnext
    cases hnext
    have hstate : (c.task i).Separates cm c.shared.sn := o.states i
    rw [htask] at hstate
    exact o.advance o.consistent o.cached hi (fun _ h => by cases h) o.states hstate
  rw [next_of_needs_edgeMu (fun mac infos hw => hwrite ⟨mac, infos, hw⟩) hi
    (not_exists.mp hsend)] at hnext
  cases hmu : c.shared.edgeMu with
  | true =>
    -- the goroutine waits
    rw [hmu] at hnext
    cases hnext
    exact o.advance o.consistent o.cached hi hi o.states (o.states i)
  | false =>
    rw [hmu] at hnext
    exact o.locked_step hmu (Except.ok.inj hnext)

/-- **The P2P infos in order.** In every interleaving of calls on a community in which infos
are written while their edge is a member or its removal is in progress, and while no full
state that is held lists it as unreachable: when no call is in progress only members have
infos, and no full state has an edge twice, at any time before it is encoded or as it was
encoded.
GOLINE: supernode/community.go:125-163, 203-222, 258-326, supernode/registration.go:165-186 -/
theorem p2pInfos_in_order (P : Platform) (cm : CommunityRef) (c : P2PPool)
    (h : Reach (Pool.step (P2PTask.next P cm)) (P2PBegins P cm) (WritesInTime cm) c) :
    ((∀ i, ¬ (c.task i).InProgress) → ∀ mac ∈ (c.shared.sn.cms.cell cm).communityPeerP2PInfos,
        mac ∈ (c.shared.sn.cms.cell cm).edges) ∧
      (∀ i state, c.task i = .send state → Separate (state.read c.shared.sn cm)) ∧
      ∀ i state, c.task i = .done (some state) → Separate state := by
  have o : P2POrdered cm c := Reach.invariant (I := P2POrdered cm)
    (fun c0 h0 => by
      obtain ⟨s, task, hash, hs, hcm, hbegins, rfl⟩ := h0
      have hnone : ∀ i mac, task i ≠ .erase mac := fun i mac hi => by
        have hb := hbegins i
        rw [hi] at hb
        exact hb
      obtain ⟨hcached, hknown⟩ := infosAgree_of_reachable hs
      refine ⟨(hknown hash cm hcm).mono fun _ => False.elim, hcached,
        fun i mac hi => absurd hi (hnone i mac), fun i j mac _ hi => absurd hi (hnone i mac),
        fun i => ?_⟩
      have hb := hbegins i
      show (task i).Separates cm s
      cases htask : task i with
      | send state => rw [htask] at hb; exact hb.elim
      | done state => rw [htask] at hb; exact hb.elim
      | _ => trivial)
    (fun _ _ _ _ o hadm hstep => o.step hadm hstep) h
  refine ⟨fun hrest mac hmac => (o.consistent.reported mac hmac).resolve_right ?_,
    fun i state hi => ?_, fun i state hi => ?_⟩
  rotate_left
  · have hstate := o.states i
    rwa [hi] at hstate
  · have hstate := o.states i
    rwa [hi] at hstate
  rintro ⟨i, hi⟩
  have hb := hrest i
  rw [hi] at hb
  exact hb trivial

end Interleavings

/-! ## Calls on the sample supernode -/

/-- Goroutine 0 reports for machine `m`, goroutine 1 removes `m`, all others ask for `n`. -/
def p2pCalls (i : ℕ) : P2PTask :=
  if i = 0 then .report (macText "c" "m") ⟨none, []⟩
  else if i = 1 then .remove Sample.env (macText "c" "m")
  else .ask Sample.env (macText "c" "n")

theorem begins_p2pCalls (i : ℕ) : (p2pCalls i).Begins := by
  unfold p2pCalls
  split
  · trivial
  · split <;> trivial

/-- The call has returned, and its full state lists the MAC where `reachable` and
`unreachable` say. -/
def P2PTask.lists (mac : Bytes) (reachable unreachable : Bool) : P2PTask → Bool
  | .done (some state) => state.reachables.any (fun t => decide (mac ∈ t) == reachable) &&
      state.unreachables.any fun t => decide (mac ∈ t) == unreachable
  | _ => false

theorem P2PTask.done_of_lists {t : P2PTask} {reachable unreachable : Bool}
    (h : t.lists mac reachable unreachable = true) :
    ∃ state reachables unreachables, t = .done (some state) ∧ state.reachables = some reachables ∧
      state.unreachables = some unreachables ∧ (mac ∈ reachables ↔ reachable = true) ∧
      (mac ∈ unreachables ↔ unreachable = true) := by
  unfold P2PTask.lists at h
  split at h
  · next state =>
    obtain ⟨hr, hu⟩ := Bool.and_eq_true_iff.mp h
    obtain ⟨reachables, hreachables, hr⟩ := (Option.any_eq_true _ _).mp hr
    obtain ⟨unreachables, hunreachables, hu⟩ := (Option.any_eq_true _ _).mp hu
    refine ⟨state, reachables, unreachables, rfl, hreachables, hunreachables, ?_, ?_⟩
    · rw [← eq_of_beq hr, decide_eq_true_iff]
    · rw [← eq_of_beq hu, decide_eq_true_iff]
  · cases h

def P2PTask.returned : P2PTask → Bool
  | .done _ => true
  | _ => false

theorem P2PTask.not_inProgress_of_returned {t : P2PTask} (h : t.returned = true) :
    ¬ t.InProgress := by
  cases t with
  | done state => exact id
  | _ => cases h

theorem P2PTask.not_inProgress_of_begins {t : P2PTask} (h : t.Begins) : ¬ t.InProgress := by
  cases t with
  | write mac infos => exact h.elim
  | erase mac => exact h.elim
  | build env => exact h.elim
  | _ => exact id

/-- Two members of `c`. -/
def twoMembers : Go Supernode :=
  runEvents (step Sample.platform) Sample.start [registers "c" "m" 1, registers "c" "n" 2]

def P2PTask.writes : P2PTask → Bool
  | .write _ _ => true
  | _ => false

theorem writesInTime_of_test (c : P2PPool) (i : ℕ) (h : (!(c.task i).writes) = true) :
    WritesInTime 0 c i := by
  intro mac infos htask
  rw [htask] at h
  cases h

/-- Goroutine 0 has found that machine `m` is a member. -/
def checked (s : Supernode) : P2PPool :=
  (Pool.start ⟨s, false⟩ p2pCalls).advance 0 ⟨s, false⟩ (.write (macText "c" "m") ⟨none, []⟩)

/-- Goroutine 0 has written the infos of machine `m`. -/
def reported (s : Supernode) : P2PPool :=
  (checked s).advance 0 ⟨writeP2PInfos s 0 (macText "c" "m") ⟨none, []⟩, false⟩ (.done none)

/-- The report is complete before any other goroutine moves, so it is in time. -/
theorem reach_reported {s : Supernode} {ref : EdgeRef}
    (hbegins : P2PBegins Sample.platform 0 (Pool.start ⟨s, false⟩ p2pCalls))
    (hmember : (s.cms.cell 0).edges.lookup (macText "c" "m") = some ref) :
    Reach (Pool.step (P2PTask.next Sample.platform 0)) (P2PBegins Sample.platform 0)
      (WritesInTime 0) (reported s) := by
  have hcheck : Pool.step (P2PTask.next Sample.platform 0) (Pool.start ⟨s, false⟩ p2pCalls) 0 =
      .ok (checked s, ()) := by
    refine Pool.step_eq_ok_iff.mpr ⟨⟨s, false⟩, _, ?_, rfl⟩
    show Except.ok (P2PTask.locked Sample.platform 0 s (.report (macText "c" "m") ⟨none, []⟩)) = _
    rw [P2PTask.locked, hmember]
  have hfirst : Reach _ (P2PBegins Sample.platform 0) (WritesInTime 0) (checked s) :=
    (Reach.init hbegins).step (writesInTime_of_test _ 0 rfl) hcheck
  have hwrite : Pool.step (P2PTask.next Sample.platform 0) (checked s) 0 = .ok (reported s, ()) := rfl
  refine hfirst.step ?_ hwrite
  rintro mac infos htask
  cases htask
  refine ⟨.inl (Table.mem_of_lookup hmember), fun j state hj => ?_⟩
  rw [checked, Pool.task_advance] at hj
  split at hj
  · cases hj
  · have hb := begins_p2pCalls j
    rw [show p2pCalls j = .send state from hj] at hb
    exact hb.elim

/-- The report of machine `m` is complete when `n` asks, and `m` is not listed as offline. -/
theorem p2pInfos_report_first :
    ∃ (c : P2PPool) (state : P2PFullState), c.task 2 = .done (some state) ∧
      macText "c" "m" ∈ (c.shared.sn.cms.cell 0).communityPeerP2PInfos ∧ Separate state := by
  obtain ⟨s, hrun, hs⟩ := exists_of_passes (x := twoMembers)
    (p := fun s => decide (s.communities.lookup (hashCommunity (ascii "c")) = some 0 ∧
        (s.cms.cell 0).edges.lookup (macText "c" "m") = some 0) &&
      (runAllowed (Pool.step (P2PTask.next Sample.platform 0)) (fun c i => !(c.task i).writes)
        (reported s) [2, 2, 2]).any fun c : P2PPool =>
          (c.task 2).lists (macText "c" "m") true false &&
            decide (macText "c" "m" ∈ (c.shared.sn.cms.cell 0).communityPeerP2PInfos))
    (by decide +kernel)
  obtain ⟨hstart, hs⟩ := Bool.and_eq_true_iff.mp hs
  obtain ⟨hcm, hmember⟩ := of_decide_eq_true hstart
  obtain ⟨c, hc, htest⟩ := (Option.any_eq_true _ _).mp hs
  obtain ⟨hlists, hinfos⟩ := Bool.and_eq_true_iff.mp htest
  obtain ⟨state, -, -, htask, -⟩ := P2PTask.done_of_lists hlists
  have hbegins : P2PBegins Sample.platform 0 (Pool.start ⟨s, false⟩ p2pCalls) :=
    ⟨s, p2pCalls, _, Sample.reachable_start.of_runEvents hrun, hcm, begins_p2pCalls, rfl⟩
  have hreach : Reach (Pool.step (P2PTask.next Sample.platform 0)) (P2PBegins Sample.platform 0)
      (WritesInTime 0) c :=
    .of_runAllowed writesInTime_of_test (reach_reported hbegins hmember) hc
  exact ⟨c, state, htask, of_decide_eq_true hinfos,
    (p2pInfos_in_order Sample.platform 0 c hreach).2.2 2 state htask⟩

/-- Machine `m` is removed between the check and the write of its report. With all calls
returned it has infos without being a member, and the answer for `n` lists it twice. -/
theorem p2pInfos_written_too_late :
    ∃ c : P2PPool, Reach (Pool.step (P2PTask.next Sample.platform 0)) (P2PBegins Sample.platform 0)
        (fun _ _ => True) c ∧
      (∀ i, ¬ (c.task i).InProgress) ∧
      macText "c" "m" ∈ (c.shared.sn.cms.cell 0).communityPeerP2PInfos ∧
      macText "c" "m" ∉ (c.shared.sn.cms.cell 0).edges ∧
      ∃ state, c.task 2 = .done (some state) ∧ ¬ Separate state := by
  obtain ⟨⟨s, c⟩, hrun, hs⟩ := exists_of_passes
    (x := do
      let s ← twoMembers
      let c ← runEvents (Pool.step (P2PTask.next Sample.platform 0))
        (Pool.start ⟨s, false⟩ p2pCalls) [0, 1, 1, 0, 2, 2, 2]
      .ok (s, c))
    (p := fun res => decide (
        res.1.communities.lookup (hashCommunity (ascii "c")) = some 0 ∧
        macText "c" "m" ∈ (res.2.shared.sn.cms.cell 0).communityPeerP2PInfos ∧
        macText "c" "m" ∉ (res.2.shared.sn.cms.cell 0).edges) &&
      [0, 1, 1, 0, 2, 2, 2].all (fun i => (res.2.task i).returned) &&
      (res.2.task 2).lists (macText "c" "m") true true) (by decide +kernel)
  obtain ⟨s1, hs1, hrest⟩ := bind_eq_ok.mp hrun
  obtain ⟨c1, hc, hrest⟩ := bind_eq_ok.mp hrest
  cases hrest
  obtain ⟨htest, hlists⟩ := Bool.and_eq_true_iff.mp hs
  obtain ⟨htest, hreturned⟩ := Bool.and_eq_true_iff.mp htest
  obtain ⟨hcm, hreported, hgone⟩ := of_decide_eq_true htest
  obtain ⟨state, reachables, unreachables, htask, hr, hu, hmr, hmu⟩ := P2PTask.done_of_lists hlists
  have hbegins : P2PBegins Sample.platform 0 (Pool.start ⟨s, false⟩ p2pCalls) :=
    ⟨s, p2pCalls, _, Sample.reachable_start.of_runEvents hs1, hcm, begins_p2pCalls, rfl⟩
  refine ⟨c, Reach.of_runEvents (.init hbegins) hc, fun i => ?_, hreported, hgone, state, htask,
    fun h => h reachables unreachables hr hu _ (hmr.mpr rfl) (hmu.mpr rfl)⟩
  by_cases hi : i ∈ [0, 1, 1, 0, 2, 2, 2]
  · exact P2PTask.not_inProgress_of_returned (List.all_eq_true.mp hreturned i hi)
  · rw [Pool.task_runEvents hc hi]
    exact P2PTask.not_inProgress_of_begins (begins_p2pCalls i)

end N2nGo.Supernode
