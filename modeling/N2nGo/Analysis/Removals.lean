import N2nGo.Analysis.Agreement
import Mathlib.Data.Finset.Union
import Mathlib.Data.Finset.Card

/-!
# The count of unregistered edges

`stats.EdgesUnregistered` against the records that really left the communities. A step
removes what a community held before and no longer holds after (`removed`). A removal by
request is counted in `onEdgeUnregistered`; `CleanupStaleEdges` counts the edge itself and
then calls `onEdgeUnregistered`, so what it removes is counted twice. Over a run the
counter is the number of removals plus the number of those made by a cleanup. What a cleanup
removes are the stale edges and no others (`cleanup_exact`).
-/

set_option autoImplicit false

namespace N2nGo.Supernode

open N2nGo.Lib N2nGo.Protocol N2nGo.Messages

variable {P : Platform} {env : Env} {s s' : Supernode} {r : RawMessage} {out out' : List Sent}
  {err : Except Err Unit} {cm : CommunityRef} {mac : Bytes}

/-! ## What communities hold -/

/-- The edge records in the maps of the communities, by community and MAC. -/
def held (s : Supernode) : Finset (CommunityRef × Bytes) :=
  (Finset.range s.cms.next).biUnion fun cm =>
    (s.cms.cell cm).edges.keys.toFinset.image fun mac => (cm, mac)

/-- The number of records that were in the maps in `s` and are not in `s'`. -/
def removed (s s' : Supernode) : ℕ := (s.held \ s'.held).card

theorem mem_held : (cm, mac) ∈ s.held ↔ s.registry.Held cm mac := by
  unfold held Registry.Held
  simp only [Finset.mem_biUnion, Finset.mem_range, Finset.mem_image, List.mem_toFinset,
    Prod.mk.injEq]
  constructor
  · rintro ⟨cm', hlt, mac', hmem, rfl, rfl⟩
    exact ⟨hlt, Table.exists_lookup_of_mem hmem⟩
  · rintro ⟨hlt, ref, hlook⟩
    exact ⟨cm, hlt, mac, Table.mem_of_lookup hlook, rfl, rfl⟩

theorem held_subset (h : ∀ cm mac, s.registry.Held cm mac → s'.registry.Held cm mac) :
    s.held ⊆ s'.held := by
  rintro ⟨cm, mac⟩ hmem
  exact mem_held.mpr (h cm mac (mem_held.mp hmem))

theorem held_congr (h : s'.registry = s.registry) : s'.held = s.held :=
  Finset.Subset.antisymm (held_subset fun _ _ hheld => h ▸ hheld)
    (held_subset fun _ _ hheld => h ▸ hheld)

theorem removed_eq_zero (h : s.held ⊆ s'.held) : removed s s' = 0 := by
  unfold removed
  rw [Finset.sdiff_eq_empty_iff_subset.mpr h, Finset.card_empty]

theorem held_removed (h : s'.registry = s.registry.apply (.leave cm mac)) :
    s'.held = s.held.erase (cm, mac) := by
  ext ⟨cm', mac'⟩
  rw [Finset.mem_erase, mem_held, mem_held, h, Registry.held_leave, ne_eq, Prod.mk.injEq, and_comm]

theorem removed_erase {s1 s2 : Supernode} (hsub : s1.held ⊆ s.held) (hheld : (cm, mac) ∈ s1.held)
    (herase : s2.held = s1.held.erase (cm, mac)) : removed s s2 = removed s s1 + 1 := by
  unfold removed
  rw [herase, Finset.sdiff_erase (hsub hheld), Finset.card_insert_of_notMem]
  exact fun hmem => (Finset.mem_sdiff.mp hmem).2 hheld

/-! ## Messages -/

theorem edgesUnregistered_registerEdge {reg : Message RegisterRequest}
    {res : Except Err (EdgeRef × CommunityRef)} (h : registerEdge P env s reg = .ok (s', res)) :
    s'.stats.edgesUnregistered = s.stats.edgesUnregistered := by
  have hcommunity : ∀ {s0 : Supernode} {name : Bytes} {hash : UInt32}
      {res0 : Except Err CommunityRef},
      registerCommunity P s name hash = .ok (s0, res0) → s0.stats = s.stats := by
    intro s0 name hash res0 h0
    cases registerCommunity_found h0 with
    | failed e => rfl
    | existing _ _ _ => rfl
    | created _ _ _ hpool =>
      rcases poolFor_eq_some hpool with ⟨rfl, -⟩ | ⟨pool, -, -, -, rfl⟩
      · rfl
      · rfl
  have hupdate : ∀ {s0 s1 : Supernode} {cm : CommunityRef} {regMsg : Message RegisterRequest}
      {res1 : Except Err EdgeRef}, edgeUpdate P env s0 cm regMsg = (s1, res1) →
      s1.stats = s0.stats := by
    intro s0 s1 cm regMsg res1 h1
    cases edgeUpdate_updated h1 <;> rfl
  cases registerEdge_registered h with
  | invalid e => rfl
  | noCommunity h0 => rw [hcommunity h0]
  | noEdge _ h0 hup => rw [hupdate hup, hcommunity h0]
  | edge f _ h0 hup =>
    refine (f.unregistered _).trans ?_
    rw [hupdate hup, hcommunity h0]
    rfl

/-- A message that does not ask for a removal removes nobody. -/
theorem removed_eq_zero_of_served (h : Served P env s r s')
    (hr : r.header.packetType ≠ typeUnregisterRequest) : removed s s' = 0 := by
  obtain ⟨ops, hrun, -, hops⟩ := h
  have hnone : ∀ op ∈ ops, ∀ cm mac, op ≠ .leave cm mac := by
    rintro op hop cm mac rfl
    rcases hops _ hop with ⟨hash, name, heq⟩ | ⟨unReg, id, hmsg, -⟩
    · cases heq
    · exact hr (packetType_of_toMessage hmsg)
  exact removed_eq_zero (held_subset fun cm mac hheld => Registry.Held.run hheld hrun hnone)

theorem stats_removed {s1 s2 : Supernode} {pil : PeerInfoList}
    (hun : unregister env s cm mac = (s1, true)) (hunindex : s1.unindexEdge mac = .ok (s2, pil)) :
    s2.stats = s.stats := by
  obtain ⟨⟨ref, href⟩, -⟩ := unindexEdge_ok hunindex
  rw [unindexEdge_eq href] at hunindex
  cases hunindex
  unfold unregister at hun
  simp only at hun
  split at hun
  · cases hun
  · cases hun
    rfl

/-- **A message counts every record that it removes.** -/
theorem handled_account (v : s.registry.Valid hashCommunity) (h : Handled P env s r s' out err) :
    s'.stats.edgesUnregistered = s.stats.edgesUnregistered + removed s s' := by
  have hnobody := removed_eq_zero_of_served (h.served v)
  cases h with
  | idle hidle _ =>
    rw [removed_eq_zero (held_congr hidle.registry_eq).symm.subset]
    cases hidle with
    | count f => exact f.unregistered _
    | report _ _ => rfl
  | refused f hmsg hreg _ =>
    rw [hnobody (by rw [packetType_of_toMessage hmsg]; decide)]
    exact (f.unregistered _).trans (edgesUnregistered_registerEdge hreg)
  | @registered reg s1 s2 ref cm out err err' f hmsg hreg hs2 _ =>
    rw [hnobody (by rw [packetType_of_toMessage hmsg]; decide)]
    have hindexed : s2.stats = s1.stats := by
      rw [hs2]
      cases r.fromAddr <;> rfl
    refine (f.unregistered _).trans ?_
    rw [hindexed, edgesUnregistered_registerEdge hreg]
  | refreshed f hmsg _ _ _ =>
    rw [hnobody (by rw [packetType_of_toMessage hmsg]; decide)]
    exact f.unregistered _
  | @removed unReg id cm s1 s2 pil f _ _ hgroup hun hunindex =>
    obtain ⟨hmember, -, hleave⟩ := registry_removed hun hunindex
    have hheld : (cm, r.edgeMACAddr) ∈ s.held := mem_held.mpr ⟨v.group_lt hgroup, hmember⟩
    have hone : removed s (s2.count f) = removed s s + 1 :=
      removed_erase (Finset.Subset.refl _) hheld (held_removed hleave)
    rw [hone, removed_eq_zero (Finset.Subset.refl _)]
    refine (f.unregistered _).trans ?_
    rw [stats_removed hun hunindex]

/-! ## Cleanups -/

/-- **A cleanup counts every record that it removes twice.** -/
theorem cleanupLoop_account {stales : List (CommunityRef × Bytes)}
    (hknown : ∀ cm mac, (cm, mac) ∈ stales → cm < s.registry.groups)
    (h : cleanupLoop P env stales s out = .ok (s', out')) :
    s'.stats.edgesUnregistered = s.stats.edgesUnregistered + 2 * removed s s' := by
  refine (cleanupLoop_induction (I := fun s1 _ => s1.held ⊆ s.held ∧
    s1.registry.groups = s.registry.groups ∧
    s1.stats.edgesUnregistered = s.stats.edgesUnregistered + 2 * removed s s1) ?_ h
    ⟨Finset.Subset.refl _, rfl, by rw [removed_eq_zero (Finset.Subset.refl _)]; rfl⟩).2.2
  rintro s1 s2 s3 out1 cm mac pil f hmem ⟨hsub, hgroups, hcount⟩ hun hunindex
  obtain ⟨hmember, -, hleave⟩ := registry_removed hun hunindex
  have hheld : (cm, mac) ∈ s1.held := mem_held.mpr ⟨hgroups ▸ hknown cm mac hmem, hmember⟩
  have herase : (s3.count f).held = s1.held.erase (cm, mac) := held_removed hleave
  refine ⟨herase ▸ (Finset.erase_subset _ _).trans hsub, ?_, ?_⟩
  · rw [registry_count, hleave]
    exact Registry.groups_leave.trans hgroups
  · refine (f.unregistered _).trans ?_
    rw [stats_removed hun hunindex, hcount, removed_erase hsub hheld herase]
    omega

/-! ## What a cleanup leaves -/

theorem member_cleanupLoop {stales : List (CommunityRef × Bytes)} {ref : EdgeRef}
    (h : cleanupLoop P env stales s out = .ok (s', out')) :
    s'.registry.member cm mac = some ref ↔
      s.registry.member cm mac = some ref ∧ (cm, mac) ∉ stales := by
  induction stales generalizing s out with
  | nil =>
    cases h
    simp
  | cons stale stales ih =>
    obtain ⟨cm', mac'⟩ := stale
    unfold cleanupLoop at h
    rcases hun : unregister env s cm' mac' with ⟨s1, found⟩
    rw [hun] at h
    rw [List.mem_cons, Prod.mk.injEq, not_or, ← and_assoc]
    cases found with
    | false =>
      obtain ⟨rfl, hnone⟩ := unregister_false hun
      rw [ih h]
      refine and_congr_left' (and_iff_left_of_imp fun hmember => ?_).symm
      rintro ⟨rfl, rfl⟩
      cases hnone.symm.trans hmember
    | true =>
      obtain ⟨⟨s2, out2⟩, hon, h⟩ := bind_eq_ok.mp h
      obtain ⟨s3, pil, f, hunindex, rfl, -⟩ := onEdgeUnregistered_eq hon
      obtain ⟨s4, hunindexed, rfl⟩ := unindexEdge_count hunindex
      rw [ih h, registry_count, registry_count, (registry_removed hun hunindexed).2.2]
      refine and_congr_left' ?_
      show ((s.registry.expel cm' mac').unindex mac').member cm mac = some ref ↔ _
      rw [Registry.member_unindex]
      unfold Registry.expel
      by_cases hcm : cm = cm'
      · subst hcm
        by_cases hmac : mac = mac'
        · simp [hmac]
        · simp [hmac]
      · simp [hcm]

theorem mem_staleEdges (v : s.registry.Valid hashCommunity) {ref : EdgeRef}
    (hl : s.registry.Listed cm mac ref) : (cm, mac) ∈ staleEdges env s ↔
      env.now - (s.edges.cell ref).lastHeartbeat > s.config.expiryDuration := by
  have hkey : ∀ {mac ref}, (s.cms.cell cm).edges.lookup mac = some ref →
      (s.edges.cell ref).macAddr = mac := fun hmac => v.listed_key ⟨hl.1, hmac⟩
  have hmember : (s.cms.cell cm).edges.lookup mac = some ref := hl.2
  unfold staleEdges getStaleEdgeIDs getAllEdges Env.ranging
  simp only [List.mem_flatMap, List.mem_map, List.mem_filter, MapOrder.mem_visit,
    Table.mem_values_iff, Prod.mk.injEq, decide_eq_true_iff]
  constructor
  · rintro ⟨cm', -, id, ⟨edge, ⟨⟨ref', ⟨mac', hmac'⟩, rfl⟩, hstale⟩, rfl⟩, rfl, hid⟩
    rw [← hid, hkey hmac', hmac'] at hmember
    cases hmember
    exact hstale
  · intro hstale
    exact ⟨cm, hl.1, mac, ⟨_, ⟨⟨ref, ⟨mac, hmember⟩, rfl⟩, hstale⟩, hkey hmember⟩, rfl, rfl⟩

theorem listed_of_mem_staleEdges (v : s.registry.Valid hashCommunity)
    (h : (cm, mac) ∈ staleEdges env s) : ∃ ref, s.registry.Listed cm mac ref := by
  obtain ⟨hash, hgroup⟩ := group_of_mem_staleEdges h
  unfold staleEdges getStaleEdgeIDs getAllEdges Env.ranging at h
  simp only [List.mem_flatMap, List.mem_map, List.mem_filter, MapOrder.mem_visit,
    Table.mem_values_iff, Prod.mk.injEq] at h
  obtain ⟨cm', -, id, ⟨edge, ⟨⟨ref, ⟨mac', hmac'⟩, rfl⟩, -⟩, rfl⟩, rfl, rfl⟩ := h
  have hl : s.registry.Listed cm' mac' ref := ⟨⟨hash, hgroup⟩, hmac'⟩
  have hkey : (s.edges.cell ref).macAddr = mac' := v.listed_key hl
  rw [hkey]
  exact ⟨ref, hl⟩

/-- A cleanup removes nobody exactly if no edge is stale. -/
theorem removed_cleanup_eq_zero_iff (v : s.registry.Valid hashCommunity)
    (h : step P s (.cleanup env) = .ok (s', out)) : removed s s' = 0 ↔ staleEdges env s = [] := by
  obtain ⟨⟨s1, out1⟩, hloop, h⟩ := bind_eq_ok.mp h
  cases h
  constructor
  · intro hzero
    refine List.eq_nil_iff_forall_not_mem.mpr fun ⟨cm, mac⟩ hmem => ?_
    obtain ⟨ref, hl⟩ := listed_of_mem_staleEdges v hmem
    have hheld : (cm, mac) ∈ s.held := mem_held.mpr ⟨v.group_lt hl.1.choose_spec, ref, hl.2⟩
    obtain ⟨-, ref', hmember⟩ :=
      mem_held.mp (Finset.sdiff_eq_empty_iff_subset.mp (Finset.card_eq_zero.mp hzero) hheld)
    exact ((member_cleanupLoop hloop).mp hmember).2 hmem
  · intro hnil
    rw [hnil] at hloop
    cases hloop
    exact removed_eq_zero (Finset.Subset.refl s.held)

/-- **A cleanup removes exactly the stale edges.** The members of a community after it are, with
their records, those that were heard from within the expiry time.
GOLINE: supernode/cleanup.go:9-37, supernode/community.go:416-427 -/
theorem cleanup_exact (P : Platform) (env : Env) (s s' : Supernode) (out : List Sent)
    (h : Reachable P s) (hstep : step P s (.cleanup env) = .ok (s', out)) (hash : UInt32)
    (cm : CommunityRef) (hcm : s.communities.lookup hash = some cm) (mac : Bytes) (ref : EdgeRef) :
    (s'.cms.cell cm).edges.lookup mac = some ref ↔
      (s.cms.cell cm).edges.lookup mac = some ref ∧
        env.now - (s.edges.cell ref).lastHeartbeat ≤ s.config.expiryDuration := by
  obtain ⟨⟨s1, out1⟩, hloop, hstep⟩ := bind_eq_ok.mp hstep
  cases hstep
  refine (member_cleanupLoop hloop).trans (and_congr_right fun hmember => ?_)
  rw [mem_staleEdges h.valid ⟨⟨hash, hcm⟩, hmember⟩, not_lt]

/-- The cleanup ticker long after the last heartbeat. -/
def lateCleanup : Event := .cleanup { Sample.env with now := 1000 }

/-- Machine `m` has been silent for long and machine `n` has not. -/
theorem cleanup_exact_one_stale :
    ∃ s s' out, Reachable Sample.platform s ∧ step Sample.platform s lateCleanup = .ok (s', out) ∧
      (s'.cms.cell 0).edges.lookup (macText "c" "m") ≠ some 0 ∧
      (s'.cms.cell 0).edges.lookup (macText "c" "n") = some 1 := by
  obtain ⟨s, hrun, hs⟩ := exists_of_passes
    (x := runEvents (step Sample.platform) Sample.start [registers "c" "m" 1,
      .packet { Sample.env with now := 950 }
        (Sample.request typeRegisterRequest (ascii "c") (ascii "n")) (Sample.client 2)])
    (p := fun s => Passes (step Sample.platform s lateCleanup) fun _ =>
      decide (s.communities.lookup (hashCommunity (ascii "c")) = some 0 ∧
        (s.cms.cell 0).edges.lookup (macText "c" "n") = some 1 ∧
        (s.edges.cell 0).lastHeartbeat = 0 ∧ (s.edges.cell 1).lastHeartbeat = 950 ∧
        s.config.expiryDuration = 100))
    (by decide +kernel)
  obtain ⟨⟨s', out⟩, hstep, hs⟩ := exists_of_passes hs
  obtain ⟨hcm, hn, hlast, hlast', hexpiry⟩ := of_decide_eq_true hs
  have hreach : Reachable Sample.platform s := .of_runEvents Sample.reachable_start hrun
  have hexact := cleanup_exact Sample.platform _ s s' out hreach hstep _ 0 hcm
  refine ⟨s, s', out, hreach, hstep, fun hm => ?_, (hexact _ 1).mpr ⟨hn, ?_⟩⟩
  · have hheard := ((hexact _ 0).mp hm).2
    rw [hlast, hexpiry] at hheard
    exact absurd hheard (by decide)
  · rw [hlast', hexpiry]
    decide

/-! ## Runs -/

/-- How often an event counts each record it removes. -/
def Event.weight : Event → ℕ
  | .cleanup _ => 2
  | _ => 1

/-- **Each record that a step removes is counted, and twice if the step is a cleanup.** -/
theorem step_account (v : s.registry.Valid hashCommunity) {ev : Event}
    (h : step P s ev = .ok (s', out)) :
    s'.stats.edgesUnregistered = s.stats.edgesUnregistered + ev.weight * removed s s' := by
  have hsame : s'.registry = s.registry → s'.stats = s.stats →
      s'.stats.edgesUnregistered = s.stats.edgesUnregistered + ev.weight * removed s s' := by
    intro hreg hstats
    rw [removed_eq_zero (held_congr hreg).symm.subset, Nat.mul_zero, hstats, Nat.add_zero]
  cases ev with
  | packet env packet addr =>
    rw [show Event.weight (.packet env packet addr) = 1 from rfl, Nat.one_mul]
    rcases processPacket_ok h with rfl | ⟨r, out1, err, -, hhandled, -⟩
    · have hnothing : removed s s.counted = 0 := removed_eq_zero (Finset.Subset.refl s.held)
      rw [hnothing]
      rfl
    · exact handled_account (s := s.counted) v hhandled
  | cleanup env =>
    obtain ⟨⟨s1, out1⟩, hloop, h⟩ := bind_eq_ok.mp h
    cases h
    have hknown : ∀ cm mac, (cm, mac) ∈ staleEdges env s → cm < s.registry.groups := by
      intro cm mac hmem
      obtain ⟨hash, hgroup⟩ := group_of_mem_staleEdges hmem
      exact v.group_lt hgroup
    have haccount := cleanupLoop_account hknown hloop
    exact haccount
  | connect connID conn =>
    cases h
    exact hsame rfl rfl
  | disconnect connID =>
    cases h
    exact hsame rfl rfl

/-- The records that the steps of a run have removed, one step after the other; `s` is the
state at its end. -/
def removals : List (Taken Supernode Event (List Sent)) → Supernode → ℕ
  | [], _ => 0
  | t :: hist, s => removals hist t.before + removed t.before s

/-- Those of them that a cleanup removed. -/
def staleRemovals : List (Taken Supernode Event (List Sent)) → Supernode → ℕ
  | [], _ => 0
  | t :: hist, s =>
    staleRemovals hist t.before + match t.event with
      | .cleanup _ => removed t.before s
      | _ => 0

/-- Over a run the counter is the number of records removed plus, once more, those that a
cleanup removed. -/
theorem edgesUnregistered_eq {hist : List (Taken Supernode Event (List Sent))}
    (h : Trace (step P) Initial (fun _ _ => True) hist s) :
    s.stats.edgesUnregistered = removals hist s + staleRemovals hist s := by
  induction h with
  | init h0 =>
    obtain ⟨config, netAllocator, pem, noCommunity, noEdge, noPool, rfl⟩ := h0
    rfl
  | @step hist s s' ev out hist' _ hstep ih =>
    have hvalid : s.registry.Valid hashCommunity := Reachable.valid hist'.reach
    rw [step_account hvalid hstep, ih, removals, staleRemovals]
    cases ev <;> simp only [Event.weight] <;> omega

theorem staleRemovals_eq_zero_iff {hist : List (Taken Supernode Event (List Sent))}
    (h : Trace (step P) Initial (fun _ _ => True) hist s) :
    staleRemovals hist s = 0 ↔
      ∀ t ∈ hist, ∀ env, t.event = .cleanup env → staleEdges env t.before = [] := by
  induction h with
  | init _ => simp [staleRemovals]
  | @step hist s s' ev out hist' _ hstep ih =>
    have hvalid : s.registry.Valid hashCommunity := Reachable.valid hist'.reach
    rw [staleRemovals, Nat.add_eq_zero_iff, ih, List.forall_mem_cons, and_comm]
    refine and_congr_left' ?_
    cases ev with
    | cleanup env =>
      refine (removed_cleanup_eq_zero_iff hvalid hstep).trans ⟨?_, fun hall => hall env rfl⟩
      rintro hnil env' heq
      cases heq
      exact hnil
    | _ => simp

/-- **The counter is the number of records removed exactly if no cleanup found a stale edge.**
GOLINE: supernode/cleanup.go:25-33, supernode/registration.go:101-143 -/
theorem edgesUnregistered_eq_removals_iff (P : Platform)
    (hist : List (Taken Supernode Event (List Sent))) (s : Supernode)
    (h : Trace (step P) Initial (fun _ _ => True) hist s) :
    s.stats.edgesUnregistered = removals hist s ↔
      ∀ t ∈ hist, ∀ env, t.event = .cleanup env → staleEdges env t.before = [] := by
  rw [edgesUnregistered_eq h, ← staleRemovals_eq_zero_iff h]
  omega

/-- Machine `m` registers and unregisters: one removal, counted once. -/
theorem edgesUnregistered_after_request :
    ∃ hist s, Trace (step Sample.platform) Initial (fun _ _ => True) hist s ∧
      removals hist s = 1 ∧ s.stats.edgesUnregistered = removals hist s := by
  obtain ⟨⟨s, out⟩, hstep, hs⟩ := exists_of_passes
    (x := step Sample.platform Sample.start (registers "c" "m" 1))
    (p := fun res => Passes (step Sample.platform res.1 (unregisters "c" "m" 1)) fun res' =>
      decide (removed Sample.start res.1 = 0 ∧ removed res.1 res'.1 = 1))
    (by decide +kernel)
  obtain ⟨⟨s', out'⟩, hstep', hs'⟩ := exists_of_passes hs
  obtain ⟨hfirst, hsecond⟩ := of_decide_eq_true hs'
  have htrace : Trace (step Sample.platform) Initial (fun _ _ => True)
      [⟨s, unregisters "c" "m" 1, out'⟩, ⟨Sample.start, registers "c" "m" 1, out⟩] s' :=
    .step (.step (.init ⟨_, _, _, _, _, _, rfl⟩) trivial hstep) trivial hstep'
  refine ⟨_, s', htrace, ?_,
    (edgesUnregistered_eq_removals_iff Sample.platform _ s' htrace).mpr fun t ht env heq => ?_⟩
  · show 0 + removed Sample.start s + removed s s' = 1
    rw [hfirst, hsecond]
  · rcases List.mem_pair.mp ht with rfl | rfl
    · cases heq
    · cases heq

/-- Machine `m` registers and falls silent: the cleanup removes one record and counts two. -/
theorem edgesUnregistered_after_cleanup :
    ∃ hist s, Trace (step Sample.platform) Initial (fun _ _ => True) hist s ∧
      removals hist s = 1 ∧ s.stats.edgesUnregistered = 2 := by
  obtain ⟨⟨s, out⟩, hstep, hs⟩ := exists_of_passes
    (x := step Sample.platform Sample.start (registers "c" "m" 1))
    (p := fun res => Passes (step Sample.platform res.1 lateCleanup) fun res' =>
      decide (removed Sample.start res.1 = 0 ∧ removed res.1 res'.1 = 1 ∧
        res'.1.stats.edgesUnregistered = 2))
    (by decide +kernel)
  obtain ⟨⟨s', out'⟩, hstep', hs'⟩ := exists_of_passes hs
  obtain ⟨hfirst, hsecond, hcount⟩ := of_decide_eq_true hs'
  refine ⟨[⟨s, lateCleanup, out'⟩, ⟨Sample.start, registers "c" "m" 1, out⟩], s',
    .step (.step (.init ⟨_, _, _, _, _, _, rfl⟩) trivial hstep) trivial hstep', ?_, hcount⟩
  show 0 + removed Sample.start s + removed s s' = 1
  rw [hfirst, hsecond]

end N2nGo.Supernode
