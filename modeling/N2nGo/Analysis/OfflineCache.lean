import N2nGo.Analysis.Leases
import N2nGo.Analysis.P2PInfos
import N2nGo.Analysis.Roaming

/-!
# The cache of former members

`edgeCachedInfos` has one entry for each MAC, which the communities share: a first
registration and a removal overwrite it, whatever the community. `GetOfflineCachedEdges`
reads the former members of one community off it by the name and the flag of the entries.
A step does one of three things to a MAC (`CacheMove`), and from this follows which MACs
are listed after any run: those whose last change of membership was their removal from
the community (`offline_iff_removedLast`).
-/

set_option autoImplicit false

namespace N2nGo.Supernode

open N2nGo.Lib N2nGo.Protocol N2nGo.Messages

/-! ## Joining and leaving -/

/-- The step makes the MAC a member of the community with this hash. -/
def Joins (P : Platform) (hash : UInt32) (mac : Bytes) (t : SNTaken) : Prop :=
  ¬ t.before.MemberOf hash mac ∧
    ∃ s', step P t.before t.event = .ok (s', t.output) ∧ s'.MemberOf hash mac

/-- The step removes the MAC from the community with this hash. -/
def Leaves (P : Platform) (hash : UInt32) (mac : Bytes) (t : SNTaken) : Prop :=
  t.before.MemberOf hash mac ∧
    ∃ s', step P t.before t.event = .ok (s', t.output) ∧ ¬ s'.MemberOf hash mac

/-- The MAC was removed from the community with this hash, and has neither been newly
registered in nor removed from any community since. -/
def RemovedLast (P : Platform) (hash : UInt32) (mac : Bytes) (hist : List SNTaken) : Prop :=
  Since (fun t => ∀ hash', ¬ Joins P hash' mac t ∧ ¬ Leaves P hash' mac t) (Leaves P hash mac) hist

/-! ## What a step does to one MAC -/

/-- The community and the flag that are cached for a MAC. -/
def cachedAs (s : Supernode) (mac : Bytes) : Option (Bytes × Bool) :=
  (s.edgeCachedInfos.lookup mac).map fun info => (info.community, info.isRegistered)

/-- Neither the cache nor a list of members changes for the MAC. -/
structure SameFor (s s' : Supernode) (mac : Bytes) : Prop where
  cached : s'.cachedAs mac = s.cachedAs mac
  member : ∀ hash, s'.MemberOf hash mac ↔ s.MemberOf hash mac

inductive CacheMove (s s' : Supernode) (mac : Bytes) : Prop where
  | same : SameFor s s' mac → CacheMove s s' mac
  /-- newly registered, and a member wherever it was one -/
  | joined {hash : UInt32} {name : Bytes} :
      s'.cachedAs mac = some (name, true) → s'.registry.Named hashCommunity name →
      ¬ s.MemberOf hash mac → s'.MemberOf hash mac →
      (∀ hash', s.MemberOf hash' mac → s'.MemberOf hash' mac) → CacheMove s s' mac
  /-- removed from one community -/
  | left {name : Bytes} :
      s'.cachedAs mac = some (name, false) → s'.registry.Named hashCommunity name →
      s.MemberOf (hashCommunity name) mac →
      (∀ hash', s'.MemberOf hash' mac ↔ s.MemberOf hash' mac ∧ hash' ≠ hashCommunity name) →
      CacheMove s s' mac

section Moves

variable {P : Platform} {env : Env} {s s1 s' : Supernode} {cm : CommunityRef} {mac mac' : Bytes}
  {out : List Sent}

theorem memberOf_iff_holds {hash : UInt32} : s.MemberOf hash mac ↔ s.registry.Holds hash mac := by
  constructor
  · rintro ⟨cm, hcm, hmem⟩
    obtain ⟨ref, href⟩ := Table.exists_lookup_of_mem hmem
    exact ⟨cm, ref, hcm, href⟩
  · rintro ⟨cm, ref, hcm, href⟩
    exact ⟨cm, hcm, Table.mem_of_lookup href⟩

theorem SameFor.of_eq (hcached : s'.edgeCachedInfos = s.edgeCachedInfos)
    (hgroup : s'.registry.group = s.registry.group)
    (hmember : s'.registry.member = s.registry.member) : SameFor s s' mac := by
  refine ⟨by unfold cachedAs; rw [hcached], fun hash => ?_⟩
  rw [memberOf_iff_holds, memberOf_iff_holds]
  unfold Registry.Holds
  rw [hgroup, hmember]

theorem SameFor.refl (s : Supernode) (mac : Bytes) : SameFor s s mac := ⟨rfl, fun _ => Iff.rfl⟩

theorem SameFor.trans (h : SameFor s s1 mac) (h' : SameFor s1 s' mac) : SameFor s s' mac :=
  ⟨h'.cached.trans h.cached, fun hash => (h'.member hash).trans (h.member hash)⟩

theorem SameFor.move (h : SameFor s s1 mac) (hmove : CacheMove s1 s' mac) : CacheMove s s' mac := by
  cases hmove with
  | same h' => exact .same (h.trans h')
  | joined hcached hnamed hnot hmember hkept =>
    exact .joined hcached hnamed (fun hold => hnot ((h.member _).mpr hold)) hmember
      fun hash' hold => hkept hash' ((h.member hash').mpr hold)
  | left hcached hnamed hmember hothers =>
    refine .left hcached hnamed ((h.member _).mp hmember) fun hash' => ?_
    rw [hothers, h.member]

theorem CacheMove.same_after (hmove : CacheMove s s1 mac) (h : SameFor s1 s' mac)
    (hnames : ∀ name, s1.registry.Named hashCommunity name → s'.registry.Named hashCommunity name) :
    CacheMove s s' mac := by
  cases hmove with
  | same h' => exact .same (h'.trans h)
  | joined hcached hnamed hnot hmember hkept =>
    exact .joined (h.cached.trans hcached) (hnames _ hnamed) hnot ((h.member _).mpr hmember)
      fun hash' hold => (h.member hash').mpr (hkept hash' hold)
  | left hcached hnamed hmember hothers =>
    refine .left (h.cached.trans hcached) (hnames _ hnamed) hmember fun hash' => ?_
    rw [h.member, hothers]

theorem SameFor.count (s : Supernode) (f : SupernodeStats → SupernodeStats) (mac : Bytes) :
    SameFor s (s.count f) mac := .of_eq rfl rfl rfl

theorem CacheMove.count (hmove : CacheMove s s1 mac) (f : SupernodeStats → SupernodeStats) :
    CacheMove s (s1.count f) mac :=
  hmove.same_after (.count s1 f mac) fun _ hnamed => hnamed

theorem cachedAs_insert {info : EdgeCachedInfos}
    (h : s'.edgeCachedInfos = s.edgeCachedInfos.insert mac info) :
    s'.cachedAs mac' =
      if mac' = mac then some (info.community, info.isRegistered) else s.cachedAs mac' := by
  unfold cachedAs
  rw [h, Table.lookup_insert_if]
  split <;> rfl

section

variable (v : s.registry.Valid hashCommunity)
include v

theorem cacheMove_removed {hash : UInt32} (hcm : s.registry.group hash = some cm)
    {pil : PeerInfoList} (hun : unregister env s cm mac = (s1, true))
    (hunindex : s1.unindexEdge mac = .ok (s', pil)) :
    CacheMove s s' mac ∧ ∀ mac', mac' ≠ mac → SameFor s s' mac' := by
  obtain ⟨⟨ref, hmember⟩, hindexed, hleave⟩ := registry_removed hun hunindex
  have hen : s.registry.Enabled hashCommunity (.leave cm mac) := ⟨⟨ref, ⟨hash, hcm⟩, hmember⟩, hindexed⟩
  have hhash : hashCommunity (s.cms.cell cm).name = hash := v.group_hash hcm
  have hcached : ∃ info, s'.edgeCachedInfos = s.edgeCachedInfos.insert mac info ∧
      info.community = (s.cms.cell cm).name ∧ info.isRegistered = false := by
    obtain ⟨s2, hremove, rfl⟩ := unregister_eq_true hun
    obtain ⟨-, info, hinsert, -, hcommunity, hflag⟩ := removeEdge_eq_some hremove
    obtain ⟨⟨ref', href'⟩, -⟩ := unindexEdge_ok hunindex
    rw [unindexEdge_eq href'] at hunindex
    cases hunindex
    exact ⟨info, hinsert, hcommunity, hflag⟩
  have hholds : ∀ hash' mac', s'.MemberOf hash' mac' ↔
      s.MemberOf hash' mac' ∧ ¬ (hash' = hash ∧ mac' = mac) := by
    intro hash' mac'
    rw [memberOf_iff_holds, memberOf_iff_holds, hleave]
    exact Registry.holds_leave v hcm
  obtain ⟨info, hinsert, hcommunity, hflag⟩ := hcached
  constructor
  · refine @CacheMove.left _ _ _ (s.cms.cell cm).name ?_ ?_ ?_ fun hash' => ?_
    · rw [cachedAs_insert hinsert, if_pos rfl, hcommunity, hflag]
    · rw [hleave]
      have hnamed : s.registry.Named hashCommunity (s.cms.cell cm).name :=
        ⟨cm, by rw [hhash]; exact hcm, rfl⟩
      exact hnamed.apply v hen
    · rw [hhash]
      exact ⟨cm, hcm, Table.mem_of_lookup hmember⟩
    · rw [hholds, hhash]
      simp
  · intro mac' hne
    refine ⟨?_, fun hash' => ?_⟩
    · rw [cachedAs_insert hinsert, if_neg hne]
    · rw [hholds]
      simp [hne]

theorem sameFor_registerCommunity {name : Bytes} {hash : UInt32} {res : Except Err CommunityRef}
    (h : registerCommunity P s name hash = .ok (s', res)) : SameFor s s' mac := by
  have hcached : s'.edgeCachedInfos = s.edgeCachedInfos := by
    cases registerCommunity_found h with
    | failed e => rfl
    | existing _ _ _ => rfl
    | created _ _ _ hpool =>
      rcases poolFor_eq_some hpool with ⟨rfl, -⟩ | ⟨pool, -, -, -, rfl⟩ <;> rfl
  refine ⟨by unfold cachedAs; rw [hcached], fun hash' => ?_⟩
  rw [memberOf_iff_holds, memberOf_iff_holds]
  rcases registerCommunity_ok h with ⟨-, hsame⟩ | ⟨cm, -, -, ⟨rfl, -⟩ | ⟨hfree, -, hcreate⟩⟩
  · rw [hsame]
  · rfl
  · rw [hcreate]
    exact Registry.holds_create v hfree

theorem cacheMove_edgeUpdate {hash : UInt32} (hcm : s.registry.group hash = some cm)
    {regMsg : Message RegisterRequest} {res : Except Err EdgeRef}
    (h : edgeUpdate P env s cm regMsg = (s', res)) : CacheMove s s' mac := by
  cases edgeUpdate_updated h with
  | noLease e _ _ => exact .same (.of_eq rfl rfl rfl)
  | mismatch e => exact .same (.refl s mac)
  | rejoined _ => exact .same (.of_eq rfl rfl rfl)
  | @joined nvip vip hlook _ _ =>
    let edge := newEdge env (s.cms.cell cm) regMsg vip
    have hhash : hashCommunity (s.cms.cell cm).name = hash := v.group_hash hcm
    have hreg : ((s.withLease P env cm regMsg.edgeMACAddr).withMember env cm edge).registry =
        s.registry.enroll cm edge := registry_enroll s cm edge
    generalize hs' : (s.withLease P env cm regMsg.edgeMACAddr).withMember env cm edge = s' at hreg
    have hinsert : s'.edgeCachedInfos = s.edgeCachedInfos.insert edge.macAddr
        ⟨edge.macAddr, edge.desc, (s.cms.cell cm).name, true, env.now, edge.virtualIP⟩ := by
      rw [← hs']
      rfl
    have hholds : ∀ hash', s'.MemberOf hash' mac ↔
        s.MemberOf hash' mac ∨ hash' = hash ∧ mac = edge.macAddr := by
      intro hash'
      rw [memberOf_iff_holds, memberOf_iff_holds, hreg]
      exact Registry.holds_enroll v hcm
    by_cases hmac : mac = edge.macAddr
    · refine @CacheMove.joined _ _ _ hash (s.cms.cell cm).name ?_ ?_ ?_ ?_ ?_
      · rw [cachedAs_insert hinsert, if_pos hmac]
      · rw [hreg]
        exact ⟨cm, by rw [hhash]; exact hcm, rfl⟩
      · rintro ⟨cm', hcm', hmem⟩
        cases hcm.symm.trans hcm'
        obtain ⟨ref, href⟩ := Table.exists_lookup_of_mem hmem
        have hmacs : mac = regMsg.edgeMACAddr := hmac
        rw [hmacs, hlook] at href
        cases href
      · exact (hholds hash).mpr (Or.inr ⟨rfl, hmac⟩)
      · exact fun hash' hold => (hholds hash').mpr (Or.inl hold)
    · refine .same ⟨?_, fun hash' => ?_⟩
      · rw [cachedAs_insert hinsert, if_neg hmac]
      · rw [hholds]
        simp [hmac]

theorem cacheMove_registerEdge {reg : Message RegisterRequest}
    {res : Except Err (EdgeRef × CommunityRef)} (h : registerEdge P env s reg = .ok (s', res)) :
    CacheMove s s' mac := by
  cases registerEdge_registered h with
  | invalid e => exact .same (.refl s mac)
  | noCommunity hcommunity => exact .same (sameFor_registerCommunity v hcommunity)
  | noEdge _ hcommunity hup =>
    obtain ⟨v1, hcm⟩ := known_registerCommunity v hcommunity
    exact (sameFor_registerCommunity v hcommunity).move (cacheMove_edgeUpdate v1 hcm hup)
  | edge f _ hcommunity hup =>
    obtain ⟨v1, hcm⟩ := known_registerCommunity v hcommunity
    exact ((sameFor_registerCommunity v hcommunity).move (cacheMove_edgeUpdate v1 hcm hup)).count f

theorem cacheMove_handled {r : RawMessage} {err : Except Err Unit}
    (h : Handled P env s r s' out err) : CacheMove s s' mac := by
  cases h with
  | idle hidle _ =>
    have hcached : s'.edgeCachedInfos = s.edgeCachedInfos := by cases hidle <;> rfl
    exact .same (.of_eq hcached (by rw [hidle.registry_eq]) (by rw [hidle.registry_eq]))
  | refused f _ hreg _ => exact (cacheMove_registerEdge v hreg).count f
  | @registered reg s1 s2 ref cm out1 err1 err2 f _ hreg hs2 _ =>
    have hcached : s2.edgeCachedInfos = s1.edgeCachedInfos := by
      rw [hs2]
      cases r.fromAddr <;> rfl
    have hregistry : s2.registry = (s1.registry.write ref
        (withConn r.fromAddr (s1.edges.cell ref))).index ref := by
      rw [hs2, registry_indexEdge, registry_setWSSConnID]
    refine (cacheMove_registerEdge v hreg).same_after (.of_eq hcached ?_ ?_) fun name hnamed => ?_
    · rw [registry_count, hregistry]
      rfl
    · rw [registry_count, hregistry]
      rfl
    · rw [registry_count, hregistry]
      exact hnamed
  | refreshed f _ _ _ _ => exact .same (.of_eq rfl rfl rfl)
  | removed f _ _ hgroup hun hunindex =>
    obtain ⟨hmove, hothers⟩ := cacheMove_removed v hgroup hun hunindex
    by_cases hmac : mac = r.edgeMACAddr
    · subst hmac
      exact hmove.count f
    · exact .same ((hothers mac hmac).trans (.count _ f mac))

/-- A cleanup that completes removes a MAC from one community at most: a second removal
would not find it in `edgesByMAC`. -/
theorem cacheMove_cleanup (h : cleanupStaleEdges P env s = .ok (s', out)) : CacheMove s s' mac := by
  obtain ⟨⟨s1, out1⟩, hloop, h⟩ := bind_eq_ok.mp h
  cases h
  obtain ⟨-, -, hmoved⟩ := cleanupLoop_induction
    (I := fun s1 _ => s1.registry.Valid hashCommunity ∧ s1.registry.group = s.registry.group ∧
      (SameFor s s1 mac ∨ CacheMove s s1 mac ∧ s1.registry.byKey mac = none))
    (fun s1 s2 s3 _ cm mac' _ f hmem hI hun hunindex => by
      obtain ⟨v1, hgroup, hI⟩ := hI
      obtain ⟨hash, hcm⟩ := group_of_mem_staleEdges hmem
      rw [← hgroup] at hcm
      obtain ⟨⟨ref, hmember⟩, hindexed, hleave⟩ := registry_removed hun hunindex
      have hen : s1.registry.Enabled hashCommunity (.leave cm mac') :=
        ⟨⟨ref, ⟨hash, hcm⟩, hmember⟩, hindexed⟩
      obtain ⟨hmove, hothers⟩ := cacheMove_removed v1 hcm hun hunindex
      have hbyKey : s3.registry.byKey mac = if mac = mac' then none else s1.registry.byKey mac := by
        rw [hleave]
        exact Registry.byKey_unindex (m := s1.registry.expel cm mac')
      refine ⟨?_, ?_, ?_⟩
      · rw [registry_count, hleave]
        exact v1.apply hen
      · rw [registry_count, hleave]
        exact (Registry.group_unindex (m := s1.registry.expel cm mac')).trans hgroup
      · by_cases hmac : mac = mac'
        · subst hmac
          rcases hI with hsame | ⟨-, hnone⟩
          · rw [if_pos rfl] at hbyKey
            exact Or.inr ⟨(hsame.move hmove).count f, hbyKey⟩
          · obtain ⟨ref', href'⟩ := hindexed
            rw [hnone] at href'
            cases href'
        · rw [if_neg hmac] at hbyKey
          have hsame' := (hothers mac hmac).trans (.count s3 f mac)
          rcases hI with hsame | ⟨hold, hnone⟩
          · exact Or.inl (hsame.trans hsame')
          · refine Or.inr ⟨hold.same_after hsame' fun name hnamed => ?_, hbyKey.trans hnone⟩
            rw [registry_count, hleave]
            exact hnamed.apply v1 hen)
    hloop ⟨v, rfl, Or.inl (.refl s mac)⟩
  rcases hmoved with hsame | ⟨hmove, -⟩
  · exact .same (hsame.trans (.count s1 _ mac))
  · exact hmove.count _

/-- **One step does one of three things to a MAC.** -/
theorem cacheMove_step {ev : Event} (h : step P s ev = .ok (s', out)) : CacheMove s s' mac := by
  cases ev with
  | packet env packet addr =>
    rcases processPacket_ok h with rfl | ⟨r, out1, err, -, hhandled, -⟩
    · exact .same (.count s _ mac)
    · exact (SameFor.count s _ mac).move (cacheMove_handled v hhandled)
  | cleanup env => exact cacheMove_cleanup v h
  | connect connID conn =>
    cases h
    exact .same (.of_eq rfl rfl rfl)
  | disconnect connID =>
    cases h
    exact .same (.of_eq rfl rfl rfl)

end

end Moves

/-! ## Whole runs -/

section Runs

variable {P : Platform} {s s' : Supernode} {ev : Event} {out : List Sent} {hash : UInt32}
  {mac : Bytes} {hist : List SNTaken}

theorem joins_iff (h : step P s ev = .ok (s', out)) :
    Joins P hash mac ⟨s, ev, out⟩ ↔ ¬ s.MemberOf hash mac ∧ s'.MemberOf hash mac := by
  refine and_congr_right fun _ => ⟨?_, fun hmember => ⟨s', h, hmember⟩⟩
  rintro ⟨s1, h1, hmember⟩
  cases h.symm.trans h1
  exact hmember

theorem leaves_iff (h : step P s ev = .ok (s', out)) :
    Leaves P hash mac ⟨s, ev, out⟩ ↔ s.MemberOf hash mac ∧ ¬ s'.MemberOf hash mac := by
  refine and_congr_right fun _ => ⟨?_, fun hmember => ⟨s', h, hmember⟩⟩
  rintro ⟨s1, h1, hmember⟩
  cases h.symm.trans h1
  exact hmember

/-- The MAC is cached as a former member of the community with this hash. -/
def CachedOffline (s : Supernode) (hash : UInt32) (mac : Bytes) : Prop :=
  ∃ name, s.cachedAs mac = some (name, false) ∧ hashCommunity name = hash

/-- The cache of a MAC follows the history: its entry names a known community, and says
offline where the MAC was removed last. -/
structure Remembered (P : Platform) (mac : Bytes) (hist : List SNTaken) (s : Supernode) : Prop where
  valid : s.registry.Valid hashCommunity
  named : ∀ name flag, s.cachedAs mac = some (name, flag) → s.registry.Named hashCommunity name
  offline : ∀ hash, s.CachedOffline hash mac ↔ RemovedLast P hash mac hist

theorem Remembered.step (h : Remembered P mac hist s) (hstep : step P s ev = .ok (s', out)) :
    Remembered P mac (⟨s, ev, out⟩ :: hist) s' := by
  obtain ⟨ops, hrun, -⟩ := step_registry h.valid hstep
  have hmove : CacheMove s s' mac := cacheMove_step h.valid hstep
  refine ⟨h.valid.run hrun, ?_, ?_⟩
  · intro name flag hcached
    cases hmove with
    | same hsame =>
      rw [hsame.cached] at hcached
      exact (h.named name flag hcached).run h.valid hrun
    | joined hnew hnamed _ _ _ =>
      rw [hnew] at hcached
      cases hcached
      exact hnamed
    | left hnew hnamed _ _ =>
      rw [hnew] at hcached
      cases hcached
      exact hnamed
  · intro hash
    unfold RemovedLast
    rw [since_cons]
    cases hmove with
    | same hsame =>
      -- nobody joins or leaves, and the entry stays
      have hquiet : ∀ hash', ¬ Joins P hash' mac ⟨s, ev, out⟩ ∧ ¬ Leaves P hash' mac ⟨s, ev, out⟩ := by
        intro hash'
        rw [joins_iff hstep, leaves_iff hstep, hsame.member]
        exact ⟨fun hj => hj.1 hj.2, fun hl => hl.2 hl.1⟩
      unfold CachedOffline
      rw [hsame.cached]
      exact (h.offline hash).trans ⟨fun hlast => Or.inr ⟨hquiet, hlast⟩, fun hlast =>
        (hlast.resolve_left (hquiet hash).2).2⟩
    | @joined hash0 name hnew _ hnot hmember hkept =>
      refine iff_of_false ?_ ?_
      · rintro ⟨name', hcached, -⟩
        rw [hnew] at hcached
        cases hcached
      · rintro (hleaves | ⟨hquiet, -⟩)
        · obtain ⟨hold, hgone⟩ := (leaves_iff hstep).mp hleaves
          exact hgone (hkept hash hold)
        · exact (hquiet hash0).1 ((joins_iff hstep).mpr ⟨hnot, hmember⟩)
    | @left name hnew _ hmember hothers =>
      have hleft : Leaves P (hashCommunity name) mac ⟨s, ev, out⟩ :=
        (leaves_iff hstep).mpr ⟨hmember, fun hstill => ((hothers _).mp hstill).2 rfl⟩
      constructor
      · rintro ⟨name', hcached, rfl⟩
        rw [hnew] at hcached
        cases hcached
        exact Or.inl hleft
      · rintro (hleaves | ⟨hquiet, -⟩)
        · obtain ⟨hold, hgone⟩ := (leaves_iff hstep).mp hleaves
          refine ⟨name, hnew, ?_⟩
          by_contra hne
          exact hgone ((hothers hash).mpr ⟨hold, Ne.symm hne⟩)
        · exact absurd hleft (hquiet _).2

theorem remembered_of_trace (h : Trace (step P) Initial (fun _ _ => True) hist s) :
    Remembered P mac hist s := by
  refine Trace.invariant (I := Remembered P mac) (fun s h0 => ?_)
    (fun hist s ev s' out hI _ hstep => hI.step hstep) h
  refine ⟨valid_initial h0, ?_, fun hash => iff_of_false ?_ not_since_nil⟩ <;>
    obtain ⟨config, netAllocator, pem, noCommunity, noEdge, noPool, rfl⟩ := h0
  · rintro name flag hcached
    cases hcached
  · rintro ⟨name, hcached, -⟩
    cases hcached

theorem Remembered.offlineIn_iff (h : Remembered P mac hist s) {cm : CommunityRef}
    (hcm : s.communities.lookup hash = some cm) :
    OfflineIn s cm mac ↔ s.CachedOffline hash mac := by
  have hhash : hashCommunity (s.cms.cell cm).name = hash := h.valid.group_hash hcm
  constructor
  · rintro ⟨info, hlook, hcommunity, hflag⟩
    refine ⟨(s.cms.cell cm).name, ?_, hhash⟩
    unfold cachedAs
    rw [hlook, ← hcommunity, ← hflag]
    rfl
  · rintro ⟨name, hcached, hname⟩
    obtain ⟨cm', hcm', hsame⟩ := h.named name false hcached
    rw [hname] at hcm'
    cases hcm.symm.trans hcm'
    obtain ⟨info, hlook, hinfo⟩ := Option.map_eq_some_iff.mp hcached
    obtain ⟨hcommunity, hflag⟩ := Prod.mk.inj hinfo
    exact ⟨info, hlook, hcommunity.trans hsame.symm, hflag⟩

/-- **`GetOfflineCachedEdges` after any run**: it lists no member of the community, and it
lists exactly the MACs that were removed from it and have neither been newly registered in
nor removed from any community since.
GOLINE: supernode/registration.go:165-186 -/
theorem offline_iff_removedLast (h : Trace (step P) Initial (fun _ _ => True) hist s)
    {cm : CommunityRef} (hcm : s.communities.lookup hash = some cm) (env : Env) (mac : Bytes) :
    (mac ∈ (s.cms.cell cm).edges → mac ∉ getOfflineCachedEdges env s cm) ∧
      (mac ∈ getOfflineCachedEdges env s cm ↔ RemovedLast P hash mac hist) := by
  have hagree := infosAgree_of_reachable h.reach
  have hremembered : Remembered P mac hist s := remembered_of_trace h
  rw [mem_getOfflineCachedEdges hagree.cached]
  refine ⟨(hagree.known hash cm hcm).online mac, ?_⟩
  rw [hremembered.offlineIn_iff hcm, hremembered.offline]

end Runs

/-- Machine `m` registers in `c` and unregisters. It is listed as a former member, for it was
removed last. -/
theorem offline_after_unregistration :
    ∃ hist s, Trace (step Sample.platform) Initial (fun _ _ => True) hist s ∧
      s.communities.lookup (hashCommunity (ascii "c")) = some 0 ∧
      macText "c" "m" ∈ getOfflineCachedEdges Sample.env s 0 ∧
      RemovedLast Sample.platform (hashCommunity (ascii "c")) (macText "c" "m") hist := by
  obtain ⟨⟨hist, s⟩, hrun, hs⟩ := (Option.any_eq_true _ _).mp
    (show Option.any (fun res : List SNTaken × Supernode => decide (
        res.2.communities.lookup (hashCommunity (ascii "c")) = some 0 ∧
        macText "c" "m" ∈ getOfflineCachedEdges Sample.env res.2 0))
      (traceAllowed (step Sample.platform) (fun _ _ => true) [] Sample.start
        [registers "c" "m" 1, unregisters "c" "m" 1]) = true by decide +kernel)
  obtain ⟨hcm, hlisted⟩ := of_decide_eq_true hs
  have htrace : Trace (step Sample.platform) Initial (fun _ _ => True) hist s :=
    .of_traceAllowed (fun _ _ _ => trivial) (.init ⟨_, _, _, _, _, _, rfl⟩) hrun
  exact ⟨hist, s, htrace, hcm, hlisted,
    (offline_iff_removedLast htrace hcm Sample.env (macText "c" "m")).2.mp hlisted⟩

end N2nGo.Supernode
