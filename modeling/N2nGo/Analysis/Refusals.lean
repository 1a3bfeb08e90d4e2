import N2nGo.Analysis.Sample

/-!
# Registrations that fail

A registration writes one table after the other: the communities, the members of its
community, the cache, and the two indexes. When it fails, nothing is written but, at
most, the community: it is entered before an address is requested for its first member,
and it stays without members when there is none (`refused_registration`).
-/

set_option autoImplicit false

namespace N2nGo.Supernode

open N2nGo.Lib N2nGo.Protocol N2nGo.Messages

section Refusals

variable {P : Platform} {env : Env} {s s' : Supernode} {r : RawMessage} {out : List Sent}

/-- `RegisterEdge` does not accept the request.
GOLINE: supernode/handlers.go:108-123 -/
def Refused (P : Platform) (env : Env) (s : Supernode) (r : RawMessage) : Prop :=
  ∀ reg s1 ref cm, toMessage P.codecs.registerRequest r = .ok reg →
    registerEdge P env s reg ≠ .ok (s1, .ok (ref, cm))

/-- The request is valid and the first one for its community, which gets a network and a
pool.
GOLINE: supernode/registration.go:14-52, 76-88 -/
def CreatesCommunity (P : Platform) (s : Supernode) (reg : Message RegisterRequest) : Prop :=
  (∃ id, validateEdgeClaimedMACAddr P reg.edgeMACAddr reg.msg.encryptedMachineId
    reg.msg.communityName = .ok id) ∧
  reg.communityHash = hashCommunity reg.msg.communityName ∧
  s.communities.lookup reg.communityHash = none ∧
  ∃ subnet, proposeVirtualNetwork P s.netAllocator reg.msg.communityName = .ok (some subnet) ∧
    (poolFor P s subnet.cidr).isSome

/-- Every community there was is as it was, and so are the indexes and the cache. -/
structure TablesKept (s s' : Supernode) : Prop where
  communities : ∀ hash cm, s.communities.lookup hash = some cm →
    s'.communities.lookup hash = some cm ∧ s'.cms.cell cm = s.cms.cell cm
  edges : s'.edges = s.edges
  edgesByMAC : s'.edgesByMAC = s.edgesByMAC
  edgesBySocket : s'.edgesBySocket = s.edgesBySocket
  edgeCachedInfos : s'.edgeCachedInfos = s.edgeCachedInfos

/-- No table and no record is written. -/
structure NothingWritten (s s' : Supernode) : Prop where
  communities : s'.communities = s.communities
  cms : s'.cms = s.cms
  edges : s'.edges = s.edges
  edgesByMAC : s'.edgesByMAC = s.edgesByMAC
  edgesBySocket : s'.edgesBySocket = s.edgesBySocket
  edgeCachedInfos : s'.edgeCachedInfos = s.edgeCachedInfos

theorem NothingWritten.refl (s : Supernode) : NothingWritten s s := ⟨rfl, rfl, rfl, rfl, rfl, rfl⟩

theorem NothingWritten.count (h : NothingWritten s s') (f : SupernodeStats → SupernodeStats) :
    NothingWritten s (s'.count f) :=
  ⟨h.communities, h.cms, h.edges, h.edgesByMAC, h.edgesBySocket, h.edgeCachedInfos⟩

theorem NothingWritten.tablesKept (h : NothingWritten s s') : TablesKept s s' where
  communities hash cm hcm := by
    rw [h.communities, h.cms]
    exact ⟨hcm, rfl⟩
  edges := h.edges
  edgesByMAC := h.edgesByMAC
  edgesBySocket := h.edgesBySocket
  edgeCachedInfos := h.edgeCachedInfos

variable {reg : Message RegisterRequest}

theorem nothingWritten_edgeUpdate {cm : CommunityRef} {e : Err}
    (h : edgeUpdate P env s cm reg = (s', .error e)) : NothingWritten s s' := by
  generalize hres : (Except.error e : Except Err EdgeRef) = res at h
  cases edgeUpdate_updated h with
  | noLease => exact ⟨rfl, rfl, rfl, rfl, rfl, rfl⟩
  | mismatch => exact .refl s
  | joined => cases hres
  | rejoined => cases hres

theorem nothingWritten_poolFor {cidr : Bytes} {ips : ℕ} (h : poolFor P s cidr = some (s', ips)) :
    NothingWritten s s' := by
  rcases poolFor_eq_some h with ⟨rfl, -⟩ | ⟨pool, -, -, -, rfl⟩
  · exact .refl s'
  · exact ⟨rfl, rfl, rfl, rfl, rfl, rfl⟩

/-- What a failed `RegisterEdge` leaves: what there was, with the community of the request
entered if it is created.
GOLINE: supernode/registration.go:76-98 -/
inductive RegistrationFailed (P : Platform) (s : Supernode) (reg : Message RegisterRequest)
    (s' : Supernode) : Prop where
  | unchanged : ¬ CreatesCommunity P s reg → NothingWritten s s' → RegistrationFailed P s reg s'
  | entered {subnet : Prefix} {s1 : Supernode} {ips : ℕ} : CreatesCommunity P s reg →
      poolFor P s subnet.cidr = some (s1, ips) →
      NothingWritten
        (s1.withCommunity reg.communityHash (newCommunity reg.msg.communityName subnet ips)) s' →
      RegistrationFailed P s reg s'

theorem CreatesCommunity.registerCommunity_eq (h : CreatesCommunity P s reg) :
    ∃ subnet s1 ips, poolFor P s subnet.cidr = some (s1, ips) ∧
      registerCommunity P s reg.msg.communityName reg.communityHash =
        .ok (s1.withCommunity reg.communityHash (newCommunity reg.msg.communityName subnet ips),
          .ok s1.cms.next) := by
  obtain ⟨-, hhash, hfree, subnet, hsubnet, hpool⟩ := h
  obtain ⟨⟨s1, ips⟩, hpool⟩ := Option.isSome_iff_exists.mp hpool
  refine ⟨subnet, s1, ips, hpool, ?_⟩
  unfold registerCommunity registerCommunityRead
  rw [if_neg (not_not.mpr hhash), hfree]
  simp only [registerCommunityCreate, hsubnet, ok_bind, newCommunityWithConfig, hpool]
  rfl

theorem registrationFailed {e : Err} (h : registerEdge P env s reg = .ok (s', .error e)) :
    RegistrationFailed P s reg s' := by
  by_cases hcreates : CreatesCommunity P s reg
  · -- the community is entered, so it is the request for an address that failed
    obtain ⟨subnet, s1, ips, hpool, hcommunity⟩ := hcreates.registerCommunity_eq
    obtain ⟨⟨id, hval⟩, -⟩ := id hcreates
    unfold registerEdge at h
    rw [hval] at h
    simp only [hcommunity, ok_bind] at h
    split at h
    · next hup =>
      cases h
      exact .entered hcreates hpool (nothingWritten_edgeUpdate hup)
    · cases h
  · refine .unchanged hcreates ?_
    generalize hres : (Except.error e : Except Err (EdgeRef × CommunityRef)) = res at h
    cases registerEdge_registered h with
    | invalid => exact .refl s
    | noCommunity hcommunity =>
      generalize hres' : (Except.error _ : Except Err CommunityRef) = res' at hcommunity
      cases registerCommunity_found hcommunity with
      | failed => exact .refl s
      | existing => cases hres'
      | created => cases hres'
    | noEdge hval hcommunity hup =>
      generalize hres' : (Except.ok _ : Except Err CommunityRef) = res' at hcommunity
      cases registerCommunity_found hcommunity with
      | failed => cases hres'
      | existing => exact nothingWritten_edgeUpdate hup
      | created hhash hfree hsubnet hpool =>
        exact absurd ⟨⟨_, hval⟩, hhash, hfree, _, hsubnet, by rw [hpool]; rfl⟩ hcreates
    | edge => cases hres

theorem RegistrationFailed.tablesKept (v : s.registry.Valid hashCommunity)
    (h : RegistrationFailed P s reg s') : TablesKept s s' := by
  cases h with
  | unchanged _ hsame => exact hsame.tablesKept
  | @entered subnet s1 ips hcreates hpool hsame =>
    have hs1 := nothingWritten_poolFor hpool
    refine ⟨fun hash cm hcm => ?_, hsame.edges.trans hs1.edges,
      hsame.edgesByMAC.trans hs1.edgesByMAC, hsame.edgesBySocket.trans hs1.edgesBySocket, hsame.edgeCachedInfos.trans hs1.edgeCachedInfos⟩
    have hne : hash ≠ reg.communityHash := by
      rintro rfl
      rw [hcreates.2.2.1] at hcm
      cases hcm
    have hold : cm ≠ s.cms.next := Nat.ne_of_lt (v.group_lt hcm)
    rw [hsame.communities, hsame.cms]
    simp only [withCommunity, hs1.communities, hs1.cms]
    rw [Table.lookup_insert_if, if_neg hne, Heap.cell_alloc, if_neg hold]
    exact ⟨hcm, rfl⟩

/-- Everything is as it was unless the request creates a community. -/
theorem RegistrationFailed.nothingWritten_iff (h : RegistrationFailed P s reg s') :
    NothingWritten s s' ↔ ¬ CreatesCommunity P s reg := by
  cases h with
  | unchanged hcreates hsame => exact iff_of_true hsame hcreates
  | @entered subnet s1 ips hcreates hpool hsame =>
    refine iff_of_false (fun hnothing => ?_) (not_not.mpr hcreates)
    have hlook : s'.communities.lookup reg.communityHash = some s1.cms.next := by
      rw [hsame.communities]
      exact (Table.lookup_insert_if ..).trans (if_pos rfl)
    rw [hnothing.communities, hcreates.2.2.1] at hlook
    cases hlook

/-- A community that was not there before is the one of the request, and has no members. -/
theorem RegistrationFailed.new_empty (h : RegistrationFailed P s reg s') {hash : UInt32}
    {cm : CommunityRef} (hbefore : s.communities.lookup hash = none)
    (hafter : s'.communities.lookup hash = some cm) :
    hash = reg.communityHash ∧ (s'.cms.cell cm).edges = ∅ := by
  cases h with
  | unchanged _ hsame =>
    rw [hsame.communities, hbefore] at hafter
    cases hafter
  | @entered subnet s1 ips hcreates hpool hsame =>
    rw [hsame.communities] at hafter
    simp only [withCommunity, (nothingWritten_poolFor hpool).communities,
      Table.lookup_insert_if] at hafter
    split at hafter
    · next hhash =>
      cases hafter
      rw [hsame.cms]
      refine ⟨hhash, ?_⟩
      simp only [withCommunity, Heap.cell_alloc, if_true]
      rfl
    · rw [hbefore] at hafter
      cases hafter

/-- **A registration that fails leaves at most its community behind.** Every table is as
before unless the request is the first valid one for its community. Then the communities
there were, their members, both indexes and the cache are as before, and the community of
the request is there without members.
GOLINE: supernode/handlers.go:108-123, supernode/registration.go:14-98 -/
theorem refused_registration (P : Platform) (env : Env) (s s' : Supernode) (r : RawMessage)
    (out : List Sent) (err : Except Err Unit) (hs : Reachable P s) (hrefused : Refused P env s r)
    (h : handleRegisterMessage P env s r = .ok (s', out, err)) :
    (∃ e, err = .error e) ∧
      (NothingWritten s s' ↔
        ¬ ∃ reg, toMessage P.codecs.registerRequest r = .ok reg ∧ CreatesCommunity P s reg) ∧
      TablesKept s s' ∧
      ∀ hash cm, s.communities.lookup hash = none → s'.communities.lookup hash = some cm →
        hash = r.communityHash ∧ (s'.cms.cell cm).edges = ∅ := by
  cases hmsg : toMessage P.codecs.registerRequest r with
  | error e =>
    rw [handleRegisterMessage, withMessage, hmsg] at h
    cases h
    refine ⟨⟨_, rfl⟩, iff_of_true (.refl s) (by simp), (NothingWritten.refl s).tablesKept,
      fun hash cm hbefore hafter => ?_⟩
    rw [hbefore] at hafter
    cases hafter
  | ok reg =>
    rw [handleRegisterMessage, withMessage, hmsg] at h
    obtain ⟨⟨s1, e | ⟨ref, cm⟩⟩, hreg, hanswer⟩ := bind_eq_ok.mp h
    · obtain ⟨f, out1, err1, hanswer', -⟩ := answerRegister_error P env r reg.msg.communityName s1 e
      rw [hanswer'] at hanswer
      cases hanswer
      have hfailed := registrationFailed hreg
      have hkept := hfailed.tablesKept hs.valid
      refine ⟨⟨e, rfl⟩, ?_, ⟨hkept.communities, hkept.edges, hkept.edgesByMAC, hkept.edgesBySocket,
        hkept.edgeCachedInfos⟩, fun hash cm hbefore hafter => ?_⟩
      · simp only [Except.ok.injEq, exists_eq_left']
        rw [← hfailed.nothingWritten_iff]
        exact ⟨fun h => ⟨h.communities, h.cms, h.edges, h.edgesByMAC, h.edgesBySocket,
          h.edgeCachedInfos⟩, fun h => h.count f⟩
      · rw [← toMessage_ok hmsg]
        exact hfailed.new_empty hbefore hafter
    · exact absurd hreg (hrefused reg s1 ref cm hmsg)

end Refusals

/-! ## A pool without addresses -/

/-- The supernode of the examples with nothing to lease. -/
def exhausted : Platform := { Sample.platform with requestIP := fun pool _ _ _ => (none, pool) }

/-- Machine `m` asks to be registered in `c`. -/
def askingForC : RawMessage :=
  Sample.requestMessage typeRegisterRequest (ascii "c") (ascii "m") (Sample.client 1)

/-- The request as it is decoded. -/
def decodedForC : Message RegisterRequest :=
  { askingForC with msg := ⟨[], [], ascii "c", ascii "m", []⟩ }

theorem toMessage_askingForC : toMessage exhausted.codecs.registerRequest askingForC = .ok decodedForC :=
  toMessage_of_decode rfl rfl

theorem refused_exhausted {s : Supernode}
    (h : Passes (registerEdge exhausted Sample.env s decodedForC) fun res =>
      res.2.toOption.isNone) : Refused exhausted Sample.env s askingForC := by
  intro reg s1 ref cm hmsg hreg
  rw [toMessage_askingForC] at hmsg
  cases hmsg
  rw [hreg] at h
  cases h

/-- The first request for `c` is refused, and `c` is there afterwards. -/
theorem refused_registration_enters_community :
    ∃ s' out e, Reachable exhausted Sample.start ∧
      Refused exhausted Sample.env Sample.start askingForC ∧
      handleRegisterMessage exhausted Sample.env Sample.start askingForC = .ok (s', out, .error e) ∧
      Sample.start.communities.lookup (hashCommunity (ascii "c")) = none ∧
      s'.communities.lookup (hashCommunity (ascii "c")) = some 0 := by
  obtain ⟨⟨s', out, err⟩, h, hs⟩ := exists_of_passes
    (x := handleRegisterMessage exhausted Sample.env Sample.start askingForC)
    (p := fun res => res.2.2.toOption.isNone &&
      decide (res.1.communities.lookup (hashCommunity (ascii "c")) = some 0)) (by decide +kernel)
  obtain ⟨herr, hlook⟩ := Bool.and_eq_true_iff.mp hs
  cases err with
  | ok => cases herr
  | error e =>
    exact ⟨s', out, e, .init ⟨_, _, _, _, _, _, rfl⟩, refused_exhausted (by decide +kernel), h, rfl,
      of_decide_eq_true hlook⟩

/-- The second request finds the community and is refused without a trace. -/
theorem refused_registration_again :
    ∃ s s' out e, Reachable exhausted s ∧
      handleRegisterMessage exhausted Sample.env s askingForC = .ok (s', out, .error e) ∧
      s.communities.lookup (hashCommunity (ascii "c")) = some 0 ∧ NothingWritten s s' := by
  obtain ⟨⟨s, out0⟩, hstep, hs⟩ := exists_of_passes
    (x := step exhausted Sample.start (.packet Sample.env
      (Sample.request typeRegisterRequest (ascii "c") (ascii "m")) (Sample.client 1)))
    (p := fun res => decide (res.1.communities.lookup (hashCommunity (ascii "c")) = some 0) &&
      Passes (registerEdge exhausted Sample.env res.1 decodedForC) (fun res => res.2.toOption.isNone) &&
      Passes (handleRegisterMessage exhausted Sample.env res.1 askingForC) fun _ => true)
    (by decide +kernel)
  obtain ⟨hs, hhandle⟩ := Bool.and_eq_true_iff.mp hs
  obtain ⟨hlook, hrefused⟩ := Bool.and_eq_true_iff.mp hs
  have hlook : s.communities.lookup (hashCommunity (ascii "c")) = some 0 := of_decide_eq_true hlook
  obtain ⟨⟨s', out, err⟩, h, -⟩ := exists_of_passes hhandle
  have hreach : Reachable exhausted s :=
    Reach.step (.init ⟨_, _, _, _, _, _, rfl⟩) trivial hstep
  obtain ⟨⟨e, rfl⟩, hiff, -⟩ := refused_registration exhausted Sample.env s s' askingForC out err
    hreach (refused_exhausted hrefused) h
  refine ⟨s, s', out, e, hreach, h, hlook, hiff.mpr ?_⟩
  rintro ⟨reg, hmsg, -, -, hfree, -⟩
  rw [toMessage_askingForC] at hmsg
  cases hmsg
  exact absurd (hfree.symm.trans hlook) (by simp)

end N2nGo.Supernode
