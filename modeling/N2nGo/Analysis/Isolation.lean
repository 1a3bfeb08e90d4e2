import N2nGo.Analysis.Agreement

/-!
# Isolation of communities on the fast path

`handleVFuze` trusts a packet when `edgesBySocket` knows its source address. The entries
of that table are written when an edge registers; only the UDP address of the record
that `edgesByMAC` holds is removed when an edge leaves, and a change of address removes
nothing. An address is therefore trusted for too long unless every event is clean in the
sense of `LeavesNoSocket`: then each entry of the table leads to a member that has that
address (`fastPathIsolated_of_reach`).
-/

set_option autoImplicit false

namespace N2nGo.Supernode

open N2nGo.Lib N2nGo.Protocol N2nGo.Messages

/-- Whatever the fast path forwards comes from the current address of a member of the
destination's community. -/
def FastPathIsolated (s : Supernode) : Prop :=
  ∀ env packet addr out, handleVFuze env s packet addr = .ok out → ∀ x ∈ out,
    ∃ d hash cm mac ref, x.target = some d ∧ s.communities.lookup hash = some cm ∧
      (s.cms.cell cm).name = d.community ∧ (s.cms.cell cm).edges.lookup mac = some ref ∧
      ((s.edges.cell ref).udpAddr.string = addr.string ∨ (s.edges.cell ref).wssConnID = addr.string)

/-- The event leaves no entry of `edgesBySocket` behind. A repeated registration or a
heartbeat gives the record addresses that include every key it is found under; a removal
finds the record only under the UDP address of the record `edgesByMAC` holds for it. -/
def LeavesNoSocket (P : Platform) (s : Supernode) (ev : Event) : Prop :=
  (∀ ref edge, Requests P s ev (.rejoin ref edge) ∨ Requests P s ev (.refresh ref edge) →
    ∀ key, s.edgesBySocket.lookup key = some ref →
      key = edge.udpAddr.string ∨ (edge.wssConnID ≠ [] ∧ key = edge.wssConnID)) ∧
  ∀ cm mac, Requests P s ev (.leave cm mac) → ∀ ref ref' key,
    (s.cms.cell cm).edges.lookup mac = some ref → s.edgesByMAC.lookup mac = some ref' →
    s.edgesBySocket.lookup key = some ref → key = (s.edges.cell ref').udpAddr.string

variable {P : Platform} {s s' : Supernode} {ev : Event} {out : List Sent}

theorem handleVFuze_forwards {env : Env} {packet : Bytes} {addr : NetAddr}
    (h : handleVFuze env s packet addr = .ok out) {x : Sent} (hx : x ∈ out) :
    ∃ dst d, s.fastPathTarget dst addr = some d ∧ x.target = some d := by
  by_cases hlen : packet.length < 7
  · rw [handleVFuze_short env s addr hlen] at h
    cases h
    cases hx
  · cases packet with
    | nil => simp at hlen
    | cons b rest =>
      by_cases hb : b = versionVFuze
      · subst hb
        simp only [List.length_cons] at hlen
        rw [handleVFuze_eq env s addr (by omega)] at h
        cases h
        obtain ⟨d, hd, rfl⟩ := List.mem_map.mp hx
        exact ⟨_, d, Option.mem_toList.mp hd, rfl⟩
      · rw [handleVFuze_other env s addr hb] at h
        cases h
        cases hx

theorem alt_eq_some_iff {edge : Edge} {key : Bytes} :
    Filed.alt edge = some key ↔ edge.wssConnID ≠ [] ∧ key = edge.wssConnID := by
  show (if edge.wssConnID = [] then none else some edge.wssConnID) = some key ↔ _
  split
  · next h => simp [h]
  · next h => simp [h, eq_comm]

theorem fastPathIsolated_of_tracks (v : s.registry.Valid hashCommunity) (ht : s.registry.Tracks) :
    FastPathIsolated s := by
  intro env packet addr out h x hx
  obtain ⟨dst, d, hd, htarget⟩ := handleVFuze_forwards h hx
  obtain ⟨-, src, -, -, hsrc, hsame⟩ := fastPathTarget_eq_some hd
  obtain ⟨⟨cm, hlisted⟩, haddr⟩ := ht addr.string src hsrc
  obtain ⟨hash, hcm⟩ := hlisted.1
  refine ⟨_, hash, cm, _, src, htarget, hcm, ?_, hlisted.2, ?_⟩
  · rw [hsame]
    exact (v.listed_home hlisted).symm
  · rcases haddr with haddr | halt
    · exact Or.inl haddr.symm
    · exact Or.inr (alt_eq_some_iff.mp halt).2.symm

theorem clean_of_requests (h : LeavesNoSocket P s ev) {op : Op}
    (hreq : (∃ hash name, op = .create hash name) ∨ Requests P s ev op) : s.registry.Clean op := by
  rcases hreq with ⟨hash, name, rfl⟩ | hreq
  · trivial
  · cases op with
    | create hash name => trivial
    | join cm edge => trivial
    | rejoin ref edge =>
      exact fun key hkey => (h.1 ref edge (Or.inl hreq) key hkey).imp id alt_eq_some_iff.mpr
    | refresh ref edge =>
      exact fun key hkey => (h.1 ref edge (Or.inr hreq) key hkey).imp id alt_eq_some_iff.mpr
    | leave cm mac =>
      exact fun key ref ref' hmember hindex hkey =>
        h.2 cm mac hreq ref ref' key hmember hindex hkey

theorem tracks_step (v : s.registry.Valid hashCommunity) (ht : s.registry.Tracks)
    (hadm : LeavesNoSocket P s ev) (h : step P s ev = .ok (s', out)) : s'.registry.Tracks := by
  obtain ⟨ops, hrun, hmild, hops⟩ := step_registry v h
  exact ht.run v hrun hmild fun op hop => clean_of_requests hadm (hops op hop)

theorem tracks_initial (h : Initial s) : s.registry.Tracks := by
  obtain ⟨config, netAllocator, pem, noCommunity, noEdge, noPool, rfl⟩ := h
  intro key ref hkey
  simp [newSupernodeWithConfig, registry] at hkey

/-- **The fast path isolates communities** in every run whose events leave no entry of
`edgesBySocket` behind.
GOLINE: supernode/handlers.go:123-136, 243-271, supernode/registration.go:133-143 -/
theorem fastPathIsolated_of_reach (P : Platform) (s : Supernode)
    (h : Reach (step P) Initial (LeavesNoSocket P) s) : FastPathIsolated s := by
  have hinv : s.registry.Valid hashCommunity ∧ s.registry.Tracks :=
    Reach.invariant (I := fun s => s.registry.Valid hashCommunity ∧ s.registry.Tracks)
      (fun _ h0 => ⟨valid_initial h0, tracks_initial h0⟩)
      (fun _ _ _ _ hI hadm hstep => by
        obtain ⟨ops, hrun, -⟩ := step_registry hI.1 hstep
        exact ⟨hI.1.run hrun, tracks_step hI.1 hI.2 hadm hstep⟩) h
  exact fastPathIsolated_of_tracks hinv.1 hinv.2

/-! ## Runs of the sample supernode -/

theorem leavesNoSocket_start (ev : Event) : LeavesNoSocket Sample.platform Sample.start ev := by
  have hempty : ∀ key ref, Sample.start.edgesBySocket.lookup key ≠ some ref := fun key ref => by
    simp [Sample.start, newSupernodeWithConfig]
  exact ⟨fun ref edge _ key hkey => absurd hkey (hempty key ref),
    fun cm mac _ ref ref' key _ _ hkey => absurd hkey (hempty key ref)⟩

/-- A first registration moves no record and removes none. -/
theorem leavesNoSocket_registers {name id : String} {n : UInt8} (h : newcomer s name id = true)
    (hmac : (Sample.requestMessage typeRegisterRequest (ascii name) (ascii id)
      (Sample.client n)).edgeMACAddr = macText name id) :
    LeavesNoSocket Sample.platform s (registers name id n) := by
  constructor
  · rintro ref edge (⟨r, hr, _, _, cm, -, -, hcm, -, hmember, -⟩ | ⟨r, hr, _, _, hpulse, -⟩)
    · cases (Sample.newRawMessage_request ..).symm.trans hr
      rw [hmac] at hmember
      exact absurd (Table.mem_of_lookup hmember) (not_mem_of_newcomer h hcm)
    · cases (Sample.newRawMessage_request ..).symm.trans hr
      cases packetType_of_toMessage hpulse
  · rintro cm mac ⟨r, hr, _, _, hunReg, -⟩
    cases (Sample.newRawMessage_request ..).symm.trans hr
    cases packetType_of_toMessage hunReg

/-- After machines of two communities have registered, the fast path forwards to one of them
what comes from its own community. -/
theorem fastPathIsolated_two_communities :
    ∃ s d, s.communities.lookup (hashCommunity (ascii "d")) = some 1 ∧
      s.fastPathTarget (Machine.extGenerateMacFor (ascii "c") (ascii "m")).bytes
        (Sample.client 1) = some d ∧ FastPathIsolated s := by
  obtain ⟨⟨s1, s2⟩, hrun, hs⟩ := exists_of_passes (x := bothRegister)
    (p := fun res => decide (newcomer res.1 "d" "n" = true ∧
      res.2.communities.lookup (hashCommunity (ascii "d")) = some 1 ∧ (res.2.fastPathTarget
        (Machine.extGenerateMacFor (ascii "c") (ascii "m")).bytes (Sample.client 1)).isSome = true))
    (by decide +kernel)
  obtain ⟨hnew, hd, hsome⟩ := of_decide_eq_true hs
  obtain ⟨d, htarget⟩ := Option.isSome_iff_exists.mp hsome
  exact ⟨s2, d, hd, htarget, fastPathIsolated_of_reach Sample.platform s2 (reach_bothRegister hrun
    (leavesNoSocket_start _) (leavesNoSocket_registers hnew (by decide +kernel)))⟩

/-- No member of any community has the address. -/
def nobodyAt (s : Supernode) (addr : NetAddr) : Bool :=
  s.communities.entries.all fun c => (s.cms.cell c.2).edges.entries.all fun e =>
    (s.edges.cell e.2).udpAddr.string != addr.string && (s.edges.cell e.2).wssConnID != addr.string

theorem not_fastPathIsolated {mac : MacID} {addr : NetAddr} {d : Edge}
    (hd : s.fastPathTarget mac.bytes addr = some d) (hnobody : nobodyAt s addr = true) :
    ¬ FastPathIsolated s := by
  intro h
  have htake : mac.bytes.take 6 = mac.bytes := List.take_of_length_le (Nat.le_of_eq mac.length_eq)
  have hfwd := handleVFuze_eq Sample.env s addr (Nat.le_of_eq mac.length_eq.symm)
  rw [htake, hd] at hfwd
  obtain ⟨d', hash, cm, mac', ref, -, hcm, -, hmember, haddr⟩ :=
    h Sample.env _ addr _ hfwd _ (List.mem_singleton.mpr rfl)
  simp only [nobodyAt, List.all_eq_true, Bool.and_eq_true, bne_iff_ne] at hnobody
  obtain ⟨hudp, hwss⟩ := hnobody _ (Table.lookup_eq_some_iff.mp hcm) _
    (Table.lookup_eq_some_iff.mp hmember)
  rcases haddr with haddr | haddr
  · exact hudp haddr
  · exact hwss haddr

def heartbeats (name id : String) (n : UInt8) : Event :=
  .packet Sample.env (Sample.request typeHeartbeat (ascii name) (ascii id)) (Sample.client n)

/-- Machine `m` moves from client 1 to client 3; packets from client 1 are still forwarded to
machine `n`. -/
theorem fastPathIsolated_fails_after_roaming :
    ∃ s, Reachable Sample.platform s ∧ ¬ FastPathIsolated s := by
  obtain ⟨s, hrun, hs⟩ := exists_of_passes
    (x := runEvents (step Sample.platform) Sample.start
      [registers "c" "m" 1, registers "c" "n" 2, heartbeats "c" "m" 3])
    (p := fun s => (s.fastPathTarget (Machine.extGenerateMacFor (ascii "c") (ascii "n")).bytes
      (Sample.client 1)).isSome && nobodyAt s (Sample.client 1)) (by decide +kernel)
  obtain ⟨hsome, hnobody⟩ := Bool.and_eq_true_iff.mp hs
  obtain ⟨d, hd⟩ := Option.isSome_iff_exists.mp hsome
  exact ⟨s, Sample.reachable_start.of_runEvents hrun, not_fastPathIsolated hd hnobody⟩

end N2nGo.Supernode
