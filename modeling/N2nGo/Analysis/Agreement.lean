import N2nGo.Analysis.Sample

/-!
# `edgesByMAC` and the communities

`edgesByMAC` is keyed by MAC alone while membership is per community, and the MAC of an
edge hashes the machine ID and the community name joined without a separator. Two
registrations with different names can therefore carry one MAC. As long as no MAC is
registered in a second community, `edgesByMAC` holds exactly the members of the
communities (`indexAgrees_of_reach`); once one is, it does not, and removing both
members panics.
-/

set_option autoImplicit false

namespace N2nGo.Supernode

open N2nGo.Lib N2nGo.Protocol N2nGo.Messages

/-- Every member of every community is found under its MAC, and every key of `edgesByMAC`
is a member of some community. -/
def IndexAgrees (s : Supernode) : Prop :=
  (∀ hash cm mac ref, s.communities.lookup hash = some cm →
    (s.cms.cell cm).edges.lookup mac = some ref → s.edgesByMAC.lookup mac = some ref) ∧
  ∀ mac ∈ s.edgesByMAC, ∃ hash cm,
    s.communities.lookup hash = some cm ∧ mac ∈ (s.cms.cell cm).edges

/-- The event is not a valid first registration of a MAC that a community already lists. -/
def JoinsOneCommunity (P : Platform) (s : Supernode) (ev : Event) : Prop :=
  ∀ cm edge, Requests P s ev (.join cm edge) → ∀ hash cm',
    s.communities.lookup hash = some cm' → edge.macAddr ∉ (s.cms.cell cm').edges

variable {P : Platform} {s s' : Supernode} {ev : Event} {out : List Sent}

theorem indexAgrees_of_agrees (h : s.registry.Agrees) : IndexAgrees s := by
  obtain ⟨hfwd, hback⟩ := h
  refine ⟨fun hash cm mac ref hcm href => hfwd cm mac ref ⟨⟨hash, hcm⟩, href⟩, fun mac hmac => ?_⟩
  obtain ⟨ref, href⟩ := Table.exists_lookup_of_mem hmac
  obtain ⟨cm, ⟨hash, hcm⟩, hmember⟩ := hback mac ref href
  exact ⟨hash, cm, hcm, Table.mem_of_lookup hmember⟩

theorem freshKey_of_requests (h : JoinsOneCommunity P s ev) {op : Op}
    (hreq : (∃ hash name, op = .create hash name) ∨ Requests P s ev op) :
    s.registry.FreshKey op := by
  rcases hreq with ⟨hash, name, rfl⟩ | hreq
  · trivial
  · cases op with
    | join cm edge =>
      rintro cm' ref ⟨⟨hash, hcm'⟩, href⟩
      exact h cm edge hreq hash cm' hcm' (Table.mem_of_lookup href)
    | create hash name => trivial
    | rejoin ref edge => trivial
    | refresh ref edge => trivial
    | leave cm mac => trivial

theorem agrees_step (v : s.registry.Valid hashCommunity) (ha : s.registry.Agrees)
    (hadm : JoinsOneCommunity P s ev) (h : step P s ev = .ok (s', out)) : s'.registry.Agrees := by
  obtain ⟨ops, hrun, hmild, hops⟩ := step_registry v h
  exact ha.run v hrun hmild fun op hop => freshKey_of_requests hadm (hops op hop)

theorem agrees_initial (h : Initial s) : s.registry.Agrees := by
  obtain ⟨config, netAllocator, pem, noCommunity, noEdge, noPool, rfl⟩ := h
  constructor <;> simp [newSupernodeWithConfig, registry, Registry.Listed]

/-- **`edgesByMAC` agrees with the communities** in every run in which no MAC is registered
in a second community.
GOLINE: supernode/handlers.go:96-145, supernode/registration.go:76-143 -/
theorem indexAgrees_of_reach (P : Platform) (s : Supernode)
    (h : Reach (step P) Initial (JoinsOneCommunity P) s) : IndexAgrees s := by
  have hinv : s.registry.Valid hashCommunity ∧ s.registry.Agrees :=
    Reach.invariant (I := fun s => s.registry.Valid hashCommunity ∧ s.registry.Agrees)
      (fun _ h0 => ⟨valid_initial h0, agrees_initial h0⟩)
      (fun _ _ _ _ hI hadm hstep => by
        obtain ⟨ops, hrun, -⟩ := step_registry hI.1 hstep
        exact ⟨hI.1.run hrun, agrees_step hI.1 hI.2 hadm hstep⟩) h
  exact indexAgrees_of_agrees hinv.2

/-! ## Runs of the sample supernode -/

def registers (name id : String) (n : UInt8) : Event :=
  .packet Sample.env (Sample.request typeRegisterRequest (ascii name) (ascii id)) (Sample.client n)

def unregisters (name id : String) (n : UInt8) : Event :=
  .packet Sample.env (Sample.request typeUnregisterRequest (ascii name) (ascii id)) (Sample.client n)

def macText (name id : String) : Bytes :=
  Net.hardwareAddrString (Machine.extGenerateMacFor (ascii name) (ascii id)).bytes

theorem joinsOneCommunity_start (ev : Event) : JoinsOneCommunity Sample.platform Sample.start ev := by
  intro cm edge _ hash cm' hcm'
  simp [Sample.start, newSupernodeWithConfig] at hcm'

/-- No community lists the machine. -/
def newcomer (s : Supernode) (name id : String) : Bool :=
  s.communities.entries.all fun c => decide (macText name id ∉ (s.cms.cell c.2).edges)

theorem not_mem_of_newcomer {name id : String} (h : newcomer s name id = true) {hash : UInt32}
    {cm : CommunityRef} (hcm : s.communities.lookup hash = some cm) :
    macText name id ∉ (s.cms.cell cm).edges :=
  of_decide_eq_true (List.all_eq_true.mp h _ (Table.lookup_eq_some_iff.mp hcm))

theorem joinsOneCommunity_registers {name id : String} {n : UInt8} (h : newcomer s name id = true)
    (hmac : (Sample.requestMessage typeRegisterRequest (ascii name) (ascii id)
      (Sample.client n)).edgeMACAddr = macText name id) :
    JoinsOneCommunity Sample.platform s (registers name id n) := by
  rintro cm edge ⟨r, hr, _, _, -, -, -, hedge, -⟩ hash cm' hcm'
  cases (Sample.newRawMessage_request ..).symm.trans hr
  rw [hedge, hmac]
  exact not_mem_of_newcomer h hcm'

/-- Machine `m` registers in `c` and machine `n` in `d`: the states after each. -/
def bothRegister : Go (Supernode × Supernode) := do
  let first ← step Sample.platform Sample.start (registers "c" "m" 1)
  let second ← step Sample.platform first.1 (registers "d" "n" 2)
  .ok (first.1, second.1)

theorem reach_bothRegister {adm : Supernode → Event → Prop} {s1 s2 : Supernode}
    (h : bothRegister = .ok (s1, s2)) (hfirst : adm Sample.start (registers "c" "m" 1))
    (hsecond : adm s1 (registers "d" "n" 2)) : Reach (step Sample.platform) Initial adm s2 := by
  obtain ⟨⟨_, _⟩, h1, h⟩ := bind_eq_ok.mp h
  obtain ⟨⟨_, _⟩, h2, h⟩ := bind_eq_ok.mp h
  cases h
  exact .step (.step (.init ⟨_, _, _, _, _, _, rfl⟩) hfirst h1) hsecond h2

/-- Machines in two communities: both are indexed. -/
theorem indexAgrees_two_communities :
    ∃ s, macText "c" "m" ∈ s.edgesByMAC ∧ macText "d" "n" ∈ s.edgesByMAC ∧ IndexAgrees s := by
  obtain ⟨⟨s1, s2⟩, hrun, hs⟩ := exists_of_passes (x := bothRegister)
    (p := fun res => decide (newcomer res.1 "d" "n" = true ∧ macText "c" "m" ∈ res.2.edgesByMAC ∧
      macText "d" "n" ∈ res.2.edgesByMAC)) (by decide +kernel)
  obtain ⟨hnew, hm, hn⟩ := of_decide_eq_true hs
  exact ⟨s2, hm, hn, indexAgrees_of_reach Sample.platform s2 (reach_bothRegister hrun
    (joinsOneCommunity_start _) (joinsOneCommunity_registers hnew (by decide +kernel)))⟩

/-- Machine `a` in `bc` and machine `ab` in `c` share a MAC. After both have registered, the
member of `bc` is not the one `edgesByMAC` knows. -/
theorem indexAgrees_fails_on_collision :
    ∃ s, Reachable Sample.platform s ∧ ¬ IndexAgrees s := by
  obtain ⟨s, hrun, hs⟩ := exists_of_passes
    (x := runEvents (step Sample.platform) Sample.start [registers "bc" "a" 1, registers "c" "ab" 2])
    (p := fun s => decide (
      s.communities.lookup (hashCommunity (ascii "bc")) = some 0 ∧
      (s.cms.cell 0).edges.lookup (macText "bc" "a") = some 0 ∧
      s.edgesByMAC.lookup (macText "bc" "a") = some 1)) (by decide +kernel)
  obtain ⟨hcm, hmember, hindex⟩ := of_decide_eq_true hs
  refine ⟨s, Sample.reachable_start.of_runEvents hrun, fun h => ?_⟩
  have := h.1 _ _ _ _ hcm hmember
  rw [hindex] at this
  exact absurd this (by decide)

-- Removing both of them dereferences nil.
example : Passes (runEvents (step Sample.platform) Sample.start
    [registers "bc" "a" 1, registers "c" "ab" 2, unregisters "bc" "a" 1, unregisters "c" "ab" 2])
    (fun _ => true) = false := by decide +kernel

end N2nGo.Supernode
