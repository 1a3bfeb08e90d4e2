import N2nGo.Analysis.HostLines

/-!
# Removing from the hosts file

`Remove`, `RemoveByHostname` and `RemoveByIP` go through the lines once. The first two take
hostnames off a line, write it anew if others are left and drop it if none are.

`RemoveByHostname` and `RemoveByIP` remove what they are asked to remove and nothing else.
`Remove` reports success whenever it met one of the hostnames, but keeps the new lines only
if a whole line was dropped; where lines only got shorter, nothing is removed.
-/

set_option autoImplicit false

namespace N2nGo.Syshosts

open N2nGo.Lib N2nGo.Lib.Text

/-! ## Lines without some of their hostnames -/

section Without

variable (c : Line → Prop) [DecidablePred c] (hit : Text → Prop) [DecidablePred hit]

/-- The line without the hostnames that are hit: as it was if it has none of them, and no line
if it has no others. -/
def Line.without (l : Line) : List Line :=
  if ∀ host ∈ l.hostnames, ¬ hit host then [l]
  else if ∀ host ∈ l.hostnames, hit host then []
  else [l.rewrite (l.hostnames.filter fun host => ¬ hit host)]

/-- The lines that are concerned lose hostnames. -/
def Line.removing (l : Line) : List Line := if c l then l.without hit else [l]

variable {c hit} {l l' : Line} {ls : List Line} {ip host : Text}

theorem Line.of_mem_without (h : l' ∈ l.without hit) : l'.ip = l.ip ∧ l'.isActive = l.isActive := by
  unfold Line.without at h
  split at h
  · rw [List.mem_singleton.mp h]
    exact ⟨rfl, rfl⟩
  · split at h
    · cases h
    · rw [List.mem_singleton.mp h]
      exact ⟨rfl, rfl⟩

theorem Line.mem_without : (∃ l' ∈ l.without hit, host ∈ l'.hostnames) ↔
    host ∈ l.hostnames ∧ ¬ hit host := by
  unfold Line.without
  split
  · next hnone =>
    simp only [List.mem_singleton, exists_eq_left]
    exact ⟨fun hhost => ⟨hhost, hnone host hhost⟩, And.left⟩
  · split
    · next hall =>
      refine iff_of_false ?_ fun h => h.2 (hall host h.1)
      rintro ⟨l', hl', -⟩
      cases hl'
    · simp only [List.mem_singleton, exists_eq_left, Line.rewrite, List.mem_filter,
        decide_eq_true_eq]

theorem Line.of_mem_removing (h : l' ∈ l.removing c hit) :
    l'.ip = l.ip ∧ l'.isActive = l.isActive := by
  unfold Line.removing at h
  split at h
  · exact Line.of_mem_without h
  · rw [List.mem_singleton.mp h]
    exact ⟨rfl, rfl⟩

theorem Line.mem_removing : (∃ l' ∈ l.removing c hit, host ∈ l'.hostnames) ↔
    host ∈ l.hostnames ∧ ¬ (c l ∧ hit host) := by
  unfold Line.removing
  split
  · next hc =>
    rw [Line.mem_without, not_and]
    exact ⟨fun h => ⟨h.1, fun _ => h.2⟩, fun h => ⟨h.1, h.2 hc⟩⟩
  · next hc =>
    simp only [List.mem_singleton, exists_eq_left]
    exact ⟨fun hhost => ⟨hhost, fun h => hc h.1⟩, And.left⟩

theorem paired_removing : Paired (ls.flatMap (Line.removing c hit)) ip host ↔
    ∃ l ∈ ls, l.isActive = true ∧ l.ip = ip ∧ host ∈ l.hostnames ∧ ¬ (c l ∧ hit host) := by
  constructor
  · rintro ⟨l', hl', hactive, hip, hhost⟩
    obtain ⟨l, hl, hmem⟩ := List.mem_flatMap.mp hl'
    obtain ⟨hip', hactive'⟩ := Line.of_mem_removing hmem
    exact ⟨l, hl, hactive' ▸ hactive, hip' ▸ hip, Line.mem_removing.mp ⟨l', hmem, hhost⟩⟩
  · rintro ⟨l, hl, hactive, hip, hhost⟩
    obtain ⟨l', hmem, hhost'⟩ := Line.mem_removing.mpr hhost
    obtain ⟨hip', hactive'⟩ := Line.of_mem_removing hmem
    exact ⟨l', List.mem_flatMap.mpr ⟨l, hl, hmem⟩, hactive'.trans hactive, hip'.trans hip, hhost'⟩

theorem filter_removing {p : Line → Bool}
    (hp : ∀ l l' : Line, l'.ip = l.ip → l'.isActive = l.isActive → p l' = p l) :
    (ls.flatMap (Line.removing c hit)).filter p = (ls.filter p).flatMap (Line.removing c hit) := by
  have hsame : ∀ l, ∀ l' ∈ l.removing c hit, p l' = p l := fun l l' hl' =>
    hp l l' (Line.of_mem_removing hl').1 (Line.of_mem_removing hl').2
  induction ls with
  | nil => rfl
  | cons l ls ih =>
    rw [List.flatMap_cons, List.filter_append, ih]
    by_cases hl : p l = true
    · rw [List.filter_cons_of_pos hl, List.flatMap_cons,
        List.filter_eq_self.mpr fun l' hl' => (hsame l l' hl').trans hl]
    · rw [List.filter_cons_of_neg hl,
        List.filter_eq_nil_iff.mpr fun l' hl' => (hsame l l' hl').symm ▸ hl, List.nil_append]

theorem flatMap_removing_eq_self (h : ∀ l ∈ ls, c l → ∀ host ∈ l.hostnames, ¬ hit host) :
    ls.flatMap (Line.removing c hit) = ls := by
  have hself : ∀ l ∈ ls, l.removing c hit = [l] := by
    intro l hl
    unfold Line.removing
    split
    · next hc => exact if_pos (h l hl hc)
    · rfl
  rw [List.flatMap_congr hself, List.flatMap_singleton']

theorem inactiveLines_removing (hc : ∀ l, c l → l.isActive = true) :
    inactiveLines (ls.flatMap (Line.removing c hit)) = inactiveLines ls := by
  unfold inactiveLines
  rw [filter_removing fun l l' _ hactive => by rw [hactive]]
  refine flatMap_removing_eq_self fun l hl hcl => ?_
  have hinactive := (List.mem_filter.mp hl).2
  rw [hc l hcl] at hinactive
  cases hinactive

end Without

/-! ## `RemoveByHostname` and `RemoveByIP` -/

/-- The line without a hostname. -/
def dropHostname (host : Text) (l : Line) : List Line :=
  l.removing (fun l => l.isActive) (· = host)

theorem dropTurn_snd (host : Text) (found : Bool) (l : Line) :
    (dropTurn host found l).2 = dropHostname host l := by
  unfold dropTurn dropHostname Line.removing Line.without
  have hnone : host ∉ l.hostnames ↔ ∀ host' ∈ l.hostnames, ¬ host' = host :=
    ⟨fun hout host' hmem heq => hout (heq ▸ hmem), fun hall hmem => hall host hmem rfl⟩
  by_cases hactive : l.isActive = true
  · rw [if_pos hactive, if_pos hactive]
    by_cases hout : host ∉ l.hostnames
    · rw [if_pos hout, if_pos (hnone.mp hout)]
    · rw [if_neg hout, if_neg fun hall => hout (hnone.mpr hall)]
      split
      · rfl
      · rfl
  · rw [if_neg hactive, if_neg hactive]

theorem dropTurn_found {host : Text} {found : Bool} {ls : List Line} :
    ls.foldl (fun found l => (dropTurn host found l).1) found = true ↔
      found = true ∨ ∃ l ∈ ls, l.isActive = true ∧ host ∈ l.hostnames := by
  induction ls generalizing found with
  | nil => simp
  | cons l ls ih =>
    have hturn : (dropTurn host found l).1 = true ↔
        found = true ∨ l.isActive = true ∧ host ∈ l.hostnames := by
      unfold dropTurn
      by_cases hactive : l.isActive = true
      · rw [if_pos hactive]
        by_cases hout : host ∉ l.hostnames
        · rw [if_pos hout]
          exact ⟨Or.inl, fun h => h.resolve_right fun hmem => hout hmem.2⟩
        · rw [if_neg hout]
          have htrue : found = true ∨ l.isActive = true ∧ host ∈ l.hostnames :=
            Or.inr ⟨hactive, not_not.mp hout⟩
          split
          · exact ⟨fun _ => htrue, fun _ => rfl⟩
          · exact ⟨fun _ => htrue, fun _ => rfl⟩
      · rw [if_neg hactive]
        exact ⟨Or.inl, fun h => h.resolve_right fun hmem => hactive hmem.1⟩
    rw [List.foldl_cons, ih, hturn, List.exists_mem_cons_iff, or_assoc]

section ByHostname

variable {h : Hosts} {host : Text}

/-- The hostname is on an active line. -/
def Listed (ls : List Line) (host : Text) : Prop := ∃ l ∈ ls, l.isActive = true ∧ host ∈ l.hostnames

theorem removeByHostname_eq (hin : InMemory h.arrays h.entries) (hblank : trimSpace host ≠ []) :
    (Listed h.lines (trimSpace host) → (removeByHostname h host).2 = .ok () ∧
      (removeByHostname h host).1.lines = h.lines.flatMap (dropHostname (trimSpace host))) ∧
    (¬ Listed h.lines (trimSpace host) →
      removeByHostname h host = (h, .error .hostnameNotFound)) := by
  have hloop := rebuild_refines (removeByHostnameStep_refines (trimSpace host)) hin false
  have hfound :
      (rebuild (removeByHostnameStep (trimSpace host)) h.arrays false h.entries).2.1 = true ↔
        Listed h.lines (trimSpace host) := by
    rw [hloop.state, rebuildLines_fst, dropTurn_found]
    exact ⟨fun hor => hor.resolve_left nofun, Or.inr⟩
  simp only [removeByHostname]
  rw [if_neg hblank]
  constructor
  · intro hlisted
    rw [if_neg (not_not.mpr (hfound.mpr hlisted))]
    refine ⟨rfl, hloop.lines.trans ?_⟩
    rw [rebuildLines_snd (dropTurn_snd (trimSpace host))]
    rfl
  · intro hlisted
    rw [if_pos fun htrue => hlisted (hfound.mp htrue)]

theorem lines_removeByHostname (hin : InMemory h.arrays h.entries) (hblank : trimSpace host ≠ []) :
    (removeByHostname h host).1.lines = h.lines.flatMap (dropHostname (trimSpace host)) := by
  obtain ⟨hfound, hnotFound⟩ := removeByHostname_eq hin hblank
  by_cases hlisted : Listed h.lines (trimSpace host)
  · exact (hfound hlisted).2
  · rw [hnotFound hlisted]
    refine (flatMap_removing_eq_self fun l hl hactive host' hhost' heq => ?_).symm
    exact hlisted ⟨l, hl, hactive, heq ▸ hhost'⟩

end ByHostname

theorem lines_removeByIP (h : Hosts) (ip : Text) :
    (removeByIP h ip).lines = h.lines.filter fun l => ¬ (l.isActive ∧ l.ip = ip) := by
  unfold Hosts.lines removeByIP
  rw [List.filter_map]
  rfl

/-- What `RemoveByHostname` does for a hostname that is not blank: it does not find the hostname
and changes nothing, or each line loses it. -/
structure HostnameRemoved (h : Hosts) (host : Text) : Prop where
  notFound : removeByHostname h host = (h, .error .hostnameNotFound) ↔
    ¬ Listed h.lines (trimSpace host)
  found : Listed h.lines (trimSpace host) → (removeByHostname h host).2 = .ok ()
  lines : (removeByHostname h host).1.lines = h.lines.flatMap (dropHostname (trimSpace host))
  pairs : ∀ ip host', Paired (removeByHostname h host).1.lines ip host' ↔
    Paired h.lines ip host' ∧ host' ≠ trimSpace host

theorem hostnameRemoved {h : Hosts} (hin : InMemory h.arrays h.entries) {host : Text}
    (hblank : trimSpace host ≠ []) : HostnameRemoved h host := by
  obtain ⟨hfound, hnotFound⟩ := removeByHostname_eq hin hblank
  have hlines := lines_removeByHostname hin hblank
  refine ⟨⟨fun herr hlisted => ?_, hnotFound⟩, fun hlisted => (hfound hlisted).1, hlines, ?_⟩
  · have hok := (hfound hlisted).1
    rw [herr] at hok
    cases hok
  · intro ip host'
    rw [hlines]
    refine paired_removing.trans ⟨?_, ?_⟩
    · rintro ⟨l, hl, hactive, hip, hhost', hspared⟩
      exact ⟨⟨l, hl, hactive, hip, hhost'⟩, fun heq => hspared ⟨hactive, heq⟩⟩
    · rintro ⟨⟨l, hl, hactive, hip, hhost'⟩, hne⟩
      exact ⟨l, hl, hactive, hip, hhost', fun hhit => hne hhit.2⟩

theorem removals_commute {h : Hosts} (hin : InMemory h.arrays h.entries) (host ip : Text) :
    (removeByIP (removeByHostname h host).1 ip).lines =
      (removeByHostname (removeByIP h ip) host).1.lines := by
  by_cases hblank : trimSpace host = []
  · have hskip : ∀ h, (removeByHostname h host).1 = h := by
      intro h
      simp only [removeByHostname]
      rw [if_pos hblank]
    rw [hskip, hskip]
  · have hin' : InMemory (removeByIP h ip).arrays (removeByIP h ip).entries :=
      hin.subset fun _ he => List.mem_of_mem_filter he
    rw [lines_removeByIP, lines_removeByHostname hin hblank, lines_removeByHostname hin' hblank,
      lines_removeByIP]
    exact filter_removing fun l l' hip hactive => by rw [hip, hactive]

/-- **`RemoveByHostname` and `RemoveByIP` are exact.**
GOLINE: syshosts/hostsfiles.go:414-505 -/
theorem removals_exact (s : State) :
    (∀ host, trimSpace host ≠ [] → HostnameRemoved s.hosts host) ∧
    (∀ ip, (removeByIP s.hosts ip).lines =
      s.hosts.lines.filter fun l => ¬ (l.isActive ∧ l.ip = ip)) ∧
    ∀ host ip, (removeByIP (removeByHostname s.hosts host).1 ip).lines =
      (removeByHostname (removeByIP s.hosts ip) host).1.lines :=
  ⟨fun _ hblank => hostnameRemoved s.inMemory hblank, lines_removeByIP s.hosts,
    removals_commute s.inMemory⟩

/-! ## `Remove` -/

/-- The line loses hostnames. -/
def Touched (ip : Text) (hostsToRemove : List Text) (l : Line) : Prop :=
  l.isActive = true ∧ l.ip = ip ∧ ∃ host ∈ l.hostnames, host ∈ hostsToRemove

/-- The line loses all its hostnames. -/
def Emptied (ip : Text) (hostsToRemove : List Text) (l : Line) : Prop :=
  Touched ip hostsToRemove l ∧ ∀ host ∈ l.hostnames, host ∈ hostsToRemove

/-- The line without the hostnames to remove. -/
def removeLine (ip : Text) (hostsToRemove : List Text) (l : Line) : List Line :=
  l.removing (fun l => l.isActive ∧ l.ip = ip) (· ∈ hostsToRemove)

section Remove

variable {ip : Text} {hostsToRemove : List Text} {st st' st'' : RemoveFlags} {l : Line}
  {ls : List Line}

/-- The flags say which of the lines there were. -/
structure Noted (ip : Text) (hostsToRemove : List Text) (st : RemoveFlags) (ls : List Line)
    (st' : RemoveFlags) : Prop where
  foundIP : st'.foundIP = true ↔ st.foundIP = true ∨ ∃ l ∈ ls, l.isActive = true ∧ l.ip = ip
  modified : st'.modified = true ↔ st.modified = true ∨ ∃ l ∈ ls, Touched ip hostsToRemove l
  entryRemoved : st'.entryRemoved = true ↔
    st.entryRemoved = true ∨ ∃ l ∈ ls, Emptied ip hostsToRemove l

theorem Noted.cons (h : Noted ip hostsToRemove st [l] st')
    (h' : Noted ip hostsToRemove st' ls st'') :
    Noted ip hostsToRemove st (l :: ls) st'' := by
  refine ⟨?_, ?_, ?_⟩
  · rw [h'.foundIP, h.foundIP]
    simp [or_assoc]
  · rw [h'.modified, h.modified]
    simp [or_assoc]
  · rw [h'.entryRemoved, h.entryRemoved]
    simp [or_assoc]

theorem noted_removeTurn (st : RemoveFlags) (l : Line) :
    Noted ip hostsToRemove st [l] (removeTurn ip hostsToRemove st l).1 := by
  unfold removeTurn
  by_cases hline : l.isActive = true ∧ l.ip = ip
  · rw [if_pos hline]
    by_cases hnone : ∀ host ∈ l.hostnames, host ∉ hostsToRemove
    · have huntouched : ¬ Touched ip hostsToRemove l := by
        rintro ⟨-, -, host, hmem, hhit⟩
        exact hnone host hmem hhit
      rw [if_pos hnone]
      exact ⟨by simp [hline], by simp [huntouched], by simp [Emptied, huntouched]⟩
    · have htouched : Touched ip hostsToRemove l := by
        push Not at hnone
        exact ⟨hline.1, hline.2, hnone⟩
      rw [if_neg hnone]
      by_cases hall : ∀ host ∈ l.hostnames, host ∈ hostsToRemove
      · have hemptied : Emptied ip hostsToRemove l := ⟨htouched, hall⟩
        rw [if_pos hall]
        exact ⟨by simp [hline], by simp [htouched], by simp [hemptied]⟩
      · have hkept : ¬ Emptied ip hostsToRemove l := fun hemptied => hall hemptied.2
        rw [if_neg hall]
        exact ⟨by simp [hline], by simp [htouched], by simp [hkept]⟩
  · have huntouched : ¬ Touched ip hostsToRemove l := fun htouched =>
      hline ⟨htouched.1, htouched.2.1⟩
    rw [if_neg hline]
    exact ⟨by simp [hline], by simp [huntouched], by simp [Emptied, huntouched]⟩

theorem noted_foldl (st : RemoveFlags) (ls : List Line) : Noted ip hostsToRemove st ls
    (ls.foldl (fun st l => (removeTurn ip hostsToRemove st l).1) st) := by
  induction ls generalizing st with
  | nil => exact ⟨by simp, by simp, by simp⟩
  | cons l ls ih => exact (noted_removeTurn st l).cons (ih _)

theorem removeTurn_snd (st : RemoveFlags) (l : Line) :
    (removeTurn ip hostsToRemove st l).2 = removeLine ip hostsToRemove l := by
  unfold removeTurn removeLine Line.removing Line.without
  split
  · split
    · rfl
    · split
      · rfl
      · rfl
  · rfl

end Remove

section RemoveResult

variable {h : Hosts} {ip : Text} {hosts : List Text}

/-- What `Remove` does: nothing where there is nothing to remove; otherwise it succeeds, and
keeps what it did only if a line lost all its hostnames. -/
structure RemoveResult (h : Hosts) (ip : Text) (hosts : List Text) : Prop where
  refused : ¬ (isIP ip = true ∧ ∃ l ∈ h.lines, Touched ip (cleaned hosts) l) →
    ∃ err, remove h ip hosts = (h, .error err)
  committed : isIP ip = true → (∃ l ∈ h.lines, Emptied ip (cleaned hosts) l) →
    (remove h ip hosts).2 = .ok () ∧
      (remove h ip hosts).1.lines = h.lines.flatMap (removeLine ip (cleaned hosts))
  forgotten : isIP ip = true → (∃ l ∈ h.lines, Touched ip (cleaned hosts) l) →
    (¬ ∃ l ∈ h.lines, Emptied ip (cleaned hosts) l) → remove h ip hosts = (h, .ok ())

/-- The loop of `Remove`. -/
def removeLoop (h : Hosts) (ip : Text) (hosts : List Text) :
    Arrays Text × RemoveFlags × List HostEntry :=
  rebuild (removeStep ip (cleaned hosts)) h.arrays ⟨false, false, false⟩ h.entries

section

variable (hin : InMemory h.arrays h.entries)
include hin

theorem noted_removeLoop (ip : Text) (hosts : List Text) :
    Noted ip (cleaned hosts) ⟨false, false, false⟩ h.lines (removeLoop h ip hosts).2.1 := by
  unfold removeLoop
  rw [(rebuild_refines (removeStep_refines ip (cleaned hosts)) hin _).state, rebuildLines_fst]
  exact noted_foldl _ _

theorem lines_removeLoop :
    (removeLoop h ip hosts).2.2.map (HostEntry.line (removeLoop h ip hosts).1) =
      h.lines.flatMap (removeLine ip (cleaned hosts)) := by
  unfold removeLoop
  rw [(rebuild_refines (removeStep_refines ip (cleaned hosts)) hin _).lines,
    rebuildLines_snd removeTurn_snd]
  rfl

/-- The checks before and behind the loop pass if there is a line to touch. -/
theorem remove_of_touched (hip : isIP ip = true)
    (htouched : ∃ l ∈ h.lines, Touched ip (cleaned hosts) l) :
    remove h ip hosts =
      if (removeLoop h ip hosts).2.1.entryRemoved then
        (⟨(removeLoop h ip hosts).1, (removeLoop h ip hosts).2.2⟩, .ok ())
      else (h, .ok ()) := by
  have hnoted := noted_removeLoop hin ip hosts
  have hmodified := hnoted.modified.mpr (Or.inr htouched)
  obtain ⟨l, hl, hactive, hip', host, -, hhost⟩ := htouched
  have hfound := hnoted.foundIP.mpr (Or.inr ⟨l, hl, hactive, hip'⟩)
  have hsome : hosts ≠ [] := by
    rintro rfl
    cases hhost
  unfold removeLoop at hfound hmodified ⊢
  simp only [remove]
  rw [if_neg (not_not.mpr hip), if_neg hsome, if_neg (List.ne_nil_of_mem hhost),
    if_neg (not_not.mpr hfound), if_neg (not_not.mpr hmodified)]

theorem removeResult (ip : Text) (hosts : List Text) : RemoveResult h ip hosts := by
  have hnoted := noted_removeLoop hin ip hosts
  refine ⟨fun hnothing => ?_, fun hip hemptied => ?_, fun hip htouched hkept => ?_⟩
  · simp only [remove]
    split
    · exact ⟨_, rfl⟩
    · next hip =>
      split
      · exact ⟨_, rfl⟩
      · split
        · exact ⟨_, rfl⟩
        · split
          · exact ⟨_, rfl⟩
          · split
            · exact ⟨_, rfl⟩
            · next hmodified =>
              refine absurd ⟨not_not.mp hip, ?_⟩ hnothing
              exact (hnoted.modified.mp (not_not.mp hmodified)).resolve_left Bool.false_ne_true
  · have htouched : ∃ l ∈ h.lines, Touched ip (cleaned hosts) l := by
      obtain ⟨l, hl, hempty⟩ := hemptied
      exact ⟨l, hl, hempty.1⟩
    rw [remove_of_touched hin hip htouched,
      if_pos (hnoted.entryRemoved.mpr (Or.inr hemptied))]
    exact ⟨rfl, lines_removeLoop hin⟩
  · rw [remove_of_touched hin hip htouched,
      if_neg fun hremoved => hkept
        ((hnoted.entryRemoved.mp hremoved).resolve_left Bool.false_ne_true)]

end

theorem has_iff {host : Text} :
    has h ip host = true ↔ trimSpace host ≠ [] ∧ Paired h.lines ip (trimSpace host) := by
  simp only [has]
  by_cases hblank : trimSpace host = []
  · rw [if_pos hblank]
    exact ⟨nofun, fun hpair => absurd hblank hpair.1⟩
  · rw [if_neg hblank, List.any_eq_true]
    constructor
    · rintro ⟨e, he, htest⟩
      obtain ⟨hline, hname⟩ := Bool.and_eq_true_iff.mp htest
      obtain ⟨host', hmem, heq⟩ := List.any_eq_true.mp hname
      obtain ⟨hactive, hip⟩ := of_decide_eq_true hline
      exact ⟨hblank, e.line h.arrays, List.mem_map_of_mem he, hactive, hip,
        eq_of_beq heq ▸ hmem⟩
    · rintro ⟨-, l, hl, hactive, hip, hhost⟩
      obtain ⟨e, he, rfl⟩ := List.mem_map.mp hl
      exact ⟨e, he, Bool.and_eq_true_iff.mpr ⟨decide_eq_true ⟨hactive, hip⟩,
        List.any_eq_true.mpr ⟨_, hhost, beq_self_eq_true _⟩⟩⟩

theorem trimSpace_of_mem_cleaned {host : Text} (hhost : host ∈ cleaned hosts) :
    trimSpace host = host := by
  obtain ⟨host', -, rfl⟩ := List.mem_map.mp (List.mem_of_mem_filter hhost)
  exact trimSpace_trimSpace host'

/-- The pairs are removed, and nothing else changes. -/
structure RemovesPairs (before after : Hosts) (ip : Text) (hosts : List Text) : Prop where
  present : ∃ host ∈ cleaned hosts, Paired before.lines ip host
  gone : ∀ host ∈ cleaned hosts, has after ip host = false
  others : ∀ ip' host', ¬ (ip' = ip ∧ host' ∈ cleaned hosts) →
    (Paired after.lines ip' host' ↔ Paired before.lines ip' host')
  inactive : inactiveLines after.lines = inactiveLines before.lines

/-- An error changes nothing, and success removes the pairs. -/
structure RemoveExact (h : Hosts) (ip : Text) (hosts : List Text) : Prop where
  error : ∀ err, (remove h ip hosts).2 = .error err → (remove h ip hosts).1 = h
  ok : (remove h ip hosts).2 = .ok () → RemovesPairs h (remove h ip hosts).1 ip hosts

/-- Some line of the IP has hostnames to remove, and each of them has others too. -/
def OnlyShortened (ls : List Line) (ip : Text) (hosts : List Text) : Prop :=
  isIP ip = true ∧ (∃ l ∈ ls, Touched ip (cleaned hosts) l) ∧
    ∀ l ∈ ls, Touched ip (cleaned hosts) l → ∃ host ∈ l.hostnames, host ∉ cleaned hosts

theorem removesPairs_flatMap {h' : Hosts}
    (hlines : h'.lines = h.lines.flatMap (removeLine ip (cleaned hosts)))
    (htouched : ∃ l ∈ h.lines, Touched ip (cleaned hosts) l) : RemovesPairs h h' ip hosts := by
  refine ⟨?_, ?_, ?_, ?_⟩
  · obtain ⟨l, hl, hactive, hip, host, hmem, hhost⟩ := htouched
    exact ⟨host, hhost, l, hl, hactive, hip, hmem⟩
  · intro host hhost
    rw [← Bool.not_eq_true, has_iff, trimSpace_of_mem_cleaned hhost, hlines]
    rintro ⟨-, hpair⟩
    obtain ⟨l, -, hactive, hip, -, hspared⟩ := paired_removing.mp hpair
    exact hspared ⟨⟨hactive, hip⟩, hhost⟩
  · intro ip' host' hother
    rw [hlines]
    refine paired_removing.trans ⟨?_, ?_⟩
    · rintro ⟨l, hl, hactive, hip, hmem, -⟩
      exact ⟨l, hl, hactive, hip, hmem⟩
    · rintro ⟨l, hl, hactive, hip, hmem⟩
      refine ⟨l, hl, hactive, hip, hmem, fun hgone => hother ⟨?_, hgone.2⟩⟩
      exact hip.symm.trans hgone.1.2
  · rw [hlines]
    exact inactiveLines_removing fun l hc => hc.1

/-- **`Remove` is exact unless lines only get shorter**; then it succeeds and removes nothing.
GOLINE: syshosts/hostsfiles.go:326-412 -/
theorem remove_exact_iff (s : State) (ip : Text) (hosts : List Text) :
    RemoveExact s.hosts ip hosts ↔ ¬ OnlyShortened s.hosts.lines ip hosts := by
  have hres := removeResult s.inMemory ip hosts
  constructor
  · rintro hexact ⟨hip, htouched, hshort⟩
    have hkept : ¬ ∃ l ∈ s.hosts.lines, Emptied ip (cleaned hosts) l := by
      rintro ⟨l, hl, hemptied⟩
      obtain ⟨host, hmem, hspared⟩ := hshort l hl hemptied.1
      exact hspared (hemptied.2 host hmem)
    have hforgotten := hres.forgotten hip htouched hkept
    have hpairs := hexact.ok (by rw [hforgotten])
    rw [hforgotten] at hpairs
    obtain ⟨l, hl, hactive, hip', host, hmem, hhost⟩ := htouched
    have hhas : has s.hosts ip host = true := by
      rw [has_iff, trimSpace_of_mem_cleaned hhost]
      exact ⟨of_decide_eq_true (List.mem_filter.mp hhost).2, l, hl, hactive, hip', hmem⟩
    rw [hpairs.gone host hhost] at hhas
    cases hhas
  · intro hlong
    by_cases htouched : isIP ip = true ∧ ∃ l ∈ s.hosts.lines, Touched ip (cleaned hosts) l
    · -- one of the lines that are touched has nothing else
      have hemptied : ∃ l ∈ s.hosts.lines, Emptied ip (cleaned hosts) l := by
        by_contra hkept
        refine hlong ⟨htouched.1, htouched.2, fun l hl htouch => ?_⟩
        by_contra hall
        push Not at hall
        exact hkept ⟨l, hl, htouch, hall⟩
      obtain ⟨hok, hlines⟩ := hres.committed htouched.1 hemptied
      refine ⟨fun err herr => ?_, fun _ => removesPairs_flatMap hlines htouched.2⟩
      rw [hok] at herr
      cases herr
    · obtain ⟨err, herr⟩ := hres.refused htouched
      refine ⟨fun _ _ => by rw [herr], fun hok => ?_⟩
      rw [herr] at hok
      cases hok

end RemoveResult

open Syshosts.Sample in
/-- `Remove` of one of the two hostnames of a line succeeds, and the hostname is still there. -/
theorem remove_forgets_shortened :
    has (remove (State.loaded [ofString "1.2.3.4 a b"]).hosts wrappedIP [ofString "a"]).1 wrappedIP
        (ofString "a") = true ∧
      ¬ RemoveExact (State.loaded [ofString "1.2.3.4 a b"]).hosts wrappedIP [ofString "a"] := by
  have hhas : has (remove (State.loaded [ofString "1.2.3.4 a b"]).hosts wrappedIP
      [ofString "a"]).1 wrappedIP (ofString "a") = true := by decide +kernel
  have hok : (remove (State.loaded [ofString "1.2.3.4 a b"]).hosts wrappedIP
      [ofString "a"]).2.toBool = true := by decide +kernel
  refine ⟨hhas, fun hexact => ?_⟩
  rcases hres : (remove (State.loaded [ofString "1.2.3.4 a b"]).hosts wrappedIP
      [ofString "a"]).2 with err | u
  · rw [hres] at hok
    cases hok
  · have hgone := (hexact.ok hres).gone (ofString "a") (by decide +kernel)
    rw [hhas] at hgone
    cases hgone

end N2nGo.Syshosts
