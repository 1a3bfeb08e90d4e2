import N2nGo.Analysis.HostLines
import Mathlib.Data.List.Find

/-!
# Duplicates in the hosts file

`RemoveDuplicateHosts` keeps the first occurrence of every hostname: the two passes are one
pass that knows all hostnames of earlier lines (`keepsFirst_deduplicated`). `Clean` first
moves all hostnames of an IP to its first line. Nothing is lost and nothing is paired anew,
but a hostname with several IPs may change to the one whose first line comes earliest.
-/

set_option autoImplicit false

namespace N2nGo.Syshosts

open N2nGo.Lib N2nGo.Lib.Text

/-! ## Keeping first occurrences -/

/-- The hostnames of the active lines, in order. -/
def namesOf (ls : List Line) : List Text := (ls.filter (·.isActive)).flatMap (·.hostnames)

/-- The IP of the first active line with this hostname. -/
def resolve (ls : List Line) (host : Text) : Option Text :=
  (ls.find? fun l => l.isActive ∧ host ∈ l.hostnames).map (·.ip)

/-- Line by line: an active line keeps its hostnames that are not earlier in the file, each once,
and goes if there are none. -/
inductive KeepsFirst : (earlier : List Text) → (before after : List Line) → Prop where
  | nil (earlier : List Text) : KeepsFirst earlier [] []
  | inactive {earlier : List Text} {l : Line} {before after : List Line}
      (hinactive : l.isActive = false) (rest : KeepsFirst earlier before after) :
      KeepsFirst earlier (l :: before) (l :: after)
  | dropped {earlier : List Text} {l : Line} {before after : List Line}
      (hactive : l.isActive = true) (hall : ∀ host ∈ l.hostnames, host ∈ earlier)
      (rest : KeepsFirst (earlier ++ l.hostnames) before after) :
      KeepsFirst earlier (l :: before) after
  | kept {earlier : List Text} {l l' : Line} {before after : List Line}
      (hactive : l.isActive = true) (hactive' : l'.isActive = true) (hip : l'.ip = l.ip)
      (hnames : l'.hostnames = (l.hostnames.filter (· ∉ earlier)).eraseDups)
      (hsome : l'.hostnames ≠ []) (rest : KeepsFirst (earlier ++ l.hostnames) before after) :
      KeepsFirst earlier (l :: before) (l' :: after)

section Passes

variable {l : Line} {hosts hosts' seen : List Text} {ls : List Line}

theorem Line.shrink_hostnames (h : hosts.Sublist l.hostnames) :
    (l.shrink hosts).hostnames = hosts := by
  unfold Line.shrink
  split
  · next hlen => exact (h.eq_of_length hlen).symm
  · rfl

@[simp]
theorem Line.shrink_ip (l : Line) (hosts : List Text) : (l.shrink hosts).ip = l.ip := by
  unfold Line.shrink
  split
  · rfl
  · rfl

@[simp]
theorem Line.shrink_isActive (l : Line) (hosts : List Text) :
    (l.shrink hosts).isActive = l.isActive := by
  unfold Line.shrink
  split
  · rfl
  · rfl

theorem Line.shrink_shrink (h : hosts'.Sublist hosts) (h' : hosts.Sublist l.hostnames) :
    (l.shrink hosts).shrink hosts' = l.shrink hosts' := by
  by_cases hlen : hosts.length = l.hostnames.length
  · have hself : l.shrink hosts = l := if_pos hlen
    rw [hself]
  · have hshorter : hosts'.length ≠ l.hostnames.length := by
      have hle := h.length_le
      have hle' := h'.length_le
      omega
    have hfirst : l.shrink hosts = l.rewrite hosts := if_neg hlen
    have hboth : l.shrink hosts' = l.rewrite hosts' := if_neg hshorter
    rw [hfirst, hboth]
    by_cases hlen' : hosts'.length = hosts.length
    · have hself : (l.rewrite hosts).shrink hosts' = l.rewrite hosts := if_pos hlen'
      rw [hself, h.eq_of_length hlen']
    · exact if_neg hlen'

theorem uniqueAcross_uniqueInLine (seen : List Text) (l : Line) :
    uniqueAcross seen (uniqueInLine l) = uniqueAcross seen l := by
  by_cases hactive : l.isActive = true
  · have hline : uniqueInLine l = l.shrink (unseen [] l.hostnames) := if_pos hactive
    have hactive' : (l.shrink (unseen [] l.hostnames)).isActive = true :=
      (l.shrink_isActive _).trans hactive
    have hnames : unseen seen (unseen [] l.hostnames) = unseen seen l.hostnames :=
      unseen_unseen (fun _ hw => absurd hw List.not_mem_nil) _
    have hsub : (unseen seen l.hostnames).Sublist (unseen [] l.hostnames) :=
      hnames ▸ unseen_sublist seen _
    unfold uniqueAcross
    rw [hline, if_pos hactive', if_pos hactive, Line.shrink_hostnames (unseen_sublist [] _), hnames,
      Line.shrink_shrink hsub (unseen_sublist [] _)]
  · have hline : uniqueInLine l = l := if_neg hactive
    rw [hline]

theorem rebuildLines_uniqueAcross_map (seen : List Text) (ls : List Line) :
    rebuildLines uniqueAcross seen (ls.map uniqueInLine) = rebuildLines uniqueAcross seen ls := by
  induction ls generalizing seen with
  | nil => rfl
  | cons l ls ih =>
    rw [List.map_cons, rebuildLines, uniqueAcross_uniqueInLine, ih]
    rfl

theorem keepsFirst_rebuildLines {earlier : List Text} (hseen : ∀ w, w ∈ seen ↔ w ∈ earlier)
    (ls : List Line) : KeepsFirst earlier ls (rebuildLines uniqueAcross seen ls).2 := by
  induction ls generalizing seen earlier with
  | nil => exact .nil earlier
  | cons l ls ih =>
    by_cases hactive : l.isActive = true
    · have hnext : ∀ w, w ∈ seen ++ unseen seen l.hostnames ↔ w ∈ earlier ++ l.hostnames := by
        intro w
        rw [List.mem_append, List.mem_append, mem_unseen, hseen]
        refine ⟨fun h => h.imp_right And.left, ?_⟩
        rintro (h | h)
        · exact Or.inl h
        · by_cases hearlier : w ∈ earlier
          · exact Or.inl hearlier
          · exact Or.inr ⟨h, hearlier⟩
      by_cases hnone : unseen seen l.hostnames = []
      · have hturn : uniqueAcross seen l = (seen ++ unseen seen l.hostnames, []) := by
          unfold uniqueAcross
          rw [if_pos hactive, if_pos hnone]
        have hall : ∀ host ∈ l.hostnames, host ∈ earlier := by
          intro host hhost
          by_contra hnew
          have hmem : host ∈ unseen seen l.hostnames :=
            mem_unseen.mpr ⟨hhost, fun h => hnew ((hseen host).mp h)⟩
          rw [hnone] at hmem
          cases hmem
        rw [rebuildLines, hturn]
        exact .dropped hactive hall (ih hnext)
      · have hturn : uniqueAcross seen l =
            (seen ++ unseen seen l.hostnames, [l.shrink (unseen seen l.hostnames)]) := by
          unfold uniqueAcross
          rw [if_pos hactive, if_neg hnone]
        have hnames := Line.shrink_hostnames (unseen_sublist seen l.hostnames)
        rw [rebuildLines, hturn]
        refine .kept hactive ((l.shrink_isActive _).trans hactive) (l.shrink_ip _) ?_ ?_ (ih hnext)
        · rw [hnames, unseen_congr hseen, unseen_eq]
        · rw [hnames]
          exact hnone
    · have hturn : uniqueAcross seen l = (seen, [l]) := if_neg hactive
      rw [rebuildLines, hturn]
      exact .inactive (Bool.not_eq_true _ ▸ hactive) (ih hseen)

/-- **The two passes keep first occurrences.** -/
theorem keepsFirst_deduplicated (ls : List Line) : KeepsFirst [] ls (deduplicated ls) := by
  unfold deduplicated
  rw [rebuildLines_uniqueAcross_map]
  exact keepsFirst_rebuildLines (fun _ => Iff.rfl) ls

end Passes

theorem namesOf_cons (l : Line) (ls : List Line) :
    namesOf (l :: ls) = (if l.isActive then l.hostnames else []) ++ namesOf ls := by
  unfold namesOf
  by_cases hactive : l.isActive = true
  · rw [List.filter_cons_of_pos hactive, if_pos hactive, List.flatMap_cons]
  · rw [List.filter_cons_of_neg hactive, if_neg hactive, List.nil_append]

theorem mem_namesOf {ls : List Line} {host : Text} :
    host ∈ namesOf ls ↔ ∃ ip, Paired ls ip host := by
  unfold namesOf
  rw [List.mem_flatMap]
  constructor
  · rintro ⟨l, hl, hhost⟩
    obtain ⟨hmem, hactive⟩ := List.mem_filter.mp hl
    exact ⟨l.ip, l, hmem, hactive, rfl, hhost⟩
  · rintro ⟨-, l, hl, hactive, -, hhost⟩
    exact ⟨l, List.mem_filter.mpr ⟨hl, hactive⟩, hhost⟩

theorem resolve_cons_of_pos {l : Line} {ls : List Line} {host : Text}
    (h : l.isActive = true ∧ host ∈ l.hostnames) : resolve (l :: ls) host = some l.ip := by
  unfold resolve
  rw [List.find?_cons, decide_eq_true h]
  rfl

theorem resolve_cons_of_neg {l : Line} {ls : List Line} {host : Text}
    (h : ¬ (l.isActive = true ∧ host ∈ l.hostnames)) :
    resolve (l :: ls) host = resolve ls host := by
  unfold resolve
  rw [List.find?_cons, decide_eq_false h]

theorem inactiveLines_cons (l : Line) (ls : List Line) :
    inactiveLines (l :: ls) = if l.isActive then inactiveLines ls else l :: inactiveLines ls := by
  unfold inactiveLines
  by_cases hactive : l.isActive = true
  · rw [List.filter_cons_of_neg (by rw [hactive]; exact Bool.false_ne_true), if_pos hactive]
  · rw [List.filter_cons_of_pos (by rw [Bool.eq_false_iff.mpr hactive]; rfl), if_neg hactive]

namespace KeepsFirst

variable {earlier : List Text} {before after : List Line} {ip host : Text}

section

variable (h : KeepsFirst earlier before after)
include h

theorem namesOf_eq : namesOf after = unseen earlier (namesOf before) := by
  induction h with
  | nil earlier => rfl
  | @inactive earlier l before after hinactive rest ih =>
    have hskip : ¬ l.isActive = true := by rw [hinactive]; exact Bool.false_ne_true
    rw [namesOf_cons, namesOf_cons, if_neg hskip, ih]
    rfl
  | @dropped earlier l before after hactive hall rest ih =>
    have hnone : unseen earlier l.hostnames = [] := by
      refine List.eq_nil_iff_forall_not_mem.mpr fun host hhost => ?_
      obtain ⟨hmem, hnew⟩ := mem_unseen.mp hhost
      exact hnew (hall host hmem)
    rw [namesOf_cons, if_pos hactive, unseen_append, hnone, ih]
    rfl
  | @kept earlier l l' before after hactive hactive' hip hnames hsome rest ih =>
    rw [namesOf_cons, namesOf_cons, if_pos hactive, if_pos hactive', unseen_append, ih, hnames,
      unseen_eq earlier]

theorem resolve_eq (hnew : host ∉ earlier) : resolve after host = resolve before host := by
  induction h with
  | nil earlier => rfl
  | @inactive earlier l before after hinactive rest ih =>
    have hmiss : ¬ (l.isActive = true ∧ host ∈ l.hostnames) := by
      rintro ⟨hactive, -⟩
      rw [hinactive] at hactive
      cases hactive
    rw [resolve_cons_of_neg hmiss, resolve_cons_of_neg hmiss, ih hnew]
  | @dropped earlier l before after hactive hall rest ih =>
    have hmiss : host ∉ l.hostnames := fun hhost => hnew (hall host hhost)
    have hnew' : host ∉ earlier ++ l.hostnames := by
      rw [List.mem_append, not_or]
      exact ⟨hnew, hmiss⟩
    rw [resolve_cons_of_neg fun hhit => hmiss hhit.2, ih hnew']
  | @kept earlier l l' before after hactive hactive' hip hnames hsome rest ih =>
    have hmem : host ∈ l'.hostnames ↔ host ∈ l.hostnames := by
      rw [hnames, List.mem_eraseDups, List.mem_filter]
      exact ⟨And.left, fun hhost => ⟨hhost, decide_eq_true hnew⟩⟩
    by_cases hhost : host ∈ l.hostnames
    · rw [resolve_cons_of_pos ⟨hactive, hhost⟩, resolve_cons_of_pos ⟨hactive', hmem.mpr hhost⟩, hip]
    · have hnew' : host ∉ earlier ++ l.hostnames := by
        rw [List.mem_append, not_or]
        exact ⟨hnew, hhost⟩
      rw [resolve_cons_of_neg fun hhit => hhost hhit.2,
        resolve_cons_of_neg fun hhit => hhost (hmem.mp hhit.2), ih hnew']

theorem inactiveLines_eq : inactiveLines after = inactiveLines before := by
  induction h with
  | nil earlier => rfl
  | inactive hinactive rest ih =>
    rw [inactiveLines_cons, inactiveLines_cons, ih]
  | dropped hactive hall rest ih => rw [inactiveLines_cons, if_pos hactive, ih]
  | kept hactive hactive' hip hnames hsome rest ih =>
    rw [inactiveLines_cons, inactiveLines_cons, if_pos hactive, if_pos hactive', ih]

theorem ne_nil : ∀ l ∈ after, l.isActive = true → l.hostnames ≠ [] := by
  induction h with
  | nil earlier => exact fun _ hl => absurd hl List.not_mem_nil
  | inactive hinactive rest ih =>
    refine List.forall_mem_cons.mpr ⟨fun hactive => ?_, ih⟩
    rw [hinactive] at hactive
    cases hactive
  | dropped hactive hall rest ih => exact ih
  | kept hactive hactive' hip hnames hsome rest ih =>
    exact List.forall_mem_cons.mpr ⟨fun _ => hsome, ih⟩

theorem activeIPs_sublist : (activeIPs after).Sublist (activeIPs before) := by
  induction h with
  | nil earlier => exact .slnil
  | inactive hinactive rest ih =>
    have hskip : ¬ _ = true := Bool.eq_false_iff.mp hinactive
    rw [activeIPs_cons, activeIPs_cons, if_neg hskip, if_neg hskip]
    exact ih
  | dropped hactive hall rest ih =>
    rw [activeIPs_cons, if_pos hactive]
    exact ih.cons _
  | kept hactive hactive' hip hnames hsome rest ih =>
    rw [activeIPs_cons, activeIPs_cons, if_pos hactive, if_pos hactive', hip]
    exact ih.cons_cons _

theorem paired (hpair : Paired after ip host) : Paired before ip host := by
  have hlater : ∀ {l : Line} {ls : List Line}, Paired ls ip host → Paired (l :: ls) ip host := by
    rintro l ls ⟨l', hl', hpair⟩
    exact ⟨l', List.mem_cons_of_mem _ hl', hpair⟩
  induction h with
  | nil earlier => exact hpair
  | inactive hinactive rest ih =>
    obtain ⟨l', hl', hactive, hip, hhost⟩ := hpair
    rcases List.mem_cons.mp hl' with rfl | hl'
    · rw [hinactive] at hactive
      cases hactive
    · exact hlater (ih ⟨l', hl', hactive, hip, hhost⟩)
  | dropped hactive hall rest ih => exact hlater (ih hpair)
  | kept hactive hactive' hip hnames hsome rest ih =>
    obtain ⟨l', hl', hactive'', hip', hhost⟩ := hpair
    rcases List.mem_cons.mp hl' with rfl | hl'
    · rw [hnames, List.mem_eraseDups, List.mem_filter] at hhost
      exact ⟨_, List.mem_cons_self, hactive, hip.symm.trans hip', hhost.1⟩
    · exact hlater (ih ⟨l', hl', hactive'', hip', hhost⟩)

end

end KeepsFirst

/-- What `RemoveDuplicateHosts` does to the lines. -/
structure FirstOccurrences (before after : List Line) : Prop where
  lines : KeepsFirst [] before after
  once : ∀ host ∈ namesOf before, (namesOf after).count host = 1
  order : namesOf after = (namesOf before).eraseDups
  firstMatch : ∀ host, resolve after host = resolve before host
  nonempty : ∀ l ∈ after, l.isActive = true → l.hostnames ≠ []
  inactive : inactiveLines after = inactiveLines before

/-- **`RemoveDuplicateHosts` keeps exactly the first occurrences.**
GOLINE: syshosts/extents.go:22-109 -/
theorem first_occurrences (s : State) :
    FirstOccurrences s.hosts.lines (removeDuplicateHosts s.hosts).lines := by
  rw [(removeDuplicateHosts_turn s.inMemory).2]
  have hkeeps := keepsFirst_deduplicated s.hosts.lines
  refine ⟨hkeeps, fun host hhost => ?_, ?_, fun host => hkeeps.resolve_eq List.not_mem_nil,
    hkeeps.ne_nil, hkeeps.inactiveLines_eq⟩
  · rw [hkeeps.namesOf_eq]
    exact List.count_eq_one_of_mem (nodup_unseen _ _) (mem_unseen.mpr ⟨hhost, List.not_mem_nil⟩)
  · rw [hkeeps.namesOf_eq, unseen_eq]
    simp

/-! ## Combining -/

section Combined

variable {seen : List Text} {ls : List Line} {ip host : Text}

theorem mem_namesFor : host ∈ namesFor ip ls ↔ Paired ls ip host := by
  unfold namesFor
  rw [List.mem_flatMap]
  constructor
  · rintro ⟨l, hl, hhost⟩
    obtain ⟨hmem, htest⟩ := List.mem_filter.mp hl
    obtain ⟨hactive, hip⟩ := of_decide_eq_true htest
    exact ⟨l, hmem, hactive, hip, hhost⟩
  · rintro ⟨l, hl, hactive, hip, hhost⟩
    exact ⟨l, List.mem_filter.mpr ⟨hl, decide_eq_true ⟨hactive, hip⟩⟩, hhost⟩

theorem mem_activeIPs : ip ∈ activeIPs ls ↔ ∃ l ∈ ls, l.isActive = true ∧ l.ip = ip := by
  unfold activeIPs
  rw [List.mem_map]
  constructor
  · rintro ⟨l, hl, hip⟩
    exact ⟨l, (List.mem_filter.mp hl).1, (List.mem_filter.mp hl).2, hip⟩
  · rintro ⟨l, hl, hactive, hip⟩
    exact ⟨l, List.mem_filter.mpr ⟨hl, hactive⟩, hip⟩

theorem Paired.mem_activeIPs (h : Paired ls ip host) : ip ∈ activeIPs ls := by
  obtain ⟨l, hl, hactive, hip, -⟩ := h
  exact Syshosts.mem_activeIPs.mpr ⟨l, hl, hactive, hip⟩

theorem activeIPs_firstOfIP (seen : List Text) (ls : List Line) :
    activeIPs (firstOfIP seen ls) = unseen seen (activeIPs ls) := by
  induction ls generalizing seen with
  | nil => rfl
  | cons l ls ih =>
    unfold firstOfIP
    by_cases hactive : l.isActive = true
    · rw [if_pos hactive, activeIPs_cons, if_pos hactive, unseen_cons]
      split
      · exact ih seen
      · rw [activeIPs_cons, if_pos hactive, ih]
    · rw [if_neg hactive, activeIPs_cons, if_neg hactive, activeIPs_cons, if_neg hactive, ih]

theorem inactiveLines_firstOfIP (seen : List Text) (ls : List Line) :
    inactiveLines (firstOfIP seen ls) = inactiveLines ls := by
  induction ls generalizing seen with
  | nil => rfl
  | cons l ls ih =>
    unfold firstOfIP
    rw [inactiveLines_cons l ls]
    by_cases hactive : l.isActive = true
    · rw [if_pos hactive, if_pos hactive]
      split
      · exact ih seen
      · rw [inactiveLines_cons, if_pos hactive, ih]
    · rw [if_neg hactive, inactiveLines_cons, ih]

variable {all : List Line}

@[simp]
theorem combineLine_ip (all : List Line) (l : Line) : (combineLine all l).ip = l.ip := by
  unfold combineLine
  split
  · rfl
  · rfl

@[simp]
theorem combineLine_isActive (all : List Line) (l : Line) :
    (combineLine all l).isActive = l.isActive := by
  unfold combineLine
  split
  · rfl
  · rfl

theorem combineLine_hostnames {l : Line} (hactive : l.isActive = true) :
    (combineLine all l).hostnames = unseen [] (namesFor l.ip all) := by
  unfold combineLine
  rw [if_pos hactive]
  rfl

theorem activeIPs_combineLine (all ls : List Line) :
    activeIPs (ls.map (combineLine all)) = activeIPs ls := by
  induction ls with
  | nil => rfl
  | cons l ls ih =>
    rw [List.map_cons, activeIPs_cons, activeIPs_cons, combineLine_isActive, combineLine_ip, ih]

theorem inactiveLines_combineLine (all ls : List Line) :
    inactiveLines (ls.map (combineLine all)) = inactiveLines ls := by
  induction ls with
  | nil => rfl
  | cons l ls ih =>
    rw [List.map_cons, inactiveLines_cons, inactiveLines_cons, combineLine_isActive, ih]
    by_cases hactive : l.isActive = true
    · rw [if_pos hactive, if_pos hactive]
    · have hself : combineLine all l = l := if_neg hactive
      rw [hself]

theorem activeIPs_combined (ls : List Line) :
    activeIPs (combined ls) = unseen [] (activeIPs ls) := by
  unfold combined
  split
  · next hnodup => exact (unseen_eq_self hnodup fun _ _ => List.not_mem_nil).symm
  · rw [activeIPs_combineLine, activeIPs_firstOfIP]

theorem inactiveLines_combined (ls : List Line) :
    inactiveLines (combined ls) = inactiveLines ls := by
  unfold combined
  split
  · rfl
  · rw [inactiveLines_combineLine, inactiveLines_firstOfIP]

theorem paired_combined : Paired (combined ls) ip host ↔ Paired ls ip host := by
  unfold combined
  split
  · rfl
  · constructor
    · rintro ⟨l', hl', hactive, rfl, hhost⟩
      obtain ⟨l, -, rfl⟩ := List.mem_map.mp hl'
      rw [combineLine_isActive] at hactive
      rw [combineLine_hostnames hactive] at hhost
      rw [combineLine_ip]
      exact mem_namesFor.mp (mem_unseen.mp hhost).1
    · intro hpair
      have hip : ip ∈ activeIPs (firstOfIP [] ls) := by
        rw [activeIPs_firstOfIP]
        exact mem_unseen.mpr ⟨hpair.mem_activeIPs, List.not_mem_nil⟩
      obtain ⟨l, hl, hactive, rfl⟩ := mem_activeIPs.mp hip
      refine ⟨combineLine ls l, List.mem_map_of_mem hl, (combineLine_isActive ls l).trans hactive,
        combineLine_ip ls l, ?_⟩
      rw [combineLine_hostnames hactive]
      exact mem_unseen.mpr ⟨mem_namesFor.mpr hpair, List.not_mem_nil⟩

end Combined

/-! ## `Clean` -/

theorem lines_removeEmptyActiveEntriesInternal {h : Hosts} (hin : InMemory h.arrays h.entries) :
    (removeEmptyActiveEntriesInternal h).lines =
      h.lines.filter fun l => ¬ (l.isActive ∧ l.hostnames = []) := by
  unfold Hosts.lines removeEmptyActiveEntriesInternal
  rw [List.filter_map]
  refine congrArg _ (List.filter_congr fun e he => decide_eq_decide.mpr ?_)
  have hlen := (hin e he).length_read
  show ¬ (e.isActive = true ∧ e.hostnames.len = 0) ↔
    ¬ (e.isActive = true ∧ e.hostnames.read h.arrays = [])
  rw [← hlen, List.length_eq_zero_iff]

theorem lines_clean {h : Hosts} (hin : InMemory h.arrays h.entries) :
    (clean h).lines = deduplicated (combined h.lines) := by
  obtain ⟨hcombinedIn, hcombined⟩ := combineDuplicateIPs_turn hin
  obtain ⟨huniqueIn, hunique⟩ := removeDuplicateHosts_turn hcombinedIn
  have hkeeps := keepsFirst_deduplicated (combined h.lines)
  unfold clean
  rw [lines_removeEmptyActiveEntriesInternal huniqueIn, hunique, hcombined]
  refine List.filter_eq_self.mpr fun l hl => decide_eq_true ?_
  rintro ⟨hactive, hnone⟩
  exact hkeeps.ne_nil l hl hactive hnone

/-- Nothing is left to combine or to remove. -/
structure Normal (ls : List Line) : Prop where
  ips : (activeIPs ls).Nodup
  names : (namesOf ls).Nodup
  nonempty : ∀ l ∈ ls, l.isActive = true → l.hostnames ≠ []

theorem normal_clean {h : Hosts} (hin : InMemory h.arrays h.entries) : Normal (clean h).lines := by
  have hkeeps := keepsFirst_deduplicated (combined h.lines)
  rw [lines_clean hin]
  refine ⟨hkeeps.activeIPs_sublist.nodup ?_, ?_, hkeeps.ne_nil⟩
  · rw [activeIPs_combined]
    exact nodup_unseen _ _
  · rw [hkeeps.namesOf_eq]
    exact nodup_unseen _ _

section Normal

variable {h : Hosts} {m : Arrays Text} {es : List HostEntry}

theorem combineDuplicateIPs_eq_self (hn : Normal h.lines) : combineDuplicateIPs h = h := by
  have hmodified : (combineLoop h.arrays h.entries ∅ [] false).2.2 = false :=
    combineLoop_modified.mpr ⟨rfl, hn.ips, fun ip _ => AList.notMem_empty ip⟩
  simp only [combineDuplicateIPs]
  rw [if_pos (Bool.eq_false_iff.mp hmodified)]

theorem uniqueInLine_eq_self (hn : Normal (es.map (HostEntry.line m))) :
    (rebuild uniqueInLineStep m () es).1 = m ∧ (rebuild uniqueInLineStep m () es).2.2 = es := by
  refine rebuild_eq_self (P := fun _ es => (namesOf (es.map (HostEntry.line m))).Nodup)
    (fun st e es hnodup => ⟨(), ?_, ?_⟩) hn.names
  · simp only [uniqueInLineStep]
    split
    · rfl
    · next hskip =>
      have hactive : (e.line m).isActive = true :=
        not_not.mp fun hinactive => hskip (.inl hinactive)
      rw [List.map_cons, namesOf_cons, if_pos hactive] at hnodup
      have hself : unseen [] (e.hostnames.read m) = e.hostnames.read m :=
        unseen_eq_self (List.nodup_append.mp hnodup).1 fun _ _ => List.not_mem_nil
      rw [hself, if_pos rfl]
  · rw [List.map_cons, namesOf_cons] at hnodup
    exact (List.nodup_append.mp hnodup).2.1

theorem uniqueAcross_eq_self (hn : Normal (es.map (HostEntry.line m))) :
    (rebuild uniqueAcrossStep m [] es).1 = m ∧ (rebuild uniqueAcrossStep m [] es).2.2 = es := by
  refine rebuild_eq_self (P := fun seen es => (namesOf (es.map (HostEntry.line m))).Nodup ∧
      (∀ w ∈ namesOf (es.map (HostEntry.line m)), w ∉ seen) ∧
      ∀ l ∈ es.map (HostEntry.line m), l.isActive = true → l.hostnames ≠ []) ?_
    ⟨hn.names, fun _ _ => List.not_mem_nil, hn.nonempty⟩
  rintro seen e es ⟨hnodup, hnew, hsome⟩
  rw [List.map_cons] at hnodup hnew hsome
  rw [namesOf_cons] at hnodup hnew
  obtain ⟨hhere, hrest, hapart⟩ := List.nodup_append.mp hnodup
  obtain ⟨hsome, hsomeRest⟩ := List.forall_mem_cons.mp hsome
  obtain ⟨hnewHere, hnewRest⟩ := List.forall_mem_append.mp hnew
  by_cases hactive : (e.line m).isActive = true
  · rw [if_pos hactive] at hhere hnewHere hapart
    have hself : unseen seen (e.hostnames.read m) = e.hostnames.read m :=
      unseen_eq_self hhere hnewHere
    refine ⟨seen ++ e.hostnames.read m, ?_, hrest, ?_, hsomeRest⟩
    · have hne : e.hostnames.read m ≠ [] := hsome hactive
      have hactive' : e.isActive = true := hactive
      simp only [uniqueAcrossStep]
      rw [if_neg (not_not.mpr hactive'), hself, if_neg hne, if_pos rfl]
    · intro w hw hseen
      rcases List.mem_append.mp hseen with hseen | hseen
      · exact hnewRest w hw hseen
      · exact hapart w hseen w hw rfl
  · exact ⟨seen, if_pos hactive, hrest, hnewRest, hsomeRest⟩

theorem removeDuplicateHosts_eq_self (hn : Normal h.lines) : removeDuplicateHosts h = h := by
  obtain ⟨hm, hes⟩ := uniqueInLine_eq_self hn
  obtain ⟨hm', hes'⟩ := uniqueAcross_eq_self hn
  simp only [removeDuplicateHosts]
  rw [hm, hes, hm', hes']

theorem clean_eq_self (hin : InMemory h.arrays h.entries) (hn : Normal h.lines) : clean h = h := by
  have hkept : ∀ e ∈ h.entries, ¬ (e.isActive = true ∧ e.hostnames.len = 0) := by
    rintro e he ⟨hactive, hlen⟩
    refine hn.nonempty _ (List.mem_map_of_mem he) hactive (List.length_eq_zero_iff.mp ?_)
    exact (hin e he).length_read.trans hlen
  unfold clean
  rw [combineDuplicateIPs_eq_self hn, removeDuplicateHosts_eq_self hn]
  unfold removeEmptyActiveEntriesInternal
  rw [List.filter_eq_self.mpr fun e he => decide_eq_true (hkept e he)]

end Normal

/-- The lines are normal, and no hostname and no comment is lost or added. -/
structure Normalised (before after : List Line) : Prop where
  normal : Normal after
  kept : ∀ host ∈ namesOf before, ∃ ip, Paired after ip host ∧ Paired before ip host
  noNew : ∀ ip host, Paired after ip host → Paired before ip host
  inactive : inactiveLines after = inactiveLines before

/-- **`Clean` normalises without losing names**, and a second `Clean` changes nothing.
GOLINE: syshosts/extents.go:250-404 -/
theorem clean_normalises (s : State) :
    Normalised s.hosts.lines (clean s.hosts).lines ∧ clean (clean s.hosts) = clean s.hosts := by
  have hkeeps := keepsFirst_deduplicated (combined s.hosts.lines)
  have hlines := lines_clean s.inMemory
  have hnoNew : ∀ ip host, Paired (clean s.hosts).lines ip host → Paired s.hosts.lines ip host := by
    intro ip host hpair
    rw [hlines] at hpair
    exact paired_combined.mp (hkeeps.paired hpair)
  refine ⟨⟨normal_clean s.inMemory, fun host hhost => ?_, hnoNew, ?_⟩,
    clean_eq_self s.inMemory.clean (normal_clean s.inMemory)⟩
  · obtain ⟨ip, hpair⟩ := mem_namesOf.mp hhost
    have hcombined : host ∈ namesOf (combined s.hosts.lines) :=
      mem_namesOf.mpr ⟨ip, paired_combined.mpr hpair⟩
    have hclean : host ∈ namesOf (clean s.hosts).lines := by
      rw [hlines, hkeeps.namesOf_eq]
      exact mem_unseen.mpr ⟨hcombined, List.not_mem_nil⟩
    obtain ⟨ip', hpair'⟩ := mem_namesOf.mp hclean
    exact ⟨ip', hpair', hnoNew ip' host hpair'⟩
  · rw [hlines, hkeeps.inactiveLines_eq, inactiveLines_combined]

/-! ## Name resolution -/

instance (ls : List Line) (ip host : Text) : Decidable (Paired ls ip host) :=
  inferInstanceAs (Decidable (∃ l ∈ ls, _))

section Resolution

variable {ls : List Line} {host : Text}

theorem resolve_of_nodup (h : (activeIPs ls).Nodup) (host : Text) :
    resolve ls host = (activeIPs ls).find? fun ip => Paired ls ip host := by
  have hsame : ∀ l ∈ ls, l.isActive = true → (Paired ls l.ip host ↔ host ∈ l.hostnames) := by
    intro l hl hactive
    constructor
    · rintro ⟨l', hl', hactive', hip, hhost⟩
      have heq : l' = l := List.inj_on_of_nodup_map h (List.mem_filter.mpr ⟨hl', hactive'⟩)
        (List.mem_filter.mpr ⟨hl, hactive⟩) hip
      exact heq ▸ hhost
    · exact fun hhost => ⟨l, hl, hactive, rfl, hhost⟩
  unfold resolve activeIPs
  rw [List.find?_map, List.find?_filter]
  refine congrArg _ (List.find?_congr fun l hl => decide_eq_decide.mpr ?_)
  rw [Function.comp_apply, decide_eq_true_eq]
  exact and_congr_right fun hactive => (hsame l hl hactive).symm

theorem resolve_clean {h : Hosts} (hin : InMemory h.arrays h.entries) (host : Text) :
    resolve (clean h).lines host = (activeIPs h.lines).find? fun ip => Paired h.lines ip host := by
  have hkeeps := keepsFirst_deduplicated (combined h.lines)
  have hnodup : (activeIPs (combined h.lines)).Nodup := by
    rw [activeIPs_combined]
    exact nodup_unseen _ _
  rw [lines_clean hin, hkeeps.resolve_eq List.not_mem_nil, resolve_of_nodup hnodup,
    activeIPs_combined, find?_unseen fun _ hw => absurd hw List.not_mem_nil]
  congr 1
  funext ip
  exact decide_eq_decide.mpr paired_combined

theorem find?_eq_some_iff_idxOf {ips : List Text} {p : Text → Bool} {ip : Text}
    (hp : ∀ ip, p ip = true → ip ∈ ips) :
    ips.find? p = some ip ↔ p ip = true ∧ ∀ ip', p ip' = true → ips.idxOf ip ≤ ips.idxOf ip' := by
  have hfirst : ∀ {ip}, ips.find? p = some ip →
      p ip = true ∧ ∀ ip', p ip' = true → ips.idxOf ip ≤ ips.idxOf ip' := by
    intro ip hfind
    obtain ⟨hip, front, back, rfl, hfront⟩ := List.find?_eq_some_iff_append.mp hfind
    have hout : ∀ ip', p ip' = true → ip' ∉ front := by
      intro ip' hip' hmem
      have hfails := hfront ip' hmem
      rw [hip'] at hfails
      cases hfails
    refine ⟨hip, fun ip' hip' => ?_⟩
    rw [List.idxOf_append_of_notMem (hout ip hip), List.idxOf_append_of_notMem (hout ip' hip'),
      List.idxOf_cons_self]
    exact Nat.le_add_right _ _
  refine ⟨hfirst, ?_⟩
  rintro ⟨hip, hearliest⟩
  obtain ⟨ip', hfind⟩ := Option.isSome_iff_exists.mp (List.find?_isSome.mpr ⟨ip, hp ip hip, hip⟩)
  obtain ⟨hip', hearliest'⟩ := hfirst hfind
  have heq : ip = ip' := (List.idxOf_inj (hp ip hip)).mp
    (Nat.le_antisymm (hearliest ip' hip') (hearliest' ip hip))
  rw [hfind, heq]

theorem paired_of_resolve {ip : Text} (h : resolve ls host = some ip) : Paired ls ip host := by
  unfold resolve at h
  obtain ⟨l, hfind, rfl⟩ := Option.map_eq_some_iff.mp h
  have htest := List.find?_some hfind
  obtain ⟨hactive, hhost⟩ := of_decide_eq_true htest
  exact ⟨l, List.mem_of_find?_eq_some hfind, hactive, rfl, hhost⟩

/-- **After `Clean` a hostname resolves to the IP whose first line comes earliest**, of all the IPs
it was paired with; so it resolves as before if and only if that is the IP of the first line
that had the hostname.
GOLINE: syshosts/extents.go:250-404 -/
theorem clean_resolution (s : State) (host ip : Text)
    (hbefore : resolve s.hosts.lines host = some ip) :
    (resolve (clean s.hosts).lines host =
      (activeIPs s.hosts.lines).find? fun ip' => Paired s.hosts.lines ip' host) ∧
    (resolve (clean s.hosts).lines host = some ip ↔
      ∀ ip', Paired s.hosts.lines ip' host →
        (activeIPs s.hosts.lines).idxOf ip ≤ (activeIPs s.hosts.lines).idxOf ip') := by
  have hafter := resolve_clean s.inMemory host
  have hlisted : ∀ ip', decide (Paired s.hosts.lines ip' host) = true →
      ip' ∈ activeIPs s.hosts.lines := fun ip' hpair => (of_decide_eq_true hpair).mem_activeIPs
  refine ⟨hafter, ?_⟩
  rw [hafter, find?_eq_some_iff_idxOf hlisted]
  constructor
  · rintro ⟨-, hearliest⟩ ip' hpair
    exact hearliest ip' (decide_eq_true hpair)
  · intro hearliest
    exact ⟨decide_eq_true (paired_of_resolve hbefore),
      fun ip' hpair => hearliest ip' (of_decide_eq_true hpair)⟩

end Resolution

namespace Sample

def sharedHost : Text := ofString "h"

/-- A hostname with two IPs; the second line of `1.1.1.1` comes last. -/
def shared : State :=
  State.loaded [ofString "1.1.1.1 a", ofString "2.2.2.2 h", ofString "1.1.1.1 h"]

end Sample

open Syshosts.Sample in
theorem clean_resolution_shared :
    resolve shared.hosts.lines sharedHost = some (ofString "2.2.2.2") ∧
      (resolve (clean shared.hosts).lines sharedHost =
        (activeIPs shared.hosts.lines).find? fun ip =>
          Paired shared.hosts.lines ip sharedHost) := by
  have hbefore : resolve shared.hosts.lines sharedHost = some (ofString "2.2.2.2") := by
    decide +kernel
  exact ⟨hbefore, (clean_resolution shared sharedHost _ hbefore).1⟩

open Syshosts.Sample in
/-- The hostname moves to the first line of the other IP. -/
theorem clean_moves_hostname :
    resolve shared.hosts.lines sharedHost = some (ofString "2.2.2.2") ∧
      resolve (clean shared.hosts).lines sharedHost = some (ofString "1.1.1.1") := by
  decide +kernel

end N2nGo.Syshosts
