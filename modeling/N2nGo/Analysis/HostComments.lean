import N2nGo.Analysis.HostText
import N2nGo.Analysis.HostDuplicates

/-!
# Comments in the hosts file

To the system's resolver a `#` begins a comment, wherever it stands on a line. `parseLine`
sees a comment only where the line begins with it; behind an entry the words of the comment
are hostnames to it, `#` among them, and every operation moves them about. `meaning` is what
the resolver reads. The package agrees with it exactly on the files without a `#` on an
active line, provided that no other line means something either (`respects_iff`).
-/

set_option autoImplicit false

namespace N2nGo.Syshosts

open N2nGo.Lib N2nGo.Lib.Text

/-- A line without its comment. -/
def beforeHash (line : Text) : Text := line.takeWhile (· ≠ hash)

/-- The first field is the IP, the others are hostnames. -/
def pairsOf (line : Text) : List (Text × Text) :=
  match fields (beforeHash line) with
  | [] => []
  | ip :: hosts => hosts.map (ip, ·)

def meaning (lines : List Text) : List (Text × Text) := lines.flatMap pairsOf

section Line

variable {line ip host : Text} {hosts : List Text} {lines : List Text}

theorem mem_pairsOf : (ip, host) ∈ pairsOf line ↔
    ∃ hosts, fields (beforeHash line) = ip :: hosts ∧ host ∈ hosts := by
  unfold pairsOf
  split
  · next hnone => simp [hnone]
  · next ip' hosts hfields =>
    rw [hfields, List.mem_map]
    constructor
    · rintro ⟨host', hhost, heq⟩
      cases heq
      exact ⟨hosts, rfl, hhost⟩
    · rintro ⟨hosts', heq, hhost⟩
      cases heq
      exact ⟨host, hhost, rfl⟩

theorem hash_not_mem_of_mem_pairsOf (h : (ip, host) ∈ pairsOf line) : hash ∉ host := by
  obtain ⟨hosts, hfields, hhost⟩ := mem_pairsOf.mp h
  intro hmem
  have hfield : host ∈ fields (beforeHash line) := by
    rw [hfields]
    exact List.mem_cons_of_mem _ hhost
  have hne := List.mem_takeWhile_imp (mem_of_mem_fields hfield hmem)
  exact of_decide_eq_true hne rfl

theorem word_of_mem_pairsOf (h : (ip, host) ∈ pairsOf line) : Word host := by
  obtain ⟨hosts, hfields, hhost⟩ := mem_pairsOf.mp h
  refine word_of_mem_fields (t := beforeHash line) ?_
  rw [hfields]
  exact List.mem_cons_of_mem _ hhost

theorem fields_of_lineOf (h : lineOf line = some (ip, hosts)) : fields line = ip :: hosts := by
  unfold lineOf at h
  split at h
  · cases h
  · split at h
    · next ip' host hosts' hfields =>
      split at h
      · cases h
        rw [← fields_trimSpace, hfields]
      · cases h
    · cases h

theorem mem_pairsOf_of_lineOf {ip' : Text} (h : lineOf line = some (ip, hosts))
    (hplain : hash ∉ line) : (ip', host) ∈ pairsOf line ↔ ip' = ip ∧ host ∈ hosts := by
  have hself : beforeHash line = line := List.takeWhile_eq_self_iff.mpr fun _ hr =>
    decide_eq_true (ne_of_mem_of_not_mem hr hplain)
  rw [mem_pairsOf, hself, fields_of_lineOf h]
  constructor
  · rintro ⟨hosts', heq, hhost⟩
    cases heq
    exact ⟨rfl, hhost⟩
  · rintro ⟨rfl, hhost⟩
    exact ⟨hosts, rfl, hhost⟩

theorem exists_hash_of_lineOf (h : lineOf line = some (ip, hosts)) (hhash : hash ∈ line) :
    ∃ host ∈ hosts, hash ∈ host := by
  obtain ⟨w, hw, hmem⟩ := exists_mem_fields (by decide) hhash
  rw [fields_of_lineOf h] at hw
  rcases List.mem_cons.mp hw with rfl | hw
  · exact absurd rfl ((word_of_isIP (lineOf_some h).1).2 hash hmem)
  · exact ⟨w, hw, hmem⟩

theorem exists_lineOf_of_mem_pairsOf (hip : isIP ip = true) (h : (ip, host) ∈ pairsOf line) :
    ∃ hosts, lineOf line = some (ip, hosts) := by
  obtain ⟨hosts, hfields, hhost⟩ := mem_pairsOf.mp h
  obtain ⟨host', hosts', rfl⟩ := List.exists_cons_of_ne_nil (List.ne_nil_of_mem hhost)
  have hsplit : beforeHash line ++ line.dropWhile (· ≠ hash) = line :=
    List.takeWhile_append_dropWhile
  -- the first field ends before the `#`, so it is the first field of the whole line
  have hline : ∃ host hosts, fields line = ip :: host :: hosts := by
    obtain ⟨done, cur, hall, hfront⟩ :=
      exists_fieldsLoop_append (beforeHash line) (line.dropWhile (· ≠ hash)) []
    rw [hsplit] at hall
    have hboth : ip :: host' :: hosts' = done ++ fieldsLoop [] cur := hfields.symm.trans hfront
    have hlast : fieldsLoop [] cur = if cur = [] then [] else [cur] := rfl
    rcases done with _ | ⟨ip', _ | ⟨host1, hosts1⟩⟩
    · rw [hlast] at hboth
      split at hboth
      · cases hboth
      · cases hboth
    · have hcur : cur ≠ [] := by
        intro hnil
        rw [hlast, if_pos hnil] at hboth
        cases hboth
      obtain ⟨more, ws, hloop⟩ := exists_fieldsLoop_cons (t := line.dropWhile (· ≠ hash)) hcur
      obtain ⟨rfl, -⟩ := List.cons.inj hboth
      exact ⟨cur ++ more, ws, by rw [fields, hall, hloop]; rfl⟩
    · obtain ⟨rfl, -⟩ := List.cons.inj hboth
      exact ⟨host1, _, hall⟩
  obtain ⟨host1, hosts1, hfields⟩ := hline
  rw [← fields_trimSpace] at hfields
  have hactive : ¬ (trimSpace line = [] ∨ (trimSpace line).head? = some hash) := by
    rintro (hnil | hcomment)
    · rw [hnil] at hfields
      cases hfields
    · have hmem := head_mem_fields hcomment (by decide) hfields
      exact (word_of_isIP hip).2 hash hmem rfl
  refine ⟨host1 :: hosts1, ?_⟩
  unfold lineOf
  rw [if_neg hactive, hfields]
  simp only [hip, if_true]

end Line

/-! ## Files without comments behind entries -/

/-- No active line has a `#`, and no other line means anything. -/
structure PlainLine (line : Text) : Prop where
  active : ∀ ip hosts, lineOf line = some (ip, hosts) → hash ∉ line
  inactive : lineOf line = none → pairsOf line = []

section Plain

variable {lines : List Text} {ip host : Text} {h h' : Hosts}

theorem mem_meaning : (ip, host) ∈ meaning lines ↔ ∃ line ∈ lines, (ip, host) ∈ pairsOf line :=
  List.mem_flatMap

theorem mem_meaning_iff_named (hplain : ∀ line ∈ lines, PlainLine line) :
    (ip, host) ∈ meaning lines ↔ Named lines ip host := by
  rw [mem_meaning]
  constructor
  · rintro ⟨line, hline, hpair⟩
    rcases hparse : lineOf line with _ | ⟨ip', hosts⟩
    · rw [(hplain line hline).inactive hparse] at hpair
      cases hpair
    · obtain ⟨rfl, hhost⟩ := (mem_pairsOf_of_lineOf hparse
        ((hplain line hline).active _ _ hparse)).mp hpair
      exact ⟨line, hline, hosts, hparse, hhost⟩
  · rintro ⟨line, hline, hosts, hparse, hhost⟩
    exact ⟨line, hline, (mem_pairsOf_of_lineOf hparse
      ((hplain line hline).active _ _ hparse)).mpr ⟨rfl, hhost⟩⟩

theorem trimSpace_word {w : Text} (hw : Word w) : trimSpace w = w := by
  obtain ⟨r, hhead⟩ := Option.isSome_iff_exists.mp (List.isSome_head?.mpr hw.ne_nil)
  have hlast := List.getLast?_eq_some_getLast hw.ne_nil
  exact trimSpace_eq_self hhead hlast (hw.solid r (List.mem_of_head? hhead))
    (hw.solid _ (List.getLast_mem hw.ne_nil))

theorem plainLine_of_has (hs : Sound h.arrays h.entries)
    (hhas : ∀ ip host, has h ip host = true ↔ (ip, trimSpace host) ∈ meaning h.raws) :
    ∀ line ∈ h.raws, PlainLine line := by
  have hnamed : ∀ ip host, Word host → (Named h.raws ip host ↔ (ip, host) ∈ meaning h.raws) := by
    intro ip host hword
    have hiff := hhas ip host
    rwa [has_iff_named hs, trimSpace_word hword] at hiff
  intro line hline
  constructor
  · intro ip hosts hparse hhash
    obtain ⟨host, hhost, hmem⟩ := exists_hash_of_lineOf hparse hhash
    have hpair : Named h.raws ip host := ⟨line, hline, hosts, hparse, hhost⟩
    obtain ⟨line', -, hpair'⟩ := mem_meaning.mp ((hnamed ip host hpair.word).mp hpair)
    exact hash_not_mem_of_mem_pairsOf hpair' hmem
  · intro hparse
    refine List.eq_nil_iff_forall_not_mem.mpr ?_
    rintro ⟨ip, host⟩ hpair
    have hmeans : (ip, host) ∈ meaning h.raws := mem_meaning.mpr ⟨line, hline, hpair⟩
    obtain ⟨line', -, hosts', hparse', -⟩ := (hnamed ip host (word_of_mem_pairsOf hpair)).mpr hmeans
    obtain ⟨hosts, hsome⟩ := exists_lineOf_of_mem_pairsOf (lineOf_some hparse').1 hpair
    rw [hparse] at hsome
    cases hsome

theorem hasHostname_iff : hasHostname h host = true ↔
    trimSpace host ≠ [] ∧ ∃ ip, Paired h.lines ip (trimSpace host) := by
  simp only [hasHostname]
  by_cases hblank : trimSpace host = []
  · rw [if_pos hblank]
    exact ⟨fun hfalse => absurd hfalse Bool.false_ne_true, fun hpair => absurd hblank hpair.1⟩
  · rw [if_neg hblank, List.any_eq_true]
    constructor
    · rintro ⟨e, he, htest⟩
      obtain ⟨hactive, hname⟩ := Bool.and_eq_true_iff.mp htest
      obtain ⟨host', hmem, heq⟩ := List.any_eq_true.mp hname
      refine ⟨hblank, e.ip, e.line h.arrays, List.mem_map_of_mem he, hactive, rfl, ?_⟩
      exact beq_iff_eq.mp heq ▸ hmem
    · rintro ⟨-, ip, l, hl, hactive, -, hmem⟩
      obtain ⟨e, he, rfl⟩ := List.mem_map.mp hl
      exact ⟨e, he, Bool.and_eq_true_iff.mpr
        ⟨hactive, List.any_eq_true.mpr ⟨_, hmem, beq_self_eq_true _⟩⟩⟩

end Plain

/-! ## Operations -/

section Edits

variable {m : Arrays Text} {es done : List HostEntry} {h h' : Hosts}

/-- **Loops in place.** If a turn touches cells of its own entry only, each line becomes what its
turn makes of it. -/
theorem Sound.rebuild_lines {σ : Type} {R : Line → List Line → Prop}
    {f : Arrays Text → σ → HostEntry → Arrays Text × σ × List HostEntry}
    (hf : ∀ m st e, Good m e → Replaces e.hostnames.Covers m e (f m st e).1 (f m st e).2.2 ∧
      R (e.line m) ((f m st e).2.2.map (HostEntry.line (f m st e).1)))
    (st : σ) (hs : Sound m (done ++ es)) :
    done.map (HostEntry.line (Syshosts.rebuild f m st es).1) = done.map (HostEntry.line m) ∧
      ∃ outs, List.Forall₂ R (es.map (HostEntry.line m)) outs ∧
        (Syshosts.rebuild f m st es).2.2.map (HostEntry.line (Syshosts.rebuild f m st es).1) =
          outs.flatten := by
  induction es generalizing m st done with
  | nil => exact ⟨rfl, [], .nil, rfl⟩
  | cons e es ih =>
    have hgood : Good m e := hs.good e (List.mem_append_right _ List.mem_cons_self)
    obtain ⟨hr, hR⟩ := hf m st e hgood
    obtain ⟨-, hrest, hcross⟩ := List.pairwise_append.mp hs.apart
    have hout : ∀ x ∈ done ++ es, ∀ a i, x.hostnames.Covers a i → ¬ e.hostnames.Covers a i := by
      intro x hx
      rcases List.mem_append.mp hx with hx | hx
      · exact hcross x hx e List.mem_cons_self
      · exact ((List.pairwise_cons.mp hrest).1 x hx).symm
    -- the turn does not show in the other lines
    have hkept : ∀ x ∈ done ++ es, x.line (f m st e).1 = x.line m := by
      intro x hx
      have hin : x.hostnames.InBounds m := by
        refine (hs.good x ?_).inBounds
        rcases List.mem_append.mp hx with hx | hx
        · exact List.mem_append_left _ hx
        · exact List.mem_append_right _ (List.mem_cons_of_mem _ hx)
      unfold HostEntry.line
      rw [hr.unchanged.read hin (hout x hx)]
    have hnext : Sound (f m st e).1 ((done ++ (f m st e).2.2) ++ es) := by
      rw [List.append_assoc]
      exact hs.replace hr hout
    obtain ⟨hdone, outs, hall, hlines⟩ := ih (f m st e).2.1 hnext
    rw [List.map_append, List.map_append] at hdone
    obtain ⟨hbefore, hhere⟩ := List.append_inj hdone (by simp)
    have hlater : es.map (HostEntry.line (f m st e).1) = es.map (HostEntry.line m) :=
      List.map_congr_left fun x hx => hkept x (List.mem_append_right _ hx)
    have hearlier : done.map (HostEntry.line (f m st e).1) = done.map (HostEntry.line m) :=
      List.map_congr_left fun x hx => hkept x (List.mem_append_left _ hx)
    refine ⟨hbefore.trans hearlier,
      (f m st e).2.2.map (HostEntry.line (f m st e).1) :: outs, .cons hR ?_, ?_⟩
    · rw [← hlater]
      exact hall
    · show ((f m st e).2.2 ++ (Syshosts.rebuild f (f m st e).1 (f m st e).2.1 es).2.2).map
        (HostEntry.line (Syshosts.rebuild f (f m st e).1 (f m st e).2.1 es).1) = _
      rw [List.map_append, hhere, hlines]
      rfl

/-- Lines that have the hostnames of a line, under the same IP. -/
structure Regroups (l : Line) (outs : List Line) : Prop where
  same : ∀ o ∈ outs, o.ip = l.ip ∧ o.isActive = l.isActive
  names : ∀ host, (∃ o ∈ outs, host ∈ o.hostnames) ↔ host ∈ l.hostnames
  inactive : l.isActive = false → outs = [l]

theorem regroups_singleton {l o : Line} (hip : o.ip = l.ip) (hactive : o.isActive = l.isActive)
    (hnames : ∀ host, host ∈ o.hostnames ↔ host ∈ l.hostnames)
    (hinactive : l.isActive = false → o = l) : Regroups l [o] where
  same := List.forall_mem_singleton.mpr ⟨hip, hactive⟩
  names host := by
    simp only [List.mem_singleton, exists_eq_left]
    exact hnames host
  inactive hl := congrArg (fun o => [o]) (hinactive hl)

theorem regroups_sortHostsStep {e : HostEntry} (st : Unit) (hgood : Good m e) :
    Regroups (e.line m)
      ((sortHostsStep m st e).2.2.map (HostEntry.line (sortHostsStep m st e).1)) := by
  simp only [sortHostsStep]
  split
  · next hsort =>
    obtain ⟨hactive, hlong, -⟩ := hsort
    have hperm : (sortStrings (e.hostnames.read m)).Perm (e.hostnames.read m) :=
      List.perm_insertionSort _ _
    have hlen : (sortStrings (e.hostnames.read m)).length = e.hostnames.len :=
      hperm.length_eq.trans hgood.inBounds.length_read
    have hread := Slice.read_overwrite hgood.inBounds hlen (by omega)
    refine regroups_singleton rfl rfl (fun host => ?_) fun hinactive => ?_
    · show host ∈ e.hostnames.read _ ↔ host ∈ e.hostnames.read m
      rw [hread]
      exact hperm.mem_iff
    · rw [show e.isActive = false from hinactive] at hactive
      cases hactive
  · exact regroups_singleton rfl rfl (fun _ => Iff.rfl) fun _ => rfl

theorem regroups_wrapStep {e : HostEntry} {count : ℕ} (hcount : 0 < count) (hgood : Good m e) :
    Regroups (e.line m) ((wrapStep count m () e).2.2.map (HostEntry.line m)) := by
  have hchunks := rechunked_wrapStep hcount hgood.inBounds
  refine ⟨hchunks.same, fun host => ?_, fun hinactive => hchunks.kept (.inl hinactive)⟩
  rw [← hchunks.names, List.mem_flatMap]

/-- What an operation that respects the file does to it. -/
structure Keeps (h h' : Hosts) : Prop where
  sound : Sound h'.arrays h'.entries
  inactive : ∀ l ∈ h'.lines, l.isActive = false → l ∈ h.lines
  noNew : ∀ ip host, Paired h'.lines ip host → Paired h.lines ip host
  kept : ∀ ip host, Paired h.lines ip host → ∃ ip', Paired h'.lines ip' host

theorem exists_of_forall₂ {α β : Type} {R : α → β → Prop} {as : List α} {bs : List β} {a : α}
    (h : List.Forall₂ R as bs) (ha : a ∈ as) : ∃ b ∈ bs, R a b := by
  induction h with
  | nil => cases ha
  | cons hab _ ih =>
    rcases List.mem_cons.mp ha with rfl | ha
    · exact ⟨_, List.mem_cons_self, hab⟩
    · obtain ⟨b, hb, hR⟩ := ih ha
      exact ⟨b, List.mem_cons_of_mem _ hb, hR⟩

theorem keeps_of_regroups (outs : List (List Line)) (hs : Sound h'.arrays h'.entries)
    (hall : List.Forall₂ Regroups h.lines outs) (hlines : h'.lines = outs.flatten) :
    Keeps h h' := by
  have hfrom : ∀ l' ∈ h'.lines, ∃ l ∈ h.lines, ∃ group, l' ∈ group ∧ Regroups l group := by
    intro l' hl'
    rw [hlines] at hl'
    obtain ⟨group, hgroup, hmem⟩ := List.mem_flatten.mp hl'
    obtain ⟨l, hl, hregroups⟩ := exists_of_forall₂ hall.flip hgroup
    exact ⟨l, hl, group, hmem, hregroups⟩
  have hto : ∀ l ∈ h.lines, ∃ group, (∀ o ∈ group, o ∈ h'.lines) ∧ Regroups l group := by
    intro l hl
    obtain ⟨group, hgroup, hregroups⟩ := exists_of_forall₂ hall hl
    refine ⟨group, fun o ho => ?_, hregroups⟩
    rw [hlines]
    exact List.mem_flatten.mpr ⟨group, hgroup, ho⟩
  refine ⟨hs, ?_, ?_, ?_⟩
  · intro l' hl' hinactive
    obtain ⟨l, hl, group, hmem, hregroups⟩ := hfrom l' hl'
    have hsame := (hregroups.same l' hmem).2
    rw [hregroups.inactive (hsame ▸ hinactive)] at hmem
    rwa [List.mem_singleton.mp hmem]
  · rintro ip host ⟨l', hl', hactive, hip, hhost⟩
    obtain ⟨l, hl, group, hmem, hregroups⟩ := hfrom l' hl'
    obtain ⟨hip', hactive'⟩ := hregroups.same l' hmem
    exact ⟨l, hl, hactive' ▸ hactive, hip' ▸ hip, (hregroups.names host).mp ⟨l', hmem, hhost⟩⟩
  · rintro ip host ⟨l, hl, hactive, hip, hhost⟩
    obtain ⟨group, hgroup, hregroups⟩ := hto l hl
    obtain ⟨o, ho, hname⟩ := (hregroups.names host).mpr hhost
    obtain ⟨hip', hactive'⟩ := hregroups.same o ho
    exact ⟨ip, o, hgroup o ho, hactive'.trans hactive, hip'.trans hip, hname⟩

/-- The four operations. -/
inductive Edits (h : Hosts) : Hosts → Prop where
  | sortHosts : Edits h (sortHosts h)
  | wrapLinesAtMaxHostsPerLine (count : ℤ) : Edits h (wrapLinesAtMaxHostsPerLine h count)
  | combineDuplicateIPs : Edits h (combineDuplicateIPs h)
  | removeDuplicateHosts : Edits h (removeDuplicateHosts h)

theorem keeps_self (hs : Sound h.arrays h.entries) : Keeps h h :=
  ⟨hs, fun _ hl _ => hl, fun _ _ hpair => hpair, fun ip _ hpair => ⟨ip, hpair⟩⟩

theorem mem_of_inactiveLines_eq {ls ls' : List Line} {l : Line}
    (h : inactiveLines ls' = inactiveLines ls) (hl : l ∈ ls') (hinactive : l.isActive = false) :
    l ∈ ls := by
  have hmem : l ∈ inactiveLines ls' := List.mem_filter.mpr ⟨hl, by rw [hinactive]; rfl⟩
  rw [h] at hmem
  exact List.mem_of_mem_filter hmem

section

variable (hs : Sound h.arrays h.entries)
include hs

theorem keeps_sortHosts : Keeps h (sortHosts h) := by
  have hall : Sound h.arrays ([] ++ h.entries) := hs
  obtain ⟨-, outs, hregroups, hlines⟩ := hall.rebuild_lines
    (fun m st e hgood => ⟨replaces_sortHostsStep st hgood, regroups_sortHostsStep st hgood⟩) ()
  exact keeps_of_regroups outs
    (Sound.rebuild (fun m st e _ hgood => replaces_sortHostsStep st hgood) () hs) hregroups hlines

theorem keeps_wrapLinesAtMaxHostsPerLine (count : ℤ) :
    Keeps h (wrapLinesAtMaxHostsPerLine h count) := by
  by_cases hcount : count ≤ 0
  · have hself : wrapLinesAtMaxHostsPerLine h count = h := if_pos hcount
    rw [hself]
    exact keeps_self hs
  · have hpos : 0 < count.toNat := by omega
    have hwrap : wrapLinesAtMaxHostsPerLine h count =
        ⟨h.arrays, h.entries.flatMap fun e => (wrapStep count.toNat h.arrays () e).2.2⟩ := by
      simp only [wrapLinesAtMaxHostsPerLine]
      rw [if_neg hcount, rebuild_wrapStep]
    have hsound := Sound.rebuild (fun m st e _ hgood => replaces_wrapStep hpos st hgood) () hs
    rw [rebuild_wrapStep] at hsound
    rw [hwrap]
    refine keeps_of_regroups (h.entries.map fun e =>
      (wrapStep count.toNat h.arrays () e).2.2.map (HostEntry.line h.arrays)) hsound ?_ ?_
    · refine List.forall₂_map_left_iff.mpr (List.forall₂_map_right_iff.mpr ?_)
      exact List.forall₂_same.mpr fun e he => regroups_wrapStep hpos (hs.good e he)
    · rw [Hosts.lines, List.map_flatMap, List.flatMap_def]

theorem keeps_combineDuplicateIPs : Keeps h (combineDuplicateIPs h) := by
  obtain ⟨-, hlines⟩ := combineDuplicateIPs_turn fun e he => (hs.good e he).inBounds
  refine ⟨hs.combineDuplicateIPs, fun l hl hinactive => ?_, fun ip host hpair => ?_,
    fun ip host hpair => ⟨ip, ?_⟩⟩
  · rw [hlines] at hl
    exact mem_of_inactiveLines_eq (inactiveLines_combined h.lines) hl hinactive
  · rw [hlines] at hpair
    exact paired_combined.mp hpair
  · rw [hlines]
    exact paired_combined.mpr hpair

theorem keeps_removeDuplicateHosts : Keeps h (removeDuplicateHosts h) := by
  obtain ⟨-, hlines⟩ := removeDuplicateHosts_turn fun e he => (hs.good e he).inBounds
  have hkeeps := keepsFirst_deduplicated h.lines
  rw [← hlines] at hkeeps
  refine ⟨hs.removeDuplicateHosts, fun l hl => mem_of_inactiveLines_eq hkeeps.inactiveLines_eq hl,
    fun ip host => hkeeps.paired, fun ip host hpair => ?_⟩
  rw [← mem_namesOf, hkeeps.namesOf_eq, mem_unseen]
  exact ⟨mem_namesOf.mpr ⟨ip, hpair⟩, List.not_mem_nil⟩

theorem keeps_of_edits (hedit : Edits h h') : Keeps h h' := by
  cases hedit with
  | sortHosts => exact keeps_sortHosts hs
  | wrapLinesAtMaxHostsPerLine count => exact keeps_wrapLinesAtMaxHostsPerLine hs count
  | combineDuplicateIPs => exact keeps_combineDuplicateIPs hs
  | removeDuplicateHosts => exact keeps_removeDuplicateHosts hs

theorem Keeps.plainLine (hkeeps : Keeps h h') (hplain : ∀ line ∈ h.raws, PlainLine line) :
    ∀ line ∈ h'.raws, PlainLine line := by
  refine List.forall_mem_map.mpr fun e he => ?_
  have hgood := hkeeps.sound.good e he
  constructor
  · intro ip hosts hparse hhash
    obtain ⟨host, hhost, hmem⟩ := exists_hash_of_lineOf hparse hhash
    have hpair' : Named h'.raws ip host := ⟨e.raw, List.mem_map_of_mem he, hosts, hparse, hhost⟩
    have hpair := hkeeps.noNew ip host ((paired_iff_named hkeeps.sound.good).mpr hpair')
    have hnamed := (paired_iff_named hs.good).mp hpair
    obtain ⟨line, -, hmeans⟩ := mem_meaning.mp ((mem_meaning_iff_named hplain).mpr hnamed)
    exact hash_not_mem_of_mem_pairsOf hmeans hmem
  · intro hparse
    cases hgood.reads with
    | active _ hline => rw [hparse] at hline; cases hline
    | inactive hinactive =>
      have hl := hkeeps.inactive (e.line h'.arrays) (List.mem_map_of_mem he) hinactive
      obtain ⟨e0, he0, heq⟩ := List.mem_map.mp hl
      have hraw : e0.raw = e.raw := congrArg Line.raw heq
      have hplain0 := hplain e0.raw (List.mem_map_of_mem he0)
      rw [hraw] at hplain0
      exact hplain0.inactive hparse

end

/-- **The package respects the comments of a file.** `Has` and `HasHostname` hold for what the file
means, and the operations neither bring in a pair nor lose a hostname. -/
structure Respects (h : Hosts) : Prop where
  has : ∀ ip host, has h ip host = true ↔ (ip, trimSpace host) ∈ meaning h.raws
  hasHostname : ∀ host, hasHostname h host = true ↔ ∃ ip, (ip, trimSpace host) ∈ meaning h.raws
  noNew : ∀ h', Edits h h' → ∀ pair ∈ meaning h'.raws, pair ∈ meaning h.raws
  kept : ∀ h', Edits h h' → ∀ ip host, (ip, host) ∈ meaning h.raws →
    ∃ ip', (ip', host) ∈ meaning h'.raws

/-- **The package respects the comments of a file exactly if the file has none behind an entry**
and no line that is not an entry means something (as a line whose first field is no IP does,
since the meaning does not ask for one).
GOLINE: syshosts/hostsfiles.go:101-136, syshosts/extents.go:26-109, 114-248, 408-425 -/
theorem respects_iff (lines : List Text) :
    Respects (newHosts lines) ↔ ∀ line ∈ lines, PlainLine line := by
  have hs := sound_newHosts lines
  have hraws : (newHosts lines).raws = lines := raw_newHosts lines
  constructor
  · intro hrespects line hline
    refine plainLine_of_has hs hrespects.has line ?_
    rwa [hraws]
  · intro hplain
    have hplain0 : ∀ line ∈ (newHosts lines).raws, PlainLine line := by rwa [hraws]
    have hmeans : ∀ h', Keeps (newHosts lines) h' → ∀ ip host,
        (ip, host) ∈ meaning h'.raws ↔ Paired h'.lines ip host := by
      intro h' hkeeps ip host
      rw [mem_meaning_iff_named (hkeeps.plainLine hs hplain0)]
      exact (paired_iff_named hkeeps.sound.good).symm
    have hself := hmeans _ (keeps_self hs)
    refine ⟨fun ip host => ?_, fun host => ?_, ?_, ?_⟩
    · rw [has_iff_named hs, mem_meaning_iff_named hplain0]
    · rw [hasHostname_iff]
      constructor
      · rintro ⟨-, ip, hpair⟩
        exact ⟨ip, (hself ip _).mpr hpair⟩
      · rintro ⟨ip, hpair⟩
        have hword := ((mem_meaning_iff_named hplain0).mp hpair).word
        exact ⟨hword.ne_nil, ip, (hself ip _).mp hpair⟩
    · rintro h' hedit ⟨ip, host⟩ hpair
      have hkeeps := keeps_of_edits hs hedit
      exact (hself ip host).mpr (hkeeps.noNew ip host ((hmeans h' hkeeps ip host).mp hpair))
    · intro h' hedit ip host hpair
      have hkeeps := keeps_of_edits hs hedit
      obtain ⟨ip', hpair'⟩ := hkeeps.kept ip host ((hself ip host).mp hpair)
      exact ⟨ip', (hmeans h' hkeeps ip' host).mpr hpair'⟩

end Edits

namespace Sample

def commented : List Text := [ofString "127.0.0.1 localhost # local"]

/-- The comment sorts in front of the hostname, and the hostname is lost. The `#` counts as a
hostname from the beginning. -/
theorem comment_swallows_hostname :
    meaning commented = [(localhost, ofString "localhost")] ∧
      meaning (sortHosts (newHosts commented)).raws = [] ∧
      has (newHosts commented) localhost (ofString "#") = true :=
  ⟨by decide +kernel, by decide +kernel, by decide +kernel⟩

end Sample

end N2nGo.Syshosts
