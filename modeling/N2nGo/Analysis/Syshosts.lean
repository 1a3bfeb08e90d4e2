import N2nGo.Analysis.Hostnames

/-!
# Text and hostnames of the hosts file

An entry keeps its line as text beside the hostnames the line names, and every operation
that changes the one has to change the other. What keeps them together is that no two
entries share a cell of memory: then an operation on one entry does not show in another.

`WrapLinesAtMaxHostsPerLine` cuts the hostnames of a line into slices of one array. They
share no cell, but the next chunk lies where the first one would grow, and `Add` grows it
in place. So text and hostnames agree in every run in which `Add` does not run into
another entry's hostnames.
-/

set_option autoImplicit false

namespace N2nGo.Syshosts

open N2nGo.Lib N2nGo.Lib.Text

/-! ## Lines -/

/-- The IP and the hostnames of a line that has some. -/
def lineOf (line : Text) : Option (Text × List Text) :=
  if trimSpace line = [] ∨ (trimSpace line).head? = some hash then none
  else
    match fields (trimSpace line) with
    | ip :: host :: hosts => if isIP ip then some (ip, host :: hosts) else none
    | _ => none

variable {m m' : Arrays Text} {line ip : Text} {hosts : List Text}

theorem lineOf_some (h : lineOf line = some (ip, hosts)) :
    isIP ip = true ∧ hosts ≠ [] ∧ ∀ w ∈ hosts, Word w := by
  have hwords : ∀ w ∈ fields (trimSpace line), Word w := fun w => word_of_mem_fields
  unfold lineOf at h
  split at h
  · cases h
  · split at h
    · next ip' host hosts' hfields =>
      split at h
      · next hip =>
        cases h
        refine ⟨hip, by simp, fun w hw => hwords w ?_⟩
        rw [hfields]
        exact List.mem_cons_of_mem _ hw
      · cases h
    · cases h

theorem word_of_isIP (h : isIP ip = true) : Word ip ∧ ∀ r ∈ ip, r ≠ hash :=
  word_of_parseIP (bne_iff_ne.mp h)

theorem lineOf_formatEntry (hip : isIP ip = true) (hne : hosts ≠ [])
    (hwords : ∀ w ∈ hosts, Word w) : lineOf (formatEntry ip hosts) = some (ip, hosts) := by
  obtain ⟨hword, hhash⟩ := word_of_isIP hip
  obtain ⟨first, hfirst, hmem⟩ := head_word_append hword (tab :: join hosts)
  obtain ⟨last, hlast, hsolid⟩ := getLast_join hne hwords
  have htrim : trimSpace (formatEntry ip hosts) = formatEntry ip hosts := by
    have hend : (formatEntry ip hosts).getLast? = some last := by
      unfold formatEntry
      rw [List.getLast?_append, List.getLast?_cons, hlast]
      rfl
    exact trimSpace_eq_self hfirst hend (hword.solid first hmem) hsolid
  have hfields : fields (formatEntry ip hosts) = ip :: hosts := fields_line hword hwords
  have hactive : ¬ (formatEntry ip hosts = [] ∨ (formatEntry ip hosts).head? = some hash) := by
    rintro (hnil | hcomment)
    · unfold formatEntry at hnil
      simp at hnil
    · have heq : first = hash := Option.some.inj (hfirst.symm.trans hcomment)
      exact hhash first hmem heq
  unfold lineOf
  rw [htrim, if_neg hactive, hfields]
  cases hosts with
  | nil => exact absurd rfl hne
  | cons host hosts => simp only [hip, if_true]

/-- The words behind the IP are the tail of the array that `strings.Fields` made. -/
theorem parseLine_eq (m : Arrays Text) (line : Text) :
    parseLine m line = match lineOf line with
      | none => (m, ⟨[], .nil, line, false⟩)
      | some (ip, hosts) =>
        (m.alloc (ip :: hosts), ⟨ip, ⟨m.next, 1, hosts.length, hosts.length⟩, line, true⟩) := by
  simp only [parseLine, lineOf]
  by_cases hskip : trimSpace line = [] ∨ (trimSpace line).head? = some hash
  · rw [if_pos hskip, if_pos hskip]
  · rw [if_neg hskip, if_neg hskip]
    rcases fields (trimSpace line) with _ | ⟨ip, _ | ⟨host, hosts⟩⟩
    · rfl
    · rfl
    · rw [if_neg (by simp), List.headD_cons]
      by_cases hip : isIP ip = true
      · simp [hip, Slice.sub]
      · simp [hip]

theorem parseLine_of_none (m : Arrays Text) (h : lineOf line = none) :
    parseLine m line = (m, ⟨[], .nil, line, false⟩) := by
  rw [parseLine_eq, h]

theorem parseLine_of_some (m : Arrays Text) (h : lineOf line = some (ip, hosts)) :
    parseLine m line =
      (m.alloc (ip :: hosts), ⟨ip, ⟨m.next, 1, hosts.length, hosts.length⟩, line, true⟩) := by
  rw [parseLine_eq, h]

/-! ## Entries -/

/-- Reading the text of the entry gives what the entry says. -/
def Agrees (m : Arrays Text) (e : HostEntry) : Prop :=
  (parseLine m e.raw).2.isActive = e.isActive ∧ (parseLine m e.raw).2.ip = e.ip ∧
    (parseLine m e.raw).2.hostnames.read (parseLine m e.raw).1 = e.hostnames.read m

/-- What an entry says of its line: an IP and hostnames, or nothing. -/
inductive Reads (m : Arrays Text) (e : HostEntry) : Prop where
  | active (hactive : e.isActive = true) (hline : lineOf e.raw = some (e.ip, e.hostnames.read m))
  | inactive (hactive : e.isActive = false) (hline : lineOf e.raw = none) (hip : e.ip = [])
      (hnames : e.hostnames = .nil)

/-- The entry says what its line says, and its hostnames are in memory. -/
structure Good (m : Arrays Text) (e : HostEntry) : Prop where
  inBounds : e.hostnames.InBounds m
  reads : Reads m e

variable {e : HostEntry} {W : ℕ → ℕ → Prop}

theorem read_tail (m : Arrays Text) (ip : Text) (hosts : List Text) :
    (⟨m.next, 1, hosts.length, hosts.length⟩ : Slice).read (m.alloc (ip :: hosts)) = hosts := by
  unfold Slice.read
  rw [Heap.cell_alloc, if_pos rfl]
  simp

theorem Good.agrees (h : Good m e) : Agrees m e := by
  unfold Agrees
  cases h.reads with
  | active hactive hline =>
    rw [parseLine_of_some m hline]
    exact ⟨hactive.symm, rfl, read_tail m _ _⟩
  | inactive hactive hline hip hnames =>
    rw [parseLine_of_none m hline, hnames]
    exact ⟨hactive.symm, hip.symm, rfl⟩

theorem Good.words (h : Good m e) (hactive : e.isActive = true) :
    isIP e.ip = true ∧ e.hostnames.read m ≠ [] ∧ ∀ w ∈ e.hostnames.read m, Word w := by
  cases h.reads with
  | active _ hline => exact lineOf_some hline
  | inactive hinactive => rw [hactive] at hinactive; cases hinactive

theorem good_parseLine (m : Arrays Text) (line : Text) :
    Good (parseLine m line).1 (parseLine m line).2 := by
  rcases hline : lineOf line with _ | ⟨ip, hosts⟩
  · rw [parseLine_of_none m hline]
    exact ⟨Slice.inBounds_nil m, .inactive rfl hline rfl rfl⟩
  · rw [parseLine_of_some m hline]
    refine ⟨⟨Nat.le_refl _, fun _ => ⟨Nat.lt_succ_self _, ?_⟩⟩, .active rfl ?_⟩
    · show 1 + hosts.length ≤ ((m.alloc (ip :: hosts)).cell m.next).length
      rw [Heap.cell_alloc, if_pos rfl, List.length_cons]
      omega
    · show lineOf line = some (ip, Slice.read _ _)
      rw [read_tail, hline]

theorem parseLine_fresh (m : Arrays Text) (line : Text) :
    Slice.Unchanged W m (parseLine m line).1 ∧
      ∀ a i, (parseLine m line).2.hostnames.Covers a i → m.next ≤ a := by
  rcases hline : lineOf line with _ | ⟨ip, hosts⟩
  · rw [parseLine_of_none m hline]
    refine ⟨.refl W m, ?_⟩
    rintro a i ⟨-, hlow, hhigh⟩
    exact absurd hhigh (Nat.not_lt.mpr hlow)
  · rw [parseLine_of_some m hline]
    refine ⟨Slice.unchanged_alloc W m _, ?_⟩
    rintro a i ⟨rfl, -, -⟩
    exact Nat.le_refl _

theorem good_written {s : Slice} (hip : isIP ip = true) (hs : s.InBounds m)
    (hread : s.read m = hosts) (hne : hosts ≠ []) (hwords : ∀ w ∈ hosts, Word w) :
    Good m ⟨ip, s, formatEntry ip (s.read m), true⟩ :=
  ⟨hs, .active rfl (by
    show lineOf (formatEntry ip (s.read m)) = some (ip, s.read m)
    rw [hread]
    exact lineOf_formatEntry hip hne hwords)⟩

theorem Good.unchanged (h : Good m e) (hm : Slice.Unchanged W m m')
    (hout : ∀ a i, e.hostnames.Covers a i → ¬ W a i) : Good m' e := by
  refine ⟨hm.inBounds h.inBounds, ?_⟩
  cases h.reads with
  | active hactive hline => exact .active hactive (by rw [hm.read h.inBounds hout]; exact hline)
  | inactive hactive hline hip hnames => exact .inactive hactive hline hip hnames

/-! ## All entries -/

/-- Every entry says what its line says, and no two share a cell. -/
structure Sound (m : Arrays Text) (es : List HostEntry) : Prop where
  good : ∀ e ∈ es, Good m e
  apart : es.Pairwise fun e e' => Slice.Apart e.hostnames e'.hostnames

/-- What may come in the place of an entry: memory changed in `W` only, and entries that use
the cells of the old one, those of `W`, or new ones. -/
structure Replaces (W : ℕ → ℕ → Prop) (m : Arrays Text) (e : HostEntry) (m' : Arrays Text)
    (outs : List HostEntry) : Prop where
  unchanged : Slice.Unchanged W m m'
  sound : Sound m' outs
  place : ∀ o ∈ outs, ∀ a i, o.hostnames.Covers a i → e.hostnames.Covers a i ∨ W a i ∨ m.next ≤ a

variable {es es' done outs : List HostEntry}

theorem Sound.sublist (h : Sound m es) (hsub : es'.Sublist es) : Sound m es' :=
  ⟨fun e he => h.good e (hsub.subset he), h.apart.sublist hsub⟩

theorem Sound.perm (h : Sound m es) (hperm : es'.Perm es) : Sound m es' :=
  ⟨fun e he => h.good e (hperm.mem_iff.mp he),
    h.apart.perm hperm.symm fun hapart => hapart.symm⟩

theorem sound_nil (m : Arrays Text) : Sound m [] := ⟨fun _ he => absurd he List.not_mem_nil, .nil⟩

theorem sound_singleton (h : Good m e) : Sound m [e] :=
  ⟨fun _ he => List.mem_singleton.mp he ▸ h, List.pairwise_singleton _ _⟩

theorem mem_append_cons {x : HostEntry} (h : x ∈ done ++ es) (e : HostEntry) : x ∈ done ++ e :: es :=
  ((List.sublist_cons_self e es).append_left done).subset h

theorem Sound.replace (h : Sound m (done ++ e :: es)) (hr : Replaces W m e m' outs)
    (hout : ∀ x ∈ done ++ es, ∀ a i, x.hostnames.Covers a i → ¬ W a i) :
    Sound m' (done ++ (outs ++ es)) := by
  obtain ⟨hdone, hrest, hcross⟩ := List.pairwise_append.mp h.apart
  obtain ⟨hhead, htail⟩ := List.pairwise_cons.mp hrest
  have hothers : ∀ x ∈ done ++ es, x ∈ done ++ e :: es := fun _ hx => mem_append_cons hx e
  have hkept : ∀ x ∈ done ++ es, Good m' x := fun x hx =>
    (h.good x (hothers x hx)).unchanged hr.unchanged (hout x hx)
  -- what another entry covers is neither the old entry's, nor written, nor new
  have hnew : ∀ x ∈ done ++ es, Slice.Apart x.hostnames e.hostnames →
      ∀ o ∈ outs, Slice.Apart x.hostnames o.hostnames := by
    intro x hx hapart o ho a i hcovers hcovers'
    rcases hr.place o ho a i hcovers' with hold | hwritten | hfresh
    · exact hapart a i hcovers hold
    · exact hout x hx a i hcovers hwritten
    · have hlt := (h.good x (hothers x hx)).inBounds.covers_lt hcovers
      omega
  obtain ⟨hbefore, hbehind⟩ := List.forall_mem_append.mp hkept
  refine ⟨List.forall_mem_append.mpr ⟨hbefore, List.forall_mem_append.mpr ⟨hr.sound.good, hbehind⟩⟩,
    List.pairwise_append.mpr ⟨hdone, List.pairwise_append.mpr ⟨hr.sound.apart, htail, ?_⟩, ?_⟩⟩
  · intro o ho x hx
    exact (hnew x (List.mem_append_right _ hx) (hhead x hx).symm o ho).symm
  · intro x hx y hy
    rcases List.mem_append.mp hy with hy | hy
    · exact hnew x (List.mem_append_left _ hx) (hcross x hx e List.mem_cons_self) y hy
    · exact hcross x hx y (List.mem_cons_of_mem _ hy)

theorem Sound.snoc (h : Sound m es) (hm : Slice.Unchanged (fun _ _ => False) m m') (he : Good m' e)
    (hfresh : ∀ a i, e.hostnames.Covers a i → m.next ≤ a) : Sound m' (es ++ [e]) := by
  refine ⟨?_, List.pairwise_append.mpr ⟨h.apart, List.pairwise_singleton _ _, ?_⟩⟩
  · exact List.forall_mem_append.mpr
      ⟨fun x hx => (h.good x hx).unchanged hm fun _ _ _ hfalse => hfalse,
        List.forall_mem_singleton.mpr he⟩
  · intro x hx y hy a i hcovers hcovers'
    rw [List.mem_singleton.mp hy] at hcovers'
    have hlt := (h.good x hx).inBounds.covers_lt hcovers
    have hge := hfresh a i hcovers'
    omega

section

variable {σ : Type} {f : Arrays Text → σ → HostEntry → Arrays Text × σ × List HostEntry}
  (hf : ∀ m st, ∀ e ∈ es, Good m e → Replaces e.hostnames.Covers m e (f m st e).1 (f m st e).2.2)
  (st : σ)
include hf

theorem Sound.rebuild_last (h : Sound m (done ++ es)) :
    Sound (rebuild f m st es).1 (done ++ (rebuild f m st es).2.2) := by
  induction es generalizing m st done with
  | nil => exact h
  | cons e es ih =>
    have hr := hf m st e List.mem_cons_self (h.good e (List.mem_append_right _ List.mem_cons_self))
    obtain ⟨-, hrest, hcross⟩ := List.pairwise_append.mp h.apart
    have hnext : Sound (f m st e).1 (done ++ ((f m st e).2.2 ++ es)) := by
      refine h.replace hr fun x hx => ?_
      rcases List.mem_append.mp hx with hx | hx
      · exact hcross x hx e List.mem_cons_self
      · exact ((List.pairwise_cons.mp hrest).1 x hx).symm
    rw [← List.append_assoc] at hnext
    have hend := ih (fun m st e he => hf m st e (List.mem_cons_of_mem _ he)) (f m st e).2.1 hnext
    rw [List.append_assoc] at hend
    exact hend

/-- **The loops over the entries.** If each turn only touches cells of its own entry, then all
entries are sound behind the loop. -/
theorem Sound.rebuild (h : Sound m es) :
    Sound (Syshosts.rebuild f m st es).1 (Syshosts.rebuild f m st es).2.2 := by
  have hall : Sound m ([] ++ es) := h
  exact hall.rebuild_last hf st

end

/-! ## One turn of each loop -/

theorem replaces_self (h : Good m e) : Replaces W m e m [e] :=
  ⟨.refl W m, sound_singleton h, fun _ ho _ _ hcovers => .inl (List.mem_singleton.mp ho ▸ hcovers)⟩

theorem replaces_nil (m : Arrays Text) (e : HostEntry) : Replaces W m e m [] :=
  ⟨.refl W m, sound_nil m, fun _ ho => absurd ho List.not_mem_nil⟩

theorem Good.rewritten (h : Good m e) (hactive : e.isActive = true) (cap : ℕ) (hne : hosts ≠ [])
    (hwords : ∀ w ∈ hosts, Word w) :
    Replaces W m e (rewritten m e cap hosts).1 [(rewritten m e cap hosts).2] := by
  have hmade := good_written (h.words hactive).1 (Slice.inBounds_make m cap hosts)
    (Slice.read_make m cap hosts) hne hwords
  rw [← hactive] at hmade
  refine ⟨Slice.unchanged_make W m cap hosts, sound_singleton hmade, ?_⟩
  intro o ho a i hcovers
  rw [List.mem_singleton.mp ho] at hcovers
  obtain ⟨rfl, -, -⟩ := hcovers
  exact .inr (.inr (Nat.le_refl _))

theorem Good.rewritten_subset (h : Good m e) (hactive : e.isActive = true) (cap : ℕ)
    (hne : hosts ≠ []) (hsub : ∀ w ∈ hosts, w ∈ e.hostnames.read m) :
    Replaces W m e (Syshosts.rewritten m e cap hosts).1 [(Syshosts.rewritten m e cap hosts).2] :=
  h.rewritten hactive cap hne fun w hw => (h.words hactive).2.2 w (hsub w hw)

theorem replaces_removeStep (ip : Text) (hostsToRemove : List Text) (st : RemoveFlags)
    (h : Good m e) :
    Replaces W m e (removeStep ip hostsToRemove m st e).1
      (removeStep ip hostsToRemove m st e).2.2 := by
  simp only [removeStep]
  split
  · next hline =>
    split
    · exact replaces_self h
    · split
      · exact replaces_nil m e
      · next hne =>
        split
        · exact h.rewritten_subset hline.1 _ hne fun w hw => List.mem_of_mem_filter hw
        · exact replaces_self h
  · exact replaces_self h

theorem replaces_removeByHostnameStep (host : Text) (found : Bool) (h : Good m e) :
    Replaces W m e (removeByHostnameStep host m found e).1
      (removeByHostnameStep host m found e).2.2 := by
  simp only [removeByHostnameStep]
  split
  · exact replaces_self h
  · next hactive =>
    split
    · exact replaces_self h
    · split
      · exact replaces_nil m e
      · next hne =>
        exact h.rewritten_subset (not_not.mp hactive) _ hne fun w hw => List.mem_of_mem_filter hw

theorem replaces_uniqueInLineStep (st : Unit) (h : Good m e) :
    Replaces W m e (uniqueInLineStep m st e).1 (uniqueInLineStep m st e).2.2 := by
  simp only [uniqueInLineStep]
  split
  · exact replaces_self h
  · next hskip =>
    have hactive : e.isActive = true := not_not.mp fun hinactive => hskip (.inl hinactive)
    split
    · exact replaces_self h
    · exact h.rewritten_subset hactive _ (unseen_nil_ne_nil (h.words hactive).2.1)
        fun w hw => (mem_unseen.mp hw).1

theorem replaces_uniqueAcrossStep (seenGlobal : List Text) (h : Good m e) :
    Replaces W m e (uniqueAcrossStep m seenGlobal e).1 (uniqueAcrossStep m seenGlobal e).2.2 := by
  simp only [uniqueAcrossStep]
  split
  · exact replaces_self h
  · next hactive =>
    split
    · exact replaces_nil m e
    · next hne =>
      split
      · exact replaces_self h
      · exact h.rewritten_subset (not_not.mp hactive) _ hne fun w hw => (mem_unseen.mp hw).1

/-! ### Wrapping -/

section Wrap

variable {s : Slice} {count : ℕ}

theorem mem_chunks (hcount : 0 < count) {fuel start : ℕ} {chunk : Slice}
    (h : chunk ∈ chunks s count fuel start) :
    ∃ lo hi, chunk = s.sub lo hi ∧ start ≤ lo ∧ lo < hi ∧ hi ≤ s.len := by
  induction fuel generalizing start with
  | zero => cases h
  | succ fuel ih =>
    unfold chunks at h
    split at h
    · next hstart =>
      rcases List.mem_cons.mp h with rfl | h
      · exact ⟨start, _, rfl, Nat.le_refl _, by omega, by omega⟩
      · obtain ⟨lo, hi, rfl, hlo, hlt, hhi⟩ := ih h
        exact ⟨lo, hi, rfl, by omega, hlt, hhi⟩
    · cases h

theorem chunks_apart (hcount : 0 < count) (fuel start : ℕ) :
    (chunks s count fuel start).Pairwise Slice.Apart := by
  induction fuel generalizing start with
  | zero => exact .nil
  | succ fuel ih =>
    unfold chunks
    split
    · refine List.pairwise_cons.mpr ⟨?_, ih _⟩
      rintro chunk hchunk a i ⟨-, -, hhigh⟩ ⟨-, hlow, -⟩
      obtain ⟨lo, hi, rfl, hlo, -, -⟩ := mem_chunks hcount hchunk
      simp only [Slice.sub] at hhigh hlow
      omega
    · exact .nil

/-- The chunks together are the whole: the turns that are allowed are enough. -/
theorem flatMap_chunks (hcount : 0 < count) (m : Arrays Text) {fuel start : ℕ}
    (hfuel : s.len ≤ fuel + start) :
    (chunks s count fuel start).flatMap (Slice.read m) = (s.read m).drop start := by
  have hlen : (s.read m).length ≤ s.len := List.length_take_le _ _
  induction fuel generalizing start with
  | zero => exact (List.drop_of_length_le (by omega)).symm
  | succ fuel ih =>
    unfold chunks
    split
    · rw [List.flatMap_cons, ih (by omega), Slice.read_sub (Nat.min_le_right _ _), ← List.drop_drop]
      by_cases hfull : start + count ≤ s.len
      · rw [Nat.min_eq_left hfull, Nat.add_sub_cancel_left, List.take_append_drop]
      · rw [Nat.min_eq_right (by omega), List.take_of_length_le (by rw [List.length_drop]; omega),
          List.drop_of_length_le (i := count) (by rw [List.length_drop]; omega), List.append_nil]
    · exact (List.drop_of_length_le (by omega)).symm

theorem replaces_wrapStep (hcount : 0 < count) (st : Unit) (h : Good m e) :
    Replaces W m e (wrapStep count m st e).1 (wrapStep count m st e).2.2 := by
  simp only [wrapStep]
  split
  · exact replaces_self h
  · next hskip =>
    have hactive : e.isActive = true := not_not.mp fun hinactive => hskip (.inl hinactive)
    obtain ⟨hip, -, hwords⟩ := h.words hactive
    have hall := flatMap_chunks hcount m (Nat.le_refl (e.hostnames.len + 0))
    refine ⟨.refl W m, ⟨?_, ?_⟩, ?_⟩
    · intro o ho
      obtain ⟨chunk, hchunk, rfl⟩ := List.mem_map.mp ho
      obtain ⟨lo, hi, hsub, -, hlt, hhi⟩ := mem_chunks hcount hchunk
      have hbounds : chunk.InBounds m := hsub ▸ Slice.inBounds_sub h.inBounds hhi
      have hlen : chunk.len = hi - lo := by rw [hsub]; rfl
      refine good_written hip hbounds rfl ?_ fun w hw => hwords w ?_
      · rw [← List.length_pos_iff, hbounds.length_read]
        omega
      · have hmem := List.mem_flatMap.mpr ⟨chunk, hchunk, hw⟩
        rw [hall] at hmem
        exact List.mem_of_mem_drop hmem
    · exact List.pairwise_map.mpr (chunks_apart hcount _ _)
    · intro o ho a i hcovers
      obtain ⟨chunk, hchunk, rfl⟩ := List.mem_map.mp ho
      obtain ⟨lo, hi, rfl, -, -, hhi⟩ := mem_chunks hcount hchunk
      exact .inl (Slice.within_sub hhi a i hcovers)

end Wrap

/-! ### Combining -/

/-- Hostnames that make up a line. -/
def Lines (ipMap : Table Text (List Text)) : Prop :=
  ∀ ip hosts, ipMap.lookup ip = some hosts → hosts ≠ [] ∧ ∀ w ∈ hosts, Word w

theorem Lines.insert {ipMap : Table Text (List Text)} (h : Lines ipMap) (hne : hosts ≠ [])
    (hwords : ∀ w ∈ hosts, Word w) : Lines (ipMap.insert ip hosts) := by
  intro ip' hosts' hlookup
  by_cases heq : ip' = ip
  · rw [heq, AList.lookup_insert] at hlookup
    cases hlookup
    exact ⟨hne, hwords⟩
  · rw [AList.lookup_insert_ne heq] at hlookup
    exact h ip' hosts' hlookup

/-- What the first pass leaves: entries of the file, and a line for the IP of each of them. -/
structure Collected (es : List HostEntry) (ipMap : Table Text (List Text)) (keep : List HostEntry) :
    Prop where
  lines : Lines ipMap
  known : ∀ e ∈ keep, e.isActive = true → ∃ hosts, ipMap.lookup e.ip = some hosts
  sublist : keep.Sublist es

section

variable {ipMap : Table Text (List Text)}

theorem known_insert {ip' : Text} (h : ∃ hosts, ipMap.lookup ip' = some hosts) (ip : Text)
    (hosts : List Text) : ∃ hosts', (ipMap.insert ip hosts).lookup ip' = some hosts' := by
  by_cases heq : ip' = ip
  · exact ⟨hosts, by rw [heq, AList.lookup_insert]⟩
  · rw [AList.lookup_insert_ne heq]
    exact h

theorem Collected.combineLoop {keep : List HostEntry} (h : Collected done ipMap keep)
    (hgood : ∀ e ∈ es, Good m e) (modified : Bool) :
    Collected (done ++ es) (combineLoop m es ipMap keep modified).1
      (combineLoop m es ipMap keep modified).2.1 := by
  induction es generalizing done ipMap keep modified with
  | nil =>
    rw [List.append_nil]
    exact h
  | cons e es ih =>
    have hrest : ∀ e' ∈ es, Good m e' := fun e' he' => hgood e' (List.mem_cons_of_mem _ he')
    have hassoc : done ++ e :: es = (done ++ [e]) ++ es := by simp
    rw [hassoc]
    unfold Syshosts.combineLoop
    split
    · next hinactive =>
      refine ih ⟨h.lines, List.forall_mem_append.mpr ⟨h.known, ?_⟩, h.sublist.append (.refl _)⟩
        hrest modified
      exact List.forall_mem_singleton.mpr fun hactive => absurd hactive hinactive
    · next hactive =>
      obtain ⟨-, hne, hwords⟩ := (hgood e List.mem_cons_self).words (not_not.mp hactive)
      split
      · refine ih ⟨h.lines.insert hne hwords, List.forall_mem_append.mpr
          ⟨fun e' he' hactive' => known_insert (h.known e' he' hactive') _ _, ?_⟩,
          h.sublist.append (.refl _)⟩ hrest modified
        exact List.forall_mem_singleton.mpr fun _ => ⟨_, AList.lookup_insert _⟩
      · next hosts hlookup =>
        obtain ⟨hne', hwords'⟩ := h.lines _ _ hlookup
        exact ih ⟨h.lines.insert (List.append_ne_nil_of_left_ne_nil hne' _)
            (List.forall_mem_append.mpr ⟨hwords', hwords⟩),
          fun e' he' hactive' => known_insert (h.known e' he' hactive') _ _,
          h.sublist.trans (List.sublist_append_left _ _)⟩ hrest true

theorem replaces_combineStep {keep : List HostEntry} (hc : Collected es ipMap keep) (he : e ∈ keep)
    (st : Unit) (h : Good m e) :
    Replaces W m e (combineStep ipMap m st e).1 (combineStep ipMap m st e).2.2 := by
  simp only [combineStep]
  split
  · exact replaces_self h
  · next hactive =>
    obtain ⟨hosts, hlookup⟩ := hc.known e he (not_not.mp hactive)
    obtain ⟨hne, hwords⟩ := hc.lines _ _ hlookup
    rw [hlookup, Option.getD_some]
    exact h.rewritten (not_not.mp hactive) _ (unseen_nil_ne_nil hne)
      fun w hw => hwords w ((mem_unseen.mp hw).1)

end

/-! ### Sorting -/

theorem replaces_sortHostsStep (st : Unit) (h : Good m e) :
    Replaces e.hostnames.Covers m e (sortHostsStep m st e).1 (sortHostsStep m st e).2.2 := by
  simp only [sortHostsStep]
  split
  · next hsort =>
    obtain ⟨hactive, hlong, -⟩ := hsort
    obtain ⟨hip, hne, hwords⟩ := h.words hactive
    have hperm : (sortStrings (e.hostnames.read m)).Perm (e.hostnames.read m) :=
      List.perm_insertionSort _ _
    have hlen : (sortStrings (e.hostnames.read m)).length = e.hostnames.len :=
      hperm.length_eq.trans h.inBounds.length_read
    have hm := Slice.unchanged_overwrite h.inBounds hlen (by omega)
    have hgood := good_written hip (hm.inBounds h.inBounds)
      (Slice.read_overwrite h.inBounds hlen (by omega))
      (fun hnil => hne (List.nil_perm.mp (hnil ▸ hperm))) fun w hw => hwords w (hperm.mem_iff.mp hw)
    rw [← hactive] at hgood
    refine ⟨hm, sound_singleton hgood, fun o ho a i hcovers => .inl ?_⟩
    rw [List.mem_singleton.mp ho] at hcovers
    exact hcovers
  · exact replaces_self h

/-! ## Adding -/

/-- The hostnames `t` lie before the end of `s` or behind the `k` cells that follow it. -/
def Clear (s : Slice) (k : ℕ) (t : Slice) : Prop :=
  t.array = s.array → t.off + t.len ≤ s.off + s.len ∨ s.off + s.len + k ≤ t.off

instance (s : Slice) (k : ℕ) (t : Slice) : Decidable (Clear s k t) :=
  inferInstanceAs (Decidable (_ → _))

/-- The line that `Add` makes longer. -/
def lineFor (ip : Text) (es : List HostEntry) : Option HostEntry :=
  es.find? fun e => e.isActive ∧ e.ip = ip

theorem word_of_mem_cleaned (h : ∀ host ∈ hosts, ∀ r ∈ trimSpace host, r.isSpace = false) :
    ∀ w ∈ cleaned hosts, Word w := by
  intro w hw
  obtain ⟨hmem, hne⟩ := List.mem_filter.mp hw
  obtain ⟨host, hhost, rfl⟩ := List.mem_map.mp hmem
  exact ⟨of_decide_eq_true hne, h host hhost⟩

section Add

variable (grow : ℕ → ℕ → ℕ) {validHosts : List Text}

/-- The entry with the hostnames that were appended to its own. -/
def appendedEntry (grow : ℕ → ℕ → ℕ) (m : Arrays Text) (e : HostEntry) (added : List Text) :
    HostEntry :=
  { e with
    hostnames := (Slice.appendAll grow m e.hostnames added).2
    raw := if added = [] then e.raw else
      formatEntry e.ip ((Slice.appendAll grow m e.hostnames added).2.read
        (Slice.appendAll grow m e.hostnames added).1) }

section

variable (h : Good m e) (hactive : e.isActive = true) {added : List Text}
  (hwords : ∀ w ∈ added, Word w)
include h hactive hwords

theorem good_appended :
    Good (Slice.appendAll grow m e.hostnames added).1 (appendedEntry grow m e added) := by
  unfold appendedEntry
  by_cases hnone : added = []
  · subst hnone
    exact h
  · obtain ⟨hip, hne, hold⟩ := h.words hactive
    have happ := Slice.appended_appendAll grow h.inBounds added
    have hgood := good_written hip happ.inBounds happ.read (List.append_ne_nil_of_left_ne_nil hne _)
      (List.forall_mem_append.mpr ⟨hold, hwords⟩)
    rw [if_neg hnone]
    rw [← hactive] at hgood
    exact hgood

theorem replaces_appended :
    Replaces (fun a i => a = e.hostnames.array ∧ e.hostnames.off + e.hostnames.len ≤ i ∧
        i < e.hostnames.off + e.hostnames.len + added.length) m e
      (Slice.appendAll grow m e.hostnames added).1 [appendedEntry grow m e added] := by
  have happ := Slice.appended_appendAll grow h.inBounds added
  refine ⟨happ.unchanged, sound_singleton (good_appended grow h hactive hwords), ?_⟩
  intro o ho a i hcovers
  rw [List.mem_singleton.mp ho] at hcovers
  obtain ⟨rfl, hlow, hhigh⟩ := hcovers
  simp only [appendedEntry] at hlow hhigh ⊢
  rcases happ.place with ⟨harray, hoff, hlen⟩ | hfresh
  · -- a cell of the longer slice is one of the old slice or one of those behind it
    by_cases hold : i < e.hostnames.off + e.hostnames.len
    · exact .inl ⟨harray.symm, by omega, hold⟩
    · exact .inr (.inl ⟨harray, by omega, by omega⟩)
  · exact .inr (.inr hfresh)

end

theorem Sound.addToLine (h : Sound m (done ++ es)) (hwords : ∀ w ∈ validHosts, Word w)
    (hclear : ∀ e, lineFor ip es = some e → ∀ x ∈ done ++ es,
      Clear e.hostnames (unseen (e.hostnames.read m) validHosts).length x.hostnames)
    (hadd : addToLine grow m ip validHosts es = some (m', es')) : Sound m' (done ++ es') := by
  induction es generalizing done es' with
  | nil => cases hadd
  | cons e es ih =>
    unfold Syshosts.addToLine at hadd
    split at hadd
    · next hline =>
      cases hadd
      have hfirst : lineFor ip (e :: es) = some e := List.find?_cons_of_pos (decide_eq_true hline)
      have hadded : ∀ w ∈ unseen (e.hostnames.read m) validHosts, Word w :=
        fun w hw => hwords w ((mem_unseen.mp hw).1)
      have hr := replaces_appended grow (h.good e (List.mem_append_right _ List.mem_cons_self))
        hline.1 hadded
      refine h.replace hr fun x hx a i hcovers hwritten => ?_
      obtain ⟨rfl, hlow, hhigh⟩ := hcovers
      obtain ⟨harray, hlow', hhigh'⟩ := hwritten
      rcases hclear e hfirst x (mem_append_cons hx e) harray with hbefore | hbehind
      · omega
      · omega
    · next hline =>
      split at hadd
      · cases hadd
      · next m1 es1 hrest =>
        cases hadd
        have hlater : lineFor ip (e :: es) = lineFor ip es :=
          List.find?_cons_of_neg (by rw [decide_eq_true_eq]; exact hline)
        have hassoc : done ++ e :: es = (done ++ [e]) ++ es := by simp
        rw [hlater, hassoc] at hclear
        rw [hassoc] at h
        have hend := ih h hclear hrest
        rw [List.append_assoc] at hend
        exact hend

theorem Sound.add {h : Hosts} (hs : Sound h.arrays h.entries)
    (hsolid : ∀ host ∈ hosts, ∀ r ∈ trimSpace host, r.isSpace = false)
    (hclear : ∀ e, lineFor ip h.entries = some e → ∀ x ∈ h.entries,
      Clear e.hostnames (unseen (e.hostnames.read h.arrays) (cleaned hosts)).length x.hostnames) :
    Sound (add grow h ip hosts).1.arrays (add grow h ip hosts).1.entries := by
  have hwords := word_of_mem_cleaned hsolid
  simp only [Syshosts.add]
  split
  · exact hs
  · next hip =>
    split
    · exact hs
    · split
      · exact hs
      · next hne =>
        split
        · next m' es' hadd =>
          have hall : Sound h.arrays ([] ++ h.entries) := hs
          exact hall.addToLine grow hwords hclear hadd
        · refine hs.snoc (Slice.unchanged_make _ _ _ _)
            (good_written (not_not.mp hip) (Slice.inBounds_make _ _ _) (Slice.read_make _ _ _) hne
              hwords) ?_
          rintro a i ⟨rfl, -, -⟩
          exact Nat.le_refl _

end Add

/-! ## Sequences of operations -/

section

variable {h : Hosts} (hs : Sound h.arrays h.entries)
include hs

theorem Sound.insertRaw (lines : List Text) :
    Sound (insertRaw h lines).arrays (insertRaw h lines).entries := by
  induction lines generalizing h with
  | nil => exact hs
  | cons line lines ih =>
    obtain ⟨hm, hfresh⟩ := parseLine_fresh h.arrays line
    exact ih (hs.snoc hm (good_parseLine h.arrays line) hfresh)

theorem Sound.removeDuplicateHosts :
    Sound (removeDuplicateHosts h).arrays (removeDuplicateHosts h).entries := by
  have hinLine := Sound.rebuild
    (fun m st e _ hgood => replaces_uniqueInLineStep st hgood) () hs
  exact Sound.rebuild
    (fun m st e _ hgood => replaces_uniqueAcrossStep st hgood) [] hinLine

theorem Sound.combineDuplicateIPs :
    Sound (combineDuplicateIPs h).arrays (combineDuplicateIPs h).entries := by
  have hstart : Collected [] ∅ [] :=
    ⟨fun ip hosts hlookup => by simp at hlookup, fun e he => absurd he List.not_mem_nil, .refl _⟩
  have hc := hstart.combineLoop hs.good false
  simp only [Syshosts.combineDuplicateIPs]
  split
  · exact hs
  · exact Sound.rebuild (fun m st e he hgood => replaces_combineStep hc he st hgood) ()
      (hs.sublist hc.sublist)

theorem Sound.remove (ip : Text) (hosts : List Text) :
    Sound (remove h ip hosts).1.arrays (remove h ip hosts).1.entries := by
  simp only [Syshosts.remove]
  split
  · exact hs
  · split
    · exact hs
    · split
      · exact hs
      · have hend := hs.rebuild
          (fun m st e _ hgood => replaces_removeStep ip (cleaned hosts) st hgood)
          ⟨false, false, false⟩
        split
        · exact hs
        · split
          · exact hs
          · split
            · exact hend
            · exact hs

theorem Sound.removeByHostname (host : Text) :
    Sound (removeByHostname h host).1.arrays (removeByHostname h host).1.entries := by
  simp only [Syshosts.removeByHostname]
  split
  · exact hs
  · split
    · exact hs
    · exact Sound.rebuild
        (fun m st e _ hgood => replaces_removeByHostnameStep _ st hgood) false hs

theorem Sound.sortIPs : Sound (sortIPs h).arrays (sortIPs h).entries := by
  refine hs.perm ?_
  have hsorted := List.perm_insertionSort (fun a b : HostEntry => ¬ ipLess b.ip a.ip)
    (h.entries.filter (·.isActive))
  exact ((List.Perm.refl _).append hsorted).trans
    (List.perm_append_comm.trans (List.filter_append_perm _ _))

end

/-- Hostnames that are added have no white space inside. -/
def NoInnerSpace : Operation → Prop
  | .add _ hosts => ∀ host ∈ hosts, ∀ r ∈ trimSpace host, r.isSpace = false
  | _ => True

/-- The cells behind the line that is made longer, as many as hostnames are new, hold no other
entry's hostnames. -/
def HasRoom (h : Hosts) : Operation → Prop
  | .add ip hosts => ∀ e, lineFor ip h.entries = some e → ∀ x ∈ h.entries,
      Clear e.hostnames (unseen (e.hostnames.read h.arrays) (cleaned hosts)).length x.hostnames
  | _ => True

/-- A file that was just read. -/
def Loaded (h : Hosts) : Prop := ∃ lines, h = newHosts lines

theorem sound_step {grow : ℕ → ℕ → ℕ} {h h' : Hosts} {op : Operation} {o : Unit}
    (hs : Sound h.arrays h.entries) (hsolid : NoInnerSpace op) (hroom : HasRoom h op)
    (hstep : step grow h op = .ok (h', o)) : Sound h'.arrays h'.entries := by
  cases op with
  | add ip hosts => cases hstep; exact hs.add grow hsolid hroom
  | remove ip hosts => cases hstep; exact hs.remove ip hosts
  | removeByHostname host => cases hstep; exact hs.removeByHostname host
  | removeByIP ip => cases hstep; exact hs.sublist List.filter_sublist
  | insertRaw lines => cases hstep; exact hs.insertRaw lines
  | removeDuplicateHosts => cases hstep; exact hs.removeDuplicateHosts
  | wrapLinesAtMaxHostsPerLine count =>
    cases hstep
    unfold wrapLinesAtMaxHostsPerLine
    split
    · exact hs
    · exact Sound.rebuild
        (fun m st e _ hgood => replaces_wrapStep (by omega) st hgood) () hs
  | combineDuplicateIPs => cases hstep; exact hs.combineDuplicateIPs
  | clean =>
    cases hstep
    exact (Sound.removeDuplicateHosts hs.combineDuplicateIPs).sublist List.filter_sublist
  | sortHosts =>
    cases hstep
    exact Sound.rebuild (fun m st e _ hgood => replaces_sortHostsStep st hgood) () hs
  | sortIPs => cases hstep; exact hs.sortIPs

/-- **Text and hostnames agree** in every run in which what `Add` appends does not run into
another entry's hostnames. -/
theorem hosts_text_agrees (grow : ℕ → ℕ → ℕ) (h : Hosts)
    (hreach : Reach (step grow) Loaded (fun h op => NoInnerSpace op ∧ HasRoom h op) h) :
    ∀ e ∈ h.entries, Agrees h.arrays e := by
  have hsound : Sound h.arrays h.entries := by
    refine hreach.invariant (I := fun h => Sound h.arrays h.entries) ?_ ?_
    · rintro h ⟨lines, rfl⟩
      exact Sound.insertRaw (h := ⟨⟨fun _ => [], 0⟩, []⟩) (sound_nil _) lines
    · rintro h op h' o hs ⟨hsolid, hroom⟩ hstep
      exact sound_step hs hsolid hroom hstep
  exact fun e he => (hsound.good e he).agrees

namespace Sample

/-- The test of `NoInnerSpace`. -/
def noInnerSpaceTest (_ : Hosts) : Operation → Bool
  | .add _ hosts => hosts.all fun host => (trimSpace host).all (!·.isSpace)
  | _ => true

/-- The test of `HasRoom`. -/
def hasRoomTest (h : Hosts) : Operation → Bool
  | .add ip hosts =>
    match lineFor ip h.entries with
    | none => true
    | some e => h.entries.all fun x =>
        decide (Clear e.hostnames (unseen (e.hostnames.read h.arrays) (cleaned hosts)).length
          x.hostnames)
  | _ => true

theorem noInnerSpace_of_test {h : Hosts} {op : Operation} (htest : noInnerSpaceTest h op = true) :
    NoInnerSpace op := by
  cases op with
  | add ip hosts =>
    intro host hhost r hr
    have hall := List.all_eq_true.mp (List.all_eq_true.mp htest host hhost) r hr
    simpa using hall
  | _ => trivial

theorem hasRoom_of_test {h : Hosts} {op : Operation} (htest : hasRoomTest h op = true) :
    HasRoom h op := by
  cases op with
  | add ip hosts =>
    intro e hline x hx
    simp only [hasRoomTest, hline] at htest
    exact of_decide_eq_true (List.all_eq_true.mp htest x hx)
  | _ => trivial

/-- Go doubles a small slice. -/
def double (cap n : ℕ) : ℕ := max (2 * cap) n

def wrappedIP : Text := ofString "1.2.3.4"

/-- A line gets another hostname, is wrapped, and a second IP is added. -/
def roomy : List Operation :=
  [.add wrappedIP [ofString "x"], .wrapLinesAtMaxHostsPerLine 2,
    .add (ofString "5.6.7.8") [ofString "y"]]

/-- A line is wrapped, and then gets another hostname. -/
def crowded : List Operation := [.wrapLinesAtMaxHostsPerLine 2, .add wrappedIP [ofString "x"]]

/-- Some entry's hostnames are not those in its text. -/
def disagreeing (h : Hosts) : Bool :=
  h.entries.any fun e =>
    (parseLine h.arrays e.raw).2.hostnames.read (parseLine h.arrays e.raw).1 ≠
      e.hostnames.read h.arrays

end Sample

open Syshosts.Sample in
theorem hosts_text_agrees_roomy :
    ∃ h, Reach (step double) Loaded (fun h op => NoInnerSpace op ∧ HasRoom h op) h ∧
      h.entries.length = 3 ∧ ∀ e ∈ h.entries, Agrees h.arrays e := by
  have hrun : ((runAllowed (step double) (fun h op => noInnerSpaceTest h op && hasRoomTest h op)
      (newHosts [ofString "1.2.3.4 a b"]) roomy).any (·.entries.length = 3)) = true := by
    decide +kernel
  obtain ⟨h, hh, hlen⟩ := (Option.any_eq_true _ _).mp hrun
  have hreach : Reach (step double) Loaded (fun h op => NoInnerSpace op ∧ HasRoom h op) h := by
    refine .of_runAllowed (fun h op htest => ?_) (.init ⟨_, rfl⟩) hh
    obtain ⟨hsolid, hroom⟩ := Bool.and_eq_true_iff.mp htest
    exact ⟨noInnerSpace_of_test hsolid, hasRoom_of_test hroom⟩
  exact ⟨h, hreach, of_decide_eq_true hlen, hosts_text_agrees double h hreach⟩

open Syshosts.Sample in
/-- The second half of the wrapped line is overwritten, and its text stays. -/
theorem hosts_text_overwritten :
    ∃ h, Reach (step double) Loaded (fun _ op => NoInnerSpace op) h ∧
      ∃ e ∈ h.entries, ¬ Agrees h.arrays e := by
  have hrun : ((runAllowed (step double) noInnerSpaceTest
      (newHosts [ofString "1.2.3.4 a b c d"]) crowded).any disagreeing) = true := by
    decide +kernel
  obtain ⟨h, hh, hdisagree⟩ := (Option.any_eq_true _ _).mp hrun
  obtain ⟨e, he, hne⟩ := List.any_eq_true.mp hdisagree
  refine ⟨h, .of_runAllowed (fun _ _ => noInnerSpace_of_test) (.init ⟨_, rfl⟩) hh, e, he, ?_⟩
  exact fun hagrees => of_decide_eq_true hne hagrees.2.2

end N2nGo.Syshosts
