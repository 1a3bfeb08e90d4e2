import N2nGo.Analysis.HostLines

/-!
# The layout of the hosts file

`WrapLinesAtMaxHostsPerLine` cuts long lines into chunks and does nothing else. Reading the
file and writing it back gives the same content unless the content ends in an empty line:
what is joined then ends in a newline already, and none is added for the last line.
-/

set_option autoImplicit false

namespace N2nGo.Syshosts

open N2nGo.Lib N2nGo.Lib.Text

/-! ## Wrapping -/

/-- What comes in the place of a line: the line itself if it is inactive or short enough, and
otherwise lines of the same IP with its hostnames in order. -/
structure Rechunked (count : ℕ) (l : Line) (outs : List Line) : Prop where
  kept : l.isActive = false ∨ l.hostnames.length ≤ count → outs = [l]
  names : outs.flatMap (·.hostnames) = l.hostnames
  same : ∀ o ∈ outs, o.ip = l.ip ∧ o.isActive = l.isActive
  bounded : l.isActive = true → ∀ o ∈ outs, o.hostnames.length ≤ count
  created : l.isActive = true → count < l.hostnames.length →
    ∀ o ∈ outs, o.hostnames ≠ [] ∧ o.raw = formatEntry o.ip o.hostnames

section Wrap

variable {m : Arrays Text} {e : HostEntry} {es : List HostEntry} {s : Slice} {count : ℕ}

theorem len_of_mem_chunks {fuel start : ℕ} {chunk : Slice} (h : chunk ∈ chunks s count fuel start) :
    chunk.len ≤ count := by
  induction fuel generalizing start with
  | zero => cases h
  | succ fuel ih =>
    unfold chunks at h
    split at h
    · rcases List.mem_cons.mp h with rfl | h
      · show min (start + count) s.len - start ≤ count
        omega
      · exact ih h
    · cases h

theorem chunks_fuel (hcount : 0 < count) {fuel fuel' start : ℕ} (hfuel : s.len ≤ fuel + start)
    (hle : fuel ≤ fuel') : chunks s count fuel' start = chunks s count fuel start := by
  induction fuel generalizing fuel' start with
  | zero =>
    cases fuel' with
    | zero => rfl
    | succ fuel' => exact if_neg (by omega)
  | succ fuel ih =>
    obtain ⟨k, rfl⟩ : ∃ k, fuel' = k + 1 := ⟨fuel' - 1, by omega⟩
    unfold chunks
    rw [ih (by omega) (by omega)]

theorem rechunked_wrapStep (hcount : 0 < count) (he : e.hostnames.InBounds m) :
    Rechunked count (e.line m) ((wrapStep count m () e).2.2.map (HostEntry.line m)) := by
  have hlen : (e.line m).hostnames.length = e.hostnames.len := he.length_read
  by_cases hkeep : ¬ e.isActive = true ∨ e.hostnames.len ≤ count
  · have hself : (wrapStep count m () e).2.2 = [e] := by
      simp only [wrapStep]
      rw [if_pos hkeep]
    rw [hself]
    refine ⟨fun _ => rfl, List.append_nil _, ?_, ?_, ?_⟩
    · intro o ho
      rw [List.mem_singleton.mp ho]
      exact ⟨rfl, rfl⟩
    · intro hactive o ho
      rw [List.mem_singleton.mp ho, hlen]
      exact hkeep.resolve_left (not_not.mpr hactive)
    · intro hactive hlong
      have hshort := hkeep.resolve_left (not_not.mpr hactive)
      omega
  · have hactive : e.isActive = true := not_not.mp fun hinactive => hkeep (.inl hinactive)
    have hlong : ¬ e.hostnames.len ≤ count := fun hshort => hkeep (.inr hshort)
    have hcut : (wrapStep count m () e).2.2.map (HostEntry.line m) =
        (chunks e.hostnames count e.hostnames.len 0).map fun chunk =>
          ⟨e.ip, chunk.read m, formatEntry e.ip (chunk.read m), true⟩ := by
      simp only [wrapStep]
      rw [if_neg hkeep, List.map_map]
      rfl
    have hchunk : ∀ chunk ∈ chunks e.hostnames count e.hostnames.len 0,
        (chunk.read m).length = chunk.len ∧ 0 < chunk.len := by
      intro chunk hmem
      obtain ⟨lo, hi, rfl, -, hlt, hhi⟩ := mem_chunks hcount hmem
      exact ⟨(Slice.inBounds_sub he hhi).length_read, Nat.sub_pos_of_lt hlt⟩
    rw [hcut]
    refine ⟨?_, ?_, ?_, ?_, ?_⟩
    · rintro (hinactive | hshort)
      · exact absurd hactive (Bool.eq_false_iff.mp hinactive)
      · exact absurd (hlen ▸ hshort) hlong
    · rw [List.flatMap_map]
      exact flatMap_chunks hcount m (Nat.le_refl _)
    · intro o ho
      obtain ⟨chunk, -, rfl⟩ := List.mem_map.mp ho
      exact ⟨rfl, hactive.symm⟩
    · intro _ o ho
      obtain ⟨chunk, hmem, rfl⟩ := List.mem_map.mp ho
      rw [(hchunk chunk hmem).1]
      exact len_of_mem_chunks hmem
    · intro _ _ o ho
      obtain ⟨chunk, hmem, rfl⟩ := List.mem_map.mp ho
      refine ⟨List.length_pos_iff.mp ?_, rfl⟩
      rw [(hchunk chunk hmem).1]
      exact (hchunk chunk hmem).2

theorem rebuild_wrapStep (count : ℕ) (m : Arrays Text) (es : List HostEntry) :
    rebuild (wrapStep count) m () es =
      (m, (), es.flatMap fun e => (wrapStep count m () e).2.2) := by
  induction es with
  | nil => rfl
  | cons e es ih =>
    have hm : (wrapStep count m () e).1 = m := by
      unfold wrapStep
      split
      · rfl
      · rfl
    rw [rebuild, hm, ih]
    rfl

/-- The chunks are short enough, so the next wrapping has nothing to cut. -/
theorem len_of_mem_wrapStep {o : HostEntry} (ho : o ∈ (wrapStep count m () e).2.2) :
    ¬ o.isActive = true ∨ o.hostnames.len ≤ count := by
  unfold wrapStep at ho
  split at ho
  · next hkeep =>
    rw [List.mem_singleton.mp ho]
    exact hkeep
  · obtain ⟨chunk, hmem, rfl⟩ := List.mem_map.mp ho
    exact Or.inr (len_of_mem_chunks hmem)

end Wrap

/-- What `WrapLinesAtMaxHostsPerLine` does for a count of one or more. -/
structure Wrapped (h : Hosts) (count : ℤ) : Prop where
  terminates : ∀ e ∈ h.entries, ∀ fuel, e.hostnames.len ≤ fuel →
    chunks e.hostnames count.toNat fuel 0 = chunks e.hostnames count.toNat e.hostnames.len 0
  inPlace : ∃ outs, List.Forall₂ (Rechunked count.toNat) h.lines outs ∧
    (wrapLinesAtMaxHostsPerLine h count).lines = outs.flatten
  bounded : ∀ l ∈ (wrapLinesAtMaxHostsPerLine h count).lines, l.isActive = true →
    (l.hostnames.length : ℤ) ≤ count
  again : wrapLinesAtMaxHostsPerLine (wrapLinesAtMaxHostsPerLine h count) count =
    wrapLinesAtMaxHostsPerLine h count

/-- **`WrapLinesAtMaxHostsPerLine` only re-chunks.**
GOLINE: syshosts/extents.go:111-170 -/
theorem wrap_rechunks (s : State) (count : ℤ) :
    (1 ≤ count → Wrapped s.hosts count) ∧
      (count ≤ 0 → wrapLinesAtMaxHostsPerLine s.hosts count = s.hosts) := by
  refine ⟨fun hcount => ?_, fun hcount => if_pos hcount⟩
  have hpos : 0 < count.toNat := by omega
  have hwrap : ∀ h, wrapLinesAtMaxHostsPerLine h count =
      ⟨h.arrays, h.entries.flatMap fun e => (wrapStep count.toNat h.arrays () e).2.2⟩ := by
    intro h
    simp only [wrapLinesAtMaxHostsPerLine]
    rw [if_neg (by omega), rebuild_wrapStep]
  have hforall : List.Forall₂ (Rechunked count.toNat) s.hosts.lines (s.hosts.entries.map fun e =>
      (wrapStep count.toNat s.hosts.arrays () e).2.2.map (HostEntry.line s.hosts.arrays)) := by
    unfold Hosts.lines
    rw [List.forall₂_map_left_iff, List.forall₂_map_right_iff, List.forall₂_same]
    exact fun e he => rechunked_wrapStep hpos (s.inMemory e he)
  have hlines : (wrapLinesAtMaxHostsPerLine s.hosts count).lines =
      (s.hosts.entries.map fun e => (wrapStep count.toNat s.hosts.arrays () e).2.2.map
        (HostEntry.line s.hosts.arrays)).flatten := by
    rw [hwrap]
    unfold Hosts.lines
    rw [List.map_flatMap, List.flatMap_def]
  refine ⟨fun e _ fuel hfuel => chunks_fuel hpos (Nat.le_refl _) hfuel, ⟨_, hforall, hlines⟩,
    ?_, ?_⟩
  · intro l hl hactive
    rw [hlines] at hl
    obtain ⟨outs, houts, hmem⟩ := List.mem_flatten.mp hl
    obtain ⟨e, he, rfl⟩ := List.mem_map.mp houts
    have hre := rechunked_wrapStep hpos (s.inMemory e he)
    have hlen := hre.bounded ((hre.same l hmem).2 ▸ hactive) l hmem
    omega
  · rw [hwrap s.hosts, hwrap]
    refine congrArg _ ?_
    have hself : ∀ o ∈
        s.hosts.entries.flatMap fun e => (wrapStep count.toNat s.hosts.arrays () e).2.2,
        (wrapStep count.toNat s.hosts.arrays () o).2.2 = [o] := by
      intro o ho
      obtain ⟨e, -, hmem⟩ := List.mem_flatMap.mp ho
      simp only [wrapStep]
      rw [if_pos (len_of_mem_wrapStep hmem)]
    rw [List.flatMap_congr hself, List.flatMap_singleton']

/-! ## Reading and writing -/

section Content

variable {content : Text}

theorem raw_insertRaw (h : Hosts) (lines : List Text) :
    (insertRaw h lines).entries.map (·.raw) = h.entries.map (·.raw) ++ lines := by
  induction lines generalizing h with
  | nil => exact (List.append_nil _).symm
  | cons line lines ih =>
    have hraw : (parseLine h.arrays line).2.raw = line := by
      rcases hline : lineOf line with _ | ⟨ip, hosts⟩
      · rw [parseLine_of_none _ hline]
      · rw [parseLine_of_some _ hline]
    rw [insertRaw, ih, List.map_append, List.map_singleton, hraw, List.append_assoc]
    rfl

theorem raw_newHosts (lines : List Text) : (newHosts lines).entries.map (·.raw) = lines :=
  raw_insertRaw _ lines

theorem splitLines_append_newline (init : Text) :
    splitLines (init ++ [newline]) = init.splitOn newline := by
  unfold splitLines
  rw [List.splitOn_append_cons_self, List.splitOn_nil]
  simp

theorem mem_intercalate_of_mem (sep : Text) {line : Text} {lines : List Text} {r : Rune}
    (hline : line ∈ lines) (hr : r ∈ line) : r ∈ sep.intercalate lines := by
  induction lines with
  | nil => cases hline
  | cons first lines ih =>
    cases lines with
    | nil =>
      rw [List.mem_singleton.mp hline] at hr
      rw [List.intercalate_singleton]
      exact hr
    | cons second lines =>
      rw [List.intercalate_cons_cons]
      rcases List.mem_cons.mp hline with rfl | hline
      · exact List.mem_append_left _ (List.mem_append_left _ hr)
      · exact List.mem_append_right _ (ih hline)

theorem mem_of_mem_splitOn {line : Text} {r : Rune} (hline : line ∈ content.splitOn newline)
    (hr : r ∈ line) : r ∈ content := by
  have hmem := mem_intercalate_of_mem [newline] hline hr
  rw [List.intercalate_splitOn] at hmem
  exact hmem

theorem dropCR_eq_self {line : Text} (h : carriageReturn ∉ line) : dropCR line = line :=
  if_neg fun hlast => h (List.mem_of_getLast? hlast)

theorem write_newHosts_splitOn (init : Text) :
    write (newHosts (init.splitOn newline)) =
      if init.getLast? = some newline then init else init ++ [newline] := by
  unfold write
  rw [raw_newHosts, List.intercalate_splitOn]

theorem loadAndParse_append_newline {init : Text} (hcr : carriageReturn ∉ init)
    (hshort : ∀ line ∈ init.splitOn newline, (bytes line).length < maxScanTokenSize) :
    loadAndParse (some (init ++ [newline])) = .ok (newHosts (init.splitOn newline)) := by
  have hfits : ¬ ((init.splitOn newline).any fun line =>
      maxScanTokenSize ≤ (bytes line).length) = true := by
    rw [List.any_eq_true]
    rintro ⟨line, hline, hlong⟩
    exact Nat.not_lt.mpr (of_decide_eq_true hlong) (hshort line hline)
  have hself : (init.splitOn newline).map dropCR = init.splitOn newline := by
    have hline : ∀ line ∈ init.splitOn newline, dropCR line = id line := fun line hline =>
      dropCR_eq_self fun hmem => hcr (mem_of_mem_splitOn hline hmem)
    rw [List.map_congr_left hline, List.map_id]
  simp only [loadAndParse]
  rw [splitLines_append_newline, if_neg hfits, hself]

/-- **Reading and writing back is lossless unless the content ends in an empty line.**
GOLINE: syshosts/hostsfiles.go:57-79, 245-267 -/
theorem load_write_iff (content : Text) (hend : content.getLast? = some newline)
    (hcr : carriageReturn ∉ content)
    (hshort : ∀ line ∈ content.splitOn newline, (bytes line).length < maxScanTokenSize) :
    (∃ h, loadAndParse (some content) = .ok h ∧ (write h).bytes = content.bytes) ↔
      ¬ [newline, newline] <:+ content := by
  obtain ⟨init, rfl⟩ := List.getLast?_eq_some_iff.mp hend
  have hload : loadAndParse (some (init ++ [newline])) = .ok (newHosts (init.splitOn newline)) := by
    refine loadAndParse_append_newline (fun hmem => hcr (List.mem_append_left _ hmem)) ?_
    intro line hline
    refine hshort line ?_
    rw [List.splitOn_append_cons_self]
    exact List.mem_append_left _ hline
  have hwrite := write_newHosts_splitOn init
  have hends : [newline, newline] <:+ init ++ [newline] ↔ init.getLast? = some newline := by
    rw [List.getLast?_eq_some_iff]
    constructor
    · rintro ⟨front, hfront⟩
      refine ⟨front, (List.append_left_inj [newline]).mp ?_⟩
      rw [← hfront, List.append_assoc]
      rfl
    · rintro ⟨front, rfl⟩
      exact ⟨front, (List.append_assoc front [newline] [newline]).symm⟩
  rw [hends]
  constructor
  · rintro ⟨h, hok, hbytes⟩ hlast
    rw [hload] at hok
    cases hok
    rw [hwrite, if_pos hlast] at hbytes
    have hlen := congrArg List.length hbytes
    unfold bytes at hlen
    rw [List.flatMap_append, List.length_append] at hlen
    have hone : ([newline].flatMap Rune.bytes).length = 1 := by decide +kernel
    omega
  · intro hlast
    refine ⟨_, hload, ?_⟩
    rw [hwrite, if_neg hlast]

/-- A file of one line. -/
theorem load_write_line :
    (∃ h, loadAndParse (some (ofString "127.0.0.1 localhost\n")) = .ok h ∧
      (write h).bytes = bytes (ofString "127.0.0.1 localhost\n")) ↔
        ¬ [newline, newline] <:+ ofString "127.0.0.1 localhost\n" :=
  load_write_iff _ (by decide +kernel) (by decide +kernel) (by decide +kernel)

/-- A comment and an empty line come back without the empty line. -/
theorem load_write_drops_empty_line :
    (loadAndParse (some (ofString "#\n\n"))).toOption.map (fun h => (write h).bytes) =
      some (bytes (ofString "#\n")) := by
  decide +kernel

end Content

end N2nGo.Syshosts
