import N2nGo.Analysis.HostRemovals
import N2nGo.Analysis.HostLayout

/-!
# What the text of the hosts file says

`Named` says which pairs of an IP and a hostname the parser finds in lines of text. `Has` on
a file that was just read is `Named` on its lines. `String` and the scanner keep the lines up
to an empty one at the end, so what a state says after it was written and read again is
`Named` on the text of its entries.

`Add` accepts every hostname that is not blank. A hostname with white space inside is more
than one hostname when it is read again, and with a newline inside more than one line. So
what `Add` adds comes back exactly if no hostname has white space inside and the line fits
the scanner (`add_persists_iff`).
-/

set_option autoImplicit false

namespace N2nGo.Syshosts

open N2nGo.Lib N2nGo.Lib.Text

def Hosts.raws (h : Hosts) : List Text := h.entries.map (·.raw)

/-- The parser finds the pair on one of the lines. -/
def Named (lines : List Text) (ip host : Text) : Prop :=
  ∃ line ∈ lines, ∃ hosts, lineOf line = some (ip, hosts) ∧ host ∈ hosts

section Named

variable {lines lines' : List Text} {line ip host : Text} {m : Arrays Text} {es : List HostEntry}

theorem named_append :
    Named (lines ++ lines') ip host ↔ Named lines ip host ∨ Named lines' ip host := by
  simp only [Named, List.mem_append, or_and_right, exists_or]

theorem named_cons : Named (line :: lines) ip host ↔
    (∃ hosts, lineOf line = some (ip, hosts) ∧ host ∈ hosts) ∨ Named lines ip host := by
  simp only [Named, List.mem_cons, or_and_right, exists_or, exists_eq_left]

theorem named_singleton : Named [line] ip host ↔
    ∃ hosts, lineOf line = some (ip, hosts) ∧ host ∈ hosts := by
  simp only [Named, List.mem_singleton, exists_eq_left]

theorem exists_lineOf_iff {ip' : Text} {all : List Text} (h : lineOf line = some (ip, all)) :
    (∃ hosts, lineOf line = some (ip', hosts) ∧ host ∈ hosts) ↔ ip' = ip ∧ host ∈ all := by
  rw [h]
  constructor
  · rintro ⟨hosts, heq, hhost⟩
    cases heq
    exact ⟨rfl, hhost⟩
  · rintro ⟨rfl, hhost⟩
    exact ⟨all, rfl, hhost⟩

theorem Named.word (h : Named lines ip host) : Word host := by
  obtain ⟨line, -, hosts, hline, hhost⟩ := h
  exact (lineOf_some hline).2.2 host hhost

theorem named_map {f : Text → Text} (hf : ∀ line ∈ lines, lineOf (f line) = lineOf line) :
    Named (lines.map f) ip host ↔ Named lines ip host := by
  constructor
  · rintro ⟨line', hmapped, hosts, hline, hhost⟩
    obtain ⟨line, hmem, rfl⟩ := List.mem_map.mp hmapped
    exact ⟨line, hmem, hosts, (hf line hmem).symm.trans hline, hhost⟩
  · rintro ⟨line, hmem, hosts, hline, hhost⟩
    exact ⟨f line, List.mem_map_of_mem hmem, hosts, (hf line hmem).trans hline, hhost⟩

theorem paired_iff_named (hgood : ∀ e ∈ es, Good m e) :
    Paired (es.map (HostEntry.line m)) ip host ↔ Named (es.map (·.raw)) ip host := by
  constructor
  · rintro ⟨l, hl, hactive, hip, hhost⟩
    obtain ⟨e, he, rfl⟩ := List.mem_map.mp hl
    cases (hgood e he).reads with
    | active _ hline =>
      refine ⟨e.raw, List.mem_map_of_mem he, e.hostnames.read m, ?_, hhost⟩
      rw [hline]
      exact congrArg (fun ip => some (ip, _)) hip
    | inactive hinactive =>
      rw [show e.isActive = true from hactive] at hinactive
      cases hinactive
  · rintro ⟨line, hmem, hosts, hline, hhost⟩
    obtain ⟨e, he, rfl⟩ := List.mem_map.mp hmem
    cases (hgood e he).reads with
    | active hactive hread =>
      cases hread.symm.trans hline
      exact ⟨e.line m, List.mem_map_of_mem he, hactive, rfl, hhost⟩
    | inactive _ hnone => cases hnone.symm.trans hline

theorem sound_newHosts (lines : List Text) :
    Sound (newHosts lines).arrays (newHosts lines).entries :=
  Sound.insertRaw (h := ⟨⟨fun _ => [], 0⟩, []⟩) (sound_nil _) lines

theorem has_iff_named {h : Hosts} (hs : Sound h.arrays h.entries) :
    has h ip host = true ↔ Named h.raws ip (trimSpace host) := by
  have hnamed : Paired h.lines ip (trimSpace host) ↔ Named h.raws ip (trimSpace host) :=
    paired_iff_named hs.good
  rw [has_iff, hnamed]
  exact ⟨And.right, fun h => ⟨h.word.ne_nil, h⟩⟩

end Named

/-! ## The scanner -/

section Scanner

variable {lines : List Text} {line : Text}

theorem trimSpace_dropCR (line : Text) : trimSpace (dropCR line) = trimSpace line := by
  unfold dropCR
  split
  · next hlast =>
    obtain ⟨init, rfl⟩ := List.getLast?_eq_some_iff.mp hlast
    rw [List.dropLast_concat, trimSpace_concat (by decide)]
  · rfl

theorem lineOf_dropCR (line : Text) : lineOf (dropCR line) = lineOf line := by
  unfold lineOf
  rw [trimSpace_dropCR]

theorem dropCR_isPrefix (line : Text) : dropCR line <+: line := by
  unfold dropCR
  split
  · exact List.dropLast_prefix line
  · exact List.prefix_rfl

theorem length_bytes_dropCR (line : Text) : (dropCR line).bytes.length ≤ line.bytes.length := by
  obtain ⟨rest, hrest⟩ := dropCR_isPrefix line
  rw [← congrArg bytes hrest, bytes, bytes, List.flatMap_append, List.length_append]
  exact Nat.le_add_right _ _

theorem newline_not_mem_splitOn (content : Text) :
    ∀ line ∈ content.splitOn newline, newline ∉ line := by
  induction content with
  | nil =>
    rw [List.splitOn_nil]
    exact List.forall_mem_singleton.mpr List.not_mem_nil
  | cons r content ih =>
    rw [List.splitOn_cons_eq_if_modifyHead]
    split
    · exact List.forall_mem_cons.mpr ⟨List.not_mem_nil, ih⟩
    · next hr =>
      obtain ⟨first, others, hsplit⟩ := List.exists_cons_of_ne_nil
        (List.splitOn_ne_nil newline content)
      rw [hsplit] at ih ⊢
      obtain ⟨hfirst, hothers⟩ := List.forall_mem_cons.mp ih
      refine List.forall_mem_cons.mpr ⟨?_, hothers⟩
      rw [List.mem_cons, not_or]
      exact ⟨fun heq => hr (beq_iff_eq.mpr heq.symm), hfirst⟩

theorem newline_not_mem_splitLines (content : Text) :
    ∀ line ∈ splitLines content, newline ∉ line := by
  intro line hline
  refine newline_not_mem_splitOn content line ?_
  unfold splitLines at hline
  simp only at hline
  split at hline
  · exact List.dropLast_subset _ hline
  · exact hline

theorem splitLines_string {h : Hosts} (hlines : ∀ line ∈ h.raws, newline ∉ line) :
    ∃ blank, (blank = [] ∨ blank = [[]]) ∧ h.raws = splitLines (string h) ++ blank := by
  by_cases hempty : h.raws = []
  · have hnil : h.entries = [] := List.map_eq_nil_iff.mp hempty
    refine ⟨[], .inl rfl, ?_⟩
    rw [hempty, string, hnil]
    rfl
  · have hsplit : ([newline].intercalate h.raws).splitOn newline = h.raws :=
      List.splitOn_intercalate newline hlines hempty
    have hpos : 0 < h.entries.length :=
      List.length_pos_iff.mpr fun hnil => hempty (List.map_eq_nil_iff.mpr hnil)
    show ∃ blank, _ ∧ h.raws = splitLines (if 0 < h.entries.length ∧
      ([newline].intercalate h.raws).getLast? ≠ some newline then
        [newline].intercalate h.raws ++ [newline] else [newline].intercalate h.raws) ++ blank
    by_cases hend : ([newline].intercalate h.raws).getLast? = some newline
    · -- the last line is empty, and the scanner does not see it
      rw [if_neg fun hboth => hboth.2 hend, splitLines, hsplit]
      split
      · next hlast =>
        obtain ⟨init, hinit⟩ := List.getLast?_eq_some_iff.mp hlast
        exact ⟨[[]], .inr rfl, by rw [hinit, List.dropLast_concat]⟩
      · exact ⟨[], .inl rfl, (List.append_nil _).symm⟩
    · rw [if_pos ⟨hpos, hend⟩, splitLines_append_newline, hsplit]
      exact ⟨[], .inl rfl, (List.append_nil _).symm⟩

end Scanner

/-! ## Reading again -/

section Reload

variable {h : Hosts} {content ip : Text}

theorem loadAndParse_string (hlines : ∀ line ∈ h.raws, newline ∉ line) :
    (∃ h', loadAndParse (some (string h)) = .ok h') ↔
      ∀ line ∈ h.raws, line.bytes.length < maxScanTokenSize := by
  obtain ⟨blank, hblank, hraws⟩ := splitLines_string hlines
  have hshort : ∀ line ∈ blank, (bytes line).length < maxScanTokenSize := by
    rcases hblank with rfl | rfl
    · exact fun _ hline => absurd hline List.not_mem_nil
    · exact List.forall_mem_singleton.mpr (by decide)
  rw [hraws, List.forall_mem_append, loadAndParse]
  simp only [List.any_eq_true, decide_eq_true_eq]
  split
  · next hlong =>
    obtain ⟨line, hline, hlen⟩ := hlong
    constructor
    · rintro ⟨h', hload⟩
      cases hload
    · intro hfits
      exact absurd (hfits.1 line hline) (Nat.not_lt.mpr hlen)
  · next hlong =>
    refine ⟨fun _ => ⟨fun line hline => ?_, hshort⟩, fun _ => ⟨_, rfl⟩⟩
    exact Nat.not_le.mp fun hlen => hlong ⟨line, hline, hlen⟩

theorem of_loadAndParse (hload : loadAndParse (some content) = .ok h) :
    h = newHosts ((splitLines content).map dropCR) ∧
      ∀ line ∈ splitLines content, line.bytes.length < maxScanTokenSize := by
  rw [loadAndParse] at hload
  simp only [List.any_eq_true, decide_eq_true_eq] at hload
  split at hload
  · cases hload
  · next hlong =>
    cases hload
    refine ⟨rfl, fun line hline => Nat.not_le.mp fun hlen => hlong ⟨line, hline, hlen⟩⟩

theorem has_of_loadAndParse (hload : loadAndParse (some content) = .ok h) (host : Text) :
    has h ip host = true ↔ Named (splitLines content) ip (trimSpace host) := by
  obtain ⟨rfl, -⟩ := of_loadAndParse hload
  have hraws : (newHosts ((splitLines content).map dropCR)).raws =
      (splitLines content).map dropCR :=
    raw_newHosts _
  rw [has_iff_named (sound_newHosts _), hraws, named_map fun line _ => lineOf_dropCR line]

theorem has_of_loadAndParse_string {h' : Hosts} (hlines : ∀ line ∈ h.raws, newline ∉ line)
    (hload : loadAndParse (some (string h)) = .ok h') (host : Text) :
    has h' ip host = true ↔ Named h.raws ip (trimSpace host) := by
  obtain ⟨blank, hblank, hraws⟩ := splitLines_string hlines
  have hnone : ¬ Named blank ip (trimSpace host) := by
    rintro ⟨line, hline, hosts, hsome, -⟩
    rcases hblank with rfl | rfl
    · cases hline
    · rw [List.mem_singleton.mp hline] at hsome
      cases hsome
  rw [has_of_loadAndParse hload, hraws, named_append]
  exact ⟨.inl, fun h => h.resolve_right hnone⟩

end Reload

/-! ## `Add` -/

section Add

variable {grow : ℕ → ℕ → ℕ} {m m' : Arrays Text} {es es' : List HostEntry} {ip ip' host : Text}
  {hosts validHosts : List Text} {h : Hosts}

/-- The text of the line that gets hostnames. -/
def lengthened (m : Arrays Text) (e : HostEntry) (validHosts : List Text) : Text :=
  if unseen (e.hostnames.read m) validHosts = [] then e.raw
  else formatEntry e.ip (e.hostnames.read m ++ unseen (e.hostnames.read m) validHosts)

/-- The line that `Add` writes: the first active line of the IP with the hostnames that it
does not have yet, or a new line.
GOLINE: syshosts/hostsfiles.go:165-200 -/
def addedLine (h : Hosts) (ip : Text) (hosts : List Text) : Text :=
  match h.entries.find? fun e => e.isActive ∧ e.ip = ip with
  | some e => lengthened h.arrays e (cleaned hosts)
  | none => formatEntry ip (cleaned hosts)

theorem find?_of_addToLine_none (h : addToLine grow m ip validHosts es = none) :
    es.find? (fun e => e.isActive ∧ e.ip = ip) = none := by
  induction es with
  | nil => rfl
  | cons e es ih =>
    unfold addToLine at h
    split at h
    · cases h
    · next hline =>
      rw [List.find?_cons_of_neg (by simpa using hline)]
      split at h
      · next hrest => exact ih hrest
      · cases h

theorem raws_addToLine (hin : InMemory m es)
    (hadd : addToLine grow m ip validHosts es = some (m', es')) :
    ∃ front e back, es = front ++ e :: back ∧ e.isActive = true ∧ e.ip = ip ∧
      es.find? (fun e => e.isActive ∧ e.ip = ip) = some e ∧ es'.map (·.raw) =
        front.map (·.raw) ++ lengthened m e validHosts :: back.map (·.raw) := by
  induction es generalizing es' with
  | nil => cases hadd
  | cons e es ih =>
    unfold addToLine at hadd
    split at hadd
    · next hline =>
      cases hadd
      refine ⟨[], e, es, rfl, hline.1, hline.2,
        List.find?_cons_of_pos (decide_eq_true hline), ?_⟩
      have hread := (Slice.appended_appendAll grow (hin e List.mem_cons_self)
        (unseen (e.hostnames.read m) validHosts)).read
      simp only [List.map_cons, List.map_nil, List.nil_append, hread, lengthened]
    · next hline =>
      split at hadd
      · cases hadd
      · next m1 es1 hrest =>
        cases hadd
        have hin' : InMemory m es := hin.subset fun _ hx => List.mem_cons_of_mem _ hx
        obtain ⟨front, e1, back, rfl, hactive, hip, hfind, hraws⟩ := ih hin' hrest
        refine ⟨e :: front, e1, back, rfl, hactive, hip, ?_, ?_⟩
        · rw [List.find?_cons_of_neg (by simpa using hline)]
          exact hfind
        · rw [List.map_cons, hraws]
          rfl

theorem lineOf_lengthened {e : HostEntry} (hgood : Good m e) (hactive : e.isActive = true)
    (hwords : ∀ w ∈ validHosts, Word w) :
    lineOf (lengthened m e validHosts) =
      some (e.ip, e.hostnames.read m ++ unseen (e.hostnames.read m) validHosts) := by
  obtain ⟨hip, hne, hold⟩ := hgood.words hactive
  unfold lengthened
  split
  · next hnone =>
    rw [hnone, List.append_nil]
    cases hgood.reads with
    | active _ hline => exact hline
    | inactive hinactive => rw [hactive] at hinactive; cases hinactive
  · refine lineOf_formatEntry hip (List.append_ne_nil_of_left_ne_nil hne _) ?_
    intro w hw
    rcases List.mem_append.mp hw with hw | hw
    · exact hold w hw
    · exact hwords w (mem_unseen.mp hw).1

theorem add_cases (hadd : (add grow h ip hosts).2 = .ok ()) :
    isIP ip = true ∧ cleaned hosts ≠ [] ∧
      ((∃ m' es', addToLine grow h.arrays ip (cleaned hosts) h.entries = some (m', es') ∧
          (add grow h ip hosts).1 = ⟨m', es'⟩) ∨
        addedLine h ip hosts = formatEntry ip (cleaned hosts) ∧
          (add grow h ip hosts).1.raws = h.raws ++ [addedLine h ip hosts]) := by
  simp only [add] at hadd ⊢
  split at hadd
  · cases hadd
  · next hip =>
    split at hadd
    · cases hadd
    · next hne =>
      split at hadd
      · cases hadd
      · next hvalid =>
        rw [if_neg hip, if_neg hne, if_neg hvalid]
        refine ⟨not_not.mp hip, hvalid, ?_⟩
        split
        · next m' es' hline => exact .inl ⟨m', es', hline, rfl⟩
        · next hnone =>
          have hline : addedLine h ip hosts = formatEntry ip (cleaned hosts) := by
            rw [addedLine, find?_of_addToLine_none hnone]
          refine .inr ⟨hline, ?_⟩
          simp only [hline, Hosts.raws, List.map_append, List.map_cons, List.map_nil,
            Slice.read_make]

theorem newline_not_mem_word {w : Text} (hw : Word w) : newline ∉ w := by
  intro hmem
  have hsolid := hw.solid newline hmem
  cases hsolid

theorem newline_not_mem_join {ws : List Text} (h : ∀ w ∈ ws, Word w) : newline ∉ join ws := by
  induction ws with
  | nil => exact List.not_mem_nil
  | cons w ws ih =>
    obtain ⟨hw, hws⟩ := List.forall_mem_cons.mp h
    cases ws with
    | nil => exact newline_not_mem_word hw
    | cons w' ws =>
      show newline ∉ w ++ space :: join (w' :: ws)
      rw [List.mem_append, List.mem_cons, not_or, not_or]
      exact ⟨newline_not_mem_word hw, by decide, ih hws⟩

theorem newline_not_mem_formatEntry (hip : isIP ip = true) (hwords : ∀ w ∈ hosts, Word w) :
    newline ∉ formatEntry ip hosts := by
  rw [formatEntry, List.mem_append, List.mem_cons, not_or, not_or]
  exact ⟨newline_not_mem_word (word_of_isIP hip).1, by decide, newline_not_mem_join hwords⟩

/-- `Add` puts a line in the place of a line with the IP or of none. The line has the
hostnames that were there and the new ones. -/
def AddsLine (line : Text) (before after : List Text) (ip : Text) (validHosts : List Text) : Prop :=
  ∃ front old back names all : List Text,
    before = front ++ (old ++ back) ∧ after = front ++ line :: back ∧ newline ∉ line ∧
    (∀ ip' host, Named old ip' host ↔ ip' = ip ∧ host ∈ names) ∧
    lineOf line = some (ip, all) ∧ ∀ host, host ∈ all ↔ host ∈ names ∨ host ∈ validHosts

theorem addsLine_addToLine (hs : Sound m es) (hlines : ∀ e ∈ es, newline ∉ e.raw)
    (hip : isIP ip = true) (hwords : ∀ w ∈ cleaned hosts, Word w)
    (hline : addToLine grow m ip (cleaned hosts) es = some (m', es')) :
    AddsLine (addedLine ⟨m, es⟩ ip hosts) (es.map (·.raw)) (es'.map (·.raw)) ip (cleaned hosts) := by
  obtain ⟨front, e, back, rfl, hactive, rfl, hfind, hraws⟩ :=
    raws_addToLine (fun e he => (hs.good e he).inBounds) hline
  have hadded : addedLine ⟨m, front ++ e :: back⟩ e.ip hosts = lengthened m e (cleaned hosts) := by
    simp only [addedLine, hfind]
  rw [hadded]
  have he : e ∈ front ++ e :: back := List.mem_append_right _ List.mem_cons_self
  have hgood := hs.good e he
  obtain ⟨-, -, hold⟩ := hgood.words hactive
  refine ⟨front.map (·.raw), [e.raw], back.map (·.raw), e.hostnames.read m, _, ?_, hraws, ?_, ?_,
    lineOf_lengthened hgood hactive hwords, ?_⟩
  · rw [List.map_append, List.map_cons]
    rfl
  · unfold lengthened
    split
    · exact hlines e he
    · refine newline_not_mem_formatEntry hip fun w hw => ?_
      rcases List.mem_append.mp hw with hw | hw
      · exact hold w hw
      · exact hwords w (mem_unseen.mp hw).1
  · intro ip' host
    cases hgood.reads with
    | active _ hread => rw [named_singleton, exists_lineOf_iff hread]
    | inactive hinactive => rw [hactive] at hinactive; cases hinactive
  · intro host
    rw [List.mem_append, mem_unseen]
    by_cases hknown : host ∈ e.hostnames.read m
    · simp only [hknown, true_or]
    · simp only [hknown, false_or, not_false_eq_true, and_true]

theorem addsLine_formatEntry (before : List Text) (hip : isIP ip = true)
    (hvalid : validHosts ≠ []) (hwords : ∀ w ∈ validHosts, Word w) :
    AddsLine (formatEntry ip validHosts) before (before ++ [formatEntry ip validHosts]) ip
      validHosts := by
  refine ⟨before, [], [], [], validHosts, ?_, rfl,
    newline_not_mem_formatEntry hip hwords, ?_, lineOf_formatEntry hip hvalid hwords, ?_⟩
  · rw [List.append_nil, List.append_nil]
  · intro ip' host
    refine ⟨?_, fun hnone => absurd hnone.2 List.not_mem_nil⟩
    rintro ⟨line, hmem, -⟩
    cases hmem
  · intro host
    simp only [List.not_mem_nil, false_or]

theorem addsLine_add (hs : Sound h.arrays h.entries) (hlines : ∀ line ∈ h.raws, newline ∉ line)
    (hwords : ∀ w ∈ cleaned hosts, Word w) (hadd : (add grow h ip hosts).2 = .ok ()) :
    AddsLine (addedLine h ip hosts) h.raws (add grow h ip hosts).1.raws ip (cleaned hosts) := by
  obtain ⟨hip, hvalid, hcase⟩ := add_cases hadd
  rcases hcase with ⟨m', es', hline, hresult⟩ | ⟨hadded, hnew⟩
  · rw [hresult]
    exact addsLine_addToLine hs (fun e he => hlines _ (List.mem_map_of_mem he)) hip hwords hline
  · rw [hnew, hadded]
    exact addsLine_formatEntry h.raws hip hvalid hwords

section AddsLine

variable {line : Text} {before after : List Text} (hadds : AddsLine line before after ip validHosts)
include hadds

/-- What holds of the lines before holds of the lines afterwards exactly if it holds of the
line that was written. -/
theorem AddsLine.forall_mem_iff {p : Text → Prop} (hbefore : ∀ line ∈ before, p line) :
    (∀ line ∈ after, p line) ↔ p line := by
  obtain ⟨front, old, back, names, all, rfl, rfl, -⟩ := hadds
  simp only [List.forall_mem_append, List.forall_mem_cons] at hbefore ⊢
  exact ⟨fun hafter => hafter.2.1, fun hline => ⟨hbefore.1, hline, hbefore.2.2⟩⟩

theorem AddsLine.newline_not_mem (hlines : ∀ line ∈ before, newline ∉ line) :
    ∀ line ∈ after, newline ∉ line := by
  refine (hadds.forall_mem_iff hlines).mpr ?_
  obtain ⟨_, _, _, _, _, -, -, hline, -⟩ := hadds
  exact hline

theorem AddsLine.named :
    Named after ip' host ↔ Named before ip' host ∨ ip' = ip ∧ host ∈ validHosts := by
  obtain ⟨front, old, back, names, all, rfl, rfl, -, hold, hline, hall⟩ := hadds
  rw [named_append, named_cons, named_append, named_append, hold, exists_lineOf_iff hline, hall]
  tauto

end AddsLine

/-- **What `Add` adds is read again exactly if no hostname has white space inside and the line
fits the scanner.** The new state has the pairs that were there, the pairs that were added, and
no others.
GOLINE: syshosts/hostsfiles.go:133-203, 509-526 -/
theorem add_persists_iff (grow : ℕ → ℕ → ℕ) (content : Text) (h : Hosts)
    (hload : loadAndParse (some content) = .ok h) (ip : Text) (hosts : List Text)
    (hadd : (add grow h ip hosts).2 = .ok ()) :
    (∃ h', loadAndParse (some (string (add grow h ip hosts).1)) = .ok h' ∧
      ∀ ip' host, has h' ip' host = true ↔
        has h ip' host = true ∨ ip' = ip ∧ trimSpace host ∈ cleaned hosts) ↔
    (∀ host ∈ hosts, ∀ r ∈ trimSpace host, r.isSpace = false) ∧
      (addedLine h ip hosts).bytes.length < maxScanTokenSize := by
  obtain ⟨hnew, hshort⟩ := of_loadAndParse hload
  have hraws : h.raws = (splitLines content).map dropCR := by
    rw [hnew]
    exact raw_newHosts _
  have hs : Sound h.arrays h.entries := by
    rw [hnew]
    exact sound_newHosts _
  have hlines : ∀ line ∈ h.raws, newline ∉ line := by
    rw [hraws]
    refine List.forall_mem_map.mpr fun line hline hmem => ?_
    exact newline_not_mem_splitLines content line hline ((dropCR_isPrefix line).subset hmem)
  have hfits : ∀ line ∈ h.raws, line.bytes.length < maxScanTokenSize := by
    rw [hraws]
    exact List.forall_mem_map.mpr fun line hline =>
      Nat.lt_of_le_of_lt (length_bytes_dropCR line) (hshort line hline)
  constructor
  · rintro ⟨h', hload', hpairs⟩
    have hsolid : ∀ host ∈ hosts, ∀ r ∈ trimSpace host, r.isSpace = false := by
      intro host hhost r hr
      have hclean : trimSpace host ∈ cleaned hosts := List.mem_filter.mpr
        ⟨List.mem_map_of_mem hhost, decide_eq_true (List.ne_nil_of_mem hr)⟩
      have hhas := (hpairs ip host).mpr (.inr ⟨rfl, hclean⟩)
      exact ((has_of_loadAndParse hload' host).mp hhas).word.solid r hr
    have hadds := addsLine_add hs hlines (word_of_mem_cleaned hsolid) hadd
    exact ⟨hsolid, (hadds.forall_mem_iff hfits).mp
      ((loadAndParse_string (hadds.newline_not_mem hlines)).mp ⟨h', hload'⟩)⟩
  · rintro ⟨hsolid, hline⟩
    have hadds := addsLine_add hs hlines (word_of_mem_cleaned hsolid) hadd
    have hlines' := hadds.newline_not_mem hlines
    obtain ⟨h', hload'⟩ := (loadAndParse_string hlines').mpr ((hadds.forall_mem_iff hfits).mpr hline)
    refine ⟨h', hload', fun ip' host => ?_⟩
    rw [has_of_loadAndParse_string hlines' hload', hadds.named, has_iff_named hs]

end Add

namespace Sample

def localhost : Text := ofString "127.0.0.1"

/-- Two hostnames come to the line of their IP. -/
theorem add_persists_localhost :
    ∃ h, loadAndParse (some (ofString "127.0.0.1 localhost\n")) = .ok h ∧
      (add (fun _ n => n) h localhost [ofString " a", ofString "b"]).2 = .ok () ∧
      ∃ h', loadAndParse
          (some (string (add (fun _ n => n) h localhost [ofString " a", ofString "b"]).1)) = .ok h' ∧
        ∀ ip' host, has h' ip' host = true ↔ has h ip' host = true ∨
          ip' = localhost ∧ trimSpace host ∈ cleaned [ofString " a", ofString "b"] := by
  have hload : loadAndParse (some (ofString "127.0.0.1 localhost\n")) =
      .ok (newHosts [ofString "127.0.0.1 localhost"]) := by
    have hsplit : splitLines (ofString "127.0.0.1 localhost\n") =
        [ofString "127.0.0.1 localhost"] := by decide +kernel
    simp only [loadAndParse, hsplit]
    exact if_neg (by decide +kernel)
  have hadd : (add (fun _ n => n) (newHosts [ofString "127.0.0.1 localhost"]) localhost
      [ofString " a", ofString "b"]).2 = .ok () := by decide +kernel
  refine ⟨_, hload, hadd, ?_⟩
  exact (add_persists_iff _ _ _ hload localhost _ hadd).mpr ⟨by decide +kernel, by decide +kernel⟩

/-- A hostname with a space inside is not found again, and its first half is. -/
theorem add_inner_space :
    loadAndParse (some []) = .ok (newHosts []) ∧
      (add (fun _ n => n) (newHosts []) localhost [ofString "a b"]).2 = .ok () ∧
      (loadAndParse (some (string
        (add (fun _ n => n) (newHosts []) localhost [ofString "a b"]).1))).toOption.map (fun h' =>
          (has h' localhost (ofString "a b"), has h' localhost (ofString "a"))) =
        some (false, true) :=
  ⟨rfl, by decide +kernel, by decide +kernel⟩

end Sample

end N2nGo.Syshosts
