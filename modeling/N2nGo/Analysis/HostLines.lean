import N2nGo.Analysis.Syshosts

/-!
# Lines of the hosts file

An entry with its hostnames read from memory is a line. Every operation that removes,
deduplicates, combines or wraps puts what it writes into new memory, so what it does to the
file is a function of the lines, whether or not entries share an array.

`Refines` says this of one turn of a loop, `rebuild_refines` of the loop. All that is
needed of a state is that the hostnames lie in memory, which is the case in every state
that a program can reach (`inMemory_of_reach`).
-/

set_option autoImplicit false

namespace N2nGo.Syshosts

open N2nGo.Lib N2nGo.Lib.Text

/-- An entry with its hostnames. -/
structure Line where
  ip : Text
  hostnames : List Text
  raw : Text
  isActive : Bool
  deriving DecidableEq

def HostEntry.line (m : Arrays Text) (e : HostEntry) : Line :=
  ⟨e.ip, e.hostnames.read m, e.raw, e.isActive⟩

def Hosts.lines (h : Hosts) : List Line := h.entries.map (HostEntry.line h.arrays)

/-- The pair of an IP and a hostname is on an active line. -/
def Paired (ls : List Line) (ip host : Text) : Prop :=
  ∃ l ∈ ls, l.isActive = true ∧ l.ip = ip ∧ host ∈ l.hostnames

/-- The comments and blanks. -/
def inactiveLines (ls : List Line) : List Line := ls.filter (!·.isActive)

/-- The hostnames of the entries lie in memory. -/
def InMemory (m : Arrays Text) (es : List HostEntry) : Prop := ∀ e ∈ es, e.hostnames.InBounds m

/-- A hosts state: entries with hostnames in memory. Entries may share an array. -/
structure State where
  hosts : Hosts
  inMemory : InMemory hosts.arrays hosts.entries

/-- The memory has only grown. -/
def Grown (m m' : Arrays Text) : Prop := Slice.Unchanged (fun _ _ => False) m m'

section Memory

variable {m m' m'' : Arrays Text} {e : HostEntry} {es es' : List HostEntry}

theorem Grown.refl (m : Arrays Text) : Grown m m := Slice.Unchanged.refl _ m

theorem Grown.trans (h : Grown m m') (h' : Grown m' m'') : Grown m m'' :=
  Slice.Unchanged.trans h h' fun _ _ _ hfalse => hfalse

theorem Grown.line (h : Grown m m') (he : e.hostnames.InBounds m) : e.line m' = e.line m := by
  unfold HostEntry.line
  rw [Slice.Unchanged.read h he fun _ _ _ hfalse => hfalse]

theorem Grown.lines (h : Grown m m') (hes : InMemory m es) :
    es.map (HostEntry.line m') = es.map (HostEntry.line m) :=
  List.map_congr_left fun e he => h.line (hes e he)

theorem InMemory.unchanged {W : ℕ → ℕ → Prop} (h : InMemory m es) (hm : Slice.Unchanged W m m') :
    InMemory m' es := fun e he => hm.inBounds (h e he)

theorem InMemory.subset (h : InMemory m es) (hsub : ∀ e ∈ es', e ∈ es) : InMemory m es' :=
  fun e he => h e (hsub e he)

theorem inMemory_append (h : InMemory m es) (h' : InMemory m es') : InMemory m (es ++ es') :=
  List.forall_mem_append.mpr ⟨h, h'⟩

theorem inMemory_singleton (h : e.hostnames.InBounds m) : InMemory m [e] :=
  List.forall_mem_singleton.mpr h

end Memory

/-! ## Loops over the entries -/

/-- The loop over lines. -/
def rebuildLines {σ : Type} (g : σ → Line → σ × List Line) : σ → List Line → σ × List Line
  | st, [] => (st, [])
  | st, l :: ls =>
    let here := g st l
    let rest := rebuildLines g here.1 ls
    (rest.1, here.2 ++ rest.2)

/-- A turn of a loop does to the memory and the entry what `g` does to the line. -/
structure Turn {σ : Type} (m : Arrays Text) (res : Arrays Text × σ × List HostEntry)
    (lines : σ × List Line) : Prop where
  grown : Grown m res.1
  inMemory : InMemory res.1 res.2.2
  state : res.2.1 = lines.1
  lines : res.2.2.map (HostEntry.line res.1) = lines.2

/-- Every turn does what `g` does. -/
def Refines {σ : Type} (f : Arrays Text → σ → HostEntry → Arrays Text × σ × List HostEntry)
    (g : σ → Line → σ × List Line) : Prop :=
  ∀ m st (e : HostEntry), e.hostnames.InBounds m → Turn m (f m st e) (g st (e.line m))

section Loop

variable {σ : Type} {f : Arrays Text → σ → HostEntry → Arrays Text × σ × List HostEntry}
  {g : σ → Line → σ × List Line} {m : Arrays Text} {es : List HostEntry}

/-- **The loops over the entries.** What the turns do to the lines is what the loop does. -/
theorem rebuild_refines (hf : Refines f g) (hes : InMemory m es) (st : σ) :
    Turn m (rebuild f m st es) (rebuildLines g st (es.map (HostEntry.line m))) := by
  induction es generalizing m st with
  | nil => exact ⟨.refl m, hes, rfl, rfl⟩
  | cons e es ih =>
    have he := hes e List.mem_cons_self
    have hrest : InMemory m es := hes.subset fun e' he' => List.mem_cons_of_mem _ he'
    have hturn := hf m st e he
    have hloop := ih (hrest.unchanged hturn.grown) (f m st e).2.1
    rw [hturn.grown.lines hrest, hturn.state] at hloop
    have hloop' : Turn (f m st e).1 (rebuild f (f m st e).1 (f m st e).2.1 es)
        (rebuildLines g (g st (e.line m)).1 (es.map (HostEntry.line m))) := by
      rw [hturn.state]
      exact hloop
    refine ⟨hturn.grown.trans hloop'.grown,
      inMemory_append (hturn.inMemory.unchanged hloop'.grown) hloop'.inMemory, hloop'.state, ?_⟩
    calc ((f m st e).2.2 ++ (rebuild f (f m st e).1 (f m st e).2.1 es).2.2).map
          (HostEntry.line (rebuild f (f m st e).1 (f m st e).2.1 es).1)
      _ = (g st (e.line m)).2 ++
          (rebuildLines g (g st (e.line m)).1 (es.map (HostEntry.line m))).2 := by
        rw [List.map_append, hloop'.grown.lines hturn.inMemory, hturn.lines, hloop'.lines]

theorem rebuildLines_fst (g : σ → Line → σ × List Line) (st : σ) (ls : List Line) :
    (rebuildLines g st ls).1 = ls.foldl (fun st l => (g st l).1) st := by
  induction ls generalizing st with
  | nil => rfl
  | cons l ls ih => exact ih _

theorem rebuildLines_snd {k : Line → List Line} (hk : ∀ st l, (g st l).2 = k l) (st : σ)
    (ls : List Line) : (rebuildLines g st ls).2 = ls.flatMap k := by
  induction ls generalizing st with
  | nil => rfl
  | cons l ls ih =>
    show (g st l).2 ++ (rebuildLines g (g st l).1 ls).2 = k l ++ ls.flatMap k
    rw [hk, ih]

/-- A loop whose turns change nothing. `P` is what is left to know of the rest. -/
theorem rebuild_eq_self {P : σ → List HostEntry → Prop}
    (hf : ∀ st e es, P st (e :: es) → ∃ st', f m st e = (m, st', [e]) ∧ P st' es) {st : σ}
    (h : P st es) : (rebuild f m st es).1 = m ∧ (rebuild f m st es).2.2 = es := by
  induction es generalizing st with
  | nil => exact ⟨rfl, rfl⟩
  | cons e es ih =>
    obtain ⟨st', hturn, hrest⟩ := hf st e es h
    obtain ⟨hm, hes⟩ := ih hrest
    rw [rebuild, hturn]
    exact ⟨hm, congrArg (e :: ·) hes⟩

end Loop

/-! ## One turn of each loop -/

/-- The line with other hostnames, written anew. -/
def Line.rewrite (l : Line) (hosts : List Text) : Line :=
  { l with hostnames := hosts, raw := formatEntry l.ip hosts }

/-- The line with these of its hostnames; it is written anew only if there are fewer. -/
def Line.shrink (l : Line) (hosts : List Text) : Line :=
  if hosts.length = l.hostnames.length then l else l.rewrite hosts

/-- A turn of `Remove`: the line stays as it is if it has none of the hostnames, and goes if it
has no others. -/
def removeTurn (ip : Text) (hostsToRemove : List Text) (st : RemoveFlags) (l : Line) :
    RemoveFlags × List Line :=
  if l.isActive ∧ l.ip = ip then
    if ∀ host ∈ l.hostnames, host ∉ hostsToRemove then ({ st with foundIP := true }, [l])
    else if ∀ host ∈ l.hostnames, host ∈ hostsToRemove then (⟨true, true, true⟩, [])
    else
      (⟨true, true, st.entryRemoved⟩, [l.rewrite (l.hostnames.filter (· ∉ hostsToRemove))])
  else (st, [l])

/-- A turn of `RemoveByHostname`. -/
def dropTurn (host : Text) (found : Bool) (l : Line) : Bool × List Line :=
  if l.isActive then
    if host ∉ l.hostnames then (found, [l])
    else if ∀ host' ∈ l.hostnames, host' = host then (true, [])
    else (true, [l.rewrite (l.hostnames.filter (· ≠ host))])
  else (found, [l])

def uniqueInLine (l : Line) : Line :=
  if l.isActive then l.shrink (unseen [] l.hostnames) else l

def uniqueAcross (seen : List Text) (l : Line) : List Text × List Line :=
  if l.isActive then
    if unseen seen l.hostnames = [] then (seen ++ unseen seen l.hostnames, [])
    else (seen ++ unseen seen l.hostnames, [l.shrink (unseen seen l.hostnames)])
  else (seen, [l])

section Turns

variable {σ : Type} {m : Arrays Text} {e : HostEntry} {st : σ}

theorem turn_kept (he : e.hostnames.InBounds m) : Turn m (m, st, [e]) (st, [e.line m]) :=
  ⟨.refl m, inMemory_singleton he, rfl, rfl⟩

theorem turn_dropped (m : Arrays Text) (st : σ) : Turn m (m, st, []) (st, []) :=
  ⟨.refl m, fun _ he => absurd he List.not_mem_nil, rfl, rfl⟩

theorem turn_rewritten (m : Arrays Text) (e : HostEntry) (st : σ) (cap : ℕ) (hosts : List Text) :
    Turn m ((rewritten m e cap hosts).1, st, [(rewritten m e cap hosts).2])
      (st, [(e.line m).rewrite hosts]) := by
  refine ⟨Slice.unchanged_make _ m cap hosts, inMemory_singleton (Slice.inBounds_make m cap hosts),
    rfl, ?_⟩
  show [HostEntry.line _ _] = [Line.rewrite _ _]
  simp only [rewritten, HostEntry.line, Line.rewrite, Slice.read_make]

theorem turn_ite {c c' : Prop} [Decidable c] [Decidable c']
    {a b : Arrays Text × σ × List HostEntry} {a' b' : σ × List Line} (hc : c ↔ c')
    (hpos : c → Turn m a a') (hneg : ¬ c → Turn m b b') :
    Turn m (if c then a else b) (if c' then a' else b') := by
  by_cases h : c
  · rw [if_pos h, if_pos (hc.mp h)]
    exact hpos h
  · rw [if_neg h, if_neg fun h' => h (hc.mpr h')]
    exact hneg h

theorem filter_not_eq_nil_iff {hit : Text → Prop} [DecidablePred hit] {hosts : List Text} :
    hosts.filter (fun host => ¬ hit host) = [] ↔ ∀ host ∈ hosts, hit host := by
  simp [List.filter_eq_nil_iff]

theorem removeStep_refines (ip : Text) (hostsToRemove : List Text) :
    Refines (removeStep ip hostsToRemove) (removeTurn ip hostsToRemove) := by
  intro m st e he
  simp only [removeStep, removeTurn]
  refine turn_ite Iff.rfl (fun _ => ?_) fun _ => turn_kept he
  refine turn_ite (by simp [HostEntry.line]) (fun _ => turn_kept he) fun hsome => ?_
  refine turn_ite filter_not_eq_nil_iff (fun _ => turn_dropped m _) fun _ => ?_
  -- some hostname goes, so there are fewer
  rw [if_pos (List.length_filter_lt_length_iff_exists.mpr (by simpa using hsome))]
  exact turn_rewritten m e _ _ _

theorem removeByHostnameStep_refines (host : Text) :
    Refines (removeByHostnameStep host) (dropTurn host) := by
  intro m found e he
  simp only [removeByHostnameStep, dropTurn, ite_not]
  refine turn_ite Iff.rfl (fun _ => ?_) fun _ => turn_kept he
  refine turn_ite Iff.rfl (fun _ => ?_) fun _ => turn_kept he
  exact turn_ite filter_not_eq_nil_iff (fun _ => turn_dropped m _) fun _ => turn_rewritten m e _ _ _

theorem turn_shrunk (he : e.hostnames.InBounds m) (st : σ) (cap : ℕ) (hosts : List Text) :
    Turn m
      (if hosts.length = (e.hostnames.read m).length then (m, st, [e])
      else ((rewritten m e cap hosts).1, st, [(rewritten m e cap hosts).2]))
      (st, [(e.line m).shrink hosts]) := by
  by_cases hlen : hosts.length = (e.hostnames.read m).length
  · have hself : (e.line m).shrink hosts = e.line m := if_pos hlen
    rw [if_pos hlen, hself]
    exact turn_kept he
  · have hnew : (e.line m).shrink hosts = (e.line m).rewrite hosts := if_neg hlen
    rw [if_neg hlen, hnew]
    exact turn_rewritten m e st cap hosts

theorem uniqueInLineStep_refines :
    Refines uniqueInLineStep (fun st l => (st, [uniqueInLine l])) := by
  intro m st e he
  by_cases hactive : e.isActive = true
  · have hline : uniqueInLine (e.line m) = (e.line m).shrink (unseen [] (e.hostnames.read m)) :=
      if_pos hactive
    have hshrunk := turn_shrunk he st (e.hostnames.read m).length (unseen [] (e.hostnames.read m))
    simp only [uniqueInLineStep]
    rw [hline]
    split
    · next hskip =>
      -- one hostname is not compared with anything
      have hlen : (e.hostnames.read m).length ≤ 1 := by
        rw [he.length_read]
        exact hskip.resolve_left (not_not.mpr hactive)
      rw [unseen_of_length_le_one hlen, if_pos rfl] at hshrunk
      rw [unseen_of_length_le_one hlen]
      exact hshrunk
    · exact hshrunk
  · have hline : uniqueInLine (e.line m) = e.line m := if_neg hactive
    simp only [uniqueInLineStep]
    rw [if_pos (Or.inl hactive), hline]
    exact turn_kept he

theorem uniqueAcrossStep_refines : Refines uniqueAcrossStep uniqueAcross := by
  intro m seen e he
  simp only [uniqueAcrossStep, uniqueAcross, ite_not]
  refine turn_ite Iff.rfl (fun _ => ?_) fun _ => turn_kept he
  exact turn_ite Iff.rfl (fun _ => turn_dropped m _) fun _ => turn_shrunk he _ _ _

end Turns

/-! ## Removing -/

section Operations

variable {h : Hosts}

theorem InMemory.remove (hin : InMemory h.arrays h.entries) (ip : Text) (hosts : List Text) :
    InMemory (remove h ip hosts).1.arrays (remove h ip hosts).1.entries := by
  have hloop := rebuild_refines (removeStep_refines ip (cleaned hosts)) hin ⟨false, false, false⟩
  simp only [Syshosts.remove]
  split
  · exact hin
  · split
    · exact hin
    · split
      · exact hin
      · split
        · exact hin
        · split
          · exact hin
          · split
            · exact hloop.inMemory
            · exact hin

theorem InMemory.removeByHostname (hin : InMemory h.arrays h.entries) (host : Text) :
    InMemory (removeByHostname h host).1.arrays (removeByHostname h host).1.entries := by
  have hloop := rebuild_refines (removeByHostnameStep_refines (trimSpace host)) hin false
  simp only [Syshosts.removeByHostname]
  split
  · exact hin
  · split
    · exact hin
    · exact hloop.inMemory

/-! ## Deduplicating -/

/-- Both passes, on the lines. -/
def deduplicated (ls : List Line) : List Line :=
  (rebuildLines uniqueAcross [] (ls.map uniqueInLine)).2

theorem rebuildLines_uniqueInLine (st : Unit) (ls : List Line) :
    (rebuildLines (fun st l => (st, [uniqueInLine l])) st ls).2 = ls.map uniqueInLine := by
  rw [rebuildLines_snd (k := fun l => [uniqueInLine l]) (fun _ _ => rfl)]
  exact List.map_eq_flatMap.symm

theorem removeDuplicateHosts_turn (hin : InMemory h.arrays h.entries) :
    InMemory (removeDuplicateHosts h).arrays (removeDuplicateHosts h).entries ∧
      (removeDuplicateHosts h).lines = deduplicated h.lines := by
  have hfirst := rebuild_refines uniqueInLineStep_refines hin ()
  have hsecond := rebuild_refines uniqueAcrossStep_refines hfirst.inMemory []
  refine ⟨hsecond.inMemory, hsecond.lines.trans ?_⟩
  rw [hfirst.lines, rebuildLines_uniqueInLine]
  rfl

/-! ## Combining -/

/-- The IPs of the active lines. -/
def activeIPs (ls : List Line) : List Text := (ls.filter (·.isActive)).map (·.ip)

/-- The hostnames of an IP, line by line. -/
def namesFor (ip : Text) (ls : List Line) : List Text :=
  (ls.filter fun l => l.isActive ∧ l.ip = ip).flatMap (·.hostnames)

/-- The first active line of each IP that was not seen, and the other lines. -/
def firstOfIP : (seen : List Text) → List Line → List Line
  | _, [] => []
  | seen, l :: ls =>
    if l.isActive then
      if l.ip ∈ seen then firstOfIP seen ls else l :: firstOfIP (l.ip :: seen) ls
    else l :: firstOfIP seen ls

/-- The line with all the hostnames of its IP. -/
def combineLine (all : List Line) (l : Line) : Line :=
  if l.isActive then l.rewrite (unseen [] (namesFor l.ip all)) else l

def combined (ls : List Line) : List Line :=
  if (activeIPs ls).Nodup then ls else (firstOfIP [] ls).map (combineLine ls)

section Combine

variable {m : Arrays Text} {es keep : List HostEntry} {ipMap : Table Text (List Text)}
  {modified : Bool}

theorem namesFor_cons (ip : Text) (l : Line) (ls : List Line) :
    namesFor ip (l :: ls) =
      (if l.isActive ∧ l.ip = ip then l.hostnames else []) ++ namesFor ip ls := by
  unfold namesFor
  by_cases h : l.isActive = true ∧ l.ip = ip
  · rw [List.filter_cons, if_pos (decide_eq_true h), if_pos h, List.flatMap_cons]
  · rw [List.filter_cons, if_neg (by rw [decide_eq_true_eq]; exact h), if_neg h, List.nil_append]

theorem activeIPs_cons (l : Line) (ls : List Line) :
    activeIPs (l :: ls) = if l.isActive then l.ip :: activeIPs ls else activeIPs ls := by
  unfold activeIPs
  by_cases h : l.isActive = true
  · rw [List.filter_cons_of_pos h, if_pos h, List.map_cons]
  · rw [List.filter_cons_of_neg h, if_neg h]

theorem combineLoop_lookup (ip : Text) :
    ((combineLoop m es ipMap keep modified).1.lookup ip).getD [] =
      (ipMap.lookup ip).getD [] ++ namesFor ip (es.map (HostEntry.line m)) := by
  induction es generalizing ipMap keep modified with
  | nil => exact (List.append_nil _).symm
  | cons e es ih =>
    have hinsert : ∀ hosts, (ipMap.lookup e.ip).getD [] = hosts → e.isActive = true →
        ((ipMap.insert e.ip (hosts ++ e.hostnames.read m)).lookup ip).getD [] =
          (ipMap.lookup ip).getD [] ++
            (if e.isActive ∧ e.ip = ip then e.hostnames.read m else []) := by
      rintro _ rfl hactive
      by_cases heq : e.ip = ip
      · rw [if_pos ⟨hactive, heq⟩, heq, AList.lookup_insert, Option.getD_some]
      · rw [if_neg fun h => heq h.2, AList.lookup_insert_ne fun h => heq h.symm, List.append_nil]
    rw [List.map_cons, namesFor_cons, ← List.append_assoc]
    unfold combineLoop
    split
    · next hinactive =>
      have hskip : (if (e.line m).isActive ∧ (e.line m).ip = ip then (e.line m).hostnames else []) =
          [] := if_neg fun h => hinactive h.1
      rw [ih, hskip, List.append_nil]
    · next hactive =>
      split
      · next hnone =>
        have hadded := hinsert [] (by rw [hnone]; rfl) (not_not.mp hactive)
        rw [List.nil_append] at hadded
        rw [ih, hadded]
        rfl
      · next hosts hsome =>
        rw [ih, hinsert hosts (by rw [hsome]; rfl) (not_not.mp hactive)]
        rfl

theorem combineLoop_keep {seen : List Text} (hseen : ∀ ip, ip ∈ seen ↔ ip ∈ ipMap) :
    (combineLoop m es ipMap keep modified).2.1.map (HostEntry.line m) =
      keep.map (HostEntry.line m) ++ firstOfIP seen (es.map (HostEntry.line m)) := by
  induction es generalizing ipMap keep modified seen with
  | nil => exact (List.append_nil _).symm
  | cons e es ih =>
    rw [List.map_cons]
    unfold combineLoop firstOfIP
    split
    · next hinactive =>
      have hline : ¬ (e.line m).isActive = true := hinactive
      rw [if_neg hline, ih hseen, List.map_append, List.append_assoc]
      rfl
    · next hactive =>
      have hline : (e.line m).isActive = true := not_not.mp hactive
      rw [if_pos hline]
      split
      · next hnone =>
        have hnew : (e.line m).ip ∉ seen := by
          rw [hseen, ← AList.lookup_isSome]
          intro hsome
          exact absurd hsome (by rw [show (e.line m).ip = e.ip from rfl, hnone]; exact nofun)
        have hnext : ∀ ip, ip ∈ (e.line m).ip :: seen ↔
            ip ∈ ipMap.insert e.ip (e.hostnames.read m) := by
          intro ip
          rw [List.mem_cons, AList.mem_insert, hseen]
          rfl
        rw [if_neg hnew, ih hnext, List.map_append, List.append_assoc]
        rfl
      · next hosts hsome =>
        have hold : (e.line m).ip ∈ seen := by
          rw [hseen, ← AList.lookup_isSome, show (e.line m).ip = e.ip from rfl, hsome]
          rfl
        have hnext : ∀ ip, ip ∈ seen ↔
            ip ∈ ipMap.insert e.ip (hosts ++ e.hostnames.read m) := by
          intro ip
          rw [AList.mem_insert, hseen]
          refine ⟨Or.inr, fun h => h.elim (fun heq => ?_) id⟩
          rw [heq]
          exact (hseen _).mp hold
        rw [if_pos hold, ih hnext]

theorem combineLoop_modified :
    (combineLoop m es ipMap keep modified).2.2 = false ↔
      modified = false ∧ (activeIPs (es.map (HostEntry.line m))).Nodup ∧
        ∀ ip ∈ activeIPs (es.map (HostEntry.line m)), ip ∉ ipMap := by
  induction es generalizing ipMap keep modified with
  | nil => exact ⟨fun h => ⟨h, .nil, fun _ hip => absurd hip List.not_mem_nil⟩, fun h => h.1⟩
  | cons e es ih =>
    rw [List.map_cons, activeIPs_cons]
    unfold combineLoop
    split
    · next hinactive =>
      have hline : ¬ (e.line m).isActive = true := hinactive
      rw [if_neg hline]
      exact ih
    · next hactive =>
      have hline : (e.line m).isActive = true := not_not.mp hactive
      rw [if_pos hline, List.nodup_cons, List.forall_mem_cons]
      split
      · next hnone =>
        have hnew : (e.line m).ip ∉ ipMap := AList.lookup_eq_none.mp hnone
        rw [ih]
        constructor
        · rintro ⟨hmodified, hnodup, hfree⟩
          have hfree' : ∀ ip ∈ activeIPs (es.map (HostEntry.line m)), ip ≠ e.ip ∧ ip ∉ ipMap := by
            intro ip hip
            have hout := hfree ip hip
            rw [AList.mem_insert, not_or] at hout
            exact hout
          exact ⟨hmodified, ⟨fun hmem => (hfree' _ hmem).1 rfl, hnodup⟩, hnew,
            fun ip hip => (hfree' ip hip).2⟩
        · rintro ⟨hmodified, ⟨hfirst, hnodup⟩, -, hfree⟩
          refine ⟨hmodified, hnodup, fun ip hip => ?_⟩
          rw [AList.mem_insert, not_or]
          exact ⟨fun heq => hfirst (show e.ip ∈ _ from heq ▸ hip), hfree ip hip⟩
      · next hosts hsome =>
        have hold : (e.line m).ip ∈ ipMap := by
          rw [← AList.lookup_isSome]
          exact Option.isSome_of_eq_some hsome
        rw [ih]
        exact ⟨fun h => absurd h.1 nofun, fun h => absurd hold h.2.2.1⟩

theorem combineStep_refines (ipMap : Table Text (List Text)) :
    Refines (combineStep ipMap) (fun st l =>
      if l.isActive then (st, [l.rewrite (unseen [] ((ipMap.lookup l.ip).getD []))])
      else (st, [l])) := by
  intro m st e he
  simp only [combineStep, ite_not]
  exact turn_ite Iff.rfl (fun _ => turn_rewritten m e _ _ _) fun _ => turn_kept he

theorem combineLoop_sublist : (combineLoop m es ipMap keep modified).2.1.Sublist (keep ++ es) := by
  induction es generalizing ipMap keep modified with
  | nil => exact List.sublist_append_left keep []
  | cons e es ih =>
    have hkept : ∀ ipMap modified, (combineLoop m es ipMap (keep ++ [e]) modified).2.1.Sublist
        (keep ++ e :: es) := by
      intro ipMap modified
      rw [List.append_cons keep e es]
      exact ih
    unfold combineLoop
    split
    · exact hkept _ _
    · split
      · exact hkept _ _
      · exact ih.trans ((List.Sublist.refl keep).append (List.sublist_cons_self e es))

end Combine

theorem combineDuplicateIPs_turn (hin : InMemory h.arrays h.entries) :
    InMemory (combineDuplicateIPs h).arrays (combineDuplicateIPs h).entries ∧
      (combineDuplicateIPs h).lines = combined h.lines := by
  have hmodified : (combineLoop h.arrays h.entries ∅ [] false).2.2 = false ↔
      (activeIPs h.lines).Nodup := by
    rw [combineLoop_modified]
    exact ⟨fun hfree => hfree.2.1, fun hnodup => ⟨rfl, hnodup, fun ip _ => AList.notMem_empty ip⟩⟩
  have hkeep : (combineLoop h.arrays h.entries ∅ [] false).2.1.map (HostEntry.line h.arrays) =
      firstOfIP [] h.lines :=
    combineLoop_keep fun ip => ⟨fun hip => absurd hip List.not_mem_nil,
      fun hip => absurd hip (AList.notMem_empty ip)⟩
  have hkeepIn : InMemory h.arrays (combineLoop h.arrays h.entries ∅ [] false).2.1 :=
    hin.subset fun e he => combineLoop_sublist.subset he
  have hlookup : ∀ ip, ((combineLoop h.arrays h.entries ∅ [] false).1.lookup ip).getD [] =
      namesFor ip h.lines := fun ip => combineLoop_lookup ip
  have hloop := rebuild_refines
    (combineStep_refines (combineLoop h.arrays h.entries ∅ [] false).1) hkeepIn ()
  unfold combined
  simp only [combineDuplicateIPs]
  split
  · next hunchanged =>
    rw [if_pos (hmodified.mp (Bool.not_eq_true _ ▸ hunchanged))]
    exact ⟨hin, rfl⟩
  · next hchanged =>
    rw [if_neg fun hnodup => hchanged (by rw [hmodified.mpr hnodup]; exact Bool.false_ne_true)]
    refine ⟨hloop.inMemory, hloop.lines.trans ?_⟩
    rw [hkeep, rebuildLines_snd (k := fun l => [combineLine h.lines l])]
    · exact List.map_eq_flatMap.symm
    · intro st l
      unfold combineLine
      split
      · rw [hlookup]
      · rfl

/-! ## States -/

/-- A loop whose turns keep the sizes of arrays keeps the hostnames in memory. -/
theorem inMemory_rebuild {σ : Type} {m : Arrays Text} {es : List HostEntry}
    {f : Arrays Text → σ → HostEntry → Arrays Text × σ × List HostEntry}
    (hf : ∀ m st (e : HostEntry), e.hostnames.InBounds m →
      Slice.Unchanged (fun _ _ => True) m (f m st e).1 ∧ InMemory (f m st e).1 (f m st e).2.2)
    (hin : InMemory m es) (st : σ) :
    Slice.Unchanged (fun _ _ => True) m (rebuild f m st es).1 ∧
      InMemory (rebuild f m st es).1 (rebuild f m st es).2.2 := by
  induction es generalizing m st with
  | nil => exact ⟨.refl _ m, hin⟩
  | cons e es ih =>
    obtain ⟨hhere, houts⟩ := hf m st e (hin e List.mem_cons_self)
    have hrest : InMemory m es := hin.subset fun e' he' => List.mem_cons_of_mem _ he'
    obtain ⟨hloop, hend⟩ := ih (hrest.unchanged hhere) (f m st e).2.1
    exact ⟨hhere.trans hloop fun _ _ _ htrue => htrue,
      inMemory_append (houts.unchanged hloop) hend⟩

theorem InMemory.wrapLinesAtMaxHostsPerLine (hin : InMemory h.arrays h.entries) (count : ℤ) :
    InMemory (wrapLinesAtMaxHostsPerLine h count).arrays
      (wrapLinesAtMaxHostsPerLine h count).entries := by
  simp only [Syshosts.wrapLinesAtMaxHostsPerLine]
  split
  · exact hin
  · next hcount =>
    refine (inMemory_rebuild ?_ hin ()).2
    intro m st e he
    simp only [wrapStep]
    split
    · exact ⟨.refl _ m, inMemory_singleton he⟩
    · refine ⟨.refl _ m, fun o ho => ?_⟩
      obtain ⟨chunk, hchunk, rfl⟩ := List.mem_map.mp ho
      obtain ⟨lo, hi, rfl, -, -, hhi⟩ := mem_chunks (by omega) hchunk
      exact Slice.inBounds_sub he hhi

theorem InMemory.sortHosts (hin : InMemory h.arrays h.entries) :
    InMemory (sortHosts h).arrays (sortHosts h).entries := by
  refine (inMemory_rebuild ?_ hin ()).2
  intro m st e he
  simp only [sortHostsStep]
  split
  · next hsort =>
    have hlen : (sortStrings (e.hostnames.read m)).length = e.hostnames.len :=
      (List.perm_insertionSort _ _).length_eq.trans he.length_read
    have hm := Slice.unchanged_overwrite he hlen (by omega)
    exact ⟨hm.mono fun _ _ _ => trivial, inMemory_singleton (hm.inBounds he)⟩
  · exact ⟨.refl _ m, inMemory_singleton he⟩

theorem InMemory.insertRaw (hin : InMemory h.arrays h.entries) (lines : List Text) :
    InMemory (insertRaw h lines).arrays (insertRaw h lines).entries := by
  induction lines generalizing h with
  | nil => exact hin
  | cons line lines ih =>
    have hm : Grown h.arrays (parseLine h.arrays line).1 := (parseLine_fresh h.arrays line).1
    exact ih (inMemory_append (hin.unchanged hm)
      (inMemory_singleton (good_parseLine h.arrays line).inBounds))

variable {grow : ℕ → ℕ → ℕ}

theorem inMemory_addToLine {m m' : Arrays Text} {ip : Text} {validHosts : List Text}
    {es es' : List HostEntry} (hin : InMemory m es)
    (hadd : addToLine grow m ip validHosts es = some (m', es')) :
    Slice.Unchanged (fun _ _ => True) m m' ∧ InMemory m' es' := by
  induction es generalizing es' with
  | nil => cases hadd
  | cons e es ih =>
    have he := hin e List.mem_cons_self
    have hrest : InMemory m es := hin.subset fun e' he' => List.mem_cons_of_mem _ he'
    unfold addToLine at hadd
    split at hadd
    · cases hadd
      have happ := Slice.appended_appendAll grow he (unseen (e.hostnames.read m) validHosts)
      exact ⟨happ.unchanged.mono fun _ _ _ => trivial,
        List.forall_mem_cons.mpr ⟨happ.inBounds, hrest.unchanged happ.unchanged⟩⟩
    · split at hadd
      · cases hadd
      · next m1 es1 hlater =>
        cases hadd
        obtain ⟨hm, hes⟩ := ih hrest hlater
        exact ⟨hm, List.forall_mem_cons.mpr ⟨hm.inBounds he, hes⟩⟩

theorem InMemory.add (hin : InMemory h.arrays h.entries) (grow : ℕ → ℕ → ℕ) (ip : Text)
    (hosts : List Text) :
    InMemory (add grow h ip hosts).1.arrays (add grow h ip hosts).1.entries := by
  simp only [Syshosts.add]
  split
  · exact hin
  · split
    · exact hin
    · split
      · exact hin
      · split
        · next hadd => exact (inMemory_addToLine hin hadd).2
        · have hm : Grown h.arrays (Slice.make h.arrays hosts.length (cleaned hosts)).1 :=
            Slice.unchanged_make _ _ _ _
          exact inMemory_append (hin.unchanged hm)
            (inMemory_singleton (Slice.inBounds_make _ _ _))

theorem InMemory.clean (hin : InMemory h.arrays h.entries) :
    InMemory (clean h).arrays (clean h).entries :=
  (removeDuplicateHosts_turn (combineDuplicateIPs_turn hin).1).1.subset
    fun _ he => List.mem_of_mem_filter he

theorem InMemory.sortIPs (hin : InMemory h.arrays h.entries) :
    InMemory (sortIPs h).arrays (sortIPs h).entries := by
  refine InMemory.subset hin fun e he => ?_
  rcases List.mem_append.mp he with he | he
  · exact List.mem_of_mem_filter he
  · exact List.mem_of_mem_filter ((List.perm_insertionSort _ _).mem_iff.mp he)

theorem inMemory_step {h' : Hosts} {op : Operation} {o : Unit} (hin : InMemory h.arrays h.entries)
    (hstep : step grow h op = .ok (h', o)) : InMemory h'.arrays h'.entries := by
  cases op with
  | add ip hosts => cases hstep; exact hin.add grow ip hosts
  | remove ip hosts => cases hstep; exact hin.remove ip hosts
  | removeByHostname host => cases hstep; exact hin.removeByHostname host
  | removeByIP ip => cases hstep; exact hin.subset fun _ he => List.mem_of_mem_filter he
  | insertRaw lines => cases hstep; exact hin.insertRaw lines
  | removeDuplicateHosts => cases hstep; exact (removeDuplicateHosts_turn hin).1
  | wrapLinesAtMaxHostsPerLine count =>
    cases hstep
    exact hin.wrapLinesAtMaxHostsPerLine count
  | combineDuplicateIPs => cases hstep; exact (combineDuplicateIPs_turn hin).1
  | clean => cases hstep; exact hin.clean
  | sortHosts => cases hstep; exact hin.sortHosts
  | sortIPs => cases hstep; exact hin.sortIPs

theorem inMemory_newHosts (lines : List Text) :
    InMemory (newHosts lines).arrays (newHosts lines).entries :=
  InMemory.insertRaw (h := ⟨⟨fun _ => [], 0⟩, []⟩) (fun _ he => absurd he List.not_mem_nil) lines

/-- A file that was just read. -/
def State.loaded (lines : List Text) : State := ⟨newHosts lines, inMemory_newHosts lines⟩

/-- **Every state that a program reaches is one.** -/
theorem inMemory_of_reach (hreach : Reach (step grow) Loaded (fun _ _ => True) h) :
    InMemory h.arrays h.entries := by
  refine hreach.invariant (I := fun h => InMemory h.arrays h.entries) ?_ ?_
  · rintro h ⟨lines, rfl⟩
    exact inMemory_newHosts lines
  · rintro h op h' o hin - hstep
    exact inMemory_step hin hstep

end Operations

end N2nGo.Syshosts
