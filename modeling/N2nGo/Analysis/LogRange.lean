import N2nGo.Model.Log

/-!
# Queries of the log

The table holds the events as they were written, numbered from 1 (`holds_run`). A query for
the last entries returns the last events (`lastLogs_exact`). A query by time should select the
events between two instants and return the first of them in chronological order (`Answers`);
what it does is to compare texts.

Both come to the same for all logs and bounds with times from some set exactly if any two
times of the set are `InStep`: their instants are in the order in which the local seconds and
then the fractions and zones put them. Times of one zone are in step unless the zone is UTC,
where a time comes behind those whose fraction goes on where its own ends.
-/

set_option autoImplicit false

namespace N2nGo.Log

open N2nGo.Lib

/-! ## What the table holds -/

/-- What was written, by earlier processes and by this one. -/
structure History where
  earlier : List Event
  events : List Event
  opened : Bool

namespace History

def all (h : History) : List Event := h.earlier ++ h.events

def record (h : History) (e : Event) : History :=
  if h.opened then { h with events := h.events ++ [e] } else h

def apply (h : History) : Op → History
  | .init => { h with opened := true }
  | .log e => h.record e
  | .close closing => { h.record closing with opened := false }
  | .restart => ⟨h.all, [], false⟩

def run (ops : List Op) : History := ops.foldl apply ⟨[], [], false⟩

end History

/-- The events with their numbers. -/
def numbered (events : List Event) : List (Event × ℕ) := events.zipIdx 1

def rowOf (p : Event × ℕ) : Row := row p.2 p.1

/-- The logger has recorded the history. -/
structure Holds (s : Logger) (h : History) : Prop where
  opened : s.opened = h.opened
  rows : s.rows = (numbered h.all).map rowOf
  seq : s.seq = h.all.length
  writeSinceStart : s.writeSinceStart = h.events.length

theorem numbered_append (events : List Event) (e : Event) :
    numbered (events ++ [e]) = numbered events ++ [(e, events.length + 1)] := by
  rw [numbered, List.zipIdx_append, numbered, Nat.add_comm 1]
  rfl

section

variable {s : Logger} {h : History} (hs : Holds s h)
include hs

theorem Holds.write (e : Event) : Holds (s.write e) { h with events := h.events ++ [e] } := by
  have hall : ({ h with events := h.events ++ [e] } : History).all = h.all ++ [e] :=
    (List.append_assoc _ _ _).symm
  refine ⟨hs.opened, ?_, ?_, ?_⟩
  · rw [hall, numbered_append, List.map_append, Logger.write, hs.rows, hs.seq]
    rfl
  · rw [hall, List.length_append, Logger.write, hs.seq]
    rfl
  · rw [List.length_append, Logger.write, hs.writeSinceStart]
    rfl

theorem Holds.log (e : Event) : Holds (s.log e) (h.record e) := by
  unfold Logger.log History.record
  rw [hs.opened]
  split
  · exact hs.write e
  · exact hs

theorem Holds.apply (op : Op) : Holds (s.apply op) (h.apply op) := by
  cases op with
  | init =>
    have hinit : (s.apply .init) = { s with opened := true } := by
      obtain ⟨rows, seq, opened, writeSinceStart⟩ := s
      cases opened <;> rfl
    rw [hinit]
    exact ⟨rfl, hs.rows, hs.seq, hs.writeSinceStart⟩
  | log e => exact hs.log e
  | close closing =>
    have hclose : s.apply (.close closing) = { s.log closing with opened := false } := by
      obtain ⟨rows, seq, opened, writeSinceStart⟩ := s
      cases opened <;> rfl
    have hlog := hs.log closing
    rw [hclose]
    exact ⟨rfl, hlog.rows, hlog.seq, hlog.writeSinceStart⟩
  | restart =>
    have hall : (h.apply .restart).all = h.all := List.append_nil _
    exact ⟨rfl, hall ▸ hs.rows, hall ▸ hs.seq, rfl⟩

end

theorem holds_run (ops : List Op) : Holds (Logger.empty.run ops) (History.run ops) := by
  have hstep : ∀ (ops : List Op) {s : Logger} {h : History}, Holds s h →
      Holds (s.run ops) (ops.foldl History.apply h) := by
    intro ops
    induction ops with
    | nil => exact fun hs => hs
    | cons op ops ih => exact fun hs => ih (hs.apply op)
  exact hstep ops ⟨rfl, rfl, rfl, rfl⟩

/-! ## The last entries -/

section Queries

variable (parseDBTimestamp : Bytes → Time)

/-- An event as it is returned. -/
def entry (p : Event × ℕ) : LogEntry := scan parseDBTimestamp (rowOf p)

instance : Std.Total NewestFirst := ⟨fun r s => Nat.le_total s.id r.id⟩

instance : IsTrans Row NewestFirst := ⟨fun _ _ _ hrs hst => Nat.le_trans hst hrs⟩

/-- By descending number the rows come in the reverse order. -/
theorem Holds.newestFirst {s : Logger} {h : History} (hs : Holds s h) :
    s.rows.insertionSort NewestFirst = s.rows.reverse := by
  have hids : s.rows.map Row.id = List.range' 1 h.all.length := by
    rw [hs.rows, List.map_map]
    exact List.zipIdx_map_snd 1 h.all
  have hlt : s.rows.Pairwise fun r r' => r.id < r'.id := by
    have hrange := List.pairwise_lt_range' 1 (s := 1) (n := h.all.length)
    rw [← hids] at hrange
    exact List.pairwise_map.mp hrange
  have hnodup : (s.rows.map Row.id).Nodup := List.pairwise_map.mpr (hlt.imp Nat.ne_of_lt)
  refine List.Perm.eq_of_pairwise (fun r r' hr hr' hle hge => ?_)
    (List.pairwise_insertionSort NewestFirst s.rows)
    (List.pairwise_reverse.mpr (hlt.imp Nat.le_of_lt))
    ((List.perm_insertionSort NewestFirst s.rows).trans s.rows.reverse_perm.symm)
  exact List.inj_on_of_nodup_map hnodup ((List.mem_insertionSort NewestFirst).mp hr)
    (List.mem_reverse.mp hr') (Nat.le_antisymm hge hle)

theorem getLastNLogs_run {ops : List Op} (hopened : (History.run ops).opened = true) (n : ℕ) :
    getLastNLogs parseDBTimestamp (Logger.empty.run ops) n =
      .ok (((numbered (History.run ops).all).drop ((History.run ops).all.length - n)).map
        (entry parseDBTimestamp)) := by
  have hs := holds_run ops
  have hlen : (Logger.empty.run ops).rows.length = (History.run ops).all.length := by
    rw [hs.rows, List.length_map, numbered, List.length_zipIdx]
  unfold getLastNLogs
  rw [hs.opened, hopened, if_pos rfl, hs.newestFirst]
  split
  · next hn =>
    obtain rfl : n = 0 := by omega
    rw [List.drop_eq_nil_of_le (by rw [numbered, List.length_zipIdx, Nat.sub_zero]), List.map_nil]
  · rw [Int.toNat_natCast, List.take_reverse, hlen, List.map_reverse, List.reverse_reverse, hs.rows,
      ← List.map_drop, List.map_map]
    rfl

/-- **The last entries are the last events, in the order they were written in.** `GetLastNLogs`
counts back over all processes that have used the file, and `GetLogsSinceStart` returns the
events of this one.
GOLINE: log/log.go:271-316 -/
theorem lastLogs_exact (ops : List Op) (hopened : (History.run ops).opened = true) :
    (∀ n : ℕ, getLastNLogs parseDBTimestamp (Logger.empty.run ops) n =
      .ok (((numbered (History.run ops).all).drop ((History.run ops).all.length - n)).map
        (entry parseDBTimestamp))) ∧
    getLogsSinceStart parseDBTimestamp (Logger.empty.run ops) =
      .ok (((numbered (History.run ops).all).drop (History.run ops).earlier.length).map
        (entry parseDBTimestamp)) := by
  refine ⟨getLastNLogs_run parseDBTimestamp hopened, ?_⟩
  have hearlier : (History.run ops).all.length - (History.run ops).events.length =
      (History.run ops).earlier.length := by
    rw [History.all, List.length_append, Nat.add_sub_cancel]
  rw [getLogsSinceStart, (holds_run ops).writeSinceStart, getLastNLogs_run _ hopened, hearlier]

/-! ## Entries by time -/

/-- The first entries, up to the limit, of those between the two instants in chronological
order. -/
def Answers (events : List Event) (start stop : Time) (limit : ℤ) (out : List LogEntry) : Prop :=
  ∃ chosen : List (Event × ℕ),
    chosen.Perm ((numbered events).filter fun p =>
      start.instant ≤ p.1.time.instant ∧ p.1.time.instant ≤ stop.instant) ∧
    chosen.Pairwise (fun p q => p.1.time.instant ≤ q.1.time.instant) ∧
    out = (chosen.take (effectiveLimit limit)).map (entry parseDBTimestamp)

/-- Whatever was logged at times of `D`, queries with bounds from `D` are answered. -/
def FollowsTime (D : Set Time) : Prop :=
  ∀ ops : List Op, (History.run ops).opened = true → (∀ e ∈ (History.run ops).all, e.time ∈ D) →
    ∀ start ∈ D, ∀ stop ∈ D, ∀ limit : ℤ, ∃ out,
      getLogsBetween parseDBTimestamp (Logger.empty.run ops) start stop limit = .ok out ∧
      Answers parseDBTimestamp (History.run ops).all start stop limit out

end Queries

/-- Two instants are in the order of the local seconds, then of fraction and zone. -/
def InStep (a b : Time) : Prop :=
  (a.localSec < b.localSec ∨ a.localSec = b.localSec ∧ a.TailLe b) ↔ a.instant ≤ b.instant

variable {a b : Time}

theorem inStep_iff (ha : a.FourDigitYear) (hb : b.FourDigitYear) :
    InStep a b ↔ (byteLe a.format b.format = true ↔ a.instant ≤ b.instant) := by
  rw [InStep, Time.byteLe_format_iff ha hb]

theorem inStep_of_sec_ne (h : a.offset = b.offset) (hsec : a.sec ≠ b.sec) : InStep a b := by
  have ha := a.nsec_lt
  have hb := b.nsec_lt
  have hlocal : a.localSec ≠ b.localSec := by
    unfold Time.localSec
    omega
  rw [InStep, or_iff_left fun heq => hlocal heq.1, Time.localSec, Time.localSec, Time.instant,
    Time.instant]
  omega

theorem inStep_iff_of_sec_eq (h : a.offset = b.offset) (hsec : a.sec = b.sec) :
    InStep a b ↔ (a.TailLe b ↔ a.nsec ≤ b.nsec) := by
  have hinstant : a.instant ≤ b.instant ↔ a.nsec ≤ b.nsec := by
    rw [Time.instant, Time.instant, hsec]
    omega
  have hlocal : a.localSec = b.localSec := by rw [Time.localSec, Time.localSec, h, hsec]
  simp [InStep, hlocal, hinstant]

/-- Times of one zone are in step, unless the zone is UTC and one of two fractions of the same
second goes on where the other ends. -/
theorem inStep_zone_iff (h : a.offset = b.offset) :
    InStep a b ↔ a.offset ≠ 0 ∨ a.sec ≠ b.sec ∨ a.nsec = b.nsec ∨
      ¬ a.fraction <+: b.fraction ∧ ¬ b.fraction <+: a.fraction := by
  by_cases hsec : a.sec = b.sec
  · rw [inStep_iff_of_sec_eq h hsec]
    unfold Time.TailLe
    split
    · next heq =>
      have hzone : a.zone = b.zone := by rw [Time.zone, Time.zone, h]
      simp [heq, hzone, byteLe]
    · next hne =>
      split
      · next hbegins =>
        have hle := Time.nsec_le_of_begins hbegins
        simp [hsec, hne, hbegins, hle]
      · next hbegins =>
        split
        · next hbegins' =>
          have hle := Time.nsec_le_of_begins hbegins'
          have hlt : ¬ a.nsec ≤ b.nsec := by omega
          simp [hsec, hne, hbegins', hlt, h]
        · next hbegins' => simp [hbegins, hbegins']
  · exact iff_of_true (inStep_of_sec_ne h hsec) (Or.inr (Or.inl hsec))

instance : Std.Total ByTimeThenId := by
  refine ⟨fun r s => ?_⟩
  unfold ByTimeThenId
  by_cases heq : r.logData.time = s.logData.time
  · rcases Nat.le_total r.id s.id with hle | hle
    · exact Or.inl ⟨heq ▸ byteLe_iff.mpr (List.le_refl _), fun _ => hle⟩
    · exact Or.inr ⟨heq ▸ byteLe_iff.mpr (List.le_refl _), fun _ => hle⟩
  · exact (List.le_total r.logData.time s.logData.time).imp
      (fun h => ⟨byteLe_iff.mpr h, fun h' => absurd h' heq⟩)
      (fun h => ⟨byteLe_iff.mpr h, fun h' => absurd h'.symm heq⟩)

instance : IsTrans Row ByTimeThenId := by
  refine ⟨fun r s t hrs hst => ?_⟩
  have hle : r.logData.time ≤ s.logData.time := byteLe_iff.mp hrs.1
  have hle' : s.logData.time ≤ t.logData.time := byteLe_iff.mp hst.1
  refine ⟨byteLe_iff.mpr (List.le_trans hle hle'), fun heq => ?_⟩
  -- the text in the middle is between two equal ones
  have hmid : r.logData.time = s.logData.time := List.le_antisymm hle (heq ▸ hle')
  exact Nat.le_trans (hrs.2 hmid) (hst.2 (hmid.symm.trans heq))

section Queries

variable (parseDBTimestamp : Bytes → Time)

/-- By the text of their time, then by number. -/
def byText (events : List (Event × ℕ)) : List (Event × ℕ) :=
  events.insertionSort fun p q => ByTimeThenId (rowOf p) (rowOf q)

theorem perm_byText (events : List (Event × ℕ)) : (byText events).Perm events :=
  List.perm_insertionSort _ events

theorem map_byText (events : List (Event × ℕ)) :
    (byText events).map rowOf = (events.map rowOf).insertionSort ByTimeThenId :=
  List.map_insertionSort _ ByTimeThenId rowOf events fun _ _ _ _ => Iff.rfl

theorem pairwise_byText (events : List (Event × ℕ)) : (byText events).Pairwise fun p q =>
    byteLe p.1.time.format q.1.time.format = true := by
  have h := List.pairwise_insertionSort ByTimeThenId (events.map rowOf)
  rw [← map_byText] at h
  exact (List.pairwise_map.mp h).imp And.left

/-- A query on the rows is one on the events: those whose text is between the bounds, in the
order of the texts. -/
theorem getLogsBetween_run {ops : List Op} (start stop : Time) (limit : ℤ)
    (hopened : (History.run ops).opened = true) :
    getLogsBetween parseDBTimestamp (Logger.empty.run ops) start stop limit =
      .ok (((byText ((numbered (History.run ops).all).filter fun p =>
        byteLe start.format p.1.time.format && byteLe p.1.time.format stop.format)).take
          (effectiveLimit limit)).map (entry parseDBTimestamp)) := by
  have hs := holds_run ops
  unfold getLogsBetween
  rw [hs.opened, hopened, if_pos rfl, hs.rows]
  dsimp only
  rw [List.filter_map, ← map_byText, ← List.map_take, List.map_map]
  rfl

theorem answers_of_ordered {ops : List Op} {start stop : Time} (limit : ℤ)
    (hopened : (History.run ops).opened = true)
    (hstart : ∀ e ∈ (History.run ops).all,
      byteLe start.format e.time.format = true ↔ start.instant ≤ e.time.instant)
    (hstop : ∀ e ∈ (History.run ops).all,
      byteLe e.time.format stop.format = true ↔ e.time.instant ≤ stop.instant)
    (hmono : ∀ e ∈ (History.run ops).all, ∀ e' ∈ (History.run ops).all,
      byteLe e.time.format e'.time.format = true → e.time.instant ≤ e'.time.instant) :
    ∃ out, getLogsBetween parseDBTimestamp (Logger.empty.run ops) start stop limit = .ok out ∧
      Answers parseDBTimestamp (History.run ops).all start stop limit out := by
  have hmem : ∀ p ∈ numbered (History.run ops).all, p.1 ∈ (History.run ops).all :=
    fun p hp => List.fst_mem_of_mem_zipIdx hp
  -- the texts select the events in range
  have hfilter : ((numbered (History.run ops).all).filter fun p =>
      byteLe start.format p.1.time.format && byteLe p.1.time.format stop.format) =
      (numbered (History.run ops).all).filter fun p =>
        start.instant ≤ p.1.time.instant ∧ p.1.time.instant ≤ stop.instant := by
    refine List.filter_congr fun p hp => ?_
    rw [Bool.eq_iff_iff, Bool.and_eq_true, hstart p.1 (hmem p hp), hstop p.1 (hmem p hp),
      decide_eq_true_eq]
  refine ⟨_, getLogsBetween_run parseDBTimestamp start stop limit hopened, _, ?_, ?_, rfl⟩
  · rw [← hfilter]
    exact perm_byText _
  · refine (pairwise_byText _).imp_of_mem fun hp hq hle => ?_
    have hall : ∀ p ∈ byText ((numbered (History.run ops).all).filter fun p =>
        byteLe start.format p.1.time.format && byteLe p.1.time.format stop.format),
        p.1 ∈ (History.run ops).all := fun p hp =>
      hmem p (List.mem_of_mem_filter ((perm_byText _).mem_iff.mp hp))
    exact hmono _ (hall _ hp) _ (hall _ hq) hle

theorem ordered_of_followsTime {D : Set Time} (h : FollowsTime parseDBTimestamp D) (ha : a ∈ D)
    (hb : b ∈ D) : byteLe a.format b.format = true ↔ a.instant ≤ b.instant := by
  have hall : (History.run [.init, .log ⟨b, [], []⟩]).all = [⟨b, [], []⟩] := rfl
  obtain ⟨out, hout, chosen, hperm, -, hchosen⟩ := h [.init, .log ⟨b, [], []⟩] rfl
    (by
      intro e he
      rw [hall, List.mem_singleton] at he
      rw [he]
      exact hb) a ha b hb 1
  rw [getLogsBetween_run _ _ _ _ rfl, hall] at hout
  rw [hall] at hperm
  have htext := congrArg List.length (Except.ok.inj hout)
  have hinstant := congrArg List.length hchosen
  rw [List.length_map, List.length_take, (perm_byText _).length_eq] at htext
  rw [List.length_map, List.length_take, hperm.length_eq, ← htext] at hinstant
  -- there is one event, and it is selected by both or by neither
  have hone : numbered [(⟨b, [], []⟩ : Event)] = [(⟨b, [], []⟩, 1)] := rfl
  have hlimit : effectiveLimit 1 = 1 := rfl
  have hrefl : byteLe b.format b.format = true := byteLe_iff.mpr (List.le_refl _)
  simp only [hone, hlimit, List.filter_cons, List.filter_nil, hrefl, Bool.and_true, le_refl,
    and_true, decide_eq_true_eq] at hinstant
  by_cases hle : byteLe a.format b.format = true <;> by_cases hle' : a.instant ≤ b.instant
  all_goals simp [hle, hle'] at hinstant ⊢

/-- **Queries follow time on a set of times exactly if any two of them are in step.** The events
may be logged in any order, by any number of processes.
GOLINE: log/log.go:161-164, 318-377 -/
theorem followsTime_iff {D : Set Time} (hyear : ∀ t ∈ D, t.FourDigitYear) :
    FollowsTime parseDBTimestamp D ↔ ∀ a ∈ D, ∀ b ∈ D, InStep a b := by
  refine ⟨fun h a ha b hb => ?_, fun h => ?_⟩
  · rw [inStep_iff (hyear a ha) (hyear b hb)]
    exact ordered_of_followsTime parseDBTimestamp h ha hb
  · have hordered : ∀ a ∈ D, ∀ b ∈ D, byteLe a.format b.format = true ↔ a.instant ≤ b.instant :=
      fun a ha b hb => (inStep_iff (hyear a ha) (hyear b hb)).mp (h a ha b hb)
    intro ops hopened htimes start hstart stop hstop limit
    exact answers_of_ordered parseDBTimestamp limit hopened
      (fun e he => hordered start hstart e.time (htimes e he))
      (fun e he => hordered e.time (htimes e he) stop hstop)
      (fun e he e' he' => (hordered e.time (htimes e he) e'.time (htimes e' he')).mp)

end Queries

namespace Sample

/-- A time of June 1, 2024, by the clock of the zone. -/
def june (hour min sec nsec : ℕ) (offset : ℤ) : Time :=
  ⟨63852796800 + 3600 * hour + 60 * min + sec - offset, nsec % 10 ^ 9, offset,
    Nat.mod_lt _ (by decide)⟩

def logged (times : List Time) : Logger :=
  Logger.empty.run (.init :: times.map fun t => .log ⟨t, [], []⟩)

def parse (_ : Bytes) : Time := june 0 0 0 0 0

/-- A second process does not see what the first has written. -/
theorem lastLogs_exact_restart :
    getLogsSinceStart parse (Logger.empty.run [.init, .log ⟨june 12 0 0 0 0, [], []⟩, .restart,
      .init, .log ⟨june 13 0 0 0 0, [], []⟩]) =
        .ok [entry parse (⟨june 13 0 0 0 0, [], []⟩, 2)] :=
  (lastLogs_exact parse _ rfl).2

/-- Half a second past five is not found from five on, and stands before five where both are
found. Noon at two hours east is not found between nine and eleven in UTC. -/
theorem queries_leave_time :
    (getLogsBetween parse (logged [june 12 0 5 500000000 0]) (june 12 0 5 0 0) (june 12 0 6 0 0)
        100 = .ok [] ∧
      (june 12 0 5 0 0).instant ≤ (june 12 0 5 500000000 0).instant ∧
      (june 12 0 5 500000000 0).instant ≤ (june 12 0 6 0 0).instant) ∧
    (getLogsBetween parse (logged [june 12 0 5 0 0, june 12 0 5 500000000 0]) (june 12 0 0 0 0)
        (june 13 0 0 0 0) 100 =
        .ok [entry parse (⟨june 12 0 5 500000000 0, [], []⟩, 2),
          entry parse (⟨june 12 0 5 0 0, [], []⟩, 1)] ∧
      (june 12 0 5 0 0).instant < (june 12 0 5 500000000 0).instant) ∧
    (getLogsBetween parse (logged [june 12 0 0 0 7200]) (june 9 0 0 0 0) (june 11 0 0 0 0)
        100 = .ok [] ∧
      (june 9 0 0 0 0).instant ≤ (june 12 0 0 0 7200).instant ∧
      (june 12 0 0 0 7200).instant ≤ (june 11 0 0 0 0).instant) := by
  decide +kernel

/-- A logger that stays two hours east of UTC, asked in that zone. -/
theorem followsTime_two_hours_east :
    june 12 0 0 0 7200 ∈ {t : Time | t.offset = 7200 ∧ t.FourDigitYear} ∧
      FollowsTime parse {t : Time | t.offset = 7200 ∧ t.FourDigitYear} := by
  refine ⟨⟨rfl, by decide +kernel⟩, (followsTime_iff parse fun t ht => ht.2).mpr ?_⟩
  intro a ha b hb
  refine (inStep_zone_iff (ha.1.trans hb.1.symm)).mpr (Or.inl ?_)
  rw [ha.1]
  decide

end Sample

end N2nGo.Log
