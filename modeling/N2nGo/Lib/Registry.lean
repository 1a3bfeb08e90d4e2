import Mathlib.Data.Nat.Notation
import Mathlib.Logic.Function.Basic

/-!
# Records kept in groups and indexed twice

A `Registry` holds records that are shared by address. Every record belongs to one
group, which lists it under its key; two tables over all groups find a record by its
key and by the addresses it can be reached at. Groups are found by the hash of their
name. The tables are written separately from the groups, so that they agree with the
groups is a fact about the sequence of writes and not part of the data type.

The writes are the primitives `create`, `enroll`, `write`, `index`, `expel` and
`unindex`. An `Op` is what one client request does with them. `Valid` says that the
addresses in the tables are allocated and lead to the right records; it survives every
operation. `Agrees` and `Tracks`, the two ways in which the indexes follow the groups,
survive under the side conditions of `Agrees.apply` and `Tracks.apply`.
-/

set_option autoImplicit false
set_option linter.unusedSectionVars false

namespace N2nGo.Lib

/-- How records are filed: under which key, in the group of which name, and at which
addresses. The second address is optional. -/
class Filed (R : Type) (N K A : outParam Type) where
  key : R → K
  home : R → N
  addr : R → A
  alt : R → Option A

/-- Groups of records with an index by key and an index by address. The addresses below
`groups` and `records` are allocated. -/
structure Registry (H N K A R : Type) where
  group : H → Option ℕ
  name : ℕ → N
  member : ℕ → K → Option ℕ
  record : ℕ → R
  byKey : K → Option ℕ
  byAddr : A → Option ℕ
  groups : ℕ
  records : ℕ

namespace Registry

open Filed

variable {H N K A R : Type} [DecidableEq H] [DecidableEq K] [DecidableEq A] [Filed R N K A]

/-! ## Writes -/

section Writes

variable (m : Registry H N K A R)

/-- A new group without members. -/
def create (h : H) (n : N) : Registry H N K A R :=
  { m with
    group := Function.update m.group h (some m.groups)
    name := Function.update m.name m.groups n
    member := Function.update m.member m.groups fun _ => none
    groups := m.groups + 1 }

/-- A new record, listed in group `g`. -/
def enroll (g : ℕ) (r : R) : Registry H N K A R :=
  { m with
    record := Function.update m.record m.records r
    member := Function.update m.member g (Function.update (m.member g) (key r) (some m.records))
    records := m.records + 1 }

def write (i : ℕ) (r : R) : Registry H N K A R :=
  { m with record := Function.update m.record i r }

/-- Enter record `i` in both indexes. -/
def index (i : ℕ) : Registry H N K A R :=
  { m with
    byKey := Function.update m.byKey (key (m.record i)) (some i)
    byAddr := fun a =>
      if a = addr (m.record i) ∨ alt (m.record i) = some a then some i else m.byAddr a }

/-- Strike key `k` from group `g`. -/
def expel (g : ℕ) (k : K) : Registry H N K A R :=
  { m with member := Function.update m.member g (Function.update (m.member g) k none) }

/-- Strike key `k` from the index by key, and the first address of the record found
there from the index by address. -/
def unindex (k : K) : Registry H N K A R :=
  match m.byKey k with
  | none => m
  | some i =>
    { m with
      byKey := Function.update m.byKey k none
      byAddr := Function.update m.byAddr (addr (m.record i)) none }

theorem write_enroll (g : ℕ) {r r' : R} (h : key r' = key r) :
    (m.enroll g r).write m.records r' = m.enroll g r' := by
  unfold enroll write
  simp [h]

theorem write_write (i : ℕ) (r r' : R) : (m.write i r).write i r' = m.write i r' := by
  simp [write]

end Writes

section Reads

variable {m : Registry H N K A R} {g g' i : ℕ} {k k' : K} {r : R}

theorem member_create {h : H} {n : N} :
    (m.create h n).member g k = if g = m.groups then none else m.member g k := by
  simp only [create, Function.update_apply]
  split <;> rfl

/-- Writing one entry of one group. -/
theorem update_update_apply (f : ℕ → K → Option ℕ) (o : Option ℕ) :
    Function.update f g (Function.update (f g) k o) g' k' =
      if g' = g ∧ k' = k then o else f g' k' := by
  by_cases hg : g' = g
  · subst hg
    simp [Function.update_apply]
  · simp [hg]

theorem member_enroll : (m.enroll g r).member g' k =
    if g' = g ∧ k = key r then some m.records else m.member g' k :=
  update_update_apply ..

theorem member_expel :
    (m.expel g k).member g' k' = if g' = g ∧ k' = k then none else m.member g' k' :=
  update_update_apply ..

theorem member_of_expel (h : (m.expel g k).member g' k' = some i) : m.member g' k' = some i := by
  rw [member_expel] at h
  split at h
  · cases h
  · exact h

theorem record_enroll : (m.enroll g r).record i = if i = m.records then r else m.record i :=
  Function.update_apply ..

theorem record_write {j : ℕ} : (m.write i r).record j = if j = i then r else m.record j :=
  Function.update_apply ..

theorem byKey_index : (m.index i).byKey k = if k = key (m.record i) then some i else m.byKey k :=
  Function.update_apply ..

end Reads

/-! ## Operations -/

/-- What one request does to the registry. -/
inductive Op (H N K R : Type) where
  | create (h : H) (n : N)
  | join (g : ℕ) (r : R)
  | rejoin (i : ℕ) (r : R)
  | refresh (i : ℕ) (r : R)
  | leave (g : ℕ) (k : K)

/-- The registry after the operation. -/
def apply (m : Registry H N K A R) : Op H N K R → Registry H N K A R
  | .create h n => m.create h n
  | .join g r => (m.enroll g r).index m.records
  | .rejoin i r => (m.write i r).index i
  | .refresh i r => m.write i r
  | .leave g k => (m.expel g k).unindex k

/-- Group `g` is known and lists record `i` under `k`. -/
def Listed (m : Registry H N K A R) (g : ℕ) (k : K) (i : ℕ) : Prop :=
  (∃ h, m.group h = some g) ∧ m.member g k = some i

/-- When an operation may be applied. A group is created under the hash of its name if
that is free; a record joins a known group that does not list its key; a listed record is
overwritten by one with the same key and home; what leaves is listed and indexed. -/
def Enabled (hash : N → H) (m : Registry H N K A R) : Op H N K R → Prop
  | .create h n => m.group h = none ∧ hash n = h
  | .join g r => (∃ h, m.group h = some g) ∧ m.member g (key r) = none ∧ home r = m.name g
  | .rejoin i r | .refresh i r =>
    ∃ g, m.Listed g (key r) i ∧ key r = key (m.record i) ∧ home r = home (m.record i)
  | .leave g k => (∃ i, m.Listed g k i) ∧ ∃ j, m.byKey k = some j

/-- The operation adds no entry to a group and changes no record. -/
def Op.Quiet : Op H N K R → Prop
  | .create _ _ | .leave _ _ => True
  | _ => False

/-- Only the last operation of the list may add an entry or change a record. -/
def Mild : List (Op H N K R) → Prop
  | [] | [_] => True
  | op :: ops => op.Quiet ∧ Mild ops

/-- A sequence of operations, each enabled where it is applied. -/
inductive Run (hash : N → H) : Registry H N K A R → List (Op H N K R) → Registry H N K A R → Prop where
  | nil (m : Registry H N K A R) : Run hash m [] m
  | cons {m m' : Registry H N K A R} {op : Op H N K R} {ops : List (Op H N K R)} :
      m.Enabled hash op → Run hash (m.apply op) ops m' → Run hash m (op :: ops) m'

variable {ops : List (Op H N K R)}

theorem mild_of_quiet (h : ∀ op ∈ ops, op.Quiet) : Mild ops := by
  induction ops with
  | nil => trivial
  | cons op ops ih =>
    cases ops with
    | nil => trivial
    | cons op' ops => exact ⟨h op (by simp), ih fun o ho => h o (List.mem_cons_of_mem _ ho)⟩

variable {op : Op H N K R}

/-- One more operation at the end. -/
theorem Run.concat {hash : N → H} {m m' : Registry H N K A R} (h : Run hash m ops m')
    (he : m'.Enabled hash op) : Run hash m (ops ++ [op]) (m'.apply op) := by
  induction h with
  | nil m => exact .cons he (.nil _)
  | cons he' _ ih => exact .cons he' (ih he)

/-! ## What always holds -/

/-- Known groups are found under the hash of their name; listed and indexed records are
allocated, have the key they are found under, and live in the group that lists them. -/
structure Valid (hash : N → H) (m : Registry H N K A R) : Prop where
  group_lt : ∀ {h g}, m.group h = some g → g < m.groups
  group_hash : ∀ {h g}, m.group h = some g → hash (m.name g) = h
  listed_lt : ∀ {g k i}, m.Listed g k i → i < m.records
  listed_key : ∀ {g k i}, m.Listed g k i → key (m.record i) = k
  listed_home : ∀ {g k i}, m.Listed g k i → home (m.record i) = m.name g
  byKey_lt : ∀ {k i}, m.byKey k = some i → i < m.records
  byKey_key : ∀ {k i}, m.byKey k = some i → key (m.record i) = k
  byAddr_lt : ∀ {a i}, m.byAddr a = some i → i < m.records

section Invariants

variable {hash : N → H} {m m' : Registry H N K A R} {g g' i : ℕ} {k k' : K} {r : R}

/-- A record is listed in one place only. -/
theorem Valid.listed_inj (v : m.Valid hash) (h : m.Listed g k i) (h' : m.Listed g' k' i) :
    g = g' ∧ k = k' := by
  refine ⟨?_, (v.listed_key h).symm.trans (v.listed_key h')⟩
  obtain ⟨hh, hg⟩ := h.1
  obtain ⟨hh', hg'⟩ := h'.1
  have hname : m.name g = m.name g' := (v.listed_home h).symm.trans (v.listed_home h')
  have hhash : hh = hh' := by rw [← v.group_hash hg, ← v.group_hash hg', hname]
  rw [hhash, hg'] at hg
  exact (Option.some.inj hg).symm

variable {n : N}

theorem listed_create (v : m.Valid hash) {h : H} (hfree : m.group h = none) :
    (m.create h n).Listed g k i ↔ m.Listed g k i := by
  unfold Listed
  rw [member_create]
  constructor
  · rintro ⟨⟨h', hg⟩, hmem⟩
    split at hmem
    · cases hmem
    · next hne =>
      simp only [create, Function.update_apply] at hg
      split at hg
      · exact absurd (Option.some.inj hg).symm hne
      · exact ⟨⟨h', hg⟩, hmem⟩
  · rintro ⟨⟨h', hg⟩, hmem⟩
    have hh : h' ≠ h := by
      rintro rfl
      rw [hfree] at hg
      cases hg
    refine ⟨⟨h', (Function.update_of_ne hh ..).trans hg⟩, ?_⟩
    rw [if_neg (Nat.ne_of_lt (v.group_lt hg)), hmem]

theorem listed_enroll :
    (m.enroll g r).Listed g' k i ↔
      (g' = g ∧ k = key r ∧ (∃ h, m.group h = some g) ∧ i = m.records) ∨
        (¬ (g' = g ∧ k = key r) ∧ m.Listed g' k i) := by
  unfold Listed
  rw [member_enroll, show (m.enroll g r).group = m.group from rfl]
  by_cases hgk : g' = g ∧ k = key r
  · obtain ⟨rfl, rfl⟩ := hgk
    simp [eq_comm]
  · rw [if_neg hgk]
    exact ⟨fun h => Or.inr ⟨hgk, h⟩,
      fun h => (h.resolve_left fun hnew => hgk ⟨hnew.1, hnew.2.1⟩).2⟩

theorem listed_expel :
    (m.expel g k).Listed g' k' i ↔ m.Listed g' k' i ∧ ¬ (g' = g ∧ k' = k) := by
  unfold Listed
  rw [member_expel]
  by_cases hgk : g' = g ∧ k' = k
  · simp [hgk]
  · rw [if_neg hgk, and_iff_left hgk]
    rfl

theorem listed_unindex : (m.unindex k).Listed g k' i ↔ m.Listed g k' i := by
  unfold unindex
  split <;> exact Iff.rfl

theorem byKey_unindex : (m.unindex k).byKey k' = if k' = k then none else m.byKey k' := by
  unfold unindex
  split
  · next hk =>
    split
    · next h => rw [h, hk]
    · rfl
  · simp only [Function.update_apply]

theorem byAddr_unindex {a : A} (hk : m.byKey k = some i) :
    (m.unindex k).byAddr a = if a = addr (m.record i) then none else m.byAddr a := by
  simp only [unindex, hk, Function.update_apply]

/-- Taking an entry out of a table brings no entry in. -/
theorem eq_some_of_update_none {α : Type} [DecidableEq α] {f : α → Option ℕ} {a b : α}
    (h : Function.update f a none b = some i) : f b = some i := by
  rw [Function.update_apply] at h
  split at h
  · cases h
  · exact h

theorem byAddr_of_unindex {a : A} (h : (m.unindex k).byAddr a = some i) : m.byAddr a = some i := by
  unfold unindex at h
  split at h
  · exact h
  · exact eq_some_of_update_none h

theorem record_unindex : (m.unindex k).record = m.record := by
  unfold unindex
  split <;> rfl

theorem records_unindex : (m.unindex k).records = m.records := by
  unfold unindex
  split <;> rfl

theorem group_unindex : (m.unindex k).group = m.group := by
  unfold unindex
  split <;> rfl

theorem groups_unindex : (m.unindex k).groups = m.groups := by
  unfold unindex
  split <;> rfl

theorem member_unindex : (m.unindex k).member = m.member := by
  unfold unindex
  split <;> rfl

/-! ## Every operation keeps the registry valid -/

section

variable (v : m.Valid hash)
include v

theorem Valid.create {h : H} (hfree : m.group h = none) (hn : hash n = h) :
    (m.create h n).Valid hash := by
  have hgroup : ∀ {h' g}, (m.create h n).group h' = some g →
      (h' = h ∧ g = m.groups) ∨ (g ≠ m.groups ∧ m.group h' = some g) := by
    intro h' g hg
    simp only [Registry.create, Function.update_apply] at hg
    split at hg
    · next hh => exact Or.inl ⟨hh, (Option.some.inj hg).symm⟩
    · exact Or.inr ⟨Nat.ne_of_lt (v.group_lt hg), hg⟩
  have hname : ∀ {g}, g ≠ m.groups → (m.create h n).name g = m.name g := fun hne => by
    simp [Registry.create, hne]
  have hlisted : ∀ {g k i}, (m.create h n).Listed g k i → m.Listed g k i :=
    (listed_create v hfree).mp
  refine ⟨?_, ?_, fun hl => v.listed_lt (hlisted hl), fun hl => v.listed_key (hlisted hl), ?_,
    v.byKey_lt, v.byKey_key, v.byAddr_lt⟩
  · intro h' g hg
    have hnext : (m.create h n).groups = m.groups + 1 := rfl
    rcases hgroup hg with ⟨-, rfl⟩ | ⟨-, hg⟩
    · omega
    · have := v.group_lt hg
      omega
  · intro h' g hg
    rcases hgroup hg with ⟨rfl, rfl⟩ | ⟨hne, hg⟩
    · simpa [Registry.create] using hn
    · rw [hname hne, v.group_hash hg]
  · intro g k i hl
    obtain ⟨h', hg⟩ := (hlisted hl).1
    rw [hname (Nat.ne_of_lt (v.group_lt hg))]
    exact v.listed_home (hlisted hl)

theorem Valid.enroll (hg : ∃ h, m.group h = some g) (hhome : home r = m.name g) :
    (m.enroll g r).Valid hash := by
  have hnew : (m.enroll g r).record m.records = r := Function.update_self ..
  have hold : ∀ {i}, i < m.records → (m.enroll g r).record i = m.record i :=
    fun hi => Function.update_of_ne (Nat.ne_of_lt hi) ..
  have hnext : (m.enroll g r).records = m.records + 1 := rfl
  refine ⟨v.group_lt, v.group_hash, ?_, ?_, ?_, ?_, ?_, ?_⟩
  · intro g' k i hl
    rcases listed_enroll.mp hl with ⟨-, -, -, rfl⟩ | ⟨-, hl⟩
    · omega
    · have := v.listed_lt hl
      omega
  · intro g' k i hl
    rcases listed_enroll.mp hl with ⟨-, rfl, -, rfl⟩ | ⟨-, hl⟩
    · rw [hnew]
    · rw [hold (v.listed_lt hl), v.listed_key hl]
  · intro g' k i hl
    rcases listed_enroll.mp hl with ⟨rfl, -, -, rfl⟩ | ⟨-, hl⟩
    · rw [hnew, hhome]
      rfl
    · rw [hold (v.listed_lt hl)]
      exact v.listed_home hl
  · intro k i hk
    have := v.byKey_lt hk
    omega
  · intro k i hk
    rw [hold (v.byKey_lt hk), v.byKey_key hk]
  · intro a i ha
    have := v.byAddr_lt ha
    omega

theorem Valid.write (hkey : key r = key (m.record i)) (hhome : home r = home (m.record i)) :
    (m.write i r).Valid hash := by
  have hk : ∀ j, key ((m.write i r).record j) = key (m.record j) := fun j => by
    by_cases hj : j = i
    · subst hj
      simpa [Registry.write] using hkey
    · simp [Registry.write, hj]
  have hh : ∀ j, home ((m.write i r).record j) = home (m.record j) := fun j => by
    by_cases hj : j = i
    · subst hj
      simpa [Registry.write] using hhome
    · simp [Registry.write, hj]
  exact ⟨v.group_lt, v.group_hash, v.listed_lt, fun hl => (hk _).trans (v.listed_key hl),
    fun hl => (hh _).trans (v.listed_home hl), v.byKey_lt, fun hb => (hk _).trans (v.byKey_key hb),
    v.byAddr_lt⟩

theorem Valid.index (hi : i < m.records) : (m.index i).Valid hash := by
  refine ⟨v.group_lt, v.group_hash, v.listed_lt, v.listed_key, v.listed_home, ?_, ?_, ?_⟩
  · intro k j hk
    rw [byKey_index] at hk
    split at hk
    · cases hk
      exact hi
    · exact v.byKey_lt hk
  · intro k j hk
    rw [byKey_index] at hk
    split at hk
    · next heq =>
      cases hk
      exact heq.symm
    · exact v.byKey_key hk
  · intro a j ha
    simp only [Registry.index] at ha
    split at ha
    · cases ha
      exact hi
    · exact v.byAddr_lt ha

theorem Valid.expel (g : ℕ) (k : K) : (m.expel g k).Valid hash :=
  ⟨v.group_lt, v.group_hash, fun hl => v.listed_lt (listed_expel.mp hl).1,
    fun hl => v.listed_key (listed_expel.mp hl).1, fun hl => v.listed_home (listed_expel.mp hl).1,
    v.byKey_lt, v.byKey_key, v.byAddr_lt⟩

theorem Valid.unindex (k : K) : (m.unindex k).Valid hash := by
  unfold Registry.unindex
  cases hk : m.byKey k with
  | none => exact v
  | some i =>
    exact ⟨v.group_lt, v.group_hash, v.listed_lt, v.listed_key, v.listed_home,
      fun hj => v.byKey_lt (eq_some_of_update_none hj),
      fun hj => v.byKey_key (eq_some_of_update_none hj),
      fun hj => v.byAddr_lt (eq_some_of_update_none hj)⟩

/-- **An enabled operation keeps the registry valid.** -/
theorem Valid.apply (he : m.Enabled hash op) : (m.apply op).Valid hash := by
  cases op with
  | create h n => exact v.create he.1 he.2
  | join g r =>
    obtain ⟨hg, -, hhome⟩ := he
    exact (v.enroll hg hhome).index (Nat.lt_succ_self _)
  | rejoin i r =>
    obtain ⟨g, hl, hkey, hhome⟩ := he
    exact (v.write hkey hhome).index (v.listed_lt hl)
  | refresh i r =>
    obtain ⟨g, -, hkey, hhome⟩ := he
    exact v.write hkey hhome
  | leave g k => exact (v.expel g k).unindex k

theorem Valid.run (h : Run hash m ops m') : m'.Valid hash := by
  induction h with
  | nil => exact v
  | cons he _ ih => exact ih (v.apply he)

end

/-! ## Records an operation leaves alone -/

/-- The operation overwrites record `i`, or strikes key `k` from group `g`. -/
def Op.Touches (g : ℕ) (k : K) (i : ℕ) : Op H N K R → Prop
  | .create _ _ | .join _ _ => False
  | .rejoin j _ | .refresh j _ => j = i
  | .leave g' k' => g' = g ∧ k' = k

/-- A listed record that is not touched stays as it is and where it is. -/
theorem Listed.apply (v : m.Valid hash) (hl : m.Listed g k i) (he : m.Enabled hash op)
    (hop : ¬ op.Touches g k i) :
    (m.apply op).Listed g k i ∧ (m.apply op).record i = m.record i := by
  cases op with
  | create h n => exact ⟨(listed_create v he.1).mpr hl, rfl⟩
  | join g' r =>
    refine ⟨listed_enroll.mpr (Or.inr ⟨?_, hl⟩), ?_⟩
    · rintro ⟨rfl, rfl⟩
      cases he.2.1.symm.trans hl.2
    · exact Function.update_of_ne (Nat.ne_of_lt (v.listed_lt hl)) ..
  | rejoin j r => exact ⟨hl, Function.update_of_ne (fun h => hop h.symm) ..⟩
  | refresh j r => exact ⟨hl, Function.update_of_ne (fun h => hop h.symm) ..⟩
  | leave g' k' =>
    refine ⟨listed_unindex.mpr (listed_expel.mpr ⟨hl, ?_⟩), congrFun record_unindex i⟩
    rintro ⟨rfl, rfl⟩
    exact hop ⟨rfl, rfl⟩

theorem Listed.run (v : m.Valid hash) (hl : m.Listed g k i) (h : Run hash m ops m')
    (hops : ∀ op ∈ ops, ¬ op.Touches g k i) : m'.Listed g k i ∧ m'.record i = m.record i := by
  induction h with
  | nil => exact ⟨hl, rfl⟩
  | @cons m m' op ops he _ ih =>
    obtain ⟨hl', hrec⟩ := hl.apply v he (hops op (by simp))
    obtain ⟨hl'', hrec'⟩ := ih (v.apply he) hl' fun o ho => hops o (List.mem_cons_of_mem _ ho)
    exact ⟨hl'', hrec'.trans hrec⟩

/-- Members that leave take no record with them. -/
theorem record_run_leave (h : Run hash m ops m') (hops : ∀ op ∈ ops, ∃ g k, op = .leave g k) :
    m'.record = m.record ∧ m'.records = m.records := by
  induction h with
  | nil => exact ⟨rfl, rfl⟩
  | @cons m m' op ops _ _ ih =>
    obtain ⟨hrec, hnext⟩ := ih fun o ho => hops o (List.mem_cons_of_mem _ ho)
    obtain ⟨g, k, rfl⟩ := hops op (by simp)
    rw [hrec, hnext]
    exact ⟨record_unindex, records_unindex⟩

/-! ## What a group holds -/

/-- The records of a group by their keys. -/
def content (m : Registry H N K A R) (g : ℕ) (k : K) : Option R := (m.member g k).map m.record

/-- The operation leaves `o` under `k` in group `g`. -/
def Op.Sets (m : Registry H N K A R) (g : ℕ) (k : K) (o : Option R) : Op H N K R → Prop
  | .create _ _ => False
  | .join g' r => g' = g ∧ key r = k ∧ o = some r
  | .rejoin i r | .refresh i r => m.Listed g k i ∧ o = some r
  | .leave g' k' => g' = g ∧ k' = k ∧ o = none

theorem listed_iff_content :
    (∃ i, m.Listed g k i) ↔ (∃ h, m.group h = some g) ∧ ∃ r, m.content g k = some r := by
  constructor
  · rintro ⟨i, hg, hmem⟩
    exact ⟨hg, m.record i, by rw [content, hmem]; rfl⟩
  · rintro ⟨hg, r, hr⟩
    obtain ⟨i, hmem, -⟩ := Option.map_eq_some_iff.mp hr
    exact ⟨i, hg, hmem⟩

theorem content_enroll (hlt : ∀ i, m.member g' k = some i → i < m.records) :
    (m.enroll g r).content g' k = if g' = g ∧ k = key r then some r else m.content g' k := by
  unfold content
  rw [member_enroll]
  split
  · exact congrArg some (Function.update_self ..)
  · exact Option.map_congr fun i hi => Function.update_of_ne (Nat.ne_of_lt (hlt i hi)) ..

theorem content_write (hi : m.member g k = some i)
    (hone : m.member g' k' = some i → g' = g ∧ k' = k) :
    (m.write i r).content g' k' = if g' = g ∧ k' = k then some r else m.content g' k' := by
  split
  · next hgk =>
    rw [hgk.1, hgk.2, content, show (m.write i r).member g k = some i from hi]
    exact congrArg some (Function.update_self ..)
  · next hgk =>
    refine Option.map_congr fun j hj => Function.update_of_ne ?_ ..
    rintro rfl
    exact hgk (hone hj)

theorem content_expel :
    (m.expel g k).content g' k' = if g' = g ∧ k' = k then none else m.content g' k' := by
  unfold content
  rw [member_expel]
  split <;> rfl

/-- **An operation changes one entry of one group.** -/
theorem content_apply (v : m.Valid hash) {o : Option R} (hs : op.Sets m g k o)
    (hg : ∃ h, m.group h = some g') :
    (m.apply op).content g' =
      if g' = g then Function.update (m.content g') k o else m.content g' := by
  have hentry : ∀ k', (m.apply op).content g' k' =
      if g' = g ∧ k' = k then o else m.content g' k' := by
    intro k'
    cases op with
    | create h n => exact hs.elim
    | join g0 r =>
      obtain ⟨rfl, rfl, rfl⟩ := hs
      exact content_enroll fun i hi => v.listed_lt ⟨hg, hi⟩
    | rejoin i r =>
      obtain ⟨hl, rfl⟩ := hs
      exact content_write hl.2 fun hi => v.listed_inj ⟨hg, hi⟩ hl
    | refresh i r =>
      obtain ⟨hl, rfl⟩ := hs
      exact content_write hl.2 fun hi => v.listed_inj ⟨hg, hi⟩ hl
    | leave g0 k0 =>
      obtain ⟨rfl, rfl, rfl⟩ := hs
      have hexpel : ((m.expel g0 k0).unindex k0).content g' = (m.expel g0 k0).content g' := by
        unfold content
        rw [member_unindex, record_unindex]
      exact (congrFun hexpel k').trans content_expel
  funext k'
  rw [hentry, ite_and]
  split
  · rw [Function.update_apply]
  · rfl

theorem group_apply_of_sets {o : Option R} (hs : op.Sets m g k o) :
    (m.apply op).group = m.group := by
  cases op with
  | create h n => exact hs.elim
  | join g0 r => rfl
  | rejoin i r => rfl
  | refresh i r => rfl
  | leave g0 k0 => exact group_unindex (m := m.expel g0 k0)

/-- A key that is listed was listed before, or has joined. -/
theorem listed_of_apply (v : m.Valid hash) (he : m.Enabled hash op) (hl : (m.apply op).Listed g k i) :
    (∃ j, m.Listed g k j) ∨ ∃ r, op = .join g r ∧ key r = k := by
  cases op with
  | create h n => exact Or.inl ⟨i, (listed_create v he.1).mp hl⟩
  | join g0 r =>
    have hl' : (m.enroll g0 r).Listed g k i := hl
    rcases listed_enroll.mp hl' with ⟨rfl, rfl, -, -⟩ | ⟨-, hl⟩
    · exact Or.inr ⟨r, rfl, rfl⟩
    · exact Or.inl ⟨i, hl⟩
  | rejoin j r => exact Or.inl ⟨i, hl⟩
  | refresh j r => exact Or.inl ⟨i, hl⟩
  | leave g0 k0 => exact Or.inl ⟨i, (listed_expel.mp (listed_unindex.mp hl)).1⟩

theorem listed_of_run (v : m.Valid hash) (h : Run hash m ops m') (hl : m'.Listed g k i) :
    (∃ j, m.Listed g k j) ∨ ∃ r, .join g r ∈ ops ∧ key r = k := by
  induction h with
  | nil => exact Or.inl ⟨i, hl⟩
  | cons he _ ih =>
    rcases ih (v.apply he) hl with ⟨j, hj⟩ | ⟨r, hr, hk⟩
    · rcases listed_of_apply v he hj with hold | ⟨r, rfl, hk⟩
      · exact Or.inl hold
      · exact Or.inr ⟨r, List.mem_cons_self, hk⟩
    · exact Or.inr ⟨r, List.mem_cons_of_mem _ hr, hk⟩

theorem content_create (hne : g ≠ m.groups) (h : H) (n : N) :
    (m.create h n).content g = m.content g := by
  funext k
  rw [content, member_create, if_neg hne]
  rfl

/-! ## Who is in the group of a hash -/

/-- The group with this hash lists the key. -/
def Holds (m : Registry H N K A R) (h : H) (k : K) : Prop :=
  ∃ g i, m.group h = some g ∧ m.member g k = some i

/-- The group of this name is known. -/
def Named (hash : N → H) (m : Registry H N K A R) (n : N) : Prop :=
  ∃ g, m.group (hash n) = some g ∧ m.name g = n

section

variable (v : m.Valid hash) {h h' : H}
include v

theorem Valid.group_inj (hg : m.group h = some g) (hg' : m.group h' = some g) : h = h' := by
  rw [← v.group_hash hg, ← v.group_hash hg']

theorem holds_create (hfree : m.group h = none) : (m.create h n).Holds h' k ↔ m.Holds h' k := by
  constructor
  · rintro ⟨g, i, hg, hmem⟩
    have hold := (listed_create v hfree).mp ⟨⟨h', hg⟩, hmem⟩
    have hne : g ≠ m.groups := Nat.ne_of_lt (v.group_lt hold.1.choose_spec)
    simp only [create, Function.update_apply] at hg
    split at hg
    · exact absurd (Option.some.inj hg).symm hne
    · exact ⟨g, i, hg, hold.2⟩
  · rintro ⟨g, i, hg, hmem⟩
    have hne : h' ≠ h := by
      rintro rfl
      rw [hfree] at hg
      cases hg
    refine ⟨g, i, ?_, ((listed_create v hfree).mpr ⟨⟨h', hg⟩, hmem⟩).2⟩
    simp only [create, Function.update_apply, if_neg hne, hg]

theorem holds_enroll (hg : m.group h = some g) :
    (m.enroll g r).Holds h' k ↔ m.Holds h' k ∨ h' = h ∧ k = key r := by
  constructor
  · rintro ⟨g', i, hg', hmem⟩
    have hg' : m.group h' = some g' := hg'
    rcases listed_enroll.mp ⟨⟨h', hg'⟩, hmem⟩ with ⟨rfl, rfl, -, -⟩ | ⟨-, hold⟩
    · exact Or.inr ⟨v.group_inj hg' hg, rfl⟩
    · exact Or.inl ⟨g', i, hg', hold.2⟩
  · rintro (⟨g', i, hg', hmem⟩ | ⟨rfl, rfl⟩)
    · by_cases hsame : g' = g ∧ k = key r
      · obtain ⟨rfl, rfl⟩ := hsame
        exact ⟨g', _, hg', (listed_enroll.mpr (Or.inl ⟨rfl, rfl, ⟨h', hg'⟩, rfl⟩)).2⟩
      · exact ⟨g', i, hg', (listed_enroll.mpr (Or.inr ⟨hsame, ⟨h', hg'⟩, hmem⟩)).2⟩
    · exact ⟨g, _, hg, (listed_enroll.mpr (Or.inl ⟨rfl, rfl, ⟨h', hg⟩, rfl⟩)).2⟩

theorem holds_leave (hg : m.group h = some g) :
    (m.apply (.leave g k)).Holds h' k' ↔ m.Holds h' k' ∧ ¬ (h' = h ∧ k' = k) := by
  have hgroup : (m.apply (.leave g k)).group = m.group := group_unindex (m := m.expel g k)
  constructor
  · rintro ⟨g', i, hg', hmem⟩
    obtain ⟨hold, hne⟩ := listed_expel.mp (listed_unindex.mp ⟨⟨h', hg'⟩, hmem⟩)
    rw [hgroup] at hg'
    refine ⟨⟨g', i, hg', hold.2⟩, ?_⟩
    rintro ⟨rfl, rfl⟩
    exact hne ⟨Option.some.inj (hg'.symm.trans hg), rfl⟩
  · rintro ⟨⟨g', i, hg', hmem⟩, hne⟩
    have hother : ¬ (g' = g ∧ k' = k) := by
      rintro ⟨rfl, rfl⟩
      exact hne ⟨v.group_inj hg' hg, rfl⟩
    exact ⟨g', i, by rw [hgroup, hg'],
      (listed_unindex.mpr (listed_expel.mpr ⟨⟨⟨h', hg'⟩, hmem⟩, hother⟩)).2⟩

end

/-- A known group stays known. -/
theorem Named.apply (v : m.Valid hash) (he : m.Enabled hash op) (h : m.Named hash n) :
    (m.apply op).Named hash n := by
  obtain ⟨g, hg, hname⟩ := h
  cases op with
  | create h' n' =>
    have hne : hash n ≠ h' := by
      intro heq
      rw [heq, he.1] at hg
      cases hg
    refine ⟨g, ?_, ?_⟩
    · simp only [Registry.apply, create, Function.update_apply, if_neg hne, hg]
    · simp only [Registry.apply, create, Function.update_apply,
        if_neg (Nat.ne_of_lt (v.group_lt hg)), hname]
  | join g' r => exact ⟨g, hg, hname⟩
  | rejoin i r => exact ⟨g, hg, hname⟩
  | refresh i r => exact ⟨g, hg, hname⟩
  | leave g' k' =>
    refine ⟨g, (congrFun (group_unindex (m := m.expel g' k')) _).trans hg, ?_⟩
    show ((m.expel g' k').unindex k').name g = n
    unfold unindex
    split <;> exact hname

theorem Named.run (v : m.Valid hash) (hrun : Run hash m ops m') (h : m.Named hash n) :
    m'.Named hash n := by
  induction hrun with
  | nil => exact h
  | cons he _ ih => exact ih (v.apply he) (h.apply v he)

/-! ## Groups that need not be known -/

/-- Every record that an allocated group lists is allocated, has the key it is listed under,
and is listed nowhere else. -/
def Placed (m : Registry H N K A R) : Prop :=
  ∀ g, g < m.groups → ∀ k i, m.member g k = some i → i < m.records ∧ key (m.record i) = k ∧
    ∀ g', g' < m.groups → ∀ k', m.member g' k' = some i → g' = g

theorem Placed.of_sub (h : m.Placed) (hgroups : m'.groups = m.groups)
    (hrecords : m'.records = m.records) (hkey : ∀ i, key (m'.record i) = key (m.record i))
    (hmember : ∀ g k i, m'.member g k = some i → m.member g k = some i) : m'.Placed := by
  intro g hg k i hi
  rw [hgroups] at hg
  obtain ⟨hlt, hk, hone⟩ := h g hg k i (hmember g k i hi)
  refine ⟨hrecords ▸ hlt, (hkey i).trans hk, fun g' hg' k' hi' => ?_⟩
  rw [hgroups] at hg'
  exact hone g' hg' k' (hmember g' k' i hi')

theorem Placed.create (h : m.Placed) (hh : H) (n : N) : (m.create hh n).Placed := by
  have hold : ∀ g k i, g < m.groups + 1 → (m.create hh n).member g k = some i →
      g < m.groups ∧ m.member g k = some i := by
    intro g k i hg hi
    rw [member_create] at hi
    split at hi
    · cases hi
    · next hne => exact ⟨by omega, hi⟩
  intro g hg k i hi
  obtain ⟨hg, hi⟩ := hold g k i hg hi
  obtain ⟨hlt, hk, hone⟩ := h g hg k i hi
  refine ⟨hlt, hk, fun g' hg' k' hi' => ?_⟩
  obtain ⟨hg', hi'⟩ := hold g' k' i hg' hi'
  exact hone g' hg' k' hi'

theorem Placed.enroll (h : m.Placed) (hg : g < m.groups) (r : R) : (m.enroll g r).Placed := by
  have hcases : ∀ g' k' i, (m.enroll g r).member g' k' = some i →
      (g' = g ∧ k' = key r ∧ i = m.records) ∨ m.member g' k' = some i := by
    intro g' k' i hi
    rw [member_enroll] at hi
    split at hi
    · next hgk => exact Or.inl ⟨hgk.1, hgk.2, (Option.some.inj hi).symm⟩
    · exact Or.inr hi
  intro g1 hg1 k1 i hi
  have hg1 : g1 < m.groups := hg1
  rcases hcases g1 k1 i hi with ⟨rfl, rfl, rfl⟩ | hi
  · refine ⟨Nat.lt_succ_self _, by rw [record_enroll, if_pos rfl], fun g' hg' k' hi' => ?_⟩
    rcases hcases g' k' _ hi' with ⟨rfl, -, -⟩ | hi'
    · rfl
    · exact absurd (h g' hg' k' _ hi').1 (Nat.lt_irrefl _)
  · obtain ⟨hlt, hk, hone⟩ := h g1 hg1 k1 i hi
    refine ⟨Nat.lt_succ_of_lt hlt, by rw [record_enroll, if_neg (Nat.ne_of_lt hlt), hk],
      fun g' hg' k' hi' => ?_⟩
    rcases hcases g' k' i hi' with ⟨-, -, rfl⟩ | hi'
    · exact absurd hlt (Nat.lt_irrefl _)
    · exact hone g' hg' k' hi'

/-- What a group shows when a record is enrolled. -/
theorem Placed.content_enroll (h : m.Placed) (hg' : g' < m.groups) :
    (m.enroll g r).content g' k = if g' = g ∧ k = key r then some r else m.content g' k :=
  Registry.content_enroll fun i hi => (h g' hg' k i hi).1

/-- What a group shows when a listed record is overwritten. -/
theorem Placed.content_write (h : m.Placed) (hg : g < m.groups) (hi : m.member g k = some i)
    (hg' : g' < m.groups) :
    (m.write i r).content g' k' = if g' = g ∧ k' = k then some r else m.content g' k' := by
  refine Registry.content_write hi fun hi' => ?_
  obtain ⟨-, hk, hone⟩ := h g hg k i hi
  exact ⟨hone g' hg' k' hi', (h g' hg' k' i hi').2.1.symm.trans hk⟩

/-! ## Records that can be found -/

/-- The record is listed in a group or indexed by its key. -/
def Known (m : Registry H N K A R) (i : ℕ) : Prop :=
  (∃ g k, m.Listed g k i) ∨ ∃ k, m.byKey k = some i

theorem Known.lt (v : m.Valid hash) (h : m.Known i) : i < m.records := by
  rcases h with ⟨g, k, hl⟩ | ⟨k, hk⟩
  · exact v.listed_lt hl
  · exact v.byKey_lt hk

theorem known_create (v : m.Valid hash) {h : H} (hfree : m.group h = none)
    (hk : (m.create h n).Known i) : m.Known i := by
  rcases hk with ⟨g, k, hl⟩ | ⟨k, hk⟩
  · exact Or.inl ⟨g, k, (listed_create v hfree).mp hl⟩
  · exact Or.inr ⟨k, hk⟩

theorem known_index {j : ℕ} (hk : (m.index j).Known i) : m.Known i ∨ i = j := by
  rcases hk with ⟨g, k, hl⟩ | ⟨k, hk⟩
  · exact Or.inl (Or.inl ⟨g, k, hl⟩)
  · rw [byKey_index] at hk
    split at hk
    · exact Or.inr (Option.some.inj hk).symm
    · exact Or.inl (Or.inr ⟨k, hk⟩)

theorem known_enroll (hk : (m.enroll g r).Known i) : m.Known i ∨ i = m.records := by
  rcases hk with ⟨g', k, hl⟩ | ⟨k, hk⟩
  · rcases listed_enroll.mp hl with ⟨-, -, -, rfl⟩ | ⟨-, hl⟩
    · exact Or.inr rfl
    · exact Or.inl (Or.inl ⟨g', k, hl⟩)
  · exact Or.inl (Or.inr ⟨k, hk⟩)

theorem known_leave (hk : (m.apply (.leave g k)).Known i) : m.Known i := by
  rcases hk with ⟨g', k', hl⟩ | ⟨k', hk⟩
  · exact Or.inl ⟨g', k', (listed_expel.mp (listed_unindex.mp hl)).1⟩
  · have hk' : ((m.expel g k).unindex k).byKey k' = some i := hk
    rw [byKey_unindex] at hk'
    split at hk'
    · cases hk'
    · exact Or.inr ⟨k', hk'⟩

/-- Members that leave make nobody known. -/
theorem known_run_leave (h : Run hash m ops m') (hops : ∀ op ∈ ops, ∃ g k, op = .leave g k)
    (hk : m'.Known i) : m.Known i := by
  induction h with
  | nil => exact hk
  | @cons m m' op ops _ _ ih =>
    obtain ⟨g, k, rfl⟩ := hops op (by simp)
    exact known_leave (ih (fun o ho => hops o (List.mem_cons_of_mem _ ho)) hk)

/-! ## The index by key -/

/-- The index by key holds exactly the listed records. -/
def Agrees (m : Registry H N K A R) : Prop :=
  (∀ g k i, m.Listed g k i → m.byKey k = some i) ∧
    ∀ k i, m.byKey k = some i → ∃ g, m.Listed g k i

/-- The operation is not a first registration under a key that some group lists. -/
def FreshKey (m : Registry H N K A R) : Op H N K R → Prop
  | .join _ r => ∀ g i, ¬ m.Listed g (key r) i
  | _ => True

theorem Agrees.create (v : m.Valid hash) (ha : m.Agrees) {h : H} (hfree : m.group h = none) (n : N) :
    (m.create h n).Agrees := by
  refine ⟨fun g k i hl => ha.1 g k i ((listed_create v hfree).mp hl), fun k i hk => ?_⟩
  obtain ⟨g, hl⟩ := ha.2 k i hk
  exact ⟨g, (listed_create v hfree).mpr hl⟩

theorem Agrees.join (ha : m.Agrees) (hgroup : ∃ h, m.group h = some g)
    (hfresh : ∀ g' i, ¬ m.Listed g' (key r) i) : ((m.enroll g r).index m.records).Agrees := by
  have hkey : ∀ k, ((m.enroll g r).index m.records).byKey k =
      if k = key r then some m.records else m.byKey k := fun k => by
    rw [byKey_index, record_enroll, if_pos rfl]
    rfl
  refine ⟨fun g' k i hl => ?_, fun k i hk => ?_⟩
  · have hl' : (m.enroll g r).Listed g' k i := hl
    rw [hkey]
    rcases listed_enroll.mp hl' with ⟨-, rfl, -, rfl⟩ | ⟨-, hl⟩
    · rw [if_pos rfl]
    · rw [if_neg]
      · exact ha.1 g' k i hl
      · rintro rfl
        exact hfresh g' i hl
  · rw [hkey] at hk
    split at hk
    · next heq =>
      cases hk
      exact ⟨g, listed_enroll.mpr (Or.inl ⟨rfl, heq, hgroup, rfl⟩)⟩
    · next hne =>
      obtain ⟨g', hl⟩ := ha.2 k i hk
      exact ⟨g', listed_enroll.mpr (Or.inr ⟨fun h => hne h.2, hl⟩)⟩

theorem Agrees.rejoin (ha : m.Agrees) (hl : m.Listed g (key r) i) :
    ((m.write i r).index i).Agrees := by
  -- the entry written is the entry that is there
  have hsame : ∀ k, ((m.write i r).index i).byKey k = m.byKey k := fun k => by
    rw [byKey_index, record_write, if_pos rfl]
    split
    · next heq => rw [heq, ha.1 g (key r) i hl]
    · rfl
  refine ⟨fun g' k j hl' => ?_, fun k j hk => ?_⟩
  · rw [hsame]
    exact ha.1 g' k j hl'
  · rw [hsame] at hk
    exact ha.2 k j hk

section

variable (v : m.Valid hash)
include v

/-- Two groups do not list one key, because its entry in the index is one record. -/
theorem Agrees.group_unique (ha : m.Agrees) {j : ℕ} (hl : m.Listed g k i) (hl' : m.Listed g' k j) :
    g' = g := by
  have hj : some j = some i := (ha.1 g' k j hl').symm.trans (ha.1 g k i hl)
  cases hj
  exact (v.listed_inj hl' hl).1

theorem Agrees.leave (ha : m.Agrees) (hl : m.Listed g k i) : ((m.expel g k).unindex k).Agrees := by
  refine ⟨fun g' k' j hl' => ?_, fun k' j hk => ?_⟩
  · obtain ⟨hold, hne⟩ := listed_expel.mp (listed_unindex.mp hl')
    rw [byKey_unindex, if_neg]
    · exact ha.1 g' k' j hold
    · rintro rfl
      exact hne ⟨ha.group_unique v hl hold, rfl⟩
  · rw [byKey_unindex] at hk
    split at hk
    · cases hk
    · next hne =>
      obtain ⟨g', hl'⟩ := ha.2 k' j hk
      exact ⟨g', listed_unindex.mpr (listed_expel.mpr ⟨hl', fun h => hne h.2⟩)⟩

/-- **The index by key keeps agreeing with the groups**, as long as no key joins a second
group. -/
theorem Agrees.apply (ha : m.Agrees) (he : m.Enabled hash op) (hfresh : m.FreshKey op) :
    (m.apply op).Agrees := by
  cases op with
  | create h n => exact ha.create v he.1 n
  | join g r => exact ha.join he.1 hfresh
  | rejoin i r =>
    obtain ⟨g, hl, -⟩ := he
    exact ha.rejoin hl
  | refresh i r => exact ha
  | leave g k =>
    obtain ⟨⟨i, hl⟩, -⟩ := he
    exact ha.leave v hl

/-- A key that is fresh stays fresh while groups are created and members leave. -/
theorem FreshKey.apply {op' : Op H N K R} (h : m.FreshKey op') (he : m.Enabled hash op)
    (hq : op.Quiet) : (m.apply op).FreshKey op' := by
  cases op' with
  | join g' r =>
    intro g i hl
    cases op with
    | create hh n => exact h g i ((listed_create v he.1).mp hl)
    | leave g k => exact h _ i (listed_expel.mp (listed_unindex.mp hl)).1
    | join g r => exact hq
    | rejoin j r => exact hq
    | refresh j r => exact hq
  | create h n => trivial
  | rejoin j r => trivial
  | refresh j r => trivial
  | leave g k => trivial

/-- The rule for the operations of one request. -/
theorem Agrees.run (ha : m.Agrees) (h : Run hash m ops m') (hmild : Mild ops)
    (hfresh : ∀ op ∈ ops, m.FreshKey op) : m'.Agrees := by
  induction h with
  | nil => exact ha
  | @cons m m' op ops he hrun ih =>
    have hop := ha.apply v he (hfresh op (by simp))
    cases ops with
    | nil => cases hrun; exact hop
    | cons op' ops =>
      exact ih (v.apply he) hop hmild.2
        fun o ho => (hfresh o (List.mem_cons_of_mem _ ho)).apply v he hmild.1

end

/-! ## The index by address -/

/-- Every entry of the index by address leads to a listed record that has this address. -/
def Tracks (m : Registry H N K A R) : Prop :=
  ∀ a i, m.byAddr a = some i →
    (∃ g, m.Listed g (key (m.record i)) i) ∧ (a = addr (m.record i) ∨ alt (m.record i) = some a)

/-- The operation leaves no stale entry in the index by address: a record that is
overwritten is entered at addresses of the new record only, and a record that leaves is
entered at most at the address that `unindex` strikes. -/
def Clean (m : Registry H N K A R) : Op H N K R → Prop
  | .rejoin i r | .refresh i r => ∀ a, m.byAddr a = some i → a = addr r ∨ alt r = some a
  | .leave g k =>
    ∀ a i j, m.member g k = some i → m.byKey k = some j → m.byAddr a = some i →
      a = addr (m.record j)
  | _ => True

theorem Tracks.write (ht : m.Tracks) (hkey : key r = key (m.record i))
    (hclean : ∀ a, m.byAddr a = some i → a = addr r ∨ alt r = some a) : (m.write i r).Tracks := by
  intro a j ha
  obtain ⟨⟨g, hl⟩, haddr⟩ := ht a j ha
  rw [record_write]
  split
  · next hj =>
    subst hj
    rw [hkey]
    exact ⟨⟨g, hl⟩, hclean a ha⟩
  · exact ⟨⟨g, hl⟩, haddr⟩

theorem Tracks.index (ht : m.Tracks) (hl : ∃ g, m.Listed g (key (m.record i)) i) :
    (m.index i).Tracks := by
  intro a j ha
  simp only [Registry.index] at ha
  split at ha
  · next haddr =>
    cases ha
    exact ⟨hl, haddr⟩
  · exact ht a j ha

theorem Tracks.enroll (v : m.Valid hash) (ht : m.Tracks) (hfree : m.member g (key r) = none) :
    (m.enroll g r).Tracks := by
  intro a i ha
  obtain ⟨⟨g', hl⟩, haddr⟩ := ht a i ha
  rw [record_enroll, if_neg (Nat.ne_of_lt (v.byAddr_lt ha))]
  refine ⟨⟨g', listed_enroll.mpr (Or.inr ⟨?_, hl⟩)⟩, haddr⟩
  rintro ⟨rfl, hk⟩
  have hmem := hl.2
  rw [hk, hfree] at hmem
  cases hmem

theorem Tracks.leave (ht : m.Tracks) {j : ℕ} (hj : m.byKey k = some j)
    (hclean : m.Clean (.leave g k)) : ((m.expel g k).unindex k).Tracks := by
  intro a i ha
  rw [byAddr_unindex (show (m.expel g k).byKey k = some j from hj)] at ha
  split at ha
  · cases ha
  · next hne =>
    obtain ⟨⟨g', hl⟩, haddr⟩ := ht a i ha
    have hrec : ((m.expel g k).unindex k).record = m.record := record_unindex
    rw [hrec]
    refine ⟨⟨g', listed_unindex.mpr (listed_expel.mpr ⟨hl, ?_⟩)⟩, haddr⟩
    rintro ⟨rfl, hk⟩
    exact hne (hclean a i j (hk ▸ hl.2) hj ha)

/-- **The index by address stays on track** under clean operations. -/
theorem Tracks.apply (v : m.Valid hash) (ht : m.Tracks) (he : m.Enabled hash op)
    (hclean : m.Clean op) : (m.apply op).Tracks := by
  cases op with
  | create h n =>
    intro a i ha
    obtain ⟨⟨g, hl⟩, haddr⟩ := ht a i ha
    exact ⟨⟨g, (listed_create v he.1).mpr hl⟩, haddr⟩
  | join g r =>
    obtain ⟨hg, hfree, -⟩ := he
    have hrec : (m.enroll g r).record m.records = r := Function.update_self ..
    exact (ht.enroll v hfree).index ⟨g, listed_enroll.mpr (Or.inl ⟨rfl, by rw [hrec], hg, rfl⟩)⟩
  | rejoin i r =>
    obtain ⟨g, hl, hkey, -⟩ := he
    have hrec : (m.write i r).record i = r := Function.update_self ..
    exact (ht.write hkey hclean).index ⟨g, by rw [hrec]; exact hl⟩
  | refresh i r =>
    obtain ⟨g, -, hkey, -⟩ := he
    exact ht.write hkey hclean
  | leave g k =>
    obtain ⟨-, j, hj⟩ := he
    exact ht.leave hj hclean

theorem byKey_of_unindex (hkey : (m.unindex k).byKey k' = some i) : m.byKey k' = some i := by
  rw [byKey_unindex] at hkey
  split at hkey
  · cases hkey
  · exact hkey

/-- A clean operation stays clean while groups are created and members leave. -/
theorem Clean.apply {op' : Op H N K R} (h : m.Clean op') (hq : op.Quiet) :
    (m.apply op).Clean op' := by
  cases op with
  | create hh n =>
    cases op' with
    | leave g k =>
      intro a i j hmem hkey haddr
      refine h a i j ?_ hkey haddr
      simp only [Registry.apply, member_create] at hmem
      split at hmem
      · cases hmem
      · exact hmem
    | create h' n' => trivial
    | join g r => trivial
    | rejoin j r => exact h
    | refresh j r => exact h
  | leave g k =>
    have haddr : ∀ {a i}, (m.apply (.leave g k)).byAddr a = some i → m.byAddr a = some i :=
      fun ha => show (m.expel g k).byAddr _ = _ from byAddr_of_unindex ha
    cases op' with
    | leave g' k' =>
      intro a i j hmem hkey ha
      have hrec : (m.apply (.leave g k)).record = m.record := record_unindex
      rw [hrec]
      have hmem' : ((m.expel g k).unindex k).member g' k' = some i := hmem
      rw [member_unindex] at hmem'
      have hkey' : ((m.expel g k).unindex k).byKey k' = some j := hkey
      have hkey : (m.expel g k).byKey k' = some j := byKey_of_unindex hkey'
      exact h a i j (member_of_expel hmem') hkey (haddr ha)
    | create h' n' => trivial
    | join g' r => trivial
    | rejoin j r => exact fun a ha => h a (haddr ha)
    | refresh j r => exact fun a ha => h a (haddr ha)
  | join g r => exact hq.elim
  | rejoin j r => exact hq.elim
  | refresh j r => exact hq.elim

/-- The rule for the operations of one request. -/
theorem Tracks.run (v : m.Valid hash) (ht : m.Tracks) (h : Run hash m ops m') (hmild : Mild ops)
    (hclean : ∀ op ∈ ops, m.Clean op) : m'.Tracks := by
  induction h with
  | nil => exact ht
  | @cons m m' op ops he hrun ih =>
    have hop := ht.apply v he (hclean op (by simp))
    cases ops with
    | nil => cases hrun; exact hop
    | cons op' ops =>
      exact ih (v.apply he) hop hmild.2
        fun o ho => (hclean o (List.mem_cons_of_mem _ ho)).apply hmild.1

/-! ## What the groups hold -/

/-- The group is allocated and lists a record under the key. -/
def Held (m : Registry H N K A R) (g : ℕ) (k : K) : Prop := g < m.groups ∧ ∃ i, m.member g k = some i

/-- Only a leave takes a key from a group. -/
theorem Held.apply (h : m.Held g k) (hop : ∀ g' k', op ≠ .leave g' k') : (m.apply op).Held g k := by
  obtain ⟨hlt, i, hi⟩ := h
  cases op with
  | create h' n =>
    refine ⟨Nat.lt_succ_of_lt hlt, i, member_create.trans ?_⟩
    rw [if_neg (Nat.ne_of_lt hlt), hi]
  | join g' r =>
    refine ⟨hlt, ?_⟩
    show ∃ i, (m.enroll g' r).member g k = some i
    rw [member_enroll]
    split
    · exact ⟨_, rfl⟩
    · exact ⟨i, hi⟩
  | rejoin j r => exact ⟨hlt, i, hi⟩
  | refresh j r => exact ⟨hlt, i, hi⟩
  | leave g' k' => exact absurd rfl (hop g' k')

theorem groups_leave : (m.apply (.leave g k)).groups = m.groups :=
  groups_unindex (m := m.expel g k)

theorem held_leave : (m.apply (.leave g k)).Held g' k' ↔ m.Held g' k' ∧ ¬ (g' = g ∧ k' = k) := by
  have hmember : (m.apply (.leave g k)).member g' k' =
      if g' = g ∧ k' = k then none else m.member g' k' := by
    show ((m.expel g k).unindex k).member g' k' = _
    rw [member_unindex, member_expel]
  unfold Held
  rw [groups_leave, hmember]
  by_cases hgk : g' = g ∧ k' = k
  · simp [hgk]
  · simp [hgk]

theorem Held.run (h : m.Held g k) (hrun : Run hash m ops m')
    (hops : ∀ op ∈ ops, ∀ g' k', op ≠ .leave g' k') : m'.Held g k := by
  induction hrun with
  | nil => exact h
  | cons _ _ ih =>
    exact ih (h.apply (hops _ List.mem_cons_self)) fun op hop =>
      hops op (List.mem_cons_of_mem _ hop)

end Invariants

end Registry

end N2nGo.Lib
