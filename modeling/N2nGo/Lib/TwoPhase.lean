import Mathlib.Data.Set.Insert
import N2nGo.Lib.Interleave

/-!
# Two tables written one after the other

Threads add keys to two tables and remove keys from them. Each operation writes the
first table in one atomic step and the second table in a later one, and a removal goes
on to the second table only if it found the key in the first. Between its two steps the
operation is *half done*.

If no second step overtakes an opposite operation on the same key whose first step came
earlier, a removal always finds its key in the second table, and whenever nothing is
half done the first table is contained in the second. The argument is made for one key
at a time: an `Entry` is all that matters of a key, and `Entry.Orderly` is the invariant.
`Ordered` is the same for a pool of threads.
-/

set_option autoImplicit false

namespace N2nGo.Lib.TwoPhase

inductive Kind where
  | add
  | remove
  deriving DecidableEq

/-! ## One key -/

/-- Whether the key is in either table, and when its half-done operations took their first
steps. -/
structure Entry where
  first : Prop
  second : Prop
  begun : Kind → Set ℕ

/-- What holds of a key between the steps:
* with nothing half done, a key of the first table is in the second;
* a half-done removal of a key that is back in the first table is followed by a half-done
  addition;
* a half-done removal that no half-done addition precedes finds the key;
* two half-done removals have a half-done addition between them. -/
structure Entry.Orderly (e : Entry) : Prop where
  settled : (∀ kind, e.begun kind = ∅) → e.first → e.second
  followed : ∀ {t}, e.first → t ∈ e.begun .remove → ∃ u ∈ e.begun .add, t < u
  found : ∀ {t}, t ∈ e.begun .remove → (∀ u ∈ e.begun .add, t < u) → e.second
  between : ∀ {t u}, t ∈ e.begun .remove → u ∈ e.begun .remove → t < u →
    ∃ w ∈ e.begun .add, t < w ∧ w < u

section Entry

variable {e e' : Entry} {t : ℕ}

/-- The first step of an addition, at a time later than all others. -/
theorem Entry.Orderly.beginAdd (o : e.Orderly) (hlate : ∀ u ∈ e.begun .remove, u < t)
    (hsecond : e'.second ↔ e.second) (hadd : e'.begun .add = insert t (e.begun .add))
    (hrem : e'.begun .remove = e.begun .remove) : e'.Orderly := by
  refine ⟨fun hnone _ => ?_, ?_, ?_, ?_⟩
  · have := hnone .add
    rw [hadd] at this
    exact absurd this (Set.insert_nonempty _ _).ne_empty
  · intro u _ hu
    rw [hrem] at hu
    exact ⟨t, by rw [hadd]; exact Set.mem_insert _ _, hlate u hu⟩
  · intro u hu hall
    rw [hrem] at hu
    rw [hadd] at hall
    exact hsecond.mpr (o.found hu fun w hw => hall w (Set.mem_insert_of_mem _ hw))
  · intro u w hu hw huw
    rw [hrem] at hu hw
    obtain ⟨x, hx, h1, h2⟩ := o.between hu hw huw
    exact ⟨x, by rw [hadd]; exact Set.mem_insert_of_mem _ hx, h1, h2⟩

/-- The first step of a removal, at a time later than all others. -/
theorem Entry.Orderly.beginRemove (o : e.Orderly) (hfirst : e.first)
    (hlate : ∀ kind, ∀ u ∈ e.begun kind, u < t) (hgone : ¬ e'.first)
    (hsecond : e'.second ↔ e.second) (hadd : e'.begun .add = e.begun .add)
    (hrem : e'.begun .remove = insert t (e.begun .remove)) : e'.Orderly := by
  refine ⟨fun _ hf => absurd hf hgone, fun hf => absurd hf hgone, ?_, ?_⟩
  · intro u hu hall
    rw [hrem] at hu
    rw [hadd] at hall
    refine hsecond.mpr ?_
    rcases hu with rfl | hu
    · -- nothing at all is half done, since the key was in the first table
      have hnoadd : e.begun .add = ∅ := Set.eq_empty_of_forall_notMem fun w hw => by
        have h1 := hall w hw
        have h2 := hlate .add w hw
        omega
      have hnorem : e.begun .remove = ∅ := Set.eq_empty_of_forall_notMem fun w hw => by
        obtain ⟨x, hx, -⟩ := o.followed hfirst hw
        rw [hnoadd] at hx
        exact hx
      exact o.settled (fun kind => by cases kind <;> assumption) hfirst
    · exact o.found hu hall
  · intro u w hu hw huw
    rw [hrem] at hu hw
    rw [hadd]
    rcases hw with rfl | hw
    · rcases hu with rfl | hu
      · exact absurd huw (Nat.lt_irrefl _)
      · obtain ⟨x, hx, hux⟩ := o.followed hfirst hu
        exact ⟨x, hx, hux, hlate .add x hx⟩
    · rcases hu with rfl | hu
      · have := hlate .remove w hw
        omega
      · exact o.between hu hw huw

/-- The second step of an addition that no half-done removal precedes. -/
theorem Entry.Orderly.finishAdd (o : e.Orderly) (hlate : ∀ u ∈ e.begun .remove, t < u)
    (hfirst : e'.first ↔ e.first) (hsecond : e'.second)
    (hadd : e'.begun .add = e.begun .add \ {t}) (hrem : e'.begun .remove = e.begun .remove) :
    e'.Orderly := by
  refine ⟨fun _ _ => hsecond, ?_, fun _ _ => hsecond, ?_⟩
  · intro u hf hu
    rw [hrem] at hu
    obtain ⟨w, hw, huw⟩ := o.followed (hfirst.mp hf) hu
    have := hlate u hu
    exact ⟨w, by rw [hadd]; exact ⟨hw, fun h => by simp only [Set.mem_singleton_iff] at h; omega⟩, huw⟩
  · intro u w hu hw huw
    rw [hrem] at hu hw
    obtain ⟨x, hx, h1, h2⟩ := o.between hu hw huw
    have := hlate u hu
    exact ⟨x, by rw [hadd]; exact ⟨hx, fun h => by simp only [Set.mem_singleton_iff] at h; omega⟩, h1, h2⟩

/-- The second step of a removal that no half-done addition precedes. -/
theorem Entry.Orderly.finishRemove (o : e.Orderly) (ht : t ∈ e.begun .remove)
    (hlate : ∀ u ∈ e.begun .add, t < u) (hfirst : e'.first ↔ e.first)
    (hadd : e'.begun .add = e.begun .add) (hrem : e'.begun .remove = e.begun .remove \ {t}) :
    e'.Orderly := by
  refine ⟨?_, ?_, ?_, ?_⟩
  · intro hnone hf
    obtain ⟨u, hu, -⟩ := o.followed (hfirst.mp hf) ht
    have := hnone .add
    rw [hadd] at this
    rw [this] at hu
    exact absurd hu (Set.notMem_empty _)
  · intro u hf hu
    rw [hrem] at hu
    rw [hadd]
    exact o.followed (hfirst.mp hf) hu.1
  · -- another half-done removal has an addition between it and this one
    intro u hu hall
    rw [hrem] at hu
    rw [hadd] at hall
    have hne : u ≠ t := hu.2
    rcases Nat.lt_or_gt_of_ne hne with hlt | hgt
    · obtain ⟨w, hw, -, h2⟩ := o.between hu.1 ht hlt
      have := hlate w hw
      omega
    · obtain ⟨w, hw, -, h2⟩ := o.between ht hu.1 hgt
      have := hall w hw
      omega
  · intro u w hu hw huw
    rw [hrem] at hu hw
    rw [hadd]
    exact o.between hu.1 hw.1 huw

end Entry

/-! ## A pool of threads -/

section Pool

variable {S T K : Type} (half : T → Option (Kind × K)) (first second : S → K → Prop)

/-- What matters of key `k`. -/
def entry (c : Pool S T) (k : K) : Entry where
  first := first c.shared k
  second := second c.shared k
  begun kind := {t | ∃ i, half (c.task i) = some (kind, k) ∧ c.moved i = t}

/-- The half-done operations have distinct times in the past, and every key is orderly. -/
structure Ordered (c : Pool S T) : Prop where
  moved_le : ∀ i, c.moved i ≤ c.clock
  moved_inj : ∀ {i j}, half (c.task i) ≠ none → half (c.task j) ≠ none →
    c.moved i = c.moved j → i = j
  orderly : ∀ k, (entry half first second c k).Orderly

/-- Every half-done operation of the opposite kind on the same key began later than the one
thread `i` is about to finish. -/
def InOrder (c : Pool S T) (i : ℕ) : Prop :=
  ∀ kind k, half (c.task i) = some (kind, k) →
    ∀ j kind', kind' ≠ kind → half (c.task j) = some (kind', k) → c.moved i < c.moved j

variable {half first second} {c : Pool S T} {i : ℕ} {s : S} {t : T} {k : K}

/-- With nothing begun, the pool is in order if the second table covers the first. -/
theorem ordered_start {task : ℕ → T} (hnone : ∀ i, half (task i) = none)
    (hcover : ∀ k, first s k → second s k) : Ordered half first second (Pool.start s task) := by
  have hempty : ∀ k kind t, t ∉ (entry half first second (Pool.start s task) k).begun kind := by
    rintro k kind t ⟨i, hi, -⟩
    rw [show (Pool.start s task).task i = task i from rfl, hnone] at hi
    cases hi
  exact ⟨fun _ => Nat.le_refl _, fun hi => absurd (hnone _) hi, fun k =>
    ⟨fun _ hf => hcover k hf, fun _ ht => absurd ht (hempty k _ _),
      fun ht => absurd ht (hempty k _ _), fun ht => absurd ht (hempty k _ _)⟩⟩

theorem Ordered.moved_le_advance (o : Ordered half first second c) (j : ℕ) :
    (c.advance i s t).moved j ≤ (c.advance i s t).clock := by
  have := o.moved_le j
  simp only [Pool.advance, Function.update_apply]
  split <;> omega

theorem Ordered.moved_inj_advance (o : Ordered half first second c) {j l : ℕ}
    (hj : half ((c.advance i s t).task j) ≠ none) (hl : half ((c.advance i s t).task l) ≠ none)
    (heq : (c.advance i s t).moved j = (c.advance i s t).moved l) : j = l := by
  have hjle := o.moved_le j
  have hlle := o.moved_le l
  rw [Pool.task_advance] at hj hl
  simp only [Pool.advance, Function.update_apply] at heq
  by_cases h1 : j = i
  · by_cases h2 : l = i
    · rw [h1, h2]
    · rw [if_pos h1, if_neg h2] at heq
      omega
  · by_cases h2 : l = i
    · rw [if_neg h1, if_pos h2] at heq
      omega
    · rw [if_neg h1, if_neg h2] at heq
      rw [if_neg h1] at hj
      rw [if_neg h2] at hl
      exact o.moved_inj hj hl heq

variable {kind : Kind}

/-- Operations that thread `i` neither leaves nor enters are begun as before. -/
theorem begun_advance_of_ne (hi : half (c.task i) ≠ some (kind, k)) (ht : half t ≠ some (kind, k)) :
    (entry half first second (c.advance i s t) k).begun kind =
      (entry half first second c k).begun kind := by
  ext u
  constructor
  · rintro ⟨j, hj, rfl⟩
    rw [Pool.task_advance] at hj
    split at hj
    · exact absurd hj ht
    · next hji => exact ⟨j, hj, by simp [Pool.advance, hji]⟩
  · rintro ⟨j, hj, rfl⟩
    have hji : j ≠ i := by
      rintro rfl
      exact hi hj
    exact ⟨j, by rw [Pool.task_advance, if_neg hji]; exact hj, by simp [Pool.advance, hji]⟩

/-- A first step enters its time. -/
theorem begun_advance_begin (hi : half (c.task i) = none) (ht : half t = some (kind, k)) :
    (entry half first second (c.advance i s t) k).begun kind =
      insert (c.clock + 1) ((entry half first second c k).begun kind) := by
  ext u
  constructor
  · rintro ⟨j, hj, rfl⟩
    rw [Pool.task_advance] at hj
    split at hj
    · next hji => exact Or.inl (by simp [Pool.advance, hji])
    · next hji => exact Or.inr ⟨j, hj, by simp [Pool.advance, hji]⟩
  · rintro (rfl | ⟨j, hj, rfl⟩)
    · exact ⟨i, by rw [Pool.task_advance, if_pos rfl]; exact ht, by simp [Pool.advance]⟩
    · have hji : j ≠ i := by
        rintro rfl
        rw [hi] at hj
        cases hj
      exact ⟨j, by rw [Pool.task_advance, if_neg hji]; exact hj, by simp [Pool.advance, hji]⟩

section

variable (o : Ordered half first second c)
include o

/-- A second step takes the time of the first step away. -/
theorem Ordered.begun_advance_finish (hi : half (c.task i) = some (kind, k)) (ht : half t = none) :
    (entry half first second (c.advance i s t) k).begun kind =
      (entry half first second c k).begun kind \ {c.moved i} := by
  ext u
  constructor
  · rintro ⟨j, hj, rfl⟩
    rw [Pool.task_advance] at hj
    split at hj
    · rw [ht] at hj
      cases hj
    · next hji =>
      have hmoved : (c.advance i s t).moved j = c.moved j := by simp [Pool.advance, hji]
      rw [hmoved]
      refine ⟨⟨j, hj, rfl⟩, fun heq => hji (o.moved_inj ?_ ?_ heq)⟩
      · rw [hj]
        exact Option.some_ne_none _
      · rw [hi]
        exact Option.some_ne_none _
  · rintro ⟨⟨j, hj, rfl⟩, hne⟩
    have hji : j ≠ i := by
      rintro rfl
      exact hne rfl
    exact ⟨j, by rw [Pool.task_advance, if_neg hji]; exact hj, by simp [Pool.advance, hji]⟩

theorem Ordered.begun_lt {u : ℕ} (hu : u ∈ (entry half first second c k).begun kind) :
    u < c.clock + 1 := by
  obtain ⟨j, -, rfl⟩ := hu
  have := o.moved_le j
  omega

/-- A key whose tables and operations a step does not touch stays orderly. -/
theorem Ordered.orderly_of_same (hi : ∀ kind, half (c.task i) ≠ some (kind, k))
    (ht : ∀ kind, half t ≠ some (kind, k)) (hf : first s k ↔ first c.shared k)
    (hs : second s k ↔ second c.shared k) :
    (entry half first second (c.advance i s t) k).Orderly := by
  have hsame : entry half first second (c.advance i s t) k = entry half first second c k := by
    have hb : (entry half first second (c.advance i s t) k).begun =
        (entry half first second c k).begun :=
      funext fun kind => begun_advance_of_ne (hi kind) (ht kind)
    unfold entry at hb ⊢
    rw [Entry.mk.injEq]
    exact ⟨propext hf, propext hs, hb⟩
  rw [hsame]
  exact o.orderly k

theorem Ordered.idle (hi : half (c.task i) = none) (ht : half t = none)
    (hf : ∀ k, first s k ↔ first c.shared k) (hs : ∀ k, second s k ↔ second c.shared k) :
    Ordered half first second (c.advance i s t) :=
  ⟨o.moved_le_advance, o.moved_inj_advance, fun k =>
    o.orderly_of_same (by simp [hi]) (by simp [ht]) (hf k) (hs k)⟩

theorem Ordered.beginAdd (hi : half (c.task i) = none) (ht : half t = some (.add, k))
    (hf : ∀ k', k' ≠ k → (first s k' ↔ first c.shared k'))
    (hs : ∀ k', second s k' ↔ second c.shared k') :
    Ordered half first second (c.advance i s t) := by
  refine ⟨o.moved_le_advance, o.moved_inj_advance, fun k' => ?_⟩
  by_cases hk : k' = k
  · subst hk
    exact (o.orderly k').beginAdd (fun u hu => o.begun_lt hu) (hs k')
      (begun_advance_begin hi ht) (begun_advance_of_ne (by simp [hi]) (by simp [ht]))
  · exact o.orderly_of_same (by simp [hi]) (by simp [ht, Ne.symm hk]) (hf k' hk) (hs k')

theorem Ordered.beginRemove (hi : half (c.task i) = none) (ht : half t = some (.remove, k))
    (hk : first c.shared k) (hgone : ¬ first s k)
    (hf : ∀ k', k' ≠ k → (first s k' ↔ first c.shared k'))
    (hs : ∀ k', second s k' ↔ second c.shared k') :
    Ordered half first second (c.advance i s t) := by
  refine ⟨o.moved_le_advance, o.moved_inj_advance, fun k' => ?_⟩
  by_cases heq : k' = k
  · subst heq
    exact (o.orderly k').beginRemove hk (fun kind u hu => o.begun_lt hu) hgone (hs k')
      (begun_advance_of_ne (by simp [hi]) (by simp [ht])) (begun_advance_begin hi ht)
  · exact o.orderly_of_same (by simp [hi]) (by simp [ht, Ne.symm heq]) (hf k' heq) (hs k')

end

/-- What may finish came before the half-done operations of the opposite kind. -/
theorem InOrder.lt_of_begun (hord : InOrder half c i) {kind' : Kind}
    (hi : half (c.task i) = some (kind, k)) (hne : kind' ≠ kind) {u : ℕ}
    (hu : u ∈ (entry half first second c k).begun kind') : c.moved i < u := by
  obtain ⟨j, hj, rfl⟩ := hu
  exact hord kind k hi j kind' hne hj

section

variable (o : Ordered half first second c)
include o

theorem Ordered.finishAdd (hord : InOrder half c i) (hi : half (c.task i) = some (.add, k))
    (ht : half t = none) (hf : ∀ k', first s k' ↔ first c.shared k') (hadded : second s k)
    (hs : ∀ k', k' ≠ k → (second s k' ↔ second c.shared k')) :
    Ordered half first second (c.advance i s t) := by
  refine ⟨o.moved_le_advance, o.moved_inj_advance, fun k' => ?_⟩
  by_cases hk : k' = k
  · subst hk
    exact (o.orderly k').finishAdd (fun u hu => hord.lt_of_begun hi (by simp) hu) (hf k') hadded
      (o.begun_advance_finish hi ht) (begun_advance_of_ne (by simp [hi]) (by simp [ht]))
  · exact o.orderly_of_same (by simp [hi, Ne.symm hk]) (by simp [ht]) (hf k') (hs k' hk)

/-- **A removal that finishes in order finds its key.** -/
theorem Ordered.second_of_finishRemove (hord : InOrder half c i)
    (hi : half (c.task i) = some (.remove, k)) : second c.shared k :=
  (o.orderly k).found (t := c.moved i) ⟨i, hi, rfl⟩
    fun _ hu => hord.lt_of_begun hi (by simp) hu

theorem Ordered.finishRemove (hord : InOrder half c i) (hi : half (c.task i) = some (.remove, k))
    (ht : half t = none) (hf : ∀ k', first s k' ↔ first c.shared k')
    (hs : ∀ k', k' ≠ k → (second s k' ↔ second c.shared k')) :
    Ordered half first second (c.advance i s t) := by
  refine ⟨o.moved_le_advance, o.moved_inj_advance, fun k' => ?_⟩
  by_cases hk : k' = k
  · subst hk
    exact (o.orderly k').finishRemove (t := c.moved i) ⟨i, hi, rfl⟩
      (fun u hu => hord.lt_of_begun hi (by simp) hu) (hf k')
      (begun_advance_of_ne (by simp [hi]) (by simp [ht])) (o.begun_advance_finish hi ht)
  · exact o.orderly_of_same (by simp [hi, Ne.symm hk]) (by simp [ht]) (hf k') (hs k' hk)

/-- **With nothing half done, the second table covers the first.** -/
theorem Ordered.covers (hquiet : ∀ i, half (c.task i) = none) (hk : first c.shared k) :
    second c.shared k := by
  refine (o.orderly k).settled (fun kind => Set.eq_empty_of_forall_notMem ?_) hk
  rintro u ⟨i, hi, -⟩
  rw [hquiet i] at hi
  cases hi

end

end Pool

end N2nGo.Lib.TwoPhase
