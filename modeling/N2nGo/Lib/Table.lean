import Mathlib.Data.List.AList
import Mathlib.Data.List.FinRange
import Mathlib.Logic.Function.Basic

/-!
# Maps and pointers

A Go `map` is a finite table without repeated keys (`AList`, which carries that
fact). Go visits the entries of a map in an order that changes from one `range`
to the next; `MapOrder` is one such choice, and every function that ranges over a
map takes one as an argument.

Records that the code shares through pointers live in a `Heap`: a table then
holds addresses, and an update through one table is seen through the others.
-/

set_option autoImplicit false

namespace N2nGo.Lib

/-- A Go `map[K]V`. -/
abbrev Table (K V : Type) := AList (fun _ : K => V)

namespace Table

variable {K V : Type}

def values (t : Table K V) : List V := t.entries.map fun e => e.2

theorem eq_empty_iff {t : Table K V} : t = ∅ ↔ t.entries.isEmpty = true := by
  rw [List.isEmpty_iff, AList.ext_iff]
  rfl

variable [DecidableEq K]

theorem lookup_insert_if (t : Table K V) (k k' : K) (v : V) :
    (t.insert k v).lookup k' = if k' = k then some v else t.lookup k' := by
  split
  · next h => subst h; exact AList.lookup_insert t
  · next h => exact AList.lookup_insert_ne h

theorem lookup_erase_if (t : Table K V) (k k' : K) :
    (t.erase k).lookup k' = if k' = k then none else t.lookup k' := by
  split
  · next h => subst h; exact AList.lookup_erase _ t
  · next h => exact AList.lookup_erase_ne h

theorem mem_of_lookup {t : Table K V} {k : K} {v : V} (h : t.lookup k = some v) : k ∈ t :=
  AList.lookup_isSome.mp (by rw [h]; rfl)

theorem exists_lookup_of_mem {t : Table K V} {k : K} (h : k ∈ t) : ∃ v, t.lookup k = some v :=
  Option.isSome_iff_exists.mp (AList.lookup_isSome.mpr h)

theorem lookup_eq_some_iff {t : Table K V} {k : K} {v : V} :
    t.lookup k = some v ↔ (⟨k, v⟩ : Sigma fun _ : K => V) ∈ t.entries :=
  AList.mem_lookup_iff

theorem mem_values_iff {t : Table K V} {v : V} : v ∈ t.values ↔ ∃ k, t.lookup k = some v := by
  unfold values
  rw [List.mem_map]
  constructor
  · rintro ⟨⟨k, w⟩, hmem, rfl⟩
    exact ⟨k, lookup_eq_some_iff.mpr hmem⟩
  · rintro ⟨k, hk⟩
    exact ⟨⟨k, v⟩, lookup_eq_some_iff.mp hk, rfl⟩

/-- Looked for by its key, an entry is found once. -/
theorem filter_values {t : Table K V} {f : V → K} (h : ∀ k v, t.lookup k = some v → f v = k) (k : K) :
    t.values.filter (fun v => f v = k) = (t.lookup k).toList := by
  have hentries : ∀ l : List (Sigma fun _ : K => V), l.NodupKeys →
      (l.filter fun e => e.1 = k).map (fun e => e.2) = (l.dlookup k).toList := by
    intro l hl
    induction l with
    | nil => rfl
    | cons e l ih =>
      obtain ⟨hnot, hl'⟩ := List.nodupKeys_cons.mp hl
      by_cases hk : e.1 = k
      · subst hk
        have hnone : l.dlookup e.1 = none := List.dlookup_eq_none.mpr hnot
        rw [List.filter_cons_of_pos (by simp), List.map_cons, ih hl', hnone, List.dlookup_cons_eq]
        rfl
      · rw [List.filter_cons_of_neg (by simp [hk]), List.dlookup_cons_ne _ _ (Ne.symm hk)]
        exact ih hl'
  rw [AList.lookup, ← hentries t.entries t.nodupKeys, values, List.filter_map]
  congr 1
  refine List.filter_congr fun e he => ?_
  simp only [Function.comp, h e.1 e.2 (lookup_eq_some_iff.mpr he)]

/-- A loop that enters a value related by `R` for every entry it visits. -/
theorem lookup_foldl_insert {W : Type} {R : (Sigma fun _ : K => V) → W → Prop}
    {f : Table K W → (Sigma fun _ : K => V) → Table K W}
    (hf : ∀ t e, ∃ w, f t e = t.insert e.1 w ∧ R e w) {l : List (Sigma fun _ : K => V)}
    {t : Table K W} {k : K} {w : W} (h : (l.foldl f t).lookup k = some w) :
    t.lookup k = some w ∨ ∃ v, ⟨k, v⟩ ∈ l ∧ R ⟨k, v⟩ w := by
  induction l generalizing t with
  | nil => exact Or.inl h
  | cons e l ih =>
    rcases ih h with hlook | ⟨v, hv, hw⟩
    · obtain ⟨w', hinsert, hw'⟩ := hf t e
      rw [hinsert, lookup_insert_if] at hlook
      split at hlook
      · next heq =>
        cases hlook
        subst heq
        exact Or.inr ⟨e.2, List.mem_cons_self, hw'⟩
      · exact Or.inl hlook
    · exact Or.inr ⟨v, List.mem_cons_of_mem _ hv, hw⟩

end Table

/-- One order in which `range` statements visit the entries of maps: a permutation for
every number of entries. -/
structure MapOrder where
  perm : (n : ℕ) → Equiv.Perm (Fin n)

namespace MapOrder

/-- The order in which the entries are stored. -/
def stored : MapOrder := ⟨fun _ => Equiv.refl _⟩

variable {α : Type} (o : MapOrder) (l : List α)

/-- The entries in the order they are visited. -/
def visit : List α := List.ofFn fun i => l.get (o.perm l.length i)

theorem visit_perm : (o.visit l).Perm l := by
  have h := (o.perm l.length).ofFn_comp_perm l.get
  rwa [List.ofFn_get] at h

@[simp] theorem mem_visit (a : α) : a ∈ o.visit l ↔ a ∈ l := (o.visit_perm l).mem_iff

end MapOrder

/-- Memory for records of one type: every address below `next` has been allocated. -/
@[ext] structure Heap (α : Type) where
  cell : ℕ → α
  next : ℕ

namespace Heap

variable {α : Type}

/-- Allocate `a`; its address is the old `next`. -/
def alloc (h : Heap α) (a : α) : Heap α :=
  { cell := Function.update h.cell h.next a, next := h.next + 1 }

def store (h : Heap α) (r : ℕ) (a : α) : Heap α :=
  { h with cell := Function.update h.cell r a }

theorem cell_alloc (h : Heap α) (a : α) (r : ℕ) :
    (h.alloc a).cell r = if r = h.next then a else h.cell r := by
  simp [alloc, Function.update_apply]

theorem cell_store (h : Heap α) (r r' : ℕ) (a : α) :
    (h.store r a).cell r' = if r' = r then a else h.cell r' := by
  simp [store, Function.update_apply]

@[simp] theorem cell_store_self (h : Heap α) (r : ℕ) (a : α) : (h.store r a).cell r = a := by
  simp [cell_store]

/-- `h'` is `h` after some writes: an old record is related to what it was by `keep`, and a
record that was not there satisfies `new`. -/
structure Extends (keep : α → α → Prop) (new : α → Prop) (h h' : Heap α) : Prop where
  next_le : h.next ≤ h'.next
  old : ∀ r, r < h.next → keep (h.cell r) (h'.cell r)
  fresh : ∀ r, h.next ≤ r → r < h'.next → new (h'.cell r)

section Extends

variable {keep : α → α → Prop} {new : α → Prop} {h h' h'' : Heap α}

theorem Extends.refl (hkeep : ∀ a, keep a a) (h : Heap α) : Extends keep new h h :=
  ⟨Nat.le_refl _, fun _ _ => hkeep _, fun _ h1 h2 => absurd h2 (Nat.not_lt.mpr h1)⟩

theorem Extends.trans (hkeep : ∀ a b c, keep a b → keep b c → keep a c)
    (hnew : ∀ a b, new a → keep a b → new b) (h1 : Extends keep new h h')
    (h2 : Extends keep new h' h'') : Extends keep new h h'' := by
  refine ⟨Nat.le_trans h1.next_le h2.next_le, fun r hr => ?_, fun r hr hr'' => ?_⟩
  · exact hkeep _ _ _ (h1.old r hr) (h2.old r (Nat.lt_of_lt_of_le hr h1.next_le))
  · by_cases hr' : r < h'.next
    · exact hnew _ _ (h1.fresh r hr hr') (h2.old r hr')
    · exact h2.fresh r (Nat.not_lt.mp hr') hr''

theorem Extends.alloc (hkeep : ∀ a, keep a a) {a : α} (ha : new a) :
    Extends keep new h (h.alloc a) := by
  refine ⟨Nat.le_succ _, fun r hr => ?_, fun r hr hr' => ?_⟩
  · rw [cell_alloc, if_neg (Nat.ne_of_lt hr)]
    exact hkeep _
  · rw [cell_alloc, if_pos (Nat.le_antisymm (Nat.le_of_lt_succ hr') hr)]
    exact ha

theorem Extends.store (hkeep : ∀ a, keep a a) {r : ℕ} {a : α} (ha : keep (h.cell r) a) :
    Extends keep new h (h.store r a) := by
  refine ⟨Nat.le_refl _, fun r' _ => ?_, fun r' h1 h2 => absurd h2 (Nat.not_lt.mpr h1)⟩
  rw [cell_store]
  split
  · next heq => exact heq ▸ ha
  · exact hkeep _

end Extends

end Heap

/-! ## Tables of pointers -/

namespace Table

variable {K R : Type} [DecidableEq K] {t : Table K ℕ} {h : Heap R} {k : K} {r : ℕ}

/-- The record that the pointer under a key leads to. -/
def follow (t : Table K ℕ) (h : Heap R) (k : K) : Option R := (t.lookup k).map h.cell

/-- Pointers lead to allocated records, and those under different keys to different ones. -/
structure Linked (t : Table K ℕ) (h : Heap R) : Prop where
  lt : ∀ k r, t.lookup k = some r → r < h.next
  inj : ∀ k k' r, t.lookup k = some r → t.lookup k' = some r → k = k'

theorem follow_eq_some (hk : t.lookup k = some r) : follow t h k = some (h.cell r) := by
  rw [follow, hk]
  rfl

theorem exists_lookup_of_follow {a : R} (ha : follow t h k = some a) :
    ∃ r, t.lookup k = some r ∧ h.cell r = a := Option.map_eq_some_iff.mp ha

theorem follow_store (l : Linked t h) (hk : t.lookup k = some r) (a : R) :
    follow t (h.store r a) = Function.update (follow t h) k (some a) := by
  funext k'
  unfold follow
  rw [Function.update_apply]
  split
  · next heq =>
    rw [heq, hk]
    exact congrArg some (Heap.cell_store_self ..)
  · next hne =>
    cases hk' : t.lookup k' with
    | none => rfl
    | some r' =>
      have hr : r' ≠ r := by
        rintro rfl
        exact hne (l.inj k' k r' hk' hk)
      rw [Option.map_some, Option.map_some, Heap.cell_store, if_neg hr]

theorem Linked.store (l : Linked t h) (r : ℕ) (a : R) : Linked t (h.store r a) := ⟨l.lt, l.inj⟩

theorem follow_alloc (l : Linked t h) (k : K) (a : R) :
    follow (t.insert k h.next) (h.alloc a) = Function.update (follow t h) k (some a) := by
  funext k'
  unfold follow
  rw [Function.update_apply, lookup_insert_if]
  split
  · rw [Option.map_some, Heap.cell_alloc, if_pos rfl]
  · cases hk' : t.lookup k' with
    | none => rfl
    | some r' =>
      rw [Option.map_some, Option.map_some, Heap.cell_alloc, if_neg (Nat.ne_of_lt (l.lt k' r' hk'))]

theorem Linked.alloc (l : Linked t h) (k : K) (a : R) : Linked (t.insert k h.next) (h.alloc a) := by
  refine ⟨fun k' r' hk' => ?_, fun k1 k2 r' h1 h2 => ?_⟩
  · rw [lookup_insert_if] at hk'
    split at hk'
    · cases hk'
      exact Nat.lt_succ_self _
    · exact Nat.lt_succ_of_lt (l.lt k' r' hk')
  · rw [lookup_insert_if] at h1 h2
    split at h1
    · next heq1 =>
      split at h2
      · next heq2 => exact heq1.trans heq2.symm
      · cases h1
        exact absurd (l.lt k2 _ h2) (Nat.lt_irrefl _)
    · split at h2
      · cases h2
        exact absurd (l.lt k1 _ h1) (Nat.lt_irrefl _)
      · exact l.inj k1 k2 r' h1 h2

theorem Linked.nodup_values (l : Linked t h) : t.values.Nodup := by
  unfold values
  refine List.Nodup.map_on (fun e he e' he' heq => ?_) (List.NodupKeys.nodup t.nodupKeys)
  have hkey : e.1 = e'.1 := l.inj e.1 e'.1 e.2 (lookup_eq_some_iff.mpr he)
    (lookup_eq_some_iff.mpr (heq ▸ he'))
  exact Sigma.ext hkey (heq_of_eq heq)

theorem follow_erase (t : Table K ℕ) (h : Heap R) (k : K) :
    follow (t.erase k) h = Function.update (follow t h) k none := by
  funext k'
  unfold follow
  rw [Function.update_apply, lookup_erase_if]
  split
  · rfl
  · rfl

theorem Linked.erase (l : Linked t h) (k : K) : Linked (t.erase k) h := by
  have hlook : ∀ k' r', (t.erase k).lookup k' = some r' → t.lookup k' = some r' := by
    intro k' r' hk'
    rw [lookup_erase_if] at hk'
    split at hk'
    · cases hk'
    · exact hk'
  exact ⟨fun k' r' hk' => l.lt k' r' (hlook k' r' hk'),
    fun k1 k2 r' h1 h2 => l.inj k1 k2 r' (hlook k1 r' h1) (hlook k2 r' h2)⟩

end Table

end N2nGo.Lib
