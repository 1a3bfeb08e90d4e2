import Mathlib.Logic.Function.Basic
import N2nGo.Lib.Run

/-!
# Interleavings of goroutines

A `Pool` is a shared state and any number of threads. A schedule names the thread that
takes the next atomic step; `Pool.step` runs it. The pool remembers when each thread
moved last, so that a side condition can speak about the order in which threads reached
the points they are at.
-/

set_option autoImplicit false

namespace N2nGo.Lib

/-- A shared state and threads, with the time and the time of each thread's last step. -/
structure Pool (S T : Type) where
  shared : S
  task : ℕ → T
  clock : ℕ
  moved : ℕ → ℕ

namespace Pool

variable {S T : Type}

def start (s : S) (task : ℕ → T) : Pool S T := ⟨s, task, 0, fun _ => 0⟩

/-- The pool after thread `i` has taken a step to `t` that leaves `s`. -/
def advance (c : Pool S T) (i : ℕ) (s : S) (t : T) : Pool S T :=
  { shared := s
    task := Function.update c.task i t
    clock := c.clock + 1
    moved := Function.update c.moved i (c.clock + 1) }

/-- Run the next atomic step of thread `i`. -/
def step (next : S → T → Go (S × T)) (c : Pool S T) (i : ℕ) : Go (Pool S T × Unit) := do
  let (s, t) ← next c.shared (c.task i)
  .ok (c.advance i s t, ())

variable {next : S → T → Go (S × T)} {c c' : Pool S T} {i : ℕ}

theorem step_eq_ok_iff :
    step next c i = .ok (c', ()) ↔
      ∃ s t, next c.shared (c.task i) = .ok (s, t) ∧ c' = c.advance i s t := by
  unfold step
  rw [bind_eq_ok]
  constructor
  · rintro ⟨⟨s, t⟩, hnext, h⟩
    cases h
    exact ⟨s, t, hnext, rfl⟩
  · rintro ⟨s, t, hnext, rfl⟩
    exact ⟨(s, t), hnext, rfl⟩

theorem completes_step_iff :
    Completes (step next c i) ↔ Completes (next c.shared (c.task i)) :=
  completes_bind_of_total fun _ => completes_ok _

theorem task_advance (c : Pool S T) (i j : ℕ) (s : S) (t : T) :
    (c.advance i s t).task j = if j = i then t else c.task j := by
  simp [advance, Function.update_apply]

/-- A thread that is not scheduled stays where it is. -/
theorem task_runEvents {is : List ℕ} (h : runEvents (step next) c is = .ok c') (hi : i ∉ is) :
    c'.task i = c.task i := by
  induction is generalizing c with
  | nil =>
    cases h
    rfl
  | cons j is ih =>
    obtain ⟨⟨c1, u⟩, hstep, hrest⟩ := bind_eq_ok.mp h
    obtain ⟨s, t, -, rfl⟩ := step_eq_ok_iff.mp hstep
    have hne : i ≠ j := fun heq => hi (by simp [heq])
    rw [ih hrest fun hmem => hi (List.mem_cons_of_mem _ hmem), task_advance, if_neg hne]

end Pool

end N2nGo.Lib
