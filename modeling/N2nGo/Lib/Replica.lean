import Mathlib.Logic.Function.Basic

/-!
# Copies of a map that are kept up to date by messages

A map is copied to a reader by one message with all its entries and then a message for
each change. `replay` is what a reader makes of the messages that are under way to it; the
copy is right when replaying them on what the reader has gives the map. Readers do not
store their own entry: `hide` takes it out of the map.
-/

set_option autoImplicit false

namespace N2nGo.Lib

variable {K V : Type} [DecidableEq K]

/-- A message to a reader. -/
inductive Feed (K V : Type) where
  | all (m : K → Option V)
  | change (k : K) (v : Option V)

/-- What the reader has after the message. -/
def Feed.apply : Feed K V → (K → Option V) → K → Option V
  | .all m, _ => m
  | .change k v, m => Function.update m k v

/-- What the reader has after all messages, the oldest first. -/
def replay (feeds : List (Feed K V)) (m : K → Option V) : K → Option V :=
  feeds.foldl (fun m feed => feed.apply m) m

@[simp] theorem replay_nil (m : K → Option V) : replay [] m = m := rfl

@[simp] theorem replay_cons (feed : Feed K V) (feeds : List (Feed K V)) (m : K → Option V) :
    replay (feed :: feeds) m = replay feeds (feed.apply m) := rfl

theorem replay_append (feeds feeds' : List (Feed K V)) (m : K → Option V) :
    replay (feeds ++ feeds') m = replay feeds' (replay feeds m) := List.foldl_append

/-- The last complete copy counts. -/
theorem replay_all {feeds : List (Feed K V)} {m : K → Option V} (hne : feeds ≠ [])
    (h : ∀ feed ∈ feeds, feed = .all m) (m' : K → Option V) : replay feeds m' = m := by
  induction feeds generalizing m' with
  | nil => exact absurd rfl hne
  | cons feed feeds ih =>
    rw [replay_cons, h feed List.mem_cons_self]
    cases feeds with
    | nil => rfl
    | cons feed' feeds =>
      exact ih (List.cons_ne_nil _ _) (fun f hf => h f (List.mem_cons_of_mem _ hf)) _

/-- The map without the entry of the reader. -/
def hide (k : K) (m : K → Option V) : K → Option V := Function.update m k none

theorem hide_apply (k k' : K) (m : K → Option V) : hide k m k' = if k' = k then none else m k' :=
  Function.update_apply ..

/-- The reader does not see its own entry change. -/
theorem hide_update_self (k : K) (v : Option V) (m : K → Option V) :
    hide k (Function.update m k v) = hide k m := Function.update_idem ..

/-- It sees every other change. -/
theorem hide_update_of_ne {k k' : K} (hne : k' ≠ k) (v : Option V) (m : K → Option V) :
    hide k' (Function.update m k v) = Function.update (hide k' m) k v :=
  Function.update_comm hne.symm ..

end N2nGo.Lib
