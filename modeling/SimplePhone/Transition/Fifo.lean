import SimplePhone.Transition.Machine

/-! A first-in-first-out queue that may lose elements but never reorders or
repeats them. Nothing here refers to a particular program. -/
namespace SimplePhone.Transition

universe u

/-- `pushed` and `taken` are history, oldest first. -/
structure Fifo (α : Type u) where
  pushed : List α
  waiting : List α
  taken : List α

namespace Fifo

variable {α : Type u}

def empty : Fifo α := ⟨[], [], []⟩

inductive Action (α : Type u) where
  | push (a : α)
  | take
  /-- the element at this position of the queue disappears -/
  | lose (n : Nat)

def step (q : Fifo α) : Action α → Option (Fifo α)
  | .push a => some { q with pushed := q.pushed ++ [a], waiting := q.waiting ++ [a] }
  | .take =>
      match q.waiting with
      | [] => none
      | a :: rest => some { q with waiting := rest, taken := q.taken ++ [a] }
  | .lose n => some { q with waiting := q.waiting.eraseIdx n }

def machine : Machine (Fifo α) (Action α) where
  start q := q = empty
  step := step

theorem run_push (q : Fifo α) (a : α) : machine.run q [.push a] =
    some { q with pushed := q.pushed ++ [a], waiting := q.waiting ++ [a] } := rfl

theorem run_lose (q : Fifo α) (n : Nat) : machine.run q [.lose n] =
    some { q with waiting := q.waiting.eraseIdx n } := rfl

/-- An element that is lost before the next step leaves its trace in the history only. -/
theorem run_push_lose (q : Fifo α) (a : α) : machine.run q [.push a, .lose q.waiting.length] =
    some { q with pushed := q.pushed ++ [a] } := by
  have hlost : (q.waiting ++ [a]).eraseIdx q.waiting.length = q.waiting := by
    rw [List.eraseIdx_append_of_length_le (Nat.le_refl _)]
    simp
  change some { q with
    pushed := q.pushed ++ [a], waiting := (q.waiting ++ [a]).eraseIdx q.waiting.length } = _
  rw [hlost]

/-- What was taken and what waits is, in this order, a part of what was pushed. -/
def Conserved (q : Fifo α) : Prop := (q.taken ++ q.waiting).Sublist q.pushed

theorem Conserved.step {q r : Fifo α} (h : Conserved q) {a : Action α}
    (hstep : q.step a = some r) : Conserved r := by
  unfold Conserved at h ⊢
  cases a with
  | push x =>
    cases hstep
    rw [← List.append_assoc]
    exact h.append (.refl _)
  | take =>
    obtain ⟨pushed, waiting, taken⟩ := q
    cases waiting with
    | nil => cases hstep
    | cons x rest =>
      cases hstep
      simpa using h
  | lose n =>
    cases hstep
    exact ((List.Sublist.refl q.taken).append (List.eraseIdx_sublist q.waiting n)).trans h

theorem conserved_of_reachable {q : Fifo α} (h : machine.Reachable q) : Conserved q := by
  apply h.invariant
  · rintro _ rfl
    exact .slnil
  · intro s a t hs hstep
    exact Conserved.step hs hstep

theorem taken_sublist {q : Fifo α} (h : machine.Reachable q) : q.taken.Sublist q.pushed :=
  (List.sublist_append_left q.taken q.waiting).trans (conserved_of_reachable h)

/-- Whatever relation the pushes respect in their order, the takes respect too. -/
theorem taken_pairwise {R : α → α → Prop} {q : Fifo α} (h : machine.Reachable q)
    (hpushed : q.pushed.Pairwise R) : q.taken.Pairwise R :=
  hpushed.sublist (taken_sublist h)

end Fifo

end SimplePhone.Transition
