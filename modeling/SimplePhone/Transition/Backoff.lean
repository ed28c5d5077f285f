import Mathlib.Tactic.Common

/-! Attempts that wait longer each time: how long the waits are, and when the attempts
fall due. Nothing here refers to a particular program. -/
namespace SimplePhone.Transition

/-- Doubled with each attempt up to a cap. -/
def backoff (base cap k : Nat) : Nat := min (base <<< k) cap

theorem shiftLeft_mono (base : Nat) {j k : Nat} (h : j ≤ k) : base <<< j ≤ base <<< k := by
  rw [Nat.shiftLeft_eq, Nat.shiftLeft_eq]
  exact Nat.mul_le_mul_left base (Nat.pow_le_pow_right (by decide) h)

theorem backoff_mono (base cap : Nat) {j k : Nat} (h : j ≤ k) :
    backoff base cap j ≤ backoff base cap k := by
  have hshift := shiftLeft_mono base h
  unfold backoff
  omega

theorem backoff_le (base cap k : Nat) : backoff base cap k ≤ cap := Nat.min_le_right _ _

theorem le_backoff {base cap : Nat} (h : base ≤ cap) (k : Nat) : base ≤ backoff base cap k := by
  have hshift := shiftLeft_mono base (Nat.zero_le k)
  rw [Nat.shiftLeft_zero] at hshift
  exact Nat.le_min.mpr ⟨hshift, h⟩

/-- When attempt `k` falls due, if each waits for its delay from the one before. -/
def due (delay : Nat → Nat) : Nat → Nat
  | 0 => delay 0
  | k + 1 => due delay k + delay (k + 1)

theorem due_mono (delay : Nat → Nat) {j k : Nat} (h : j ≤ k) : due delay j ≤ due delay k := by
  induction h with
  | refl => exact Nat.le_refl _
  | step _ ih => exact Nat.le_trans ih (Nat.le_add_right _ _)

/-- Attempts that fall due before a limit are fewer than those the limit leaves no room for. -/
theorem lt_of_due_le {delay : Nat → Nat} {limit k n : Nat} (h : due delay k ≤ limit)
    (hlimit : limit < due delay n) : k < n := by
  apply Nat.lt_of_not_le
  intro hle
  have hmono := due_mono delay hle
  omega

end SimplePhone.Transition
