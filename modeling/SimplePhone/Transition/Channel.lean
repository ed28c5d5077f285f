import Mathlib.Data.List.Basic
import Mathlib.Tactic.Common

/-! A channel that loses and repeats what it carries but keeps the order. Nothing here refers
to a particular program. -/
namespace SimplePhone.Transition

universe u

/-- What arrives of a list. -/
inductive Carried {α : Type u} : List α → List α → Prop where
  | nil : Carried [] []
  | lose (a : α) {sent got : List α} (h : Carried sent got) : Carried (a :: sent) got
  | arrive (a : α) {sent got : List α} (h : Carried sent got) : Carried (a :: sent) (a :: got)
  /-- it arrives, and is still to be lost or to arrive once more -/
  | again (a : α) {sent got : List α} (h : Carried (a :: sent) got) :
      Carried (a :: sent) (a :: got)

namespace Carried

variable {α : Type u} {sent got : List α}

theorem mem (h : Carried sent got) {a : α} (ha : a ∈ got) : a ∈ sent := by
  induction h with
  | nil => exact ha
  | lose b h ih => exact List.mem_cons_of_mem b (ih ha)
  | arrive b h ih =>
    rcases List.mem_cons.mp ha with rfl | ha
    · exact List.mem_cons_self
    · exact List.mem_cons_of_mem b (ih ha)
  | again b h ih =>
    rcases List.mem_cons.mp ha with rfl | ha
    · exact List.mem_cons_self
    · exact ih ha

theorem all (sent : List α) : Carried sent sent := by
  induction sent with
  | nil => exact .nil
  | cons a sent ih => exact .arrive a ih

/-- What arrives of two parts arrives part by part. -/
theorem split {first second : List α} (h : Carried (first ++ second) got) :
    ∃ one two, got = one ++ two ∧ Carried first one ∧ Carried second two := by
  generalize hsent : first ++ second = sent at h
  induction h generalizing first with
  | nil =>
    obtain ⟨rfl, rfl⟩ := List.append_eq_nil_iff.mp hsent
    exact ⟨[], [], rfl, .nil, .nil⟩
  | lose a h ih =>
    cases first with
    | nil =>
      subst hsent
      exact ⟨[], _, rfl, .nil, .lose a h⟩
    | cons b first =>
      obtain ⟨rfl, hrest⟩ := List.cons.inj hsent
      obtain ⟨one, two, hgot, hone, htwo⟩ := ih hrest
      exact ⟨one, two, hgot, .lose b hone, htwo⟩
  | arrive a h ih =>
    cases first with
    | nil =>
      subst hsent
      exact ⟨[], _, rfl, .nil, .arrive a h⟩
    | cons b first =>
      obtain ⟨rfl, hrest⟩ := List.cons.inj hsent
      obtain ⟨one, two, hgot, hone, htwo⟩ := ih hrest
      exact ⟨b :: one, two, congrArg (b :: ·) hgot, .arrive b hone, htwo⟩
  | again a h ih =>
    cases first with
    | nil =>
      subst hsent
      exact ⟨[], _, rfl, .nil, .again a h⟩
    | cons b first =>
      obtain ⟨rfl, -⟩ := List.cons.inj hsent
      obtain ⟨one, two, hgot, hone, htwo⟩ := ih hsent
      exact ⟨b :: one, two, congrArg (b :: ·) hgot, .again b hone, htwo⟩

end Carried

end SimplePhone.Transition
