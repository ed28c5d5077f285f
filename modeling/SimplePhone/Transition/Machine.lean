import Mathlib.Data.List.Basic
import Mathlib.Tactic.Common

/-! Deterministic machines driven by a schedule. A step that is not enabled has
no result, so a schedule is a run exactly when every action of it is enabled.
Nothing here refers to a particular program. -/
namespace SimplePhone.Transition

universe u v w

structure Machine (σ : Type u) (α : Type v) where
  start : σ → Prop
  step : σ → α → Option σ

namespace Machine

variable {σ : Type u} {α : Type v} (m : Machine σ α)

def run : σ → List α → Option σ
  | s, [] => some s
  | s, a :: as => (m.step s a).bind fun t => run t as

@[simp] theorem run_nil (s : σ) : m.run s [] = some s := rfl

theorem run_cons (s : σ) (a : α) (as : List α) :
    m.run s (a :: as) = (m.step s a).bind fun t => m.run t as := rfl

theorem run_cons_eq_some {s u : σ} {a : α} {as : List α} :
    m.run s (a :: as) = some u ↔ ∃ t, m.step s a = some t ∧ m.run t as = some u := by
  simp [run_cons, Option.bind_eq_some_iff]

theorem run_append (s : σ) (as bs : List α) :
    m.run s (as ++ bs) = (m.run s as).bind fun t => m.run t bs := by
  induction as generalizing s with
  | nil => rfl
  | cons a as ih =>
    simp only [List.cons_append, run_cons, Option.bind_assoc]
    cases m.step s a with
    | none => rfl
    | some t => exact ih t

def Reachable (s : σ) : Prop :=
  ∃ s₀ as, m.start s₀ ∧ m.run s₀ as = some s

variable {m}

theorem Reachable.of_start {s : σ} (h : m.start s) : m.Reachable s :=
  ⟨s, [], h, rfl⟩

theorem Reachable.run {s t : σ} {as : List α} (h : m.Reachable s) (hrun : m.run s as = some t) :
    m.Reachable t := by
  obtain ⟨s₀, bs, hstart, hbs⟩ := h
  refine ⟨s₀, bs ++ as, hstart, ?_⟩
  rw [run_append, hbs]
  exact hrun

theorem Reachable.step {s t : σ} {a : α} (h : m.Reachable s) (hstep : m.step s a = some t) :
    m.Reachable t :=
  h.run (show m.run s [a] = some t by simp [run_cons, hstep])

/-- What one step preserves, a whole run preserves. -/
theorem run_preserves {P : σ → Prop} (hstep : ∀ s a t, P s → m.step s a = some t → P t)
    {s t : σ} {as : List α} (hs : P s) (hrun : m.run s as = some t) : P t := by
  induction as generalizing s with
  | nil => cases hrun; exact hs
  | cons a as ih =>
    obtain ⟨u, hu, hrest⟩ := m.run_cons_eq_some.mp hrun
    exact ih (hstep s a u hs hu) hrest

theorem Reachable.invariant {P : σ → Prop} (hstart : ∀ s, m.start s → P s)
    (hstep : ∀ s a t, P s → m.step s a = some t → P t) {s : σ} (h : m.Reachable s) : P s := by
  obtain ⟨s₀, as, h₀, hrun⟩ := h
  exact run_preserves hstep (hstart s₀ h₀) hrun

/-! ### Conditions on the steps of a run -/

variable (m)

/-- `P` holds of every state the schedule visits, the first one included. -/
def Always (P : σ → Prop) : σ → List α → Prop
  | s, [] => P s
  | s, a :: as => P s ∧ ∀ t, m.step s a = some t → Always P t as

/-- Every step the schedule takes meets `G` in the state it is taken from. -/
def Meets (G : σ → α → Prop) : σ → List α → Prop
  | _, [] => True
  | s, a :: as => ∀ t, m.step s a = some t → G s a ∧ Meets G t as

variable {m}

theorem Always.head {P : σ → Prop} {s : σ} {as : List α} (h : m.Always P s as) : P s := by
  cases as with
  | nil => exact h
  | cons a as => exact h.1

theorem Always.last {P : σ → Prop} {s t : σ} {as : List α} (h : m.Always P s as)
    (hrun : m.run s as = some t) : P t := by
  induction as generalizing s with
  | nil => cases hrun; exact h
  | cons a as ih =>
    obtain ⟨u, hu, hrest⟩ := m.run_cons_eq_some.mp hrun
    exact ih (h.2 u hu) hrest

theorem Always.imp {P Q : σ → Prop} (hpq : ∀ s, P s → Q s) {s : σ} {as : List α}
    (h : m.Always P s as) : m.Always Q s as := by
  induction as generalizing s with
  | nil => exact hpq s h
  | cons a as ih => exact ⟨hpq s h.1, fun t ht => ih (h.2 t ht)⟩

theorem Meets.imp {G H : σ → α → Prop} (hgh : ∀ s a, G s a → H s a) {s : σ} {as : List α}
    (h : m.Meets G s as) : m.Meets H s as := by
  induction as generalizing s with
  | nil => trivial
  | cons a as ih => exact fun t ht => ⟨hgh s a (h t ht).1, ih (h t ht).2⟩

/-- An invariant kept by the steps that meet `G` holds along every run of them. -/
theorem always_of_meets {P : σ → Prop} {G : σ → α → Prop}
    (hstep : ∀ s a t, P s → G s a → m.step s a = some t → P t)
    {s : σ} {as : List α} (hs : P s) (h : m.Meets G s as) : m.Always P s as := by
  induction as generalizing s with
  | nil => exact hs
  | cons a as ih => exact ⟨hs, fun t ht => ih (hstep s a t hs (h t ht).1 ht) (h t ht).2⟩

/-- What the invariant grants to each step, a run kept inside it grants to all of its steps. -/
theorem meets_of_meets {P : σ → Prop} {G H : σ → α → Prop}
    (hstep : ∀ s a t, P s → G s a → m.step s a = some t → P t) (hgrant : ∀ s a, P s → H s a)
    {s : σ} {as : List α} (hs : P s) (h : m.Meets G s as) : m.Meets H s as := by
  induction as generalizing s with
  | nil => trivial
  | cons a as ih =>
    intro t ht
    exact ⟨hgrant s a hs, ih (hstep s a t hs (h t ht).1 ht) (h t ht).2⟩

theorem run_of_meets {P : σ → Prop} {G : σ → α → Prop}
    (hstep : ∀ s a t, P s → G s a → m.step s a = some t → P t)
    {s t : σ} {as : List α} (hs : P s) (h : m.Meets G s as) (hrun : m.run s as = some t) : P t :=
  (always_of_meets hstep hs h).last hrun

/-- When a step from an invariant state keeps `P` exactly if it meets `G`, a run
stays inside `P` exactly if all its steps meet `G`. -/
theorem always_iff_meets {I P : σ → Prop} {G : σ → α → Prop} (hI : ∀ s, I s → P s)
    (hexact : ∀ s a t, I s → m.step s a = some t → (P t ↔ G s a))
    (hkeep : ∀ s a t, I s → G s a → m.step s a = some t → I t)
    {s : σ} {as : List α} (hs : I s) : m.Always P s as ↔ m.Meets G s as := by
  induction as generalizing s with
  | nil => exact ⟨fun _ => trivial, fun _ => hI s hs⟩
  | cons a as ih =>
    constructor
    · intro h t ht
      have hg : G s a := (hexact s a t hs ht).mp (h.2 t ht).head
      exact ⟨hg, (ih (hkeep s a t hs hg ht)).mp (h.2 t ht)⟩
    · intro h
      refine ⟨hI s hs, fun t ht => ?_⟩
      obtain ⟨hg, hrest⟩ := h t ht
      exact (ih (hkeep s a t hs hg ht)).mpr hrest

theorem meets_cons_some {G : σ → α → Prop} {s t : σ} {a : α} {as : List α}
    (hstep : m.step s a = some t) : m.Meets G s (a :: as) ↔ G s a ∧ m.Meets G t as := by
  simp [Meets, hstep]

instance Meets.decidable {G : σ → α → Prop} [∀ s a, Decidable (G s a)] :
    ∀ (s : σ) (as : List α), Decidable (m.Meets G s as)
  | _, [] => .isTrue trivial
  | s, a :: as =>
    match h : m.step s a with
    | none => .isTrue (by simp [Meets, h])
    | some t =>
      have := Meets.decidable (G := G) t as
      decidable_of_iff (G s a ∧ m.Meets G t as) (meets_cons_some h).symm

/-! ### History variables -/

section History
variable {η : Type w}

/-- The machine `m` beside a ledger that only records what `m` does. -/
def record (m : Machine σ α) (h₀ : η) (note : η → σ → α → σ → η) : Machine (σ × η) α where
  start p := m.start p.1 ∧ p.2 = h₀
  step p a := (m.step p.1 a).map fun t => (t, note p.2 p.1 a t)

variable {h₀ : η} {note : η → σ → α → σ → η}

theorem record_step_eq_some {p q : σ × η} {a : α} :
    (m.record h₀ note).step p a = some q ↔
      ∃ t, m.step p.1 a = some t ∧ (t, note p.2 p.1 a t) = q :=
  Option.map_eq_some_iff

end History

/-! ### Projections -/

section Projection
variable {τ : Type w} {β : Type*} {n : Machine τ β} {f : σ → τ}

/-- Each step of `m` is, seen through `f`, a run of `n`. -/
structure Projects (m : Machine σ α) (n : Machine τ β) (f : σ → τ) : Prop where
  start : ∀ s, m.start s → n.start (f s)
  step : ∀ s a t, m.step s a = some t → ∃ bs, n.run (f s) bs = some (f t)

theorem Projects.run (h : Projects m n f) {s t : σ} {as : List α} (hrun : m.run s as = some t) :
    ∃ bs, n.run (f s) bs = some (f t) := by
  induction as generalizing s with
  | nil => cases hrun; exact ⟨[], rfl⟩
  | cons a as ih =>
    obtain ⟨u, hu, hrest⟩ := m.run_cons_eq_some.mp hrun
    obtain ⟨bs, hbs⟩ := h.step s a u hu
    obtain ⟨cs, hcs⟩ := ih hrest
    exact ⟨bs ++ cs, by rw [run_append, hbs]; exact hcs⟩

theorem Projects.reachable (h : Projects m n f) {s : σ} (hs : m.Reachable s) :
    n.Reachable (f s) := by
  obtain ⟨s₀, as, hstart, hrun⟩ := hs
  obtain ⟨bs, hbs⟩ := h.run hrun
  exact ⟨f s₀, bs, h.start s₀ hstart, hbs⟩

end Projection

end Machine

end SimplePhone.Transition
