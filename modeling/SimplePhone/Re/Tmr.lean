import Mathlib.Data.List.Nodup
import SimplePhone.Transition.Machine

/-! The timers of an event loop. The list is kept in the order of the deadlines, so
that a poll looks at its head only; a handler may start and cancel timers while the
poll that called it is still going on. -/
namespace SimplePhone.Re

open Transition

universe u

/-- A timer of the list; `jfs` is its deadline in milliseconds. -/
structure Tmr (κ : Type u) where
  id : κ
  jfs : Nat
deriving DecidableEq

/-- `tmrl->list`, from its head. -/
abbrev Tmrl (κ : Type u) := List (Tmr κ)

namespace Tmrl

variable {κ : Type u}

/-- In front of the first timer that is due later; `inspos_handler_0`. -/
def insertFromHead (t : Tmr κ) : Tmrl κ → Tmrl κ
  | [] => [t]
  | u :: l => if t.jfs < u.jfs then t :: u :: l else u :: insertFromHead t l

/-- The same search over the list from its tail; `inspos_handler`. -/
def insertReversed (t : Tmr κ) : Tmrl κ → Tmrl κ
  | [] => [t]
  | u :: l => if u.jfs ≤ t.jfs then t :: u :: l else u :: insertReversed t l

def insertFromTail (t : Tmr κ) (l : Tmrl κ) : Tmrl κ := (insertReversed t l.reverse).reverse

variable [DecidableEq κ]

/-- `list_unlink`. -/
def unlink (id : κ) (l : Tmrl κ) : Tmrl κ := l.eraseP fun t => t.id = id

/-- `tmr_start`, at the time `now`. -/
def start (now : Nat) (id : κ) (delay : Nat) (l : Tmrl κ) : Tmrl κ :=
  if delay = 0 then insertFromHead ⟨id, now + delay⟩ (l.unlink id)
  else insertFromTail ⟨id, now + delay⟩ (l.unlink id)

/-- `tmr_cancel`. -/
def cancel (id : κ) (l : Tmrl κ) : Tmrl κ := l.unlink id

/-- `tmr_next_timeout`. -/
def nextTimeout (now : Nat) (l : Tmrl κ) : Nat :=
  match l with
  | [] => 0
  | t :: _ => if t.jfs ≤ now then 1 else t.jfs - now

/-! ### Sorted lists -/

/-- In the order of the deadlines, and no timer twice. -/
structure Proper (l : Tmrl κ) : Prop where
  sorted : l.Pairwise fun t u => t.jfs ≤ u.jfs
  distinct : (l.map Tmr.id).Nodup

omit [DecidableEq κ] in
theorem insertFromHead_eq (t : Tmr κ) {l : Tmrl κ} (h : l.Pairwise fun t u => t.jfs ≤ u.jfs) :
    insertFromHead t l =
      l.filter (fun u => u.jfs ≤ t.jfs) ++ t :: l.filter fun u => ¬ u.jfs ≤ t.jfs := by
  induction l with
  | nil => rfl
  | cons u l ih =>
    obtain ⟨hhead, htail⟩ := List.pairwise_cons.mp h
    unfold insertFromHead
    split
    · rename_i hlt
      have hlater : ∀ v ∈ u :: l, ¬ v.jfs ≤ t.jfs := by
        intro v hv
        rcases List.mem_cons.mp hv with rfl | hv
        · omega
        · have := hhead v hv
          omega
      rw [List.filter_eq_nil_iff.mpr fun v hv => by simpa using hlater v hv,
        List.filter_eq_self.mpr fun v hv => by simpa using hlater v hv]
      rfl
    · rename_i hle
      rw [ih htail, List.filter_cons_of_pos (by simpa using hle),
        List.filter_cons_of_neg (by simpa using hle)]
      rfl

omit [DecidableEq κ] in
theorem insertReversed_eq (t : Tmr κ) {l : Tmrl κ} (h : l.Pairwise fun t u => u.jfs ≤ t.jfs) :
    insertReversed t l =
      l.filter (fun u => ¬ u.jfs ≤ t.jfs) ++ t :: l.filter fun u => u.jfs ≤ t.jfs := by
  induction l with
  | nil => rfl
  | cons u l ih =>
    obtain ⟨hhead, htail⟩ := List.pairwise_cons.mp h
    unfold insertReversed
    split
    · rename_i hle
      have hearlier : ∀ v ∈ u :: l, v.jfs ≤ t.jfs := by
        intro v hv
        rcases List.mem_cons.mp hv with rfl | hv
        · exact hle
        · exact Nat.le_trans (hhead v hv) hle
      rw [List.filter_eq_nil_iff.mpr fun v hv => by simpa using hearlier v hv,
        List.filter_eq_self.mpr fun v hv => by simpa using hearlier v hv]
      rfl
    · rename_i hlt
      rw [ih htail, List.filter_cons_of_pos (by simpa using hlt),
        List.filter_cons_of_neg (by simpa using hlt)]
      rfl

omit [DecidableEq κ] in
/-- On a sorted list it does not matter from which end the place is looked for. -/
theorem insertFromTail_eq (t : Tmr κ) {l : Tmrl κ} (h : l.Pairwise fun t u => t.jfs ≤ u.jfs) :
    insertFromTail t l = insertFromHead t l := by
  have hreverse : l.reverse.Pairwise fun t u => u.jfs ≤ t.jfs := List.pairwise_reverse.mpr h
  unfold insertFromTail
  rw [insertReversed_eq t hreverse, insertFromHead_eq t h, List.reverse_append,
    List.reverse_cons, List.filter_reverse, List.filter_reverse, List.reverse_reverse,
    List.reverse_reverse, List.append_assoc]
  rfl

theorem mem_unlink {id : κ} {l : Tmrl κ} (h : Proper l) {t : Tmr κ} :
    t ∈ l.unlink id ↔ t ∈ l ∧ t.id ≠ id := by
  obtain ⟨-, hdistinct⟩ := h
  unfold unlink
  induction l with
  | nil => simp
  | cons u l ih =>
    obtain ⟨hhead, htail⟩ := List.nodup_cons.mp hdistinct
    by_cases hu : u.id = id
    · rw [List.eraseP_cons_of_pos (by simpa using hu)]
      constructor
      · intro ht
        refine ⟨List.mem_cons_of_mem u ht, fun he => hhead ?_⟩
        rw [hu, ← he]
        exact List.mem_map_of_mem ht
      · rintro ⟨ht, hne⟩
        rcases List.mem_cons.mp ht with rfl | ht
        · exact absurd hu hne
        · exact ht
    · rw [List.eraseP_cons_of_neg (by simpa using hu), List.mem_cons, ih htail, List.mem_cons]
      constructor
      · rintro (rfl | ⟨ht, hne⟩)
        · exact ⟨.inl rfl, hu⟩
        · exact ⟨.inr ht, hne⟩
      · rintro ⟨rfl | ht, hne⟩
        · exact .inl rfl
        · exact .inr ⟨ht, hne⟩

theorem Proper.unlink {l : Tmrl κ} (h : Proper l) (id : κ) : Proper (l.unlink id) :=
  ⟨h.sorted.sublist (List.eraseP_sublist ..),
    h.distinct.sublist ((List.eraseP_sublist ..).map Tmr.id)⟩

theorem start_eq (now : Nat) (id : κ) (delay : Nat) {l : Tmrl κ} (h : Proper l) :
    l.start now id delay = insertFromHead ⟨id, now + delay⟩ (l.unlink id) := by
  unfold start
  split
  · rfl
  · exact insertFromTail_eq _ (h.unlink id).sorted

omit [DecidableEq κ] in
theorem mem_insertFromHead {t u : Tmr κ} {l : Tmrl κ} :
    u ∈ insertFromHead t l ↔ u = t ∨ u ∈ l := by
  induction l with
  | nil => simp [insertFromHead]
  | cons v l ih =>
    unfold insertFromHead
    split
    · simp
    · rw [List.mem_cons, ih, List.mem_cons]
      exact or_left_comm

theorem mem_start {now delay : Nat} {id : κ} {l : Tmrl κ} (h : Proper l) {t : Tmr κ} :
    t ∈ l.start now id delay ↔ t = ⟨id, now + delay⟩ ∨ t ∈ l ∧ t.id ≠ id := by
  rw [start_eq now id delay h, mem_insertFromHead, mem_unlink h]

theorem start_nil (now delay : Nat) (id : κ) :
    start now id delay [] = [⟨id, now + delay⟩] := by
  rw [start_eq now id delay ⟨.nil, List.nodup_nil⟩]
  rfl

theorem mem_start_nil {now delay : Nat} {id : κ} {t : Tmr κ} :
    t ∈ start now id delay [] ↔ t = ⟨id, now + delay⟩ := by
  rw [start_nil]
  exact List.mem_singleton

/-- A timer that is started is not overdue. -/
theorem not_overdue_start {now delay : Nat} {id : κ} {l : Tmrl κ} (h : Proper l)
    (hl : ∀ t ∈ l, now ≤ t.jfs) : ∀ t ∈ l.start now id delay, now ≤ t.jfs := by
  intro t ht
  rcases (mem_start h).mp ht with rfl | ⟨ht, -⟩
  · exact Nat.le_add_right now delay
  · exact hl t ht

theorem mem_cancel {id : κ} {l : Tmrl κ} (h : Proper l) {t : Tmr κ} :
    t ∈ l.cancel id ↔ t ∈ l ∧ t.id ≠ id :=
  mem_unlink h

omit [DecidableEq κ] in
theorem perm_insertFromHead (t : Tmr κ) (l : Tmrl κ) : (insertFromHead t l).Perm (t :: l) := by
  induction l with
  | nil => exact .refl _
  | cons u l ih =>
    unfold insertFromHead
    split
    · exact .refl _
    · exact (ih.cons u).trans (.swap t u l)

omit [DecidableEq κ] in
theorem sorted_insertFromHead (t : Tmr κ) {l : Tmrl κ}
    (h : l.Pairwise fun t u => t.jfs ≤ u.jfs) :
    (insertFromHead t l).Pairwise fun t u => t.jfs ≤ u.jfs := by
  induction l with
  | nil => exact List.pairwise_singleton _ _
  | cons u l ih =>
    obtain ⟨hhead, htail⟩ := List.pairwise_cons.mp h
    unfold insertFromHead
    split
    · rename_i hlt
      apply List.pairwise_cons.mpr
      refine ⟨fun v hv => ?_, h⟩
      rcases List.mem_cons.mp hv with rfl | hv
      · exact Nat.le_of_lt hlt
      · exact Nat.le_trans (Nat.le_of_lt hlt) (hhead v hv)
    · rename_i hle
      apply List.pairwise_cons.mpr
      refine ⟨fun v hv => ?_, ih htail⟩
      rcases mem_insertFromHead.mp hv with rfl | hv
      · exact Nat.le_of_not_lt hle
      · exact hhead v hv

theorem Proper.start {l : Tmrl κ} (h : Proper l) (now : Nat) (id : κ) (delay : Nat) :
    Proper (l.start now id delay) := by
  have hunlink := h.unlink id
  rw [start_eq now id delay h]
  refine ⟨sorted_insertFromHead _ hunlink.sorted, ?_⟩
  rw [((perm_insertFromHead _ _).map Tmr.id).nodup_iff, List.map_cons, List.nodup_cons]
  refine ⟨fun hid => ?_, hunlink.distinct⟩
  obtain ⟨u, hu, rfl⟩ := List.mem_map.mp hid
  exact ((mem_unlink h).mp hu).2 rfl

theorem Proper.cancel {l : Tmrl κ} (h : Proper l) (id : κ) : Proper (l.cancel id) :=
  h.unlink id

omit [DecidableEq κ] in
theorem Proper.nil : Proper ([] : Tmrl κ) := ⟨.nil, List.nodup_nil⟩

omit [DecidableEq κ] in
theorem Proper.tail {t : Tmr κ} {l : Tmrl κ} (h : Proper (t :: l)) : Proper l :=
  ⟨h.sorted.tail, (List.nodup_cons.mp h.distinct).2⟩

omit [DecidableEq κ] in
/-- The head is due first. -/
theorem Proper.head_le {t u : Tmr κ} {l : Tmrl κ} (h : Proper (t :: l)) (hu : u ∈ t :: l) :
    t.jfs ≤ u.jfs := by
  rcases List.mem_cons.mp hu with rfl | hu
  · exact Nat.le_refl _
  · exact (List.pairwise_cons.mp h.sorted).1 u hu

omit [DecidableEq κ] in
/-- A loop that sleeps as long as it is told to wakes before every timer that is not due yet,
and it is told to sleep without an end only when there is no timer. -/
theorem nextTimeout_le {now : Nat} {l : Tmrl κ} (h : Proper l) :
    (l.nextTimeout now = 0 ↔ l = []) ∧
      ∀ t ∈ l, now < t.jfs → now + l.nextTimeout now ≤ t.jfs := by
  cases l with
  | nil => exact ⟨by simp [nextTimeout], by simp⟩
  | cons u l =>
    unfold nextTimeout
    refine ⟨?_, fun t ht hlater => ?_⟩
    · simp only [reduceCtorEq, iff_false]
      split <;> omega
    · have hhead := h.head_le ht
      simp only
      split <;> omega

end Tmrl

/-! ### A thread and its timers -/

/-- A timer taken from the list to call its handler, and when. -/
structure Fired (κ : Type u) where
  tmr : Tmr κ
  time : Nat
deriving DecidableEq

structure Wheel (κ : Type u) where
  now : Nat
  timers : Tmrl κ
  /-- While `tmr_poll` runs, the time at which it was entered. -/
  polling : Option Nat
  /-- history, oldest first -/
  fired : List (Fired κ)
deriving DecidableEq

inductive WheelAction (κ : Type u) where
  | tick (d : Nat)
  | start (id : κ) (delay : Nat)
  | cancel (id : κ)
  /-- `tmr_poll` is entered. -/
  | poll
  /-- The loop takes the head, and its handler is called. -/
  | fire
  /-- The head is not due, and the loop ends. -/
  | leave
deriving DecidableEq

namespace Wheel

variable {κ : Type u} [DecidableEq κ]

def initial : Wheel κ := ⟨0, [], none, []⟩

def step (w : Wheel κ) : WheelAction κ → Option (Wheel κ)
  | .tick d => some { w with now := w.now + d }
  | .start id delay => some { w with timers := w.timers.start w.now id delay }
  | .cancel id => some { w with timers := w.timers.cancel id }
  | .poll => if w.polling = none then some { w with polling := some w.now } else none
  | .fire =>
      match w.polling, w.timers with
      | some jfs, t :: rest =>
          if jfs < t.jfs then none
          else some { w with timers := rest, fired := w.fired ++ [⟨t, w.now⟩] }
      | _, _ => none
  | .leave =>
      match w.polling, w.timers with
      | some jfs, t :: _ => if jfs < t.jfs then some { w with polling := none } else none
      | some _, [] => some { w with polling := none }
      | none, _ => none

def machine : Machine (Wheel κ) (WheelAction κ) where
  start w := w = initial
  step := step

/-- The timers of the past and of the list, in one order. -/
structure Ordered (w : Wheel κ) : Prop where
  proper : w.timers.Proper
  order : (w.fired.map Fired.tmr ++ w.timers).Pairwise fun t u => t.jfs ≤ u.jfs
  punctual : ∀ f ∈ w.fired, f.tmr.jfs ≤ f.time ∧ f.time ≤ w.now
  polling : ∀ jfs ∈ w.polling, jfs ≤ w.now

/-- A step of the loop. -/
theorem fire_eq_some {w v : Wheel κ} (h : w.step .fire = some v) :
    ∃ jfs t rest, w.polling = some jfs ∧ w.timers = t :: rest ∧ t.jfs ≤ jfs ∧
      v = { w with timers := rest, fired := w.fired ++ [⟨t, w.now⟩] } := by
  simp only [step] at h
  split at h
  · rename_i jfs t rest hpolling htimers
    split at h
    · cases h
    · rename_i hdue
      exact ⟨jfs, t, rest, hpolling, htimers, Nat.le_of_not_lt hdue, (Option.some.inj h).symm⟩
  · cases h

/-- The end of the loop: nothing of the list is due. -/
theorem leave_eq_some {w v : Wheel κ} (hw : w.timers.Proper) (h : w.step .leave = some v) :
    ∃ jfs, w.polling = some jfs ∧ (∀ t ∈ w.timers, jfs < t.jfs) ∧
      v = { w with polling := none } := by
  simp only [step] at h
  split at h
  · rename_i jfs t rest hpolling htimers
    split at h
    · rename_i hlater
      refine ⟨jfs, hpolling, fun u hu => ?_, (Option.some.inj h).symm⟩
      rw [htimers] at hw hu
      exact Nat.lt_of_lt_of_le hlater (hw.head_le hu)
    · cases h
  · rename_i jfs hpolling htimers
    refine ⟨jfs, hpolling, fun t ht => ?_, (Option.some.inj h).symm⟩
    rw [htimers] at ht
    cases ht
  · cases h

omit [DecidableEq κ] in
theorem ordered_initial : Ordered (initial : Wheel κ) :=
  ⟨.nil, .nil, nofun, nofun⟩

theorem Ordered.step {w v : Wheel κ} {a : WheelAction κ} (h : Ordered w)
    (hstep : w.step a = some v) : Ordered v := by
  obtain ⟨hproper, horder, hpunctual, hpolling⟩ := h
  cases a with
  | tick d =>
    cases hstep
    refine ⟨hproper, horder, fun f hf => ?_, fun jfs hj => ?_⟩
    · have := hpunctual f hf
      exact ⟨this.1, Nat.le_add_right_of_le this.2⟩
    · exact Nat.le_add_right_of_le (hpolling jfs hj)
  | start id delay =>
    cases hstep
    refine ⟨hproper.start w.now id delay, ?_, hpunctual, hpolling⟩
    obtain ⟨hfired, -, hbetween⟩ := List.pairwise_append.mp horder
    apply List.pairwise_append.mpr
    refine ⟨hfired, (hproper.start w.now id delay).sorted, fun t ht u hu => ?_⟩
    rcases (Tmrl.mem_start hproper).mp hu with rfl | ⟨hu, -⟩
    · obtain ⟨f, hf, rfl⟩ := List.mem_map.mp ht
      have := hpunctual f hf
      simp only
      omega
    · exact hbetween t ht u hu
  | cancel id =>
    cases hstep
    refine ⟨hproper.cancel id, ?_, hpunctual, hpolling⟩
    exact horder.sublist ((List.Sublist.refl _).append (List.eraseP_sublist ..))
  | poll =>
    simp only [Wheel.step] at hstep
    split at hstep
    · cases hstep
      refine ⟨hproper, horder, hpunctual, fun jfs hj => ?_⟩
      exact Nat.le_of_eq (Option.mem_some_iff.mp hj).symm
    · cases hstep
  | fire =>
    obtain ⟨jfs, t, rest, hjfs, htimers, hdue, rfl⟩ := fire_eq_some hstep
    rw [htimers] at hproper horder
    refine ⟨hproper.tail, ?_, fun f hf => ?_, hpolling⟩
    · rw [List.map_append, List.append_assoc]
      exact horder
    · rcases List.mem_append.mp hf with hf | hf
      · exact hpunctual f hf
      · rw [List.mem_singleton.mp hf]
        have := hpolling jfs hjfs
        exact ⟨by simp only; omega, Nat.le_refl _⟩
  | leave =>
    obtain ⟨jfs, -, -, rfl⟩ := leave_eq_some hproper hstep
    exact ⟨hproper, horder, hpunctual, nofun⟩

theorem ordered_of_reachable {w : Wheel κ} (h : machine.Reachable w) : Ordered w := by
  apply h.invariant
  · rintro _ rfl
    exact ordered_initial
  · intro s a t hs hstep
    exact hs.step hstep

/-- Over a whole run the handlers are called in the order of the deadlines, none of them
early, and no timer of the list is due before one that was called. -/
theorem fires_in_order {w : Wheel κ} (h : machine.Reachable w) :
    (w.fired.map Fired.tmr ++ w.timers).Pairwise (fun t u => t.jfs ≤ u.jfs) ∧
      ∀ f ∈ w.fired, f.tmr.jfs ≤ f.time := by
  have hordered := ordered_of_reachable h
  exact ⟨hordered.order, fun f hf => (hordered.punctual f hf).1⟩

theorem fires_in_order_twice : ∃ w : Wheel Nat, w.fired.length = 2 ∧
    (w.fired.map Fired.tmr ++ w.timers).Pairwise (fun t u => t.jfs ≤ u.jfs) := by
  let as : List (WheelAction Nat) := [.start 0 30, .start 1 10, .start 2 20, .tick 25, .poll,
    .fire, .start 3 0, .fire]
  let w : Wheel Nat := ⟨25, [⟨3, 25⟩, ⟨0, 30⟩], some 25, [⟨⟨1, 10⟩, 25⟩, ⟨⟨2, 20⟩, 25⟩]⟩
  have hrun : machine.run initial as = some w := by decide
  exact ⟨w, rfl, (fires_in_order ⟨initial, as, rfl, hrun⟩).1⟩

/-! ### One poll -/

/-- How often the handler of a timer was called. -/
def calls (id : κ) (w : Wheel κ) : Nat := w.fired.countP fun f => f.tmr.id = id

end Wheel

variable {κ : Type u} [DecidableEq κ]

/-- The timer is started or cancelled. -/
def WheelAction.touches (id : κ) : WheelAction κ → Bool
  | .start i _ | .cancel i => i = id
  | _ => false

namespace Wheel

/-- Where a timer that nobody touches is while the poll entered at `jfs` goes on. -/
structure Serving (jfs : Nat) (u : Tmr κ) (n : Nat) (w : Wheel κ) : Prop where
  proper : w.timers.Proper
  polling : w.polling = some jfs
  place : u ∈ w.timers ∧ w.calls u.id = n ∨
    u.jfs ≤ jfs ∧ (∀ t ∈ w.timers, t.id ≠ u.id) ∧ w.calls u.id = n + 1

theorem Serving.step {jfs n : Nat} {u : Tmr κ} {w v : Wheel κ} {a : WheelAction κ}
    (h : Serving jfs u n w) (hleave : a ≠ .leave) (htouches : a.touches u.id = false)
    (hstep : w.step a = some v) : Serving jfs u n v := by
  obtain ⟨hproper, hpolling, hplace⟩ := h
  cases a with
  | tick d =>
    cases hstep
    exact ⟨hproper, hpolling, hplace⟩
  | start id delay =>
    cases hstep
    have hid : id ≠ u.id := by simpa [WheelAction.touches] using htouches
    refine ⟨hproper.start w.now id delay, hpolling, ?_⟩
    rcases hplace with ⟨hu, hcalls⟩ | ⟨hdue, hgone, hcalls⟩
    · exact .inl ⟨(Tmrl.mem_start hproper).mpr (.inr ⟨hu, hid.symm⟩), hcalls⟩
    · refine .inr ⟨hdue, fun t ht => ?_, hcalls⟩
      rcases (Tmrl.mem_start hproper).mp ht with rfl | ⟨ht, -⟩
      · exact hid
      · exact hgone t ht
  | cancel id =>
    cases hstep
    have hid : id ≠ u.id := by simpa [WheelAction.touches] using htouches
    refine ⟨hproper.cancel id, hpolling, ?_⟩
    rcases hplace with ⟨hu, hcalls⟩ | ⟨hdue, hgone, hcalls⟩
    · exact .inl ⟨(Tmrl.mem_cancel hproper).mpr ⟨hu, hid.symm⟩, hcalls⟩
    · exact .inr ⟨hdue, fun t ht => hgone t ((Tmrl.mem_cancel hproper).mp ht).1, hcalls⟩
  | poll => simp [Wheel.step, hpolling] at hstep
  | fire =>
    obtain ⟨jfs', t, rest, hjfs, htimers, hdue, rfl⟩ := fire_eq_some hstep
    rw [hpolling] at hjfs
    cases hjfs
    rw [htimers] at hproper hplace
    have hrest : ∀ v ∈ rest, v.id ≠ t.id := by
      intro v hv hid
      have hnodup := (List.nodup_cons.mp hproper.distinct).1
      rw [← hid] at hnodup
      exact hnodup (List.mem_map_of_mem hv)
    refine ⟨hproper.tail, hpolling, ?_⟩
    rcases hplace with ⟨hu, hcalls⟩ | ⟨hdone, hgone, hcalls⟩
    · rcases List.mem_cons.mp hu with rfl | hu
      · refine .inr ⟨hdue, hrest, ?_⟩
        unfold calls at hcalls ⊢
        rw [List.countP_append, hcalls]
        simp
      · refine .inl ⟨hu, ?_⟩
        have hne : t.id ≠ u.id := (hrest u hu).symm
        unfold calls at hcalls ⊢
        rw [List.countP_append, hcalls]
        simp [hne]
    · refine .inr ⟨hdone, fun v hv => hgone v (List.mem_cons_of_mem t hv), ?_⟩
      have hne : t.id ≠ u.id := hgone t List.mem_cons_self
      unfold calls at hcalls ⊢
      rw [List.countP_append, hcalls]
      simp [hne]
  | leave => exact absurd rfl hleave

theorem Serving.run {jfs n : Nat} {u : Tmr κ} {w v : Wheel κ} {as : List (WheelAction κ)}
    (h : Serving jfs u n w) (has : ∀ a ∈ as, a ≠ .leave ∧ a.touches u.id = false)
    (hrun : machine.run w as = some v) : Serving jfs u n v := by
  induction as generalizing w with
  | nil =>
    cases hrun
    exact h
  | cons a as ih =>
    obtain ⟨s, hs, hrest⟩ := machine.run_cons_eq_some.mp hrun
    obtain ⟨hleave, htouches⟩ := has a List.mem_cons_self
    exact ih (h.step hleave htouches hs) (fun b hb => has b (List.mem_cons_of_mem a hb)) hrest

theorem poll_eq_some {w v : Wheel κ} (h : w.step .poll = some v) :
    v = { w with polling := some w.now } := by
  simp only [step] at h
  split at h
  · exact (Option.some.inj h).symm
  · cases h

theorem polling_step {jfs : Nat} {w v : Wheel κ} {a : WheelAction κ} (h : w.polling = some jfs)
    (hleave : a ≠ .leave) (hstep : w.step a = some v) : v.polling = some jfs := by
  cases a with
  | tick d | start id delay | cancel id =>
    cases hstep
    exact h
  | poll => simp [step, h] at hstep
  | fire =>
    obtain ⟨_, _, _, -, -, -, rfl⟩ := fire_eq_some hstep
    exact h
  | leave => exact absurd rfl hleave

theorem polling_run {jfs : Nat} {w v : Wheel κ} {as : List (WheelAction κ)}
    (h : w.polling = some jfs) (hleave : .leave ∉ as) (hrun : machine.run w as = some v) :
    v.polling = some jfs := by
  induction as generalizing w with
  | nil =>
    cases hrun
    exact h
  | cons a as ih =>
    obtain ⟨s, hs, hrest⟩ := machine.run_cons_eq_some.mp hrun
    obtain ⟨ha, has⟩ := List.ne_and_not_mem_of_not_mem_cons hleave
    exact ih (polling_step h ha.symm hs) has hrest

/-- A poll, whatever its handlers start and cancel in between, calls each timer that was due
and that nobody touched exactly once, calls no other that nobody touched, and leaves only
timers that are due later than its beginning. -/
theorem poll_serves {s t : Wheel κ} {as : List (WheelAction κ)} (h : machine.Reachable s)
    (hleave : .leave ∉ as) (hrun : machine.run s (.poll :: as ++ [.leave]) = some t) :
    (∀ u ∈ s.timers, (∀ a ∈ as, a.touches u.id = false) →
      if u.jfs ≤ s.now then t.calls u.id = s.calls u.id + 1 ∧ u ∉ t.timers
      else t.calls u.id = s.calls u.id ∧ u ∈ t.timers) ∧
    ∀ u ∈ t.timers, s.now < u.jfs := by
  obtain ⟨w, hw, hrun⟩ := machine.run_cons_eq_some.mp hrun
  obtain rfl := poll_eq_some hw
  rw [List.append_eq, machine.run_append] at hrun
  obtain ⟨v, hv, hrun⟩ := Option.bind_eq_some_iff.mp hrun
  obtain ⟨t', ht', hrun⟩ := machine.run_cons_eq_some.mp hrun
  cases hrun
  have hproper : v.timers.Proper := (ordered_of_reachable ((h.step hw).run hv)).proper
  obtain ⟨jfs, hjfs, hlater, rfl⟩ := leave_eq_some hproper ht'
  rw [polling_run rfl hleave hv] at hjfs
  cases hjfs
  refine ⟨fun u hu htouches => ?_, hlater⟩
  have hstart : Serving s.now u (s.calls u.id) { s with polling := some s.now } :=
    ⟨(ordered_of_reachable h).proper, rfl, .inl ⟨hu, rfl⟩⟩
  have hend := hstart.run (fun a ha => ⟨fun he => hleave (he ▸ ha), htouches a ha⟩) hv
  rcases hend.place with ⟨hmem, hcalls⟩ | ⟨hdue, hgone, hcalls⟩
  · rw [if_neg (Nat.not_le_of_lt (hlater u hmem))]
    exact ⟨hcalls, hmem⟩
  · rw [if_pos hdue]
    exact ⟨hcalls, fun hmem => hgone u hmem rfl⟩

theorem poll_serves_two : ∃ t : Wheel Nat, t.calls 1 = 1 ∧ t.timers = [⟨2, 20⟩, ⟨0, 30⟩] := by
  let before : List (WheelAction Nat) := [.start 0 30, .start 1 10, .tick 15]
  let s : Wheel Nat := ⟨15, [⟨1, 10⟩, ⟨0, 30⟩], none, []⟩
  let t : Wheel Nat := ⟨15, [⟨2, 20⟩, ⟨0, 30⟩], none, [⟨⟨1, 10⟩, 15⟩]⟩
  have hs : machine.run initial before = some s := by decide
  have ht : machine.run s (.poll :: [.fire, .start 2 5] ++ [.leave]) = some t := by decide
  have hserves := (poll_serves ⟨initial, before, rfl, hs⟩ (by decide) ht).1 ⟨1, 10⟩
    (by decide) (by decide)
  exact ⟨t, hserves.1, rfl⟩

end Wheel

end SimplePhone.Re
