import Mathlib.Data.List.Perm.Basic
import Mathlib.Data.List.Nodup
import SimplePhone.Transition.Machine

/-! The pool of worker threads that the event loop hands work to. The works are list nodes
that are used again: a thread runs the handler of a work and writes the work's address to a
pipe, and the event loop reads it and calls the callback. -/
namespace SimplePhone.Re

open Transition

/-- `struct async_work`; a handler is whether it is set. -/
structure Work where
  workh : Bool
  cb : Bool
  /-- the number of the request, from one on -/
  arg : Nat
  err : Int
  id : Int
deriving DecidableEq

/-- As `mem_zalloc` leaves it. -/
def Work.zero : Work := ⟨false, false, 0, 0, 0⟩

inductive WorkerThread where
  /-- at the top of the loop, or waiting for the condition -/
  | idle
  /-- moved the work to `curl` -/
  | took (work : Nat)
  /-- called its handler -/
  | ran (work : Nat)
  | gone
deriving DecidableEq

/-- What the thread of the event loop is in the middle of. -/
inductive EventLoop where
  | loop
  /-- `queueh` has called the callback of the work -/
  | called (work : Nat)
  /-- `async_destructor` waits for the threads -/
  | joining
  | destroyed
deriving DecidableEq

/-- `struct re_async`; works are known by their addresses. -/
structure Async where
  mem : Nat → Work
  next : Nat
  freel : List Nat
  workl : List Nat
  curl : List Nat
  mqueue : List Nat
  threads : List WorkerThread
  main : EventLoop
  /-- history: how many requests there were, and which came with a callback or a handler -/
  requests : Nat
  asked : List Nat
  laden : List Nat
  /-- history: the calls of handlers and of callbacks, with their results -/
  worked : List (Nat × Int)
  called : List (Nat × Int)
  /-- history: callbacks and handlers that were taken away before they were called -/
  cancelled : List Nat
  dropped : List Nat
  /-- history: the works whose message was lost -/
  lost : List Nat

def ecanceled : Int := 125

/-- A store with one work changed. -/
def store (a : Nat) (w : Work) (mem : Nat → Work) : Nat → Work :=
  fun b => if b = a then w else mem b

namespace Work

/-- Whose callback it will call. -/
def caller (w : Work) : Option Nat := if w.cb then some w.arg else none

/-- Whose handler it will call. -/
def task (w : Work) : Option Nat := if w.workh then some w.arg else none

/-- What `re_async_cancel` leaves of it. -/
def cancelled (w : Work) : Work := { w with id := 0, workh := false, cb := false, arg := 0 }

end Work

namespace Async

/-- `re_async_alloc`. -/
def alloc (workers : Nat) : Async where
  mem := fun _ => .zero
  next := workers
  freel := List.range workers
  workl := []
  curl := []
  mqueue := []
  threads := List.replicate workers .idle
  main := .loop
  requests := 0
  asked := []
  laden := []
  worked := []
  called := []
  cancelled := []
  dropped := []
  lost := []

/-- `re_async` with a work from `freel`, or with a new one. -/
def reAsync (id : Int) (workh cb : Bool) (s : Async) : Async :=
  let a := s.freel.headD s.next
  let r := s.requests + 1
  { s with
    mem := store a { s.mem a with workh := workh, cb := cb, arg := r, id := id } s.mem
    next := if s.freel = [] then s.next + 1 else s.next
    freel := s.freel.tail
    workl := s.workl ++ [a]
    requests := r
    asked := if cb then s.asked ++ [r] else s.asked
    laden := if workh then s.laden ++ [r] else s.laden }

def hasId (id : Int) (s : Async) (a : Nat) : Bool := (s.mem a).id = id

/-- The works that `re_async_cancel` is after. -/
def hit (id : Int) (s : Async) : List Nat :=
  s.workl.filter (s.hasId id) ++ s.curl.filter (s.hasId id)

/-- `re_async_cancel`. -/
def cancel (id : Int) (s : Async) : Async :=
  { s with
    mem := fun a => if a ∈ s.hit id then (s.mem a).cancelled else s.mem a
    freel := s.freel ++ s.workl.filter (s.hasId id)
    workl := s.workl.filter fun a => !s.hasId id a
    cancelled := s.cancelled ++ (s.hit id).filterMap fun a => (s.mem a).caller
    dropped := s.dropped ++ (s.hit id).filterMap fun a => (s.mem a).task }

/-- A thread moves the first work to `curl`, under the lock of the pool. -/
def take (i : Nat) (s : Async) : Option Async :=
  match s.threads[i]?, s.workl with
  | some .idle, a :: rest =>
      if s.main = .joining then none
      else some { s with
        threads := s.threads.set i (.took a)
        workl := rest
        curl := s.curl ++ [a] }
  | _, _ => none

/-- It calls the handler, under the lock of the work. -/
def work (i : Nat) (err : Int) (s : Async) : Option Async :=
  match s.threads[i]? with
  | some (.took a) =>
      let w := s.mem a
      let s := { s with threads := s.threads.set i (.ran a) }
      if w.workh then
        some { s with
          mem := store a { w with workh := false, err := err } s.mem
          worked := s.worked ++ [(w.arg, err)] }
      else some s
  | _ => none

/-- It writes to the pipe, and does not look whether there was room. -/
def push (i : Nat) (written : Bool) (s : Async) : Option Async :=
  match s.threads[i]? with
  | some (.ran a) =>
      let s := { s with threads := s.threads.set i .idle }
      if written then some { s with mqueue := s.mqueue ++ [a] }
      else some { s with lost := s.lost ++ [a] }
  | _ => none

/-- Without `run`, a thread leaves its loop. -/
def leave (i : Nat) (s : Async) : Option Async :=
  match s.threads[i]?, s.main with
  | some .idle, .joining => some { s with threads := s.threads.set i .gone }
  | _, _ => none

/-- `queueh`, up to the callback and with it. -/
def queueh (s : Async) : Option Async :=
  match s.main, s.mqueue with
  | .loop, a :: rest =>
      let w := s.mem a
      some { s with
        mqueue := rest
        main := .called a
        mem := store a { w with cb := false } s.mem
        called := if w.cb then s.called ++ [(w.arg, w.err)] else s.called }
  | _, _ => none

/-- The end of `queueh`: the work moves to `freel`, from whatever list it is in. -/
def release (s : Async) : Option Async :=
  match s.main with
  | .called a => some { s with
      main := .loop
      freel := s.freel.erase a ++ [a]
      workl := s.workl.erase a
      curl := s.curl.erase a }
  | _ => none

/-- `async_destructor`, when the threads are gone. -/
def flush (s : Async) : Option Async :=
  if s.main = .joining ∧ ∀ t ∈ s.threads, t = .gone then
    some { s with
      main := .destroyed
      freel := []
      workl := []
      curl := []
      mqueue := []
      lost := []
      called := s.called ++
        (s.workl ++ s.curl).filterMap fun a => (s.mem a).caller.map fun r => (r, ecanceled)
      dropped := s.dropped ++ (s.workl ++ s.curl).filterMap fun a => (s.mem a).task }
  else none

end Async

inductive AsyncAction where
  | reAsync (id : Int) (workh cb : Bool)
  | cancel (id : Int)
  /-- what the worker thread with this number does next -/
  | take (i : Nat)
  | work (i : Nat) (err : Int)
  | push (i : Nat) (written : Bool)
  | leave (i : Nat)
  | queueh
  | release
  /-- `async_destructor` clears `run` -/
  | destroy
  | flush
deriving DecidableEq

namespace Async

/-- The pool is in use until it is destroyed; a callback may use it as well. -/
def usable (s : Async) : Bool :=
  match s.main with
  | .loop | .called _ => true
  | .joining | .destroyed => false

def step (s : Async) : AsyncAction → Option Async
  | .reAsync id workh cb => if s.usable then some (s.reAsync id workh cb) else none
  | .cancel id => if s.usable then some (s.cancel id) else none
  | .take i => s.take i
  | .work i err => s.work i err
  | .push i written => s.push i written
  | .leave i => s.leave i
  | .queueh => s.queueh
  | .release => s.release
  | .destroy => if s.main = .loop then some { s with main := .joining } else none
  | .flush => s.flush

def machine : Machine Async AsyncAction where
  start s := ∃ workers, s = alloc workers
  step := step

/-! ### Where the works are -/

end Async

/-- The work a thread has in its hands. -/
def WorkerThread.holds : WorkerThread → Option Nat
  | .took a | .ran a => some a
  | .idle | .gone => none

def EventLoop.holds : EventLoop → Option Nat
  | .called a => some a
  | _ => none

namespace Async

def nodes (s : Async) : List Nat := s.freel ++ (s.workl ++ s.curl)

def held (s : Async) : List Nat := s.threads.filterMap WorkerThread.holds

/-- Every work is in one list, and each one in `curl` on its way through one place. -/
structure Placed (s : Async) : Prop where
  nodup : s.nodes.Nodup
  fresh : ∀ a ∈ s.nodes, a < s.next
  carried : (s.mqueue ++ (s.held ++ (s.main.holds.toList ++ s.lost))).Perm s.curl

theorem perm_set {α : Type} {l : List WorkerThread} {i : Nat} {t : WorkerThread}
    (h : l[i]? = some t) (u : WorkerThread) (f : WorkerThread → Option α) :
    ∃ rest, (l.filterMap f).Perm ((f t).toList ++ rest) ∧
      ((l.set i u).filterMap f).Perm ((f u).toList ++ rest) := by
  obtain ⟨hi, rfl⟩ := List.getElem?_eq_some_iff.mp h
  refine ⟨(l.eraseIdx i).filterMap f, ?_, ?_⟩
  · have hperm := (List.getElem_cons_eraseIdx_perm hi).symm.filterMap f
    cases hf : f l[i] with
    | none =>
      rw [List.filterMap_cons_none hf] at hperm
      exact hperm
    | some a =>
      rw [List.filterMap_cons_some hf] at hperm
      exact hperm
  · have hperm := (List.set_perm_cons_eraseIdx hi u).filterMap f
    cases hf : f u with
    | none =>
      rw [List.filterMap_cons_none hf] at hperm
      exact hperm
    | some a =>
      rw [List.filterMap_cons_some hf] at hperm
      exact hperm

theorem Placed.congr {s t : Async} (h : Placed s) (hnodes : t.nodes.Perm s.nodes)
    (hnext : s.next ≤ t.next)
    (hcarried : (t.mqueue ++ (t.held ++ (t.main.holds.toList ++ t.lost))).Perm t.curl) :
    Placed t := by
  refine ⟨hnodes.nodup_iff.mpr h.nodup, fun a ha => ?_, hcarried⟩
  exact Nat.lt_of_lt_of_le (h.fresh a (hnodes.mem_iff.mp ha)) hnext

/-- A step that only moves works. -/
theorem Placed.moved {s t : Async} (h : Placed s) (hnext : s.next ≤ t.next)
    (hnodes : ∀ a, t.nodes.count a = s.nodes.count a)
    (hcarried : ∀ a, (t.mqueue ++ (t.held ++ (t.main.holds.toList ++ t.lost))).count a +
      s.curl.count a = t.curl.count a +
        (s.mqueue ++ (s.held ++ (s.main.holds.toList ++ s.lost))).count a) : Placed t := by
  refine h.congr (List.perm_iff_count.mpr hnodes) hnext (List.perm_iff_count.mpr fun a => ?_)
  have hsame := h.carried.count_eq a
  have hmoved := hcarried a
  omega

theorem Placed.curl_of_held {s : Async} (h : Placed s) {a : Nat} (ha : a ∈ s.held) :
    a ∈ s.curl := by
  apply h.carried.mem_iff.mp
  exact List.mem_append_right _ (List.mem_append_left _ ha)

theorem mem_held {s : Async} {i a : Nat} {t : WorkerThread} (h : s.threads[i]? = some t)
    (ht : t.holds = some a) : a ∈ s.held :=
  List.mem_filterMap.mpr ⟨t, List.mem_of_getElem? h, ht⟩

theorem placed_alloc (workers : Nat) : Placed (alloc workers) := by
  have hheld : (alloc workers).held = [] := by
    apply List.filterMap_eq_nil_iff.mpr
    intro t ht
    rw [List.eq_of_mem_replicate ht]
    rfl
  have hnodes : (alloc workers).nodes = List.range workers := List.append_nil _
  refine ⟨?_, ?_, ?_⟩
  · rw [hnodes]
    exact List.nodup_range
  · rw [hnodes]
    exact fun a ha => List.mem_range.mp ha
  · rw [hheld]
    exact .nil

/-- The work that `re_async` uses is in no list. -/
theorem Placed.unused {s : Async} (h : Placed s) :
    s.freel.headD s.next ∉ s.freel.tail ++ (s.workl ++ s.curl) := by
  cases hfree : s.freel with
  | nil =>
    intro hmem
    have hlt : s.next < s.next := by
      apply h.fresh
      unfold nodes
      rw [hfree]
      exact hmem
    exact Nat.lt_irrefl _ hlt
  | cons a rest =>
    have hnodup := h.nodup
    unfold nodes at hnodup
    rw [hfree] at hnodup
    exact (List.nodup_cons.mp hnodup).1

theorem Placed.reAsync {s : Async} (h : Placed s) (id : Int) (workh cb : Bool) :
    Placed (s.reAsync id workh cb) := by
  cases hfree : s.freel with
  | nil =>
    have hnodes : (s.reAsync id workh cb).nodes.Perm (s.next :: s.nodes) := by
      apply List.perm_iff_count.mpr
      intro a
      simp only [nodes, Async.reAsync, hfree, List.headD_nil, List.tail_nil, List.count_append,
        List.count_cons, List.count_nil]
      omega
    have hnew : s.next ∉ s.nodes := fun hmem => Nat.lt_irrefl _ (h.fresh _ hmem)
    have hnext : (s.reAsync id workh cb).next = s.next + 1 := if_pos hfree
    refine ⟨hnodes.nodup_iff.mpr (List.nodup_cons.mpr ⟨hnew, h.nodup⟩), fun a ha => ?_, h.carried⟩
    rw [hnext]
    rcases List.mem_cons.mp (hnodes.mem_iff.mp ha) with rfl | hmem
    · exact Nat.lt_succ_self _
    · exact Nat.lt_succ_of_lt (h.fresh a hmem)
  | cons b rest =>
    apply h.moved
    · change s.next ≤ if s.freel = [] then s.next + 1 else s.next
      split
      · exact Nat.le_succ _
      · exact Nat.le_refl _
    · intro a
      simp only [nodes, Async.reAsync, hfree, List.headD_cons, List.tail_cons, List.count_append,
        List.count_cons, List.count_nil]
      omega
    · intro a
      exact Nat.add_comm _ _

theorem Placed.cancel {s : Async} (h : Placed s) (id : Int) : Placed (s.cancel id) := by
  apply h.moved
  · exact Nat.le_refl _
  · intro a
    have hsplit := (List.filter_append_perm (s.hasId id) s.workl).count_eq a
    simp only [nodes, Async.cancel, List.count_append] at hsplit ⊢
    omega
  · intro a
    exact Nat.add_comm _ _

theorem Placed.take {s t : Async} (h : Placed s) {i : Nat} (hstep : s.take i = some t) :
    Placed t := by
  unfold Async.take at hstep
  split at hstep
  · rename_i a rest hthread hworkl
    split at hstep
    · cases hstep
    · cases hstep
      apply h.moved
      · exact Nat.le_refl _
      · intro b
        simp only [nodes, hworkl, List.count_append, List.count_cons, List.count_nil]
        omega
      · intro b
        obtain ⟨others, hbefore, hafter⟩ := perm_set hthread (.took a) WorkerThread.holds
        have hb := hbefore.count_eq b
        have ha := hafter.count_eq b
        simp only [held, WorkerThread.holds, Option.toList, List.count_append, List.count_cons,
          List.count_nil] at hb ha ⊢
        omega
  · cases hstep

theorem Placed.work {s t : Async} (h : Placed s) {i : Nat} {err : Int}
    (hstep : s.work i err = some t) : Placed t := by
  unfold Async.work at hstep
  split at hstep
  · rename_i a hthread
    have hheld : ∀ b, ((s.threads.set i (.ran a)).filterMap WorkerThread.holds).count b =
        s.held.count b := by
      intro b
      obtain ⟨others, hbefore, hafter⟩ := perm_set hthread (.ran a) WorkerThread.holds
      exact (hafter.count_eq b).trans (hbefore.count_eq b).symm
    simp only at hstep
    split at hstep
    · cases hstep
      refine h.moved (Nat.le_refl _) (fun b => rfl) fun b => ?_
      have hb := hheld b
      simp only [held, List.count_append] at hb ⊢
      omega
    · cases hstep
      refine h.moved (Nat.le_refl _) (fun b => rfl) fun b => ?_
      have hb := hheld b
      simp only [held, List.count_append] at hb ⊢
      omega
  · cases hstep

theorem Placed.push {s t : Async} (h : Placed s) {i : Nat} {written : Bool}
    (hstep : s.push i written = some t) : Placed t := by
  unfold Async.push at hstep
  split at hstep
  · rename_i a hthread
    obtain ⟨others, hbefore, hafter⟩ := perm_set hthread .idle WorkerThread.holds
    simp only at hstep
    split at hstep
    · cases hstep
      refine h.moved (Nat.le_refl _) (fun b => rfl) fun b => ?_
      have hb := hbefore.count_eq b
      have ha := hafter.count_eq b
      simp only [held, WorkerThread.holds, Option.toList, List.count_append, List.count_cons,
        List.count_nil] at hb ha ⊢
      omega
    · cases hstep
      refine h.moved (Nat.le_refl _) (fun b => rfl) fun b => ?_
      have hb := hbefore.count_eq b
      have ha := hafter.count_eq b
      simp only [held, WorkerThread.holds, Option.toList, List.count_append, List.count_cons,
        List.count_nil] at hb ha ⊢
      omega
  · cases hstep

theorem Placed.leave {s t : Async} (h : Placed s) {i : Nat} (hstep : s.leave i = some t) :
    Placed t := by
  unfold Async.leave at hstep
  split at hstep
  · rename_i hthread hmain
    cases hstep
    refine h.moved (Nat.le_refl _) (fun b => rfl) fun b => ?_
    obtain ⟨others, hbefore, hafter⟩ := perm_set hthread .gone WorkerThread.holds
    have hb := hbefore.count_eq b
    have ha := hafter.count_eq b
    simp only [held, WorkerThread.holds, Option.toList, List.count_append, List.count_nil]
      at hb ha ⊢
    omega
  · cases hstep

theorem Placed.queueh {s t : Async} (h : Placed s) (hstep : s.queueh = some t) : Placed t := by
  unfold Async.queueh at hstep
  split at hstep
  · rename_i a rest hmain hmqueue
    cases hstep
    refine h.moved (Nat.le_refl _) (fun b => rfl) fun b => ?_
    simp only [held, hmain, hmqueue, EventLoop.holds, Option.toList, List.count_append,
      List.count_cons, List.count_nil]
    omega
  · cases hstep

theorem Placed.curl_of_called {s : Async} (h : Placed s) {a : Nat} (hmain : s.main = .called a) :
    a ∈ s.curl ∧ a ∉ s.freel ∧ a ∉ s.workl := by
  have hcurl : a ∈ s.curl := by
    apply h.carried.mem_iff.mp
    rw [hmain]
    apply List.mem_append_right
    apply List.mem_append_right
    exact List.mem_append_left _ (List.mem_singleton_self a)
  obtain ⟨-, hrest, hfree⟩ := List.nodup_append.mp h.nodup
  obtain ⟨-, -, hwork⟩ := List.nodup_append.mp hrest
  refine ⟨hcurl, fun hmem => ?_, fun hmem => hwork a hmem a hcurl rfl⟩
  exact hfree a hmem a (List.mem_append_right _ hcurl) rfl

theorem Placed.release {s t : Async} (h : Placed s) (hstep : s.release = some t) : Placed t := by
  unfold Async.release at hstep
  split at hstep
  · rename_i a hmain
    cases hstep
    obtain ⟨hcurl, hfree, hwork⟩ := h.curl_of_called hmain
    have hperm : ∀ b, s.curl.count b = (a :: s.curl.erase a).count b :=
      fun b => (List.perm_cons_erase hcurl).count_eq b
    refine h.moved (Nat.le_refl _) (fun b => ?_) fun b => ?_
    · have hb := hperm b
      simp only [nodes, List.erase_of_not_mem hfree, List.erase_of_not_mem hwork,
        List.count_append, List.count_cons, List.count_nil] at hb ⊢
      omega
    · have hb := hperm b
      simp only [held, hmain, EventLoop.holds, Option.toList, List.count_append, List.count_cons,
        List.count_nil] at hb ⊢
      omega
  · cases hstep

theorem held_gone {s : Async} (h : ∀ t ∈ s.threads, t = .gone) : s.held = [] := by
  apply List.filterMap_eq_nil_iff.mpr
  intro t ht
  rw [h t ht]
  rfl

theorem Placed.flush {s t : Async} (hstep : s.flush = some t) : Placed t := by
  unfold Async.flush at hstep
  split at hstep
  · rename_i hjoined
    cases hstep
    refine ⟨List.nodup_nil, nofun, ?_⟩
    have hheld : s.threads.filterMap WorkerThread.holds = [] := held_gone hjoined.2
    simp only [held, hheld]
    exact .nil
  · cases hstep

/-! ### What becomes of a request -/

theorem filterMap_store_of_notMem {f : Work → Option Nat} {mem : Nat → Work} {a : Nat} {w : Work}
    {l : List Nat} (h : a ∉ l) :
    l.filterMap (fun b => f (store a w mem b)) = l.filterMap fun b => f (mem b) := by
  apply List.filterMap_congr
  intro b hb
  have hne : b ≠ a := fun he => h (he ▸ hb)
  exact congrArg f (if_neg hne)

theorem filterMap_store_same {f : Work → Option Nat} (mem : Nat → Work) {a : Nat} {w : Work}
    {l : List Nat} (h : f w = f (mem a)) :
    l.filterMap (fun b => f (store a w mem b)) = l.filterMap fun b => f (mem b) := by
  apply List.filterMap_congr
  intro b _
  unfold store
  split
  · rename_i he
    rw [he]
    exact h
  · rfl

/-- One work loses what `f` tells of it. -/
theorem filterMap_store_none {f : Work → Option Nat} (mem : Nat → Work) {a : Nat} {w : Work}
    {l : List Nat} (hnodup : l.Nodup) (ha : a ∈ l) (h : f w = none) :
    (l.filterMap fun b => f (mem b)).Perm
      ((f (mem a)).toList ++ l.filterMap fun b => f (store a w mem b)) := by
  have hperm := List.perm_cons_erase ha
  have hmem : a ∉ l.erase a := hnodup.not_mem_erase
  have hafter := hperm.filterMap fun b => f (store a w mem b)
  have hself : f (store a w mem a) = none := (congrArg f (if_pos rfl)).trans h
  rw [List.filterMap_cons_none (f := fun b => f (store a w mem b)) hself,
    filterMap_store_of_notMem hmem] at hafter
  have hbefore := hperm.filterMap fun b => f (mem b)
  refine hbefore.trans ?_
  cases hf : f (mem a) with
  | none =>
    rw [List.filterMap_cons_none (f := fun b => f (mem b)) hf]
    exact hafter.symm
  | some r =>
    rw [List.filterMap_cons_some (f := fun b => f (mem b)) hf]
    exact hafter.symm.cons r

/-- The requests that the works in the lists still carry, with their callbacks or their tasks. -/
def pending (f : Work → Option Nat) (s : Async) : List Nat :=
  (s.workl ++ s.curl).filterMap fun a => f (s.mem a)

/-- Each request is waiting, was served or was taken away. -/
structure Counted (s : Async) : Prop where
  calls : (s.pending Work.caller ++ (s.called.map Prod.fst ++ s.cancelled)).Perm s.asked
  tasks : (s.pending Work.task ++ (s.worked.map Prod.fst ++ s.dropped)).Perm s.laden
  asked : s.asked.Nodup ∧ ∀ r ∈ s.asked, r ≤ s.requests
  laden : s.laden.Nodup ∧ ∀ r ∈ s.laden, r ≤ s.requests

theorem counted_alloc (workers : Nat) : Counted (alloc workers) :=
  ⟨.nil, .nil, ⟨List.nodup_nil, nofun⟩, List.nodup_nil, nofun⟩

theorem pending_reAsync {s : Async} (h : Placed s) (id : Int) (workh cb : Bool)
    (f : Work → Option Nat) : ((s.reAsync id workh cb).pending f).Perm
      ((f { s.mem (s.freel.headD s.next) with
        workh := workh, cb := cb, arg := s.requests + 1, id := id }).toList ++ s.pending f) := by
  have hunused : s.freel.headD s.next ∉ s.workl ++ s.curl :=
    fun hmem => h.unused (List.mem_append_right _ hmem)
  have hperm : ((s.workl ++ [s.freel.headD s.next]) ++ s.curl).Perm
      (s.freel.headD s.next :: (s.workl ++ s.curl)) := by
    rw [List.append_assoc]
    exact List.perm_middle
  have hfiltered := hperm.filterMap fun a => f ((s.reAsync id workh cb).mem a)
  refine hfiltered.trans ?_
  have hself : (s.reAsync id workh cb).mem (s.freel.headD s.next) =
      { s.mem (s.freel.headD s.next) with
        workh := workh, cb := cb, arg := s.requests + 1, id := id } := if_pos rfl
  have hrest : (s.workl ++ s.curl).filterMap (fun a => f ((s.reAsync id workh cb).mem a)) =
      s.pending f := filterMap_store_of_notMem hunused
  rw [List.filterMap_cons, hself, hrest]
  split
  · rename_i hf
    rw [hf]
    exact .refl _
  · rename_i r hf
    rw [hf]
    exact .refl _

theorem nodup_concat_succ {l : List Nat} {n : Nat} (h : l.Nodup ∧ ∀ r ∈ l, r ≤ n) :
    (l ++ [n + 1]).Nodup ∧ ∀ r ∈ l ++ [n + 1], r ≤ n + 1 := by
  refine ⟨List.nodup_append.mpr ⟨h.1, List.nodup_cons.mpr ⟨nofun, List.nodup_nil⟩, ?_⟩, ?_⟩
  · intro a ha b hb he
    have hle : a ≤ n := h.2 a ha
    rw [he, List.mem_singleton.mp hb] at hle
    exact Nat.not_succ_le_self n hle
  · intro r hr
    rcases List.mem_append.mp hr with hr | hr
    · exact Nat.le_succ_of_le (h.2 r hr)
    · exact Nat.le_of_eq (List.mem_singleton.mp hr)

theorem Counted.reAsync {s : Async} (h : Counted s) (hplaced : Placed s) (id : Int)
    (workh cb : Bool) : Counted (s.reAsync id workh cb) := by
  have hle : ∀ l : List Nat, (l.Nodup ∧ ∀ r ∈ l, r ≤ s.requests) →
      l.Nodup ∧ ∀ r ∈ l, r ≤ s.requests + 1 :=
    fun l hl => ⟨hl.1, fun r hr => Nat.le_succ_of_le (hl.2 r hr)⟩
  refine ⟨?_, ?_, ?_, ?_⟩
  · apply List.perm_iff_count.mpr
    intro r
    have hpending := (pending_reAsync hplaced id workh cb Work.caller).count_eq r
    have hcalls := h.calls.count_eq r
    cases cb <;>
      simp only [Work.caller, Async.reAsync, Option.toList, List.count_append, List.count_cons,
        List.count_nil, if_true, if_false, Bool.false_eq_true] at hpending hcalls ⊢ <;> omega
  · apply List.perm_iff_count.mpr
    intro r
    have hpending := (pending_reAsync hplaced id workh cb Work.task).count_eq r
    have htasks := h.tasks.count_eq r
    cases workh <;>
      simp only [Work.task, Async.reAsync, Option.toList, List.count_append, List.count_cons,
        List.count_nil, if_true, if_false, Bool.false_eq_true] at hpending htasks ⊢ <;> omega
  · cases cb with
    | true => exact nodup_concat_succ h.asked
    | false => exact hle s.asked h.asked
  · cases workh with
    | true => exact nodup_concat_succ h.laden
    | false => exact hle s.laden h.laden

/-- What the works that are hit carry is taken away, and nothing else. -/
theorem pending_cancel (s : Async) (id : Int) {f : Work → Option Nat}
    (hf : ∀ w : Work, f w.cancelled = none) :
    (s.pending f).Perm
      (((s.hit id).filterMap fun a => f (s.mem a)) ++ (s.cancel id).pending f) := by
  have hspared : ∀ l : List Nat, (∀ a ∈ l, s.hasId id a = true → a ∈ s.hit id) →
      l.filterMap (fun a => f ((s.cancel id).mem a)) =
        (l.filter fun a => !s.hasId id a).filterMap fun a => f (s.mem a) := by
    intro l hl
    rw [List.filterMap_filter]
    apply List.filterMap_congr
    intro a ha
    simp only [Async.cancel]
    cases hid : s.hasId id a with
    | true =>
      rw [if_pos (hl a ha hid), hf]
      rfl
    | false =>
      have hnot : a ∉ s.hit id := by
        intro hmem
        have hyes : s.hasId id a = true := by
          rcases List.mem_append.mp hmem with hmem | hmem
          · exact (List.mem_filter.mp hmem).2
          · exact (List.mem_filter.mp hmem).2
        rw [hid] at hyes
        cases hyes
      rw [if_neg hnot]
      rfl
  have hworkl := hspared (s.workl.filter fun a => !s.hasId id a) (by
    intro a ha hid
    have hno := (List.mem_filter.mp ha).2
    rw [hid] at hno
    cases hno)
  have hcurl := hspared s.curl fun a ha hid =>
    List.mem_append_right _ (List.mem_filter.mpr ⟨ha, hid⟩)
  rw [List.filter_filter] at hworkl
  simp only [Bool.and_self] at hworkl
  apply List.perm_iff_count.mpr
  intro r
  have hw := ((List.filter_append_perm (s.hasId id) s.workl).filterMap
    fun a => f (s.mem a)).count_eq r
  have hc := ((List.filter_append_perm (s.hasId id) s.curl).filterMap
    fun a => f (s.mem a)).count_eq r
  have hafter : (s.cancel id).pending f =
      ((s.workl.filter fun a => !s.hasId id a).filterMap fun a => f (s.mem a)) ++
        (s.curl.filter fun a => !s.hasId id a).filterMap fun a => f (s.mem a) := by
    rw [← hworkl, ← hcurl, ← List.filterMap_append]
    rfl
  rw [hafter]
  simp only [pending, hit, List.filterMap_append, List.count_append] at hw hc ⊢
  omega

theorem Counted.cancel {s : Async} (h : Counted s) (id : Int) : Counted (s.cancel id) := by
  refine ⟨?_, ?_, h.asked, h.laden⟩
  · apply List.perm_iff_count.mpr
    intro r
    have hpending := (pending_cancel s id (f := Work.caller) fun w => rfl).count_eq r
    have hcalls := h.calls.count_eq r
    have hsame : (s.cancel id).called = s.called := rfl
    have hgone : (s.cancel id).cancelled =
      s.cancelled ++ (s.hit id).filterMap fun a => (s.mem a).caller := rfl
    rw [hsame, hgone]
    simp only [List.count_append] at hpending hcalls ⊢
    change _ = s.asked.count r
    omega
  · apply List.perm_iff_count.mpr
    intro r
    have hpending := (pending_cancel s id (f := Work.task) fun w => rfl).count_eq r
    have htasks := h.tasks.count_eq r
    have hsame : (s.cancel id).worked = s.worked := rfl
    have hgone : (s.cancel id).dropped =
      s.dropped ++ (s.hit id).filterMap fun a => (s.mem a).task := rfl
    rw [hsame, hgone]
    simp only [List.count_append] at hpending htasks ⊢
    change _ = s.laden.count r
    omega

/-- A step that serves nothing. -/
theorem Counted.congr {s t : Async} (h : Counted s)
    (hpending : ∀ f : Work → Option Nat, (t.pending f).Perm (s.pending f))
    (hcalls : t.called = s.called ∧ t.cancelled = s.cancelled ∧ t.asked = s.asked)
    (htasks : t.worked = s.worked ∧ t.dropped = s.dropped ∧ t.laden = s.laden)
    (hrequests : t.requests = s.requests) : Counted t := by
  obtain ⟨hcalled, hcancelled, hasked⟩ := hcalls
  obtain ⟨hworked, hdropped, hladen⟩ := htasks
  refine ⟨?_, ?_, ?_, ?_⟩
  · rw [hcalled, hcancelled, hasked]
    exact ((hpending Work.caller).append_right _).trans h.calls
  · rw [hworked, hdropped, hladen]
    exact ((hpending Work.task).append_right _).trans h.tasks
  · rw [hasked, hrequests]
    exact h.asked
  · rw [hladen, hrequests]
    exact h.laden

theorem Counted.take {s t : Async} (h : Counted s) {i : Nat} (hstep : s.take i = some t) :
    Counted t := by
  unfold Async.take at hstep
  split at hstep
  · rename_i a rest hthread hworkl
    split at hstep
    · cases hstep
    · cases hstep
      refine h.congr (fun f => ?_) ⟨rfl, rfl, rfl⟩ ⟨rfl, rfl, rfl⟩ rfl
      unfold pending
      rw [hworkl]
      apply List.Perm.filterMap
      rw [List.cons_append, ← List.append_assoc]
      exact List.perm_append_singleton a _
  · cases hstep

theorem Counted.work {s t : Async} (h : Counted s) (hplaced : Placed s) {i : Nat} {err : Int}
    (hstep : s.work i err = some t) : Counted t := by
  unfold Async.work at hstep
  split at hstep
  · rename_i a hthread
    have hcurl : a ∈ s.curl := hplaced.curl_of_held (mem_held hthread rfl)
    have hnodup : (s.workl ++ s.curl).Nodup := (List.nodup_append.mp hplaced.nodup).2.1
    simp only at hstep
    split at hstep
    · rename_i hset
      cases hstep
      refine ⟨?_, ?_, h.asked, h.laden⟩
      · have hsame := filterMap_store_same s.mem (f := Work.caller) (a := a)
          (w := { s.mem a with workh := false, err := err }) (l := s.workl ++ s.curl) rfl
        change ((s.workl ++ s.curl).filterMap _ ++ _).Perm s.asked
        rw [hsame]
        exact h.calls
      · have hmoved := filterMap_store_none s.mem (f := Work.task)
          (w := { s.mem a with workh := false, err := err }) hnodup
          (List.mem_append_right s.workl hcurl) rfl
        apply List.perm_iff_count.mpr
        intro r
        have htask : (s.mem a).task = some (s.mem a).arg := if_pos hset
        have hcount := hmoved.count_eq r
        have htasks := h.tasks.count_eq r
        rw [htask] at hcount
        simp only [pending, Option.toList, List.map_append, List.map_cons, List.map_nil,
          List.count_append, List.count_cons, List.count_nil] at hcount htasks ⊢
        omega
    · cases hstep
      exact h.congr (fun f => .refl _) ⟨rfl, rfl, rfl⟩ ⟨rfl, rfl, rfl⟩ rfl
  · cases hstep

theorem Counted.push {s t : Async} (h : Counted s) {i : Nat} {written : Bool}
    (hstep : s.push i written = some t) : Counted t := by
  unfold Async.push at hstep
  split at hstep
  · simp only at hstep
    split at hstep <;>
      · cases hstep
        exact h.congr (fun f => .refl _) ⟨rfl, rfl, rfl⟩ ⟨rfl, rfl, rfl⟩ rfl
  · cases hstep

theorem Counted.leave {s t : Async} (h : Counted s) {i : Nat} (hstep : s.leave i = some t) :
    Counted t := by
  unfold Async.leave at hstep
  split at hstep
  · cases hstep
    exact h.congr (fun f => .refl _) ⟨rfl, rfl, rfl⟩ ⟨rfl, rfl, rfl⟩ rfl
  · cases hstep

theorem Counted.queueh {s t : Async} (h : Counted s) (hplaced : Placed s)
    (hstep : s.queueh = some t) : Counted t := by
  unfold Async.queueh at hstep
  split at hstep
  · rename_i a rest hmain hmqueue
    cases hstep
    have hcurl : a ∈ s.curl := by
      apply hplaced.carried.mem_iff.mp
      rw [hmqueue]
      exact List.mem_cons_self
    have hnodup : (s.workl ++ s.curl).Nodup := (List.nodup_append.mp hplaced.nodup).2.1
    refine ⟨?_, ?_, h.asked, h.laden⟩
    · have hmoved := filterMap_store_none s.mem (f := Work.caller)
        (w := { s.mem a with cb := false }) hnodup (List.mem_append_right s.workl hcurl) rfl
      apply List.perm_iff_count.mpr
      intro r
      have hcount := hmoved.count_eq r
      have hcalls := h.calls.count_eq r
      cases hcb : (s.mem a).cb with
      | true =>
        rw [show (s.mem a).caller = some (s.mem a).arg from if_pos hcb] at hcount
        simp only [pending, Option.toList, if_true, List.map_append, List.map_cons, List.map_nil,
          List.count_append, List.count_cons, List.count_nil] at hcount hcalls ⊢
        omega
      | false =>
        have hnone : (s.mem a).caller = none := if_neg (by simp [hcb])
        rw [hnone] at hcount
        simp only [pending, Option.toList, Bool.false_eq_true, if_false, List.count_append,
          List.count_nil] at hcount hcalls ⊢
        omega
    · have hsame := filterMap_store_same s.mem (f := Work.task) (a := a)
        (w := { s.mem a with cb := false }) (l := s.workl ++ s.curl) rfl
      change ((s.workl ++ s.curl).filterMap _ ++ _).Perm s.laden
      rw [hsame]
      exact h.tasks
  · cases hstep

/-- The work that `queueh` is done with carries nothing any more. -/
def Quiet (s : Async) : Prop :=
  ∀ a, s.main = .called a → (s.mem a).cb = false ∧ (s.mem a).workh = false

theorem Counted.release {s t : Async} (h : Counted s) (hplaced : Placed s) (hquiet : Quiet s)
    (hstep : s.release = some t) : Counted t := by
  unfold Async.release at hstep
  split at hstep
  · rename_i a hmain
    cases hstep
    obtain ⟨hcurl, -, hwork⟩ := hplaced.curl_of_called hmain
    obtain ⟨hcb, hworkh⟩ := hquiet a hmain
    have hpending : ∀ f : Work → Option Nat, f (s.mem a) = none →
        ((s.workl.erase a ++ s.curl.erase a).filterMap fun b => f (s.mem b)).Perm
          (s.pending f) := by
      intro f hf
      have hperm : (s.workl ++ s.curl).Perm (a :: (s.workl ++ s.curl.erase a)) :=
        ((List.perm_cons_erase hcurl).append_left s.workl).trans List.perm_middle
      have hfiltered := hperm.filterMap fun b => f (s.mem b)
      rw [List.filterMap_cons_none (f := fun b => f (s.mem b)) hf] at hfiltered
      rw [List.erase_of_not_mem hwork]
      exact hfiltered.symm
    refine ⟨?_, ?_, h.asked, h.laden⟩
    · have hnone : (s.mem a).caller = none := if_neg (by simp [hcb])
      exact ((hpending Work.caller hnone).append_right _).trans h.calls
    · have hnone : (s.mem a).task = none := if_neg (by simp [hworkh])
      exact ((hpending Work.task hnone).append_right _).trans h.tasks
  · cases hstep

theorem Counted.flush {s t : Async} (h : Counted s) (hstep : s.flush = some t) : Counted t := by
  unfold Async.flush at hstep
  split at hstep
  · cases hstep
    have hcalled : ((s.workl ++ s.curl).filterMap fun a =>
        (s.mem a).caller.map fun r => (r, ecanceled)).map Prod.fst = s.pending Work.caller := by
      rw [List.map_filterMap]
      apply List.filterMap_congr
      intro a _
      cases (s.mem a).caller <;> rfl
    refine ⟨?_, ?_, h.asked, h.laden⟩
    · apply List.perm_iff_count.mpr
      intro r
      have hcalls := h.calls.count_eq r
      rw [List.map_append, hcalled]
      simp only [pending, List.append_nil, List.filterMap_nil, List.nil_append,
        List.count_append] at hcalls ⊢
      omega
    · apply List.perm_iff_count.mpr
      intro r
      have htasks := h.tasks.count_eq r
      simp only [pending, List.append_nil, List.filterMap_nil, List.nil_append,
        List.count_append] at htasks ⊢
      omega
  · cases hstep

/-! ### Whose result a callback gets -/

/-- The handler of the work's request is still to be called. -/
def Ready (s : Async) (a : Nat) : Prop :=
  (s.mem a).cb = true → (s.mem a).arg ∈ s.laden → (s.mem a).workh = true

/-- It was called, and the work has its result. -/
def Spent (s : Async) (a : Nat) : Prop :=
  (s.mem a).workh = false ∧ ((s.mem a).cb = true → (s.mem a).arg ∈ s.laden →
    ((s.mem a).arg, (s.mem a).err) ∈ s.worked)

structure Honest (s : Async) : Prop where
  waiting : ∀ a ∈ s.workl, s.Ready a
  took : ∀ i a : Nat, s.threads[i]? = some (.took a) → s.Ready a
  ran : ∀ i a : Nat, s.threads[i]? = some (.ran a) → s.Spent a
  queued : ∀ a ∈ s.mqueue, s.Spent a
  quiet : s.Quiet
  called : ∀ p ∈ s.called, p.1 ∈ s.laden →
    p ∈ s.worked ∨ p.2 = ecanceled ∧ s.main = .destroyed

theorem honest_alloc (workers : Nat) : Honest (alloc workers) := by
  have hidle : ∀ (i : Nat) (t : WorkerThread), (alloc workers).threads[i]? = some t → t = .idle :=
    fun i t h => List.eq_of_mem_replicate (List.mem_of_getElem? h)
  refine ⟨nofun, fun i a h => ?_, fun i a h => ?_, nofun, nofun, nofun⟩
  · cases hidle i _ h
  · cases hidle i _ h

/-- Two threads never have the same work in their hands. -/
theorem Placed.distinct {s : Async} (h : Placed s) {i j a b : Nat} {t u : WorkerThread}
    (hi : s.threads[i]? = some t) (hj : s.threads[j]? = some u) (hne : j ≠ i)
    (ht : t.holds = some a) (hu : u.holds = some b) : b ≠ a := by
  have hnodup : s.held.Nodup := by
    have hcarried := h.carried.nodup_iff.mpr
      (List.nodup_append.mp (List.nodup_append.mp h.nodup).2.1).2.1
    exact (List.nodup_append.mp (List.nodup_append.mp hcarried).2.1).1
  obtain ⟨hlt, hget⟩ := List.getElem?_eq_some_iff.mp hi
  have hperm := (List.getElem_cons_eraseIdx_perm hlt).symm.filterMap WorkerThread.holds
  rw [List.filterMap_cons_some (f := WorkerThread.holds) (hget ▸ ht)] at hperm
  have hrest := (List.nodup_cons.mp (hperm.nodup_iff.mp hnodup)).1
  intro he
  apply hrest
  rw [← he]
  exact List.mem_filterMap.mpr ⟨u, List.mem_eraseIdx_iff_getElem?.mpr ⟨j, hne, hj⟩, hu⟩

theorem Counted.arg_le {s : Async} (h : Counted s) {a : Nat} (ha : a ∈ s.workl ++ s.curl)
    (hcb : (s.mem a).cb = true) : (s.mem a).arg ≤ s.requests := by
  apply h.asked.2
  apply h.calls.mem_iff.mp
  apply List.mem_append_left
  exact List.mem_filterMap.mpr ⟨a, ha, if_pos hcb⟩

section Request
variable {s : Async} {id : Int} {workh cb : Bool} {a : Nat}

theorem mem_reAsync (hplaced : Placed s) (ha : a ∈ s.workl ++ s.curl) :
    (s.reAsync id workh cb).mem a = s.mem a := by
  apply if_neg
  rintro rfl
  exact hplaced.unused (List.mem_append_right _ ha)

theorem laden_reAsync (hcounted : Counted s) (ha : a ∈ s.workl ++ s.curl)
    (hcb : (s.mem a).cb = true) (harg : (s.mem a).arg ∈ (s.reAsync id workh cb).laden) :
    (s.mem a).arg ∈ s.laden := by
  have hle := hcounted.arg_le ha hcb
  cases workh with
  | false => exact harg
  | true =>
    rcases List.mem_append.mp harg with harg | harg
    · exact harg
    · rw [List.mem_singleton.mp harg] at hle
      exact absurd hle (Nat.not_succ_le_self _)

theorem Ready.reAsync (h : s.Ready a) (hplaced : Placed s) (hcounted : Counted s)
    (ha : a ∈ s.workl ++ s.curl) : (s.reAsync id workh cb).Ready a := by
  unfold Ready
  rw [mem_reAsync hplaced ha]
  exact fun hcb harg => h hcb (laden_reAsync hcounted ha hcb harg)

theorem Spent.reAsync (h : s.Spent a) (hplaced : Placed s) (hcounted : Counted s)
    (ha : a ∈ s.workl ++ s.curl) : (s.reAsync id workh cb).Spent a := by
  unfold Spent
  rw [mem_reAsync hplaced ha]
  exact ⟨h.1, fun hcb harg => h.2 hcb (laden_reAsync hcounted ha hcb harg)⟩

theorem mem_curl_queued (hplaced : Placed s) (ha : a ∈ s.mqueue) : a ∈ s.curl :=
  hplaced.carried.mem_iff.mp (List.mem_append_left _ ha)

theorem Honest.reAsync (h : Honest s) (hplaced : Placed s) (hcounted : Counted s) :
    Honest (s.reAsync id workh cb) := by
  have hcurl : ∀ {b}, b ∈ s.curl → b ∈ s.workl ++ s.curl := List.mem_append_right _
  refine ⟨fun b hb => ?_, fun i b hi => ?_, fun i b hi => ?_, fun b hb => ?_, fun b hmain => ?_,
    fun p hp harg => ?_⟩
  · rcases List.mem_append.mp hb with hb | hb
    · exact (h.waiting b hb).reAsync hplaced hcounted (List.mem_append_left _ hb)
    · rw [List.mem_singleton.mp hb]
      have hself : (s.reAsync id workh cb).mem (s.freel.headD s.next) =
          { s.mem (s.freel.headD s.next) with
            workh := workh, cb := cb, arg := s.requests + 1, id := id } := if_pos rfl
      unfold Ready
      rw [hself]
      intro _ hnew
      cases workh with
      | true => rfl
      | false => exact absurd (hcounted.laden.2 _ hnew) (Nat.not_succ_le_self _)
  · exact (h.took i b hi).reAsync hplaced hcounted (hcurl (hplaced.curl_of_held (mem_held hi rfl)))
  · exact (h.ran i b hi).reAsync hplaced hcounted (hcurl (hplaced.curl_of_held (mem_held hi rfl)))
  · exact (h.queued b hb).reAsync hplaced hcounted (hcurl (mem_curl_queued hplaced hb))
  · rw [mem_reAsync hplaced (hcurl (hplaced.curl_of_called hmain).1)]
    exact h.quiet b hmain
  · apply h.called p hp
    have hle : p.1 ≤ s.requests := by
      apply hcounted.asked.2
      apply hcounted.calls.mem_iff.mp
      apply List.mem_append_right
      exact List.mem_append_left _ (List.mem_map_of_mem hp)
    cases workh with
    | false => exact harg
    | true =>
      rcases List.mem_append.mp harg with harg | harg
      · exact harg
      · rw [List.mem_singleton.mp harg] at hle
        exact absurd hle (Nat.not_succ_le_self _)

theorem Ready.cancel (h : s.Ready a) : (s.cancel id).Ready a := by
  unfold Ready Async.cancel
  simp only
  split
  · exact nofun
  · exact h

theorem Spent.cancel (h : s.Spent a) : (s.cancel id).Spent a := by
  unfold Spent Async.cancel
  simp only
  split
  · exact ⟨rfl, nofun⟩
  · exact h

theorem Honest.cancel (h : Honest s) : Honest (s.cancel id) := by
  refine ⟨fun b hb => ?_, fun i b hi => (h.took i b hi).cancel,
    fun i b hi => (h.ran i b hi).cancel, fun b hb => (h.queued b hb).cancel,
    fun b hmain => ?_, h.called⟩
  · exact (h.waiting b (List.mem_filter.mp hb).1).cancel
  · obtain ⟨hcb, hworkh⟩ := h.quiet b hmain
    change (if b ∈ s.hit id then (s.mem b).cancelled else s.mem b).cb = false ∧
      (if b ∈ s.hit id then (s.mem b).cancelled else s.mem b).workh = false
    split
    · exact ⟨rfl, rfl⟩
    · exact ⟨hcb, hworkh⟩

end Request

/-- What thread `j` does once thread `i` is at `u`. -/
theorem get_set {l : List WorkerThread} {i j : Nat} {u v : WorkerThread}
    (h : (l.set i u)[j]? = some v) : v = u ∨ j ≠ i ∧ l[j]? = some v := by
  by_cases hij : i = j
  · rw [List.getElem?_set, if_pos hij] at h
    split at h
    · exact .inl (Option.some.inj h).symm
    · cases h
  · rw [List.getElem?_set_ne hij] at h
    exact .inr ⟨fun he => hij he.symm, h⟩

theorem Honest.take {s t : Async} (h : Honest s) {i : Nat} (hstep : s.take i = some t) :
    Honest t := by
  unfold Async.take at hstep
  split at hstep
  · rename_i a rest hthread hworkl
    split at hstep
    · cases hstep
    · cases hstep
      refine ⟨fun b hb => ?_, fun j b hj => ?_, fun j b hj => ?_, h.queued, h.quiet, h.called⟩
      · exact h.waiting b (hworkl ▸ List.mem_cons_of_mem a hb)
      · rcases get_set hj with he | ⟨-, hj⟩
        · cases he
          exact h.waiting a (hworkl ▸ List.mem_cons_self)
        · exact h.took j b hj
      · rcases get_set hj with he | ⟨-, hj⟩
        · cases he
        · exact h.ran j b hj
  · cases hstep

theorem Ready.of_mem {s t : Async} {b : Nat} (h : s.Ready b) (hmem : t.mem b = s.mem b)
    (hladen : t.laden = s.laden) : t.Ready b := by
  unfold Ready
  rw [hmem, hladen]
  exact h

theorem Spent.of_mem {s t : Async} {b : Nat} (h : s.Spent b) (hmem : t.mem b = s.mem b)
    (hladen : t.laden = s.laden) (hworked : ∀ p ∈ s.worked, p ∈ t.worked) : t.Spent b := by
  unfold Spent
  rw [hmem, hladen]
  exact ⟨h.1, fun hcb harg => hworked _ (h.2 hcb harg)⟩

theorem Honest.work {s t : Async} (h : Honest s) (hplaced : Placed s) {i : Nat} {err : Int}
    (hstep : s.work i err = some t) : Honest t := by
  unfold Async.work at hstep
  split at hstep
  · rename_i a hthread
    have hheld := mem_held hthread rfl
    have hcurl : a ∈ s.curl := hplaced.curl_of_held hheld
    obtain ⟨-, hlists, -⟩ := List.nodup_append.mp hplaced.nodup
    obtain ⟨-, hnodup, hworkl⟩ := List.nodup_append.mp hlists
    obtain ⟨-, hrest, hmqueue⟩ := List.nodup_append.mp (hplaced.carried.nodup_iff.mpr hnodup)
    obtain ⟨-, -, hothers⟩ := List.nodup_append.mp hrest
    simp only at hstep
    split at hstep
    · rename_i hset
      cases hstep
      have hworked : ∀ p ∈ s.worked, p ∈ s.worked ++ [((s.mem a).arg, err)] :=
        fun p hp => List.mem_append_left _ hp
      refine ⟨fun b hb => ?_, fun j b hj => ?_, fun j b hj => ?_, fun b hb => ?_,
        fun b hmain => ?_, fun p hp harg => ?_⟩
      · exact (h.waiting b hb).of_mem (if_neg (hworkl b hb a hcurl)) rfl
      · rcases get_set hj with he | ⟨hne, hj⟩
        · cases he
        · exact (h.took j b hj).of_mem (if_neg (hplaced.distinct hthread hj hne rfl rfl)) rfl
      · rcases get_set hj with he | ⟨hne, hj⟩
        · cases he
          have hself : store a { s.mem a with workh := false, err := err } s.mem a =
              { s.mem a with workh := false, err := err } := if_pos rfl
          unfold Spent
          simp only
          rw [hself]
          exact ⟨rfl, fun _ _ => List.mem_append_right _ (List.mem_singleton_self _)⟩
        · exact (h.ran j b hj).of_mem (if_neg (hplaced.distinct hthread hj hne rfl rfl)) rfl
            hworked
      · have hne : b ≠ a := hmqueue b hb a (List.mem_append_left _ hheld)
        exact (h.queued b hb).of_mem (if_neg hne) rfl hworked
      · have hne : b ≠ a := by
          rintro rfl
          refine hothers b hheld b ?_ rfl
          rw [show s.main = .called b from hmain]
          exact List.mem_cons_self
        have hmem : store a { s.mem a with workh := false, err := err } s.mem b = s.mem b :=
          if_neg hne
        simp only
        rw [hmem]
        exact h.quiet b hmain
      · rcases h.called p hp harg with hp | hcanceled
        · exact .inl (hworked p hp)
        · exact .inr hcanceled
    · rename_i hset
      cases hstep
      refine ⟨h.waiting, fun j b hj => ?_, fun j b hj => ?_, h.queued, h.quiet, h.called⟩
      · rcases get_set hj with he | ⟨-, hj⟩
        · cases he
        · exact h.took j b hj
      · rcases get_set hj with he | ⟨-, hj⟩
        · cases he
          have hready := h.took i a hthread
          exact ⟨Bool.eq_false_iff.mpr hset, fun hcb harg => absurd (hready hcb harg) hset⟩
        · exact h.ran j b hj
  · cases hstep

theorem Honest.push {s t : Async} (h : Honest s) {i : Nat} {written : Bool}
    (hstep : s.push i written = some t) : Honest t := by
  unfold Async.push at hstep
  split at hstep
  · rename_i a hthread
    have htook : ∀ j b : Nat, (s.threads.set i .idle)[j]? = some (.took b) → s.Ready b := by
      intro j b hj
      rcases get_set hj with he | ⟨-, hj⟩
      · cases he
      · exact h.took j b hj
    have hran : ∀ j b : Nat, (s.threads.set i .idle)[j]? = some (.ran b) → s.Spent b := by
      intro j b hj
      rcases get_set hj with he | ⟨-, hj⟩
      · cases he
      · exact h.ran j b hj
    simp only at hstep
    split at hstep
    · cases hstep
      refine ⟨h.waiting, htook, hran, fun b hb => ?_, h.quiet, h.called⟩
      rcases List.mem_append.mp hb with hb | hb
      · exact h.queued b hb
      · rw [List.mem_singleton.mp hb]
        exact h.ran i a hthread
    · cases hstep
      exact ⟨h.waiting, htook, hran, h.queued, h.quiet, h.called⟩
  · cases hstep

theorem Honest.leave {s t : Async} (h : Honest s) {i : Nat} (hstep : s.leave i = some t) :
    Honest t := by
  unfold Async.leave at hstep
  split at hstep
  · cases hstep
    refine ⟨h.waiting, fun j b hj => ?_, fun j b hj => ?_, h.queued, h.quiet, h.called⟩
    · rcases get_set hj with he | ⟨-, hj⟩
      · cases he
      · exact h.took j b hj
    · rcases get_set hj with he | ⟨-, hj⟩
      · cases he
      · exact h.ran j b hj
  · cases hstep

theorem Honest.queueh {s t : Async} (h : Honest s) (hstep : s.queueh = some t) : Honest t := by
  unfold Async.queueh at hstep
  split at hstep
  · rename_i a rest hmain hmqueue
    have hspent : s.Spent a := h.queued a (hmqueue ▸ List.mem_cons_self)
    cases hstep
    have hready : ∀ b, s.Ready b →
        (store a { s.mem a with cb := false } s.mem b).cb = true →
          (store a { s.mem a with cb := false } s.mem b).arg ∈ s.laden →
            (store a { s.mem a with cb := false } s.mem b).workh = true := by
      intro b hb
      unfold store
      split
      · exact nofun
      · exact hb
    have hother : ∀ b, s.Spent b →
        (store a { s.mem a with cb := false } s.mem b).workh = false ∧
          ((store a { s.mem a with cb := false } s.mem b).cb = true →
            (store a { s.mem a with cb := false } s.mem b).arg ∈ s.laden →
              ((store a { s.mem a with cb := false } s.mem b).arg,
                (store a { s.mem a with cb := false } s.mem b).err) ∈ s.worked) := by
      intro b hb
      unfold store
      split
      · exact ⟨hspent.1, nofun⟩
      · exact hb
    refine ⟨fun b hb => hready b (h.waiting b hb), fun j b hj => hready b (h.took j b hj),
      fun j b hj => hother b (h.ran j b hj), fun b hb => ?_, fun b hb => ?_, fun p hp harg => ?_⟩
    · exact hother b (h.queued b (hmqueue ▸ List.mem_cons_of_mem a hb))
    · cases hb
      have hself : store a { s.mem a with cb := false } s.mem a = { s.mem a with cb := false } :=
        if_pos rfl
      simp only
      rw [hself]
      exact ⟨rfl, hspent.1⟩
    · left
      have hold : ∀ p ∈ s.called, p.1 ∈ s.laden → p ∈ s.worked := by
        intro p hp harg
        rcases h.called p hp harg with hworked | ⟨-, hdestroyed⟩
        · exact hworked
        · rw [hmain] at hdestroyed
          cases hdestroyed
      simp only at hp
      split at hp
      · rename_i hcb
        rcases List.mem_append.mp hp with hp | hp
        · exact hold p hp harg
        · rw [List.mem_singleton.mp hp] at harg ⊢
          exact hspent.2 hcb harg
      · exact hold p hp harg
  · cases hstep

theorem Honest.release {s t : Async} (h : Honest s) (hstep : s.release = some t) : Honest t := by
  unfold Async.release at hstep
  split at hstep
  · rename_i a hmain
    cases hstep
    refine ⟨fun b hb => h.waiting b (List.mem_of_mem_erase hb), h.took, h.ran, h.queued, nofun,
      fun p hp harg => ?_⟩
    rcases h.called p hp harg with hworked | ⟨-, hdestroyed⟩
    · exact .inl hworked
    · rw [hmain] at hdestroyed
      cases hdestroyed
  · cases hstep

theorem Honest.flush {s t : Async} (h : Honest s) (hstep : s.flush = some t) : Honest t := by
  unfold Async.flush at hstep
  split at hstep
  · rename_i hjoined
    cases hstep
    have hgone : ∀ (j : Nat) (u : WorkerThread), s.threads[j]? = some u → u = .gone :=
      fun j u hj => hjoined.2 u (List.mem_of_getElem? hj)
    refine ⟨nofun, fun j b hj => ?_, fun j b hj => ?_, nofun, nofun, fun p hp harg => ?_⟩
    · cases hgone j _ hj
    · cases hgone j _ hj
    · rcases List.mem_append.mp hp with hp | hp
      · rcases h.called p hp harg with hworked | ⟨-, hdestroyed⟩
        · exact .inl hworked
        · rw [hjoined.1] at hdestroyed
          cases hdestroyed
      · obtain ⟨a, -, ha⟩ := List.mem_filterMap.mp hp
        obtain ⟨r, -, rfl⟩ := Option.map_eq_some_iff.mp ha
        exact .inr ⟨rfl, rfl⟩
  · cases hstep

/-! ### Every run -/

structure Sound (s : Async) : Prop where
  placed : Placed s
  counted : Counted s
  honest : Honest s

theorem Sound.step {s t : Async} {a : AsyncAction} (h : Sound s) (hstep : s.step a = some t) :
    Sound t := by
  obtain ⟨hplaced, hcounted, hhonest⟩ := h
  cases a with
  | reAsync id workh cb =>
    simp only [Async.step] at hstep
    split at hstep
    · cases hstep
      exact ⟨hplaced.reAsync id workh cb, hcounted.reAsync hplaced id workh cb,
        hhonest.reAsync hplaced hcounted⟩
    · cases hstep
  | cancel id =>
    simp only [Async.step] at hstep
    split at hstep
    · cases hstep
      exact ⟨hplaced.cancel id, hcounted.cancel id, hhonest.cancel⟩
    · cases hstep
  | take i => exact ⟨hplaced.take hstep, hcounted.take hstep, hhonest.take hstep⟩
  | work i err =>
    exact ⟨hplaced.work hstep, hcounted.work hplaced hstep, hhonest.work hplaced hstep⟩
  | push i written => exact ⟨hplaced.push hstep, hcounted.push hstep, hhonest.push hstep⟩
  | leave i => exact ⟨hplaced.leave hstep, hcounted.leave hstep, hhonest.leave hstep⟩
  | queueh => exact ⟨hplaced.queueh hstep, hcounted.queueh hplaced hstep, hhonest.queueh hstep⟩
  | release =>
    exact ⟨hplaced.release hstep, hcounted.release hplaced hhonest.quiet hstep,
      hhonest.release hstep⟩
  | destroy =>
    simp only [Async.step] at hstep
    split at hstep
    · rename_i hmain
      cases hstep
      refine ⟨?_, ⟨hcounted.calls, hcounted.tasks, hcounted.asked, hcounted.laden⟩, ?_⟩
      · have hcarried := hplaced.carried
        rw [hmain] at hcarried
        exact ⟨hplaced.nodup, hplaced.fresh, hcarried⟩
      · refine ⟨hhonest.waiting, hhonest.took, hhonest.ran, hhonest.queued, nofun,
          fun p hp harg => ?_⟩
        rcases hhonest.called p hp harg with hworked | ⟨-, hdestroyed⟩
        · exact .inl hworked
        · rw [hmain] at hdestroyed
          cases hdestroyed
    · cases hstep
  | flush => exact ⟨.flush hstep, hcounted.flush hstep, hhonest.flush hstep⟩

theorem sound_of_reachable {s : Async} (h : machine.Reachable s) : Sound s := by
  refine h.invariant ?_ fun s a t hs hstep => @Sound.step s t a hs hstep
  rintro _ ⟨workers, rfl⟩
  exact ⟨placed_alloc workers, counted_alloc workers, honest_alloc workers⟩

/-- A work is used again with the result that it had: a request without a handler is called
back with it. -/
example : (machine.run (alloc 1) [.reAsync 5 true true, .take 0, .work 0 7, .push 0 true, .queueh,
    .release, .reAsync 5 false true, .take 0, .work 0 0, .push 0 true, .queueh]).map Async.called =
    some [(1, 7), (2, 7)] := by decide

/-! ### The end of a run -/

theorem ended_step {s t : Async} {a : AsyncAction}
    (h : s.main = .destroyed → s.workl = [] ∧ s.curl = []) (hstep : s.step a = some t)
    (hmain : t.main = .destroyed) : t.workl = [] ∧ t.curl = [] := by
  cases a with
  | reAsync id workh cb =>
    simp only [Async.step] at hstep
    split at hstep
    · rename_i husable
      cases hstep
      rw [usable, show s.main = .destroyed from hmain] at husable
      cases husable
    · cases hstep
  | cancel id =>
    simp only [Async.step] at hstep
    split at hstep
    · rename_i husable
      cases hstep
      rw [usable, show s.main = .destroyed from hmain] at husable
      cases husable
    · cases hstep
  | take i =>
    simp only [Async.step, Async.take] at hstep
    split at hstep
    · rename_i a rest hthread hworkl
      split at hstep
      · cases hstep
      · cases hstep
        rw [(h hmain).1] at hworkl
        cases hworkl
    · cases hstep
  | work i err =>
    simp only [Async.step, Async.work] at hstep
    split at hstep
    · split at hstep
      · cases hstep
        exact h hmain
      · cases hstep
        exact h hmain
    · cases hstep
  | push i written =>
    simp only [Async.step, Async.push] at hstep
    split at hstep
    · split at hstep
      · cases hstep
        exact h hmain
      · cases hstep
        exact h hmain
    · cases hstep
  | leave i =>
    simp only [Async.step, Async.leave] at hstep
    split at hstep
    · rename_i hjoining
      cases hstep
      rw [show s.main = .destroyed from hmain] at hjoining
      cases hjoining
    · cases hstep
  | queueh =>
    simp only [Async.step, Async.queueh] at hstep
    split at hstep
    · cases hstep
      cases hmain
    · cases hstep
  | release =>
    simp only [Async.step, Async.release] at hstep
    split at hstep
    · cases hstep
      cases hmain
    · cases hstep
  | destroy =>
    simp only [Async.step] at hstep
    split at hstep
    · cases hstep
      cases hmain
    · cases hstep
  | flush =>
    simp only [Async.step, Async.flush] at hstep
    split at hstep
    · cases hstep
      exact ⟨rfl, rfl⟩
    · cases hstep

theorem ended_of_reachable {s : Async} (h : machine.Reachable s) (hmain : s.main = .destroyed) :
    s.workl = [] ∧ s.curl = [] := by
  have hended : s.main = .destroyed → s.workl = [] ∧ s.curl = [] := by
    refine h.invariant (P := fun s => s.main = .destroyed → s.workl = [] ∧ s.curl = []) ?_
      fun s a t hs hstep => @ended_step s t a hs hstep
    rintro _ ⟨workers, rfl⟩
    exact nofun
  exact hended hmain

/-- Nothing is left to do, and no message was lost. -/
structure Drained (s : Async) : Prop where
  workl : s.workl = []
  threads : ∀ t ∈ s.threads, t.holds = none
  mqueue : s.mqueue = []
  main : s.main = .loop
  lost : s.lost = []

theorem Drained.curl {s : Async} (h : Drained s) (hplaced : Placed s) : s.curl = [] := by
  have hcarried := hplaced.carried
  have hheld : s.held = [] := List.filterMap_eq_nil_iff.mpr h.threads
  rw [h.mqueue, hheld, h.main, h.lost] at hcarried
  exact hcarried.symm.eq_nil

/-- The requests whose callbacks are still to come, the next one first. -/
def awaited (s : Async) : List Nat :=
  (s.mqueue ++ (s.held ++ s.workl)).filterMap fun a => (s.mem a).caller

structure InOrder (s : Async) : Prop where
  single : s.threads.length ≤ 1
  order : s.main ≠ .destroyed → (s.called.map Prod.fst ++ s.awaited).Pairwise (· < ·)

theorem threads_single {l : List WorkerThread} {i : Nat} {t : WorkerThread} (h : l.length ≤ 1)
    (hi : l[i]? = some t) : l = [t] ∧ i = 0 := by
  obtain ⟨hlt, hget⟩ := List.getElem?_eq_some_iff.mp hi
  have hzero : i = 0 := by omega
  subst hzero
  cases l with
  | nil => cases hlt
  | cons u rest =>
    cases rest with
    | nil => exact ⟨congrArg (· :: []) hget, rfl⟩
    | cons v rest => simp at h

/-- Nothing that is awaited changes its place. -/
theorem InOrder.shrink {s t : Async} (h : InOrder s) (hthreads : t.threads.length ≤ 1)
    (hmain : t.main ≠ .destroyed → s.main ≠ .destroyed) (hcalled : t.called = s.called)
    (hawaited : t.awaited.Sublist s.awaited) : InOrder t := by
  refine ⟨hthreads, fun ht => ?_⟩
  rw [hcalled]
  exact (h.order (hmain ht)).sublist (hawaited.append_left _)

theorem filterMap_sublist_of_le {α β : Type} {f g : α → Option β}
    (h : ∀ a, g a = none ∨ g a = f a) (l : List α) : (l.filterMap g).Sublist (l.filterMap f) := by
  induction l with
  | nil => exact .slnil
  | cons a l ih =>
    rcases h a with ha | ha
    · rw [List.filterMap_cons_none ha]
      exact ih.trans ((List.sublist_cons_self a l).filterMap f)
    · cases hf : f a with
      | none =>
        rw [List.filterMap_cons_none (ha.trans hf), List.filterMap_cons_none hf]
        exact ih
      | some b =>
        rw [List.filterMap_cons_some (ha.trans hf), List.filterMap_cons_some hf]
        exact ih.cons_cons b

theorem InOrder.reAsync {s : Async} (h : InOrder s) (hplaced : Placed s) (hcounted : Counted s)
    (husable : s.usable = true) (id : Int) (workh cb : Bool) :
    InOrder (s.reAsync id workh cb) := by
  have hmain : s.main ≠ .destroyed := by
    intro he
    rw [usable, he] at husable
    cases husable
  have horder := h.order hmain
  have hold : ∀ a ∈ s.mqueue ++ (s.held ++ s.workl), a ∈ s.workl ++ s.curl := by
    intro a ha
    rcases List.mem_append.mp ha with ha | ha
    · exact List.mem_append_right _ (mem_curl_queued hplaced ha)
    rcases List.mem_append.mp ha with ha | ha
    · exact List.mem_append_right _ (hplaced.curl_of_held ha)
    · exact List.mem_append_left _ ha
  have hsame : (s.mqueue ++ (s.held ++ s.workl)).filterMap
      (fun a => ((s.reAsync id workh cb).mem a).caller) = s.awaited := by
    apply List.filterMap_congr
    intro a ha
    rw [mem_reAsync hplaced (hold a ha)]
  have hnew : (s.reAsync id workh cb).awaited =
      s.awaited ++ (if cb then [s.requests + 1] else []) := by
    have hself : (s.reAsync id workh cb).mem (s.freel.headD s.next) =
        { s.mem (s.freel.headD s.next) with
          workh := workh, cb := cb, arg := s.requests + 1, id := id } := if_pos rfl
    rw [← hsame]
    change ((s.mqueue ++ (s.held ++ (s.workl ++ [s.freel.headD s.next]))).filterMap _) = _
    rw [← List.append_assoc s.held, ← List.append_assoc s.mqueue, List.filterMap_append]
    congr 1
    rw [List.filterMap_cons, hself]
    cases cb <;> rfl
  refine ⟨h.single, fun _ => ?_⟩
  rw [hnew, ← List.append_assoc]
  change (s.called.map Prod.fst ++ s.awaited ++ _).Pairwise (· < ·)
  cases cb with
  | false =>
    rw [if_neg Bool.false_ne_true, List.append_nil]
    exact horder
  | true =>
    rw [if_pos rfl]
    refine List.pairwise_append.mpr ⟨horder, List.pairwise_singleton _ _, fun r hr r' hr' => ?_⟩
    rw [List.mem_singleton.mp hr']
    apply Nat.lt_succ_of_le
    apply hcounted.asked.2
    apply hcounted.calls.mem_iff.mp
    rcases List.mem_append.mp hr with hr | hr
    · exact List.mem_append_right _ (List.mem_append_left _ hr)
    · apply List.mem_append_left
      obtain ⟨a, ha, hcaller⟩ := List.mem_filterMap.mp hr
      exact List.mem_filterMap.mpr ⟨a, hold a ha, hcaller⟩

theorem InOrder.cancel {s : Async} (h : InOrder s) (id : Int) : InOrder (s.cancel id) := by
  refine h.shrink h.single (fun hmain => hmain) rfl ?_
  have hlists : (s.mqueue ++ (s.held ++ s.workl.filter fun a => !s.hasId id a)).Sublist
      (s.mqueue ++ (s.held ++ s.workl)) :=
    (List.filter_sublist.append_left s.held).append_left s.mqueue
  refine .trans ?_ (hlists.filterMap fun a => (s.mem a).caller)
  apply filterMap_sublist_of_le
  intro a
  simp only [Async.cancel]
  split
  · exact .inl rfl
  · exact .inr rfl

theorem InOrder.take {s t : Async} (h : InOrder s) {i : Nat} (hstep : s.take i = some t) :
    InOrder t := by
  unfold Async.take at hstep
  split at hstep
  · rename_i a rest hthread hworkl
    split at hstep
    · cases hstep
    · cases hstep
      obtain ⟨hthreads, rfl⟩ := threads_single h.single hthread
      refine h.shrink ?_ (fun hmain => hmain) rfl ?_
      · rw [List.length_set]
        exact h.single
      · unfold awaited held
        simp only
        rw [hthreads, hworkl]
        exact .refl _
  · cases hstep

theorem InOrder.work {s t : Async} (h : InOrder s) {i : Nat} {err : Int}
    (hstep : s.work i err = some t) : InOrder t := by
  unfold Async.work at hstep
  split at hstep
  · rename_i a hthread
    obtain ⟨hthreads, rfl⟩ := threads_single h.single hthread
    have hlength : (s.threads.set 0 (.ran a)).length ≤ 1 := by
      rw [List.length_set]
      exact h.single
    have hheld : (s.threads.set 0 (.ran a)).filterMap WorkerThread.holds =
        s.threads.filterMap WorkerThread.holds := by
      rw [hthreads]
      rfl
    simp only at hstep
    split at hstep
    · cases hstep
      refine h.shrink hlength (fun hmain => hmain) rfl ?_
      unfold awaited held
      simp only
      have hsame := filterMap_store_same s.mem (f := Work.caller) (a := a)
        (w := { s.mem a with workh := false, err := err })
        (l := s.mqueue ++ (s.threads.filterMap WorkerThread.holds ++ s.workl)) rfl
      rw [hheld, hsame]
    · cases hstep
      refine h.shrink hlength (fun hmain => hmain) rfl ?_
      unfold awaited held
      simp only
      rw [hheld]
  · cases hstep

theorem InOrder.push {s t : Async} (h : InOrder s) {i : Nat} {written : Bool}
    (hstep : s.push i written = some t) : InOrder t := by
  unfold Async.push at hstep
  split at hstep
  · rename_i a hthread
    obtain ⟨hthreads, rfl⟩ := threads_single h.single hthread
    have hlength : (s.threads.set 0 .idle).length ≤ 1 := by
      rw [List.length_set]
      exact h.single
    simp only at hstep
    split at hstep
    · cases hstep
      refine h.shrink hlength (fun hmain => hmain) rfl ?_
      unfold awaited held
      simp only
      rw [hthreads, List.append_assoc]
      exact .refl _
    · cases hstep
      refine h.shrink hlength (fun hmain => hmain) rfl ?_
      unfold awaited held
      simp only
      rw [hthreads]
      exact ((List.sublist_cons_self a s.workl).append_left s.mqueue).filterMap _
  · cases hstep

theorem InOrder.leave {s t : Async} (h : InOrder s) {i : Nat} (hstep : s.leave i = some t) :
    InOrder t := by
  unfold Async.leave at hstep
  split at hstep
  · rename_i hthread hmain
    cases hstep
    obtain ⟨hthreads, rfl⟩ := threads_single h.single hthread
    refine h.shrink ?_ (fun hmain => hmain) rfl ?_
    · rw [List.length_set]
      exact h.single
    · unfold awaited held
      simp only
      rw [hthreads]
      exact .refl _
  · cases hstep

theorem InOrder.queueh {s t : Async} (h : InOrder s) (hstep : s.queueh = some t) : InOrder t := by
  unfold Async.queueh at hstep
  split at hstep
  · rename_i a rest hmain hmqueue
    cases hstep
    have horder := h.order (by rw [hmain]; exact nofun)
    refine ⟨h.single, fun _ => ?_⟩
    have hless : ((rest ++ (s.held ++ s.workl)).filterMap fun b =>
        (store a { s.mem a with cb := false } s.mem b).caller).Sublist
          ((rest ++ (s.held ++ s.workl)).filterMap fun b => (s.mem b).caller) := by
      apply filterMap_sublist_of_le
      intro b
      unfold store
      split
      · exact .inl rfl
      · exact .inr rfl
    unfold awaited at horder ⊢
    rw [hmqueue, List.cons_append, List.filterMap_cons] at horder
    cases hcb : (s.mem a).cb with
    | true =>
      have hcaller : (s.mem a).caller = some (s.mem a).arg := if_pos hcb
      rw [hcaller] at horder
      simp only [if_true, List.map_append, List.map_cons, List.map_nil, List.append_assoc]
      exact horder.sublist ((hless.cons_cons _).append_left _)
    | false =>
      have hcaller : (s.mem a).caller = none := if_neg (by simp [hcb])
      rw [hcaller] at horder
      simp only [Bool.false_eq_true, if_false]
      exact horder.sublist (hless.append_left _)
  · cases hstep

theorem InOrder.step {s t : Async} {a : AsyncAction} (h : InOrder s) (hsound : Sound s)
    (hstep : s.step a = some t) : InOrder t := by
  cases a with
  | reAsync id workh cb =>
    simp only [Async.step] at hstep
    split at hstep
    · rename_i husable
      cases hstep
      exact h.reAsync hsound.placed hsound.counted husable id workh cb
    · cases hstep
  | cancel id =>
    simp only [Async.step] at hstep
    split at hstep
    · cases hstep
      exact h.cancel id
    · cases hstep
  | take i => exact h.take hstep
  | work i err => exact h.work hstep
  | push i written => exact h.push hstep
  | leave i => exact h.leave hstep
  | queueh => exact h.queueh hstep
  | release =>
    simp only [Async.step, Async.release] at hstep
    split at hstep
    · rename_i a hmain
      cases hstep
      refine h.shrink h.single (fun _ => by rw [hmain]; exact nofun) rfl ?_
      exact ((List.erase_sublist.append_left s.held).append_left s.mqueue).filterMap _
    · cases hstep
  | destroy =>
    simp only [Async.step] at hstep
    split at hstep
    · rename_i hmain
      cases hstep
      exact h.shrink h.single (fun _ => by rw [hmain]; exact nofun) rfl (.refl _)
    · cases hstep
  | flush =>
    simp only [Async.step, Async.flush] at hstep
    split at hstep
    · cases hstep
      exact ⟨h.single, fun hmain => absurd rfl hmain⟩
    · cases hstep

/-- With one thread, the callbacks are called in the order of the requests, until the pool is
destroyed. -/
theorem called_in_order {s : Async} {as : List AsyncAction}
    (hrun : machine.run (alloc 1) as = some s) (hmain : s.main ≠ .destroyed) :
    (s.called.map Prod.fst).Pairwise (· < ·) := by
  have hkeep : Sound s ∧ InOrder s := by
    refine Machine.run_preserves (P := fun s => Sound s ∧ InOrder s) ?_ ?_ hrun
    · intro s a t hs hstep
      exact ⟨hs.1.step hstep, hs.2.step hs.1 hstep⟩
    · exact ⟨sound_of_reachable (.of_start ⟨1, rfl⟩), Nat.le_refl 1, fun _ => .nil⟩
  exact (List.pairwise_append.mp (hkeep.2.order hmain)).1

theorem called_in_order_two : ∃ s : Async, s.called = [(1, 7), (3, 0)] ∧
    (s.called.map Prod.fst).Pairwise (· < ·) := by
  let as : List AsyncAction := [.reAsync 5 true true, .reAsync 9 true true, .take 0, .work 0 7,
    .reAsync 5 false true, .cancel 9, .push 0 true, .take 0, .work 0 0, .queueh, .push 0 true,
    .release, .queueh]
  have hlog : (machine.run (alloc 1) as).map (fun s => (s.called, s.main)) =
      some ([(1, 7), (3, 0)], .called 2) := by decide
  obtain ⟨s, hrun, hend⟩ := Option.map_eq_some_iff.mp hlog
  obtain ⟨hcalled, hmain⟩ := Prod.mk.inj hend
  exact ⟨s, hcalled, called_in_order hrun (by rw [hmain]; exact nofun)⟩

/-- With two threads the second request may come first. -/
example : (machine.run (alloc 2) [.reAsync 5 true true, .reAsync 9 true true, .take 0, .take 1,
    .work 1 0, .push 1 true, .work 0 0, .push 0 true, .queueh, .release, .queueh]).map
      Async.called = some [(2, 0), (1, 0)] := by decide

end Async

end SimplePhone.Re
