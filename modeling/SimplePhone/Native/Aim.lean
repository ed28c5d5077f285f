import SimplePhone.Native.Line
import SimplePhone.Native.Registration

/-! The AOR that the native layer is heading for: that of the user agent once the
handlers that wait have run. The event loop does not change it. -/
namespace SimplePhone.Native

open Globals Transition

/-- What a handler does to the AOR of the user agent when the library does not fail. -/
def Work.aims (b : Buffers) (aor : Option Str) : Work → Option Str
  | .register => some (aor.getD (buildAccountAor b 256))
  | .reregister aor => some aor
  | _ => aor

def Globals.aim (g : Globals) : Option Str :=
  g.works.foldl (Work.aims g.account) (g.gUa.map Ua.aor)

variable {g t : Globals}

theorem aim_remainRun (w : Work) (g : Globals) :
    (remainRun w g).aim = w.aims g.account g.aim := by
  unfold Globals.aim
  rw [works_remainRun, List.foldl_append]
  rfl

/-- With no handler left the aim is reached. -/
theorem aim_of_idle (h : g.posted = []) : g.aim = g.gUa.map Ua.aor := by
  simp only [Globals.aim, Globals.works, h, List.map_nil, List.foldl_nil]

theorem aims_of_not_creates {w : Work} (h : w.creates = false) (b : Buffers)
    (aor : Option Str) : w.aims b aor = aor := by
  cases w with
  | register => cases h
  | reregister aor => cases h
  | _ => rfl

/-- Nothing is aimed at before some handler that creates a user agent is posted, whatever
is in the buffers. -/
theorem aim_eq_none_iff :
    g.aim = none ↔ g.gUa = none ∧ ∀ w ∈ g.works, w.creates = false := by
  have hfold (ws : List Work) (aor : Option Str) : ws.foldl (Work.aims g.account) aor = none ↔
      aor = none ∧ ∀ w ∈ ws, w.creates = false := by
    induction ws generalizing aor with
    | nil => simp
    | cons w ws ih =>
      rw [List.foldl_cons, ih]
      cases w <;> simp [Work.aims, Work.creates]
  rw [Globals.aim, hfold, Option.map_eq_none_iff]

theorem aor_uaCreateAndRegister (aor : Str) {lib : Lib} (hlib : lib.uaAlloc = true)
    (g : Globals) : (uaCreateAndRegister aor lib g).1.gUa.map Ua.aor = some aor := by
  unfold uaCreateAndRegister
  rw [if_pos hlib]
  cases lib.uaRegister <;> rfl

theorem aor_work (w : Work) {lib : Lib} (hlib : lib.uaAlloc = true) (g : Globals) :
    (w.run lib g).gUa.map Ua.aor = w.aims g.account (g.gUa.map Ua.aor) := by
  cases hcreates : w.creates with
  | false =>
    rw [aims_of_not_creates hcreates]
    exact (Prod.mk.inj (registration_work hcreates lib g)).1
  | true =>
    cases w with
    | register =>
      simp only [Work.run, registerWorker, Work.aims]
      cases hua : g.gUa with
      | some ua => simp [hua]
      | none =>
        have haor := aor_uaCreateAndRegister (buildAccountAor g.account 256) hlib g
        simp only
        split <;> exact haor
    | reregister aor =>
      have haor := aor_uaCreateAndRegister aor hlib
        { g with gUa := none, gCall := none, gInCall := false }
      simp only [Work.run, reregisterWorker_eq, Work.aims]
      split <;> exact haor
    | _ => cases hcreates

theorem aor_event {e : SipEvent} {g : Globals} (henabled : e.enabled g) :
    (e.run g).gUa.map Ua.aor = g.gUa.map Ua.aor := by
  cases hregisters : e.registers with
  | false => exact (Prod.mk.inj (registration_event hregisters henabled)).1
  | true =>
    cases e with
    | registerOk prm => rfl
    | registerFail prm => rfl
    | _ => cases hregisters

theorem aim_step {a : Action} (ha : ∀ w, a ≠ .post w) (hlib : ∀ lib, a = .work lib → lib.uaAlloc)
    (hstep : step g a = some t) : t.aim = g.aim := by
  have haccount := step_account hstep
  have hposted := (step_frame hstep).posted
  unfold Globals.aim Globals.works
  rw [haccount]
  cases a with
  | event e =>
    obtain ⟨-, henabled, rfl⟩ := step_event.mp hstep
    rw [hposted, aor_event (g := g.begin) henabled]
    rfl
  | post w => exact absurd rfl (ha w)
  | work lib =>
    obtain ⟨-, p, rest, hp, rfl⟩ := step_work.mp hstep
    have htail : (p.work.run lib { g.begin with posted := rest }).posted = rest := by
      rw [hposted, posted_afterStep_work hp]
    rw [htail, aor_work p.work (hlib lib rfl), hp]
    rfl
  | connect result =>
    obtain ⟨uri, -, rfl⟩ := step_connect.mp hstep
    rw [hposted]
    congr 1
    exact (Prod.mk.inj (registration_connect uri result g.begin)).1

end SimplePhone.Native
