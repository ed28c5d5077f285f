import SimplePhone.Account
import SimplePhone.Transition.Machine

/-! The shared preferences under a save. `saveAndApply` stores the account one
preference at a time on the main thread, while `sipExecutor` collects one with a
getter for each field; nothing holds the two apart. -/
namespace SimplePhone.Settings

open Transition

structure Preferences where
  account : SipConfig
  vibrate : Bool
  volume : Int
deriving DecidableEq

/-- A preference of the account. -/
inductive Field where
  | server | port | user | password | realm
deriving DecidableEq

/-- One `SipConfig.set`. -/
inductive Edit where
  | server (value : Str)
  | port (value : Int)
  | user (value : Str)
  | password (value : Str)
  | realm (value : Str)
  | vibrate (value : Bool)
  | volume (value : Int)
deriving DecidableEq

def Edit.field : Edit → Option Field
  | .server _ => some .server
  | .port _ => some .port
  | .user _ => some .user
  | .password _ => some .password
  | .realm _ => some .realm
  | .vibrate _ => none
  | .volume _ => none

def set (p : Preferences) : Edit → Preferences
  | .server value => { p with account := { p.account with server := value } }
  | .port value => { p with account := { p.account with port := value } }
  | .user value => { p with account := { p.account with user := value } }
  | .password value => { p with account := { p.account with password := value } }
  | .realm value => { p with account := { p.account with realm := value } }
  | .vibrate value => { p with vibrate := value }
  | .volume value => { p with volume := value }

/-- The edits of `saveAndApply`, in its order. -/
def saveAndApply (p : Preferences) : List Edit :=
  [.server p.account.server, .port p.account.port, .user p.account.user,
    .password p.account.password, .realm p.account.realm, .vibrate p.vibrate, .volume p.volume]

/-- Left alone, the edits store the whole configuration. -/
theorem foldl_saveAndApply (p q : Preferences) : (saveAndApply p).foldl set q = p := rfl

/-- Whether two accounts agree in a field. -/
def Field.Same (a b : SipConfig) : Field → Prop
  | .server => a.server = b.server
  | .port => a.port = b.port
  | .user => a.user = b.user
  | .password => a.password = b.password
  | .realm => a.realm = b.realm

instance (a b : SipConfig) (f : Field) : Decidable (f.Same a b) := by
  cases f <;> exact inferInstanceAs (Decidable (_ = _))

/-- The value of a getter moves into the reader's own copy. -/
def Field.copy (src dst : SipConfig) : Field → SipConfig
  | .server => { dst with server := src.server }
  | .port => { dst with port := src.port }
  | .user => { dst with user := src.user }
  | .password => { dst with password := src.password }
  | .realm => { dst with realm := src.realm }

/-! ### The readers -/

inductive Reader where
  /-- `SipManager.start` -/
  | start
  | buildAor
deriving DecidableEq

/-- The getters, in the order of the calls. -/
def Reader.getters : Reader → List Field
  | .start => [.server, .port, .user, .password, .realm]
  | .buildAor => [.user, .server, .port, .password]

/-- What the reader gets when it finds these values in the preferences. -/
def Reader.Obtains (c d : SipConfig) : Reader → Prop
  | .start => c = d
  | .buildAor => c.buildAor = d.buildAor

instance (c d : SipConfig) (r : Reader) : Decidable (r.Obtains c d) := by
  cases r <;> exact inferInstanceAs (Decidable (_ = _))

/-- `read` tells which fields were read, and of each whether the edit of the latest
save had been made by then; `span` holds the whole configurations before and after
each save the reader met. Both are history. -/
structure Reading where
  reader : Reader
  rest : List Field
  copy : SipConfig
  read : List (Field × Bool)
  span : List SipConfig
deriving DecidableEq

structure State where
  stored : Preferences
  /-- What the save under way still has to write. -/
  edits : List Edit
  /-- The accounts before and after the latest save. -/
  before : SipConfig
  after : SipConfig
  reading : Option Reading
  obtained : List Reading
deriving DecidableEq

def State.initial (p : Preferences) : State where
  stored := p
  edits := []
  before := p.account
  after := p.account
  reading := none
  obtained := []

/-- The save under way has this field still to write. -/
def State.pending (s : State) (f : Field) : Bool := f ∈ s.edits.filterMap Edit.field

inductive Action where
  /-- `saveAndApply` begins -/
  | save (p : Preferences)
  | edit
  /-- an account reader begins on `sipExecutor` -/
  | begin (r : Reader)
  | read
deriving DecidableEq

def Reading.start (r : Reader) (s : State) : Reading where
  reader := r
  rest := r.getters
  copy := ⟨[], 5060, [], [], []⟩
  read := []
  span := if s.edits = [] then [s.after] else [s.before, s.after]

/-- A save begins: the edits the reader met were those of an earlier one. -/
def Reading.meet (after : SipConfig) (r : Reading) : Reading :=
  { r with read := r.read.map fun x => (x.1, false), span := r.span ++ [after] }

def Reading.get (f : Field) (rest : List Field) (s : State) (r : Reading) : Reading :=
  { r with
    rest := rest
    copy := f.copy s.stored.account r.copy
    read := r.read ++ [(f, !s.pending f)] }

def step (s : State) : Action → Option State
  | .save p =>
      if s.edits = [] then some { s with
        edits := saveAndApply p
        before := s.stored.account
        after := p.account
        reading := s.reading.map (Reading.meet p.account) }
      else none
  | .edit =>
      match s.edits with
      | [] => none
      | e :: rest => some { s with stored := set s.stored e, edits := rest }
  | .begin r =>
      if s.reading = none then some { s with reading := some (.start r s) } else none
  | .read =>
      match s.reading with
      | none => none
      | some r =>
        match r.rest with
        | [] => some { s with reading := none, obtained := s.obtained ++ [r] }
        | f :: rest => some { s with reading := some (r.get f rest s) }

def machine : Machine State Action where
  start s := ∃ p, s = .initial p
  step := step

/-- Every account a reader has obtained is one of the whole configurations it met. -/
def Whole (s : State) : Prop := ∀ r ∈ s.obtained, ∃ c ∈ r.span, r.reader.Obtains r.copy c

/-! ### Readers that keep to one side of a save -/

/-- The save that is under way changes the field. -/
def State.changes (s : State) (f : Field) : Prop := ¬ f.Same s.before s.after

instance (s : State) (f : Field) : Decidable (s.changes f) := inferInstanceAs (Decidable (¬ _))

/-- A reader takes no field of one side of the save when it has one of the other,
both changed by the save; and it is not left behind by a second save. -/
def Untorn (s : State) : Action → Prop
  | .read => ∀ r ∈ s.reading, ∀ f ∈ r.rest.head?, ∀ x ∈ r.read,
      s.changes f → s.changes x.1 → x.2 = !s.pending f
  | .save _ => ∀ r ∈ s.reading, ∀ x ∈ r.read, s.changes x.1 → x.2 = true
  | _ => True

instance (s : State) (a : Action) : Decidable (Untorn s a) := by
  unfold Untorn
  split <;> infer_instance

theorem Field.same_copy (src dst : SipConfig) (f : Field) : f.Same (f.copy src dst) src := by
  cases f <;> rfl

/-- A getter of another field leaves the copy of this one alone. -/
theorem Field.same_copy_ne {f g : Field} (hne : g ≠ f) (src dst c : SipConfig) :
    g.Same (f.copy src dst) c ↔ g.Same dst c := by
  cases f <;> cases g <;> first | rfl | exact absurd rfl hne

theorem Field.Same.trans {a b c : SipConfig} {f : Field} (h : f.Same a b) (h' : f.Same b c) :
    f.Same a c := by
  cases f <;> exact Eq.trans h h'

theorem Field.Same.symm {a b : SipConfig} {f : Field} (h : f.Same a b) : f.Same b a := by
  cases f <;> exact Eq.symm h

theorem Field.Same.refl (a : SipConfig) (f : Field) : f.Same a a := by
  cases f <;> rfl

/-- A reader's result depends on the fields it gets only. -/
theorem Reader.obtains_of_same {r : Reader} {c d : SipConfig}
    (h : ∀ f ∈ r.getters, f.Same c d) : r.Obtains c d := by
  obtain ⟨server, port, user, password, realm⟩ := c
  obtain ⟨server', port', user', password', realm'⟩ := d
  cases r with
  | start =>
    simp only [getters, List.forall_mem_cons, Field.Same] at h
    obtain ⟨rfl, rfl, rfl, rfl, rfl, -⟩ := h
    rfl
  | buildAor =>
    simp only [getters, List.forall_mem_cons, Field.Same] at h
    obtain ⟨rfl, rfl, rfl, rfl, -⟩ := h
    rfl

/-- The values stored are those of the two whole configurations. -/
structure Stored (s : State) : Prop where
  pending : ∀ f, s.pending f = true → f.Same s.stored.account s.before
  written : ∀ f, s.pending f = false → f.Same s.stored.account s.after

/-- The edits that remain are the tail of the save of `after`. -/
def Saving (s : State) : Prop :=
  ∃ p : Preferences, p.account = s.after ∧ s.edits <:+ saveAndApply p

structure Reading.Invariant (s : State) (r : Reading) : Prop where
  before : s.before ∈ r.span ∨ s.edits = [] ∧ ∀ f, (f, false) ∉ r.read
  after : s.after ∈ r.span
  getters : r.read.map Prod.fst ++ r.rest = r.reader.getters
  old : ∀ f, (f, false) ∈ r.read → f.Same r.copy s.before
  new : ∀ f, (f, true) ∈ r.read → f.Same r.copy s.after
  side : ∀ f g, (f, true) ∈ r.read → (g, false) ∈ r.read → s.changes f → ¬ s.changes g

structure Invariant (s : State) : Prop where
  stored : Stored s
  saving : Saving s
  reading : ∀ r ∈ s.reading, r.Invariant s
  whole : Whole s

variable {s t : State}

theorem account_ext {a b : SipConfig} (h : ∀ f : Field, f.Same a b) : a = b := by
  cases a
  cases b
  simp only [SipConfig.mk.injEq]
  exact ⟨h .server, h .port, h .user, h .password, h .realm⟩

/-- Between two saves the preferences hold one configuration. -/
theorem Stored.settled (h : Stored s) (hedits : s.edits = []) : s.stored.account = s.after := by
  apply account_ext
  intro f
  exact h.written f (by simp [State.pending, hedits])

theorem same_of_not_changes {f : Field} (h : ¬ s.changes f) : f.Same s.before s.after :=
  Decidable.not_not.mp h

/-- A reader that kept to one side has that side's values. -/
theorem Reading.Invariant.sided {r : Reading} (h : r.Invariant s) :
    (∀ f ∈ r.read.map Prod.fst, f.Same r.copy s.after) ∨
      s.before ∈ r.span ∧ ∀ f ∈ r.read.map Prod.fst, f.Same r.copy s.before := by
  by_cases hold : ∃ g, (g, false) ∈ r.read ∧ s.changes g
  · obtain ⟨g, hg, hchanges⟩ := hold
    right
    refine ⟨?_, fun f hf => ?_⟩
    · rcases h.before with hmem | ⟨-, hnone⟩
      · exact hmem
      · exact absurd hg (hnone g)
    · obtain ⟨⟨f, written⟩, hmem, rfl⟩ := List.mem_map.mp hf
      cases written with
      | false => exact h.old f hmem
      | true =>
        have hsame := same_of_not_changes fun hf => h.side f g hmem hg hf hchanges
        exact (h.new f hmem).trans hsame.symm
  · left
    intro f hf
    obtain ⟨⟨f, written⟩, hmem, rfl⟩ := List.mem_map.mp hf
    cases written with
    | true => exact h.new f hmem
    | false =>
      have hsame := same_of_not_changes fun hf => hold ⟨f, hmem, hf⟩
      exact (h.old f hmem).trans hsame

theorem Reading.Invariant.whole {r : Reading} (h : r.Invariant s) (hrest : r.rest = []) :
    ∃ c ∈ r.span, r.reader.Obtains r.copy c := by
  have hall : r.read.map Prod.fst = r.reader.getters := by
    rw [← h.getters, hrest, List.append_nil]
  have hsided := h.sided
  rw [hall] at hsided
  rcases hsided with hafter | ⟨hmem, hbefore⟩
  · exact ⟨s.after, h.after, Reader.obtains_of_same hafter⟩
  · exact ⟨s.before, hmem, Reader.obtains_of_same hbefore⟩

theorem Reader.getters_nodup (r : Reader) : r.getters.Nodup := by
  cases r <;> decide

/-- Another getter returns. -/
theorem Reading.Invariant.get {r : Reading} (h : r.Invariant s) (hstored : Stored s) {f : Field}
    {rest : List Field} (hrest : r.rest = f :: rest)
    (hside : ∀ x ∈ r.read, s.changes f → s.changes x.1 → x.2 = !s.pending f) :
    (r.get f rest s).Invariant s := by
  have hgetters := h.getters
  rw [hrest] at hgetters
  have hfresh : f ∉ r.read.map Prod.fst := by
    have hnodup := r.reader.getters_nodup
    rw [← hgetters] at hnodup
    exact fun hmem => (List.nodup_append.mp hnodup).2.2 f hmem f (by simp) rfl
  have hkeep {g : Field} {written : Bool} {c : SipConfig} (hmem : (g, written) ∈ r.read)
      (hsame : g.Same r.copy c) : g.Same (f.copy s.stored.account r.copy) c := by
    have hne : g ≠ f := by
      rintro rfl
      exact hfresh (List.mem_map_of_mem (f := Prod.fst) hmem)
    exact (Field.same_copy_ne hne _ _ c).mpr hsame
  refine ⟨?_, h.after, ?_, ?_, ?_, ?_⟩
  · rcases h.before with hmem | ⟨hedits, hnone⟩
    · exact .inl hmem
    · right
      refine ⟨hedits, fun g hg => ?_⟩
      rcases List.mem_append.mp hg with hold | hnew
      · exact hnone g hold
      · simp [State.pending, hedits] at hnew
  · simp [Reading.get, ← hgetters]
  · intro g hg
    rcases List.mem_append.mp hg with hold | hnew
    · exact hkeep hold (h.old g hold)
    · obtain ⟨rfl, hpending⟩ := Prod.mk.inj (List.mem_singleton.mp hnew)
      exact (Field.same_copy _ _ g).trans (hstored.pending g (by simpa using hpending.symm))
  · intro g hg
    rcases List.mem_append.mp hg with hold | hnew
    · exact hkeep hold (h.new g hold)
    · obtain ⟨rfl, hwritten⟩ := Prod.mk.inj (List.mem_singleton.mp hnew)
      exact (Field.same_copy _ _ g).trans (hstored.written g (by simpa using hwritten.symm))
  · intro g g' hg hg' hchanges hchanges'
    rcases List.mem_append.mp hg with hold | hnew
    · rcases List.mem_append.mp hg' with hold' | hnew'
      · exact h.side g g' hold hold' hchanges hchanges'
      · obtain ⟨rfl, hpending⟩ := Prod.mk.inj (List.mem_singleton.mp hnew')
        have := hside (g, true) hold hchanges' hchanges
        rw [← hpending] at this
        cases this
    · obtain ⟨rfl, hwritten⟩ := Prod.mk.inj (List.mem_singleton.mp hnew)
      rcases List.mem_append.mp hg' with hold' | hnew'
      · have := hside (g', false) hold' hchanges hchanges'
        rw [← hwritten] at this
        cases this
      · obtain ⟨-, hpending⟩ := Prod.mk.inj (List.mem_singleton.mp hnew')
        rw [← hwritten] at hpending
        cases hpending

/-- A reader that has only values of the stored account sees the next save begin. -/
theorem Reading.Invariant.meet {r : Reading} (h : r.Invariant s) {p : Preferences}
    (hset : s.stored.account = s.after)
    (hside : ∀ x ∈ r.read, s.changes x.1 → x.2 = true) :
    (r.meet p.account).Invariant { s with
      edits := saveAndApply p
      before := s.stored.account
      after := p.account
      reading := s.reading.map (Reading.meet p.account) } := by
  refine ⟨?_, ?_, ?_, ?_, ?_, ?_⟩
  · left
    change s.stored.account ∈ _
    rw [hset]
    exact List.mem_append_left _ h.after
  · exact List.mem_append_right _ (List.mem_singleton_self _)
  · simpa [Reading.meet, Function.comp_def] using h.getters
  · intro f hf
    change f.Same r.copy s.stored.account
    rw [hset]
    obtain ⟨⟨g, written⟩, hmem, heq⟩ := List.mem_map.mp hf
    obtain ⟨rfl, -⟩ := Prod.mk.inj heq
    cases written with
    | true => exact h.new g hmem
    | false =>
      have hsame : ¬ s.changes g := fun hchanges => by cases hside _ hmem hchanges
      exact (h.old g hmem).trans (same_of_not_changes hsame)
  · intro f hf
    obtain ⟨x, -, heq⟩ := List.mem_map.mp hf
    cases (Prod.mk.inj heq).2
  · intro f g hf
    obtain ⟨x, -, heq⟩ := List.mem_map.mp hf
    cases (Prod.mk.inj heq).2

theorem set_same {e : Edit} {f : Field} (hf : e.field ≠ some f) (q : Preferences) :
    f.Same (set q e).account q.account := by
  cases e <;> cases f <;> first | rfl | exact absurd rfl hf

theorem set_field {p : Preferences} {e : Edit} (he : e ∈ saveAndApply p) {f : Field}
    (hf : e.field = some f) (q : Preferences) : f.Same (set q e).account p.account := by
  simp only [saveAndApply, List.mem_cons, List.not_mem_nil, or_false] at he
  rcases he with rfl | rfl | rfl | rfl | rfl | rfl | rfl <;> cases hf <;> rfl

/-- `saveAndApply` writes no field twice. -/
theorem saveAndApply_nodup (p : Preferences) :
    ((saveAndApply p).filterMap Edit.field).Nodup := by
  change [Field.server, .port, .user, .password, .realm].Nodup
  decide

/-- A write moves one field from the old account to the new one. -/
theorem Stored.edit (h : Stored s) (hsaving : Saving s) {e : Edit} {rest : List Edit}
    (hedits : s.edits = e :: rest) :
    Stored { s with stored := set s.stored e, edits := rest } := by
  obtain ⟨p, hp, hsuffix⟩ := hsaving
  rw [hedits] at hsuffix
  have hpending (f : Field) (hf : e.field ≠ some f) :
      s.pending f = decide (f ∈ rest.filterMap Edit.field) := by
    cases hfield : e.field with
    | none => simp [State.pending, hedits, hfield]
    | some g =>
      have hne : f ≠ g := fun heq => hf (by rw [hfield, heq])
      simp [State.pending, hedits, hfield, hne]
  have hfresh (f : Field) (hf : f ∈ rest.filterMap Edit.field) : e.field ≠ some f := by
    intro hfield
    have hnodup := (hsuffix.filterMap Edit.field).sublist.nodup (saveAndApply_nodup p)
    rw [List.filterMap_cons_some hfield] at hnodup
    exact (List.nodup_cons.mp hnodup).1 hf
  constructor
  · intro f hf
    have hmem : f ∈ rest.filterMap Edit.field := of_decide_eq_true hf
    have hne := hfresh f hmem
    exact (set_same hne _).trans (h.pending f (by rw [hpending f hne]; exact hf))
  · intro f hf
    by_cases hfield : e.field = some f
    · rw [← hp]
      exact set_field (hsuffix.subset (by simp)) hfield _
    · exact (set_same hfield _).trans (h.written f (by rw [hpending f hfield]; exact hf))

theorem Invariant.step (h : Invariant s) {a : Action} (ha : Untorn s a)
    (hstep : step s a = some t) : Invariant t := by
  cases a with
  | save p =>
    simp only [Settings.step] at hstep
    split at hstep
    next hedits =>
      cases hstep
      refine ⟨⟨?_, ?_⟩, ⟨p, rfl, List.suffix_refl _⟩, ?_, h.whole⟩
      · intro f _
        exact .refl _ f
      · intro f hf
        cases f <;> simp [State.pending, saveAndApply, Edit.field] at hf
      · intro r hr
        obtain ⟨q, hq, rfl⟩ := Option.map_eq_some_iff.mp hr
        exact (h.reading q hq).meet (h.stored.settled hedits) (ha q hq)
    next => cases hstep
  | edit =>
    obtain ⟨p, hp, hsuffix⟩ := h.saving
    cases hedits : s.edits with
    | nil => simp [Settings.step, hedits] at hstep
    | cons e rest =>
      simp only [Settings.step, hedits, Option.some.injEq] at hstep
      subst hstep
      rw [hedits] at hsuffix
      refine ⟨h.stored.edit h.saving hedits, ⟨p, hp, ?_⟩, fun r hr => ?_, h.whole⟩
      · exact (List.suffix_cons e rest).trans hsuffix
      · obtain ⟨hbefore, hafter, hgetters, hold, hnew, hside⟩ := h.reading r hr
        refine ⟨?_, hafter, hgetters, hold, hnew, hside⟩
        rcases hbefore with hmem | ⟨hnil, -⟩
        · exact .inl hmem
        · simp [hedits] at hnil
  | begin r =>
    simp only [Settings.step] at hstep
    split at hstep
    next hidle =>
      cases hstep
      refine ⟨⟨h.stored.pending, h.stored.written⟩, h.saving, fun q hq => ?_, h.whole⟩
      cases hq
      refine ⟨?_, ?_, rfl, ?_, ?_, ?_⟩
      · by_cases hedits : s.edits = []
        · exact .inr ⟨hedits, fun f hf => by cases hf⟩
        · exact .inl (by simp [Reading.start, hedits])
      · by_cases hedits : s.edits = [] <;> simp [Reading.start, hedits]
      · intro f hf
        cases hf
      · intro f hf
        cases hf
      · intro f g hf
        cases hf
    next => cases hstep
  | read =>
    cases hreading : s.reading with
    | none => simp [Settings.step, hreading] at hstep
    | some r =>
      have hr := h.reading r hreading
      cases hrest : r.rest with
      | nil =>
        simp only [Settings.step, hreading, hrest, Option.some.injEq] at hstep
        subst hstep
        refine ⟨⟨h.stored.pending, h.stored.written⟩, h.saving, ?_, ?_⟩
        · intro q hq
          cases hq
        intro q hq
        rcases List.mem_append.mp hq with hold | hnew
        · exact h.whole q hold
        · rw [List.mem_singleton.mp hnew]
          exact hr.whole hrest
      | cons f rest =>
        simp only [Settings.step, hreading, hrest, Option.some.injEq] at hstep
        subst hstep
        refine ⟨⟨h.stored.pending, h.stored.written⟩, h.saving, fun q hq => ?_, h.whole⟩
        cases hq
        have hget := hr.get h.stored hrest (ha r hreading f (by rw [hrest]; rfl))
        exact ⟨hget.before, hget.after, hget.getters, hget.old, hget.new, hget.side⟩

theorem invariant_initial (p : Preferences) : Invariant (.initial p) := by
  refine ⟨⟨?_, ?_⟩, ⟨p, rfl, List.nil_suffix⟩, ?_, ?_⟩
  · intro f _
    exact .refl _ f
  · intro f _
    exact .refl _ f
  · intro r hr
    cases hr
  · intro r hr
    cases hr

/-- As long as no reader mixes changed fields of the two sides of a save, what it
obtains is one whole configuration. -/
theorem whole_of_untorn (p : Preferences) (as : List Action)
    (h : machine.Meets Untorn (.initial p) as) : machine.Always Whole (.initial p) as := by
  have hinv : machine.Always Invariant (.initial p) as := by
    apply Machine.always_of_meets _ (invariant_initial p) h
    intro s a t hs ha hstep
    exact hs.step ha hstep
  exact hinv.imp fun s hs => hs.whole

/-- A reader that starts before a save and one that starts behind it. -/
theorem whole_of_untorn_save : machine.Always Whole (.initial ⟨.sample, true, 150⟩)
    ([.begin .buildAor, .read, .read, .read, .read, .read,
      .save ⟨⟨utf8 "198.51.100.7", 5060, utf8 "202", utf8 "topsecret", utf8 "asterisk"⟩, true, 150⟩] ++
      List.replicate 7 .edit ++ [.begin .start, .read, .read, .read, .read, .read, .read]) :=
  whole_of_untorn _ _ (by decide)

/-- The new server is stored, the new password is not yet: the old one goes there. -/
theorem torn_aor : ∃ s r, machine.run (.initial ⟨.sample, true, 150⟩)
    [.save ⟨⟨utf8 "198.51.100.7", 5060, utf8 "202", utf8 "topsecret", utf8 "asterisk"⟩, true, 150⟩,
      .edit, .begin .buildAor, .read, .read, .read, .read, .read] = some s ∧ s.obtained = [r] ∧
    r.copy.buildAor =
      utf8 "<sip:202@198.51.100.7:5060>;auth_user=202;auth_pass=secret;regint=60" ∧
    r.copy.buildAor ≠ s.before.buildAor ∧ r.copy.buildAor ≠ s.after.buildAor ∧ ¬ Whole s := by
  refine ⟨_, _, rfl, rfl, by decide, by decide, by decide, fun h => ?_⟩
  obtain ⟨c, hc, hobtains⟩ := h _ (List.mem_singleton_self _)
  revert hobtains
  rcases List.mem_cons.mp hc with rfl | hc
  · decide
  · rw [List.mem_singleton.mp hc]
    decide

/-- The condition asks for no more than this: a getter leaves the reader on one side
of the save exactly if it meets it. -/
theorem sided_iff_untorn (h : Invariant s) {r : Reading} (hr : s.reading = some r) {f : Field}
    {rest : List Field} (hrest : r.rest = f :: rest) :
    ((∀ g ∈ (r.get f rest s).read.map Prod.fst, g.Same (r.get f rest s).copy s.after) ∨
      ∀ g ∈ (r.get f rest s).read.map Prod.fst, g.Same (r.get f rest s).copy s.before) ↔
      Untorn s .read := by
  have hinv := h.reading r hr
  constructor
  · intro hsided q hq g hg x hx hchanges hchanges'
    rw [hr] at hq
    cases hq
    rw [hrest] at hg
    cases hg
    have hne : x.1 ≠ f := by
      have hnodup := r.reader.getters_nodup
      rw [← hinv.getters, hrest] at hnodup
      have hmem := List.mem_map_of_mem (f := Prod.fst) hx
      exact (List.nodup_append.mp hnodup).2.2 _ hmem f (by simp)
    have hreadf : f ∈ (r.get f rest s).read.map Prod.fst := by simp [Reading.get]
    have hreadx : x.1 ∈ (r.get f rest s).read.map Prod.fst := by
      simp only [Reading.get, List.map_append]
      exact List.mem_append_left _ (List.mem_map_of_mem hx)
    have hcopyf : f.Same s.stored.account (r.get f rest s).copy :=
      (Field.same_copy s.stored.account r.copy f).symm
    have hcopyx (c : SipConfig) : x.1.Same (r.get f rest s).copy c ↔ x.1.Same r.copy c :=
      Field.same_copy_ne hne _ _ c
    by_contra htear
    rcases hsided with hafter | hbefore
    · have hxafter := (hcopyx s.after).mp (hafter _ hreadx)
      cases hwritten : x.2 with
      | true =>
        have hpending : s.pending f = true := by simpa [hwritten] using htear
        have hfbefore := (h.stored.pending f hpending).symm.trans hcopyf
        exact hchanges (hfbefore.trans (hafter f hreadf))
      | false =>
        have hold := hinv.old x.1 (by rw [← hwritten]; exact hx)
        exact hchanges' (hold.symm.trans hxafter)
    · have hxbefore := (hcopyx s.before).mp (hbefore _ hreadx)
      cases hwritten : x.2 with
      | true =>
        have hnew := hinv.new x.1 (by rw [← hwritten]; exact hx)
        exact hchanges' (hxbefore.symm.trans hnew)
      | false =>
        have hpending : s.pending f = false := by simpa [hwritten] using htear
        have hfafter := hcopyf.symm.trans (h.stored.written f hpending)
        exact hchanges ((hbefore f hreadf).symm.trans hfafter)
  · intro ha
    have hget := hinv.get h.stored hrest (ha r hr f (by rw [hrest]; rfl))
    rcases hget.sided with hafter | ⟨-, hbefore⟩
    · exact .inl hafter
    · exact .inr hbefore

end SimplePhone.Settings
