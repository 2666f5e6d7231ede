import ATalk.Adapter.Inbox

/-!
# The inbox after a crash

The invariant of an inbox: the cursor is behind events that have their file, and an event whose
delivery was interrupted is the first of the next pull.

* `Sound` : the invariant, `Sound.step` : every step keeps it;
* `inbox_crash_safe` : the inbox is safe while no temporary file is in the way of a process;
* `stale_temporary_blocks` : one is, when a killed adapter comes back under its old process id.
-/

namespace ATalk
namespace Adapter

open Text Python Sqlite ATalk.Core Federation Checks Transition Callers Server

variable {cfg : ServerConfig} {agent : Str}

/-! ## The invariant -/

/-- The event of the row has its file. -/
def InboxState.Has (s : InboxState) (event : Event) : Prop := HasFile s.pending s.applied event

def InboxState.Kept (s : InboxState) (row : EventRow) : Prop :=
  ∃ event, Decoded row event ∧ s.Has event

/-- Every event of the agent up to the cursor has its file, or was passed as applied. -/
def SettledAt (agent : Str) (s : InboxState) (pos : ℤ) : Prop :=
  Cursor.Settled rowKey 0 s.server.store.events (Behind agent s.pages s.Kept) pos

/-- The page around a step: the event is left on it until the cursor has moved. -/
def Step.Around (agent : Str) (s : InboxState) (pos : ℤ) (event : Event) (rest : List Event) :
    Step → Prop
  | .committing => s.cursorTmp = some pos ∧ SettledAt agent s pos ∧
      OnPage agent s.pages s.server.store.events pos rest
  | _ => pos = s.loaded ∧ OnPage agent s.pages s.server.store.events pos (event :: rest)

/-- Where a process stands. -/
def Placed (agent : Str) (s : InboxState) (p : Process) : Prop :=
  match p.phase with
  | .started | .returned | .raised => p.sinceId = s.loaded
  | .next rest => p.sinceId = s.loaded ∧
      OnPage agent s.pages s.server.store.events p.sinceId rest
  | .busy event rest step => step.Holds s.pending s.applied p.pid event ∧
      step.Around agent s p.sinceId event rest

/-- The process has the event before it, or will pull first. -/
def Current (event : Event) : Option Process → Prop
  | none => True
  | some p =>
    match p.phase with
    | .started | .raised => True
    | .next rest => rest.head? = some event
    | .busy current _ _ => current = event
    | .returned => False

/-- The next pull begins with the row: what is before it has been acknowledged as applied. -/
def Front (agent : Str) (s : InboxState) (row : EventRow) : Prop :=
  s.loaded < rowKey row ∧ ∀ y ∈ s.server.store.events, s.loaded < rowKey y → rowKey y < rowKey row →
    forTarget agent y = true → hasAck s.server.store y.eventId agent .applied = true

/-- An event whose delivery was begun has its file, or was acknowledged as applied, or comes next. -/
def Begun (agent : Str) (s : InboxState) (event : Event) : Prop :=
  ∃ row ∈ s.server.store.events, Decoded row event ∧ forTarget agent row = true ∧
    (s.Has event ∨ hasAck s.server.store event.eventId agent .applied = true ∨
      Front agent s row ∧ Current event s.process)

structure Sound (agent : Str) (s : InboxState) : Prop where
  schema : Schema s.server.store
  decoded : ∀ p ∈ s.pages, List.Forall₂ Decoded (p.rows agent) p.events
  later : ∀ p ∈ s.pages, Later p.db s.server.store
  files : Files s.server.store s.pending s.applied
  appliers : ∀ name, .replace name ∈ s.appliers → isJson name = true
  settled : SettledAt agent s s.loaded
  begun : ∀ event ∈ s.begun, Begun agent s event
  process : ∀ p, s.process = some p → Placed agent s p

/-- What every step keeps, but the one that moves the cursor. -/
structure Onward (s s' : InboxState) : Prop where
  since : Since s.server.store s'.server.store
  has : ∀ event, s.Has event → s'.Has event
  pages : s.pages <+: s'.pages
  loaded : s'.loaded = s.loaded

section
variable {s s' : InboxState} {pos : ℤ} {event : Event} {rest : List Event} {step : Step}
  {row : EventRow} {p : Process}

/-- A page that left an event out was right. -/
theorem Sound.hidden (h : Sound agent s) {page : EventPage} (hpage : page ∈ s.pages)
    (hhides : page.Hides agent row) :
    hasAck s.server.store row.eventId agent .applied = true :=
  (h.later page hpage).acks _ _ _ hhides.2

theorem SettledAt.onward (h : SettledAt agent s pos) (hon : Onward s s')
    (hschema : Schema s'.server.store) : SettledAt agent s' pos := by
  refine Cursor.Settled.grow h hon.since.later.events hschema.ascending hschema.behind ?_
  intro row _ _ hdone hfor
  obtain ⟨more, hmore⟩ := hon.pages
  rcases hdone hfor with ⟨event, hevent, hhas⟩ | hpassed
  · exact .inl ⟨event, hevent, hon.has event hhas⟩
  · rw [← hmore]
    exact .inr (hpassed.append more)

theorem OnPage.onward (h : OnPage agent s.pages s.server.store.events pos rest) (hon : Onward s s')
    (hschema : Schema s'.server.store) :
    OnPage agent s'.pages s'.server.store.events pos rest := by
  obtain ⟨more, hmore⟩ := hon.pages
  rw [← hmore]
  exact (h.grow hon.since.later.events hschema.ascending).append more

theorem Step.Around.onward (h : step.Around agent s pos event rest) (hon : Onward s s')
    (htmp : s'.cursorTmp = s.cursorTmp) (hschema : Schema s'.server.store) :
    step.Around agent s' pos event rest := by
  cases step with
  | committing =>
    exact ⟨htmp.trans h.1, h.2.1.onward hon hschema, h.2.2.onward hon hschema⟩
  | _ => exact ⟨h.1.trans hon.loaded.symm, h.2.onward hon hschema⟩

/-- A process stands where it stood, if what it knows of the files is still so. -/
theorem Placed.onward (h : Placed agent s p) (hon : Onward s s')
    (htmp : s'.cursorTmp = s.cursorTmp) (hschema : Schema s'.server.store)
    (hholds : ∀ event rest step, p.phase = .busy event rest step →
      step.Holds s.pending s.applied p.pid event → step.Holds s'.pending s'.applied p.pid event) :
    Placed agent s' p := by
  unfold Placed at h ⊢
  cases hphase : p.phase with
  | next rest =>
    rw [hphase] at h
    exact ⟨h.1.trans hon.loaded.symm, h.2.onward hon hschema⟩
  | busy event rest step =>
    rw [hphase] at h
    exact ⟨hholds event rest step hphase h.1, h.2.onward hon htmp hschema⟩
  | _ =>
    rw [hphase] at h
    exact Eq.trans h hon.loaded.symm

theorem Front.onward (h : Front agent s row) (hon : Onward s s') (hrow : row ∈ s.server.store.events)
    (hschema : Schema s'.server.store) : Front agent s' row := by
  refine ⟨hon.loaded ▸ h.1, fun y hy hpos hlt hfor => ?_⟩
  rw [hon.loaded] at hpos
  obtain ⟨new, hnew⟩ := hon.since.later.events
  have hlog := hschema.ascending
  rw [← hnew] at hy hlog
  rcases List.mem_append.mp hy with hold | hlater
  · exact hon.since.later.acks _ _ _ (h.2 y hold hpos hlt hfor)
  · exact absurd hlt (not_lt.mpr ((List.pairwise_append.mp hlog).2.2 row hrow y hlater).le)

/-- A delivery that was begun, after a step that does not move the cursor. -/
theorem Begun.onward (h : Begun agent s event) (hon : Onward s s')
    (hschema : Schema s'.server.store)
    (hcurrent : ∀ row ∈ s.server.store.events, Decoded row event → forTarget agent row = true →
      Front agent s row → hasAck s'.server.store event.eventId agent .applied ≠ true →
      Current event s.process → s'.Has event ∨ Current event s'.process) : Begun agent s' event := by
  obtain ⟨row, hrow, hevent, hfor, hcases⟩ := h
  refine ⟨row, hon.since.later.events.subset hrow, hevent, hfor, ?_⟩
  rcases hcases with hhas | hack | ⟨hfront, hwas⟩
  · exact .inl (hon.has event hhas)
  · exact .inr (.inl (hon.since.later.acks _ _ _ hack))
  · by_cases hack : hasAck s'.server.store event.eventId agent .applied = true
    · exact .inr (.inl hack)
    · rcases hcurrent row hrow hevent hfor hfront hack hwas with hhas | hnow
      · exact .inl hhas
      · exact .inr (.inr ⟨hfront.onward hon hrow hschema, hnow⟩)

/-- A step that does not move the cursor, pulls nothing and begins nothing. -/
theorem Sound.onward (h : Sound agent s) (hon : Onward s s') (hpages : s'.pages = s.pages)
    (hfiles : Files s'.server.store s'.pending s'.applied)
    (happliers : ∀ name, .replace name ∈ s'.appliers → isJson name = true)
    (hbegun : s'.begun = s.begun)
    (hcurrent : ∀ event ∈ s.begun, Current event s.process → s'.Has event ∨ Current event s'.process)
    (hprocess : ∀ p, s'.process = some p → Placed agent s' p) : Sound agent s' := by
  have hschema := hon.since.schema h.schema
  refine ⟨hschema, fun p hp => h.decoded p (hpages ▸ hp), fun p hp => ?_, hfiles, happliers, ?_,
    fun event hevent => ?_, hprocess⟩
  · exact (h.later p (hpages ▸ hp)).trans hon.since.later
  · rw [hon.loaded]
    exact h.settled.onward hon hschema
  · rw [hbegun] at hevent
    exact (h.begun event hevent).onward hon hschema fun _ _ _ _ _ _ hwas =>
      hcurrent event hevent hwas

theorem Onward.refl (s : InboxState) : Onward s s :=
  ⟨.refl _, fun _ h => h, List.prefix_rfl, rfl⟩

end

/-! ## The steps -/

section
variable {client : Client} {s s' : InboxState} {p : Process} {event : Event} {rest : List Event}

/-- A step that changes nothing but where the process is. -/
theorem Sound.goOn (h : Sound agent s) (phase : Phase)
    (hcurrent : ∀ event ∈ s.begun, Current event s.process →
      s.Has event ∨ Current event (some { p with phase := phase }))
    (hplaced : Placed agent s { p with phase := phase }) : Sound agent (s.goOn p phase) := by
  have hon : Onward s (s.goOn p phase) := ⟨.refl _, fun _ h => h, List.prefix_rfl, rfl⟩
  refine h.onward hon rfl h.files h.appliers rfl hcurrent fun q hq => ?_
  cases hq
  exact hplaced

/-- The end of the loop. -/
theorem Sound.return (h : Sound agent s) (hp : s.process = some p) (hphase : p.phase = .next []) :
    Sound agent (s.goOn p .returned) := by
  have hplaced := h.process p hp
  unfold Placed at hplaced
  rw [hphase] at hplaced
  refine h.goOn _ (fun event _ hwas => ?_) hplaced.1
  unfold Current at hwas
  simp only [hp, hphase] at hwas
  cases hwas

/-- The next event of the page. -/
theorem Sound.begin (h : Sound agent s) (hp : s.process = some p)
    (hphase : p.phase = .next (event :: rest)) :
    Sound agent { s.goOn p (.busy event rest (.delivering .pendingExists)) with
      begun := s.begun ++ [event] } := by
  have hplaced := h.process p hp
  unfold Placed at hplaced
  rw [hphase] at hplaced
  obtain ⟨hsince, hpage⟩ := hplaced
  have hgo : Sound agent (s.goOn p (.busy event rest (.delivering .pendingExists))) := by
    refine h.goOn _ (fun other _ hwas => .inr ?_) ⟨trivial, hsince, hpage⟩
    unfold Current at hwas
    simp only [hp, hphase] at hwas
    cases hwas
    rfl
  obtain ⟨row, hrow, hevent, hfor, hahead, hbefore⟩ := hpage.next
  refine { hgo with begun := fun other hother => ?_ }
  rcases List.mem_append.mp hother with hother | hother
  · exact hgo.begun other hother
  · rw [List.mem_singleton.mp hother]
    refine ⟨row, hrow, hevent, hfor, .inr (.inr ⟨⟨hsince ▸ hahead, fun y hy hpos hlt hfory => ?_⟩, rfl⟩)⟩
    obtain ⟨page, hpage, hhides⟩ := hbefore y hy (hsince ▸ hpos) hlt hfory
    exact h.hidden hpage hhides

/-- A step of `deliver`. -/
theorem Sound.deliver (h : Sound agent s) (hp : s.process = some p) {d : Delivery}
    (hphase : p.phase = .busy event rest (.delivering d))
    (hfresh : d = .opening → s.pending (temporary event p.pid) = none) :
    ∃ pending step, deliverStep s.pending s.applied p.pid event d = (pending, some step) ∧
      step.left < d.left ∧
      Sound agent { s.goOn p (.busy event rest step) with pending := pending } := by
  have hplaced := h.process p hp
  unfold Placed at hplaced
  rw [hphase] at hplaced
  obtain ⟨hd, hsince, hpage⟩ := hplaced
  obtain ⟨row, hrow, hevent, -, -, -⟩ := hpage.next
  obtain ⟨pending, step, hstep, hfiles, hholds, hleft, hkeep⟩ :=
    deliverStep_spec h.files h.schema.ascending hrow hevent hd hfresh
  refine ⟨pending, step, hstep, hleft.2, ?_⟩
  have hon : Onward s { s.goOn p (.busy event rest step) with pending := pending } :=
    ⟨.refl _, hkeep, List.prefix_rfl, rfl⟩
  refine h.onward hon rfl hfiles h.appliers rfl (fun other _ hwas => .inr ?_) fun q hq => ?_
  · unfold Current at hwas
    simp only [hp, hphase] at hwas
    exact hwas
  · cases hq
    refine ⟨hholds, ?_⟩
    have haround : (Step.ack).Around agent { s.goOn p (.busy event rest step) with pending := pending }
        p.sinceId event rest := ⟨hsince, hpage⟩
    cases step with
    | committing => exact absurd hleft.1 (by decide)
    | _ => exact haround

/-- The cursor moves in memory. -/
theorem Sound.advance (h : Sound agent s) (hp : s.process = some p)
    (hphase : p.phase = .busy event rest .advancing) :
    Sound agent { s with
      process := some { p with
        sinceId := max p.sinceId event.id, phase := .busy event rest .committing },
      cursorTmp := some (max p.sinceId event.id) } := by
  have hplaced := h.process p hp
  unfold Placed at hplaced
  rw [hphase] at hplaced
  obtain ⟨hhas, hsince, hpage⟩ := hplaced
  have hsettled : SettledAt agent s (max p.sinceId event.id) := by
    refine hpage.settled h.decoded (hsince ▸ h.settled) fun row hevent _ => ?_
    exact ⟨event, hevent, hhas⟩
  refine h.onward ⟨.refl _, fun _ h => h, List.prefix_rfl, rfl⟩ rfl h.files h.appliers rfl
    (fun other _ hwas => .inr ?_) fun q hq => ?_
  · unfold Current at hwas
    simp only [hp, hphase] at hwas
    exact hwas
  · cases hq
    exact ⟨hhas, rfl, hsettled, hpage.advance⟩

/-- The cursor moves on disk. -/
theorem Sound.commit (h : Sound agent s) (hp : s.process = some p)
    (hphase : p.phase = .busy event rest .committing) :
    s.cursorTmp = some p.sinceId ∧ Sound agent { s.goOn p (.next rest) with
      cursor := some p.sinceId, cursorTmp := none } := by
  have hplaced := h.process p hp
  unfold Placed at hplaced
  rw [hphase] at hplaced
  obtain ⟨hhas, htmp, hsettled, hpage⟩ := hplaced
  refine ⟨htmp, h.schema, h.decoded, h.later, h.files, h.appliers, hsettled, fun other hother => ?_,
    fun q hq => ?_⟩
  · obtain ⟨row, hrow, hevent, hfor, hcases⟩ := h.begun other hother
    refine ⟨row, hrow, hevent, hfor, ?_⟩
    rcases hcases with hfile | hack | ⟨-, hwas⟩
    · exact .inl hfile
    · exact .inr (.inl hack)
    · unfold Current at hwas
      simp only [hp, hphase] at hwas
      exact .inl (hwas ▸ hhas)
  · cases hq
    exact ⟨rfl, hpage⟩

/-- A step of the process, when no temporary file is in its way. -/
theorem Sound.own (h : Sound agent s) (hp : s.process = some p) (hfresh : Fresh s .own)
    (hstep : ownStep s p = some s') : Sound agent s' ∧
      ∃ p', s'.process = some p' ∧ p'.phase ≠ .raised ∧ p'.phase.left < p.phase.left := by
  unfold ownStep at hstep
  split at hstep
  · next hphase =>
    cases hstep
    refine ⟨h.return hp hphase, _, rfl, nofun, ?_⟩
    rw [hphase]
    exact Nat.succ_pos _
  · next event rest hphase =>
    cases hstep
    refine ⟨h.begin hp hphase, _, rfl, nofun, ?_⟩
    rw [hphase]
    simp only [Phase.left, Step.left, Delivery.left, List.length_cons]
    omega
  · next event rest d hphase =>
    obtain ⟨pending, step, hdeliver, hleft, hsound⟩ := h.deliver hp hphase fun hd =>
      hfresh p event rest hp (hd ▸ hphase)
    rw [hdeliver] at hstep
    cases hstep
    refine ⟨hsound, _, rfl, nofun, ?_⟩
    rw [hphase]
    exact Nat.add_lt_add_left hleft _
  · next event rest hphase =>
    cases hstep
    refine ⟨h.advance hp hphase, _, rfl, nofun, ?_⟩
    rw [hphase]
    exact Nat.lt_succ_self _
  · next event rest hphase =>
    obtain ⟨htmp, hsound⟩ := h.commit hp hphase
    rw [htmp] at hstep
    cases hstep
    refine ⟨hsound, _, rfl, nofun, ?_⟩
    rw [hphase]
    exact Nat.lt_succ_self _
  · cases hstep

/-- A pull. An event that comes next is the first of the page, unless it was acknowledged. -/
theorem Sound.pull (h : Sound client.agent s) (hp : s.process = some p) (hout : p.phase.Outside)
    {page : EventPage} (hpulled : Pulled cfg client p.sinceId s.server.store page) :
    Sound client.agent { s.goOn p (.next page.events) with pages := s.pages ++ [page] } := by
  have hsince : p.sinceId = s.loaded := by
    have hplaced := h.process p hp
    unfold Placed at hplaced
    cases hphase : p.phase with
    | next rest =>
      rw [hphase] at hout
      exact hout.elim
    | busy event rest step =>
      rw [hphase] at hout
      exact hout.elim
    | _ =>
      rw [hphase] at hplaced
      exact hplaced
  have hon : Onward s { s.goOn p (.next page.events) with pages := s.pages ++ [page] } :=
    ⟨.refl _, fun _ h => h, List.prefix_append _ _, rfl⟩
  have hpage : OnPage client.agent (s.pages ++ [page]) s.server.store.events p.sinceId page.events :=
    .pulled hpulled h.schema.ascending
  obtain ⟨hserves, hdecoded⟩ := hpulled.serves
  obtain ⟨hquery, -⟩ := hpulled.query
  obtain ⟨-, -, -, -, hdb, -⟩ := hpulled
  refine ⟨h.schema, fun q hq => ?_, fun q hq => ?_, h.files, h.appliers,
    h.settled.onward hon h.schema, fun event hevent => ?_, fun q hq => ?_⟩
  · rcases List.mem_append.mp hq with hq | hq
    · exact h.decoded q hq
    · rw [List.mem_singleton.mp hq]
      exact hdecoded
  · rcases List.mem_append.mp hq with hq | hq
    · exact h.later q hq
    · rw [List.mem_singleton.mp hq, hdb]
      exact .refl _
  · refine (h.begun event hevent).onward hon h.schema fun row hrow hrowev hfor hfront hack _ => .inr ?_
    have hid : event.eventId = row.eventId := by
      obtain ⟨_, -, rfl⟩ := rowToEvent_ok hrowev
      rfl
    rw [hid] at hack
    have hshown : ∀ y ∈ s.server.store.events, forTarget client.agent y = true →
        ((page.toPage client.agent).shown y = false ↔
          hasAck s.server.store y.eventId client.agent .applied = true) := by
      intro y _ hfory
      rw [not_shown_iff hfory, EventPage.Hides, hdb]
      exact and_iff_right (by rw [hquery])
    have hlog : (page.toPage client.agent).log = s.server.store.events := congrArg Db.events hdb
    have hpos : (page.toPage client.agent).since = s.loaded := by
      rw [← hsince]
      exact congrArg EventQuery.sinceId hquery
    obtain ⟨rows, hrows⟩ := hserves.head (hlog ▸ h.schema.ascending) (hlog ▸ hrow)
      (hpos ▸ hfront.1) (by
        rw [← Bool.not_eq_false, hshown row hrow hfor]
        exact hack) (by
        intro y hy hbehind hlt
        rw [hlog] at hy
        rw [hpos] at hbehind
        cases hfory : forTarget client.agent y with
        | false => exact Bool.and_eq_false_iff.mpr (.inl hfory)
        | true => exact (hshown y hy hfory).mpr (hfront.2 y hy hbehind hlt hfory))
    have hhead : List.Forall₂ Decoded (row :: rows) page.events := by
      rw [← hrows]
      exact hdecoded
    cases hevents : page.events with
    | nil =>
      rw [hevents] at hhead
      cases hhead
    | cons first more =>
      rw [hevents] at hhead
      cases hhead with
      | cons hfirst _ =>
        cases hrowev.symm.trans hfirst
        rfl
  · cases hq
    exact ⟨hsince, hpage⟩

/-- The process asks its client, or has its answer. -/
theorem Sound.wait (h : Sound agent s) (hp : s.process = some p) {step step' : Step} {server : Serving}
    (hphase : p.phase = .busy event rest step) (hserver : server.store = s.server.store)
    (hstep : step ≠ .committing) (hstep' : step' ≠ .committing)
    (hholds : step.Holds s.pending s.applied p.pid event →
      step'.Holds s.pending s.applied p.pid event) :
    Sound agent ({ s with server := server }.goOn p (.busy event rest step')) := by
  have hplaced := h.process p hp
  unfold Placed at hplaced
  rw [hphase] at hplaced
  have hon : Onward s ({ s with server := server }.goOn p (.busy event rest step')) := by
    refine ⟨?_, fun _ h => h, List.prefix_rfl, rfl⟩
    show Since s.server.store server.store
    rw [hserver]
    exact .refl _
  have haround : Step.ack.Around agent s p.sinceId event rest := by
    cases step with
    | committing => exact absurd rfl hstep
    | _ => exact hplaced.2
  refine h.onward hon rfl (hserver ▸ h.files) h.appliers rfl (fun other _ hwas => .inr ?_)
    fun q hq => ?_
  · unfold Current at hwas
    simp only [hp, hphase] at hwas
    exact hwas
  · cases hq
    have haround' := haround.onward hon rfl (hserver ▸ h.schema)
    refine ⟨hholds hplaced.1, ?_⟩
    cases step' with
    | committing => exact absurd rfl hstep'
    | _ => exact haround'

/-- The client of the process raises. -/
theorem Sound.raise (h : Sound agent s) (hp : s.process = some p) (hasks : p.phase.Asks) :
    Sound agent (s.goOn p .raised) := by
  have hplaced := h.process p hp
  unfold Placed at hplaced
  refine h.goOn _ (fun event _ _ => .inr trivial) ?_
  show p.sinceId = s.loaded
  cases hphase : p.phase with
  | next rest =>
    rw [hphase] at hasks
    exact hasks.elim
  | busy event rest step =>
    rw [hphase] at hasks hplaced
    cases step with
    | ack => exact hplaced.2.1
    | acking i => exact hplaced.2.1
    | _ => exact hasks.elim
  | _ =>
    rw [hphase] at hplaced
    exact hplaced

/-- A step of an applier. -/
theorem Sound.applier (h : Sound agent s) {i : ℕ} {a a' : Applier} {t : InboxState}
    (hi : s.appliers[i]? = some a) (hstep : ApplierStep cfg s a t a') :
    Sound agent { t with appliers := s.appliers.set i a' } := by
  -- whatever the step, the names that are to be moved were found
  have hset : (∀ name, a' = .replace name → isJson name = true) →
      ∀ name, .replace name ∈ s.appliers.set i a' → isJson name = true := by
    intro hname name hmem
    rcases List.mem_or_eq_of_mem_set hmem with hold | hnew
    · exact h.appliers name hold
    · exact hname name hnew.symm
  have hsame : (∀ name, a' = .replace name → isJson name = true) → t = s →
      Sound agent { t with appliers := s.appliers.set i a' } := by
    rintro hname rfl
    exact h.onward ⟨.refl _, fun _ h => h, List.prefix_rfl, rfl⟩ rfl h.files (hset hname) rfl
      (fun _ _ hwas => .inr hwas) h.process
  cases hstep with
  | find _ _ => exact hsame nofun rfl
  | read _ => exact hsame nofun rfl
  | ack _ =>
    exact h.onward ⟨.refl _, fun _ h => h, List.prefix_rfl, rfl⟩ rfl h.files (hset nofun) rfl
      (fun _ _ hwas => .inr hwas) h.process
  | acked _ _ => exact hsame nofun rfl
  | findAgain hjson _ =>
    refine hsame (fun name hname => ?_) rfl
    cases hname
    exact hjson
  | exit => exact hsame nofun rfl
  | @replace name c hname =>
    have hjson := h.appliers name (List.mem_of_getElem? hi)
    have hon : Onward s { s with
        pending := Function.update s.pending name none,
        applied := Function.update s.applied name (some c),
        appliers := s.appliers.set i .exited } :=
      ⟨.refl _, fun _ hhas => hhas.apply hname (h.files.apart name hjson), List.prefix_rfl, rfl⟩
    refine h.onward hon rfl (h.files.apply hjson hname) (hset nofun) rfl
      (fun _ _ hwas => .inr hwas) fun q hq => ?_
    exact (h.process q hq).onward hon rfl h.schema fun event rest step _ hholds =>
      hholds.apply h.files hjson hname

/-- The files that were applied stay. -/
theorem applied_of_step {act : InboxAct} (h : Sound client.agent s)
    (hstep : (inboxes cfg client).step s act s') (name : Str) (happlied : s.applied name ≠ none) :
    s'.applied name = s.applied name := by
  cases act with
  | server act =>
    obtain ⟨server, -, rfl⟩ := hstep
    rfl
  | start pid =>
    obtain ⟨-, rfl⟩ := hstep
    rfl
  | crash =>
    cases hstep
    rfl
  | pull page =>
    obtain ⟨p, -, -, -, rfl⟩ := hstep
    rfl
  | own =>
    obtain ⟨p, -, hown⟩ := hstep
    unfold ownStep at hown
    repeat' split at hown
    all_goals cases hown
    all_goals rfl
  | ack r =>
    obtain ⟨p, event, rest, -, -, -, rfl⟩ := hstep
    rfl
  | answered =>
    obtain ⟨p, event, rest, i, reply, -, -, -, rfl⟩ := hstep
    rfl
  | fail =>
    obtain ⟨p, -, -, rfl⟩ := hstep
    rfl
  | apply eventId =>
    cases hstep
    rfl
  | markApplied eventId =>
    cases hstep
    rfl
  | applier i =>
    obtain ⟨a, a', t, hi, happlier, rfl⟩ := hstep
    cases happlier with
    | @replace moved c hname =>
      refine Function.update_of_ne (fun hsame => ?_) _ _
      have hjson := h.appliers moved (List.mem_of_getElem? hi)
      have hnone := h.files.apart moved hjson (by rw [hname]; exact nofun)
      exact happlied (hsame ▸ hnone)
    | _ => rfl

theorem Sound.step {act : InboxAct} (h : Sound client.agent s) (hok : Fresh s act)
    (hstep : (inboxes cfg client).step s act s') : Sound client.agent s' := by
  cases act with
  | server act =>
    obtain ⟨server, hserver, rfl⟩ := hstep
    have hsince := serving_since hserver
    have hon : Onward s { s with server := server } :=
      ⟨hsince, fun _ h => h, List.prefix_rfl, rfl⟩
    refine h.onward hon rfl (h.files.mono hsince.later.events) h.appliers rfl
      (fun _ _ hwas => .inr hwas) fun q hq => ?_
    exact (h.process q hq).onward hon rfl (hsince.schema h.schema) fun _ _ _ _ hholds => hholds
  | start pid =>
    obtain ⟨hnone, rfl⟩ := hstep
    refine h.onward ⟨.refl _, fun _ h => h, List.prefix_rfl, rfl⟩ rfl h.files h.appliers rfl
      (fun _ _ _ => .inr trivial) fun q hq => ?_
    cases hq
    rfl
  | crash =>
    cases hstep
    exact h.onward ⟨.refl _, fun _ h => h, List.prefix_rfl, rfl⟩ rfl h.files h.appliers rfl
      (fun _ _ _ => .inr trivial) nofun
  | pull page =>
    obtain ⟨p, hp, hout, hpulled, rfl⟩ := hstep
    exact h.pull hp hout hpulled
  | own =>
    obtain ⟨p, hp, hown⟩ := hstep
    exact (h.own hp hok hown).1
  | ack r =>
    obtain ⟨p, event, rest, hp, hphase, -, rfl⟩ := hstep
    exact h.wait hp hphase rfl nofun nofun id
  | answered =>
    obtain ⟨p, event, rest, i, reply, hp, hphase, -, rfl⟩ := hstep
    split_ifs
    · exact h.wait hp hphase rfl nofun nofun id
    · refine h.raise hp ?_
      rw [hphase]
      trivial
  | fail =>
    obtain ⟨p, hp, hasks, rfl⟩ := hstep
    exact h.raise hp hasks
  | apply eventId =>
    cases hstep
    refine h.onward ⟨.refl _, fun _ h => h, List.prefix_rfl, rfl⟩ rfl h.files (fun name hname => ?_)
      rfl (fun _ _ hwas => .inr hwas) h.process
    rcases List.mem_append.mp hname with hold | hnew
    · exact h.appliers name hold
    · cases List.mem_singleton.mp hnew
  | markApplied eventId =>
    cases hstep
    refine h.onward ⟨.refl _, fun _ h => h, List.prefix_rfl, rfl⟩ rfl h.files (fun name hname => ?_)
      rfl (fun _ _ hwas => .inr hwas) h.process
    rcases List.mem_append.mp hname with hold | hnew
    · exact h.appliers name hold
    · cases List.mem_singleton.mp hnew
  | applier i =>
    obtain ⟨a, a', t, hi, happlier, rfl⟩ := hstep
    exact h.applier hi happlier

theorem sound_of_reach (h : Reach (inboxes cfg client) Fresh s) : Sound client.agent s := by
  refine h.invariant (fun s hs => ?_) fun s act s' hs hok hstep => hs.step hok hstep
  obtain ⟨server, ⟨hschema, -⟩, rfl⟩ := hs
  refine ⟨hschema, nofun, nofun, ⟨nofun, nofun, fun _ _ _ => rfl⟩, nofun, ?_, nofun, nofun⟩
  exact .atStart hschema.behind

/-- Inside `run_once` a process waits for an answer, or can take a step. -/
theorem goesOn_of_inside (hp : s.process = some p) (hinside : ¬ p.phase.Outside) :
    (∃ event rest i, p.phase = .busy event rest (.acking i)) ∨
      ∃ act s', Works cfg s act ∧ (inboxes cfg client).step s act s' := by
  have hown : (ownStep s p).isSome = true →
      ∃ act s', Works cfg s act ∧ (inboxes cfg client).step s act s' := by
    intro hsome
    obtain ⟨s', hs'⟩ := Option.isSome_iff_exists.mp hsome
    exact ⟨.own, s', trivial, p, hp, hs'⟩
  cases hphase : p.phase with
  | next rest =>
    refine .inr (hown ?_)
    unfold ownStep
    rw [hphase]
    cases rest <;> rfl
  | busy event rest step =>
    cases step with
    | delivering d =>
      refine .inr (hown ?_)
      unfold ownStep
      simp only [hphase]
      split <;> rfl
    | ack =>
      have hr : client.Acks event.eventId .received localInbox
          ⟨⟨client.ackBody event.eventId .received localInbox, client.token, [], []⟩,
            fun _ => false, none⟩ := ⟨rfl, rfl⟩
      exact .inr ⟨.ack _, _, trivial, p, event, rest, hp, hphase, hr, rfl⟩
    | acking i => exact .inl ⟨event, rest, i, rfl⟩
    | advancing =>
      refine .inr (hown ?_)
      unfold ownStep
      rw [hphase]
      rfl
    | committing =>
      refine .inr (hown ?_)
      unfold ownStep
      simp only [hphase]
      split <;> rfl
  | _ =>
    rw [hphase] at hinside
    exact absurd trivial hinside

end

/-- While no temporary file is in the way of a process that opens its own, the inbox survives every
crash. -/
theorem inbox_crash_safe (cfg : ServerConfig) (client : Client) : CrashSafe cfg client Fresh where
  kept s hs row hrow hfor hle := by
    have h := sound_of_reach hs
    refine (h.settled.done row hrow hle hfor).imp_left fun ⟨event, hevent, hhas⟩ => ?_
    exact ⟨event, hevent, h.files.stored hhas⟩
  stays s s' hs hrun event happlied := by
    have h := sound_of_reach hs
    have h' := sound_of_reach (hs.run hrun)
    rw [h.files.contains_applied] at happlied
    have hsame : ∀ name, s.applied name ≠ none → s'.applied name = s.applied name := by
      refine hs.rel (R := fun t t' => ∀ name, t.applied name ≠ none → t'.applied name = t.applied name)
        (fun _ _ _ => rfl) (fun t u v htu huv name hname => ?_) (fun t act t' ht _ hact name => ?_) hrun
      · have hu := htu name hname
        exact (huv name (hu ▸ hname)).trans hu
      · exact applied_of_step (sound_of_reach ht) hact name
    have hname : s'.applied (filename event) = some (.whole event) :=
      (hsame _ (by rw [happlied]; exact nofun)).trans happlied
    exact ⟨h'.files.contains_applied.mpr hname, h'.files.not_pending (by rw [hname]; exact nofun)⟩
  succeeds s act s' p hs hok hworks hstep hp := by
    cases act with
    | own =>
      obtain ⟨q, hq, hown⟩ := hstep
      cases hp.symm.trans hq
      exact ((sound_of_reach hs).own hp hok hown).2
    | ack r =>
      obtain ⟨q, event, rest, hq, hphase, -, rfl⟩ := hstep
      cases hp.symm.trans hq
      refine ⟨_, rfl, nofun, ?_⟩
      rw [hphase]
      exact Nat.lt_succ_self _
    | answered =>
      obtain ⟨q, event, rest, i, reply, hq, hphase, hreply, rfl⟩ := hstep
      cases hp.symm.trans hq
      rw [if_pos (hworks p event rest i reply hp hphase hreply)]
      refine ⟨_, rfl, nofun, ?_⟩
      rw [hphase]
      exact Nat.lt_succ_self _
    | _ => exact hworks.elim
  goesOn s p _ hp hinside := goesOn_of_inside hp hinside
  delivers s p hs hp hphase event hevent := by
    have h := sound_of_reach hs
    obtain ⟨row, -, -, -, hhas | hack | ⟨-, hcurrent⟩⟩ := h.begun event hevent
    · exact .inl (h.files.stored hhas)
    · exact .inr hack
    · unfold Current at hcurrent
      simp only [hp, hphase] at hcurrent

/-! ## A file that is in the way -/

/-- Bob's adapter. -/
def bob : Client where
  agent := lit "bob"
  token := []

/-- A server that has one event for him. -/
def oneEvent : Serving := ⟨{ events := [bobsRow] }, []⟩

/-- The event. -/
def bobsEvent : Event where
  id := 1
  eventId := lit "e1"
  source := lit "alice"
  target := lit "bob"
  type := lit "message"
  seq := 1
  createdAt := noon
  storedAt := noon
  payload := []
  requiresAck := true
  sourceRef := none
  authActor := none

/-- The page that he pulls. -/
def bobsPage : EventPage where
  db := { events := [bobsRow] }
  query := ⟨lit "bob", 0, 100, lit "pending"⟩
  events := [bobsEvent]

/-- The request of the pull. -/
def bobsPull : GetRequest where
  query := ⟨[(lit "target", [lit "bob"]), (lit "since_id", [lit "0"]), (lit "limit", [lit "100"])],
    by decide⟩
  bearer := []
  now := noon

theorem bobsPage_pulled : Pulled oneSlot bob 0 oneEvent.store bobsPage :=
  ⟨bobsPull, {}, ⟨rfl, rfl, rfl, rfl, rfl⟩, rfl, rfl, rfl⟩

/-- The adapter under process id 7, with the event. -/
def sevenAt (phase : Phase) (s : InboxState) : InboxState :=
  { s with process := some ⟨7, 0, phase⟩ }

/-- A run up to the opening of the temporary file. -/
theorem reach_opening {s : InboxState} (h : Reachable (inboxes oneSlot bob) s)
    (hserver : s.server = oneEvent) (hcursor : s.cursor = none) (hprocess : s.process = none)
    (hpending : s.pending (filename bobsEvent) = none) (happlied : s.applied (filename bobsEvent) = none) :
    Reachable (inboxes oneSlot bob) (sevenAt (.busy bobsEvent [] (.delivering .opening))
      { s with pages := s.pages ++ [bobsPage], begun := s.begun ++ [bobsEvent] }) := by
  have hstart : Reachable (inboxes oneSlot bob) (sevenAt .started s) := by
    have hloaded : s.loaded = 0 := by
      unfold InboxState.loaded
      rw [hcursor]
      rfl
    refine .step (a := .start 7) h trivial ⟨hprocess, ?_⟩
    rw [hloaded]
    rfl
  have hpull : Reachable (inboxes oneSlot bob)
      (sevenAt (.next [bobsEvent]) { s with pages := s.pages ++ [bobsPage] }) := by
    refine .step (a := .pull bobsPage) hstart trivial ⟨_, rfl, trivial, ?_, rfl⟩
    show Pulled oneSlot bob 0 s.server.store bobsPage
    rw [hserver]
    exact bobsPage_pulled
  have hbegin : Reachable (inboxes oneSlot bob)
      (sevenAt (.busy bobsEvent [] (.delivering .pendingExists))
        { s with pages := s.pages ++ [bobsPage], begun := s.begun ++ [bobsEvent] }) :=
    .step (a := .own) hpull trivial ⟨_, rfl, rfl⟩
  have hpendingExists : Reachable (inboxes oneSlot bob)
      (sevenAt (.busy bobsEvent [] (.delivering .appliedExists))
        { s with pages := s.pages ++ [bobsPage], begun := s.begun ++ [bobsEvent] }) := by
    refine .step (a := .own) hbegin trivial ⟨_, rfl, ?_⟩
    simp only [ownStep, sevenAt, deliverStep, hpending]
    rfl
  refine .step (a := .own) hpendingExists trivial ⟨_, rfl, ?_⟩
  simp only [ownStep, sevenAt, deliverStep, happlied]
  rfl

/-- The files when the temporary one has been opened. -/
def opened : InboxState where
  server := oneEvent
  pending := Function.update (fun _ => none) (temporary bobsEvent 7) (some .torn)
  pages := [bobsPage]
  begun := [bobsEvent]

/-- An adapter is killed when it has opened its temporary file, and is started again under the same
process id: its next `run_once` raises, and so would every other. -/
theorem stale_temporary_blocks : ¬ CrashSafe oneSlot bob fun _ _ => True := by
  intro hsafe
  have hempty : Reachable (inboxes oneSlot bob) { server := oneEvent } :=
    .init ⟨oneEvent, ⟨⟨List.pairwise_singleton .., by decide, by decide⟩, rfl⟩, rfl⟩
  have hopening := reach_opening hempty rfl rfl rfl rfl rfl
  have hopened : Reachable (inboxes oneSlot bob)
      (sevenAt (.busy bobsEvent [] (.delivering .writing)) opened) :=
    .step (a := .own) hopening trivial ⟨_, rfl, rfl⟩
  have hkilled : Reachable (inboxes oneSlot bob) opened :=
    .step (a := .crash) hopened trivial rfl
  have hfree : opened.pending (filename bobsEvent) = none :=
    Function.update_of_ne (temporary_ne_filename bobsEvent bobsEvent 7).symm (some .torn) _
  have hagain := reach_opening hkilled rfl rfl rfl hfree rfl
  have hthere : opened.pending (temporary bobsEvent 7) = some .torn := by
    simp only [opened, Function.update_self]
  obtain ⟨p', hp', hraised, -⟩ := hsafe.succeeds _ .own
    (sevenAt .raised { opened with pages := [bobsPage, bobsPage], begun := [bobsEvent, bobsEvent] })
    _ hagain trivial trivial ⟨_, rfl, by simp only [ownStep, sevenAt, deliverStep, hthere]; rfl⟩ rfl
  cases hp'
  exact hraised rfl

end Adapter
end ATalk
