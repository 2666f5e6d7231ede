import ATalk.Adapter.RunOnce

/-!
# What `run_once` keeps

The invariant of an adapter whose handler keeps its contract: an event of the agent up to the cursor
on disk is done, or its acknowledgement is outstanding. A crash or an exception drops what is
outstanding.

* `Steady` : the invariant, `Steady.step` : every step keeps it that drops no event;
* `kept_of_reach` : then no event up to the cursor is lost, unless its acknowledgement is outstanding.
-/

namespace ATalk
namespace Adapter

open Text Python Sqlite ATalk.Core Federation Checks Transition Callers Server

variable {cfg : ServerConfig} {client : Client} {κ η : Type} {H : Handler κ η}
  {Done : Db → κ → EventRow → Prop} {out : η → List Str}
  {Inv : Serving → κ → Cause → η → Prop}

/-! ## The invariant -/

/-- The ids whose acknowledgement is outstanding. -/
def RunState.outstanding (out : η → List Str) (s : RunState κ η) : List Str :=
  match s.worker with
  | none => []
  | some w => w.duty.outstanding out

theorem RunState.outstanding_of_worker {s : RunState κ η} {w : Worker η} (hw : s.worker = some w) :
    s.outstanding out = w.duty.outstanding out := by
  unfold RunState.outstanding
  rw [hw]

/-- The event is done, or its acknowledgement is outstanding. -/
def Held (Done : Db → κ → EventRow → Prop) (out : η → List Str) (s : RunState κ η)
    (row : EventRow) : Prop :=
  Done s.server.store s.disk row ∨ row.eventId ∈ s.outstanding out

/-- Every event of the agent up to the cursor is held, or was passed as applied. -/
def HeldAt (agent : Str) (Done : Db → κ → EventRow → Prop) (out : η → List Str)
    (s : RunState κ η) (pos : ℤ) : Prop :=
  Cursor.Settled rowKey 0 s.server.store.events (Behind agent s.pages (Held Done out s)) pos

/-- The event that is delivered is the next one of its page. -/
def Cause.OnPage (agent : Str) (s : RunState κ η) (pos : ℤ) : Cause → Prop
  | .delivery event rest =>
    Adapter.OnPage agent s.pages s.server.store.events pos (event :: rest)
  | .retry _ => True

/-- The event that was delivered is done, or will be applied. -/
def Cause.Settles (Done : Db → κ → EventRow → Prop) (s : RunState κ η) (ids : List Str) :
    Cause → Prop
  | .delivery event _ => ∀ row ∈ s.server.store.events, Decoded row event →
      Done s.server.store s.disk row ∨ event.eventId ∈ ids
  | .retry _ => True

/-- Where a process stands. -/
def Stands (client : Client) (Done : Db → κ → EventRow → Prop) (out : η → List Str)
    (Inv : Serving → κ → Cause → η → Prop) (s : RunState κ η) (w : Worker η) : Prop :=
  match w.duty with
  | .committing rest => s.cursorTmp = some w.sinceId ∧ HeldAt client.agent Done out s w.sinceId ∧
      OnPage client.agent s.pages s.server.store.events w.sinceId rest
  | .next rest => w.sinceId = s.loaded ∧
      OnPage client.agent s.pages s.server.store.events w.sinceId rest
  | .receiving event rest _ => w.sinceId = s.loaded ∧
      OnPage client.agent s.pages s.server.store.events w.sinceId (event :: rest)
  | .handling c h => w.sinceId = s.loaded ∧ c.OnPage client.agent s w.sinceId ∧
      Inv s.server s.disk c h
  | .applying c ids => w.sinceId = s.loaded ∧ c.OnPage client.agent s w.sinceId ∧
      c.Settles Done s ids
  | .acking c eventId ids i => w.sinceId = s.loaded ∧ c.OnPage client.agent s w.sinceId ∧
      c.Settles Done s (eventId :: ids) ∧
      ∃ r p, s.server.calls[i]? = some (.inr r, p) ∧ client.Acks eventId .applied c.detail r
  | _ => w.sinceId = s.loaded

structure Steady (cfg : ServerConfig) (client : Client) (Done : Db → κ → EventRow → Prop)
    (out : η → List Str) (Inv : Serving → κ → Cause → η → Prop) (s : RunState κ η) : Prop where
  server : Reachable (serving cfg) s.server
  decoded : ∀ p ∈ s.pages, List.Forall₂ Decoded (p.rows client.agent) p.events
  later : ∀ p ∈ s.pages, Later p.db s.server.store
  held : HeldAt client.agent Done out s s.loaded
  worker : ∀ w, s.worker = some w → Stands client Done out Inv s w

section
variable {s s' : RunState κ η} {w : Worker η} {pos : ℤ} {c : Cause} {ids : List Str}
  {rest : List Event}

/-- A request is a step of the server. -/
theorem reachable_ask (h : Reachable (serving cfg) s.server) (r : Asked) :
    Reachable (serving cfg) (s.ask cfg r).server :=
  .step (a := .call r) h trivial rfl

/-- What a step does to the server and the pages. -/
structure Onto (s s' : RunState κ η) : Prop where
  since : Since s.server.store s'.server.store
  pages : s.pages <+: s'.pages
  calls : ∀ (i : ℕ) (c : Asked) (p : EventPhase ⊕ AckPhase), s.server.calls[i]? = some (c, p) →
    ∃ p', s'.server.calls[i]? = some (c, p')

theorem Onto.of_server (hserver : s'.server = s.server) (hpages : s.pages <+: s'.pages) :
    Onto s s' := by
  refine ⟨?_, hpages, fun i c p hi => ⟨p, ?_⟩⟩
  · rw [hserver]
    exact .refl _
  · rw [hserver]
    exact hi

theorem Onto.ask (cfg : ServerConfig) (s : RunState κ η) (r : Asked) : Onto s (s.ask cfg r) := by
  refine ⟨.refl _, List.prefix_rfl, fun i c p hi => ⟨p, ?_⟩⟩
  exact (List.getElem?_append_left (List.getElem?_eq_some_iff.mp hi).1).trans hi

theorem Onto.askOn (cfg : ServerConfig) (s : RunState κ η) (r : Asked) (w : Worker η)
    (duty : Duty η) : Onto s ((s.ask cfg r).goOn w duty) :=
  ⟨(Onto.ask cfg s r).since, List.prefix_rfl, (Onto.ask cfg s r).calls⟩

theorem OnPage.onto (h : OnPage client.agent s.pages s.server.store.events pos rest)
    (hon : Onto s s') (hschema : Schema s'.server.store) :
    OnPage client.agent s'.pages s'.server.store.events pos rest := by
  obtain ⟨more, hmore⟩ := hon.pages
  rw [← hmore]
  exact (h.grow hon.since.later.events hschema.ascending).append more

theorem Cause.OnPage.onto (h : c.OnPage client.agent s pos) (hon : Onto s s')
    (hschema : Schema s'.server.store) : c.OnPage client.agent s' pos := by
  cases c with
  | delivery event rest => exact Adapter.OnPage.onto h hon hschema
  | retry todo => trivial

/-- What is held up to the cursor stays so. -/
theorem HeldAt.onto (h : HeldAt client.agent Done out s pos) (hon : Onto s s')
    (hschema : Schema s'.server.store)
    (hheld : ∀ row ∈ s.server.store.events, forTarget client.agent row = true → rowKey row ≤ pos →
      Held Done out s row → Held Done out s' row ∨ Passed client.agent s'.pages row) :
    HeldAt client.agent Done out s' pos := by
  refine Cursor.Settled.grow h hon.since.later.events hschema.ascending hschema.behind ?_
  intro row hrow hle hdone hfor
  rcases hdone hfor with hold | hpassed
  · exact hheld row hrow hfor hle hold
  · obtain ⟨more, hmore⟩ := hon.pages
    rw [← hmore]
    exact .inr (hpassed.append more)

/-- A step that does not move the cursor on disk. -/
theorem Steady.move (h : Steady cfg client Done out Inv s)
    (hserver : Reachable (serving cfg) s'.server) (hon : Onto s s')
    (hdecoded : ∀ p ∈ s'.pages, List.Forall₂ Decoded (p.rows client.agent) p.events)
    (hpages : ∀ p ∈ s'.pages, p ∈ s.pages ∨ p.db = s'.server.store)
    (hloaded : s'.loaded = s.loaded)
    (hheld : ∀ row ∈ s.server.store.events, forTarget client.agent row = true →
      rowKey row ≤ s.loaded → Held Done out s row →
        Held Done out s' row ∨ Passed client.agent s'.pages row)
    (hworker : ∀ w, s'.worker = some w → Stands client Done out Inv s' w) :
    Steady cfg client Done out Inv s' := by
  refine ⟨hserver, hdecoded, fun p hp => ?_, ?_, hworker⟩
  · rcases hpages p hp with hold | hnew
    · exact (h.later p hold).trans hon.since.later
    · rw [hnew]
      exact .refl _
  · rw [hloaded]
    exact h.held.onto hon (schema_of_reach hserver) hheld

/-- What becomes of the ids that were outstanding. -/
def Resolves (client : Client) (Done : Db → κ → EventRow → Prop) (s : RunState κ η)
    (ids ids' : List Str) : Prop :=
  ∀ row ∈ s.server.store.events, forTarget client.agent row = true → rowKey row ≤ s.loaded →
    row.eventId ∈ ids → Done s.server.store s.disk row ∨ row.eventId ∈ ids' ∨
      Passed client.agent s.pages row

theorem Resolves.of_subset {ids' : List Str} (h : ids ⊆ ids') : Resolves client Done s ids ids' :=
  fun _ _ _ _ hid => .inr (.inl (h hid))

/-- A step of the process that makes no request. -/
theorem Steady.goOn (h : Steady cfg client Done out Inv s) (hw : s.worker = some w) {duty : Duty η}
    (hids : Resolves client Done s (w.duty.outstanding out) (duty.outstanding out))
    (hstands : Stands client Done out Inv (s.goOn w duty) { w with duty := duty }) :
    Steady cfg client Done out Inv (s.goOn w duty) := by
  refine h.move h.server (.of_server rfl List.prefix_rfl) h.decoded (fun _ => .inl) rfl (fun row hrow hfor hle hold => ?_)
    fun w' hw' => ?_
  · rcases hold with hdone | hid
    · exact .inl (.inl hdone)
    · rw [RunState.outstanding_of_worker hw] at hid
      rcases hids row hrow hfor hle hid with hdone | hout | hpassed
      · exact .inl (.inl hdone)
      · exact .inl (.inr hout)
      · exact .inr hpassed
  · rw [← Option.some.inj hw']
    exact hstands

/-- A step of the process that makes a request. -/
theorem Steady.askOn (h : Steady cfg client Done out Inv s) (hw : s.worker = some w) {duty : Duty η}
    (r : Asked) (hids : Resolves client Done s (w.duty.outstanding out) (duty.outstanding out))
    (hstands : Stands client Done out Inv ((s.ask cfg r).goOn w duty) { w with duty := duty }) :
    Steady cfg client Done out Inv ((s.ask cfg r).goOn w duty) := by
  refine h.move (reachable_ask h.server r) (.askOn cfg s r w duty) h.decoded (fun _ => .inl) rfl
    (fun row hrow hfor hle hold => ?_) fun w' hw' => ?_
  · rcases hold with hdone | hid
    · exact .inl (.inl hdone)
    · rw [RunState.outstanding_of_worker hw] at hid
      rcases hids row hrow hfor hle hid with hdone | hout | hpassed
      · exact .inl (.inl hdone)
      · exact .inl (.inr hout)
      · exact .inr hpassed
  · rw [← Option.some.inj hw']
    exact hstands

/-! ## The steps -/

theorem Steady.stands (h : Steady cfg client Done out Inv s) (hw : s.worker = some w)
    {duty : Duty η} (hduty : w.duty = duty) : Stands client Done out Inv s ⟨w.sinceId, duty⟩ := by
  rw [← hduty]
  exact h.worker w hw

/-- The page of an event holds no other row for it. -/
theorem Cause.Settles.onto {event : Event} (hsettles : (Cause.delivery event rest).Settles Done s ids)
    (hpage : Adapter.OnPage client.agent s.pages s.server.store.events pos (event :: rest))
    (hon : Onto s s') (hschema : Schema s'.server.store)
    (hdone : ∀ row, Done s.server.store s.disk row → Done s'.server.store s'.disk row) :
    (Cause.delivery event rest).Settles Done s' ids := by
  intro row hrow hdecoded
  obtain ⟨old, hold, hsame, -⟩ := hpage.next
  have hkey : row = old := by
    refine hschema.ascending.eq_of_key hrow (hon.since.later.events.subset hold) ?_
    rw [rowKey, rowKey, ← hdecoded.id, ← hsame.id]
  rw [hkey]
  exact (hsettles old hold hsame).imp_left (hdone old)

theorem Cause.settles_onto (hsettles : c.Settles Done s ids)
    (hpage : c.OnPage client.agent s pos)
    (hon : Onto s s') (hschema : Schema s'.server.store)
    (hdone : ∀ row, Done s.server.store s.disk row → Done s'.server.store s'.disk row) :
    c.Settles Done s' ids := by
  cases c with
  | delivery event rest => exact Cause.Settles.onto hsettles hpage hon hschema hdone
  | retry todo => trivial

/-- A pull. -/
theorem Steady.pull (h : Steady cfg client Done out Inv s) (hw : s.worker = some w)
    (hout : w.duty.Outside) {page : EventPage}
    (hpulled : Pulled cfg client w.sinceId s.server.store page) :
    Steady cfg client Done out Inv
      { s.goOn w (.next page.events) with pages := s.pages ++ [page] } := by
  have hplace := h.worker w hw
  have hsince : w.sinceId = s.loaded ∧ w.duty.outstanding out = [] := by
    unfold Stands at hplace
    cases hduty : w.duty with
    | started | returned | raised =>
      rw [hduty] at hplace
      exact ⟨hplace, rfl⟩
    | _ =>
      rw [hduty] at hout
      exact hout.elim
  have hschema := schema_of_reach h.server
  refine h.move h.server (.of_server rfl (List.prefix_append _ _)) (fun p hp => ?_)
    (fun p hp => ?_) rfl (fun row hrow hfor hle hold => ?_) fun w' hw' => ?_
  · rcases List.mem_append.mp hp with hold | hnew
    · exact h.decoded p hold
    · rw [List.mem_singleton.mp hnew]
      exact hpulled.serves.2
  · obtain ⟨_, _, -, -, hdb, -⟩ := hpulled
    rcases List.mem_append.mp hp with hold | hnew
    · exact .inl hold
    · rw [List.mem_singleton.mp hnew]
      exact .inr hdb
  · rcases hold with hdone | hid
    · exact .inl (.inl hdone)
    · rw [RunState.outstanding_of_worker hw, hsince.2] at hid
      exact absurd hid List.not_mem_nil
  · rw [← Option.some.inj hw']
    exact ⟨hsince.1, .pulled hpulled hschema.ascending⟩

/-- A step of the handler. -/
theorem Steady.handle (hH : Contract cfg client H Done out Inv) (h : Steady cfg client Done out Inv s)
    (hw : s.worker = some w) {x x' : η} {disk : κ} {r : Option Asked}
    (hduty : w.duty = .handling c x) (hstep : H.step s.server s.disk x disk r x') :
    Steady cfg client Done out Inv
      { (s.askSome cfg r).goOn w (.handling c x') with disk := disk } := by
  obtain ⟨hsince, hpage, hinv⟩ := h.stands hw hduty
  obtain ⟨hinv', hkeeps⟩ := hH.step _ _ _ _ _ _ _ h.server hinv hstep
  have hon : Onto s { (s.askSome cfg r).goOn w (.handling c x') with disk := disk } := by
    cases r with
    | none => exact .of_server rfl List.prefix_rfl
    | some r => exact ⟨(Onto.ask cfg s r).since, List.prefix_rfl, (Onto.ask cfg s r).calls⟩
  have hserver : Reachable (serving cfg) (s.askSome cfg r).server := by
    cases r with
    | none => exact h.server
    | some r => exact reachable_ask h.server r
  have hstore : (s.askSome cfg r).server.store = s.server.store := by cases r <;> rfl
  have hcalls : (s.askSome cfg r).server.calls =
      s.server.calls ++ (r.map fun r => (r, (handlers cfg).start r)).toList := by
    cases r with
    | none => exact (List.append_nil _).symm
    | some r => rfl
  have hpages : (s.askSome cfg r).pages = s.pages := by cases r <;> rfl
  have hcursor : (s.askSome cfg r).loaded = s.loaded := by cases r <;> rfl
  refine h.move hserver hon ?_ (fun p hp => .inl ?_) hcursor (fun row hrow hfor hle hold => .inl ?_) fun w' hw' => ?_
  · rw [show ({ (s.askSome cfg r).goOn w (.handling c x') with disk := disk } :
      RunState κ η).pages = s.pages from hpages]
    exact h.decoded
  · rw [← hpages]
    exact hp
  · have hheld : Done s.server.store s.disk row ∨ row.eventId ∈ out x := by
      refine hold.imp_right fun hid => ?_
      rw [RunState.outstanding_of_worker hw, hduty] at hid
      exact hid
    rw [Held, show ({ (s.askSome cfg r).goOn w (.handling c x') with disk := disk } :
      RunState κ η).server.store = s.server.store from hstore]
    exact hkeeps row hheld
  · rw [← Option.some.inj hw']
    exact ⟨hsince.trans hcursor.symm, hpage.onto hon (schema_of_reach hserver),
      hinv' _ hstore hcalls⟩

/-- An acknowledgement was answered. -/
theorem Steady.applied (hH : Contract cfg client H Done out Inv) (h : Steady cfg client Done out Inv s)
    (hw : s.worker = some w) {eventId : Str} {i : ℕ} {reply : Reply}
    (hduty : w.duty = .acking c eventId ids i) (hanswer : answer cfg s.server i = some reply)
    (hok : reply.status < 300) : Steady cfg client Done out Inv (s.goOn w (.applying c ids)) := by
  obtain ⟨hsince, hpage, hsettles, r, p, hi, hacks⟩ := h.stands hw hduty
  have hack := acked_of_answer (requests_of_reach h.server).2 hi hacks hanswer hok
  have hdone : ∀ row : EventRow, row.eventId = eventId → Done s.server.store s.disk row := by
    rintro row rfl
    exact hH.acked _ _ _ hack
  refine h.goOn hw (fun row _ _ _ hid => ?_) ⟨hsince, hpage.onto (.of_server rfl List.prefix_rfl)
    (schema_of_reach h.server), ?_⟩
  · rw [hduty] at hid
    rcases List.mem_cons.mp hid with heq | hlater
    · exact .inl (hdone row heq)
    · exact .inr (.inl hlater)
  · cases c with
    | retry todo => trivial
    | delivery event rest =>
      intro row hrow hdecoded
      rcases hsettles row hrow hdecoded with hold | hid
      · exact .inl hold
      · rcases List.mem_cons.mp hid with heq | hlater
        · exact .inl (hdone row ((decoded_names hdecoded).1.symm.trans heq))
        · exact .inr hlater

/-- The handler has returned. -/
theorem Steady.handled (hH : Contract cfg client H Done out Inv) (h : Steady cfg client Done out Inv s)
    (hw : s.worker = some w) {x : η} {result : Option (List Str)} (hduty : w.duty = .handling c x)
    (hreturns : H.returns x = some result) :
    Steady cfg client Done out Inv (s.goOn w (.applying c (c.ids result))) := by
  obtain ⟨hsince, hpage, hinv⟩ := h.stands hw hduty
  obtain ⟨hids, hdone⟩ := hH.returns _ _ _ _ _ hinv hreturns
  refine h.goOn hw (fun row _ _ _ hid => .inr (.inl (hids _ ?_))) ⟨hsince,
    hpage.onto (.of_server rfl List.prefix_rfl) (schema_of_reach h.server), ?_⟩
  · rw [hduty] at hid
    exact hid
  · cases c with
    | retry todo => trivial
    | delivery event rest => exact fun row _ hdecoded => hdone event rest rfl row hdecoded

/-- The event is done, and the cursor moves, in memory, -/
theorem Steady.advance (h : Steady cfg client Done out Inv s) (hw : s.worker = some w) {event : Event}
    (hduty : w.duty = .applying (.delivery event rest) []) :
    Steady cfg client Done out Inv { s with
      worker := some ⟨max w.sinceId event.id, .committing rest⟩,
      cursorTmp := some (max w.sinceId event.id) } := by
  obtain ⟨hsince, hpage, hsettles⟩ := h.stands hw hduty
  have hpage' : OnPage client.agent s.pages s.server.store.events w.sinceId (event :: rest) := hpage
  have hschema := schema_of_reach h.server
  have hheld : ∀ row, Held Done out s row → Done s.server.store s.disk row := by
    intro row hold
    refine hold.resolve_right fun hid => ?_
    rw [RunState.outstanding_of_worker hw, hduty] at hid
    exact absurd hid List.not_mem_nil
  have hon : Onto s { s with
      worker := some ⟨max w.sinceId event.id, .committing rest⟩,
      cursorTmp := some (max w.sinceId event.id) } := .of_server rfl List.prefix_rfl
  refine h.move h.server hon h.decoded (fun _ => .inl) rfl (fun row _ _ _ hold => .inl (.inl (hheld row hold)))
    fun w' hw' => ?_
  rw [← Option.some.inj hw']
  refine ⟨rfl, ?_, hpage'.advance⟩
  have hbefore := h.held.onto hon hschema fun row _ _ _ hold => .inl (.inl (hheld row hold))
  rw [← hsince] at hbefore
  refine hpage'.settled h.decoded hbefore fun row hdecoded hrow => .inl ?_
  exact (hsettles row hrow hdecoded).resolve_right List.not_mem_nil

/-- and on disk. -/
theorem Steady.commit (h : Steady cfg client Done out Inv s) (hw : s.worker = some w) {pos : ℤ}
    (hduty : w.duty = .committing rest) (htmp : s.cursorTmp = some pos) :
    Steady cfg client Done out Inv { s.goOn w (.next rest) with
      cursor := some pos, cursorTmp := none } := by
  obtain ⟨hpos, hheld, hpage⟩ := h.stands hw hduty
  have heq : w.sinceId = pos := Option.some.inj (hpos.symm.trans htmp)
  have hnone : s.outstanding out = [] := by
    rw [RunState.outstanding_of_worker hw, hduty]
    rfl
  refine ⟨h.server, h.decoded, h.later, ?_, fun w' hw' => ?_⟩
  · show HeldAt client.agent Done out _ pos
    rw [← heq]
    refine hheld.onto (.of_server rfl List.prefix_rfl) (schema_of_reach h.server)
      fun row _ _ _ hold => .inl (.inl (hold.resolve_right fun hid => ?_))
    rw [hnone] at hid
    exact absurd hid List.not_mem_nil
  · rw [← Option.some.inj hw']
    exact ⟨heq, hpage⟩

/-- One step of `run_once` or of `retry_due`. -/
theorem Steady.work (hH : Contract cfg client H Done out Inv) (h : Steady cfg client Done out Inv s)
    (hw : s.worker = some w) (hstep : WorkerStep cfg client H s w s') :
    Steady cfg client Done out Inv s' := by
  have hnone : ∀ duty : Duty η, w.duty.outstanding out = [] →
      Resolves client Done s (w.duty.outstanding out) (duty.outstanding out) := by
    intro duty hempty
    rw [hempty]
    exact .of_subset (List.nil_subset _)
  have hschema := schema_of_reach h.server
  cases hstep with
  | pull hout hpulled => exact h.pull hw hout hpulled
  | ends hduty =>
    refine h.goOn hw (hnone _ (by rw [hduty]; rfl)) ?_
    exact (h.stands hw hduty).1
  | receive hduty hacks =>
    refine h.askOn hw _ (hnone _ (by rw [hduty]; rfl)) ?_
    exact h.stands hw hduty
  | receiveAgain hduty hacks =>
    refine h.askOn hw _ (hnone _ (by rw [hduty]; rfl)) ?_
    exact h.stands hw hduty
  | received hduty hanswer hok =>
    obtain ⟨hsince, hpage⟩ := h.stands hw hduty
    refine h.goOn hw (hnone _ (by rw [hduty]; rfl)) ⟨hsince, hpage, ?_⟩
    exact hH.deliver _ _ _ _
  | handle hduty hstep => exact h.handle hH hw hduty hstep
  | handled hduty hreturns => exact h.handled hH hw hduty hreturns
  | reported hduty =>
    refine h.goOn hw (hnone _ (by rw [hduty]; rfl)) ?_
    exact h.stands hw hduty
  | @apply c eventId ids r hduty hacks =>
    obtain ⟨hsince, hpage, hsettles⟩ := h.stands hw hduty
    refine h.askOn hw _ (by rw [hduty]; exact .of_subset (List.Subset.refl _)) ⟨hsince,
      hpage.onto (.askOn cfg s _ _ _) hschema, hsettles, r, (handlers cfg).start (.inr r), ?_, hacks⟩
    exact List.getElem?_concat_length
  | @applyAgain c eventId ids i r hduty hacks =>
    obtain ⟨hsince, hpage, hsettles, -⟩ := h.stands hw hduty
    refine h.askOn hw _ (by rw [hduty]; exact .of_subset (List.Subset.refl _)) ⟨hsince,
      hpage.onto (.askOn cfg s _ _ _) hschema, hsettles, r, (handlers cfg).start (.inr r), ?_, hacks⟩
    exact List.getElem?_concat_length
  | applied hduty hanswer hok => exact h.applied hH hw hduty hanswer hok
  | advance hduty => exact h.advance hw hduty
  | commit hduty htmp => exact h.commit hw hduty htmp
  | retryDue hduty hdue =>
    refine h.goOn hw (hnone _ (by rw [hduty]; rfl)) ?_
    exact h.stands hw hduty
  | retry hduty =>
    refine h.goOn hw (hnone _ (by rw [hduty]; rfl)) ⟨h.stands hw hduty, trivial, ?_⟩
    exact hH.retry _ _ _ _
  | retried hduty =>
    refine h.goOn hw (hnone _ (by rw [hduty]; rfl)) ?_
    exact (h.stands hw hduty).1
  | retryEnds hduty =>
    refine h.goOn hw (hnone _ (by rw [hduty]; rfl)) ?_
    exact h.stands hw hduty

/-- A step of the server. -/
theorem Steady.serve (hH : Contract cfg client H Done out Inv) (h : Steady cfg client Done out Inv s)
    {act : Callers.Action Db Asked Time} {server : Serving}
    (hstep : (serving cfg).step s.server act server) :
    Steady cfg client Done out Inv { s with server := server } := by
  have hserver : Reachable (serving cfg) server := .step h.server trivial hstep
  have hsince := serving_since hstep
  have hon : Onto s { s with server := server } :=
    ⟨hsince, List.prefix_rfl, fun _ _ _ hi => asked_of_step hstep hi⟩
  have hschema := schema_of_reach hserver
  have hdone : ∀ row, Done s.server.store s.disk row → Done server.store s.disk row :=
    fun row => hH.later _ _ _ _ hsince
  have hheld : ∀ row, Held Done out s row → Held Done out { s with server := server } row :=
    fun row hold => hold.imp_left (hdone row)
  refine h.move hserver hon h.decoded (fun _ => .inl) rfl (fun row _ _ _ hold => .inl (hheld row hold))
    fun w hw => ?_
  have hw' : s.worker = some w := hw
  have hplace := h.worker w hw'
  unfold Stands at hplace ⊢
  -- what the process waits for stays what it is
  cases hduty : w.duty with
  | started | returned | raised | reporting i | retrying todo =>
    rw [hduty] at hplace
    exact hplace
  | next rest =>
    rw [hduty] at hplace
    exact ⟨hplace.1, hplace.2.onto hon hschema⟩
  | receiving event rest i =>
    rw [hduty] at hplace
    exact ⟨hplace.1, hplace.2.onto hon hschema⟩
  | handling c x =>
    rw [hduty] at hplace
    exact ⟨hplace.1, hplace.2.1.onto hon hschema, hH.serve _ _ _ _ _ _ hstep hplace.2.2⟩
  | applying c ids =>
    rw [hduty] at hplace
    exact ⟨hplace.1, hplace.2.1.onto hon hschema,
      Cause.settles_onto hplace.2.2 hplace.2.1 hon hschema hdone⟩
  | acking c eventId ids i =>
    rw [hduty] at hplace
    obtain ⟨hpos, hpage, hsettles, r, p, hi, hacks⟩ := hplace
    obtain ⟨p', hi'⟩ := asked_of_step hstep hi
    exact ⟨hpos, hpage.onto hon hschema, Cause.settles_onto hsettles hpage hon hschema hdone,
      r, p', hi', hacks⟩
  | committing rest =>
    rw [hduty] at hplace
    exact ⟨hplace.1, hplace.2.1.onto hon hschema fun row _ _ _ hold => .inl (hheld row hold),
      hplace.2.2.onto hon hschema⟩

/-- An exception leaves the cursor in memory where the one on disk is. -/
theorem Steady.sinceId_eq (h : Steady cfg client Done out Inv s) (hw : s.worker = some w)
    (hout : ∀ rest, w.duty ≠ .committing rest) : w.sinceId = s.loaded := by
  have hplace := h.worker w hw
  unfold Stands at hplace
  cases hduty : w.duty with
  | committing rest => exact absurd hduty (hout rest)
  | started | returned | raised | reporting i | retrying todo =>
    rw [hduty] at hplace
    exact hplace
  | _ =>
    rw [hduty] at hplace
    exact hplace.1

/-- What is lost when the process stops. -/
def Spares (client : Client) (Done : Db → κ → EventRow → Prop) (out : η → List Str)
    (s : RunState κ η) : RunAct → Prop
  | .crash | .raise => Resolves client Done s (s.outstanding out) []
  | _ => True

/-- An exception. -/
theorem Steady.raise (h : Steady cfg client Done out Inv s) (hw : s.worker = some w)
    (hspares : Resolves client Done s (s.outstanding out) [])
    (hraise : RaiseStep cfg client H s w s') : Steady cfg client Done out Inv s' := by
  rw [RunState.outstanding_of_worker hw] at hspares
  have hpos : (∀ rest, w.duty ≠ .committing rest) → w.sinceId = s.loaded := h.sinceId_eq hw
  cases hraise with
  | handler hduty hraises hacks =>
    exact h.askOn hw _ hspares (hpos (by rw [hduty]; exact nofun))
  | retry hduty hraises => exact h.goOn hw hspares (hpos (by rw [hduty]; exact nofun))
  | client hasks =>
    refine h.goOn hw hspares (hpos fun rest hduty => ?_)
    rw [hduty] at hasks
    exact hasks

/-- Every step that drops no event keeps the invariant. -/
theorem Steady.step {disk : κ} {act : RunAct} (hH : Contract cfg client H Done out Inv)
    (h : Steady cfg client Done out Inv s) (hspares : Spares client Done out s act)
    (hstep : (adapters cfg client H disk).step s act s') : Steady cfg client Done out Inv s' := by
  cases act with
  | server act =>
    obtain ⟨server, hserver, rfl⟩ := hstep
    exact h.serve hH hserver
  | start =>
    obtain ⟨hnone, rfl⟩ := hstep
    refine h.move h.server (.of_server rfl List.prefix_rfl) h.decoded (fun _ => .inl) rfl
      (fun row _ _ _ hold => .inl (.inl (hold.resolve_right fun hid => ?_))) fun w hw => ?_
    · rw [RunState.outstanding, hnone] at hid
      exact absurd hid List.not_mem_nil
    · rw [← Option.some.inj hw]
      exact (rfl : s.loaded = s.loaded)
  | crash =>
    cases hstep
    refine h.move h.server (.of_server rfl List.prefix_rfl) h.decoded (fun _ => .inl) rfl
      (fun row hrow hfor hle hold => ?_) nofun
    rcases hold with hdone | hid
    · exact .inl (.inl hdone)
    · rcases hspares row hrow hfor hle hid with hdone | hnil | hpassed
      · exact .inl (.inl hdone)
      · exact absurd hnil List.not_mem_nil
      · exact .inr hpassed
  | work =>
    obtain ⟨w, hw, hwork⟩ := hstep
    exact h.work hH hw hwork
  | raise =>
    obtain ⟨w, hw, hraise⟩ := hstep
    exact h.raise hw hspares hraise

end

/-! ## Every run -/

variable {disk : κ} {s : RunState κ η}

theorem steady_of_reach (hH : Contract cfg client H Done out Inv)
    (h : Reach (adapters cfg client H disk) (Spares client Done out) s) :
    Steady cfg client Done out Inv s := by
  refine Reach.invariant (fun s hs => ?_) (fun s act s' hs hspares hstep =>
    hs.step hH hspares hstep) h
  obtain ⟨server, hserver, rfl⟩ := hs
  refine ⟨.init hserver, nofun, nofun, ?_, nofun⟩
  exact Cursor.Settled.atStart hserver.1.behind

/-- An event that a pull passed over is done. -/
theorem Steady.passed (hH : Contract cfg client H Done out Inv) (h : Steady cfg client Done out Inv s)
    {row : EventRow} (hpassed : Passed client.agent s.pages row) :
    Done s.server.store s.disk row := by
  obtain ⟨p, hp, -, -, hhides⟩ := hpassed
  exact hH.acked _ _ _ ((h.later p hp).acks _ _ _ hhides.2)

/-- No event up to the cursor is lost, unless its acknowledgement is outstanding. -/
theorem kept_of_reach (hH : Contract cfg client H Done out Inv)
    (h : Reach (adapters cfg client H disk) (Spares client Done out) s) {row : EventRow}
    (hrow : row ∈ s.server.store.events) (hfor : forTarget client.agent row = true)
    (hle : (row.id : ℤ) ≤ s.loaded) : Held Done out s row := by
  have hsteady := steady_of_reach hH h
  rcases hsteady.held.done row hrow hle hfor with hheld | hpassed
  · exact hheld
  · exact .inl (hsteady.passed hH hpassed)

end Adapter
end ATalk
