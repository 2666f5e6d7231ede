import ATalk.Adapter.Tasks
import ATalk.Adapter.AnsweredOnce

/-!
# The OpenClaw adapter

`openclaw_handler`: it files an event in the task store, lets OpenClaw work on its thread, and sends
what comes of it as a reply. A thread that is complete is forgotten, and its events are applied; one
that waits is retried between two runs of the adapter.

* `openclawHandler` : the handler;
* `openclaw_contract` : what it owes its events;
* `openclaw_keeps` : no event is lost while nothing stops the adapter between the completion of a
  thread and the acknowledgements of its events.
-/

namespace ATalk
namespace Adapter

open Text Python Sqlite ATalk.Core Federation Checks Transition Callers Server Backends KeyedTable

/-! ## The handler -/

/-- A call of `process`. -/
structure Job where
  event : Event
  retry : Bool

/-- What came of the work: the visible reply, the status, and the number of retries and the ids of
the thread. -/
structure Outcome where
  visible : Str
  status : WorkStatus
  attempt : ℕ
  eventIds : List Str

/-- Where `process` is: called, waiting for OpenClaw, with its reply, with the thread settled, in
`client.send`, behind it, or at its end with the ids that it applies. -/
inductive Working where
  | called (job : Job)
  | running (job : Job)
  | replied (job : Job) (visible : Str) (status : WorkStatus)
  | settled (job : Job) (o : Outcome)
  | sending (job : Job) (o : Outcome) (i : ℕ)
  | sent (job : Job) (o : Outcome)
  | ended (job : Job) (eventIds : List Str)

section
variable (cfg : ServerConfig) (client : Client) (ids : NameIds) (str : Val → Str)
  (sessionPrefix : Str) (waitEventDriven : Bool)

/-- The steps of `process`. OpenClaw may come to any outcome. -/
inductive WorkStep (s : Serving) (file : TaskFile) :
    Working → TaskFile → Option Asked → Working → Prop
  | skip {job : Job} : shouldHandle job.event = false →
      WorkStep s file (.called job) file none (.ended job [])
  | append {job : Job} {now : ℤ} : shouldHandle job.event = true → eventText str job.event ≠ [] →
      job.retry = false → WorkStep s file (.called job)
        (file.append str job.event (sessionId str sessionPrefix job.event) now) none (.running job)
  | look {job : Job} {t : Thread} : shouldHandle job.event = true → eventText str job.event ≠ [] →
      job.retry = true → file.get (threadKey str job.event) = some t →
      WorkStep s file (.called job) file none (.running job)
  | run {job : Job} {visible : Str} {status : WorkStatus} : visible ≠ [] →
      WorkStep s file (.running job) file none (.replied job visible status)
  | settle {job : Job} {visible : Str} {status : WorkStatus} {t : Thread} {eventIds : List Str}
      {file' : TaskFile} {now : ℤ} : file.get (threadKey str job.event) = some t →
      file.setStatus str job.event status visible now = some (eventIds, file') →
      WorkStep s file (.replied job visible status) file' none
        (.settled job ⟨visible, status, t.retryCount, eventIds⟩)
  | quiet {job : Job} {o : Outcome} : job.retry = true → o.status = .waiting →
      WorkStep s file (.settled job o) file none (.sent job o)
  | send {job : Job} {o : Outcome} {r : Request} : ¬ (job.retry = true ∧ o.status = .waiting) →
      client.Sends (openclawReply ids client job.event o.visible o.status o.attempt) r →
      WorkStep s file (.settled job o) file (some (.inl r)) (.sending job o s.calls.length)
  | sendAgain {job : Job} {o : Outcome} {i : ℕ} {r : Request} :
      client.Sends (openclawReply ids client job.event o.visible o.status o.attempt) r →
      WorkStep s file (.sending job o i) file (some (.inl r)) (.sending job o s.calls.length)
  | answered {job : Job} {o : Outcome} {i : ℕ} {reply : Reply} : answer cfg s i = some reply →
      reply.status < 300 → WorkStep s file (.sending job o i) file none (.sent job o)
  | finalize {job : Job} {o : Outcome} : o.status = .complete →
      WorkStep s file (.sent job o) (file.finalizeComplete str job.event) none
        (.ended job o.eventIds)
  | keep {job : Job} {o : Outcome} : o.status ≠ .complete →
      WorkStep s file (.sent job o) file none (.ended job [])

/-- Its exceptions: of its own, of the task store, of OpenClaw, of the client. -/
inductive WorkRaise : Working → Str → Prop
  | text {job : Job} : shouldHandle job.event = true → eventText str job.event = [] →
      WorkRaise (.called job) (lit "OpenClaw message payload requires non-empty text")
  | file {job : Job} {message : Str} : shouldHandle job.event = true → eventText str job.event ≠ [] →
      WorkRaise (.called job) message
  | run {job : Job} {message : Str} : WorkRaise (.running job) message
  | settle {job : Job} {visible message : Str} {status : WorkStatus} :
      WorkRaise (.replied job visible status) message
  | client {job : Job} {o : Outcome} {message : Str} {i : ℕ} : WorkRaise (.sending job o i) message
  | finalize {job : Job} {o : Outcome} {message : Str} : o.status = .complete →
      WorkRaise (.sent job o) message

/-- `openclaw_handler` with a task store. -/
def openclawHandler : Handler TaskFile Working where
  deliver event := .called ⟨event, false⟩
  retry event := .called ⟨event, true⟩
  due file todo := waitEventDriven = false ∧ ∃ now, todo = file.due now
  step s file h file' r h' := WorkStep cfg client ids str sessionPrefix s file h file' r h'
  returns
    | .ended _ eventIds => some (some eventIds)
    | _ => none
  raises := WorkRaise str

end

/-! ## The contract -/

/-- An event that is kept: it was applied, a thread keeps it open, or it is none to handle. -/
def Secured (client : Client) (db : Db) (file : TaskFile) (row : EventRow) : Prop :=
  hasAck db row.eventId client.agent .applied = true ∨ Listed file row.eventId ∨
    ∃ event, Decoded row event ∧ shouldHandle event = false

namespace Working

/-- The call. -/
def job : Working → Job
  | .called job | .running job | .replied job _ _ | .settled job _ | .sending job _ _
  | .sent job _ | .ended job _ => job

/-- The ids of a thread that is complete, until they are returned. -/
def taken : Working → List Str
  | .settled _ o | .sending _ o _ | .sent _ o => if o.status = .complete then o.eventIds else []
  | .ended _ eventIds => eventIds
  | _ => []

end Working

/-- The thread was settled: it is complete, or lists the event. -/
structure Settled (str : Val → Str) (file : TaskFile) (job : Job) (o : Outcome) : Prop where
  complete : o.status = .complete → ∀ t ∈ file.rows, t.key = threadKey str job.event →
    t.status = .complete
  listed : job.retry = false → job.event.eventId ∈ o.eventIds ∧
    (o.status ≠ .complete → Listed file job.event.eventId)

/-- What the handler has come to. -/
def Working.Fits (str : Val → Str) (file : TaskFile) : Working → Prop
  | .called _ => True
  | .running job | .replied job _ _ => job.retry = false → Filed str file job.event
  | .settled job o | .sending job o _ | .sent job o => Settled str file job o
  | .ended job eventIds => job.retry = false → shouldHandle job.event = false ∨
      job.event.eventId ∈ eventIds ∨ Listed file job.event.eventId

def WorkInv (str : Val → Str) (_ : Serving) (file : TaskFile) (c : Cause) (h : Working) : Prop :=
  h.Fits str file ∧ ∀ event rest, c = .delivery event rest → h.job = ⟨event, false⟩

section
variable {cfg : ServerConfig} {client : Client} {ids : NameIds} {str : Val → Str}
  {sessionPrefix : Str} {waitEventDriven : Bool} {s : Serving} {file file' : TaskFile}
  {h h' : Working} {asked : Option Asked} {eventId : Str}

/-- One step of `process`. -/
theorem workStep_fits (hstep : WorkStep cfg client ids str sessionPrefix s file h file' asked h')
    (hfits : h.Fits str file) : h'.Fits str file' ∧ h'.job = h.job := by
  cases hstep with
  | skip hskip => exact ⟨fun _ => .inl hskip, rfl⟩
  | append hhandle htext hretry => exact ⟨fun _ => filed_append .., rfl⟩
  | look hhandle htext hretry hget =>
    refine ⟨fun hdelivered => ?_, rfl⟩
    rw [hretry] at hdelivered
    cases hdelivered
  | run hvisible => exact ⟨hfits, rfl⟩
  | @settle job visible status t eventIds file' now hget hset =>
    have hsettles := settles_of_setStatus hset
    refine ⟨⟨fun hcomplete t ht hkey => ?_, fun hdelivered => ?_⟩, rfl⟩
    · have hstatus : status = .complete := hcomplete
      rw [hsettles.status_eq ht hkey, hstatus]
      rfl
    · have hmem := hsettles.filed (hfits hdelivered)
      exact ⟨hmem, fun hopen => hsettles.lists hopen hmem⟩
  | quiet hretry hwaiting => exact ⟨hfits, rfl⟩
  | send hloud hsends => exact ⟨hfits, rfl⟩
  | sendAgain hsends => exact ⟨hfits, rfl⟩
  | answered hanswer hok => exact ⟨hfits, rfl⟩
  | finalize hcomplete => exact ⟨fun hdelivered => .inr (.inl (hfits.listed hdelivered).1), rfl⟩
  | keep hopen => exact ⟨fun hdelivered => .inr (.inr ((hfits.listed hdelivered).2 hopen)), rfl⟩

/-- It gives up no id that it does not take. -/
theorem workStep_keeps (hstep : WorkStep cfg client ids str sessionPrefix s file h file' asked h')
    (hfits : h.Fits str file) (hlisted : Listed file eventId ∨ eventId ∈ h.taken) :
    Listed file' eventId ∨ eventId ∈ h'.taken := by
  cases hstep with
  | append hhandle htext hretry =>
    exact .inl (hlisted.resolve_right List.not_mem_nil).append
  | @settle job visible status t eventIds file' now hget hset =>
    have hsettles := settles_of_setStatus hset
    rcases hsettles.listed (hlisted.resolve_right List.not_mem_nil) with hold | hmem
    · exact .inl hold
    · by_cases hcomplete : status = .complete
      · exact .inr (by rw [Working.taken, if_pos hcomplete]; exact hmem)
      · exact .inl (hsettles.lists hcomplete hmem)
  | finalize hcomplete =>
    rcases hlisted with hold | hmem
    · exact .inl (hold.finalize (hfits.complete hcomplete))
    · rw [Working.taken, if_pos hcomplete] at hmem
      exact .inr hmem
  | keep hopen =>
    rw [Working.taken, if_neg hopen] at hlisted
    exact hlisted
  | _ => exact hlisted

/-- `openclaw_handler` keeps its contract. -/
theorem openclaw_contract (cfg : ServerConfig) (client : Client) (ids : NameIds) (str : Val → Str)
    (sessionPrefix : Str) (waitEventDriven : Bool) :
    Contract cfg client (openclawHandler cfg client ids str sessionPrefix waitEventDriven)
      (Secured client) Working.taken (WorkInv str) where
  later db db' file row hsince hdone := hdone.imp_left (hsince.later.acks _ _ _)
  acked db file row hack := .inl hack
  serve s s' act file c h hstep hinv := hinv
  deliver s file event rest := ⟨trivial, fun event' rest' heq => by cases heq; rfl⟩
  retry s file event todo := ⟨trivial, nofun⟩
  step s file c h file' r h' hreach hinv hstep := by
    obtain ⟨hfits, hjob⟩ := workStep_fits hstep hinv.1
    refine ⟨fun s' _ _ => ⟨hfits, fun event rest heq => hjob.trans (hinv.2 event rest heq)⟩, ?_⟩
    intro row hdone
    have hkeeps : Listed file row.eventId ∨ row.eventId ∈ h.taken →
        Listed file' row.eventId ∨ row.eventId ∈ h'.taken := workStep_keeps hstep hinv.1
    rcases hdone with (hack | hlisted | hskipped) | hmem
    · exact .inl (.inl hack)
    · exact (hkeeps (.inl hlisted)).imp_left fun hlisted' => .inr (.inl hlisted')
    · exact .inl (.inr (.inr hskipped))
    · exact (hkeeps (.inr hmem)).imp_left fun hlisted' => .inr (.inl hlisted')
  returns s file c h result hinv hreturns := by
    cases h with
    | ended job eventIds =>
      cases hreturns
      have hids : c.ids (some eventIds) = eventIds := by cases c <;> rfl
      rw [hids]
      refine ⟨fun eventId hmem => hmem, ?_⟩
      rintro event rest rfl row hdecoded
      have hjob : job = ⟨event, false⟩ := hinv.2 event rest rfl
      have hfits := hinv.1
      rw [hjob] at hfits
      have hid := (decoded_names hdecoded).1
      rcases hfits rfl with hskip | hmem | hlisted
      · exact .inl (.inr (.inr ⟨event, hdecoded, hskip⟩))
      · exact .inr hmem
      · refine .inl (.inr (.inl ?_))
        rw [← hid]
        exact hlisted
    | _ => cases hreturns

end

/-! ## Every run -/

/-- The adapter is stopped. -/
def RunState.Stopped {κ η : Type} (s : RunState κ η) : Prop :=
  s.worker = none ∨ ∃ w, s.worker = some w ∧ w.duty = .raised

/-- When the adapter is stopped, an event to handle up to the cursor on disk was applied, or a thread
keeps it open. -/
def NeverLoses (client : Client) (s : RunState TaskFile Working) : Prop :=
  s.Stopped → ∀ row ∈ s.server.store.events, ∀ event, Decoded row event →
    forTarget client.agent row = true → shouldHandle event = true → (row.id : ℤ) ≤ s.loaded →
      hasAck s.server.store row.eventId client.agent .applied = true ∨ Listed s.disk row.eventId

/-- Nothing stops the adapter between the completion of a thread and the last acknowledgement of its
events, unless those of the events that are behind the cursor have been made. -/
def Unbroken (client : Client) (s : RunState TaskFile Working) : RunAct → Prop
  | .crash | .raise => ∀ row ∈ s.server.store.events, forTarget client.agent row = true →
      (row.id : ℤ) ≤ s.loaded → row.eventId ∈ s.outstanding Working.taken →
        hasAck s.server.store row.eventId client.agent .applied = true
  | _ => True

/-- A file without threads. -/
def noTasks : TaskFile := Keyed.empty

/-- In every run of the OpenClaw adapter that nothing stops on the way from the completion of a thread
to the acknowledgements of its events, no event up to the cursor is lost. -/
theorem openclaw_keeps (cfg : ServerConfig) (client : Client) (ids : NameIds) (str : Val → Str)
    (sessionPrefix : Str) (waitEventDriven : Bool) (s : RunState TaskFile Working)
    (h : Reach (adapters cfg client
      (openclawHandler cfg client ids str sessionPrefix waitEventDriven) noTasks)
      (Unbroken client) s) : NeverLoses client s := by
  intro hstopped row hrow event hdecoded hfor hhandle hle
  have hspares : ∀ s act, Unbroken client s act → Spares client (Secured client) Working.taken s act := by
    intro s act hok
    cases act with
    | crash => exact fun row hrow hfor hle hid => .inl (.inl (hok row hrow hfor hle hid))
    | raise => exact fun row hrow hfor hle hid => .inl (.inl (hok row hrow hfor hle hid))
    | _ => trivial
  have hheld := kept_of_reach (openclaw_contract cfg client ids str sessionPrefix waitEventDriven)
    (h.mono hspares) hrow hfor hle
  have hnone : s.outstanding Working.taken = [] := by
    rcases hstopped with hw | ⟨w, hw, hduty⟩
    · rw [RunState.outstanding, hw]
    · rw [RunState.outstanding_of_worker hw, hduty]
      rfl
  rcases hheld with (hack | hlisted | ⟨event', hdecoded', hskip⟩) | hid
  · exact .inl hack
  · exact .inr hlisted
  · cases hdecoded.symm.trans hdecoded'
    rw [hhandle] at hskip
    cases hskip
  · rw [hnone] at hid
    exact absurd hid List.not_mem_nil

/-! ## A thread that waits -/

/-- The handler of Bob's adapter, which asks OpenClaw. -/
def bobsClaw : Handler TaskFile Working :=
  openclawHandler oneSlot bob constantIds strOfText (lit "atalk") false

/-- Alice's question, when it is delivered, and when it is retried. -/
def firstJob : Job := ⟨question, false⟩

def retryJob : Job := ⟨question, true⟩

/-- It waits at first, and is complete later. -/
def waits : Outcome := ⟨lit "later", .waiting, 0, [lit "e1"]⟩

def completes : Outcome := ⟨lit "done", .complete, 1, [lit "e1"]⟩

def clawReply (o : Outcome) : Asked :=
  .inl ⟨openclawReply constantIds bob question o.visible o.status o.attempt, [], noon, []⟩

def activeFile : TaskFile :=
  noTasks.append strOfText question (sessionId strOfText (lit "atalk") question) 0

/-- The file after an outcome. -/
def settledFile (file : TaskFile) (o : Outcome) : TaskFile :=
  ((file.setStatus strOfText question o.status o.visible 0).getD ([], file)).2

def waitingFile : TaskFile := settledFile activeFile waits

def completeFile : TaskFile := settledFile waitingFile completes

def waitedBob : Serving := (servedAll oneSlot noon receivedBob (clawReply waits) 5).getD asksBob

def completedBob : Serving := (servedAll oneSlot noon waitedBob (clawReply completes) 5).getD asksBob

/-- Bob's adapter with a cursor, which it has on disk. -/
def clawAt (cursor : Option ℤ) (server : Serving) (file : TaskFile) (duty : Duty Working) :
    RunState TaskFile Working :=
  ⟨server, file, cursor, none, some ⟨cursor.getD 0, duty⟩, [questionPage]⟩

section
variable {ok : RunState TaskFile Working → RunAct → Prop}

/-- A step of the adapter. -/
theorem reach_claw (hok : ∀ s act, act ≠ .crash → act ≠ .raise → ok s act)
    {s t t' : RunState TaskFile Working} {w : Worker Working}
    (h : Reach (adapters oneSlot bob bobsClaw noTasks) ok s) (hw : s.worker = some w)
    (hstep : WorkerStep oneSlot bob bobsClaw s w t) (heq : t = t') :
    Reach (adapters oneSlot bob bobsClaw noTasks) ok t' :=
  reach_work rfl (fun s => hok s _ nofun nofun) h hw hstep heq

/-- A request, and the server works through it. -/
theorem reach_askedClaw (hok : ∀ s act, act ≠ .crash → act ≠ .raise → ok s act)
    {cursor : Option ℤ} {server : Serving} {file : TaskFile} {duty duty' : Duty Working}
    {asked : Asked} {s : RunState TaskFile Working} (n : ℕ)
    (h : Reach (adapters oneSlot bob bobsClaw noTasks) ok (clawAt cursor server file duty))
    (hstep : WorkerStep oneSlot bob bobsClaw (clawAt cursor server file duty)
      ⟨cursor.getD 0, duty⟩ s)
    (heq : s = ((clawAt cursor server file duty).ask oneSlot asked).goOn ⟨cursor.getD 0, duty⟩ duty')
    (hrun : (servedAll oneSlot noon server asked n).isSome = true) :
    Reach (adapters oneSlot bob bobsClaw noTasks) ok
      (clawAt cursor ((servedAll oneSlot noon server asked n).getD asksBob) file duty') := by
  obtain ⟨server', hserver'⟩ := Option.isSome_iff_exists.mp hrun
  rw [hserver', Option.getD_some]
  exact reach_served rfl (fun s _ _ => hok s _ nofun nofun) noon _ (reach_claw hok h rfl hstep heq)
    hserver'

/-- A step of the handler that makes no request. -/
theorem reach_handlingClaw (hok : ∀ s act, act ≠ .crash → act ≠ .raise → ok s act)
    {cursor : Option ℤ} {server : Serving} {file file' : TaskFile} {c : Cause} {x x' : Working}
    (h : Reach (adapters oneSlot bob bobsClaw noTasks) ok
      (clawAt cursor server file (.handling c x)))
    (hstep : WorkStep oneSlot bob constantIds strOfText (lit "atalk") server file x file' none x') :
    Reach (adapters oneSlot bob bobsClaw noTasks) ok
      (clawAt cursor server file' (.handling c x')) :=
  reach_claw hok h rfl (.handle rfl hstep) rfl

/-- From an event or a retry to its reply. -/
theorem reach_sentClaw (hok : ∀ s act, act ≠ .crash → act ≠ .raise → ok s act)
    {cursor : Option ℤ} {server : Serving} {file : TaskFile} {c : Cause} {job : Job} {o : Outcome}
    (h : Reach (adapters oneSlot bob bobsClaw noTasks) ok
      (clawAt cursor server file (.handling c (.running job))))
    (hjob : job.event = question) (hvisible : o.visible ≠ [])
    (hloud : ¬ (job.retry = true ∧ o.status = .waiting)) {t : Thread} {file' : TaskFile}
    (hget : file.get (threadKey strOfText question) = some t) (hcount : t.retryCount = o.attempt)
    (hset : file.setStatus strOfText question o.status o.visible 0 = some (o.eventIds, file'))
    (hrun : (servedAll oneSlot noon server (clawReply o) 5).isSome = true)
    (hanswer : (answer oneSlot ((servedAll oneSlot noon server (clawReply o) 5).getD asksBob)
      server.calls.length).map (·.status) = some 201) :
    Reach (adapters oneSlot bob bobsClaw noTasks) ok
      (clawAt cursor ((servedAll oneSlot noon server (clawReply o) 5).getD asksBob) file'
        (.handling c (.sent job o))) := by
  obtain ⟨event, retry⟩ := job
  cases hjob
  obtain ⟨visible, status, attempt, eventIds⟩ := o
  cases hcount
  have hworks : WorkStep oneSlot bob constantIds strOfText (lit "atalk") server file
      (.running ⟨question, retry⟩) file none (.replied ⟨question, retry⟩ visible status) :=
    .run hvisible
  have hreplied := reach_handlingClaw hok h hworks
  have hsettled := reach_handlingClaw hok hreplied (.settle hget hset)
  have hsend : WorkStep oneSlot bob constantIds strOfText (lit "atalk") server file'
      (.settled ⟨question, retry⟩ ⟨visible, status, t.retryCount, eventIds⟩) file'
      (some (clawReply ⟨visible, status, t.retryCount, eventIds⟩))
      (.sending ⟨question, retry⟩ ⟨visible, status, t.retryCount, eventIds⟩ server.calls.length) :=
    .send hloud ⟨rfl, rfl⟩
  have hsending := reach_askedClaw hok 5 hsettled (.handle rfl hsend) rfl hrun
  obtain ⟨reply, hreply, hstatus⟩ := ok_of_status hanswer
  exact reach_handlingClaw hok hsending (.answered hreply (by omega))

/-- The question waits, and is behind the cursor. -/
theorem reach_waiting (hok : ∀ s act, act ≠ .crash → act ≠ .raise → ok s act) :
    Reach (adapters oneSlot bob bobsClaw noTasks) ok (clawAt (some 1) waitedBob waitingFile (.next [])) := by
  have hinit : Reach (adapters oneSlot bob bobsClaw noTasks) ok
      { server := asksBob, disk := noTasks } :=
    .init ⟨asksBob, ⟨⟨List.pairwise_singleton .., by decide, by decide⟩, rfl⟩, rfl⟩
  have hstart : Reach (adapters oneSlot bob bobsClaw noTasks) ok
      { server := asksBob, disk := noTasks, worker := some ⟨0, .started⟩ } :=
    .step (a := .start) hinit (hok _ _ nofun nofun) ⟨rfl, rfl⟩
  have hpage : Pulled oneSlot bob 0 asksBob.store questionPage :=
    ⟨bobsPull, {}, ⟨rfl, rfl, rfl, rfl, rfl⟩, rfl, rfl, rfl⟩
  have hpulled : Reach (adapters oneSlot bob bobsClaw noTasks) ok
      (clawAt none asksBob noTasks (.next [question])) :=
    reach_claw hok hstart rfl (.pull trivial hpage) rfl
  have hreceived : Reach (adapters oneSlot bob bobsClaw noTasks) ok
      (clawAt none receivedBob noTasks (.receiving question [] 0)) :=
    reach_askedClaw hok 2 hpulled (.receive rfl ⟨rfl, rfl⟩) rfl (by decide +kernel)
  have hcalled : Reach (adapters oneSlot bob bobsClaw noTasks) ok
      (clawAt none receivedBob noTasks (.handling (.delivery question []) (.called firstJob))) := by
    obtain ⟨reply, hreply, hstatus⟩ := ok_of_status
      (show (answer oneSlot receivedBob 0).map (·.status) = some 200 by decide +kernel)
    exact reach_claw hok hreceived rfl (.received rfl hreply (by omega)) rfl
  have hrunning : Reach (adapters oneSlot bob bobsClaw noTasks) ok
      (clawAt none receivedBob activeFile (.handling (.delivery question []) (.running firstJob))) :=
    reach_handlingClaw hok hcalled (.append rfl (by decide) rfl)
  have hsent : Reach (adapters oneSlot bob bobsClaw noTasks) ok
      (clawAt none waitedBob waitingFile (.handling (.delivery question []) (.sent firstJob waits))) :=
    reach_sentClaw hok hrunning rfl (by decide) (by decide) rfl rfl rfl (by decide +kernel)
      (by decide +kernel)
  have hended : Reach (adapters oneSlot bob bobsClaw noTasks) ok
      (clawAt none waitedBob waitingFile (.handling (.delivery question []) (.ended firstJob []))) :=
    reach_handlingClaw hok hsent (.keep nofun)
  have happlying : Reach (adapters oneSlot bob bobsClaw noTasks) ok
      (clawAt none waitedBob waitingFile (.applying (.delivery question []) [])) :=
    reach_claw hok hended rfl (.handled rfl rfl) rfl
  have hcommitting : Reach (adapters oneSlot bob bobsClaw noTasks) ok
      ⟨waitedBob, waitingFile, none, some 1, some ⟨1, .committing []⟩, [questionPage]⟩ :=
    reach_claw hok happlying rfl (.advance rfl) rfl
  exact reach_claw hok hcommitting rfl (.commit rfl rfl) rfl

end

/-- The adapter is killed with the question waiting. -/
theorem openclaw_keeps_waiting : NeverLoses bob
    { clawAt (some 1) waitedBob waitingFile (.next []) with worker := none } := by
  refine openclaw_keeps oneSlot bob constantIds strOfText (lit "atalk") false _
    (.step (a := .crash) (reach_waiting fun s act hcrash hraise => ?_) ?_ rfl)
  · cases act with
    | crash => exact absurd rfl hcrash
    | raise => exact absurd rfl hraise
    | _ => trivial
  · exact fun row _ _ _ hid => absurd hid List.not_mem_nil

/-- The retry completes the question, its thread is forgotten, and the acknowledgement fails: the
question is behind the cursor, has no acknowledgement, and is in no thread. -/
theorem completed_is_lost : ¬ ∀ (cfg : ServerConfig) (client : Client) (ids : NameIds)
    (str : Val → Str) (sessionPrefix : Str) (waitEventDriven : Bool) (s : RunState TaskFile Working),
    Reachable (adapters cfg client
      (openclawHandler cfg client ids str sessionPrefix waitEventDriven) noTasks) s →
      NeverLoses client s := by
  intro hclaim
  have hok : RunState TaskFile Working → ∀ act : RunAct, act ≠ .crash → act ≠ .raise → True :=
    fun _ _ _ _ => trivial
  have hreturned : Reachable (adapters oneSlot bob bobsClaw noTasks)
      (clawAt (some 1) waitedBob waitingFile .returned) :=
    reach_claw hok (reach_waiting hok) rfl (.ends rfl) rfl
  have hretrying : Reachable (adapters oneSlot bob bobsClaw noTasks)
      (clawAt (some 1) waitedBob waitingFile (.retrying [question])) :=
    reach_claw hok hreturned rfl (.retryDue rfl ⟨rfl, 60, rfl⟩) rfl
  have hcalled : Reachable (adapters oneSlot bob bobsClaw noTasks)
      (clawAt (some 1) waitedBob waitingFile (.handling (.retry []) (.called retryJob))) :=
    reach_claw hok hretrying rfl (.retry rfl) rfl
  have hrunning : Reachable (adapters oneSlot bob bobsClaw noTasks)
      (clawAt (some 1) waitedBob waitingFile (.handling (.retry []) (.running retryJob))) :=
    reach_handlingClaw hok hcalled (.look rfl (by decide) rfl rfl)
  have hsent : Reachable (adapters oneSlot bob bobsClaw noTasks)
      (clawAt (some 1) completedBob completeFile (.handling (.retry []) (.sent retryJob completes))) :=
    reach_sentClaw hok hrunning rfl (by decide) (by decide) rfl rfl rfl (by decide +kernel)
      (by decide +kernel)
  have hended : Reachable (adapters oneSlot bob bobsClaw noTasks) (clawAt (some 1) completedBob
      (completeFile.finalizeComplete strOfText question)
        (.handling (.retry []) (.ended retryJob [lit "e1"]))) :=
    reach_handlingClaw hok hsent (.finalize rfl)
  have happlying : Reachable (adapters oneSlot bob bobsClaw noTasks) (clawAt (some 1) completedBob
      (completeFile.finalizeComplete strOfText question) (.applying (.retry []) [lit "e1"])) :=
    reach_claw hok hended rfl (.handled rfl rfl) rfl
  have hraised : Reachable (adapters oneSlot bob bobsClaw noTasks) (clawAt (some 1) completedBob
      (completeFile.finalizeComplete strOfText question) .raised) :=
    .step (a := .raise) happlying trivial ⟨_, rfl, .client trivial⟩
  have hrow : questionRow ∈ completedBob.store.events := by
    have hserved : ∀ (server : Serving) (asked : Asked) (n : ℕ), questionRow ∈ server.store.events →
        questionRow ∈ ((servedAll oneSlot noon server asked n).getD asksBob).store.events := by
      intro server asked n hmem
      cases hrun : servedAll oneSlot noon server asked n with
      | none => exact List.mem_singleton_self _
      | some server' => exact mem_servedAll hrun hmem
    exact hserved _ _ _ (hserved _ _ _ (hserved _ _ _ (List.mem_singleton_self _)))
  have hloses := hclaim oneSlot bob constantIds strOfText (lit "atalk") false _ hraised
    (.inr ⟨_, rfl, rfl⟩) questionRow hrow question rfl rfl rfl (by decide)
  rcases hloses with hack | ⟨t, ht, -, -⟩
  · have hnone : hasAck completedBob.store (lit "e1") (lit "bob") .applied = false := by decide +kernel
    exact absurd (hnone.symm.trans hack) nofun
  · have hempty : (completeFile.finalizeComplete strOfText question).rows = [] := rfl
    exact absurd (hempty ▸ ht) List.not_mem_nil

end Adapter
end ATalk
