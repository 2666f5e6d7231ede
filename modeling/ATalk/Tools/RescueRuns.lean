import ATalk.Tools.Rescue

/-!
# Rescue commands that are processed again

The executor drains its inbox again and again. It may stop at any place: a call fails, an answer is
lost, the process crashes. The server goes on with the requests that were sent, and the next drain
begins with the commands that are not acknowledged.

* `rescuing` : the executor beside the runs of a server;
* `AtMostOnce` : a command gives rise to one task, one report and one reply at most;
* `Unbroken` : no stop comes between a task or a report and the acknowledgement of its command;
* `rescue_once` : runs of such steps.
-/

namespace ATalk
namespace Rescue

open Text Python Sqlite ATalk.Core Federation Checks Transition Callers Server
open Adapter (Recorder recording notes Notes notes_step requests_of_reach serving_since asked_of_step
  answer handlers serving textParam_str_eq uuidRe_ne_nil)
open Clients (Pages pendingAfter)

/-! ## The executor at work -/

/-- Where the process is: between two drains, in the loop, with a command, or waiting for the answer
to a request for it. -/
inductive Phase where
  | idle
  | loop (rest : List Event)
  | command (event : Event) (left : List Post) (rest : List Event)
  | waiting (event : Event) (post : Post) (call : ℕ) (left : List Post) (rest : List Event)

/-- A request that was sent for a command. -/
structure Sent where
  stage : Stage
  command : Str
  call : ℕ

/-- A server that notes what its requests store, and the executor, with all that it ever sent. -/
structure Bus where
  recorder : Recorder
  phase : Phase
  sent : List Sent

inductive Act where
  | serve (act : Callers.Action Db Adapter.Asked Time)
  | pull (p : EventPage)
  | skip
  | handle (wl : Dict) (host : Host)
  | send (m : Moment)
  | answered
  | next
  /-- The drain returns or raises, or the process crashes. -/
  | stop

def Bus.db (s : Bus) : Db := s.recorder.server.store

/-- The request of a post. -/
def Executor.asks (x : Executor) (m : Moment) (post : Post) : Adapter.Asked :=
  match post.stage with
  | .ack => .inr { x.request m post with woken := m.woken, cursor := m.cursor }
  | _ => .inl (x.request m post)

def rescuing (cfg : ServerConfig) (x : Executor) : System Bus Act where
  init s := (recording cfg).init s.recorder ∧ s.phase = .idle ∧ s.sent = []
  step s act s' :=
    match act with
    | .serve a => ∃ r, (recording cfg).step s.recorder a r ∧ s' = { s with recorder := r }
    | .pull p => s.phase = .idle ∧ Pages cfg x.agent 0 s.db p ∧ s' = { s with phase := .loop p.events }
    | .skip => ∃ event rest, s.phase = .loop (event :: rest) ∧ rescueOp event = none ∧
        s' = { s with phase := .loop rest }
    | .handle wl host => ∃ event rest op result, s.phase = .loop (event :: rest) ∧
        rescueOp event = some op ∧ attempt x wl host op event = .ok result ∧
          s' = { s with phase := .command event (posts x event op result) rest }
    | .send m => ∃ event post left rest, s.phase = .command event (post :: left) rest ∧
        ∃ r, (recording cfg).step s.recorder (.call (x.asks m post)) r ∧
          s' = ⟨r, .waiting event post s.recorder.server.calls.length left rest,
            s.sent ++ [⟨post.stage, event.eventId, s.recorder.server.calls.length⟩]⟩
    | .answered => ∃ event post call left rest reply, s.phase = .waiting event post call left rest ∧
        answer cfg s.recorder.server call = some reply ∧ reply.status < 300 ∧
          s' = { s with phase := .command event left rest }
    | .next => ∃ event rest, s.phase = .command event [] rest ∧ s' = { s with phase := .loop rest }
    | .stop => s' = { s with phase := .idle }

/-! ## What should hold -/

/-- A request of the stage for the command stored the message. -/
def Gives (s : Bus) (stage : Stage) (command k : Str) : Prop :=
  ∃ t ∈ s.sent, t.stage = stage ∧ t.command = command ∧ (t.call, k) ∈ s.recorder.made

/-- For a command at most one task, one report and one reply is stored. -/
def AtMostOnce (s : Bus) : Prop :=
  ∀ stage command k k', Gives s stage command k → Gives s stage command k' → k = k'

/-- A task or a report. -/
def Stage.isSide : Stage → Bool
  | .task | .report => true
  | _ => false

/-- The server has refused a request, and stored nothing for it. -/
def Refused (cfg : ServerConfig) (r : Recorder) (i : ℕ) : Prop :=
  (∃ reply, answer cfg r.server i = some reply ∧ 300 ≤ reply.status) ∧ ∀ k, (i, k) ∉ r.made

/-- When the executor stops, each task and each report that it ever sent was refused, or its command
is acknowledged as applied. -/
def Unbroken (cfg : ServerConfig) (x : Executor) (s : Bus) : Act → Prop
  | .stop => ∀ t ∈ s.sent, t.stage.isSide = true → Refused cfg s.recorder t.call ∨
      hasAck s.db t.command x.agent .applied = true
  | _ => True

/-! ## The server goes on -/

section
variable {cfg : ServerConfig} {x : Executor} {r r' : Recorder} {act : Callers.Action Db Adapter.Asked Time}

/-- What a recorder becomes. -/
structure Onto (cfg : ServerConfig) (r r' : Recorder) : Prop where
  notes : Notes cfg r'
  calls : ∀ (i : ℕ) c p, r.server.calls[i]? = some (c, p) → ∃ p', r'.server.calls[i]? = some (c, p')
  acks : ∀ e a t, hasAck r.server.store e a t = true → hasAck r'.server.store e a t = true
  refused : ∀ i, Refused cfg r i → Refused cfg r' i

/-- An answer stays. -/
theorem answer_of_step {s s' : Adapter.Serving} {i : ℕ} {reply : Reply}
    (h : (serving cfg).step s act s') (hanswer : answer cfg s i = some reply) :
    answer cfg s' i = some reply := by
  unfold answer at hanswer ⊢
  obtain ⟨⟨c, p⟩, hi, hresult⟩ := Option.bind_eq_some_iff.mp hanswer
  cases act with
  | call b =>
    cases h
    rw [List.getElem?_append_left (List.getElem?_eq_some_iff.mp hi).1, hi]
    exact hresult
  | other store =>
    obtain ⟨-, rfl⟩ := h
    rw [hi]
    exact hresult
  | advance j now =>
    obtain ⟨b, q, hj, hnone, rfl⟩ := h
    have hij : j ≠ i := by
      rintro rfl
      cases hj.symm.trans hi
      have hnone' : (handlers cfg).result p = none := hnone
      rw [hnone'] at hresult
      cases hresult
    rw [List.getElem?_set_ne hij, hi]
    exact hresult

theorem onto_of_step (h : Notes cfg r) (hstep : (recording cfg).step r act r') : Onto cfg r r' := by
  refine ⟨h.step hstep, fun i c p hi => asked_of_step hstep.1 hi, (serving_since hstep.1).later.acks,
    fun i hrefused => ?_⟩
  obtain ⟨⟨reply, hanswer, hge⟩, hnothing⟩ := hrefused
  refine ⟨⟨reply, answer_of_step hstep.1 hanswer, hge⟩, fun k hmem => ?_⟩
  rw [hstep.2] at hmem
  rcases List.mem_append.mp hmem with hold | hnew
  · exact hnothing k hold
  · rcases notes_step h.server hstep.1 with hnone | ⟨j, l, req, p, p', hnote, hj, hnot, -⟩
    · rw [hnone] at hnew
      cases hnew
    · rw [hnote] at hnew
      cases List.mem_singleton.mp hnew
      -- an answered call is past what it stores
      unfold answer at hanswer
      rw [hj] at hanswer
      cases p with
      | done reply' => exact hnot trivial
      | _ => cases hanswer

/-! ## The invariant -/

/-- The event that the process has in hand. -/
def Phase.current : Phase → Option Str
  | .command event _ _ => some event.eventId
  | .waiting event _ _ _ _ => some event.eventId
  | _ => none

/-- The requests that are left for a command: the last of them, and a task or a report before. -/
inductive Left (x : Executor) (event : Event) : List Post → Prop
  | side {post : Post} {op : Str} {result : Result} (hside : post.stage.isSide = true) :
    Left x event [post, ⟨.reply, replyBody x event op result⟩, ⟨.ack, ackBody x event⟩]
  | reply {op : Str} {result : Result} :
    Left x event [⟨.reply, replyBody x event op result⟩, ⟨.ack, ackBody x event⟩]
  | ack : Left x event [⟨.ack, ackBody x event⟩]
  | nothing : Left x event []

/-- What a request that was sent asks for. -/
def Fits (x : Executor) (t : Sent) : Adapter.Asked → Prop
  | .inl r => t.stage ≠ .ack ∧ (t.stage = .reply → ∃ event : Event, event.eventId = t.command ∧
      getNone (lit "event_id") r.body = .str (replyId x event))
  | .inr r => ∃ event : Event, event.eventId = t.command ∧ r.body = ackBody x event

/-- No task and no report for the command is stored, or can be. -/
def Clear (cfg : ServerConfig) (r : Recorder) (sent : List Sent) (command : Str) : Prop :=
  ∀ t ∈ sent, t.stage.isSide = true → t.command = command → Refused cfg r t.call

/-- The events are still untouched, and each is there once. -/
structure Fresh (cfg : ServerConfig) (r : Recorder) (sent : List Sent) (rest : List Event) : Prop where
  unique : (rest.map (·.eventId)).Nodup
  clear : ∀ event ∈ rest, Clear cfg r sent event.eventId

/-- What holds at a place of the process. -/
def At (cfg : ServerConfig) (x : Executor) (r : Recorder) (sent : List Sent) : Phase → Prop
  | .idle => True
  | .loop rest => Fresh cfg r sent rest
  | .command event left rest => Fresh cfg r sent rest ∧ event.eventId ∉ rest.map (·.eventId) ∧
      Left x event left ∧ ((∃ post ∈ left, post.stage.isSide = true) → Clear cfg r sent event.eventId) ∧
      (left = [] → hasAck r.server.store event.eventId x.agent .applied = true)
  | .waiting event post call left rest => Fresh cfg r sent rest ∧
      event.eventId ∉ rest.map (·.eventId) ∧ Left x event (post :: left) ∧
        ∃ t ∈ sent, t.call = call ∧ t.stage = post.stage ∧ t.command = event.eventId

/-- The invariant. -/
structure Once (cfg : ServerConfig) (x : Executor) (s : Bus) : Prop where
  notes : Notes cfg s.recorder
  asked : ∀ t ∈ s.sent, ∃ c p, s.recorder.server.calls[t.call]? = some (c, p) ∧ Fits x t c
  side : ∀ t ∈ s.sent, ∀ t' ∈ s.sent, t.stage.isSide = true → t'.stage = t.stage →
    t'.command = t.command → Refused cfg s.recorder t.call ∨ Refused cfg s.recorder t'.call ∨ t = t'
  known : ∀ t ∈ s.sent, t.stage.isSide = true → Refused cfg s.recorder t.call ∨
    hasAck s.db t.command x.agent .applied = true ∨ s.phase.current = some t.command
  place : At cfg x s.recorder s.sent s.phase

variable {s s' : Bus} {sent : List Sent} {event : Event} {post : Post} {left : List Post}
  {rest : List Event} {command : Str}

theorem Clear.onto (h : Clear cfg r sent command) (hon : Onto cfg r r') : Clear cfg r' sent command :=
  fun t ht hside hcommand => hon.refused t.call (h t ht hside hcommand)

theorem Fresh.onto (h : Fresh cfg r sent rest) (hon : Onto cfg r r') : Fresh cfg r' sent rest :=
  ⟨h.unique, fun event hevent => (h.clear event hevent).onto hon⟩

theorem Fresh.tail (h : Fresh cfg r sent (event :: rest)) :
    Fresh cfg r sent rest ∧ event.eventId ∉ rest.map (·.eventId) := by
  obtain ⟨hnew, hunique⟩ := List.nodup_cons.mp h.unique
  exact ⟨⟨hunique, fun later hlater => h.clear later (List.mem_cons_of_mem _ hlater)⟩, hnew⟩

theorem At.onto {phase : Phase} (h : At cfg x r sent phase) (hon : Onto cfg r r') :
    At cfg x r' sent phase := by
  cases phase with
  | idle => trivial
  | loop rest => exact Fresh.onto h hon
  | command event left rest =>
    obtain ⟨hfresh, hnew, hleft, hclear, hack⟩ := h
    exact ⟨hfresh.onto hon, hnew, hleft, fun hside => (hclear hside).onto hon,
      fun hnone => hon.acks _ _ _ (hack hnone)⟩
  | waiting event post call left rest =>
    obtain ⟨hfresh, hrest⟩ := h
    exact ⟨hfresh.onto hon, hrest⟩

/-- The server goes on. -/
theorem Once.serve (h : Once cfg x s) (hon : Onto cfg s.recorder r') :
    Once cfg x { s with recorder := r' } := by
  refine ⟨hon.notes, fun t ht => ?_, fun t ht t' ht' hside hstage hcommand => ?_,
    fun t ht hside => ?_, h.place.onto hon⟩
  · obtain ⟨c, p, hcall, hfits⟩ := h.asked t ht
    obtain ⟨p', hcall'⟩ := hon.calls _ c p hcall
    exact ⟨c, p', hcall', hfits⟩
  · rcases h.side t ht t' ht' hside hstage hcommand with hrefused | hrefused | hsame
    · exact .inl (hon.refused _ hrefused)
    · exact .inr (.inl (hon.refused _ hrefused))
    · exact .inr (.inr hsame)
  · rcases h.known t ht hside with hrefused | hack | hcurrent
    · exact .inl (hon.refused _ hrefused)
    · exact .inr (.inl (hon.acks _ _ _ hack))
    · exact .inr (.inr hcurrent)

/-- The process goes on. -/
theorem Once.move {phase : Phase} (h : Once cfg x s)
    (hknown : ∀ t ∈ s.sent, t.stage.isSide = true → s.phase.current = some t.command →
      Refused cfg s.recorder t.call ∨ hasAck s.db t.command x.agent .applied = true ∨
        phase.current = some t.command)
    (hplace : At cfg x s.recorder s.sent phase) : Once cfg x { s with phase := phase } := by
  refine ⟨h.notes, h.asked, h.side, fun t ht hside => ?_, hplace⟩
  rcases h.known t ht hside with hrefused | hack | hcurrent
  · exact .inl hrefused
  · exact .inr (.inl hack)
  · exact hknown t ht hside hcurrent

/-- The requests for a command. -/
theorem left_posts (x : Executor) (event : Event) (op : Str) (result : Result) :
    Left x event (posts x event op result) ∧ posts x event op result ≠ [] := by
  refine ⟨?_, ?_⟩
  · unfold posts taskPosts reportPosts
    by_cases htask : result.1 = true ∧ op = lit "rescue.takeover"
    · have hnot : ¬ (result.1 = true ∧ op = lit "rescue.report") := by
        rintro ⟨-, hop⟩
        rw [htask.2] at hop
        exact absurd hop (by decide)
      rw [if_pos htask, if_neg hnot]
      split
      · split_ifs
        · exact .side rfl
        · exact .reply
      · exact .reply
    · rw [if_neg htask]
      split_ifs
      · exact .side rfl
      · exact .reply
  · unfold posts
    simp

/-! ## The steps -/

/-- A page holds commands that are not acknowledged, so none whose task or report is stored. -/
theorem Once.pull {p : EventPage} (h : Once cfg x s) (hidle : s.phase = .idle)
    (hpage : Pages cfg x.agent 0 s.db p) : Once cfg x { s with phase := .loop p.events } := by
  have hnone : s.phase.current = none := by rw [hidle]; rfl
  have hdecoded := hpage.decoded
  rw [hpage.rows] at hdecoded
  refine h.move (fun t _ _ hcurrent => ?_) ⟨?_, fun event hevent t ht hside hcommand => ?_⟩
  · rw [hnone] at hcurrent
    cases hcurrent
  · rw [eventIds_of_decoded hdecoded]
    have hunique := (Adapter.schema_of_reach h.notes.server).unique
    exact hunique.sublist (((List.take_sublist 200 _).trans List.filter_sublist).map _)
  · obtain ⟨row, hrow, hread⟩ := exists_row_of_mem hdecoded hevent
    have hpending := (mem_pendingAfter (List.mem_of_mem_take hrow)).2
    rcases h.known t ht hside with hrefused | hack | hcurrent
    · exact hrefused
    · rw [hcommand, (Adapter.decoded_names hread).1] at hack
      exact absurd hack hpending
    · rw [hnone] at hcurrent
      cases hcurrent

theorem Once.skip (h : Once cfg x s) (hphase : s.phase = .loop (event :: rest)) :
    Once cfg x { s with phase := .loop rest } := by
  have hplace := h.place
  rw [hphase] at hplace
  refine h.move (fun t _ _ hcurrent => ?_) (Fresh.tail hplace).1
  rw [hphase] at hcurrent
  cases hcurrent

theorem Once.handle (h : Once cfg x s) (hphase : s.phase = .loop (event :: rest)) (op : Str)
    (result : Result) :
    Once cfg x { s with phase := .command event (posts x event op result) rest } := by
  have hplace := h.place
  rw [hphase] at hplace
  obtain ⟨hfresh, hnew⟩ := Fresh.tail hplace
  obtain ⟨hleft, hne⟩ := left_posts x event op result
  refine h.move (fun t _ _ hcurrent => ?_) ⟨hfresh, hnew, hleft, fun _ => ?_, fun hnone => ?_⟩
  · rw [hphase] at hcurrent
    cases hcurrent
  · exact hplace.clear event List.mem_cons_self
  · exact absurd hnone hne

theorem Once.next (h : Once cfg x s) (hphase : s.phase = .command event [] rest) :
    Once cfg x { s with phase := .loop rest } := by
  have hplace := h.place
  rw [hphase] at hplace
  obtain ⟨hfresh, -, -, -, hack⟩ := hplace
  refine h.move (fun t _ _ hcurrent => .inr (.inl ?_)) hfresh
  rw [hphase] at hcurrent
  rw [← Option.some.inj hcurrent]
  exact hack rfl

/-- The last request for a command is its acknowledgement. -/
theorem Once.answered {call : ℕ} {reply : Reply} (h : Once cfg x s)
    (hphase : s.phase = .waiting event post call left rest)
    (hanswer : answer cfg s.recorder.server call = some reply) (hok : reply.status < 300) :
    Once cfg x { s with phase := .command event left rest } := by
  have hplace := h.place
  rw [hphase] at hplace
  obtain ⟨hfresh, hnew, hleft, t, ht, hcall, hstage, hcommand⟩ := hplace
  refine h.move (fun t _ _ hcurrent => .inr (.inr ?_)) ⟨hfresh, hnew, ?_, ?_, fun hnone => ?_⟩
  · rw [hphase] at hcurrent
    exact hcurrent
  · cases hleft with
    | side => exact .reply
    | reply => exact .ack
    | ack => exact .nothing
  · rintro ⟨other, hother, hside⟩
    cases hleft with
    | side =>
      rcases List.mem_cons.mp hother with rfl | hother
      · cases hside
      · rw [List.mem_singleton.mp hother] at hside
        cases hside
    | reply =>
      rw [List.mem_singleton.mp hother] at hside
      cases hside
    | ack => cases hother
  · rw [hnone] at hleft
    obtain ⟨c, p, hasked, hfits⟩ := h.asked t ht
    cases hleft
    rw [hcall] at hasked
    have hinv := (requests_of_reach h.notes.server).2 _ (List.mem_of_getElem? hasked)
    unfold answer at hanswer
    rw [hasked] at hanswer
    cases c with
    | inl req => exact absurd hstage hfits.1
    | inr req =>
      obtain ⟨event', hevent, hbody⟩ := hfits
      cases p with
      | inl q => exact hinv.elim
      | inr q =>
        cases q with
        | done reply' =>
          cases hanswer
          obtain ⟨e, y, t', hnames, hack⟩ := hinv hok
          rw [hbody] at hnames
          obtain ⟨rfl, rfl, rfl⟩ := names_ackBody hnames
          rw [hevent, hcommand] at hack
          exact hack
        | _ => cases hanswer

/-- The request of a post asks for what the post is. -/
theorem fits_asks {m : Moment} {call : ℕ} (h : Left x event (post :: left)) :
    Fits x ⟨post.stage, event.eventId, call⟩ (x.asks m post) := by
  cases h with
  | side hside =>
    unfold Executor.asks
    split
    · next hack =>
      rw [hack] at hside
      cases hside
    · next hack =>
      refine ⟨hack, fun hreply => ?_⟩
      have hreply' : post.stage = .reply := hreply
      rw [hreply'] at hside
      cases hside
  | reply => exact ⟨nofun, fun _ => ⟨event, rfl, rfl⟩⟩
  | ack => exact ⟨event, rfl, rfl⟩

/-- A request is sent: when it is a task or a report, none for its command is stored or can be. -/
theorem Once.send {m : Moment} (h : Once cfg x s)
    (hphase : s.phase = .command event (post :: left) rest)
    (hstep : (recording cfg).step s.recorder (.call (x.asks m post)) r') :
    Once cfg x ⟨r', .waiting event post s.recorder.server.calls.length left rest,
      s.sent ++ [⟨post.stage, event.eventId, s.recorder.server.calls.length⟩]⟩ := by
  have hplace := h.place
  rw [hphase] at hplace
  obtain ⟨hfresh, hnew, hleft, hclear, -⟩ := hplace
  have hon := onto_of_step h.notes hstep
  have hserve := h.serve hon
  have hcalls : r'.server.calls = s.recorder.server.calls ++
      [(x.asks m post, (handlers cfg).start (x.asks m post))] := congrArg World.calls hstep.1
  have hcall : r'.server.calls[s.recorder.server.calls.length]? =
      some (x.asks m post, (handlers cfg).start (x.asks m post)) := by
    rw [hcalls, List.getElem?_append_right le_rfl, Nat.sub_self]
    rfl
  have hclear' : post.stage.isSide = true → Clear cfg r' s.sent event.eventId := fun hside =>
    (hclear ⟨post, List.mem_cons_self, hside⟩).onto hon
  refine ⟨hon.notes, fun t ht => ?_, fun t ht t' ht' hside hstage hcommand => ?_,
    fun t ht hside => ?_, ⟨hfresh.unique, fun later hlater t ht hside hcommand => ?_⟩, hnew, hleft,
    _, List.mem_append_right _ (List.mem_singleton_self _), rfl, rfl, rfl⟩
  · rcases List.mem_append.mp ht with hold | hlast
    · exact hserve.asked t hold
    · rw [List.mem_singleton.mp hlast]
      exact ⟨_, _, hcall, fits_asks hleft⟩
  · rcases List.mem_append.mp ht with hold | hlast
    · rcases List.mem_append.mp ht' with hold' | hlast'
      · exact hserve.side t hold t' hold' hside hstage hcommand
      · rw [List.mem_singleton.mp hlast'] at hstage hcommand
        have hpost : post.stage.isSide = true := by
          rw [show post.stage = t.stage from hstage]
          exact hside
        exact .inl (hclear' hpost t hold hside hcommand.symm)
    · rw [List.mem_singleton.mp hlast] at hside hstage hcommand ⊢
      rcases List.mem_append.mp ht' with hold' | hlast'
      · refine .inr (.inl (hclear' hside t' hold' ?_ hcommand))
        rw [hstage]
        exact hside
      · exact .inr (.inr (List.mem_singleton.mp hlast').symm)
  · rcases List.mem_append.mp ht with hold | hlast
    · refine (hserve.known t hold hside).imp_right (Or.imp_right fun hcurrent => ?_)
      have hcurrent' : s.phase.current = some t.command := hcurrent
      rw [hphase] at hcurrent'
      exact hcurrent'
    · rw [List.mem_singleton.mp hlast]
      exact .inr (.inr rfl)
  · rcases List.mem_append.mp ht with hold | hlast
    · exact (hfresh.clear later hlater).onto hon t hold hside hcommand
    · rw [List.mem_singleton.mp hlast] at hcommand
      have hsame : event.eventId = later.eventId := hcommand
      rw [hsame] at hnew
      exact absurd (List.mem_map_of_mem hlater) hnew

theorem Once.step {act : Act} (h : Once cfg x s) (hok : Unbroken cfg x s act)
    (hstep : (rescuing cfg x).step s act s') : Once cfg x s' := by
  cases act with
  | serve a =>
    obtain ⟨r, hr, rfl⟩ := hstep
    exact h.serve (onto_of_step h.notes hr)
  | pull p =>
    obtain ⟨hidle, hpage, rfl⟩ := hstep
    exact h.pull hidle hpage
  | skip =>
    obtain ⟨event, rest, hphase, -, rfl⟩ := hstep
    exact h.skip hphase
  | handle wl host =>
    obtain ⟨event, rest, op, result, hphase, -, -, rfl⟩ := hstep
    exact h.handle hphase op result
  | send m =>
    obtain ⟨event, post, left, rest, hphase, r, hr, rfl⟩ := hstep
    exact h.send hphase hr
  | answered =>
    obtain ⟨event, post, call, left, rest, reply, hphase, hanswer, hlt, rfl⟩ := hstep
    exact h.answered hphase hanswer hlt
  | next =>
    obtain ⟨event, rest, hphase, rfl⟩ := hstep
    exact h.next hphase
  | stop =>
    cases hstep
    exact h.move (fun t ht hside _ => (hok t ht hside).imp_right .inl) trivial

theorem once_of_reach (h : Reach (rescuing cfg x) (Unbroken cfg x) s) : Once cfg x s := by
  refine Reach.invariant (P := Once cfg x) (fun s hinit => ?_)
    (fun s act s' hs hok hstep => hs.step hok hstep) h
  obtain ⟨hrecorder, hidle, hnone⟩ := hinit
  refine ⟨Adapter.notes_of_reach (.init hrecorder), ?_, ?_, ?_, ?_⟩
  · rw [hnone]
    exact nofun
  · rw [hnone]
    exact nofun
  · rw [hnone]
    exact nofun
  · rw [hidle]
    trivial

/-! ## The law -/

/-- A message that a reply stored has the id that is made of its command. -/
theorem Once.reply_id {t : Sent} {k : Str} (h : Once cfg x s) (ht : t ∈ s.sent)
    (hside : t.stage.isSide ≠ true) (hk : (t.call, k) ∈ s.recorder.made) :
    k = x.ids.uuid5 (lit "rescue-reply:" ++ t.command ++ lit ":" ++ x.agent) := by
  obtain ⟨r, p, hcall, -, hnames⟩ := h.notes.past _ _ hk
  obtain ⟨c, q, hcall', hfits⟩ := h.asked t ht
  cases hcall.symm.trans hcall'
  obtain ⟨hack, hreply⟩ := hfits
  have hstage : t.stage = .reply := by
    cases hs : t.stage with
    | reply => rfl
    | ack => exact absurd hs hack
    | task => exact absurd (by rw [hs]; rfl) hside
    | report => exact absurd (by rw [hs]; rfl) hside
  obtain ⟨event, hevent, hid⟩ := hreply hstage
  have htruthy : (Val.str (replyId x event)).truthy = true :=
    decide_eq_true (uuidRe_ne_nil (x.ids.form _))
  unfold Server.Names requestKey at hnames
  rw [hid, if_pos htruthy] at hnames
  rw [textParam_str_eq hnames, ← hevent]
  rfl

end

/-! ## A report that is sent twice -/

/-- One step of a request, with its note. -/
def advanced (cfg : ServerConfig) (r : Recorder) (i : ℕ) : Option Recorder :=
  ((handlers cfg).advance noon r.server i).map fun w =>
    ⟨w, r.made ++ notes r.server.store w.store (.advance i noon)⟩

/-- A schedule of such steps is part of a run. -/
theorem reach_advanced {cfg : ServerConfig} {x : Executor} {ok : Bus → Act → Prop}
    (hok : ∀ s a, ok s (.serve a)) (schedule : List ℕ) {s : Bus} {r : Recorder}
    (h : Reach (rescuing cfg x) ok s) (hrun : schedule.foldlM (advanced cfg) s.recorder = some r) :
    Reach (rescuing cfg x) ok { s with recorder := r } := by
  induction schedule generalizing s with
  | nil =>
    cases hrun
    exact h
  | cons i schedule ih =>
    rw [List.foldlM_cons] at hrun
    obtain ⟨mid, hmid, hrest⟩ := Option.bind_eq_some_iff.mp hrun
    obtain ⟨w, hw, rfl⟩ := Option.map_eq_some_iff.mp hmid
    refine ih (s := { s with recorder := ⟨w, _⟩ }) (.step (a := .serve (.advance i noon)) h (hok _ _)
      ⟨⟨w, _⟩, ⟨?_, rfl⟩, rfl⟩) hrest
    unfold Machine.advance at hw
    split at hw
    · cases hw
    · next c p hi =>
      split at hw
      · cases hw
      · next hnone =>
        cases hw
        exact ⟨c, p, hi, hnone, rfl⟩

/-- A command to report. -/
def reportCommand : Dict := [(lit "op", .str (lit "rescue.report"))]

def reportEvent : Event := command 1 "e1" reportCommand

/-- The inbox that holds it. -/
def reportInbox : Bus := ⟨⟨⟨{ events := [commandRow 1 "e1" reportCommand] }, []⟩, []⟩, .idle, []⟩

/-- The page that holds it. -/
def reportPage (db : Db) : EventPage := ⟨db, ⟨lit "helper", 0, 200, lit "pending"⟩, [reportEvent]⟩

/-- The first request for it. -/
def reportPost : Post := ⟨.report, reportBody helper (report reportCommand oneLog)⟩

/-- The other two. -/
def afterReport : List Post :=
  [⟨.reply, replyBody helper reportEvent (lit "rescue.report") (report reportCommand oneLog)⟩,
    ⟨.ack, ackBody helper reportEvent⟩]

/-- A clock, and the id that the server makes up. -/
def reportMoment (newId : Str) : Moment := ⟨noon, newId, fun _ => false, none⟩

/-- The recorder after the request was sent. -/
def reportSent (r : Recorder) (newId : Str) : Recorder :=
  { r with server := { r.server with calls := r.server.calls ++
    [(helper.asks (reportMoment newId) reportPost,
      (handlers plainServer).start (helper.asks (reportMoment newId) reportPost))] } }

/-- A drain that reads the command and sends the report, and the server stores it. -/
theorem reach_report {ok : Bus → Act → Prop} (hok : ∀ s act, act ≠ .stop → ok s act) {s : Bus}
    (h : Reach (rescuing plainServer helper) ok s) (hidle : s.phase = .idle)
    (hpage : Pages plainServer helper.agent 0 s.db (reportPage s.db)) (newId : Str) {r : Recorder}
    (hrun : (List.replicate 4 s.recorder.server.calls.length).foldlM (advanced plainServer)
      (reportSent s.recorder newId) = some r) :
    Reach (rescuing plainServer helper) ok
      ⟨r, .waiting reportEvent reportPost s.recorder.server.calls.length afterReport [],
        s.sent ++ [⟨.report, lit "e1", s.recorder.server.calls.length⟩]⟩ := by
  have hpulled : Reach (rescuing plainServer helper) ok { s with phase := .loop [reportEvent] } :=
    .step (a := .pull (reportPage s.db)) h (hok _ _ nofun) ⟨hidle, hpage, rfl⟩
  have hhandled : Reach (rescuing plainServer helper) ok
      { s with phase := .command reportEvent (reportPost :: afterReport) [] } :=
    .step (a := .handle oneLog quietHost) hpulled (hok _ _ nofun)
      ⟨reportEvent, [], lit "rescue.report", report reportCommand oneLog, rfl, rfl, rfl, rfl⟩
  have hsent : Reach (rescuing plainServer helper) ok ⟨reportSent s.recorder newId,
      .waiting reportEvent reportPost s.recorder.server.calls.length afterReport [],
      s.sent ++ [⟨.report, lit "e1", s.recorder.server.calls.length⟩]⟩ :=
    .step (a := .send (reportMoment newId)) hhandled (hok _ _ nofun)
      ⟨reportEvent, reportPost, afterReport, [], rfl, reportSent s.recorder newId,
        ⟨rfl, (List.append_nil _).symm⟩, rfl⟩
  exact reach_advanced (fun s a => hok s _ nofun) _ hsent hrun

/-- The recorder after the report of one drain. -/
def reportedOnce : Recorder :=
  ((List.replicate 4 0).foldlM (advanced plainServer) (reportSent reportInbox.recorder (lit "n1"))).getD
    reportInbox.recorder

/-- The run of the first drain. -/
theorem reach_reportedOnce {ok : Bus → Act → Prop} (hok : ∀ s act, act ≠ .stop → ok s act) :
    Reach (rescuing plainServer helper) ok
      ⟨reportedOnce, .waiting reportEvent reportPost 0 afterReport [], [⟨.report, lit "e1", 0⟩]⟩ := by
  have hinit : Reach (rescuing plainServer helper) ok reportInbox :=
    .init ⟨⟨⟨⟨List.pairwise_singleton .., by decide, by decide⟩, rfl⟩, rfl⟩, rfl, rfl⟩
  exact reach_report hok hinit rfl ⟨helpersRequest, {}, ⟨rfl, rfl, rfl, rfl⟩, rfl, rfl, rfl⟩
    (lit "n1") rfl

/-- The command is read again. -/
theorem second_page : Pages plainServer helper.agent 0 reportedOnce.server.store
    (reportPage reportedOnce.server.store) :=
  ⟨helpersRequest, {}, ⟨rfl, rfl, rfl, rfl⟩, rfl, rfl, rfl⟩

/-- And what the two requests stored. -/
theorem second_report : ((List.replicate 4 1).foldlM (advanced plainServer)
    (reportSent reportedOnce (lit "n2"))).map (·.made) = some [(0, lit "n1"), (1, lit "n2")] := by
  decide +kernel

end Rescue
end ATalk
