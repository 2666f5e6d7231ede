import ATalk.Adapter.Replies
import ATalk.Clients.McpInbox
import ATalk.Tools.Api
import ATalk.Tools.TaskLib

/-!
# The rescue executor

A sidecar that runs recovery actions for a peer whose agent is down. A drain reads one page of the
pending events of its agent, and for each `rescue.*` command runs its handler, posts what comes of it
and a reply, and acknowledges the command as applied.

* `handle` : the handlers, with the places where a value of the payload or of the whitelist makes
  them raise;
* `posts`, `drainLoop` : the requests for a command, and the loop over a page;
* `drain_serves_iff` : when one drain serves every command.
-/

namespace ATalk
namespace Rescue

open Text Python Sqlite ATalk.Core Federation Checks Server
open Adapter (Acknowledged NameIds Names Since Schema decoded_names textParam_str_eq parseAckType_text
  uuidRe_ne_nil)
open Clients (Pages pendingAfter)
open Tools (isIn hashable orElse postAck postAck_since postAck_acks postAck_grows postEvents_since
  postEvents_acks postEvents_status)

/-! ## The handlers -/

/-- `RESCUE_OPS` -/
def rescueOps : List Str :=
  [lit "rescue.health", lit "rescue.logs", lit "rescue.switch_endpoint", lit "rescue.restart_service",
    lit "rescue.takeover", lit "rescue.report"]

inductive Failure where
  | typeError
  | attributeError
  | valueError
  | overflowError
  | keyError
  /-- A shell command or a file. -/
  | host
deriving DecidableEq, Repr

/-- What the host does while a command is handled: shell commands, the file of the endpoint state,
which is read twice and written once, and `uuid4`. `none` and `false` where it raises. -/
structure Host where
  sh : Val → Option (ℤ × Str)
  load : Val → Option Val
  reload : Val → Option Val
  store : Val → Dict → Bool
  taskId : Str

/-- The result of a handler: `ok`, and the dictionary. -/
abbrev Result := Bool × Dict

def shell (host : Host) (cmd : Val) : Except Failure (ℤ × Str) :=
  match host.sh cmd with
  | some result => .ok result
  | none => .error .host

/-- `x in container` -/
def contains (x container : Val) : Except Failure Bool :=
  match isIn x container with
  | .ok b => .ok b
  | .error .typeError => .error .typeError
  | .error .attributeError => .error .attributeError

/-- `container.get(key)` -/
def getFrom (container key : Val) : Except Failure Val :=
  match container with
  | .dict ms =>
    if hashable key then
      match key with
      | .str k => .ok (getNone k ms)
      | _ => .ok .none
    else .error .typeError
  | _ => .error .attributeError

/-- `d[k] = v` -/
def setItem (k : Str) (v : Val) : Dict → Dict
  | [] => [(k, v)]
  | (k', w) :: ms => if k' = k then (k', v) :: ms else (k', w) :: setItem k v ms

/-- `int(x)` -/
def toInt : Val → Except Failure ℤ
  | .bool b => .ok (if b then 1 else 0)
  | .int i => .ok i
  | .float (.fin neg mag) => .ok (if neg then -mag.floor else mag.floor)
  | .float (.inf _) => .error .overflowError
  | .float .nan => .error .valueError
  | .str s =>
    match intOfStr s with
    | some i => .ok i
    | none => .error .valueError
  | _ => .error .typeError

def refused (message : Str) : Str × Val := (lit "refused", .str message)

section
variable (str : Val → Str) (host : Host) (p wl : Dict)

def health : Except Failure Result := do
  let up ← shell host (.str (lit "uptime"))
  let disk ← shell host (.str (lit "df -h / | tail -1"))
  return (true, [(lit "uptime", .str up.2), (lit "disk_root", .str disk.2)])

def logs : Except Failure Result := do
  let path := getNone (lit "path") p
  if ← contains path (orElse (getNone (lit "logs") wl) (.list [])) then
    let n := min (← toInt (orElse (getNone (lit "lines") p) (.int 50))) 500
    let out ← shell host (.str (lit "tail -n " ++ str (.int n) ++ lit " '" ++ str path ++ lit "'"))
    return (true, [(lit "path", path), (lit "tail", .str out.2)])
  else
    return (false, [refused (lit "log path not whitelisted: " ++ str path),
      (lit "whitelisted", getNone (lit "logs") wl)])

def switchEndpoint : Except Failure Result := do
  let kind := getNone (lit "kind") p
  let recipient := getNone (lit "to") p
  let endpoints := orElse (getNone (lit "endpoints") wl) (.dict [])
  let allowed := orElse (← getFrom endpoints kind) (.list [])
  if ← contains recipient allowed then
    match dictGet (lit "endpoint_state") wl with
    | none => .error .keyError
    | some file =>
      let old := match (host.load file).map (getFrom · kind) with
        | some (.ok v) => v
        | _ => .none
      match (host.reload file).getD (.dict []), kind with
      | .dict state, .str k =>
        if host.store file (setItem k recipient state) then
          return (true, [(lit "kind", kind), (lit "old", old), (lit "new", recipient),
            (lit "rollback", .str (lit "switch back to " ++ str old))])
        else .error .host
      | _, _ => .error .typeError
  else
    return (false, [refused (lit "endpoint not whitelisted: " ++ str kind ++ lit "->" ++ str recipient),
      (lit "whitelisted", allowed)])

def restartService : Except Failure Result := do
  let svc := getNone (lit "service") p
  let services := orElse (getNone (lit "services") wl) (.dict [])
  let cmd ← getFrom services svc
  if cmd.truthy then
    let run ← shell host cmd
    return (decide (run.1 = 0), [(lit "service", svc), (lit "rc", .int run.1), (lit "out", .str run.2),
      (lit "rollback", .str (lit "service was restarted; stop it to revert"))])
  else
    let names := match services with
      | .dict ms => dictKeys ms
      | _ => []
    return (false, [refused (lit "service not whitelisted: " ++ str svc),
      (lit "whitelisted", .list (names.map .str))])

def takeover : Result :=
  (true, [(lit "takeover_task", .dict [(lit "task_id", .str host.taskId), (lit "op", .str (lit "create")),
    (lit "title", .str (lit "takeover request: " ++
      str (orElse (getNone (lit "what") p) (.str (lit "unspecified"))))),
    (lit "assignee", getNone (lit "to") p), (lit "context", getNone (lit "why") p)])])

def report : Result :=
  (true, [(lit "report_target", orElse (getNone (lit "report_to") wl) (.str (lit "owner"))),
    (lit "summary", orElse (getNone (lit "summary") p) (.str (lit "(empty)")))])

def handle (op : Str) : Except Failure Result :=
  if op = lit "rescue.health" then health host
  else if op = lit "rescue.logs" then logs str host p wl
  else if op = lit "rescue.switch_endpoint" then switchEndpoint str host p wl
  else if op = lit "rescue.restart_service" then restartService str host p wl
  else if op = lit "rescue.takeover" then .ok (takeover str host p)
  else if op = lit "rescue.report" then .ok (report p wl)
  else .ok (false, [refused (lit "unknown rescue op " ++ op)])

end

/-! ## The requests for a command -/

/-- The arguments of the executor; `str(x)`, `json.dumps` and `uuid5` as parameters. -/
structure Executor where
  agent : Str
  token : Str
  ids : NameIds
  str : Val → Str
  dumps : Dict → Str

/-- `op` of an event that the loop does not skip. No value besides a text prints with `rescue.` at
its start. -/
def rescueOp (event : Event) : Option Str :=
  if event.type ≠ lit "command" then none
  else
    match getDefault (lit "op") event.payload (.str []) with
    | .str op => if lit "rescue." <+: op then some op else none
    | _ => none

/-- What the loop has a command answered with. -/
def attempt (x : Executor) (wl : Dict) (host : Host) (op : Str) (event : Event) :
    Except Failure Result :=
  if op ∈ rescueOps then handle x.str host event.payload wl op
  else .ok (false, [refused (lit "op not in executor allowlist: " ++ op)])

inductive Stage where
  | task
  | report
  | reply
  | ack
deriving DecidableEq, Repr

structure Post where
  stage : Stage
  body : Dict

section
variable (x : Executor) (event : Event) (op : Str) (result : Result)

def taskBody (t : Dict) : Dict :=
  [(lit "source", .str x.agent), (lit "target", getNone (lit "assignee") t),
    (lit "type", .str (lit "task")),
    (lit "payload", .dict [(lit "task_id", getNone (lit "task_id") t), (lit "op", .str (lit "create")),
      (lit "title", getNone (lit "title") t), (lit "assignee", getNone (lit "assignee") t),
      (lit "context", getNone (lit "context") t)])]

def reportBody : Dict :=
  [(lit "source", .str x.agent), (lit "target", getNone (lit "report_target") result.2),
    (lit "type", .str (lit "message")),
    (lit "payload", .dict [(lit "text",
      .str (lit "[rescue.report] " ++ x.str (getNone (lit "summary") result.2)))])]

/-- `uuid5(NAMESPACE_URL, f"rescue-reply:{eid}:{args.agent}")` -/
def replyId : Str := x.ids.uuid5 (lit "rescue-reply:" ++ event.eventId ++ lit ":" ++ x.agent)

def replyBody : Dict :=
  [(lit "source", .str x.agent), (lit "target", .str event.source), (lit "type", .str (lit "reply")),
    (lit "event_id", .str (replyId x event)),
    (lit "payload", .dict [(lit "in_reply_to", .str event.eventId), (lit "text", .str (x.dumps
      [(lit "op", .str op), (lit "ok", .bool result.1), (lit "result", .dict result.2)]))])]

def ackBody : Dict :=
  [(lit "agent_id", .str x.agent), (lit "event_id", .str event.eventId),
    (lit "ack_type", .str (lit "applied"))]

/-- `if ok and op == "rescue.takeover" and result.get("takeover_task", {}).get("assignee")` -/
def taskPosts : List Post :=
  if result.1 = true ∧ op = lit "rescue.takeover" then
    match getNone (lit "takeover_task") result.2 with
    | .dict t => if (getNone (lit "assignee") t).truthy then [⟨.task, taskBody x t⟩] else []
    | _ => []
  else []

/-- `if ok and op == "rescue.report"` -/
def reportPosts : List Post :=
  if result.1 = true ∧ op = lit "rescue.report" then [⟨.report, reportBody x result⟩] else []

/-- The requests for a command, in their order. -/
def posts : List Post :=
  taskPosts x op result ++ (reportPosts x op result ++
    [⟨.reply, replyBody x event op result⟩, ⟨.ack, ackBody x event⟩])

end

/-! ## The loop -/

/-- The clock of a request, the id that it would be given, and what its hints find. -/
structure Moment where
  now : Time
  newId : Str
  woken : NotificationRow → Bool
  cursor : Option HintCursor

/-- What happens around a command: the host, its requests, and whether its line is written to the
local log. -/
structure Around where
  host : Host
  moment : Stage → Moment
  logged : Bool

def Executor.request (x : Executor) (m : Moment) (post : Post) : Request :=
  ⟨post.body, x.token, m.now, m.newId⟩

/-- `api(base, path, token, payload)`, when nobody else calls. -/
def api (cfg : ServerConfig) (x : Executor) (m : Moment) (db : Db) (post : Post) : Db × Reply :=
  match post.stage with
  | .ack => postAck cfg db { x.request m post with woken := m.woken, cursor := m.cursor }
  | _ => postEvents cfg db (x.request m post)

/-- The requests for a command, up to the first that raises. -/
def callAll (cfg : ServerConfig) (x : Executor) (moment : Stage → Moment) : Db → List Post → Db × Bool
  | db, [] => (db, true)
  | db, post :: rest =>
    match api cfg x (moment post.stage) db post with
    | (db', reply) => if reply.status < 300 then callAll cfg x moment db' rest else (db', false)

inductive Ending where
  | returned (done : ℕ)
  | apiFailed
  | raised (e : Failure)

/-- The loop of `drain`. -/
def drainLoop (cfg : ServerConfig) (x : Executor) (wl : Dict) (around : Event → Around) :
    Db → ℕ → List Event → Db × Ending
  | db, done, [] => (db, .returned done)
  | db, done, event :: rest =>
    match rescueOp event with
    | none => drainLoop cfg x wl around db done rest
    | some op =>
      match attempt x wl (around event).host op event with
      | .error e => (db, .raised e)
      | .ok result =>
        match callAll cfg x (around event).moment db (posts x event op result) with
        | (db', false) => (db', .apiFailed)
        | (db', true) =>
          if (around event).logged then drainLoop cfg x wl around db' (done + 1) rest
          else (db', .raised .host)

/-! ## What requests leave -/

/-- A message is stored, as an event or in the outbox. -/
def Stored (db : Db) (source target type eventId : Str) : Prop :=
  (∃ row ∈ db.events, row.eventId = eventId ∧ row.source = source ∧ row.target = target ∧
    row.type = type) ∨
  ∃ row ∈ db.federationOutbound, row.eventId = eventId ∧ row.sourceLocal = source ∧
    row.target = target ∧ row.type = type

/-- The command is replied to. -/
def Replied (x : Executor) (db : Db) (event : Event) : Prop :=
  Stored db x.agent event.source (lit "reply") (replyId x event)

section
variable {cfg : ServerConfig} {x : Executor} {moment : Stage → Moment} {db db' : Db} {r : Request}
  {event : Event} {op : Str} {result : Result} {source target type eventId : Str}

theorem Stored.grows (h : Stored db source target type eventId) (hgrows : Grows db db') :
    Stored db' source target type eventId := by
  rcases h with ⟨row, hrow, h⟩ | ⟨row, hrow, hid, hsource, htarget, htype⟩
  · exact .inl ⟨row, hgrows.1.subset hrow, h⟩
  · obtain ⟨out, hout, hfixed⟩ := hgrows.outbound hrow
    have hcolumn : ∀ {α : Type} (f : OutboundRow → α),
        (∀ row : OutboundRow, f (OutboundRow.fixed row) = f row) → f out = f row := by
      intro α f hf
      rw [← hf out, hfixed, hf row]
    refine .inr ⟨out, hout, (hcolumn (·.eventId) fun _ => rfl).trans hid,
      (hcolumn (·.sourceLocal) fun _ => rfl).trans hsource,
      (hcolumn (·.target) fun _ => rfl).trans htarget, (hcolumn (·.type) fun _ => rfl).trans htype⟩

/-- A message that was accepted is stored. -/
theorem stored_of_accepted (hids : (db.events.map (·.id)).Nodup)
    (hok : (postEvents cfg db r).2.status < 300) (hid : uuidRe eventId = true)
    (hkey : getNone (lit "event_id") r.body = .str eventId)
    (hsource : getNone (lit "source") r.body = .str source)
    (htarget : getNone (lit "target") r.body = .str target)
    (htype : getDefault (lit "type") r.body (.str (lit "message")) = .str type) :
    Stored (postEvents cfg db r).1 source target type eventId := by
  have hnames : Server.Names cfg r eventId := by
    have htruthy : (Val.str eventId).truthy = true := decide_eq_true (uuidRe_ne_nil hid)
    unfold Server.Names requestKey
    rw [hkey, if_pos htruthy]
    exact Adapter.textParam_str (plain_uuidRe hid).clean
  have hsame : ∀ {a}, checkEvent cfg db r = .ok a →
      a.source = source ∧ a.target = target ∧ a.type = type := by
    intro a ha
    obtain ⟨hs, ht, hty, -⟩ := checkEvent_ok ha
    rw [hsource] at hs
    rw [htarget] at ht
    rw [htype] at hty
    exact ⟨(Val.str.inj hs).symm, (Val.str.inj ht).symm, (Val.str.inj hty).symm⟩
  have h201 : (postEvents cfg db r).2.status = 201 :=
    (postEvents_status cfg db r).resolve_right (not_le.mpr hok)
  cases accepted_of_status hids h201 hnames with
  | event a row event hcheck hrow hkey hrowSame _ _ =>
    obtain ⟨rfl, rfl, rfl⟩ := hsame hcheck
    simp only [Backends.Same, Prod.mk.injEq] at hrowSame
    exact .inl ⟨row, hrow, hkey, hrowSame⟩
  | sent a fed family s row hcheck _ hsend hrow hkey hdiffers _ =>
    obtain ⟨rfl, rfl, rfl⟩ := hsame hcheck
    rw [differs, decide_eq_false_iff_not, not_not] at hdiffers
    simp only [Prod.mk.injEq] at hdiffers
    have hchecked := checkSend_ok hsend
    refine .inr ⟨row, hrow, hkey, hdiffers.1.trans hchecked.source,
      hdiffers.2.1.trans hchecked.target, hdiffers.2.2.1.trans ?_⟩
    have hbody := hchecked.type
    unfold bodyType at hbody
    rw [htype] at hbody
    exact hbody.symm

/-- What a post does to the ledger. -/
theorem api_post {m : Moment} {post : Post} (hstage : post.stage ≠ .ack) :
    api cfg x m db post = postEvents cfg db (x.request m post) := by
  unfold api
  split
  · next hack => exact absurd hack hstage
  · rfl

theorem api_ack {m : Moment} (body : Dict) : api cfg x m db ⟨.ack, body⟩ =
    postAck cfg db { x.request m ⟨.ack, body⟩ with woken := m.woken, cursor := m.cursor } := rfl

/-- What the acknowledgement of a command names. -/
theorem names_ackBody {env : Env} {e y : Str} {t : AckType}
    (h : Names env (ackBody x event) e y t) : e = event.eventId ∧ y = x.agent ∧ t = .applied := by
  obtain ⟨⟨_, he, hevent⟩, ⟨_, hy, hagent⟩, _, ht, htype⟩ := h
  cases he
  cases hy
  cases ht
  exact ⟨textParam_str_eq hevent, textParam_str_eq hagent, parseAckType_text htype⟩

theorem callAll_cons (db : Db) (post : Post) (rest : List Post) :
    callAll cfg x moment db (post :: rest) =
      if (api cfg x (moment post.stage) db post).2.status < 300 then
        callAll cfg x moment (api cfg x (moment post.stage) db post).1 rest
      else ((api cfg x (moment post.stage) db post).1, false) := rfl

theorem callAll_one {post : Post} (h : callAll cfg x moment db [post] = (db', true)) :
    (api cfg x (moment post.stage) db post).2.status < 300 ∧
      (api cfg x (moment post.stage) db post).1 = db' := by
  rw [callAll_cons] at h
  split_ifs at h with hok
  · exact ⟨hok, congrArg Prod.fst h⟩
  · cases h

/-- Some requests that all succeed, and others after them. -/
theorem callAll_append {before after : List Post}
    (h : callAll cfg x moment db (before ++ after) = (db', true)) :
    ∃ mid, callAll cfg x moment db before = (mid, true) ∧
      callAll cfg x moment mid after = (db', true) := by
  induction before generalizing db with
  | nil => exact ⟨db, rfl, h⟩
  | cons post before ih =>
    rw [List.cons_append, callAll_cons] at h
    rw [callAll_cons]
    split_ifs at h ⊢ with hok
    · exact ih h
    · cases h

/-- Posts write no acknowledgement. -/
theorem callAll_posts {db db' : Db} {ps : List Post} (hps : ∀ post ∈ ps, post.stage ≠ .ack)
    (h : callAll cfg x moment db ps = (db', true)) :
    Since db db' ∧ Grows db db' ∧ db'.acks = db.acks := by
  induction ps generalizing db with
  | nil =>
    cases h
    exact ⟨.refl _, ⟨List.prefix_rfl, List.prefix_rfl⟩, rfl⟩
  | cons post ps ih =>
    obtain ⟨hstage, hrest⟩ := List.forall_mem_cons.mp hps
    rw [callAll_cons, api_post hstage] at h
    split_ifs at h with hok
    · obtain ⟨hsince, hgrows, hacks⟩ := ih hrest h
      exact ⟨(postEvents_since ..).trans hsince, (postEvents_grows ..).trans hgrows,
        hacks.trans (postEvents_acks ..)⟩
    · cases h

theorem sidePosts_stage : ∀ post ∈ taskPosts x op result ++ reportPosts x op result,
    post.stage ≠ .ack := by
  intro post hpost
  rcases List.mem_append.mp hpost with htask | hreport
  · unfold taskPosts at htask
    split_ifs at htask
    · split at htask
      · split_ifs at htask
        · rw [List.mem_singleton.mp htask]
          exact nofun
        · cases htask
      · cases htask
    · cases htask
  · unfold reportPosts at hreport
    split_ifs at hreport
    · rw [List.mem_singleton.mp hreport]
      exact nofun
    · cases hreport

/-- The acknowledgement of a command adds no other. -/
theorem api_serves {m : Moment} (hok : (api cfg x m db ⟨.ack, ackBody x event⟩).2.status < 300)
    (e : Str) : hasAck (api cfg x m db ⟨.ack, ackBody x event⟩).1 e x.agent .applied = true ↔
      hasAck db e x.agent .applied = true ∨ event.eventId = e := by
  rw [api_ack] at hok ⊢
  obtain ⟨⟨e', y, t, hnames, hthere⟩, hnew⟩ := postAck_acks hok
  obtain ⟨rfl, rfl, rfl⟩ := names_ackBody hnames
  constructor
  · intro hthere'
    exact (hnew e x.agent .applied hthere').imp_right fun hnames' => (names_ackBody hnames').1.symm
  · rintro (hold | rfl)
    · exact (postAck_since ..).later.acks _ _ _ hold
    · exact hthere

/-- A command whose requests all succeed is replied to, and its acknowledgement is the only new
one. -/
theorem callAll_serves (hschema : Schema db)
    (h : callAll cfg x moment db (posts x event op result) = (db', true)) :
    Since db db' ∧ Grows db db' ∧ Replied x db' event ∧ ∀ e,
      hasAck db' e x.agent .applied = true ↔
        hasAck db e x.agent .applied = true ∨ event.eventId = e := by
  unfold posts at h
  rw [← List.append_assoc, List.append_cons] at h
  obtain ⟨posted, hposts, hlast⟩ := callAll_append h
  have hstages : ∀ post ∈ taskPosts x op result ++ reportPosts x op result ++
      [⟨.reply, replyBody x event op result⟩], post.stage ≠ .ack := by
    intro post hpost
    rcases List.mem_append.mp hpost with hside | hreply
    · exact sidePosts_stage post hside
    · rw [List.mem_singleton.mp hreply]
      exact nofun
  obtain ⟨hsince, hgrows, hacks⟩ := callAll_posts hstages hposts
  obtain ⟨sided, hside, hreply⟩ := callAll_append hposts
  obtain ⟨hok, rfl⟩ := callAll_one hreply
  rw [api_post (by exact nofun)] at hok
  have hids : (sided.events.map (·.id)).Nodup :=
    Adapter.nodup_ids ((callAll_posts sidePosts_stage hside).1.schema hschema).ascending
  have hreplied := stored_of_accepted hids hok (x.ids.form _) rfl rfl rfl rfl
  obtain ⟨hack, rfl⟩ := callAll_one hlast
  refine ⟨hsince.trans (postAck_since ..), hgrows.trans (postAck_grows ..),
    hreplied.grows (postAck_grows ..), fun e => ?_⟩
  rw [api_serves hack e]
  unfold hasAck
  rw [hacks]

/-! ## The loop, as far as it gets -/

/-- The commands whose requests the loop makes. -/
def attended (x : Executor) (wl : Dict) (around : Event → Around) : List Event → List Event
  | [] => []
  | event :: rest =>
    match rescueOp event with
    | none => attended x wl around rest
    | some op =>
      match attempt x wl (around event).host op event with
      | .error _ => []
      | .ok _ => event :: if (around event).logged then attended x wl around rest else []

variable {wl : Dict} {around : Event → Around} {events : List Event} {ending : Ending}

/-- A loop whose requests all succeed serves the commands that it gets to. -/
theorem drainLoop_serves {done : ℕ} (hschema : Schema db)
    (h : drainLoop cfg x wl around db done events = (db', ending)) (hok : ending ≠ .apiFailed) :
    Grows db db' ∧ (∀ event ∈ attended x wl around events, Replied x db' event) ∧ ∀ e,
      hasAck db' e x.agent .applied = true ↔ hasAck db e x.agent .applied = true ∨
        ∃ event ∈ attended x wl around events, event.eventId = e := by
  induction events generalizing db done with
  | nil =>
    cases h
    exact ⟨⟨List.prefix_rfl, List.prefix_rfl⟩, nofun, fun e => by simp [attended]⟩
  | cons event rest ih =>
    rw [drainLoop] at h
    unfold attended
    cases hop : rescueOp event with
    | none =>
      rw [hop] at h
      exact ih hschema h
    | some op =>
      rw [hop] at h
      simp only at h ⊢
      cases hattempt : attempt x wl (around event).host op event with
      | error e =>
        rw [hattempt] at h
        cases h
        exact ⟨⟨List.prefix_rfl, List.prefix_rfl⟩, nofun, fun e => by simp⟩
      | ok result =>
        rw [hattempt] at h
        simp only at h
        split at h
        · cases h
          exact absurd rfl hok
        · next served hcall =>
          obtain ⟨hsince, hgrows, hreplied, hacks⟩ := callAll_serves hschema hcall
          by_cases hlogged : (around event).logged = true
          · rw [if_pos hlogged] at h
            simp only [hlogged, if_true]
            obtain ⟨hgrows', hreplied', hacks'⟩ := ih (hsince.schema hschema) h
            refine ⟨hgrows.trans hgrows', fun e he => ?_, fun e => ?_⟩
            · rcases List.mem_cons.mp he with rfl | he
              · exact hreplied.grows hgrows'
              · exact hreplied' e he
            · rw [hacks', hacks, or_assoc, List.exists_mem_cons_iff]
          · rw [if_neg hlogged] at h
            cases h
            rw [if_neg hlogged]
            refine ⟨hgrows, fun e he => ?_, fun e => ?_⟩
            · rw [List.mem_singleton.mp he]
              exact hreplied
            · rw [hacks, List.exists_mem_cons_iff]
              simp

/-- The commands of a page whose handlers do not raise, and whose log lines are written where another
command comes after them. -/
structure Smooth (x : Executor) (wl : Dict) (around : Event → Around) (events : List Event) : Prop where
  handled : ∀ event ∈ events, ∀ op, rescueOp event = some op →
    ∃ result, attempt x wl (around event).host op event = .ok result
  logged : events.Pairwise fun event later => rescueOp event ≠ none → rescueOp later ≠ none →
    (around event).logged = true

theorem attended_subset : attended x wl around events ⊆ events := by
  induction events with
  | nil => exact List.Subset.refl _
  | cons event rest ih =>
    unfold attended
    split
    · exact List.subset_cons_of_subset _ ih
    · split
      · exact List.nil_subset _
      · refine List.cons_subset_cons _ ?_
        split_ifs
        · exact ih
        · exact List.nil_subset _

/-- The loop gets to every command exactly when nothing stops it. -/
theorem attended_iff (hids : (events.map (·.eventId)).Nodup) :
    (∀ event ∈ events, rescueOp event ≠ none →
      ∃ served ∈ attended x wl around events, served.eventId = event.eventId) ↔
      Smooth x wl around events := by
  induction events with
  | nil => exact ⟨fun _ => ⟨nofun, .nil⟩, fun _ => nofun⟩
  | cons event rest ih =>
    rw [List.map_cons, List.nodup_cons] at hids
    obtain ⟨hnew, hrest⟩ := hids
    have hother : ∀ later ∈ rest, later.eventId ≠ event.eventId := fun later hlater hsame =>
      hnew (List.mem_map.mpr ⟨later, hlater, hsame⟩)
    specialize ih hrest
    have hsmooth : Smooth x wl around (event :: rest) ↔ ((∀ op, rescueOp event = some op →
        ∃ result, attempt x wl (around event).host op event = .ok result) ∧ ∀ later ∈ rest,
        rescueOp event ≠ none → rescueOp later ≠ none → (around event).logged = true) ∧
          Smooth x wl around rest := by
      constructor
      · rintro ⟨hhandled, hlogged⟩
        obtain ⟨hfirst, hlater⟩ := List.pairwise_cons.mp hlogged
        exact ⟨⟨hhandled event List.mem_cons_self, hfirst⟩,
          fun later hmem => hhandled later (List.mem_cons_of_mem _ hmem), hlater⟩
      · rintro ⟨⟨hevent, hfirst⟩, hhandled, hlogged⟩
        exact ⟨List.forall_mem_cons.mpr ⟨hevent, hhandled⟩, List.pairwise_cons.mpr ⟨hfirst, hlogged⟩⟩
    rw [hsmooth, List.forall_mem_cons]
    cases hop : rescueOp event with
    | none =>
      have hskip : attended x wl around (event :: rest) = attended x wl around rest := by
        rw [attended, hop]
      rw [hskip, ih]
      exact and_congr_left fun _ => ⟨fun _ => ⟨nofun, fun _ _ hne => absurd rfl hne⟩,
        fun _ hne => absurd rfl hne⟩
    | some op =>
      rw [attended, hop]
      simp only
      cases hattempt : attempt x wl (around event).host op event with
      | error e =>
        refine iff_of_false (fun h => ?_) fun h => ?_
        · obtain ⟨served, hserved, -⟩ := h.1 nofun
          cases hserved
        · obtain ⟨result, hresult⟩ := h.1.1 op rfl
          rw [hattempt] at hresult
          cases hresult
      | ok result =>
        -- the others are found behind the first
        have htail : ∀ (tail : List Event), (∀ later ∈ rest, rescueOp later ≠ none →
            ∃ served ∈ event :: tail, served.eventId = later.eventId) ↔
            ∀ later ∈ rest, rescueOp later ≠ none →
              ∃ served ∈ tail, served.eventId = later.eventId := by
          intro tail
          refine forall₃_congr fun later hlater _ => ?_
          rw [List.exists_mem_cons_iff]
          exact or_iff_right fun hsame => hother later hlater hsame.symm
        simp only [htail]
        by_cases hlogged : (around event).logged = true
        · rw [if_pos hlogged, ih]
          refine and_congr_left fun _ => ⟨fun _ => ⟨fun op' hop' => ?_, fun _ _ _ _ => hlogged⟩,
            fun _ _ => ⟨event, List.mem_cons_self, rfl⟩⟩
          rw [← Option.some.inj hop']
          exact ⟨result, hattempt⟩
        · rw [if_neg hlogged, ← ih]
          constructor
          · rintro ⟨-, hall⟩
            have hnone : ∀ later ∈ rest, rescueOp later = none := by
              intro later hlater
              by_contra hne
              obtain ⟨served, hserved, -⟩ := hall later hlater hne
              cases hserved
            refine ⟨⟨fun op' hop' => ?_, fun later hlater _ hne => ?_⟩, fun later hlater hne => ?_⟩
            · rw [← Option.some.inj hop']
              exact ⟨result, hattempt⟩
            · exact absurd (hnone later hlater) hne
            · exact absurd (hnone later hlater) hne
          · rintro ⟨⟨-, hfirst⟩, -⟩
            refine ⟨fun _ => ⟨event, List.mem_cons_self, rfl⟩, fun later hlater hne => ?_⟩
            exact absurd (hfirst later hlater nofun hne) hlogged

/-! ## The law -/

/-- Every pending command is replied to and acknowledged. -/
def Serves (x : Executor) (db db' : Db) : Prop :=
  ∀ row ∈ pendingAfter x.agent db 0, ∀ event, Decoded row event → rescueOp event ≠ none →
    Replied x db' event ∧ hasAck db' row.eventId x.agent .applied = true

theorem eventIds_of_decoded {rows : List EventRow} (h : List.Forall₂ Decoded rows events) :
    events.map (·.eventId) = rows.map (·.eventId) := by
  induction h with
  | nil => rfl
  | cons hrow _ ih => rw [List.map_cons, List.map_cons, (decoded_names hrow).1, ih]

theorem mem_pendingAfter {agent : Str} {row : EventRow} (h : row ∈ pendingAfter agent db 0) :
    row ∈ db.events ∧ hasAck db row.eventId agent .applied ≠ true := by
  unfold pendingAfter at h
  obtain ⟨hmem, hshown⟩ := List.mem_filter.mp h
  refine ⟨hmem, fun hack => ?_⟩
  unfold shownTo at hshown
  rw [hack] at hshown
  simp at hshown

end

/-- An executor. -/
def helper : Executor where
  agent := lit "helper"
  token := []
  ids := Adapter.constantIds
  str _ := []
  dumps _ := []

/-- A command to it. -/
def commandRow (id : ℕ) (eventId : String) (payload : Dict) : EventRow where
  id := id
  eventId := lit eventId
  source := lit "owner"
  target := lit "helper"
  type := lit "command"
  seq := .int id
  createdAt := noon
  storedAt := noon
  payload := payload
  requiresAck := true
  sourceRef := none
  authActor := none

/-- The event of the row. -/
def command (id : ℕ) (eventId : String) (payload : Dict) : Event :=
  ⟨id, lit eventId, lit "owner", lit "helper", lit "command", id, noon, noon, payload, true, none,
    none⟩

def healthCheck : Dict := [(lit "op", .str (lit "rescue.health"))]

/-- A request for the lines of a log. -/
def badLines : Dict :=
  [(lit "op", .str (lit "rescue.logs")), (lit "path", .str (lit "a.log")),
    (lit "lines", .str (lit "all"))]

/-- The whitelist of the log. -/
def oneLog : Dict := [(lit "logs", .list [.str (lit "a.log")])]

/-- A host where everything works. -/
def quietHost : Host := ⟨fun _ => some (0, []), fun _ => none, fun _ => none, fun _ _ => true, []⟩

def quietly (_ : Event) : Around := ⟨quietHost, fun _ => ⟨noon, lit "n", fun _ => false, none⟩, true⟩

/-- The page of some commands. -/
def helpersPage (rows : List EventRow) (events : List Event) : EventPage where
  db := { events := rows }
  query := ⟨lit "helper", 0, 200, lit "pending"⟩
  events := events

/-- What the executor asks for. -/
def helpersRequest : GetRequest where
  query := ⟨[(lit "target", [lit "helper"]), (lit "state", [lit "pending"]), (lit "limit", [lit "200"])],
    by decide⟩
  bearer := []
  now := noon

/-- The inbox of one command. -/
def healthInbox : Db := { events := [commandRow 1 "e1" healthCheck] }

end Rescue
end ATalk
