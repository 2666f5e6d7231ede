import ATalk.Python
import Mathlib.Data.List.Infix
import Mathlib.Data.List.Sort

/-!
# Tasks as a fold of the ledger

`fold` of the task library: the events of type `task`, in the order of their ids, make the state of
every task. A text that the code formats takes `str(x)` as a parameter.

* `applyOp` : what one event does to the entry of its task;
* `foldStep`, `fold` : the loop, with the places where a value of the payload makes it raise.
-/

namespace ATalk
namespace Tools

open Text Python

/-! ## Values as keys and members -/

/-- `hash(x)` returns. -/
def hashable : Val → Bool
  | .list _ => false
  | .dict _ => false
  | _ => true

mutual

/-- `x is y or x == y`, the comparison of keys and members; the decoder has one `nan`. -/
def isOrEq : Val → Val → Bool
  | .none, .none => true
  | .str s, .str t => s = t
  | .list xs, .list ys => isOrEqList xs ys
  | .dict ms, .dict ns => ms.length = ns.length && isOrEqDict ms ns
  | x, y =>
    match x.number, y.number with
    | some .nan, some .nan => true
    | some f, some g => numberEq f g
    | _, _ => false
termination_by structural x => x

def isOrEqList : List Val → List Val → Bool
  | [], [] => true
  | x :: xs, y :: ys => isOrEq x y && isOrEqList xs ys
  | _, _ => false
termination_by structural xs => xs

def isOrEqDict : List (Str × Val) → List (Str × Val) → Bool
  | [], _ => true
  | (k, x) :: ms, ns =>
    (match dictGet k ns with
    | some y => isOrEq x y
    | .none => false) && isOrEqDict ms ns
termination_by structural ms => ms

end

@[simp] theorem isOrEq_str (x : Val) (t : Str) : isOrEq x (.str t) = true ↔ x = .str t := by
  cases x <;> simp [isOrEq, Val.number]

theorem isOrEq_of_str {t : Str} {y : Val} (h : isOrEq (.str t) y = true) : y = .str t := by
  cases y <;> simp_all [isOrEq, Val.number]

/-- `x or y` -/
def orElse (x y : Val) : Val := if x.truthy then x else y

/-- The exceptions that a value of the wrong type causes. -/
inductive Raised where
  | typeError
  | attributeError
deriving DecidableEq, Repr

/-- `x in container` -/
def isIn (x : Val) : Val → Except Raised Bool
  | .list xs => .ok (xs.any (isOrEq · x))
  | .str s =>
    match x with
    | .str w => .ok (decide (w <:+: s))
    | _ => .error .typeError
  | .dict ms => if hashable x then .ok (ms.any fun m => isOrEq (.str m.1) x) else .error .typeError
  | _ => .error .typeError

/-- `container.append(x)` -/
def append (x : Val) : Val → Except Raised Val
  | .list xs => .ok (.list (xs ++ [x]))
  | _ => .error .attributeError

/-! ## Events and tasks -/

/-- An event of type `task`, as the ledger has it. -/
structure Event where
  id : ℤ
  eventId : Str
  source : Str
  createdAt : Str
  payload : Dict

inductive Status where
  | pending
  | accepted
  | inProgress
  | waiting
  | completed
  | failed
  | cancelled
deriving DecidableEq, Repr

/-- The text of a status. -/
def Status.text : Status → Str
  | .pending => lit "pending"
  | .accepted => lit "accepted"
  | .inProgress => lit "in_progress"
  | .waiting => lit "waiting"
  | .completed => lit "completed"
  | .failed => lit "failed"
  | .cancelled => lit "cancelled"

/-- `TERMINAL` -/
def terminal : List Status := [.completed, .failed, .cancelled]

inductive Op where
  | create
  | accept
  | start
  | update
  | block
  | handoff
  | deliver
  | verify
  | complete
  | fail
  | cancel
deriving DecidableEq, Repr

/-- The text of an operation. -/
def Op.text : Op → Str
  | .create => lit "create"
  | .accept => lit "accept"
  | .start => lit "start"
  | .update => lit "update"
  | .block => lit "block"
  | .handoff => lit "handoff"
  | .deliver => lit "deliver"
  | .verify => lit "verify"
  | .complete => lit "complete"
  | .fail => lit "fail"
  | .cancel => lit "cancel"

/-- `OPS` -/
def ops : List Op :=
  [.create, .accept, .start, .update, .block, .handoff, .deliver, .verify, .complete, .fail,
    .cancel]

/-- The operation that a value of `OPS` names. -/
def Op.ofVal : Val → Option Op
  | .str s => ops.find? (·.text = s)
  | _ => .none

structure Anomaly where
  eventId : Str
  ledgerId : ℤ
  op : Val
  why : Str

structure HistoryEntry where
  ledgerId : ℤ
  eventId : Str
  actor : Str
  op : Val
  atTime : Str
  note : Val

/-- The fields of a task that a valid `create` opened. -/
structure Opened where
  title : Val
  context : Val
  initiator : Str
  assignee : Val
  participants : Val
  status : Status
  priority : Val
  deadline : Val
  deps : Val
  blockedReason : Val
  nextAction : Val
  deliverable : Val
  verification : Val
  history : List HistoryEntry
  createdAt : Str
  updatedAt : Option Str

/-- A task; one that no `create` opened has no status. -/
structure Task where
  taskId : Val
  opened : Option Opened
  anomalies : List Anomaly

/-- A field of the payload. -/
def Event.field (ev : Event) (k : String) : Val := getNone (lit k) ev.payload

/-- `_anom` -/
def anom (t : Task) (ev : Event) (why : Str) : Task :=
  { t with anomalies := t.anomalies ++ [⟨ev.eventId, ev.id, ev.field "op", why⟩] }

/-- The entry of an event in the history. -/
def historyEntry (ev : Event) (note : Val) : HistoryEntry :=
  ⟨ev.id, ev.eventId, ev.source, ev.field "op", ev.createdAt, note⟩

/-- `_hist` -/
def hist (o : Opened) (ev : Event) (note : Val) : Opened :=
  { o with
    history := o.history ++ [historyEntry ev (orElse note (ev.field "note"))]
    updatedAt := some ev.createdAt }

/-! ## Operations -/

/-- What an operation on an open task comes to. -/
inductive Outcome where
  | anomaly (why : Str)
  | advance (o : Opened)

/-- A task that no valid `create` has opened. -/
def unopened (taskId : Val) : Task := ⟨taskId, .none, []⟩

/-- `create` of a task that is not there. -/
def create (ev : Event) : Task :=
  let tid := ev.field "task_id"
  if !(ev.field "title").truthy || !(ev.field "assignee").truthy then
    anom (unopened tid) ev (lit "create missing title/assignee — task not opened")
  else
    let o : Opened :=
      { title := ev.field "title"
        context := ev.field "context"
        initiator := ev.source
        assignee := ev.field "assignee"
        participants := orElse (ev.field "participants") (.list [.str ev.source, ev.field "assignee"])
        status := .pending
        priority := ev.field "priority"
        deadline := ev.field "deadline"
        deps := orElse (ev.field "deps") (.list [])
        blockedReason := .none
        nextAction := ev.field "next_action"
        deliverable := .none
        verification := .none
        history := []
        createdAt := ev.createdAt
        updatedAt := .none }
    ⟨tid, some (hist o ev .none), []⟩

/-- A field that `update` replaces when the payload has a value for it. -/
def updated (new old : Val) : Val :=
  match new with
  | .none => old
  | v => v

variable (str : Val → Str)

/-- An operation on a task that is open and not in an end state. -/
def operate (ev : Event) (o : Opened) : Op → Except Raised Outcome
  -- `applyOp` has dealt with `create` before
  | .create => .ok (.anomaly (lit "duplicate create ignored"))
  | .accept =>
    if !(Val.str ev.source).eq o.assignee then
      .ok (.anomaly (lit "accept by " ++ ev.source ++ lit ", assignee is " ++ str o.assignee))
    else if o.status ≠ .pending then .ok (.anomaly (lit "accept from " ++ o.status.text))
    else .ok (.advance (hist { o with status := .accepted } ev .none))
  | .start =>
    if o.status ∈ [Status.accepted, .waiting] then
      .ok (.advance (hist { o with status := .inProgress, blockedReason := .none } ev .none))
    else .ok (.anomaly (lit "start from " ++ o.status.text))
  | .block =>
    if o.status ∈ [Status.accepted, .inProgress] then
      let reason := orElse (ev.field "reason") (.str (lit "unspecified"))
      .ok (.advance (hist { o with status := .waiting, blockedReason := reason } ev .none))
    else .ok (.anomaly (lit "block from " ++ o.status.text))
  | .update =>
    .ok (.advance (hist
      { o with
        nextAction := updated (ev.field "next_action") o.nextAction
        priority := updated (ev.field "priority") o.priority
        deadline := updated (ev.field "deadline") o.deadline
        context := updated (ev.field "context") o.context } ev .none))
  | .deliver =>
    if !(ev.field "deliverable").truthy then .ok (.anomaly (lit "deliver without deliverable"))
    else .ok (.advance (hist { o with deliverable := ev.field "deliverable" } ev .none))
  | .verify =>
    if !(ev.field "verification").truthy then .ok (.anomaly (lit "verify without verification"))
    else .ok (.advance (hist { o with verification := ev.field "verification" } ev .none))
  | .handoff =>
    let recipient := ev.field "to"
    if !recipient.truthy then .ok (.anomaly (lit "handoff without to"))
    else do
      let note := lit "handoff " ++ str o.assignee ++ lit " -> " ++ str recipient ++ lit ": " ++
        str (orElse (ev.field "note") (.str []))
      let o' := { hist o ev (.str note) with assignee := recipient, status := .pending }
      if ← isIn recipient o'.participants then .ok (.advance o')
      else
        let participants ← append recipient o'.participants
        .ok (.advance { o' with participants := participants })
  | .complete =>
    let deliverable := orElse (ev.field "deliverable") o.deliverable
    let verification := orElse (ev.field "verification") o.verification
    if o.status ≠ .inProgress then .ok (.anomaly (lit "complete from " ++ o.status.text))
    else if !deliverable.truthy || !verification.truthy then
      .ok (.anomaly (lit "complete without deliverable+verification — status NOT advanced"))
    else
      .ok (.advance (hist
        { o with
          deliverable := deliverable
          verification := verification
          status := .completed } ev .none))
  | .fail =>
    if !(ev.field "reason").truthy then .ok (.anomaly (lit "fail without reason"))
    else
      .ok (.advance (hist
        { o with status := .failed, blockedReason := ev.field "reason" } ev .none))
  | .cancel => .ok (.advance (hist { o with status := .cancelled } ev (ev.field "reason")))

/-- One event's operation on the entry of its task. -/
def applyOp (ev : Event) (op : Op) (t : Option Task) : Except Raised Task :=
  match op, t with
  | .create, some t => .ok (anom t ev (lit "duplicate create ignored"))
  | .create, none => .ok (create ev)
  | op, none =>
    .ok (anom (unopened (ev.field "task_id")) ev
      (lit "op " ++ op.text ++ lit " before valid create"))
  | op, some t =>
    match t.opened with
    | none => .ok (anom t ev (lit "op " ++ op.text ++ lit " before valid create"))
    | some o =>
      if o.status ∈ terminal then
        .ok (anom t ev (lit "op " ++ op.text ++ lit " after terminal state " ++ o.status.text))
      else do
        match ← operate str ev o op with
        | .anomaly why => .ok (anom t ev why)
        | .advance o' => .ok { t with opened := some o' }

/-! ## The fold -/

/-- A dictionary of tasks. -/
abbrev Tasks := List (Val × Task)

/-- `tasks.get(tid)` -/
def getTask (tid : Val) : Tasks → Option Task
  | [] => none
  | (k, t) :: tasks => if isOrEq k tid then some t else getTask tid tasks

/-- `tasks[tid] = t` -/
def setTask (tid : Val) (t : Task) : Tasks → Tasks
  | [] => [(tid, t)]
  | (k, t') :: tasks => if isOrEq k tid then (k, t) :: tasks else (k, t') :: setTask tid t tasks

/-- The body of the loop. -/
def foldStep (tasks : Tasks) (ev : Event) : Except Raised Tasks :=
  let tid := ev.field "task_id"
  if !tid.truthy then .ok tasks
  else if !hashable (ev.field "op") then .error .typeError
  else
    match Op.ofVal (ev.field "op") with
    | none => .ok tasks
    | some op =>
      if !hashable tid then .error .typeError
      else do
        let t ← applyOp str ev op (getTask tid tasks)
        .ok (setTask tid t tasks)

/-- `sorted(events, key=lambda e: e["id"])` -/
def sortById (events : List Event) : List Event := events.insertionSort (·.id ≤ ·.id)

/-- `fold` -/
def fold (events : List Event) : Except Raised Tasks := (sortById events).foldlM (foldStep str) []

end Tools
end ATalk
