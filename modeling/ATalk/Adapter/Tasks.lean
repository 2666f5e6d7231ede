import ATalk.Adapter.Threads
import ATalk.Adapter.Replies
import ATalk.Lib.KeyedTable

/-!
# The task store of the OpenClaw adapter

`OpenClawTaskStore` keeps the threads of work in a file, each with the ids of its events. A save puts
a new file in the place of the old one, in the order of the keys.

* `Thread`, `TaskFile` : the file;
* `append`, `setStatus`, `finalizeComplete`, `due` : what the store does;
* `Listed` : an id that a thread keeps open, and what becomes of it.
-/

namespace ATalk
namespace Adapter

open Text Python ATalk.Core KeyedTable

/-! ## The file -/

inductive ThreadStatus where
  | active
  | waiting
  | blocked
  | complete
deriving DecidableEq, Repr

def WorkStatus.thread : WorkStatus → ThreadStatus
  | .complete => .complete
  | .waiting => .waiting
  | .blocked => .blocked

structure Thread where
  key : Str
  sessionId : Str
  eventIds : List Str
  status : ThreadStatus
  latestEvent : Event
  retryCount : ℕ
  nextRetryAt : Option ℤ
  blockerReason : Option Str
  updatedAt : ℤ

abbrev TaskFile := Keyed Thread.key

/-- What an event makes of its thread. -/
def Thread.reopen (t : Thread) (event : Event) (now : ℤ) : Thread :=
  { t with
    eventIds := if event.eventId ∈ t.eventIds then t.eventIds else t.eventIds ++ [event.eventId]
    status := .active
    latestEvent := event
    retryCount := 0
    nextRetryAt := none
    blockerReason := none
    updatedAt := now }

/-- `retry_base` and `retry_max`, in seconds. -/
def retryBase : ℤ := 60

def retryMax : ℤ := 1800

/-- The delay before a retry. -/
def retryDelay (retryCount : ℕ) : ℤ := min retryMax (retryBase * 2 ^ min (retryCount - 1) 8)

/-- What an outcome makes of the thread. -/
def Thread.settle (t : Thread) (status : WorkStatus) (blockerReason : Str) (now : ℤ) : Thread :=
  match status with
  | .complete => { t with status := .complete, updatedAt := now, nextRetryAt := none }
  | .waiting =>
    { t with
      status := .waiting
      updatedAt := now
      blockerReason := some (blockerReason.take 1000)
      retryCount := t.retryCount + 1
      nextRetryAt := some (now + retryDelay (t.retryCount + 1)) }
  | .blocked =>
    { t with
      status := .blocked
      updatedAt := now
      blockerReason := some (blockerReason.take 1000)
      nextRetryAt := none }

namespace TaskFile

/-- `append` -/
def append (str : Val → Str) (file : TaskFile) (event : Event) (sessionId : Str) (now : ℤ) : TaskFile :=
  let thread := (file.get (threadKey str event)).getD
    ⟨threadKey str event, sessionId, [], .active, event, 0, none, none, now⟩
  file.upsert (thread.reopen event now)

/-- `set_status`, with the ids that it returns; `none` where there is no such thread. -/
def setStatus (str : Val → Str) (file : TaskFile) (event : Event) (status : WorkStatus)
    (blockerReason : Str) (now : ℤ) : Option (List Str × TaskFile) :=
  (file.get (threadKey str event)).map fun thread =>
    (thread.eventIds, file.upsert (thread.settle status blockerReason now))

/-- `finalize_complete` -/
def finalizeComplete (str : Val → Str) (file : TaskFile) (event : Event) : TaskFile :=
  file.remove (threadKey str event)

/-- `due`, with the events that are retried. -/
def due (file : TaskFile) (now : ℤ) : List Event :=
  (file.listing.filter fun t => t.status = .waiting && t.nextRetryAt.getD 0 ≤ now).map
    Thread.latestEvent

end TaskFile

/-! ## What is kept open -/

/-- A thread that is not complete lists the id. -/
def Listed (file : TaskFile) (eventId : Str) : Prop :=
  ∃ t ∈ file.rows, t.status ≠ .complete ∧ eventId ∈ t.eventIds

/-- The thread of an event lists it. -/
def Filed (str : Val → Str) (file : TaskFile) (event : Event) : Prop :=
  ∃ t ∈ file.rows, t.key = threadKey str event ∧ event.eventId ∈ t.eventIds

variable {str : Val → Str} {file file' : TaskFile} {event : Event} {eventId session reason : Str}
  {now : ℤ} {status : WorkStatus} {thread : Thread}

theorem mem_reopen {t : Thread} (h : eventId ∈ t.eventIds) :
    eventId ∈ (t.reopen event now).eventIds := by
  unfold Thread.reopen
  show eventId ∈ if _ then _ else _
  split_ifs
  · exact h
  · exact List.mem_append_left _ h

theorem reopen_lists (t : Thread) (event : Event) (now : ℤ) :
    event.eventId ∈ (t.reopen event now).eventIds := by
  unfold Thread.reopen
  show event.eventId ∈ if _ then _ else _
  split_ifs with h
  · exact h
  · exact List.mem_append_right _ (List.mem_singleton_self _)

theorem settle_key (t : Thread) (status : WorkStatus) (reason : Str) (now : ℤ) :
    (t.settle status reason now).key = t.key := by cases status <;> rfl

theorem settle_eventIds (t : Thread) (status : WorkStatus) (reason : Str) (now : ℤ) :
    (t.settle status reason now).eventIds = t.eventIds := by cases status <;> rfl

theorem settle_status (t : Thread) (status : WorkStatus) (reason : Str) (now : ℤ) :
    (t.settle status reason now).status = status.thread := by cases status <;> rfl

/-- A row that is put in place lists the ids that the one before listed. -/
theorem Listed.upsert (h : Listed file eventId) (hopen : thread.status ≠ .complete)
    (hids : ∀ t ∈ file.rows, t.key = thread.key → eventId ∈ t.eventIds → eventId ∈ thread.eventIds) :
    Listed (file.upsert thread) eventId := by
  obtain ⟨t, ht, hstatus, hmem⟩ := h
  by_cases hkey : t.key = thread.key
  · exact ⟨thread, Keyed.mem_upsert.mpr (.inl rfl), hopen, hids t ht hkey hmem⟩
  · exact ⟨t, Keyed.mem_upsert.mpr (.inr ⟨ht, hkey⟩), hstatus, hmem⟩

/-- The row that `append` puts in place. -/
theorem append_eq (str : Val → Str) (file : TaskFile) (event : Event) (session : Str) (now : ℤ) :
    ∃ t : Thread, t.key = threadKey str event ∧
      (∀ old ∈ file.rows, old.key = threadKey str event → old = t) ∧
      file.append str event session now = file.upsert (t.reopen event now) := by
  unfold TaskFile.append
  cases hget : file.get (threadKey str event) with
  | none =>
    refine ⟨_, rfl, fun old hold hkey => ?_, rfl⟩
    have hsome := Keyed.get_eq_some.mpr ⟨hold, hkey⟩
    rw [hget] at hsome
    cases hsome
  | some t =>
    obtain ⟨ht, hkey⟩ := Keyed.get_eq_some.mp hget
    exact ⟨t, hkey, fun old hold hsame => file.eq_of_key hold ht (hsame.trans hkey.symm), rfl⟩

theorem Listed.append (h : Listed file eventId) :
    Listed (file.append str event session now) eventId := by
  obtain ⟨t, hkey, hold, heq⟩ := append_eq str file event session now
  rw [heq]
  refine h.upsert nofun fun old hmem hsame hid => mem_reopen ?_
  rw [← hold old hmem (hsame.trans hkey)]
  exact hid

/-- An event that is appended is filed, in an open thread. -/
theorem filed_append (str : Val → Str) (file : TaskFile) (event : Event) (session : Str) (now : ℤ) :
    Filed str (file.append str event session now) event := by
  obtain ⟨t, hkey, -, heq⟩ := append_eq str file event session now
  rw [heq]
  exact ⟨_, Keyed.mem_upsert.mpr (.inl rfl), hkey, reopen_lists t event now⟩

/-- What `set_status` has done. -/
structure Settles (str : Val → Str) (file file' : TaskFile) (event : Event) (status : WorkStatus)
    (eventIds : List Str) : Prop where
  thread : ∃ t ∈ file.rows, t.key = threadKey str event ∧ t.eventIds = eventIds
  other : ∀ t ∈ file.rows, t.key ≠ threadKey str event → t ∈ file'.rows
  own : ∃ t ∈ file'.rows, t.key = threadKey str event ∧ t.eventIds = eventIds ∧
    t.status = status.thread

theorem settles_of_setStatus {eventIds : List Str}
    (h : file.setStatus str event status reason now = some (eventIds, file')) :
    Settles str file file' event status eventIds := by
  obtain ⟨t, hget, heq⟩ := Option.map_eq_some_iff.mp h
  obtain ⟨ht, hkey⟩ := Keyed.get_eq_some.mp hget
  cases heq
  have hkey' : (t.settle status reason now).key = threadKey str event :=
    (settle_key t status reason now).trans hkey
  refine ⟨⟨t, ht, hkey, rfl⟩, fun other hother hne => ?_, ?_⟩
  · refine Keyed.mem_upsert.mpr (.inr ⟨hother, ?_⟩)
    rw [hkey']
    exact hne
  · exact ⟨_, Keyed.mem_upsert.mpr (.inl rfl), hkey', settle_eventIds t status reason now,
      settle_status t status reason now⟩

section
variable {eventIds : List Str}

/-- The thread that has an event filed is the one that was settled. -/
theorem Settles.filed (h : Settles str file file' event status eventIds)
    (hfiled : Filed str file event) : event.eventId ∈ eventIds := by
  obtain ⟨t, ht, hkey, hids⟩ := h.thread
  obtain ⟨t', ht', hkey', hmem⟩ := hfiled
  rw [file.eq_of_key ht' ht (hkey'.trans hkey.symm), hids] at hmem
  exact hmem

/-- Without completion its ids are listed. -/
theorem Settles.lists (h : Settles str file file' event status eventIds)
    (hopen : status ≠ .complete) (hid : eventId ∈ eventIds) : Listed file' eventId := by
  obtain ⟨t, ht, -, hids, hstatus⟩ := h.own
  refine ⟨t, ht, ?_, ?_⟩
  · rw [hstatus]
    cases status with
    | complete => exact absurd rfl hopen
    | waiting => exact nofun
    | blocked => exact nofun
  · rw [hids]
    exact hid

/-- A listed id stays so, or is one of the thread. -/
theorem Settles.listed (h : Settles str file file' event status eventIds)
    (hlisted : Listed file eventId) : Listed file' eventId ∨ eventId ∈ eventIds := by
  obtain ⟨t, ht, hstatus, hmem⟩ := hlisted
  by_cases hkey : t.key = threadKey str event
  · obtain ⟨own, hown, hkey', hids⟩ := h.thread
    rw [file.eq_of_key ht hown (hkey.trans hkey'.symm), hids] at hmem
    exact .inr hmem
  · exact .inl ⟨t, h.other t ht hkey, hstatus, hmem⟩

/-- The thread has the status. -/
theorem Settles.status_eq (h : Settles str file file' event status eventIds) {t : Thread}
    (ht : t ∈ file'.rows) (hkey : t.key = threadKey str event) : t.status = status.thread := by
  obtain ⟨own, hown, hkey', -, hstatus⟩ := h.own
  rw [file'.eq_of_key ht hown (hkey.trans hkey'.symm)]
  exact hstatus

end

/-- What is listed is not in a thread that is complete. -/
theorem Listed.finalize (h : Listed file eventId)
    (hcomplete : ∀ t ∈ file.rows, t.key = threadKey str event → t.status = .complete) :
    Listed (file.finalizeComplete str event) eventId := by
  obtain ⟨t, ht, hstatus, hmem⟩ := h
  exact ⟨t, Keyed.mem_remove.mpr ⟨ht, fun hkey => hstatus (hcomplete t ht hkey)⟩, hstatus, hmem⟩

end Adapter
end ATalk
