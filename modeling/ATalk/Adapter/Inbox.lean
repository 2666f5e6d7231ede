import ATalk.Adapter
import ATalk.Lib.Calendar
import Mathlib.Data.Nat.Log

/-!
# The local inbox

`InboxAdapter` writes every event it pulls to a file of its own in `pending/`, acknowledges its
receipt, and moves its cursor; `atalk-inbox apply` moves a file to `applied/`. The adapter may be
killed between any two of its steps, and be started again under any process id.

* `deliverStep`, `ownStep`, `ApplierStep` : the steps on the files, the adapter, the appliers;
* `inboxes` : their runs beside a server;
* `CrashSafe` : no event is lost or delivered twice, and what was interrupted is delivered;
* `Files` : the names and the contents of the files.
-/

namespace ATalk
namespace Adapter

open Text Python Sqlite ATalk.Core Federation Checks Transition Callers Server

/-! ## Names -/

/-- `[A-Za-z0-9_.-]` -/
def isSafe (c : CodePoint) : Bool :=
  ofChar 'A' ≤ c && c ≤ ofChar 'Z' || ofChar 'a' ≤ c && c ≤ ofChar 'z' ||
    ofChar '0' ≤ c && c ≤ ofChar '9' || c ∈ lit "_.-"

def safeEventId (eventId : Str) : Str := eventId.map fun c => if isSafe c then c else ofChar '_'

/-- `str(n)` -/
def decimal (n : ℕ) : Str := Calendar.digits (Nat.log 10 n + 1) n

/-- `{n:020d}` -/
def padded (n : ℕ) : Str := Calendar.digits (max 20 (Nat.log 10 n + 1)) n

def filename (event : Event) : Str :=
  padded event.id ++ (lit "_" ++ (safeEventId event.eventId ++ lit ".json"))

/-- `.{filename}.{os.getpid()}.tmp` -/
def temporary (event : Event) (pid : ℕ) : Str :=
  lit "." ++ (filename event ++ (lit "." ++ (decimal pid ++ lit ".tmp")))

/-- The names that `glob("*.json")` finds. -/
def isJson (name : Str) : Bool := decide (lit ".json" <:+ name)

section
variable {event event' : Event} {n m : ℕ}

theorem isJson_filename (event : Event) : isJson (filename event) = true := by
  refine decide_eq_true ?_
  unfold filename
  refine List.IsSuffix.trans ?_ (List.suffix_append _ _)
  refine List.IsSuffix.trans ?_ (List.suffix_append _ _)
  exact List.suffix_append _ _

theorem isJson_temporary (event : Event) (pid : ℕ) : isJson (temporary event pid) = false := by
  refine decide_eq_false fun ⟨front, hfront⟩ => ?_
  have hlast := congrArg List.getLast? hfront
  have htmp : temporary event pid =
      (lit "." ++ (filename event ++ (lit "." ++ decimal pid))) ++ lit ".tmp" := by
    simp only [temporary, List.append_assoc]
  rw [htmp, List.getLast?_append, List.getLast?_append] at hlast
  cases hlast

theorem temporary_ne_filename (event event' : Event) (pid : ℕ) :
    temporary event pid ≠ filename event' := by
  intro h
  have hjson := isJson_temporary event pid
  rw [h, isJson_filename] at hjson
  cases hjson

theorem isDigit_digits (w n : ℕ) : ∀ c ∈ Calendar.digits w n, Json.isDigit c = true := by
  induction w generalizing n with
  | zero => exact nofun
  | succ w ih =>
    intro c hc
    rcases List.mem_append.mp hc with hc | hc
    · exact ih _ c hc
    · rw [List.mem_singleton.mp hc]
      unfold Json.isDigit Calendar.digit
      simp only [Fin.ofNat, Bool.and_eq_true, decide_eq_true_eq]
      have hlt : 0x30 + n % 10 < 0x110000 := by omega
      rw [Nat.mod_eq_of_lt hlt]
      omega

theorem padded_injective (h : padded n = padded m) : n = m := by
  have hlength := congrArg List.length h
  simp only [padded, Calendar.length_digits] at hlength
  have hbound : ∀ k, k < 10 ^ max 20 (Nat.log 10 k + 1) := fun k =>
    (Nat.lt_pow_succ_log_self (by decide) k).trans_le
      (Nat.pow_le_pow_right (by decide) (le_max_right _ _))
  have hm := hbound m
  have hn := hbound n
  unfold padded at h
  rw [hlength] at h hn
  rcases Nat.lt_trichotomy n m with hlt | heq | hgt
  · have hdigits := Calendar.digits_lt hlt hm
    rw [h] at hdigits
    exact absurd hdigits (List.lt_irrefl _)
  · exact heq
  · have hdigits := Calendar.digits_lt hgt hn
    rw [h] at hdigits
    exact absurd hdigits (List.lt_irrefl _)

/-- A name belongs to one id. -/
theorem filename_id (h : filename event = filename event') : event.id = event'.id := by
  have htake : ∀ e : Event, (filename e).takeWhile Json.isDigit = padded e.id := by
    intro e
    unfold filename padded
    rw [List.takeWhile_append_of_pos (isDigit_digits _ _)]
    have hstop : Json.isDigit (ofChar '_') = false := by decide
    show _ ++ (ofChar '_' :: (safeEventId e.eventId ++ lit ".json")).takeWhile _ = _
    rw [List.takeWhile_cons_of_neg (by rw [hstop]; decide), List.append_nil]
  have hpadded := congrArg (List.takeWhile Json.isDigit) h
  rw [htake, htake] at hpadded
  exact padded_injective hpadded

end

/-! ## Files -/

/-- A file that was cut short, or the text of an event. -/
inductive Content where
  | torn
  | whole (event : Event)

abbrev Dir := Str → Option Content

namespace Dir

/-- Some file that `glob("*.json")` finds holds the event. -/
def Contains (dir : Dir) (event : Event) : Prop :=
  ∃ name, isJson name = true ∧ dir name = some (.whole event)

end Dir

/-- The steps of `deliver`. -/
inductive Delivery where
  | pendingExists
  | appliedExists
  | opening
  | writing
  | replacing
  | unlinking

/-- Where `run_once` is with an event. -/
inductive Step where
  | delivering (d : Delivery)
  | ack
  | acking (i : ℕ)
  | advancing
  | committing

/-- One step of `deliver` : what it makes of `pending/`, and where it goes on. It raises when it finds
its temporary file, or does not find it any more. -/
def deliverStep (pending applied : Dir) (pid : ℕ) (event : Event) : Delivery → Dir × Option Step
  | .pendingExists =>
    (pending, some (if (pending (filename event)).isSome then .ack else .delivering .appliedExists))
  | .appliedExists =>
    (pending, some (if (applied (filename event)).isSome then .ack else .delivering .opening))
  | .opening =>
    match pending (temporary event pid) with
    | some _ => (pending, none)
    | none => (Function.update pending (temporary event pid) (some .torn),
        some (.delivering .writing))
  | .writing => (Function.update pending (temporary event pid) (some (.whole event)),
      some (.delivering .replacing))
  | .replacing =>
    match pending (temporary event pid) with
    | none => (pending, none)
    | some c => (Function.update (Function.update pending (filename event) (some c))
        (temporary event pid) none, some (.delivering .unlinking))
  | .unlinking => (Function.update pending (temporary event pid) none, some .ack)

/-! ## The adapter -/

/-- Where a process is: not in `run_once` yet, in its loop, or out of it by `return` or an
exception. -/
inductive Phase where
  | started
  | next (rest : List Event)
  | busy (event : Event) (rest : List Event) (step : Step)
  | returned
  | raised

/-- The adapter, with the cursor in its memory. -/
structure Process where
  pid : ℕ
  sinceId : ℤ
  phase : Phase

/-- Where a run of `atalk-inbox apply` is. -/
inductive Applier where
  | find (eventId : Str)
  | read (name : Str)
  | ack (event : Event)
  | acking (event : Event) (i : ℕ)
  | findAgain (eventId : Str)
  | replace (name : Str)
  | exited

/-- The server, the files, the adapter and the appliers; what the adapter has pulled, and the events it
has begun to deliver. -/
structure InboxState where
  server : Serving
  pending : Dir := fun _ => none
  applied : Dir := fun _ => none
  cursor : Option ℤ := none
  cursorTmp : Option ℤ := none
  process : Option Process := none
  appliers : List Applier := []
  pages : List EventPage := []
  begun : List Event := []

/-- `Cursor.load` -/
def InboxState.loaded (s : InboxState) : ℤ := s.cursor.getD 0

def InboxState.goOn (s : InboxState) (p : Process) (phase : Phase) : InboxState :=
  { s with process := some { p with phase := phase } }

/-- One step of `run_once` that does not wait for the server. -/
def ownStep (s : InboxState) (p : Process) : Option InboxState :=
  match p.phase with
  | .next [] => some (s.goOn p .returned)
  | .next (event :: rest) => some { s.goOn p (.busy event rest (.delivering .pendingExists)) with
      begun := s.begun ++ [event] }
  | .busy event rest (.delivering d) =>
    let (pending, step) := deliverStep s.pending s.applied p.pid event d
    match step with
    | none => some { s.goOn p .raised with pending := pending }
    | some step => some { s.goOn p (.busy event rest step) with pending := pending }
  | .busy event rest .advancing =>
    let sinceId := max p.sinceId event.id
    some { s with
      process := some { p with sinceId := sinceId, phase := .busy event rest .committing },
      cursorTmp := some sinceId }
  | .busy _ rest .committing =>
    match s.cursorTmp with
    | none => some (s.goOn p .raised)
    | some i => some { s.goOn p (.next rest) with cursor := some i, cursorTmp := none }
  | _ => none

/-- `{"delivery": "local_inbox"}` -/
def localInbox : Dict := [(lit "delivery", .str (lit "local_inbox"))]

def InboxState.ask (cfg : ServerConfig) (s : InboxState) (r : Asked) : InboxState :=
  { s with server := { s.server with calls := s.server.calls ++ [(r, (handlers cfg).start r)] } }

/-- One step of `atalk-inbox apply`. It ends when it fails, or is killed. -/
inductive ApplierStep (cfg : ServerConfig) (s : InboxState) : Applier → InboxState → Applier → Prop
  | find {name : Str} {event : Event} : isJson name = true → s.pending name = some (.whole event) →
      ApplierStep cfg s (.find event.eventId) s (.read name)
  | read {name : Str} {event : Event} : s.pending name = some (.whole event) →
      ApplierStep cfg s (.read name) s (.ack event)
  | ack {client : Client} {event : Event} {r : AckCall} :
      client.Acks event.eventId .applied localInbox r →
      ApplierStep cfg s (.ack event) (s.ask cfg (.inr r)) (.acking event s.server.calls.length)
  | acked {event : Event} {i : ℕ} {reply : Reply} : answer cfg s.server i = some reply →
      reply.status = 200 → ApplierStep cfg s (.acking event i) s (.findAgain event.eventId)
  | findAgain {name : Str} {event : Event} : isJson name = true →
      s.pending name = some (.whole event) →
      ApplierStep cfg s (.findAgain event.eventId) s (.replace name)
  | replace {name : Str} {c : Content} : s.pending name = some c →
      ApplierStep cfg s (.replace name) { s with
        pending := Function.update s.pending name none,
        applied := Function.update s.applied name (some c) } .exited
  | exit {a : Applier} : ApplierStep cfg s a s .exited

/-! ## The runs -/

inductive InboxAct where
  | server (act : Callers.Action Db Asked Time)
  | start (pid : ℕ)
  | crash
  | pull (p : EventPage)
  | own
  | ack (r : AckCall)
  | answered
  | fail
  | apply (eventId : Str)
  | markApplied (eventId : Str)
  | applier (i : ℕ)

/-- `run_once` is not running. -/
def Phase.Outside : Phase → Prop
  | .started | .returned | .raised => True
  | _ => False

/-- The process waits for its client. -/
def Phase.Asks : Phase → Prop
  | .started | .returned | .raised => True
  | .busy _ _ .ack | .busy _ _ (.acking _) => True
  | _ => False

/-- An adapter and any number of appliers, on one inbox. -/
def inboxes (cfg : ServerConfig) (client : Client) : System InboxState InboxAct where
  init s := ∃ server, (serving cfg).init server ∧ s = { server := server }
  step s act s' :=
    match act with
    | .server act => ∃ server, (serving cfg).step s.server act server ∧
        s' = { s with server := server }
    | .start pid => s.process = none ∧ s' = { s with process := some ⟨pid, s.loaded, .started⟩ }
    | .crash => s' = { s with process := none }
    | .pull page => ∃ p, s.process = some p ∧ p.phase.Outside ∧
        Pulled cfg client p.sinceId s.server.store page ∧
        s' = { s.goOn p (.next page.events) with pages := s.pages ++ [page] }
    | .own => ∃ p, s.process = some p ∧ ownStep s p = some s'
    | .ack r => ∃ p event rest, s.process = some p ∧ p.phase = .busy event rest .ack ∧
        client.Acks event.eventId .received localInbox r ∧
        s' = (s.ask cfg (.inr r)).goOn p (.busy event rest (.acking s.server.calls.length))
    | .answered => ∃ p event rest i reply, s.process = some p ∧
        p.phase = .busy event rest (.acking i) ∧ answer cfg s.server i = some reply ∧
        s' = s.goOn p (if reply.status = 200 then .busy event rest .advancing else .raised)
    | .fail => ∃ p, s.process = some p ∧ p.phase.Asks ∧ s' = s.goOn p .raised
    | .apply eventId => s' = { s with appliers := s.appliers ++ [.find eventId] }
    | .markApplied eventId => s' = { s with appliers := s.appliers ++ [.findAgain eventId] }
    | .applier i => ∃ a a' t, s.appliers[i]? = some a ∧ ApplierStep cfg s a t a' ∧
        s' = { t with appliers := s.appliers.set i a' }

/-! ## The law -/

/-- The steps of `deliver` that are left, its own one included, and the five behind it. -/
def Delivery.left : Delivery → ℕ
  | .pendingExists => 10
  | .appliedExists => 9
  | .opening => 8
  | .writing => 7
  | .replacing => 6
  | .unlinking => 5

def Step.left : Step → ℕ
  | .delivering d => d.left
  | .ack => 4
  | .acking _ => 3
  | .advancing => 2
  | .committing => 1

/-- A bound of the steps of `run_once` that are left. -/
def Phase.left : Phase → ℕ
  | .next rest => rest.length * 11 + 1
  | .busy _ rest step => rest.length * 11 + 1 + step.left
  | _ => 0

/-- A step of `run_once` on a server that works: its client does not fail. -/
def Works (cfg : ServerConfig) (s : InboxState) : InboxAct → Prop
  | .own | .ack _ => True
  | .answered => ∀ p event rest i reply, s.process = some p → p.phase = .busy event rest (.acking i) →
      answer cfg s.server i = some reply → reply.status = 200
  | _ => False

/-- The event is in exactly one of `pending/` and `applied/`. -/
def InboxState.Stored (s : InboxState) (event : Event) : Prop :=
  Xor (s.pending.Contains event) (s.applied.Contains event)

/-- In every run whose steps all meet a condition. -/
structure CrashSafe (cfg : ServerConfig) (client : Client) (ok : InboxState → InboxAct → Prop) :
    Prop where
  /-- An event up to the persisted cursor is stored, or a pull passed it as applied. -/
  kept : ∀ s, Reach (inboxes cfg client) ok s → ∀ row ∈ s.server.store.events,
    forTarget client.agent row = true → (row.id : ℤ) ≤ s.loaded →
      (∃ event, rowToEvent row = .ok event ∧ s.Stored event) ∨ Passed client.agent s.pages row
  /-- What was applied stays applied, and is pending no more. -/
  stays : ∀ s s', Reach (inboxes cfg client) ok s → Run (inboxes cfg client) ok s s' → ∀ event,
    s.applied.Contains event → s'.applied.Contains event ∧ ¬ s'.pending.Contains event
  /-- With a working server `run_once` does not raise, and comes to its end. -/
  succeeds : ∀ s act s' p, Reach (inboxes cfg client) ok s → ok s act → Works cfg s act →
    (inboxes cfg client).step s act s' → s.process = some p →
      ∃ p', s'.process = some p' ∧ p'.phase ≠ .raised ∧ p'.phase.left < p.phase.left
  /-- In `run_once` a process waits for an answer, or can take a step. -/
  goesOn : ∀ s p, Reach (inboxes cfg client) ok s → s.process = some p → ¬ p.phase.Outside →
    (∃ event rest i, p.phase = .busy event rest (.acking i)) ∨
      ∃ act s', Works cfg s act ∧ (inboxes cfg client).step s act s'
  /-- When `run_once` has returned, every event whose delivery was ever begun is stored, or
  acknowledged as applied. -/
  delivers : ∀ s p, Reach (inboxes cfg client) ok s → s.process = some p → p.phase = .returned →
    ∀ event ∈ s.begun, s.Stored event ∨
      hasAck s.server.store event.eventId client.agent .applied = true

/-- No temporary file is in the way of a process that opens its own. -/
def Fresh (s : InboxState) : InboxAct → Prop
  | .own => ∀ p event rest, s.process = some p → p.phase = .busy event rest (.delivering .opening) →
      s.pending (temporary event p.pid) = none
  | _ => True

/-! ## The files -/

/-- The file is named after the event it holds, one of the ledger. -/
def Named (db : Db) (name : Str) (c : Content) : Prop :=
  ∃ row ∈ db.events, ∃ event, Decoded row event ∧ c = .whole event ∧ name = filename event

/-- The files of an inbox. -/
structure Files (db : Db) (pending applied : Dir) : Prop where
  named : ∀ name c, isJson name = true → pending name = some c → Named db name c
  kept : ∀ name c, applied name = some c → Named db name c
  apart : ∀ name, isJson name = true → pending name ≠ none → applied name = none

/-- The event has its file. -/
def HasFile (pending applied : Dir) (event : Event) : Prop :=
  pending (filename event) = some (.whole event) ∨ applied (filename event) = some (.whole event)

section
variable {db db' : Db} {pending applied : Dir} {event : Event} {row : EventRow} {name : Str}
  {c : Content} {pid : ℕ}

theorem Named.mono (h : Named db name c) (hsub : db.events <+: db'.events) : Named db' name c := by
  obtain ⟨row, hrow, h⟩ := h
  exact ⟨row, hsub.subset hrow, h⟩

theorem Files.mono (h : Files db pending applied) (hsub : db.events <+: db'.events) :
    Files db' pending applied :=
  ⟨fun name c hjson hc => (h.named name c hjson hc).mono hsub,
    fun name c hc => (h.kept name c hc).mono hsub, h.apart⟩

/-- The file of an event holds it. -/
theorem Named.whole (h : Named db (filename event) c) (hlog : Cursor.Ascending rowKey db.events)
    (hrow : row ∈ db.events) (hevent : Decoded row event) : c = .whole event := by
  obtain ⟨row', hrow', event', hevent', rfl, hname⟩ := h
  have hid : row'.id = row.id := by
    rw [← hevent'.id, ← hevent.id]
    exact (filename_id hname).symm
  have hsame : row' = row := hlog.eq_of_key hrow' hrow (congrArg Int.ofNat hid)
  rw [hsame] at hevent'
  cases hevent'.symm.trans hevent
  rfl

theorem Files.contains_pending (h : Files db pending applied) :
    pending.Contains event ↔ pending (filename event) = some (.whole event) := by
  refine ⟨fun ⟨name, hjson, hname⟩ => ?_, fun hname => ⟨_, isJson_filename event, hname⟩⟩
  obtain ⟨_, -, event', -, heq, rfl⟩ := h.named name _ hjson hname
  cases heq
  exact hname

theorem Files.contains_applied (h : Files db pending applied) :
    applied.Contains event ↔ applied (filename event) = some (.whole event) := by
  refine ⟨fun ⟨name, hjson, hname⟩ => ?_, fun hname => ⟨_, isJson_filename event, hname⟩⟩
  obtain ⟨_, -, event', -, heq, rfl⟩ := h.kept name _ hname
  cases heq
  exact hname

/-- What is applied is not pending. -/
theorem Files.not_pending (h : Files db pending applied) (happlied : applied (filename event) ≠ none) :
    ¬ pending.Contains event := by
  intro hpending
  rw [h.contains_pending] at hpending
  have hnone := h.apart (filename event) (isJson_filename event) (by rw [hpending]; exact nofun)
  exact happlied hnone

theorem Files.stored (h : Files db pending applied) (hfile : HasFile pending applied event) :
    Xor (pending.Contains event) (applied.Contains event) := by
  rcases hfile with hpending | happlied
  · refine .inl ⟨h.contains_pending.mpr hpending, fun hcontains => ?_⟩
    have hnone := h.apart (filename event) (isJson_filename event) (by rw [hpending]; exact nofun)
    rw [h.contains_applied, hnone] at hcontains
    cases hcontains
  · exact .inr ⟨h.contains_applied.mpr happlied, h.not_pending (by rw [happlied]; exact nofun)⟩

/-- A temporary file changes. -/
theorem Files.temporary (h : Files db pending applied) (event : Event) (pid : ℕ)
    (c : Option Content) :
    Files db (Function.update pending (Adapter.temporary event pid) c) applied := by
  have hother : ∀ name, isJson name = true →
      Function.update pending (Adapter.temporary event pid) c name = pending name := by
    intro name hjson
    refine Function.update_of_ne (fun hname => ?_) _ _
    rw [hname, isJson_temporary] at hjson
    cases hjson
  refine ⟨fun name d hjson hname => ?_, h.kept, fun name hjson hname => ?_⟩
  · rw [hother name hjson] at hname
    exact h.named name d hjson hname
  · rw [hother name hjson] at hname
    exact h.apart name hjson hname

/-- An event gets its file. -/
theorem Files.deliver (h : Files db pending applied) (hrow : row ∈ db.events)
    (hevent : Decoded row event) (happlied : applied (filename event) = none) :
    Files db (Function.update pending (filename event) (some (.whole event))) applied := by
  refine ⟨fun name c hjson hname => ?_, h.kept, fun name hjson hname => ?_⟩
  · by_cases hsame : name = filename event
    · rw [hsame, Function.update_self] at hname
      cases hname
      exact ⟨row, hrow, event, hevent, rfl, hsame⟩
    · rw [Function.update_of_ne hsame] at hname
      exact h.named name c hjson hname
  · by_cases hsame : name = filename event
    · rw [hsame]
      exact happlied
    · rw [Function.update_of_ne hsame] at hname
      exact h.apart name hjson hname

/-- A file is moved. -/
theorem Files.apply (h : Files db pending applied) (hjson : isJson name = true)
    (hname : pending name = some c) :
    Files db (Function.update pending name none) (Function.update applied name (some c)) := by
  refine ⟨fun other d hother hd => ?_, fun other d hd => ?_, fun other hother hd => ?_⟩
  · by_cases hsame : other = name
    · rw [hsame, Function.update_self] at hd
      cases hd
    · rw [Function.update_of_ne hsame] at hd
      exact h.named other d hother hd
  · by_cases hsame : other = name
    · rw [hsame, Function.update_self] at hd
      cases hd
      rw [hsame]
      exact h.named name c hjson hname
    · rw [Function.update_of_ne hsame] at hd
      exact h.kept other d hd
  · by_cases hsame : other = name
    · rw [hsame, Function.update_self] at hd
      exact absurd rfl hd
    · rw [Function.update_of_ne hsame] at hd ⊢
      exact h.apart other hother hd

theorem HasFile.apply (h : HasFile pending applied event) (hname : pending name = some c)
    (hapart : pending name ≠ none → applied name = none) :
    HasFile (Function.update pending name none) (Function.update applied name (some c)) event := by
  unfold HasFile
  by_cases hsame : filename event = name
  · rw [hsame, Function.update_self, Function.update_self]
    rcases h with hpending | happlied
    · rw [hsame, hname] at hpending
      exact .inr hpending
    · rw [hsame, hapart (by rw [hname]; exact nofun)] at happlied
      cases happlied
  · rw [Function.update_of_ne hsame, Function.update_of_ne hsame]
    exact h

end

/-! ## A delivery -/

/-- What a process knows of the files before a step of `deliver`. -/
def Delivery.Holds (pending applied : Dir) (pid : ℕ) (event : Event) : Delivery → Prop
  | .pendingExists => True
  | .appliedExists => pending (filename event) = none
  | .opening | .writing => pending (filename event) = none ∧ applied (filename event) = none
  | .replacing => pending (filename event) = none ∧ applied (filename event) = none ∧
      pending (temporary event pid) = some (.whole event)
  | .unlinking => HasFile pending applied event

/-- What it knows before any step with an event. -/
def Step.Holds (pending applied : Dir) (pid : ℕ) (event : Event) : Step → Prop
  | .delivering d => d.Holds pending applied pid event
  | _ => HasFile pending applied event

section
variable {db : Db} {pending applied : Dir} {event : Event} {row : EventRow} {pid : ℕ} {d : Delivery}

/-- A step of `deliver` that finds no temporary file in its way. -/
theorem deliverStep_spec (hfiles : Files db pending applied)
    (hlog : Cursor.Ascending rowKey db.events) (hrow : row ∈ db.events) (hevent : Decoded row event)
    (hd : d.Holds pending applied pid event)
    (hfresh : d = .opening → pending (temporary event pid) = none) :
    ∃ pending' step, deliverStep pending applied pid event d = (pending', some step) ∧
      Files db pending' applied ∧ step.Holds pending' applied pid event ∧
      (4 ≤ step.left ∧ step.left < d.left) ∧
      ∀ other, HasFile pending applied other → HasFile pending' applied other := by
  have hother : ∀ (c : Option Content) (other : Event),
      Function.update pending (temporary event pid) c (filename other) = pending (filename other) :=
    fun c other => Function.update_of_ne (temporary_ne_filename event other pid).symm _ _
  have hkeep : ∀ (c : Option Content) (other : Event), HasFile pending applied other →
      HasFile (Function.update pending (temporary event pid) c) applied other := by
    intro c other hhas
    unfold HasFile
    rw [hother]
    exact hhas
  cases d with
  | pendingExists =>
    refine ⟨_, _, rfl, hfiles, ?_, ?_, fun _ h => h⟩
    · cases hfile : pending (filename event) with
      | none => exact hfile
      | some c =>
        have hc := (hfiles.named _ c (isJson_filename event) hfile).whole hlog hrow hevent
        exact .inl (hfile.trans (congrArg some hc))
    · split_ifs <;> decide
  | appliedExists =>
    refine ⟨_, _, rfl, hfiles, ?_, ?_, fun _ h => h⟩
    · cases hfile : applied (filename event) with
      | none => exact ⟨hd, hfile⟩
      | some c =>
        have hc := (hfiles.kept _ c hfile).whole hlog hrow hevent
        exact .inr (hfile.trans (congrArg some hc))
    · split_ifs <;> decide
  | opening =>
    refine ⟨_, .delivering .writing, ?_, hfiles.temporary event pid (some .torn), ?_, by decide,
      hkeep _⟩
    · simp only [deliverStep, hfresh rfl]
    · exact ⟨(hother _ event).trans hd.1, hd.2⟩
  | writing =>
    refine ⟨_, .delivering .replacing, rfl, hfiles.temporary event pid _, ?_, by decide, hkeep _⟩
    exact ⟨(hother _ event).trans hd.1, hd.2, Function.update_self ..⟩
  | replacing =>
    obtain ⟨hnone, happlied, htemporary⟩ := hd
    refine ⟨_, .delivering .unlinking, ?_, (hfiles.deliver hrow hevent happlied).temporary event pid
      none, ?_, by decide, fun other hhas => ?_⟩
    · simp only [deliverStep, htemporary]
    · refine .inl ?_
      rw [Function.update_of_ne (temporary_ne_filename event event pid).symm, Function.update_self]
    · unfold HasFile
      rw [Function.update_of_ne (temporary_ne_filename event other pid).symm]
      by_cases hsame : filename other = filename event
      · -- nothing has this name yet
        rcases hhas with hpending | hother
        · rw [hsame, hnone] at hpending
          cases hpending
        · exact .inr hother
      · rw [Function.update_of_ne hsame]
        exact hhas
  | unlinking =>
    exact ⟨_, .ack, rfl, hfiles.temporary event pid none, hkeep _ _ hd, by decide, hkeep _⟩

/-- The file of an applier is moved meanwhile. -/
theorem Delivery.Holds.apply {name : Str} {c : Content} (hfiles : Files db pending applied)
    (h : d.Holds pending applied pid event) (hjson : isJson name = true)
    (hname : pending name = some c) :
    d.Holds (Function.update pending name none) (Function.update applied name (some c)) pid event := by
  have hnone : pending (filename event) = none →
      Function.update pending name none (filename event) = none := by
    intro hfile
    by_cases hsame : filename event = name
    · rw [hsame, Function.update_self]
    · rw [Function.update_of_ne hsame]
      exact hfile
  have happlied : pending (filename event) = none → applied (filename event) = none →
      Function.update applied name (some c) (filename event) = none := by
    intro hfile hfree
    refine (Function.update_of_ne (fun hsame => ?_) _ _).trans hfree
    rw [hsame, hname] at hfile
    cases hfile
  cases d with
  | pendingExists => trivial
  | appliedExists => exact hnone h
  | opening => exact ⟨hnone h.1, happlied h.1 h.2⟩
  | writing => exact ⟨hnone h.1, happlied h.1 h.2⟩
  | replacing =>
    refine ⟨hnone h.1, happlied h.1 h.2.1, (Function.update_of_ne (fun hsame => ?_) _ _).trans h.2.2⟩
    rw [← hsame, isJson_temporary] at hjson
    cases hjson
  | unlinking => exact HasFile.apply h hname (hfiles.apart name hjson)

theorem Step.Holds.apply {step : Step} {name : Str} {c : Content} (hfiles : Files db pending applied)
    (h : step.Holds pending applied pid event) (hjson : isJson name = true)
    (hname : pending name = some c) :
    step.Holds (Function.update pending name none) (Function.update applied name (some c)) pid
      event := by
  cases step with
  | delivering d => exact Delivery.Holds.apply hfiles h hjson hname
  | _ => exact HasFile.apply h hname (hfiles.apart name hjson)

end

end Adapter
end ATalk
