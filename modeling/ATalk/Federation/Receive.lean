import ATalk.Federation.Inbox

/-!
# What an inbound request leaves behind

`POST /federation/inbox` taken apart: an answer other than 200 writes a conflict row at most; a
200 is given for an admitted event, which is either stored now, with its local row, or was
stored before with the same bytes.

* `Stored` : a new inbound row and its local row;
* `Delivered` : delivery changes nothing but delivery states;
* `federationInbox_cases` : the outcomes of the handler.
-/

namespace ATalk
namespace Federation

open Text Json Python Sqlite ATalk.Core Checks

variable {envr : Env} {fed : Runtime} {db db' db'' : Db} {p : InboundParams} {now : Time}

/-! ## Delivery -/

/-- The columns of an inbound row that delivery leaves alone. -/
def InboundRow.fixed (row : InboundRow) : InboundRow := { row with deliveryState := .pending }

/-- Nothing changed but delivery states. -/
structure Delivered (db db' : Db) : Prop where
  rows : db'.federationInbound.map InboundRow.fixed = db.federationInbound.map InboundRow.fixed
  frame : db' = { db with federationInbound := db'.federationInbound }

theorem Delivered.refl (db : Db) : Delivered db db := ⟨rfl, rfl⟩

theorem Delivered.trans (h : Delivered db db') (h' : Delivered db' db'') : Delivered db db'' where
  rows := h'.rows.trans h.rows
  frame := by rw [h'.frame, h.frame]

theorem markDelivered_delivered (db : Db) (origin eventId : Str) :
    Delivered db (markDelivered db origin eventId) where
  rows := by
    simp only [markDelivered, List.map_map]
    refine List.map_congr_left fun row _ => ?_
    simp only [Function.comp_apply]
    split_ifs <;> rfl
  frame := rfl

theorem deliverOne_delivered (db : Db) (row : InboundRow) : Delivered db (deliverOne db row) := by
  unfold deliverOne
  split
  · exact markDelivered_delivered db _ _
  · exact markDelivered_delivered db _ _
  · exact .refl db

theorem foldl_deliverOne (rows : List InboundRow) (db : Db) :
    Delivered db (rows.foldl deliverOne db) := by
  induction rows generalizing db with
  | nil => exact .refl db
  | cons row rows ih => exact (deliverOne_delivered db row).trans (ih _)

theorem deliverPending_delivered (db : Db) : Delivered db (deliverPending db) :=
  foldl_deliverOne _ db

/-! ## The transaction -/

/-- The counter of a source one further, and nothing else. -/
theorem nextSeq_frame {source : Str} {seq : ℤ} (h : nextSeq envr db source = .ok (db', seq)) :
    db' = { db with sourceCounters := db'.sourceCounters } := by
  simp only [nextSeq, bind_eq_ok] at h
  obtain ⟨_, -, h⟩ := h
  split at h
  · cases h
  · simp only [bind_eq_ok, pure_eq_ok, Prod.mk.injEq] at h
    obtain ⟨_, -, rfl, -⟩ := h
    rfl

/-- A stored event: its id was free in both tables, and it brought one row to each. -/
structure Stored (db : Db) (p : InboundParams) (now : Time) (db' : Db) : Prop where
  freshInbound : findInbound db p.origin p.eventId = none
  freshEvent : ∀ row ∈ db.events, row.eventId ≠ p.eventId
  inbound : db'.federationInbound = db.federationInbound ++ [inboundRow db p now]
  event : ∃ seq, db'.events = db.events ++ [localRow db p seq now]
  frame : db' = { db with
    federationInbound := db'.federationInbound, events := db'.events,
    sourceCounters := db'.sourceCounters }

theorem receiveTxn_committed {row : InboundRow}
    (h : receiveTxn envr db p now = .committed db' row) :
    Stored db p now db' ∧ row = inboundRow db p now := by
  unfold receiveTxn at h
  split at h
  · cases h
  next hin =>
  split at h
  · cases h
  next db₁ seq hseq =>
    have hframe := nextSeq_frame hseq
    split at h
    · cases h
    next v hv =>
      split at h
      · cases h
      next hid =>
      split at h
      · cases h
      simp only [Receipt.committed.injEq] at h
      obtain ⟨rfl, rfl⟩ := h
      refine ⟨⟨?_, ?_, rfl, ⟨seq, rfl⟩, ?_⟩, rfl⟩
      · simpa using hin
      · simpa using hid
      · rw [hframe]

/-- `receive_event` stores, recognizes what it stored, or records a conflict. -/
theorem receiveEvent_cases {res : Received} (h : receiveEvent envr db p now = .ok (db', res)) :
    (res = .stored (inboundRow db p now) ∧ Stored db p now db') ∨
      (∃ row, res = .duplicate row ∧ findInbound db p.origin p.eventId = some row ∧
        row.eventJcs = p.eventJcs ∧ db' = db) ∨
      ∃ reason rows, res = .conflict reason ∧
        db' = { db with federationInboundConflicts := rows } := by
  unfold receiveEvent at h
  split at h
  · cases h
  next db₁ row htxn =>
    obtain ⟨hs, rfl⟩ := receiveTxn_committed htxn
    cases h
    exact .inl ⟨rfl, hs⟩
  · rw [Except.ok.injEq] at h
    unfold classifyReceived at h
    split at h
    · next row hrow =>
      split_ifs at h with hjcs
      · cases h
        exact .inr (.inl ⟨row, rfl, hrow, hjcs, rfl⟩)
      · cases h
        exact .inr (.inr ⟨_, _, rfl, rfl⟩)
    · cases h
      exact .inr (.inr ⟨_, _, rfl, rfl⟩)

/-! ## The handler -/

theorem fedErrorStatus_ne_200 (e : FederationError) : fedErrorStatus e ≠ 200 := by
  unfold fedErrorStatus
  split_ifs <;> decide

/-- A refused envelope is answered with something else than a 200. -/
theorem admitInbound_error {limits : RateLimits} {env : Envelope} {reply : Reply}
    (h : admitInbound fed db limits env = .error reply) : reply.status ≠ 200 := by
  unfold admitInbound at h
  split at h
  · cases h
    decide
  · split at h
    · cases h
      exact show (403 : ℕ) ≠ 200 by decide
    · split at h
      · cases h
        decide
      · simp only at h
        split at h
        · cases h
          decide
        · split at h
          · cases h
            decide
          · cases h

/-- An admitted event is stored, or was stored with the same bytes, or is not answered with a
200 and writes a conflict row at most. -/
theorem storeInbound_cases (envr : Env) (db : Db) (p : InboundParams) (now : Time) :
    ((storeInbound envr db p now).2.status ≠ 200 ∧
        ∃ rows, (storeInbound envr db p now).1 = { db with federationInboundConflicts := rows }) ∨
      (∃ db₁, Stored db p now db₁ ∧ Delivered db₁ (storeInbound envr db p now).1 ∧
        (storeInbound envr db p now).2 = statusReply 200 "stored") ∨
      ∃ row, findInbound db p.origin p.eventId = some row ∧ row.eventJcs = p.eventJcs ∧
        Delivered db (storeInbound envr db p now).1 ∧
        (storeInbound envr db p now).2 = statusReply 200 "duplicate" := by
  unfold storeInbound
  cases hrec : receiveEvent envr db p now with
  | error e => exact .inl ⟨show 500 ≠ 200 by decide, db.federationInboundConflicts, rfl⟩
  | ok q =>
    obtain ⟨db', res⟩ := q
    rcases receiveEvent_cases hrec with ⟨rfl, hs⟩ | ⟨row, rfl, hrow, hjcs, rfl⟩ |
      ⟨reason, rows, rfl, rfl⟩
    · exact .inr (.inl ⟨db', hs, deliverPending_delivered db', rfl⟩)
    · refine .inr (.inr ⟨row, hrow, hjcs, ?_, rfl⟩)
      simp only
      split_ifs
      · exact deliverPending_delivered db'
      · exact .refl db'
    · exact .inl ⟨show 409 ≠ 200 by decide, rows, rfl⟩

/-- The outcomes of the handler. -/
theorem federationInbox_cases (envr : Env) (fed : Runtime) (db : Db) (limits : RateLimits)
    (raw : Bytes) (now : Time) :
    ((federationInbox envr fed db limits raw now).2.status ≠ 200 ∧ ∃ rows,
        (federationInbox envr fed db limits raw now).1 =
          { db with federationInboundConflicts := rows }) ∨
      ∃ env p, parseEvent raw = .ok env ∧ admitInbound fed db limits env = .ok p ∧
        ((∃ db₁, Stored db p now db₁ ∧
            Delivered db₁ (federationInbox envr fed db limits raw now).1 ∧
            (federationInbox envr fed db limits raw now).2 = statusReply 200 "stored") ∨
          ∃ row, findInbound db p.origin p.eventId = some row ∧ row.eventJcs = p.eventJcs ∧
            Delivered db (federationInbox envr fed db limits raw now).1 ∧
            (federationInbox envr fed db limits raw now).2 = statusReply 200 "duplicate") := by
  unfold federationInbox
  split
  · exact .inl ⟨show 429 ≠ 200 by decide, db.federationInboundConflicts, rfl⟩
  · split
    · next e he =>
      refine .inl ⟨?_, db.federationInboundConflicts, rfl⟩
      cases e with
      | federation e => exact fedErrorStatus_ne_200 e
      | unicodeEncode => exact show 500 ≠ 200 by decide
    · next env henv =>
      split
      · next reply hallowed =>
        exact .inl ⟨admitInbound_error hallowed, db.federationInboundConflicts, rfl⟩
      · next p hallowed =>
        rcases storeInbound_cases envr db p now with h | h | h
        · exact .inl h
        · exact .inr ⟨env, p, henv, hallowed, .inl h⟩
        · exact .inr ⟨env, p, henv, hallowed, .inr h⟩

end Federation
end ATalk
