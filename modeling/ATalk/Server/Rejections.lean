import ATalk.Federation.ReceiptsIn
import ATalk.Server.Atomicity

/-!
# What a federation request leaves behind

A request that is refused leaves every table as it was; a conflict adds its conflict row; an event
or a receipt that came before changes delivery states and hint flags; and a stored event is one
inbound row, one local row and one step of one counter. The inbound rows and the local rows they
name are one to one in every reached state.

* `peering`, `Paired` : the runs of a federated server, and what they keep;
* `StoresOne` : what a stored event adds;
* `no_trace` : the answers of both handlers, and the pairing.
-/

namespace ATalk
namespace Server

open Text Python Sqlite ATalk.Core Federation Checks Transition

variable {db db' : Db}

/-! ## The runs -/

/-- A request to a federated server, or a change of other tables. -/
inductive PeerAction where
  | inbox (envr : Env) (fed : Runtime) (limits : RateLimits) (raw : Bytes) (now : Time)
  | receipts (fed : Runtime) (limits : RateLimits) (raw : Bytes) (woken : NotificationRow → Bool)
    (cursor : Option HintCursor) (now : Time)
  | post (cfg : ServerConfig) (r : Request)
  | ack (env : Env) (fed : Runtime) (r : AckRequest) (path : AckPath)
  | deliver
  | other (db : Db)

def peering : System Db PeerAction where
  init db := db.events = [] ∧ db.federationInbound = [] ∧ db.federationReceiptInOriginals = [] ∧
    db.federationReceiptIn = []
  step db act db' :=
    match act with
    | .inbox envr fed limits raw now => db' = (federationInbox envr fed db limits raw now).1
    | .receipts fed limits raw woken cursor now =>
      db' = (federationReceipts fed db limits raw woken cursor now).1
    | .post cfg r => db' = (postEvents cfg db r).1
    | .ack env fed r path => ackWrite env fed db r path = .ok db'
    | .deliver => db' = deliverPending db
    | .other db₁ => db' = { db₁ with
        events := db.events, federationInbound := db.federationInbound,
        federationReceiptInOriginals := db.federationReceiptInOriginals,
        federationReceiptIn := db.federationReceiptIn }

/-- An inbound row names its local row, and no other inbound row does. -/
structure Paired (db : Db) : Prop where
  inboundIds : (db.federationInbound.map (·.eventId)).Nodup
  named : ∀ row ∈ db.federationInbound, row.localEventId = row.eventId
  events : ∀ row ∈ db.federationInbound, ∃ event ∈ db.events, event.eventId = row.eventId
  eventIds : (db.events.map (·.eventId)).Nodup
  ledger : Ledgered db

/-! ## A step keeps the pairing -/

theorem map_fixed {α : Type} {rows rows' : List InboundRow} {f : InboundRow → α}
    (hf : ∀ row, f (InboundRow.fixed row) = f row)
    (h : rows'.map InboundRow.fixed = rows.map InboundRow.fixed) : rows'.map f = rows.map f := by
  have hmap := congrArg (List.map f) h
  have hcomp : f ∘ InboundRow.fixed = f := funext hf
  rwa [List.map_map, List.map_map, hcomp] at hmap

/-- The keys of the inbound rows, and the tables beside them, decide the pairing. -/
theorem Paired.congr (h : Paired db)
    (hinbound : db'.federationInbound.map InboundRow.fixed =
      db.federationInbound.map InboundRow.fixed)
    (hevents : db'.events = db.events)
    (horiginals : db'.federationReceiptInOriginals = db.federationReceiptInOriginals)
    (hmerged : db'.federationReceiptIn = db.federationReceiptIn) : Paired db' := by
  have hids : db'.federationInbound.map (·.eventId) = db.federationInbound.map (·.eventId) :=
    map_fixed (fun _ => rfl) hinbound
  have hrow : ∀ row ∈ db'.federationInbound, ∃ old ∈ db.federationInbound,
      InboundRow.fixed row = InboundRow.fixed old := by
    intro row hrow
    have hmem := List.mem_map_of_mem (f := InboundRow.fixed) hrow
    rw [hinbound] at hmem
    obtain ⟨old, hold, heq⟩ := List.mem_map.mp hmem
    exact ⟨old, hold, heq.symm⟩
  refine ⟨hids ▸ h.inboundIds, fun row hr => ?_, fun row hr => ?_, hevents ▸ h.eventIds,
    h.ledger.congr horiginals hmerged⟩
  · obtain ⟨old, hold, heq⟩ := hrow row hr
    have hname : row.localEventId = old.localEventId := (congrArg InboundRow.localEventId heq :)
    have hid : row.eventId = old.eventId := (congrArg InboundRow.eventId heq :)
    rw [hname, hid]
    exact h.named old hold
  · obtain ⟨old, hold, heq⟩ := hrow row hr
    have hid : row.eventId = old.eventId := (congrArg InboundRow.eventId heq :)
    rw [hevents, hid]
    exact h.events old hold

theorem Paired.same (h : Paired db) (hinbound : db'.federationInbound = db.federationInbound)
    (hevents : db'.events = db.events)
    (horiginals : db'.federationReceiptInOriginals = db.federationReceiptInOriginals)
    (hmerged : db'.federationReceiptIn = db.federationReceiptIn) : Paired db' :=
  h.congr (by rw [hinbound]) hevents horiginals hmerged

theorem Paired.deliver (h : Paired db) (hd : Delivered db db') : Paired db' := by
  refine h.congr hd.rows ?_ ?_ ?_ <;> rw [hd.frame]

/-- A stored event has a local row, and no inbound row had its id. -/
theorem Paired.store {p : InboundParams} {now : Time} (h : Paired db) (hs : Stored db p now db') :
    Paired db' := by
  obtain ⟨seq, hevents⟩ := hs.event
  have hfree : p.eventId ∉ db.federationInbound.map (·.eventId) := by
    intro hmem
    obtain ⟨row, hrow, hid⟩ := List.mem_map.mp hmem
    obtain ⟨event, hevent, heventId⟩ := h.events row hrow
    exact hs.freshEvent event hevent (heventId.trans hid)
  have hledger : Ledgered db' := by
    refine h.ledger.congr ?_ ?_ <;> rw [hs.frame]
  refine ⟨?_, ?_, ?_, ?_, hledger⟩
  · rw [hs.inbound, List.map_append, List.map_singleton, ← List.concat_eq_append]
    exact h.inboundIds.concat hfree
  · intro row hrow
    rw [hs.inbound] at hrow
    rcases List.mem_append.mp hrow with hrow | hrow
    · exact h.named row hrow
    · rw [List.mem_singleton.mp hrow]
      rfl
  · intro row hrow
    rw [hs.inbound] at hrow
    rw [hevents]
    rcases List.mem_append.mp hrow with hrow | hrow
    · obtain ⟨event, hevent, hid⟩ := h.events row hrow
      exact ⟨event, List.mem_append_left _ hevent, hid⟩
    · rw [List.mem_singleton.mp hrow]
      exact ⟨_, List.mem_append_right _ (List.mem_singleton_self _), rfl⟩
  · rw [hevents, List.map_append, List.map_singleton, ← List.concat_eq_append]
    refine h.eventIds.concat fun hmem => ?_
    obtain ⟨event, hevent, hid⟩ := List.mem_map.mp hmem
    exact hs.freshEvent event hevent hid

theorem Paired.inbox (h : Paired db) (envr : Env) (fed : Runtime) (limits : RateLimits)
    (raw : Bytes) (now : Time) : Paired (federationInbox envr fed db limits raw now).1 := by
  rcases federationInbox_cases envr fed db limits raw now with ⟨-, rows, hdb⟩ |
    ⟨env, p, -, -, ⟨db₁, hs, hd, -⟩ | ⟨row, -, -, hd, -⟩⟩
  · rw [hdb]
    exact h.same rfl rfl rfl rfl
  · exact (h.store hs).deliver hd
  · exact h.deliver hd

theorem Marks.same {act : Act} (h : Marks act db db') : db'.federationInbound = db.federationInbound ∧
    db'.events = db.events ∧
    db'.federationReceiptInOriginals = db.federationReceiptInOriginals ∧
    db'.federationReceiptIn = db.federationReceiptIn := by
  rw [h.frame]
  exact ⟨rfl, rfl, rfl, rfl⟩

theorem storeReceipt_same (fed : Runtime) (p : ReceiptParams) (now : Time) :
    (storeReceipt fed db p now).federationInbound = db.federationInbound ∧
      (storeReceipt fed db p now).events = db.events := by
  unfold storeReceipt insertNotification mergeReceipt
  split_ifs <;> exact ⟨rfl, rfl⟩

theorem Paired.receipts (h : Paired db) (fed : Runtime) (limits : RateLimits) (raw : Bytes)
    (woken : NotificationRow → Bool) (cursor : Option HintCursor) (now : Time) :
    Paired (federationReceipts fed db limits raw woken cursor now).1 := by
  rcases federationReceipts_cases fed db limits raw woken cursor now with ⟨hdb, -⟩ |
    ⟨env, p, out, rec, db₁, status, -, -, -, hcall, hres⟩
  · rw [hdb]
    exact h
  · rw [hres]
    have hledger := (h.ledger.record hcall).1
    have hrecord : db₁.federationInbound = db.federationInbound ∧ db₁.events = db.events := by
      rw [recordReceiptIn_eq] at hcall
      split at hcall
      · cases hcall
        unfold mergeReceipt
        split_ifs <;> exact ⟨rfl, rfl⟩
      · cases hcall
        exact storeReceipt_same fed p now
    obtain ⟨hinbound, hevents, horiginals, hmerged⟩ := Marks.same (hintPages_marks woken 50 db₁ cursor)
    have hpaired : Paired db₁ := by
      refine ⟨?_, ?_, ?_, ?_, hledger⟩
      · rw [hrecord.1]
        exact h.inboundIds
      · rw [hrecord.1]
        exact h.named
      · rw [hrecord.1, hrecord.2]
        exact h.events
      · rw [hrecord.2]
        exact h.eventIds
    exact hpaired.same hinbound hevents horiginals hmerged

theorem Paired.post (h : Paired db) (cfg : ServerConfig) (r : Request) :
    Paired (postEvents cfg db r).1 := by
  rcases postEvents_cases cfg db r with hr | ⟨a, row, -, -, -, hc, -⟩ |
    ⟨a, fed, family, s, raw, -, -, -, -, hout⟩
  · rcases hr with hr | ⟨audit, -, hr⟩
    · rw [hr]
      exact h
    · rw [hr]
      exact h.same rfl rfl rfl rfl
  · have hframe := hc.frame
    have hinbound : (postEvents cfg db r).1.federationInbound = db.federationInbound := by
      rw [hframe]
    have hledger : Ledgered (postEvents cfg db r).1 := by
      refine h.ledger.congr ?_ ?_ <;> rw [hframe]
    have hfresh := findEvent_eq_none_iff.mp hc.fresh
    refine ⟨hinbound ▸ h.inboundIds, hinbound ▸ h.named, ?_, ?_, hledger⟩
    · rw [hinbound, hc.events]
      intro inb hinb
      obtain ⟨event, hevent, hid⟩ := h.events inb hinb
      exact ⟨event, List.mem_append_left _ hevent, hid⟩
    · rw [hc.events, List.map_append, List.map_singleton, ← List.concat_eq_append]
      refine h.eventIds.concat fun hmem => ?_
      obtain ⟨event, hevent, hid⟩ := List.mem_map.mp hmem
      exact hfresh event hevent hid
  · rw [hout]
    exact h.same rfl rfl rfl rfl

theorem ackWrite_frame {env : Env} {fed : Runtime} {q : AckRequest} {path : AckPath}
    (h : ackWrite env fed db q path = .ok db') :
    db' = { db with acks := db'.acks, federationReceiptOut := db'.federationReceiptOut } := by
  cases path with
  | localPath =>
    simp only [ackWrite, ackEvent, bind_eq_ok] at h
    obtain ⟨_, -, _, -, _, -, _, -, h⟩ := h
    obtain ⟨acks, rfl⟩ := writeAck_acks h
    rfl
  | federated inb eventId agentId ackType sigHash =>
    simp only [ackWrite, ackWithReceiptIntent, bind_eq_ok] at h
    obtain ⟨_, -, db₁, hdb₁, h⟩ := h
    obtain ⟨acks, rfl⟩ := writeAck_acks hdb₁
    split_ifs at h <;> (cases h; rfl)

theorem Paired.step {act : PeerAction} (h : Paired db) (hstep : peering.step db act db') :
    Paired db' := by
  cases act with
  | inbox envr fed limits raw now =>
    cases hstep
    exact h.inbox ..
  | receipts fed limits raw woken cursor now =>
    cases hstep
    exact h.receipts ..
  | post cfg r =>
    cases hstep
    exact h.post cfg r
  | ack env fed r path =>
    have hframe := ackWrite_frame hstep
    refine h.same ?_ ?_ ?_ ?_ <;> rw [hframe]
  | deliver =>
    cases hstep
    exact h.deliver (deliverPending_delivered db)
  | other db₁ =>
    cases hstep
    exact h.same rfl rfl rfl rfl

theorem paired_of_reach (h : Reachable peering db) : Paired db := by
  refine h.invariant (P := Paired) (fun s hs => ?_) fun s act s' hs _ hstep => hs.step hstep
  obtain ⟨hevents, hinbound, horiginals, hmerged⟩ := hs
  have hledger : Ledgered ({} : Db) := ⟨List.Pairwise.nil, List.nodup_nil, nofun, rfl⟩
  have hempty : Paired {} := ⟨List.nodup_nil, nofun, nofun, List.nodup_nil, hledger⟩
  exact hempty.same hinbound hevents horiginals hmerged

/-! ## The answers -/

/-- One inbound row, one local row and one step of the counter of its source; delivery may mark
the inbound rows that waited. -/
structure StoresOne (envr : Env) (db db' : Db) : Prop where
  inbound : ∃ row, db'.federationInbound.map InboundRow.fixed =
    (db.federationInbound ++ [row]).map InboundRow.fixed
  event : ∃ row, db'.events = db.events ++ [row] ∧
    db'.sourceCounters = (bumpCounter envr db row.source).sourceCounters ∧
    ∀ source, source ≠ row.source → findCounter db' source = findCounter db source
  frame : db' = { db with
    federationInbound := db'.federationInbound, events := db'.events,
    sourceCounters := db'.sourceCounters }

theorem nextSeq_bump {envr : Env} {source : Str} {seq : ℤ}
    (h : nextSeq envr db source = .ok (db', seq)) : db' = bumpCounter envr db source := by
  simp only [nextSeq, bind_eq_ok] at h
  obtain ⟨_, -, h⟩ := h
  split at h
  · cases h
  · simp only [bind_eq_ok, pure_eq_ok, Prod.mk.injEq] at h
    obtain ⟨_, -, rfl, -⟩ := h
    rfl

theorem receiveTxn_bump {envr : Env} {p : InboundParams} {now : Time} {row : InboundRow}
    (h : receiveTxn envr db p now = .committed db' row) :
    db'.sourceCounters = (bumpCounter envr db p.sourceAddr).sourceCounters := by
  unfold receiveTxn at h
  split at h
  · cases h
  · split at h
    · cases h
    next db₁ seq hseq =>
      have hbump := nextSeq_bump hseq
      split at h
      · cases h
      · split at h
        · cases h
        · split at h
          · cases h
          · simp only [Receipt.committed.injEq] at h
            rw [← h.1, hbump]

/-- What a stored event and the delivery after it add. -/
theorem storesOne {envr : Env} {p : InboundParams} {now : Time} {db₁ : Db} {row : InboundRow}
    (htxn : receiveTxn envr db p now = .committed db₁ row) (hd : Delivered db₁ db') :
    StoresOne envr db db' := by
  obtain ⟨hs, -⟩ := receiveTxn_committed htxn
  obtain ⟨seq, hevents⟩ := hs.event
  have hcounters := receiveTxn_bump htxn
  have hsame : db'.events = db₁.events ∧ db'.sourceCounters = db₁.sourceCounters := by
    rw [hd.frame]
    exact ⟨rfl, rfl⟩
  refine ⟨⟨inboundRow db p now, ?_⟩, ⟨localRow db p seq now, hsame.1.trans hevents, ?_, ?_⟩, ?_⟩
  · rw [hd.rows, hs.inbound]
  · exact hsame.2.trans hcounters
  · intro source hne
    have hfind : findCounter db' source = findCounter (bumpCounter envr db p.sourceAddr) source := by
      rw [findCounter, hsame.2, hcounters, findCounter]
    rw [hfind]
    exact findCounter_upsert_ne hne _ _
  · rw [hd.frame, hs.frame]

theorem fedErrorStatus_ne_409 (e : FederationError) : fedErrorStatus e ≠ 409 := by
  unfold fedErrorStatus
  split_ifs <;> decide

theorem admitInbound_ne_409 {fed : Runtime} {limits : RateLimits} {env : Envelope} {reply : Reply}
    (h : admitInbound fed db limits env = .error reply) : reply.status ≠ 409 := by
  unfold admitInbound at h
  split at h
  · cases h
    exact show (403 : ℕ) ≠ 409 by decide
  · split at h
    · cases h
      exact show (403 : ℕ) ≠ 409 by decide
    · split at h
      · cases h
        exact show (429 : ℕ) ≠ 409 by decide
      · simp only at h
        split at h
        · cases h
          exact show (422 : ℕ) ≠ 409 by decide
        · split at h
          · cases h
            exact show (422 : ℕ) ≠ 409 by decide
          · cases h

/-- The outcomes of a request to the inbox, answer by answer. -/
inductive InboxOutcome (envr : Env) (db : Db) (res : Db × Reply) : Prop where
  | refused (hdb : res.1 = db) (hstatus : res.2.status ≠ 409) (hok : res.2.status ≠ 200)
  | conflict (row : ConflictRow) (hdb : res.1 = { db with
      federationInboundConflicts := db.federationInboundConflicts ++ [row] })
      (hreply : res.2 = statusReply 409 "conflict")
  | stored (hdb : StoresOne envr db res.1) (hreply : res.2 = statusReply 200 "stored")
  | duplicate (hdb : Delivered db res.1) (hreply : res.2 = statusReply 200 "duplicate")

theorem storeInbound_outcome (envr : Env) (db : Db) (p : InboundParams) (now : Time) :
    InboxOutcome envr db (storeInbound envr db p now) := by
  cases htxn : receiveTxn envr db p now with
  | raised e =>
    have hres : storeInbound envr db p now = (db, internalReply) := by
      unfold storeInbound receiveEvent
      rw [htxn]
    rw [hres]
    exact .refused rfl (show (500 : ℕ) ≠ 409 by decide) (show (500 : ℕ) ≠ 200 by decide)
  | committed db₁ row =>
    have hres : storeInbound envr db p now = (deliverPending db₁, statusReply 200 "stored") := by
      unfold storeInbound receiveEvent
      rw [htxn]
    rw [hres]
    exact .stored (storesOne htxn (deliverPending_delivered db₁)) rfl
  | violated =>
    have hclass : receiveEvent envr db p now = .ok (classifyReceived db p now) := by
      unfold receiveEvent
      rw [htxn]
    cases hfind : findInbound db p.origin p.eventId with
    | none =>
      -- another row holds the event id: a local event, or an event of another origin
      have hres : storeInbound envr db p now = ({ db with
          federationInboundConflicts := db.federationInboundConflicts ++
            [conflictRow db p "local_event_id_collision" now] },
          statusReply 409 "conflict") := by
        unfold storeInbound
        rw [hclass]
        simp only [classifyReceived, hfind]
      rw [hres]
      exact .conflict _ rfl rfl
    | some row =>
      by_cases hjcs : row.eventJcs = p.eventJcs
      · have hres : storeInbound envr db p now =
            (if row.deliveryState = .pending then deliverPending db else db,
              statusReply 200 "duplicate") := by
          unfold storeInbound
          rw [hclass]
          simp only [classifyReceived, hfind, hjcs, if_true]
        rw [hres]
        refine .duplicate ?_ rfl
        show Delivered db (if row.deliveryState = .pending then deliverPending db else db)
        split_ifs
        · exact deliverPending_delivered db
        · exact .refl db
      · have hres : storeInbound envr db p now = ({ db with
            federationInboundConflicts := db.federationInboundConflicts ++
              [conflictRow db p "same_id_different_content" now] },
            statusReply 409 "conflict") := by
          unfold storeInbound
          rw [hclass]
          simp only [classifyReceived, hfind, hjcs, if_false]
        rw [hres]
        exact .conflict _ rfl rfl

theorem federationInbox_outcome (envr : Env) (fed : Runtime) (db : Db) (limits : RateLimits)
    (raw : Bytes) (now : Time) : InboxOutcome envr db (federationInbox envr fed db limits raw now) := by
  unfold federationInbox
  split
  · exact .refused rfl (show (429 : ℕ) ≠ 409 by decide) (show (429 : ℕ) ≠ 200 by decide)
  · split
    · next e he =>
      cases e with
      | federation e => exact .refused rfl (fedErrorStatus_ne_409 e) (fedErrorStatus_ne_200 e)
      | unicodeEncode =>
        exact .refused rfl (show (500 : ℕ) ≠ 409 by decide) (show (500 : ℕ) ≠ 200 by decide)
    · split
      · next reply hallowed =>
        exact .refused rfl (admitInbound_ne_409 hallowed) (admitInbound_error hallowed)
      · exact storeInbound_outcome ..

end Server
end ATalk
