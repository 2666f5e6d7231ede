import ATalk.Adapter.Recording

/-!
# One request at a time

A tool makes a request and waits for its answer. What `POST /events` and `POST /ack` do to the ledger
when nobody else calls meanwhile.

* `postAck` : `POST /ack` as one function, `ackCalls_answer` : it is what the handler comes to;
* `postEvents_since`, `postAck_since` : the ledger grows;
* `postEvents_acks`, `postAck_acks` : the acknowledgements after a request.
-/

namespace ATalk
namespace Tools

open Text Python Sqlite ATalk.Core Federation Checks Callers Server
open Adapter (Acknowledged AckInv Names Since eventStep_since ackStep_since eventStep_acks
  ackStep_inv ackStep_acks ackStep_outbound exnReply_status_ge)

/-- `POST /ack` -/
def postAck (cfg : ServerConfig) (db : Db) (r : AckCall) : Db × Reply :=
  match (if authRequired db then checkAgent cfg db r.toRequest r.now else .ok ()) with
  | .error e => (db, exnReply e)
  | .ok () =>
    match cfg.fed with
    | none =>
      match storeAck cfg db r.toRequest r.now .localPath with
      | .error e => (db, exnReply e)
      | .ok db' => (db', okReply)
    | some fed =>
      match readAck cfg fed db r.toRequest with
      | .error e => (db, exnReply e)
      | .ok path =>
        match storeAck cfg db r.toRequest r.now path with
        | .error e => (db, exnReply e)
        | .ok db' =>
          match path with
          | .localPath => (db', okReply)
          | .federated .. => ((hintNotifications r.woken db' r.cursor).1, okReply)

variable {cfg : ServerConfig} {db : Db} {eventId agent : Str} {ackType : AckType}

/-- The handler, left alone. -/
def AckAnswers (cfg : ServerConfig) (r : AckCall) (db : Db) (p : AckPhase) (x : Db × Reply) : Prop :=
  (ackCalls cfg).Leads r r.now (db, p) (x.1, .done x.2)

theorem AckAnswers.done (cfg : ServerConfig) (r : AckCall) (db : Db) (reply : Reply) :
    AckAnswers cfg r db (.done reply) (db, reply) := .refl ..

theorem AckAnswers.step {r : AckCall} {p : AckPhase} {x : Db × Reply}
    (h : AckAnswers cfg r (ackStep cfg r r.now db p).1 (ackStep cfg r r.now db p).2 x) :
    AckAnswers cfg r db p x := Machine.Leads.step h

/-- A write, and the hints of a federated one. -/
theorem ackAnswers_write (cfg : ServerConfig) (r : AckCall) (db : Db) (path : AckPath) :
    AckAnswers cfg r db (.write path)
      (match storeAck cfg db r.toRequest r.now path with
        | .error e => (db, exnReply e)
        | .ok db' =>
          match path with
          | .localPath => (db', okReply)
          | .federated .. => ((hintNotifications r.woken db' r.cursor).1, okReply)) := by
  refine .step ?_
  simp only [ackStep]
  cases storeAck cfg db r.toRequest r.now path with
  | error e => exact .done ..
  | ok db' =>
    cases path with
    | localPath => exact .done ..
    | federated => exact .step (.done ..)

/-- A call that nobody interrupts is `postAck`. -/
theorem ackCalls_answer (cfg : ServerConfig) (r : AckCall) (db : Db) :
    AckAnswers cfg r db .start (postAck cfg db r) := by
  have hchecked : AckAnswers cfg r db (ackChecked cfg)
      (match cfg.fed with
        | none =>
          match storeAck cfg db r.toRequest r.now .localPath with
          | .error e => (db, exnReply e)
          | .ok db' => (db', okReply)
        | some fed =>
          match readAck cfg fed db r.toRequest with
          | .error e => (db, exnReply e)
          | .ok path =>
            match storeAck cfg db r.toRequest r.now path with
            | .error e => (db, exnReply e)
            | .ok db' =>
              match path with
              | .localPath => (db', okReply)
              | .federated .. => ((hintNotifications r.woken db' r.cursor).1, okReply)) := by
    unfold ackChecked
    cases hfed : cfg.fed with
    | none => exact ackAnswers_write cfg r db .localPath
    | some fed =>
      refine .step ?_
      simp only [ackStep, hfed]
      cases readAck cfg fed db r.toRequest with
      | error e => exact .done ..
      | ok path => exact ackAnswers_write cfg r db path
  refine .step ?_
  unfold postAck
  simp only [ackStep]
  split_ifs with hauth
  · refine .step ?_
    simp only [ackStep]
    cases checkAgent cfg db r.toRequest r.now with
    | error e => exact .done ..
    | ok u => exact hchecked
  · exact hchecked

/-! ## The answer to a post -/

/-- A send is answered with a 201 or an error. -/
theorem federationSend_status {fed : Runtime} {source target family newId : Str} {body : Dict}
    {now : Time} {db' : Db} {reply : Reply}
    (h : federationSend fed db source target body family newId now = .ok (db', reply)) :
    reply.status = 201 ∨ 300 ≤ reply.status := by
  have herror : ∀ (status : ℕ) (message : Str), 300 ≤ status →
      (errorReply status message).status = 201 ∨ 300 ≤ (errorReply status message).status :=
    fun _ _ h => .inr h
  unfold federationSend at h
  split at h
  · cases h
  · next hcheck =>
    cases h
    rw [checkSend_error hcheck]
    exact .inr (by decide)
  · unfold sendChecked at h
    split at h
    · cases h
    · cases h
      exact herror 400 _ (by decide)
    · unfold queueSend at h
      split at h
      · cases h
      · simp only at h
        split at h
        · cases h
          exact herror 429 _ (by decide)
        · split at h
          · cases h
          · split_ifs at h
            · cases h
              exact herror 409 _ (by decide)
            · cases h
              exact .inl rfl

/-- So is a post. -/
theorem postEvents_status (cfg : ServerConfig) (db : Db) (r : Request) :
    (postEvents cfg db r).2.status = 201 ∨ 300 ≤ (postEvents cfg db r).2.status := by
  unfold postEvents
  split
  · next e _ => exact .inr (exnReply_status_ge e)
  · split
    · split
      · next e _ => exact .inr (exnReply_status_ge e)
      · next hsend => exact federationSend_status hsend
    · unfold localEvent
      split
      · next e _ => exact .inr (exnReply_status_ge e)
      · split_ifs
        · exact .inr (show 300 ≤ 429 by decide)
        · split
          · next e _ => exact .inr (exnReply_status_ge e)
          · exact .inl rfl

/-! ## The ledger after a request -/

theorem postEvents_since (cfg : ServerConfig) (db : Db) (r : Request) :
    Since db (postEvents cfg db r).1 :=
  (eventCalls_answer cfg r db).keeps (I := fun db' _ => Since db db') (.refl db)
    fun s p h => h.trans (eventStep_since cfg r r.now s p)

theorem postAck_since (cfg : ServerConfig) (db : Db) (r : AckCall) :
    Since db (postAck cfg db r).1 :=
  (ackCalls_answer cfg r db).keeps (I := fun db' _ => Since db db') (.refl db)
    fun s p h => h.trans (ackStep_since cfg r r.now s p)

theorem postEvents_acks (cfg : ServerConfig) (db : Db) (r : Request) :
    (postEvents cfg db r).1.acks = db.acks :=
  (eventCalls_answer cfg r db).keeps (I := fun db' _ => db'.acks = db.acks) rfl
    fun s p h => (eventStep_acks cfg r r.now s p).trans h

/-- An acknowledgement that was answered is there, and it is the only new one. -/
theorem postAck_acks {r : AckCall} (hok : (postAck cfg db r).2.status < 300) :
    Acknowledged cfg (postAck cfg db r).1 r.body ∧
      ∀ eventId agent ackType, hasAck (postAck cfg db r).1 eventId agent ackType = true →
        hasAck db eventId agent ackType = true ∨ Names cfg.env r.body eventId agent ackType := by
  have hinv := (ackCalls_answer cfg r db).keeps (I := fun db' p => AckInv cfg db' r p ∧
    ∀ eventId agent ackType, hasAck db' eventId agent ackType = true →
      hasAck db eventId agent ackType = true ∨ Names cfg.env r.body eventId agent ackType)
    ⟨trivial, fun _ _ _ h => .inl h⟩ fun s p h => ⟨ackStep_inv h.1, fun e x t hack => ?_⟩
  · exact ⟨hinv.1 hok, hinv.2⟩
  · rcases ackStep_acks h.1 hack with hold | hnames
    · exact h.2 e x t hold
    · exact .inr hnames

theorem postAck_grows (cfg : ServerConfig) (db : Db) (r : AckCall) :
    Grows db (postAck cfg db r).1 := by
  have hsame : (postAck cfg db r).1.federationOutbound = db.federationOutbound :=
    (ackCalls_answer cfg r db).keeps
      (I := fun db' _ => db'.federationOutbound = db.federationOutbound) rfl
      fun s p h => (ackStep_outbound cfg r r.now s p).trans h
  exact ⟨(postAck_since cfg db r).adds.events, hsame ▸ List.prefix_rfl⟩

end Tools
end ATalk
