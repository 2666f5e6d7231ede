import ATalk.Adapter.Requests
import ATalk.Server.OneMessage
import ATalk.Server.Rejections

/-!
# What requests create

A server that notes for every message that it stores which request it came with. A request stores at
most one message, under its own id.

* `created` : the messages that a step adds to the ledger;
* `recording` : the runs of a server, with its notes;
* `Recorded.once`, `Recorded.named` : a request has one note, and the id of the note is its own.
-/

namespace ATalk
namespace Adapter

open Text Python Sqlite ATalk.Core Federation Checks Transition Callers Server Backends

/-- The ids of the events and queued messages that the second ledger has besides. -/
def created (db db' : Db) : List Str :=
  (db'.events.drop db.events.length).map (·.eventId) ++
    (db'.federationOutbound.drop db.federationOutbound.length).map (·.eventId)

/-- A server, and for each message that a request stored the place of the request and the id. -/
structure Recorder where
  server : Serving
  made : List (ℕ × Str)

/-- What a step of a server has it note. -/
def notes (db db' : Db) : Callers.Action Db Asked Time → List (ℕ × Str)
  | .advance i _ => (created db db').map (i, ·)
  | _ => []

def recording (cfg : ServerConfig) : System Recorder (Callers.Action Db Asked Time) where
  init r := (serving cfg).init r.server ∧ r.made = []
  step r act r' := (serving cfg).step r.server act r'.server ∧
    r'.made = r.made ++ notes r.server.store r'.server.store act

variable {cfg : ServerConfig} {db db' : Db} {r : Request} {now : Time} {a : EventArgs}

/-! ## One step of a post -/

theorem created_self (db : Db) : created db db = [] := by
  unfold created
  rw [List.drop_length, List.drop_length]
  rfl

theorem created_of_eq (hevents : db'.events = db.events)
    (hsent : db'.federationOutbound = db.federationOutbound) : created db db' = [] := by
  unfold created
  rw [hevents, hsent, List.drop_length, List.drop_length]
  rfl

/-- A post that has stored what it will. -/
def Past : EventPhase → Prop
  | .insert _ .start => False
  | .insert _ _ => True
  | .done _ => True
  | _ => False

/-- An insertion creates an event when it begins, or never. -/
theorem created_sqliteStep (ha : Of r a) (now : Time) (p : CallPhase) :
    created db (sqliteStep cfg.env a now db p).1 = [] ∨
      ∃ k, created db (sqliteStep cfg.env a now db p).1 = [k] ∧ p = .start ∧ Server.Names cfg r k := by
  have hreject : ∀ {db'}, RejectOnly db db' → created db db' = [] := fun h =>
    created_of_eq h.events h.federationOutbound
  cases p with
  | start =>
    rw [sqliteStep]
    split_ifs with hsourced
    · exact .inl (hreject (reject_cases cfg.env (atTime a now) db "missing_source_ref"
        "command requires source_ref").1)
    · rcases writeEvent_cases cfg.env (atTime a now) db hsourced with ⟨p, hp, -⟩ | ⟨row, db', hp, hc⟩
      · rw [hp]
        exact .inl (created_self db)
      · rw [hp]
        refine .inr ⟨row.eventId, ?_, rfl, ?_⟩
        · have hsent : db'.federationOutbound = db.federationOutbound := by rw [hc.frame]
          unfold created
          rw [hsent, List.drop_length, hc.events, List.drop_left]
          rfl
        · obtain ⟨b, hb, hab⟩ := ha
          have hkey : (atTime a now).key = requestKey r := by
            rw [hab]
            unfold EventArgs.key requestKey
            simp only [checkBody, bind_eq_ok, pure_eq_ok] at hb
            obtain ⟨_, -, _, -, _, -, _, -, rfl⟩ := hb
            rfl
          unfold Server.Names
          rw [← hkey]
          exact hc.key
  | ended p => exact .inl (hreject (finishEvent_cases cfg.env (atTime a now) db p))
  | returned result => exact .inl (created_self db)

/-- After a step of an insertion a post is past it. -/
theorem past_inserted (cfg : ServerConfig) (a : EventArgs) (now : Time) (db : Db) (p : CallPhase) :
    Past (eventInserted a (sqliteStep cfg.env a now db p).2) := by
  have hpast : ∀ q : CallPhase, q ≠ .start → Past (eventInserted a q) := by
    intro q hq
    cases q with
    | start => exact absurd rfl hq
    | ended q => trivial
    | returned result => cases result <;> trivial
  refine hpast _ ?_
  cases p with
  | start =>
    rw [sqliteStep]
    split_ifs <;> exact fun h => by cases h
  | ended p => exact fun h => by cases h
  | returned result => exact fun h => by cases h

/-- A queued message has the id of its request. -/
theorem names_of_queued {fed : Runtime} {source target family : Str} {s : SendRequest}
    (h : Queued fed db source target r.body family r.newId now s) : Server.Names cfg r s.eventId := by
  have hclean : Clean s.eventId := (plain_uuidRe (checkSend_ok h.checks).eventId).clean
  have hkey : requestKey r = .str s.eventId := by
    have hid := (checkSend_body h.checks).1
    unfold sendId at hid
    split at hid
    · next t ht =>
      rw [requestKey, ht, ← Except.ok.inj hid]
      cases t <;> rfl
    · next v hv =>
      split_ifs at hid with htruthy
      rw [requestKey, if_neg htruthy, Except.ok.inj hid]
  unfold Server.Names
  rw [hkey]
  exact textParam_str hclean

/-- A step of a post creates nothing, or the message of its id, and then it is past that. -/
theorem created_eventStep {p : EventPhase} (now : Time) (hp : EventInv cfg db r p) :
    created db (eventStep cfg r now db p).1 = [] ∨
      ∃ k, created db (eventStep cfg r now db p).1 = [k] ∧ ¬ Past p ∧
        Past (eventStep cfg r now db p).2 ∧ Server.Names cfg r k := by
  have hnone : (eventStep cfg r now db p).1 = db → created db (eventStep cfg r now db p).1 = [] := by
    intro hsame
    rw [hsame]
    exact created_self db
  cases p with
  | insert a p =>
    rcases created_sqliteStep hp.1 now p with hempty | ⟨k, hk, rfl, hnames⟩
    · exact .inl hempty
    · exact .inr ⟨k, hk, id, past_inserted cfg a now db .start, hnames⟩
  | send a fed family =>
    simp only [eventStep]
    split
    · exact .inl (created_self db)
    · next db' reply hsend =>
      rcases federationSend_cases hsend with rfl | ⟨s, raw, hqueued, -, heq⟩
      · exact .inl (created_self _)
      · cases heq
        refine .inr ⟨s.eventId, ?_, id, trivial, names_of_queued hqueued⟩
        unfold created SendRequest.stored
        rw [List.drop_length, List.drop_left]
        rfl
  | start =>
    refine .inl (hnone ?_)
    simp only [eventStep]
    split <;> rfl
  | token a =>
    refine .inl (hnone ?_)
    simp only [eventStep]
    split <;> rfl
  | probe a =>
    refine .inl (hnone ?_)
    simp only [eventStep]
    split <;> rfl
  | gate a retry => exact .inl (hnone rfl)
  | done reply => exact .inl (hnone rfl)

theorem past_eventStep {p : EventPhase} (hp : Past p) :
    Past (eventStep cfg r now db p).2 := by
  cases p with
  | insert a p => exact past_inserted cfg a now db p
  | done reply => exact hp
  | _ => exact hp.elim

/-! ## One step of an acknowledgement -/

/-- An acknowledgement leaves the outbox alone. -/
theorem storeAck_outbound {path : AckPath}
    (h : storeAck cfg db r now path = .ok db') : db'.federationOutbound = db.federationOutbound := by
  cases path with
  | localPath =>
    simp only [storeAck, ackEvent, bind_eq_ok] at h
    obtain ⟨e, -, x, -, t, -, _, -, _, -, _, -, _, -, h⟩ := h
    obtain ⟨acks, rfl⟩ := Federation.writeAck_acks h
    rfl
  | federated inb eventId agentId ackType sigHash =>
    simp only [storeAck] at h
    split at h
    · cases h
      rfl
    · rw [ackWrite_frame h]

theorem ackStep_outbound (cfg : ServerConfig) (r : AckCall) (now : Time) (db : Db) (p : AckPhase) :
    (ackStep cfg r now db p).1.federationOutbound = db.federationOutbound := by
  cases p with
  | token =>
    simp only [ackStep]
    split <;> rfl
  | lookup =>
    simp only [ackStep]
    split
    · rfl
    · split <;> rfl
  | write path =>
    simp only [ackStep]
    split
    · rfl
    · next db' hstore =>
      cases path <;> exact storeAck_outbound hstore
  | hint =>
    have hmarks := hintPages_marks r.woken 50 db r.cursor
    simp only [ackStep, hintNotifications]
    rw [hmarks.frame]
  | _ => rfl

/-! ## Every run -/

/-- What the notes tell. -/
structure Notes (cfg : ServerConfig) (s : Recorder) : Prop where
  server : Reachable (serving cfg) s.server
  past : ∀ i k, (i, k) ∈ s.made → ∃ r p, s.server.calls[i]? = some (.inl r, .inl p) ∧ Past p ∧
    Server.Names cfg r k
  once : ∀ i k k', (i, k) ∈ s.made → (i, k') ∈ s.made → k = k'

variable {s s' : Recorder} {act : Callers.Action Db Asked Time}

/-- What a step notes: nothing, or the message of a post that is not past it. -/
theorem notes_step (h : Reachable (serving cfg) s.server)
    (hstep : (serving cfg).step s.server act s'.server) :
    notes s.server.store s'.server.store act = [] ∨
      ∃ i k r p p', notes s.server.store s'.server.store act = [(i, k)] ∧
        s.server.calls[i]? = some (.inl r, .inl p) ∧ ¬ Past p ∧
        s'.server.calls[i]? = some (.inl r, .inl p') ∧ Past p' ∧ Server.Names cfg r k := by
  cases act with
  | call b => exact .inl rfl
  | other store => exact .inl rfl
  | advance i now =>
    obtain ⟨b, q, hi, -, heq⟩ := hstep
    have hlt : i < s.server.calls.length := (List.getElem?_eq_some_iff.mp hi).1
    have hcall := (requests_of_reach h).2 _ (List.mem_of_getElem? hi)
    match b, q with
    | .inl r, .inl p =>
      have hstore : s'.server.store = (eventStep cfg r now s.server.store p).1 :=
        congrArg World.store heq
      have hcalls : s'.server.calls =
          s.server.calls.set i (.inl r, .inl (eventStep cfg r now s.server.store p).2) :=
        congrArg World.calls heq
      simp only [notes]
      rw [hstore, hcalls]
      rcases created_eventStep now hcall with hempty | ⟨k, hk, hnot, hpast, hnames⟩
      · rw [hempty]
        exact .inl rfl
      · rw [hk]
        exact .inr ⟨i, k, r, p, _, rfl, hi, hnot, List.getElem?_set_self hlt, hpast, hnames⟩
    | .inr r, .inr p =>
      have hstore : s'.server.store = (ackStep cfg r now s.server.store p).1 :=
        congrArg World.store heq
      refine .inl ?_
      simp only [notes]
      rw [hstore, created_of_eq (ackStep_later cfg r now s.server.store p).2
        (ackStep_outbound cfg r now s.server.store p)]
      rfl
    | .inl r, .inr p => exact hcall.elim
    | .inr r, .inl p => exact hcall.elim

/-- A call that is past its message stays so. -/
theorem past_of_step {i : ℕ} {r : Request} {p : EventPhase}
    (h : (serving cfg).step s.server act s'.server)
    (hi : s.server.calls[i]? = some (.inl r, .inl p)) (hp : Past p) :
    ∃ p', s'.server.calls[i]? = some (.inl r, .inl p') ∧ Past p' := by
  cases act with
  | call b =>
    have hserver : s'.server = _ := h
    rw [hserver]
    exact ⟨p, (List.getElem?_append_left (List.getElem?_eq_some_iff.mp hi).1).trans hi, hp⟩
  | other store =>
    obtain ⟨-, hserver⟩ := h
    rw [hserver]
    exact ⟨p, hi, hp⟩
  | advance j now =>
    obtain ⟨b, q, hj, -, hserver⟩ := h
    rw [hserver]
    by_cases hij : j = i
    · rw [hij] at hj ⊢
      cases hj.symm.trans hi
      exact ⟨_, List.getElem?_set_self (List.getElem?_eq_some_iff.mp hj).1, past_eventStep hp⟩
    · exact ⟨p, (List.getElem?_set_ne hij).trans hi, hp⟩

theorem Notes.step (h : Notes cfg s) (hstep : (recording cfg).step s act s') : Notes cfg s' := by
  obtain ⟨hserver, hmade⟩ := hstep
  have hreach : Reachable (serving cfg) s'.server := .step h.server trivial hserver
  have hold : ∀ i k, (i, k) ∈ s.made → ∃ r p, s'.server.calls[i]? = some (.inl r, .inl p) ∧ Past p ∧
      Server.Names cfg r k := by
    intro i k hmem
    obtain ⟨r, p, hi, hp, hnames⟩ := h.past i k hmem
    obtain ⟨p', hi', hp'⟩ := past_of_step hserver hi hp
    exact ⟨r, p', hi', hp', hnames⟩
  rcases notes_step h.server hserver with hnone | ⟨i, k, r, p, p', hnote, hi, hnot, hi', hp', hnames⟩
  · rw [hnone, List.append_nil] at hmade
    exact ⟨hreach, hmade ▸ hold, hmade ▸ h.once⟩
  · rw [hnote] at hmade
    -- a call that has a note already is past it
    have hfresh : ∀ k', (i, k') ∉ s.made := by
      intro k' hmem
      obtain ⟨r', q, hq, hpast, -⟩ := h.past i k' hmem
      cases hi.symm.trans hq
      exact hnot hpast
    refine ⟨hreach, fun j l hmem => ?_, fun j l l' hmem hmem' => ?_⟩
    · rw [hmade] at hmem
      rcases List.mem_append.mp hmem with hmem | hnew
      · exact hold j l hmem
      · cases List.mem_singleton.mp hnew
        exact ⟨r, p', hi', hp', hnames⟩
    · rw [hmade] at hmem hmem'
      rcases List.mem_append.mp hmem with hmem | hnew
      · rcases List.mem_append.mp hmem' with hmem' | hnew'
        · exact h.once j l l' hmem hmem'
        · cases List.mem_singleton.mp hnew'
          exact absurd hmem (hfresh l)
      · cases List.mem_singleton.mp hnew
        rcases List.mem_append.mp hmem' with hmem' | hnew'
        · exact absurd hmem' (hfresh l')
        · exact (congrArg Prod.snd (List.mem_singleton.mp hnew')).symm

theorem notes_of_reach (h : Reachable (recording cfg) s) : Notes cfg s := by
  refine Reach.invariant (P := Notes cfg) (fun s hinit => ?_) (fun s act s' hs _ hstep => ?_) h
  · obtain ⟨hserver, hmade⟩ := hinit
    refine ⟨.init hserver, fun i k hmem => ?_, fun i k k' hmem => ?_⟩
    · rw [hmade] at hmem
      cases hmem
    · rw [hmade] at hmem
      cases hmem
  · exact hs.step hstep

end Adapter
end ATalk
