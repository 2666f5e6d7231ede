import ATalk.Adapter
import ATalk.Backends.Identity

/-!
# What an answer tells

A client that has its answer knows what its request did: an acknowledgement that was answered is in
the ledger, and so is an event for a local target.

* `requests_keep` : what the requests of a server have come to, in every run;
* `acked_of_answer`, `stored_of_answer` : what their answers tell;
* `serving_acks`, `serving_events` : the request that an acknowledgement and an event come from.
-/

namespace ATalk
namespace Adapter

open Text Python Sqlite ATalk.Core Federation Checks Transition Callers Server Backends

variable {cfg : ServerConfig} {db db' : Db} {now : Time} {body : Dict} {eventId agent : Str}
  {ackType : AckType} {path : AckPath}

theorem exnReply_status_ge (e : Exn) : 300 ≤ (exnReply e).status := by
  cases e <;> simp [exnReply, errorReply, Exn.status]

theorem textParam_str {env : Env} {s : Str} (h : Clean s) :
    textParam env (.str s) = .ok (some s) := by
  have hbind : Sqlite.bind (.str s) = .ok (.text s) := if_pos h
  unfold textParam
  rw [hbind]
  rfl

/-! ## Acknowledgements -/

/-- The body of an acknowledgement names the event, the agent and the type. -/
structure Names (env : Env) (body : Dict) (eventId agent : Str) (ackType : AckType) : Prop where
  event : ∃ v, dictGet (lit "event_id") body = some v ∧ textParam env v = .ok (some eventId)
  agent : ∃ v, dictGet (lit "agent_id") body = some v ∧ textParam env v = .ok (some agent)
  type : ∃ v, dictGet (lit "ack_type") body = some v ∧ parseAckType v = .ok ackType

/-- The path of an acknowledgement carries what its body names. -/
def PathNames (cfg : ServerConfig) (body : Dict) : AckPath → Prop
  | .localPath => True
  | .federated _ eventId agentId ackType _ =>
    cfg.fed ≠ none ∧ (Clean agentId → Names cfg.env body eventId agentId ackType)

/-- The acknowledgement that the body names is in the ledger. -/
def Acknowledged (cfg : ServerConfig) (db : Db) (body : Dict) : Prop :=
  ∃ eventId agent ackType, Names cfg.env body eventId agent ackType ∧
    hasAck db eventId agent ackType = true

/-- What an acknowledgement has come to. -/
def AckInv (cfg : ServerConfig) (db : Db) (r : AckCall) : AckPhase → Prop
  | .write path => PathNames cfg r.body path
  | .hint => Acknowledged cfg db r.body
  | .done reply => reply.status < 300 → Acknowledged cfg db r.body
  | _ => True

theorem Acknowledged.later (h : Acknowledged cfg db body) (hlater : Later db db') :
    Acknowledged cfg db' body := by
  obtain ⟨eventId, agent, ackType, hnames, hack⟩ := h
  exact ⟨eventId, agent, ackType, hnames, hlater.acks _ _ _ hack⟩

/-- The acknowledgements after one was written. -/
theorem hasAck_upsertAck (db : Db) (eventId agent : Str) (ackType : AckType) (now : Time)
    (detail : Val) (e x : Str) (t : AckType) :
    hasAck (upsertAck db eventId agent ackType now detail) e x t = true ↔
      hasAck db e x t = true ∨ (e = eventId ∧ x = agent ∧ t = ackType) := by
  refine ⟨fun h => ?_, fun h => ?_⟩
  · unfold hasAck upsertAck at h
    obtain ⟨row, hrow, hsame⟩ := List.any_eq_true.mp h
    split_ifs at hrow with hold
    · obtain ⟨row, hrow', rfl⟩ := List.mem_map.mp hrow
      refine .inl (List.any_eq_true.mpr ⟨row, hrow', ?_⟩)
      split_ifs at hsame
      · exact hsame
      · exact hsame
    · rcases List.mem_append.mp hrow with hrow | hrow
      · exact .inl (List.any_eq_true.mpr ⟨row, hrow, hsame⟩)
      · rw [List.mem_singleton.mp hrow] at hsame
        simp only [Bool.and_eq_true, decide_eq_true_eq] at hsame
        exact .inr ⟨hsame.1.1.symm, hsame.1.2.symm, hsame.2.symm⟩
  · rcases h with h | ⟨rfl, rfl, rfl⟩
    · exact hasAck_upsert db eventId agent ackType now detail e x t h
    · by_cases hold : hasAck db e x t = true
      · exact hasAck_upsert db e x t now detail e x t hold
      · unfold upsertAck
        rw [if_neg hold]
        refine List.any_eq_true.mpr ⟨_, List.mem_append_right _ (List.mem_singleton_self _), ?_⟩
        simp only [decide_true, Bool.and_self]

/-- A write adds the acknowledgement that it is about. -/
theorem writeAck_acks {e x : Option Str} {detail : Val}
    (h : writeAck db e x ackType now detail = .ok db') :
    ∃ eventId agent, e = some eventId ∧ x = some agent ∧
      ∀ e' x' t', hasAck db' e' x' t' = true ↔
        hasAck db e' x' t' = true ∨ (e' = eventId ∧ x' = agent ∧ t' = ackType) := by
  unfold writeAck at h
  split at h
  · next eventId agent =>
    split_ifs at h
    cases h
    exact ⟨eventId, agent, rfl, rfl, hasAck_upsertAck db eventId agent ackType now detail⟩
  · cases h

/-- The lookup reads what the body names. -/
theorem readAck_names {fed : Runtime} {r : Request} (hfed : cfg.fed = some fed)
    (h : readAck cfg fed db r = .ok path) : PathNames cfg r.body path := by
  cases path with
  | localPath => trivial
  | federated inb eventId agentId ackType sigHash =>
    obtain ⟨e, t, he, hx, ht, hlookup⟩ := readAck_federated h
    obtain ⟨hevent, -, -, -, htype, -⟩ := ackLookup_federated hlookup
    refine ⟨by rw [hfed]; exact nofun, fun hclean => ⟨⟨e, he, hevent⟩, ⟨_, hx, ?_⟩, t, ht, htype⟩⟩
    exact textParam_str hclean

/-- The write adds the acknowledgement that the body names. -/
theorem storeAck_names {r : Request} (hpath : PathNames cfg r.body path)
    (h : storeAck cfg db r now path = .ok db') :
    ∃ eventId agent ackType, Names cfg.env r.body eventId agent ackType ∧
      ∀ e x t, hasAck db' e x t = true ↔
        hasAck db e x t = true ∨ (e = eventId ∧ x = agent ∧ t = ackType) := by
  have hkey : ∀ (field : String) v, requireKey r.body field = .ok v →
      dictGet (lit field) r.body = some v := by
    intro field v hv
    unfold requireKey at hv
    split at hv
    · next w hw =>
      cases hv
      exact hw
    · cases hv
  cases path with
  | localPath =>
    simp only [storeAck, ackEvent, bind_eq_ok] at h
    obtain ⟨e, he, x, hx, t, ht, ackType, hackType, k, hk, a, ha, _, -, h⟩ := h
    obtain ⟨eventId, agent, rfl, rfl, hacks⟩ := writeAck_acks h
    exact ⟨eventId, agent, ackType, ⟨⟨e, hkey _ _ he, hk⟩, ⟨x, hkey _ _ hx, ha⟩, t, hkey _ _ ht,
      hackType⟩, hacks⟩
  | federated inb eventId agentId ackType sigHash =>
    obtain ⟨hfed, hnames⟩ := hpath
    simp only [storeAck] at h
    split at h
    · next hnone => exact absurd hnone hfed
    · simp only [ackWrite, ackWithReceiptIntent, bind_eq_ok, strParam] at h
      obtain ⟨_, hclean, db₁, hwrite, h⟩ := h
      obtain ⟨_, _, he, hx, hacks⟩ := writeAck_acks hwrite
      cases he
      cases hx
      refine ⟨eventId, agentId, ackType, hnames (guardOr_eq_ok.mp hclean), ?_⟩
      split_ifs at h
      · cases h
        exact hacks
      · cases h
        exact hacks

/-- One step of an acknowledgement. -/
theorem ackStep_inv {r : AckCall} {p : AckPhase} (hp : AckInv cfg db r p) :
    AckInv cfg (ackStep cfg r now db p).1 r (ackStep cfg r now db p).2 := by
  have hexn : ∀ (db : Db) (e : Exn), AckInv cfg db r (.done (exnReply e)) := fun _ e hlt =>
    absurd hlt (not_lt.mpr (exnReply_status_ge e))
  have hchecked : AckInv cfg db r (ackChecked cfg) := by
    unfold ackChecked
    split <;> trivial
  cases p with
  | start =>
    simp only [ackStep]
    split_ifs
    · trivial
    · exact hchecked
  | token =>
    simp only [ackStep]
    split
    · exact hexn _ _
    · exact hchecked
  | lookup =>
    simp only [ackStep]
    split
    · trivial
    · next fed hfed =>
      split
      · exact hexn _ _
      · next path hpath => exact readAck_names hfed hpath
  | write path =>
    simp only [ackStep]
    split
    · exact hexn _ _
    · next db' hstore =>
      obtain ⟨eventId, agent, ackType, hnames, hacks⟩ := storeAck_names hp hstore
      have hdone : Acknowledged cfg db' r.body :=
        ⟨eventId, agent, ackType, hnames, (hacks _ _ _).mpr (.inr ⟨rfl, rfl, rfl⟩)⟩
      cases path with
      | localPath => exact fun _ => hdone
      | federated => exact hdone
  | hint =>
    intro _
    exact hp.later (ackStep_later cfg r now db .hint).1
  | done reply => exact hp

/-! ## Events -/

/-- The arguments of the body, at whatever time. -/
def Of (r : Request) (a : EventArgs) : Prop :=
  ∃ b, checkBody r = .ok b ∧ a = { b with now := a.now }

/-- The event of the arguments is in the ledger, under the same identity. -/
def StoredAs (env : Env) (db : Db) (a : EventArgs) : Prop :=
  ∃ row ∈ db.events, sqliteKey env a row.eventId ∧ Same a row

/-- What a post has come to. -/
def EventInv (cfg : ServerConfig) (db : Db) (r : Request) : EventPhase → Prop
  | .start => True
  | .token a | .probe a | .gate a _ => Of r a
  | .insert a p => Of r a ∧ CallPhase.Inv cfg.env db a p
  | .send a _ _ => Of r a ∧ route cfg a.target ≠ none
  | .done reply => reply.status < 300 → ∀ a, Of r a → route cfg a.target = none →
      StoredAs cfg.env db a

section
variable {r : Request} {a b : EventArgs} {p : EventPhase}

theorem Of.same (h : Of r a) (h' : Of r b) : b = { a with now := b.now } := by
  obtain ⟨c, hc, ha⟩ := h
  obtain ⟨c', hc', hb⟩ := h'
  rw [hc] at hc'
  cases hc'
  rw [ha]
  exact hb

theorem StoredAs.later (h : StoredAs cfg.env db a) (hlater : Later db db') :
    StoredAs cfg.env db' a := by
  obtain ⟨row, hrow, h⟩ := h
  exact ⟨row, hlater.events.subset hrow, h⟩

theorem eventInv_exn (cfg : ServerConfig) (db : Db) (r : Request) (e : Exn) :
    EventInv cfg db r (.done (exnReply e)) := fun hlt =>
  absurd hlt (not_lt.mpr (exnReply_status_ge e))

theorem eventInv_checked (ha : Of r a) : EventInv cfg db r (eventChecked cfg a) := by
  unfold eventChecked
  split
  · exact eventInv_exn _ _ _ _
  · split
    · next fed family hroute => exact ⟨ha, by rw [hroute]; exact nofun⟩
    · split_ifs
      · exact ha
      · exact ha

/-- What an insertion has come to. -/
theorem sqliteStep_own {env : Env} {p : CallPhase} (hids : (db.events.map (·.id)).Nodup)
    (hp : p.Inv env db a) :
    (sqliteStep env a now db p).2.Inv env (sqliteStep env a now db p).1 a := by
  cases p with
  | start =>
    rw [sqliteStep]
    split_ifs with hsourced
    · obtain ⟨-, e, he⟩ := reject_cases env (atTime a now) db "missing_source_ref"
        "command requires source_ref"
      simp only [he]
      exact own_error e
    · rcases writeEvent_inv env (atTime a now) db hsourced with ⟨q, hq, hinv⟩ | ⟨row, db', hq, hc⟩
      · rw [hq]
        exact hinv
      · rw [hq]
        obtain ⟨hmem, hkey, hsame⟩ := Committed.mem a hc rfl rfl
        exact ⟨row, hmem, rfl, hkey, hsame⟩
  | ended q => exact finishEvent_own hids hp now
  | returned r => exact hp

theorem eventInv_inserted {p : CallPhase} (ha : Of r a) (hp : p.Inv cfg.env db a) :
    EventInv cfg db r (eventInserted a p) := by
  cases p with
  | returned result =>
    cases result with
    | error e => exact eventInv_exn _ _ _ _
    | ok event =>
      intro _ b hb _
      obtain ⟨row, hrow, -, hkey, hsame⟩ := hp event rfl
      have heq := ha.same hb
      rw [heq]
      exact ⟨row, hrow, hkey, hsame⟩
  | _ => exact ⟨ha, hp⟩

/-- One step of a post. -/
theorem eventStep_inv (hids : (db.events.map (·.id)).Nodup) (hp : EventInv cfg db r p) :
    EventInv cfg (eventStep cfg r now db p).1 r (eventStep cfg r now db p).2 := by
  cases p with
  | start =>
    simp only [eventStep]
    split
    · exact eventInv_exn _ _ _ _
    · next a ha =>
      have hof : Of r a := ⟨a, ha, rfl⟩
      split_ifs
      · exact hof
      · exact eventInv_checked hof
  | token a =>
    simp only [eventStep]
    split
    · exact eventInv_exn _ _ _ _
    · split_ifs
      · exact eventInv_checked hp
      · exact eventInv_exn _ _ _ _
  | probe a =>
    simp only [eventStep]
    split
    · exact eventInv_exn _ _ _ _
    · exact hp
  | gate a retry =>
    simp only [eventStep]
    split_ifs
    · exact fun hlt => absurd hlt (by decide)
    · obtain ⟨b, hb, ha⟩ := hp
      refine ⟨⟨b, hb, ?_⟩, trivial⟩
      rw [ha]
  | insert a p => exact eventInv_inserted hp.1 (sqliteStep_own hids hp.2)
  | send a fed family =>
    simp only [eventStep]
    split
    · exact eventInv_exn _ _ _ _
    · intro _ b hb hroute
      have heq := hp.1.same hb
      rw [heq] at hroute
      exact absurd hroute hp.2
  | done reply => exact hp

end

/-! ## Every run -/

theorem nodup_ids (h : Cursor.Ascending rowKey db.events) : (db.events.map (·.id)).Nodup := by
  refine List.pairwise_map.mpr (List.Pairwise.imp (fun {x y} hlt heq => ?_) h)
  have hkey : (x.id : ℤ) < y.id := hlt
  omega

theorem AckInv.later {r : AckCall} {p : AckPhase} (h : AckInv cfg db r p) (hlater : Later db db') :
    AckInv cfg db' r p := by
  cases p with
  | hint => exact Acknowledged.later h hlater
  | done reply => exact fun hlt => (h hlt).later hlater
  | _ => exact h

theorem EventInv.later {r : Request} {p : EventPhase} (h : EventInv cfg db r p)
    (hlater : Later db db') : EventInv cfg db' r p := by
  cases p with
  | insert a p =>
    refine ⟨h.1, ?_⟩
    have hp := h.2
    cases p with
    | start => trivial
    | ended q =>
      cases q with
      | finished r => exact Own.mono hp hlater.events
      | fetch id =>
        obtain ⟨row, hrow, hrest⟩ := hp
        exact ⟨row, hlater.events.subset hrow, hrest⟩
      | _ => trivial
    | returned r => exact Own.mono hp hlater.events
  | done reply => exact fun hlt a ha hroute => (h hlt a ha hroute).later hlater
  | _ => exact h

/-- What the requests of a server have come to. -/
def RequestInv (cfg : ServerConfig) (db : Db) : Asked → EventPhase ⊕ AckPhase → Prop :=
  eitherInv (EventInv cfg) (AckInv cfg) db

theorem requests_keep (cfg : ServerConfig) : (handlers cfg).Keeps
    (fun db => Cursor.Ascending rowKey db.events) (OtherCommits cfg.env)
    (eitherOk (fun _ _ _ _ => True) fun _ _ _ _ => True)
    (fun db => Cursor.Ascending rowKey db.events) (RequestInv cfg) Since := by
  have hevents : (eventCalls cfg).Keeps (fun db => Cursor.Ascending rowKey db.events)
      (OtherCommits cfg.env) (fun _ _ _ _ => True) (fun db => Cursor.Ascending rowKey db.events)
      (EventInv cfg) Since := by
    refine ⟨.refl, fun _ _ _ => .trans, fun _ h => h, fun db db' h henv => ?_, fun _ _ _ => trivial,
      fun _ _ _ _ hsince h => h.later hsince.later, fun db r now p h hp _ _ => ?_⟩
    · have hsince := otherCommits_since henv
      exact ⟨hsince.adds.ascending h, hsince⟩
    · have hsince := eventStep_since cfg r now db p
      exact ⟨hsince.adds.ascending h, eventStep_inv (nodup_ids h) hp, hsince⟩
  have hacks : (ackCalls cfg).Keeps (fun db => Cursor.Ascending rowKey db.events)
      (OtherCommits cfg.env) (fun _ _ _ _ => True) (fun db => Cursor.Ascending rowKey db.events)
      (AckInv cfg) Since := by
    refine ⟨.refl, fun _ _ _ => .trans, fun _ h => h, fun db db' h henv => ?_, fun _ _ _ => trivial,
      fun _ _ _ _ hsince h => h.later hsince.later, fun db r now p h hp _ _ => ?_⟩
    · have hsince := otherCommits_since henv
      exact ⟨hsince.adds.ascending h, hsince⟩
    · have hsince := ackStep_since cfg r now db p
      exact ⟨hsince.adds.ascending h, ackStep_inv hp, hsince⟩
  exact hevents.either hacks

/-- The requests of a server in every run. -/
theorem requests_of_reach {s : Serving} (h : Reachable (serving cfg) s) :
    Cursor.Ascending rowKey s.store.events ∧ ∀ c ∈ s.calls, RequestInv cfg s.store c.1 c.2 := by
  refine Reach.invariant (S := serving cfg) (P := fun s => Cursor.Ascending rowKey s.store.events ∧
    ∀ c ∈ s.calls, RequestInv cfg s.store c.1 c.2) (fun s hs => ?_) (fun s act s' hs _ hstep => ?_) h
  · refine ⟨hs.1.ascending, ?_⟩
    rw [hs.2]
    exact nofun
  · refine ((requests_keep cfg).action hs ?_ hstep).1
    cases act with
    | advance i now =>
      intro c p _
      match c, p with
      | .inl r, .inl p => trivial
      | .inr r, .inr p => trivial
      | .inl r, .inr p => trivial
      | .inr r, .inl p => trivial
    | _ => trivial

theorem schema_of_reach {server : Serving} (h : Reachable (serving cfg) server) :
    Schema server.store := by
  refine Reach.invariant (S := serving cfg) (P := fun s => Schema s.store) (fun s hs => hs.1)
    (fun s act s' hs _ hstep => ?_) h
  exact (serving_since hstep).schema hs

/-! ## Answers -/

section
variable {s s' : Serving} {act : Callers.Action Db Asked Time} {client : Client} {reply : Reply}
  {i : ℕ} {c : Asked} {p : EventPhase ⊕ AckPhase} {row : EventRow}

/-- A request stays what it is. -/
theorem asked_of_step (h : (serving cfg).step s act s') (hi : s.calls[i]? = some (c, p)) :
    ∃ p', s'.calls[i]? = some (c, p') := by
  cases act with
  | call b =>
    cases h
    exact ⟨p, (List.getElem?_append_left (List.getElem?_eq_some_iff.mp hi).1).trans hi⟩
  | advance j now =>
    obtain ⟨b, q, hj, -, rfl⟩ := h
    by_cases hij : j = i
    · rw [hij] at hj ⊢
      cases hj.symm.trans hi
      exact ⟨_, List.getElem?_set_self (List.getElem?_eq_some_iff.mp hj).1⟩
    · exact ⟨p, (List.getElem?_set_ne hij).trans hi⟩
  | other store =>
    obtain ⟨-, rfl⟩ := h
    exact ⟨p, hi⟩

theorem textParam_str_eq {env : Env} {t e : Str} (h : textParam env (.str t) = .ok (some e)) :
    e = t := by
  by_cases hclean : Clean t
  · rw [textParam_str hclean] at h
    cases h
    rfl
  · have hbind : Sqlite.bind (.str t) = .error .unicodeEncode := if_neg hclean
    unfold textParam at h
    rw [hbind] at h
    cases h

theorem parseAckType_text {t : AckType} (h : parseAckType (.str ackType.text) = .ok t) :
    t = ackType := by
  cases ackType <;> cases t <;> first | rfl | exact absurd h (by decide)

/-- What the body of a client's acknowledgement names. -/
theorem Names.ofAckBody {detail : Dict} {e x : Str} {t : AckType}
    (h : Names cfg.env (client.ackBody eventId ackType detail) e x t) :
    e = eventId ∧ x = client.agent ∧ t = ackType := by
  obtain ⟨⟨_, he, hevent⟩, ⟨_, hx, hagent⟩, _, ht, htype⟩ := h
  cases he
  cases hx
  cases ht
  exact ⟨textParam_str_eq hevent, textParam_str_eq hagent, parseAckType_text htype⟩

/-- An acknowledgement that was answered is in the ledger. -/
theorem acked_of_answer {r : AckCall} {detail : Dict}
    (hinv : ∀ c ∈ s.calls, RequestInv cfg s.store c.1 c.2) (hi : s.calls[i]? = some (.inr r, p))
    (hr : client.Acks eventId ackType detail r) (hanswer : answer cfg s i = some reply)
    (hok : reply.status < 300) : hasAck s.store eventId client.agent ackType = true := by
  have hcall := hinv _ (List.mem_of_getElem? hi)
  unfold answer at hanswer
  rw [hi] at hanswer
  cases p with
  | inl q => exact hcall.elim
  | inr q =>
    cases q with
    | done reply' =>
      cases hanswer
      obtain ⟨e, x, t, hnames, hack⟩ := hcall hok
      rw [hr.1] at hnames
      obtain ⟨rfl, rfl, rfl⟩ := hnames.ofAckBody
      exact hack
    | _ => cases hanswer

/-- A post to a local target that was answered is in the ledger. -/
theorem stored_of_answer {r : Request} {a : EventArgs}
    (hinv : ∀ c ∈ s.calls, RequestInv cfg s.store c.1 c.2) (hi : s.calls[i]? = some (.inl r, p))
    (ha : Of r a) (hroute : route cfg a.target = none) (hanswer : answer cfg s i = some reply)
    (hok : reply.status < 300) : StoredAs cfg.env s.store a := by
  have hcall := hinv _ (List.mem_of_getElem? hi)
  unfold answer at hanswer
  rw [hi] at hanswer
  cases p with
  | inr q => exact hcall.elim
  | inl q =>
    cases q with
    | done reply' =>
      cases hanswer
      exact hcall hok a ha hroute
    | _ => cases hanswer

/-- A post that is under way, or was accepted, has a body that was checked. -/
def Checked (r : Request) : EventPhase → Prop
  | .start => True
  | .done reply => reply.status < 300 → ∃ a, checkBody r = .ok a
  | _ => ∃ a, checkBody r = .ok a

theorem eventStep_checked (cfg : ServerConfig) {r : Request} {q : EventPhase} (now : Time) (db : Db)
    (h : Checked r q) : Checked r (eventStep cfg r now db q).2 := by
  have hdone : (∃ a, checkBody r = .ok a) → ∀ q', q' ≠ .start → Checked r q' := by
    intro hr q' hq'
    cases q' with
    | start => exact absurd rfl hq'
    | done reply => exact fun _ => hr
    | _ => exact hr
  have hchecked : ∀ a, eventChecked cfg a ≠ .start := by
    intro a
    unfold eventChecked
    split
    · exact fun h => by cases h
    · split
      · exact fun h => by cases h
      · split_ifs <;> exact fun h => by cases h
  cases q with
  | start =>
    simp only [eventStep]
    split
    · next e _ => exact fun hlt => absurd hlt (not_lt.mpr (exnReply_status_ge e))
    · next a ha =>
      refine hdone ⟨a, ha⟩ _ ?_
      split_ifs
      · exact fun h => by cases h
      · exact hchecked a
  | done reply => exact h
  | token a =>
    refine hdone h _ ?_
    simp only [eventStep]
    split
    · exact fun h => by cases h
    · split_ifs
      · exact hchecked a
      · exact fun h => by cases h
  | probe a =>
    refine hdone h _ ?_
    simp only [eventStep]
    split <;> exact fun h => by cases h
  | gate a retry =>
    refine hdone h _ ?_
    simp only [eventStep]
    split_ifs <;> exact fun h => by cases h
  | insert a q =>
    refine hdone h _ ?_
    simp only [eventStep, eventInserted]
    split <;> exact fun h => by cases h
  | send a fed family =>
    refine hdone h _ ?_
    simp only [eventStep]
    split <;> exact fun h => by cases h

/-- A post that was accepted has a body that was checked. -/
theorem checked_of_answer {r : Request} (h : Reachable (serving cfg) s)
    (hi : s.calls[i]? = some (.inl r, p)) (hanswer : answer cfg s i = some reply)
    (hok : reply.status < 300) : ∃ a, checkBody r = .ok a := by
  have hkeeps : ∀ call ∈ s.calls, ∀ (r : Request) q, call = (.inl r, .inl q) → Checked r q := by
    refine Reach.invariant (S := serving cfg) (P := fun s => ∀ call ∈ s.calls, ∀ (r : Request) q,
      call = (.inl r, .inl q) → Checked r q) (fun s hs => ?_) (fun s act s' hs _ hstep => ?_) h
    · rw [hs.2]
      exact nofun
    · cases act with
      | call b =>
        cases hstep
        intro call hcall r q heq
        rcases List.mem_append.mp hcall with hold | hnew
        · exact hs call hold r q heq
        · rw [List.mem_singleton.mp hnew] at heq
          cases b with
          | inl b =>
            cases heq
            trivial
          | inr b => cases heq
      | other store =>
        obtain ⟨-, rfl⟩ := hstep
        exact hs
      | advance j now =>
        obtain ⟨b, q', hj, -, rfl⟩ := hstep
        intro call hcall r q heq
        rcases List.mem_or_eq_of_mem_set hcall with hold | hnew
        · exact hs call hold r q heq
        · rw [hnew] at heq
          match b, q' with
          | .inl b, .inl q' =>
            cases heq
            exact eventStep_checked cfg now _ (hs _ (List.mem_of_getElem? hj) _ _ rfl)
          | .inr b, .inr q' => cases heq
          | .inl b, .inr q' => cases heq
          | .inr b, .inl q' => cases heq
  unfold answer at hanswer
  rw [hi] at hanswer
  cases p with
  | inr q =>
    exact absurd ((requests_of_reach h).2 _ (List.mem_of_getElem? hi)) id
  | inl q =>
    have hq := hkeeps _ (List.mem_of_getElem? hi) r q rfl
    cases q with
    | done reply' =>
      cases hanswer
      exact hq hok
    | _ => cases hanswer

/-- An insertion writes no acknowledgement. -/
theorem sqliteStep_acks (env : Env) (a : EventArgs) (now : Time) (db : Db) (p : CallPhase) :
    (sqliteStep env a now db p).1.acks = db.acks := by
  cases p with
  | start =>
    simp only [sqliteStep]
    split_ifs with hsourced
    · exact (reject_cases env (atTime a now) db "missing_source_ref"
        "command requires source_ref").1.acks
    · rcases writeEvent_cases env (atTime a now) db hsourced with ⟨p, hp, -⟩ | ⟨row, db', hp, hc⟩
      · rw [hp]
      · rw [hp, hc.frame]
  | ended p => exact (finishEvent_cases env (atTime a now) db p).acks
  | returned result => rfl

theorem eventStep_acks (cfg : ServerConfig) (r : Request) (now : Time) (db : Db) (p : EventPhase) :
    (eventStep cfg r now db p).1.acks = db.acks := by
  cases p with
  | insert a p => exact sqliteStep_acks cfg.env a now db p
  | send a fed family =>
    simp only [eventStep]
    split
    · rfl
    · next db' reply hsend =>
      rcases federationSend_cases hsend with hdb | ⟨s, raw, -, -, hdb⟩
      · exact congrArg Db.acks hdb
      · cases hdb
        rfl
  | start =>
    simp only [eventStep]
    split <;> rfl
  | token a =>
    simp only [eventStep]
    split <;> rfl
  | probe a =>
    simp only [eventStep]
    split <;> rfl
  | _ => rfl

/-- A step of an acknowledgement writes the one that its body names. -/
theorem ackStep_acks {r : AckCall} {q : AckPhase} (hq : AckInv cfg db r q)
    (hack : hasAck (ackStep cfg r now db q).1 eventId agent ackType = true) :
    hasAck db eventId agent ackType = true ∨ Names cfg.env r.body eventId agent ackType := by
  cases q with
  | write path =>
    simp only [ackStep] at hack
    split at hack
    · exact .inl hack
    · next db' hstore =>
      obtain ⟨e, x, t, hnames, hacks⟩ := storeAck_names hq hstore
      have hwritten : hasAck db' eventId agent ackType = true := by
        cases path <;> exact hack
      rcases (hacks _ _ _).mp hwritten with hold | ⟨rfl, rfl, rfl⟩
      · exact .inl hold
      · exact .inr hnames
  | hint =>
    have hmarks := hintPages_marks r.woken 50 db r.cursor
    simp only [ackStep, hintNotifications] at hack
    rw [hmarks.frame] at hack
    exact .inl hack
  | token =>
    simp only [ackStep] at hack
    split at hack <;> exact .inl hack
  | lookup =>
    simp only [ackStep] at hack
    split at hack
    · exact .inl hack
    · split at hack <;> exact .inl hack
  | _ => exact .inl hack

/-- An acknowledgement comes from a request that names it. -/
theorem serving_acks (hinv : ∀ c ∈ s.calls, RequestInv cfg s.store c.1 c.2)
    (h : (serving cfg).step s act s') (hack : hasAck s'.store eventId agent ackType = true) :
    hasAck s.store eventId agent ackType = true ∨
      ∃ c ∈ s.calls, ∃ r, c.1 = .inr r ∧ Names cfg.env r.body eventId agent ackType := by
  have hsame : s'.store.acks = s.store.acks → hasAck s.store eventId agent ackType = true := by
    intro hacks
    rwa [hasAck, hacks] at hack
  cases act with
  | call b =>
    cases h
    exact .inl hack
  | other store =>
    obtain ⟨henv, rfl⟩ := h
    refine .inl (hsame ?_)
    rcases henv with hother | ⟨q, now, res, hreceive⟩
    · exact hother.2
    · rcases receiveEvent_cases hreceive with ⟨-, hs⟩ | ⟨_, -, -, -, hdb⟩ | ⟨_, _, -, hdb⟩
      · exact (congrArg Db.acks hs.frame :)
      · exact (congrArg Db.acks hdb :)
      · exact (congrArg Db.acks hdb :)
  | advance j now =>
    obtain ⟨b, q, hj, -, rfl⟩ := h
    have hmem := List.mem_of_getElem? hj
    have hcall := hinv _ hmem
    cases b with
    | inl r =>
      cases q with
      | inl q => exact .inl (hsame (eventStep_acks cfg r now s.store q))
      | inr q => exact .inl hack
    | inr r =>
      cases q with
      | inl q => exact .inl hack
      | inr q => exact (ackStep_acks hcall hack).imp_right fun hnames => ⟨_, hmem, r, rfl, hnames⟩

/-- A new event was committed for a request, or comes from abroad. -/
theorem serving_events (hinv : ∀ c ∈ s.calls, RequestInv cfg s.store c.1 c.2)
    (h : (serving cfg).step s act s') (hrow : row ∈ s'.store.events) :
    row ∈ s.store.events ∨ (∃ c ∈ s.calls, ∃ r a, c.1 = .inl r ∧ Of r a ∧
        ∃ now, Committed cfg.env (atTime a now) s.store row s'.store) ∨
      ∃ store, act = .other store := by
  have hsame : s'.store.events = s.store.events → row ∈ s.store.events := fun hevents =>
    hevents ▸ hrow
  cases act with
  | call b =>
    cases h
    exact .inl hrow
  | other store => exact .inr (.inr ⟨store, rfl⟩)
  | advance j now =>
    obtain ⟨b, q, hj, -, rfl⟩ := h
    have hmem := List.mem_of_getElem? hj
    have hcall := hinv _ hmem
    match b, q with
    | .inl r, .inr q => exact .inl hrow
    | .inr r, .inl q => exact .inl hrow
    | .inr r, .inr q => exact .inl (hsame (ackStep_later cfg r now s.store q).2)
    | .inl r, .inl q =>
      rcases (eventStep_later cfg r now s.store q).2 with hevents | ⟨a, _, rfl, -⟩
      · exact .inl (hsame hevents)
      · rcases (sqliteStep_later cfg.env a now s.store .start).2 with hevents | ⟨new, -, hc⟩
        · exact .inl (hsame hevents)
        · have hrow' : row ∈ (sqliteStep cfg.env a now s.store .start).1.events := hrow
          rw [hc.events] at hrow'
          rcases List.mem_append.mp hrow' with hold | hnew
          · exact .inl hold
          · rw [List.mem_singleton.mp hnew]
            exact .inr (.inl ⟨_, hmem, r, a, rfl, hcall.1, now, hc⟩)

end

end Adapter
end ATalk
