import ATalk.Backends.Identity

/-!
# One message for an event id, on both routes

A local event and a queued one are rows of two tables, and each route looks for the id in its own
table only. As long as no request is taken on one route with an id that an accepted message of the
other route has, two accepted requests with one id are one message.

* `postings` : requests to `POST /events`, and what the worker does to queued rows;
* `Crosses` : a request that is taken on the other route than the message of its id;
* `OneMessage` : the statement, `one_message` : it holds in runs without such requests.
-/

namespace ATalk
namespace Server

open Text Json Python Sqlite ATalk.Core Federation Backends Checks Transition

/-! ## Runs -/

/-- The columns of a queued row that nobody changes. -/
def OutboundRow.fixed (row : OutboundRow) : OutboundRow :=
  { row with
    status := .pending, attempts := 0, nextRetryAt := none, lastError := none,
    updatedAt := row.createdAt }

/-- The events and the queued messages are the same; a message may have been sent or have failed. -/
def SameMessages (db db' : Db) : Prop :=
  db'.events = db.events ∧
    db'.federationOutbound.map OutboundRow.fixed = db.federationOutbound.map OutboundRow.fixed

inductive PostAction where
  | post (cfg : ServerConfig) (r : Request)
  | other (db : Db)

/-- The ledgers that requests to `POST /events` lead to. -/
def postings : System Db PostAction where
  init db := db.events = [] ∧ db.federationOutbound = []
  step db act db' :=
    match act with
    | .post cfg r => db' = (postEvents cfg db r).1
    | .other db₁ => SameMessages db db₁ ∧ db' = db₁

/-! ## What should hold -/

/-- The id of a request: its own, or the one the server makes up. -/
def requestKey (r : Request) : Val :=
  if (getNone (lit "event_id") r.body).truthy then getNone (lit "event_id") r.body else .str r.newId

def Names (cfg : ServerConfig) (r : Request) (k : Str) : Prop :=
  textParam cfg.env (requestKey r) = .ok (some k)

/-- The bodies ask for the same source, target and type. -/
structure SameIdentity (r₁ r₂ : Request) : Prop where
  source : getNone (lit "source") r₁.body = getNone (lit "source") r₂.body
  target : getNone (lit "target") r₁.body = getNone (lit "target") r₂.body
  type : getDefault (lit "type") r₁.body (.str (lit "message")) =
    getDefault (lit "type") r₂.body (.str (lit "message"))

/-- Two answers that describe one stored row: an event, or a queued message, and then both bodies
ask for its text and its reply link. -/
inductive OneRow (db₁ db₂ : Db) (r₁ r₂ : Request) (reply₁ reply₂ : Reply) : Prop where
  | event (row : EventRow) (event : Event) (h₁ : row ∈ db₁.events) (h₂ : row ∈ db₂.events)
      (hread : rowToEvent row = .ok event) (hreply₁ : reply₁ = ⟨201, eventToDict event⟩)
      (hreply₂ : reply₂ = ⟨201, eventToDict event⟩)
  | sent (row₁ row₂ : OutboundRow) (s : SendRequest) (h₁ : row₁ ∈ db₁.federationOutbound)
      (h₂ : row₂ ∈ db₂.federationOutbound)
      (hfixed : OutboundRow.fixed row₁ = OutboundRow.fixed row₂)
      (hreply₁ : reply₁ = ⟨201, sendItem row₁ s⟩) (hreply₂ : reply₂ = ⟨201, sendItem row₂ s⟩)
      (htext : getNone (lit "text") (bodyPayload r₁.body) =
        getNone (lit "text") (bodyPayload r₂.body))
      (hlink : getNone (lit "in_reply_to") (bodyPayload r₁.body) =
        getNone (lit "in_reply_to") (bodyPayload r₂.body))

/-- After an accepted request with the id, a later one with it adds no row, and when it is accepted
the two are one message. -/
def OneMessage (ok : Db → PostAction → Prop) (k : Str) : Prop :=
  ∀ db₁ cfg₁ r₁ db₂ cfg₂ r₂, Reach postings ok db₁ → ok db₁ (.post cfg₁ r₁) →
    (postEvents cfg₁ db₁ r₁).2.status = 201 → Names cfg₁ r₁ k →
    Run postings ok (postEvents cfg₁ db₁ r₁).1 db₂ → ok db₂ (.post cfg₂ r₂) → Names cfg₂ r₂ k →
    (postEvents cfg₂ db₂ r₂).1.events = db₂.events ∧
      (postEvents cfg₂ db₂ r₂).1.federationOutbound = db₂.federationOutbound ∧
      ((postEvents cfg₂ db₂ r₂).2.status = 201 → SameIdentity r₁ r₂ ∧
        OneRow (postEvents cfg₁ db₁ r₁).1 (postEvents cfg₂ db₂ r₂).1 r₁ r₂
          (postEvents cfg₁ db₁ r₁).2 (postEvents cfg₂ db₂ r₂).2)

/-! ## The condition -/

/-- A call that stores a row under an id. -/
structure Stores (env : Env) (db : Db) (a : EventArgs) (k : Str) : Prop where
  sourced : ¬ (a.type = lit "command" ∧ a.sourceRef.truthy = false)
  key : textParam env a.key = .ok (some k)
  fresh : findEvent db (some k) = none
  allowed : ∃ actor, authorize env db a = .ok (.allowed actor)
  slot : ∃ db₁ v seq created ref, allocate env db a = .ok (db₁, v) ∧
    rowParams env a v = .ok ⟨some k, seq, some created, ref⟩ ∧ seq ≠ .null ∧
    ∀ row ∈ db.events, row.source = a.source → sqlEq row.seq seq = false

/-- The request is taken on one route, and an accepted message of the other route has its id. -/
def Crosses (cfg : ServerConfig) (db : Db) (r : Request) : Prop :=
  ∃ a, checkEvent cfg db r = .ok a ∧
    match route cfg a.target with
    | none => PassesGate cfg db r a ∧
        ∃ k, Stores cfg.env db a k ∧ (findOutbound db k).isSome = true
    | some (fed, family) => ∃ s, Queued fed db a.source a.target r.body family r.newId r.now s ∧
        ∃ row ∈ db.events, row.eventId = s.eventId ∧ ∃ event, rowToEvent row = .ok event

/-- No request of the run does. -/
def OnItsRoute (db : Db) : PostAction → Prop
  | .post cfg r => ¬ Crosses cfg db r
  | .other _ => True

variable {cfg : ServerConfig} {db db' : Db} {r : Request} {a : EventArgs} {k : Str}

theorem Committed.stores {env : Env} {row : EventRow} (h : Committed env a db row db') :
    Stores env db a row.eventId where
  sourced := h.sourced
  key := h.key
  fresh := h.fresh
  allowed := ⟨row.authActor, h.verdict⟩
  slot := by
    obtain ⟨db₁, v, halloc, hparams, -⟩ := h.slot
    exact ⟨db₁, v, row.seq, row.createdAt, row.sourceRef, halloc, hparams, h.notNull, h.free⟩

/-! ## The rows of a queued message -/

/-- A new row is the message it was queued for. -/
theorem differs_row (s : SendRequest) (fed : Runtime) (db : Db) (raw : Bytes) (now : Time) :
    differs (s.row fed db raw now) s = false := by
  have hsigned : (s.row fed db raw now).signedJson = sorted (signedEvent (s.fields fed now)) := rfl
  have htext : storedText (s.row fed db raw now) = some s.text := by
    rw [storedText, hsigned, sorted_signedEvent]
    unfold sortedEvent
    cases h : (s.fields fed now).inReplyTo <;> rfl
  have hreply : storedReply (s.row fed db raw now) = s.inReplyTo := by
    rw [storedReply, hsigned, sorted_signedEvent]
    have hlink : (s.fields fed now).inReplyTo = s.inReplyTo := rfl
    unfold sortedEvent
    rw [hlink]
    cases s.inReplyTo <;> rfl
  rw [differs, htext, hreply]
  exact decide_eq_false (not_not.mpr rfl)

/-- A row tells what it is a message of. -/
theorem differs_eq_false {row : OutboundRow} {s : SendRequest} (h : differs row s = false) :
    row.sourceLocal = s.source ∧ row.target = s.target ∧ row.type = s.type ∧
      storedText row = some s.text ∧ storedReply row = s.inReplyTo := by
  have heq := not_not.mp (of_decide_eq_false h)
  simpa using heq

/-! ## Accepted requests -/

theorem replyTo_error {payload : Dict} {type : Str} {reply : Reply}
    (h : replyTo payload type = .error reply) : reply.status = 400 := by
  unfold replyTo at h
  split at h
  · cases h
  · split_ifs at h
    · cases h
      rfl
    · split at h
      · split_ifs at h
        cases h
        rfl
      · cases h
        rfl

theorem checkSend_error {fed : Runtime} {source target family newId : Str} {body : Dict}
    {reply : Reply} (h : checkSend fed source target body family newId = .ok (.error reply)) :
    reply.status = 400 := by
  unfold checkSend at h
  split at h
  · cases h
    rfl
  split at h
  · split at h
    · cases h
      rfl
    split at h
    · split at h
      · split at h
        · cases h
          rfl
        · split at h
          · next reply' hreply =>
            cases h
            exact replyTo_error hreply
          · split at h
            · cases h
            · split_ifs at h
              · cases h
                rfl
              · cases h
                rfl
              · cases h
      · cases h
        rfl
    · cases h
      rfl
  · cases h
    rfl

/-- What a checked send takes from the body besides its names. -/
theorem checkSend_body {fed : Runtime} {source target family newId : Str} {body : Dict}
    {s : SendRequest} (h : checkSend fed source target body family newId = .ok (.ok s)) :
    sendId body newId = .ok s.eventId ∧
      getNone (lit "text") (bodyPayload body) = .str s.text ∧
      replyTo (bodyPayload body) s.type = .ok s.inReplyTo := by
  unfold checkSend at h
  split at h
  · cases h
  split at h
  · split at h
    · cases h
    split at h
    next payload hpay =>
      have hpayload : bodyPayload body = payload := by rw [bodyPayload, hpay]
      split at h
      next text htext =>
        split at h
        · cases h
        · split at h
          · cases h
          next link hlink =>
            split at h
            · cases h
            next eventId hid =>
              split_ifs at h
              · cases h
              · cases h
              · cases h
                rw [hpayload]
                exact ⟨hid, htext, hlink⟩
      · cases h
    · cases h
  · cases h

/-- A send that is answered with a 201 has its row in the outbox. -/
theorem federationSend_accepted {fed : Runtime} {source target family newId : Str} {body : Dict}
    {now : Time} {reply : Reply}
    (h : federationSend fed db source target body family newId now = .ok (db', reply))
    (h201 : reply.status = 201) : ∃ s row, checkSend fed source target body family newId =
      .ok (.ok s) ∧ row ∈ db'.federationOutbound ∧ row.eventId = s.eventId ∧
      differs row s = false ∧ reply = ⟨201, sendItem row s⟩ := by
  unfold federationSend at h
  split at h
  · cases h
  next reply' hcheck =>
    cases h
    rw [checkSend_error hcheck] at h201
    exact absurd h201 (by decide)
  next s hcheck =>
    unfold sendChecked at h
    split at h
    · cases h
    · cases h
      exact absurd h201 (show (400 : ℕ) ≠ 201 by decide)
    next envelope henv =>
      obtain ⟨-, rfl⟩ := compose_event_ok_iff.mp henv
      unfold queueSend at h
      split at h
      · cases h
      next raw hraw =>
        simp only [strMember_sig, Option.getD_some] at h
        split at h
        · cases h
          exact absurd h201 (show (429 : ℕ) ≠ 201 by decide)
        next db₁ e henq =>
          split at h
          · cases h
          next row hrow =>
            have hid : row.eventId = s.eventId := by
              have hsome := List.find?_some hrow
              simpa using hsome
            split_ifs at h with hdiff
            · cases h
              exact absurd h201 (show (409 : ℕ) ≠ 201 by decide)
            · cases h
              refine ⟨s, row, hcheck, List.mem_of_find?_eq_some hrow, hid, ?_, rfl⟩
              rcases enqueueOutbound_some henq with ⟨rfl, -, -⟩ | ⟨-, hnone, -, rfl⟩
              · rw [not_and, Bool.not_eq_true] at hdiff
                exact hdiff rfl
              · have hnew : row = s.row fed db raw now := by
                  have hfind : db.federationOutbound.find? (·.eventId = s.eventId) = none := hnone
                  have hself : (s.row fed db raw now).eventId = s.eventId := rfl
                  have hlast : findOutbound (s.stored fed db raw now) s.eventId =
                      some (s.row fed db raw now) := by
                    simp only [findOutbound, SendRequest.stored, List.find?_append, hfind,
                      Option.none_or, List.find?_cons, hself, decide_true]
                  exact Option.some.inj (hrow.symm.trans hlast)
                rw [hnew]
                exact differs_row s fed db raw now

/-- The id of a checked send is the id of its request. -/
theorem checkSend_names {fed : Runtime} {source target family : Str} {s : SendRequest}
    (h : checkSend fed source target r.body family r.newId = .ok (.ok s)) (hk : Names cfg r k) :
    s.eventId = k := by
  have hclean : Clean s.eventId := (plain_uuidRe (checkSend_ok h).eventId).clean
  have hkey : requestKey r = .str s.eventId := by
    have hid := (checkSend_body h).1
    unfold sendId at hid
    split at hid
    · next t ht =>
      rw [requestKey, ht, ← Except.ok.inj hid]
      cases t <;> rfl
    · next v hv =>
      split_ifs at hid with htruthy
      rw [requestKey, if_neg htruthy, Except.ok.inj hid]
  rw [Names, hkey, textParam, bind_str hclean] at hk
  exact Option.some.inj (Except.ok.inj hk)

/-- What an accepted request left or found: the row of its id and its identity. -/
inductive Accepted (cfg : ServerConfig) (db : Db) (r : Request) (k : Str) : Prop where
  | event (a : EventArgs) (row : EventRow) (event : Event) (hcheck : checkEvent cfg db r = .ok a)
      (hrow : row ∈ (postEvents cfg db r).1.events) (hkey : row.eventId = k) (hsame : Same a row)
      (hread : rowToEvent row = .ok event)
      (hreply : (postEvents cfg db r).2 = ⟨201, eventToDict event⟩)
  | sent (a : EventArgs) (fed : Runtime) (family : Str) (s : SendRequest) (row : OutboundRow)
      (hcheck : checkEvent cfg db r = .ok a) (hroute : route cfg a.target = some (fed, family))
      (hsend : checkSend fed a.source a.target r.body family r.newId = .ok (.ok s))
      (hrow : row ∈ (postEvents cfg db r).1.federationOutbound) (hkey : row.eventId = k)
      (hsame : differs row s = false) (hreply : (postEvents cfg db r).2 = ⟨201, sendItem row s⟩)

/-- An event that `insert_event` returns has the id and the identity of the call. -/
theorem insertEvent_own {env : Env} {event : Event} (hids : (db.events.map (·.id)).Nodup)
    (h : insertEvent env a db = (db', .ok event)) :
    ∃ row ∈ db'.events, rowToEvent row = .ok event ∧ sqliteKey env a row.eventId ∧ Same a row := by
  unfold insertEvent at h
  split_ifs at h with hsourced
  · obtain ⟨-, e, he⟩ := reject_cases env a db "missing_source_ref" "command requires source_ref"
    rw [h] at he
    cases he
  · rcases writeEvent_inv env a db hsourced with ⟨p, hp, hinv⟩ | ⟨row, db₁, hp, hc⟩
    · rw [hp] at h
      have hfinish : finishEvent env a db p = (db', .ok event) := h
      have hown := finishEvent_own hids hinv a.now
      have hat : finishEvent env (atTime a a.now) db p = finishEvent env a db p := by
        cases p <;> rfl
      rw [hat, hfinish] at hown
      exact hown event rfl
    · rw [hp] at h
      simp only [finishEvent, Prod.mk.injEq] at h
      obtain ⟨rfl, h⟩ := h
      rw [hc.getEventById] at h
      obtain ⟨hmem, hkey, hsame⟩ := Backends.Committed.mem a hc rfl rfl
      exact ⟨row, hmem, h, hkey, hsame⟩

theorem accepted_of_status (hids : (db.events.map (·.id)).Nodup)
    (h201 : (postEvents cfg db r).2.status = 201) (hk : Names cfg r k) : Accepted cfg db r k := by
  have hpost : postEvents cfg db r = postEvents cfg db r := rfl
  conv_rhs at hpost => unfold postEvents
  cases hcheck : checkEvent cfg db r with
  | error e =>
    rw [hcheck] at hpost
    rw [hpost] at h201
    exact absurd h201 (exnReply_status_ne e)
  | ok a =>
    rw [hcheck] at hpost
    simp only at hpost
    cases hroute : route cfg a.target with
    | some q =>
      obtain ⟨fed, family⟩ := q
      rw [hroute] at hpost
      simp only at hpost
      cases hsend : federationSend fed db a.source a.target r.body family r.newId r.now with
      | error e =>
        rw [hsend] at hpost
        rw [hpost] at h201
        exact absurd h201 (exnReply_status_ne e)
      | ok q =>
        obtain ⟨db', reply⟩ := q
        rw [hsend] at hpost
        rw [hpost] at h201
        obtain ⟨s, row, hs, hrow, hid, hsame, hreply⟩ := federationSend_accepted hsend h201
        exact .sent a fed family s row hcheck hroute hs (by rw [hpost]; exact hrow)
          (hid.trans (checkSend_names hs hk)) hsame (by rw [hpost]; exact hreply)
    | none =>
      rw [hroute] at hpost
      simp only at hpost
      rw [hpost] at h201
      by_cases hgate : PassesGate cfg db r a
      · rw [localEvent_of_passesGate hgate] at hpost h201
        cases hins : insertEvent cfg.env a db with
        | mk db' res =>
          rw [hins] at hpost h201
          cases res with
          | error e => exact absurd h201 (exnReply_status_ne e)
          | ok event =>
            obtain ⟨row, hrow, hread, hkey, hsame⟩ := insertEvent_own hids hins
            have ha := (checkEvent_ok hcheck).2.2.2.1
            have hkey' : a.key = requestKey r := by
              rw [ha]
              rfl
            rw [sqliteKey, hkey'] at hkey
            exact .event a row event hcheck (by rw [hpost]; exact hrow)
              (Option.some.inj (Except.ok.inj (hkey.symm.trans hk))) hsame hread
              (by rw [hpost])
      · exfalso
        unfold localEvent at h201
        split at h201
        · next e he => exact exnReply_status_ne e h201
        · next retry hretry =>
          rw [if_pos (not_not.mp fun hn => hgate ⟨retry, hretry, hn⟩)] at h201
          exact absurd h201 (show (429 : ℕ) ≠ 201 by decide)

/-! ## The invariant -/

/-- Ids name one row of a table, and no readable event shares its id with a queued message. -/
structure Tidy (db : Db) : Prop where
  ids : (db.events.map (·.id)).Nodup
  keys : (db.events.map (·.eventId)).Nodup
  sent : (db.federationOutbound.map (·.eventId)).Nodup
  apart : ∀ row ∈ db.events, (∃ event, rowToEvent row = .ok event) →
    ∀ out ∈ db.federationOutbound, out.eventId ≠ row.eventId

theorem map_eventId_fixed (rows : List OutboundRow) :
    rows.map (·.eventId) = (rows.map OutboundRow.fixed).map (·.eventId) := by
  rw [List.map_map]
  rfl

theorem Tidy.congr (h : Tidy db) (hsame : SameMessages db db') : Tidy db' where
  ids := hsame.1 ▸ h.ids
  keys := hsame.1 ▸ h.keys
  sent := by
    rw [map_eventId_fixed, hsame.2, ← map_eventId_fixed]
    exact h.sent
  apart row hrow hread out hout := by
    rw [hsame.1] at hrow
    have hmem : out.eventId ∈ db.federationOutbound.map (·.eventId) := by
      rw [map_eventId_fixed, ← hsame.2, ← map_eventId_fixed]
      exact List.mem_map_of_mem hout
    obtain ⟨out', hout', hid⟩ := List.mem_map.mp hmem
    rw [← hid]
    exact h.apart row hrow hread out' hout'

theorem RejectOnly.sameMessages (h : RejectOnly db db') : SameMessages db db' :=
  ⟨h.events, by rw [h.federationOutbound]⟩

theorem findOutbound_eq_none_iff {id : Str} :
    findOutbound db id = none ↔ ∀ out ∈ db.federationOutbound, out.eventId ≠ id := by
  simp [findOutbound, List.find?_eq_none]

/-- A request that does not cross. -/
theorem Tidy.post (h : Tidy db) (hok : ¬ Crosses cfg db r) : Tidy (postEvents cfg db r).1 := by
  rcases postEvents_cases cfg db r with hr | ⟨a, row, hcheck, hroute, hgate, hc, -⟩ |
    ⟨a, fed, family, s, raw, hcheck, hroute, hq, -, hout⟩
  · exact h.congr (RejectOnly.sameMessages hr)
  · have hfresh : findOutbound db row.eventId = none := by
      by_contra hsome
      refine hok ⟨a, hcheck, ?_⟩
      rw [hroute]
      exact ⟨hgate, row.eventId, Committed.stores hc, Option.isSome_iff_ne_none.mpr hsome⟩
    have hframe : (postEvents cfg db r).1.federationOutbound = db.federationOutbound := by
      rw [hc.frame]
    have hid : row.id = nextId (db.events.map (·.id)) := by
      rw [hc.columns]
      rfl
    refine ⟨?_, ?_, by rw [hframe]; exact h.sent, fun row' hrow' hread out hout => ?_⟩
    · rw [hc.events, List.map_append, List.map_singleton, ← List.concat_eq_append, hid]
      exact h.ids.concat (nextId_not_mem _)
    · rw [hc.events, List.map_append, List.map_singleton, ← List.concat_eq_append]
      refine h.keys.concat fun hmem => ?_
      obtain ⟨row', hrow', hkey⟩ := List.mem_map.mp hmem
      exact findEvent_eq_none_iff.mp hc.fresh row' hrow' hkey
    · rw [hframe] at hout
      rw [hc.events, List.mem_append, List.mem_singleton] at hrow'
      rcases hrow' with hrow' | rfl
      · exact h.apart row' hrow' hread out hout
      · exact findOutbound_eq_none_iff.mp hfresh out hout
  · rw [hout]
    refine ⟨h.ids, h.keys, ?_, fun row hrow hread out hmem => ?_⟩
    · show ((db.federationOutbound ++ [s.row fed db raw r.now]).map (·.eventId)).Nodup
      rw [List.map_append, List.map_singleton, ← List.concat_eq_append]
      refine h.sent.concat fun hmem => ?_
      obtain ⟨out, hmem, hid⟩ := List.mem_map.mp hmem
      exact findOutbound_eq_none_iff.mp hq.fresh out hmem hid
    · rcases List.mem_append.mp hmem with hmem | hmem
      · exact h.apart row hrow hread out hmem
      · rw [List.mem_singleton.mp hmem]
        intro hid
        refine hok ⟨a, hcheck, ?_⟩
        rw [hroute]
        exact ⟨s, hq, row, hrow, hid.symm, hread⟩

theorem tidy_of_reach (h : Reach postings OnItsRoute db) : Tidy db := by
  refine h.invariant (fun s hs => ?_) fun s act s' hs hok hstep => ?_
  · refine ⟨by rw [hs.1]; exact List.nodup_nil, by rw [hs.1]; exact List.nodup_nil,
      by rw [hs.2]; exact List.nodup_nil, fun row hrow => ?_⟩
    rw [hs.1] at hrow
    cases hrow
  · cases act with
    | post cfg r =>
      cases hstep
      exact hs.post hok
    | other db₁ =>
      obtain ⟨hsame, rfl⟩ := hstep
      exact hs.congr hsame

/-- Rows are added at the end and keep their fixed columns. -/
def Grows (db db' : Db) : Prop :=
  db.events <+: db'.events ∧
    db.federationOutbound.map OutboundRow.fixed <+: db'.federationOutbound.map OutboundRow.fixed

theorem SameMessages.grows (h : SameMessages db db') : Grows db db' :=
  ⟨h.1 ▸ List.prefix_rfl, h.2 ▸ List.prefix_rfl⟩

theorem Grows.trans {db'' : Db} (h : Grows db db') (h' : Grows db' db'') : Grows db db'' :=
  ⟨h.1.trans h'.1, h.2.trans h'.2⟩

theorem postEvents_grows (cfg : ServerConfig) (db : Db) (r : Request) :
    Grows db (postEvents cfg db r).1 := by
  rcases postEvents_cases cfg db r with hr | ⟨a, row, -, -, -, hc, -⟩ |
    ⟨a, fed, family, s, raw, -, -, -, -, hout⟩
  · exact (RejectOnly.sameMessages hr).grows
  · have hsame : (postEvents cfg db r).1.federationOutbound = db.federationOutbound := by
      rw [hc.frame]
    exact ⟨hc.events ▸ List.prefix_append _ _, hsame ▸ List.prefix_rfl⟩
  · rw [hout]
    refine ⟨List.prefix_rfl, ?_⟩
    show _ <+: (db.federationOutbound ++ [s.row fed db raw r.now]).map OutboundRow.fixed
    rw [List.map_append]
    exact List.prefix_append _ _

theorem grows_of_run {ok : Db → PostAction → Prop} (h : Run postings ok db db') : Grows db db' := by
  induction h with
  | refl => exact ⟨List.prefix_rfl, List.prefix_rfl⟩
  | @tail db₁ _ _ hstep ih =>
    obtain ⟨act, -, hact⟩ := hstep
    cases act with
    | post cfg r =>
      cases hact
      exact ih.trans (postEvents_grows cfg db₁ r)
    | other db₁ =>
      obtain ⟨hsame, rfl⟩ := hact
      exact ih.trans hsame.grows

/-! ## Two requests with one id -/

/-- An accepted message has the id. -/
def Known (db : Db) (k : Str) : Prop :=
  (∃ row ∈ db.events, row.eventId = k ∧ ∃ event, rowToEvent row = .ok event) ∨
    ∃ out ∈ db.federationOutbound, out.eventId = k

theorem Grows.outbound {out : OutboundRow} (h : Grows db db') (hout : out ∈ db.federationOutbound) :
    ∃ out' ∈ db'.federationOutbound, OutboundRow.fixed out' = OutboundRow.fixed out := by
  have hmem := h.2.mem (List.mem_map_of_mem hout)
  exact List.mem_map.mp hmem

theorem Accepted.known (h : Accepted cfg db r k) (hgrow : Grows (postEvents cfg db r).1 db') :
    Known db' k := by
  cases h with
  | event a row event _ hrow hkey _ hread _ =>
    exact .inl ⟨row, hgrow.1.mem hrow, hkey, event, hread⟩
  | sent a fed family s row _ _ _ hrow hkey _ _ =>
    obtain ⟨out, hout, hfixed⟩ := hgrow.outbound hrow
    exact .inr ⟨out, hout, (congrArg OutboundRow.eventId hfixed).trans hkey⟩

/-- A request with a known id adds no row. -/
theorem postEvents_known (hk : Names cfg r k) (hok : ¬ Crosses cfg db r) (hknown : Known db k) :
    (postEvents cfg db r).1.events = db.events ∧
      (postEvents cfg db r).1.federationOutbound = db.federationOutbound := by
  rcases postEvents_cases cfg db r with hr | ⟨a, row, hcheck, hroute, hgate, hc, -⟩ |
    ⟨a, fed, family, s, raw, hcheck, hroute, hq, -, hout⟩
  · exact ⟨hr.events, hr.federationOutbound⟩
  · exfalso
    have hkey := hc.key
    rw [(checkEvent_ok hcheck).2.2.2.1] at hkey
    have hid : row.eventId = k := Option.some.inj (Except.ok.inj (hkey.symm.trans hk))
    rcases hknown with ⟨row', hrow', hkey', -⟩ | ⟨out, hout, hkey'⟩
    · exact findEvent_eq_none_iff.mp hc.fresh row' hrow' (hkey'.trans hid.symm)
    · refine hok ⟨a, hcheck, ?_⟩
      rw [hroute]
      refine ⟨hgate, row.eventId, Committed.stores hc, Option.isSome_iff_ne_none.mpr fun hnone => ?_⟩
      exact findOutbound_eq_none_iff.mp hnone out hout (hkey'.trans hid.symm)
  · exfalso
    have hid : s.eventId = k := checkSend_names hq.checks hk
    rcases hknown with ⟨row, hrow, hkey', hread⟩ | ⟨out, hout, hkey'⟩
    · refine hok ⟨a, hcheck, ?_⟩
      rw [hroute]
      exact ⟨s, hq, row, hrow, hkey'.trans hid.symm, hread⟩
    · exact findOutbound_eq_none_iff.mp hq.fresh out hout (hkey'.trans hid.symm)

/-- A foreign target names its family. -/
theorem route_family {target family : Str} {fed : Runtime}
    (h : route cfg target = some (fed, family)) :
    ∃ agent, parseAddress target (lit "events.target") = .ok (agent, family) := by
  unfold route at h
  split at h
  · cases h
  · split_ifs at h
    rw [Option.map_eq_some_iff] at h
    obtain ⟨family', hfamily, heq⟩ := h
    cases heq
    unfold Runtime.foreignFamily at hfamily
    split_ifs at hfamily
    split at hfamily
    · cases hfamily
    next agent family'' hparse =>
      split_ifs at hfamily
      cases hfamily
      exact ⟨agent, hparse⟩

theorem replyTo_link {payload : Dict} {type : Str} {link : Option Str}
    (h : replyTo payload type = .ok link) :
    getNone (lit "in_reply_to") payload = strVal link := by
  rcases replyTo_ok h with ⟨rfl, hnone⟩ | ⟨s, rfl, hs, -⟩
  · exact hnone
  · exact hs

theorem sameIdentity_of_checks {cfg₁ cfg₂ : ServerConfig} {db₁ db₂ : Db} {r₁ r₂ : Request}
    {a₁ a₂ : EventArgs} (h₁ : checkEvent cfg₁ db₁ r₁ = .ok a₁) (h₂ : checkEvent cfg₂ db₂ r₂ = .ok a₂)
    (hsource : a₁.source = a₂.source) (htarget : a₁.target = a₂.target) (htype : a₁.type = a₂.type) :
    SameIdentity r₁ r₂ := by
  obtain ⟨hs₁, ht₁, hy₁, -⟩ := checkEvent_ok h₁
  obtain ⟨hs₂, ht₂, hy₂, -⟩ := checkEvent_ok h₂
  exact ⟨by rw [hs₁, hs₂, hsource], by rw [ht₁, ht₂, htarget], by rw [hy₁, hy₂, htype]⟩

theorem differs_of_fixed {row row' : OutboundRow} {s : SendRequest}
    (h : OutboundRow.fixed row = OutboundRow.fixed row') (hd : differs row' s = false) :
    differs row s = false := by
  have hcols : ∀ r : OutboundRow, differs (OutboundRow.fixed r) s = differs r s := fun _ => rfl
  rw [← hcols, h, hcols]
  exact hd

/-- A row is the message of one request. -/
theorem request_unique {row : OutboundRow} {s₁ s₂ : SendRequest} (h₁ : differs row s₁ = false)
    (h₂ : differs row s₂ = false) (hfamily : s₁.target = s₂.target → s₁.family = s₂.family)
    (hid : s₁.eventId = s₂.eventId) : s₁ = s₂ := by
  obtain ⟨hsource₁, htarget₁, htype₁, htext₁, hlink₁⟩ := differs_eq_false h₁
  obtain ⟨hsource₂, htarget₂, htype₂, htext₂, hlink₂⟩ := differs_eq_false h₂
  have htarget := htarget₁.symm.trans htarget₂
  have hfam := hfamily htarget
  obtain ⟨src₁, tgt₁, fam₁, type₁, text₁, link₁, id₁⟩ := s₁
  obtain ⟨src₂, tgt₂, fam₂, type₂, text₂, link₂, id₂⟩ := s₂
  simp only [SendRequest.mk.injEq]
  exact ⟨hsource₁.symm.trans hsource₂, htarget, hfam, htype₁.symm.trans htype₂,
    Option.some.inj (htext₁.symm.trans htext₂), hlink₁.symm.trans hlink₂, hid⟩

theorem checkEvent_type {fed : Runtime} {source target family newId : Str} {s : SendRequest}
    (hcheck : checkEvent cfg db r = .ok a)
    (hsend : checkSend fed source target r.body family newId = .ok (.ok s)) : a.type = s.type := by
  rw [← (checkSend_ok hsend).type, bodyType, (checkEvent_ok hcheck).2.2.1]

/-- Two accepted requests for one row are one message. -/
theorem Accepted.together {cfg₁ cfg₂ : ServerConfig} {db₁ db₂ : Db} {r₁ r₂ : Request}
    (h₁ : Accepted cfg₁ db₁ r₁ k) (h₂ : Accepted cfg₂ db₂ r₂ k) (htidy : Tidy db₂)
    (hgrow : Grows (postEvents cfg₁ db₁ r₁).1 db₂) (hk₁ : Names cfg₁ r₁ k) (hk₂ : Names cfg₂ r₂ k)
    (hsame : (postEvents cfg₂ db₂ r₂).1.events = db₂.events ∧
      (postEvents cfg₂ db₂ r₂).1.federationOutbound = db₂.federationOutbound) :
    SameIdentity r₁ r₂ ∧ OneRow (postEvents cfg₁ db₁ r₁).1 (postEvents cfg₂ db₂ r₂).1 r₁ r₂
      (postEvents cfg₁ db₁ r₁).2 (postEvents cfg₂ db₂ r₂).2 := by
  cases h₁ with
  | event a₁ row₁ event₁ hcheck₁ hrow₁ hkey₁ hid₁ hread₁ hreply₁ =>
    have hmem₁ := hgrow.1.mem hrow₁
    cases h₂ with
    | event a₂ row₂ event₂ hcheck₂ hrow₂ hkey₂ hid₂ hread₂ hreply₂ =>
      have hmem₂ := hrow₂
      rw [hsame.1] at hmem₂
      have hrows : row₁ = row₂ :=
        List.inj_on_of_nodup_map htidy.keys hmem₁ hmem₂ (hkey₁.trans hkey₂.symm)
      subst hrows
      have hevents : event₁ = event₂ := Except.ok.inj (hread₁.symm.trans hread₂)
      subst hevents
      have hids := hid₁.symm.trans hid₂
      simp only [Prod.mk.injEq] at hids
      exact ⟨sameIdentity_of_checks hcheck₁ hcheck₂ hids.1 hids.2.1 hids.2.2,
        .event row₁ event₁ hrow₁ hrow₂ hread₁ hreply₁ hreply₂⟩
    | sent a₂ fed₂ family₂ s₂ row₂ _ _ _ hrow₂ hkey₂ _ _ =>
      rw [hsame.2] at hrow₂
      exact absurd (hkey₂.trans hkey₁.symm) (htidy.apart row₁ hmem₁ ⟨event₁, hread₁⟩ row₂ hrow₂)
  | sent a₁ fed₁ family₁ s₁ row₁ hcheck₁ hroute₁ hsend₁ hrow₁ hkey₁ hsame₁ hreply₁ =>
    obtain ⟨row, hrow, hfixed⟩ := hgrow.outbound hrow₁
    have hkey : row.eventId = k := (congrArg OutboundRow.eventId hfixed).trans hkey₁
    cases h₂ with
    | event a₂ row₂ event₂ _ hrow₂ hkey₂ _ hread₂ _ =>
      rw [hsame.1] at hrow₂
      exact absurd (hkey.trans hkey₂.symm) (htidy.apart row₂ hrow₂ ⟨event₂, hread₂⟩ row hrow)
    | sent a₂ fed₂ family₂ s₂ row₂ hcheck₂ hroute₂ hsend₂ hrow₂ hkey₂ hsame₂ hreply₂ =>
      have hmem₂ := hrow₂
      rw [hsame.2] at hmem₂
      have hrows : row = row₂ :=
        List.inj_on_of_nodup_map htidy.sent hrow hmem₂ (hkey.trans hkey₂.symm)
      subst hrows
      have hrequests : s₁ = s₂ := by
        obtain ⟨agent₁, hparse₁⟩ := route_family hroute₁
        obtain ⟨agent₂, hparse₂⟩ := route_family hroute₂
        refine request_unique (differs_of_fixed hfixed hsame₁) hsame₂ (fun htarget => ?_)
          ((checkSend_names hsend₁ hk₁).trans (checkSend_names hsend₂ hk₂).symm)
        rw [(checkSend_ok hsend₁).target, (checkSend_ok hsend₂).target] at htarget
        rw [htarget] at hparse₁
        have hfamilies := Except.ok.inj (hparse₁.symm.trans hparse₂)
        rw [(checkSend_ok hsend₁).family, (checkSend_ok hsend₂).family]
        exact congrArg Prod.snd hfamilies
      subst hrequests
      obtain ⟨-, htext₁, hlink₁⟩ := checkSend_body hsend₁
      obtain ⟨-, htext₂, hlink₂⟩ := checkSend_body hsend₂
      refine ⟨sameIdentity_of_checks hcheck₁ hcheck₂ ?_ ?_ ?_, .sent row₁ row s₁ hrow₁ hrow₂
        hfixed.symm hreply₁ hreply₂ (htext₁.trans htext₂.symm)
        ((replyTo_link hlink₁).trans (replyTo_link hlink₂).symm)⟩
      · exact (checkSend_ok hsend₁).source.symm.trans (checkSend_ok hsend₂).source
      · exact (checkSend_ok hsend₁).target.symm.trans (checkSend_ok hsend₂).target
      · exact (checkEvent_type hcheck₁ hsend₁).trans (checkEvent_type hcheck₂ hsend₂).symm

/-- Two accepted requests with one id are one message, in runs where no request crosses. -/
theorem one_message (k : Str) : OneMessage OnItsRoute k := by
  intro db₁ cfg₁ r₁ db₂ cfg₂ r₂ hreach hok₁ h201 hk₁ hrun hok₂ hk₂
  have hreach₁ : Reach postings OnItsRoute (postEvents cfg₁ db₁ r₁).1 :=
    .step (a := .post cfg₁ r₁) hreach hok₁ rfl
  have htidy := tidy_of_reach (hreach₁.run hrun)
  have hgrow := grows_of_run hrun
  have hfirst := accepted_of_status (tidy_of_reach hreach).ids h201 hk₁
  have hsame := postEvents_known hk₂ hok₂ (hfirst.known hgrow)
  refine ⟨hsame.1, hsame.2, fun h201₂ => ?_⟩
  exact hfirst.together (accepted_of_status htidy.ids h201₂ hk₂) htidy hgrow hk₁ hk₂ hsame

/-! ## The same id on both routes -/

/-- A message from `alice` to `bob` on her own instance, with the id of `textBody`. -/
def aliceToLocalBob : Request where
  body := [(lit "source", .str (lit "alice")), (lit "target", .str (lit "bob")),
    (lit "event_id", .str (lit "00000000-0000-4000-8000-000000000001")),
    (lit "payload", .dict [(lit "text", .str (lit "hello"))])]
  bearer := []
  now := noon
  newId := []

/-- The ledger after it. -/
def localLedger : Db := (postEvents serverA {} aliceToLocalBob).1

/-- The id of the message to `bob` is taken once more for a message to `bob@org-b`: both requests
are answered with a 201, and the second adds a queued row. -/
theorem two_messages_one_id : (postEvents serverA {} aliceToLocalBob).2.status = 201 ∧
    (postEvents serverA localLedger aliceToBob).2.status = 201 ∧
    ¬ OneMessage (fun _ _ => True) (lit "00000000-0000-4000-8000-000000000001") := by
  have htake : TakesOutbox serverA localLedger aliceToBob :=
    ⟨eventArgs aliceToBob (lit "alice") (lit "bob@org-b") (lit "message")
        [(lit "text", .str (lit "hello"))], fedA, lit "org-b", aliceRequest (lit "hello"), rfl, rfl,
      ⟨rfl, valid_aliceRequest (by decide) (by decide), rfl, by decide⟩⟩
  have hfirst : (postEvents serverA {} aliceToLocalBob).2.status = 201 := by decide
  refine ⟨hfirst, ?_, fun h => ?_⟩
  · obtain ⟨a, fed, family, s, hcheck, hroute, hq⟩ := htake
    obtain ⟨raw, -, hsend⟩ := federationSend_of_queued hq
    unfold postEvents
    simp only [hcheck, hroute, hsend]
  · have hsame := h {} serverA aliceToLocalBob localLedger serverA aliceToBob (.init ⟨rfl, rfl⟩)
      trivial hfirst rfl .refl trivial rfl
    rcases postEvents_of_takesOutbox htake with ⟨row, hrow, hnew⟩ | ⟨row, hrow, hnew⟩
    · rw [hsame.1] at hrow
      exact hnew hrow
    · rw [hsame.2.1] at hrow
      exact hnew hrow

end Server
end ATalk
