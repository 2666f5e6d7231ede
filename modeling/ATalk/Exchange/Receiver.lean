import ATalk.Adapter.Replies
import ATalk.Exchange
import ATalk.Federation.Bijection
import ATalk.Server.Coupling

/-!
# The inbox of the receiver

What is in the tables of an instance that serves its inbox to any number of callers at once: every
inbound row has the fields of an envelope that was verified, and one local row that says the same;
no other local row names a source abroad; and a call that answers with a success has stored its
event.

* `Admitted` : what the checks of the inbox let through;
* `Filed`    : an inbound row with its local row;
* `Serving`, `serving_of_reach` : the invariant.
-/

namespace ATalk
namespace Exchange

open Text Json Python Calendar ATalk.Core Federation Server Transition Callers Checks

variable {P : Parties} {fed : Runtime} {db db' : Db} {raw : Bytes} {p : InboundParams}
  {f g : EventFields} {inb inb' : InboundRow} {ev : EventRow} {now : Time}

/-! ## What an envelope says -/

theorem domain_get {ms : List (Str × Json)} {k : Str} {x : Json} (h : Domain (.obj ms))
    (hget : get k ms = some x) : Domain x := by
  rw [Domain] at h
  exact (domainMembers_iff.mp h.2 _ (mem_of_get hget)).2

theorem nodup_of_domain {ms : List (Str × Json)} (h : Domain (.obj ms)) : (keys ms).Nodup := by
  rw [Domain] at h
  exact h.1

theorem canonicalBytes_sorted {ms : List (Str × Json)} (h : Domain (.obj ms)) :
    canonicalBytes (sorted ms) = canonicalBytes ms := by
  have hidem := sortKeys_idem _ (tidy_of_domain _ h)
  rw [sortKeys_obj] at hidem
  unfold canonicalBytes dumps
  rw [hidem, sortKeys_obj]

theorem get_sorted_str {ms : List (Str × Json)} {k s : Str} (h : Domain (.obj ms))
    (hget : get k ms = some (.str s)) : get k (sorted ms) = some (.str s) := by
  rw [sorted, get_sorted (nodup_of_domain h), hget]
  rfl

theorem get_sorted_obj {ms ns : List (Str × Json)} {k : Str} (h : Domain (.obj ms))
    (hget : get k ms = some (.obj ns)) : get k (sorted ms) = some (.obj (sorted ns)) := by
  rw [sorted, get_sorted (nodup_of_domain h), hget, Option.map_some, sortKeys_obj]

theorem mem_keys_of_sorted {ms : List (Str × Json)} {k : Str} (h : k ∈ keys (sorted ms)) :
    k ∈ keys ms := by
  rw [sorted] at h
  rw [← keys_sortKeysMembers]
  exact (keys_insertionSort_perm _).mem_iff.mp h

/-- Sorting changes nothing of what an envelope says. -/
theorem reads_sorted {ms : List (Str × Json)} (hms : Domain (.obj ms))
    (h : EventEnvelopeReads ms f) : EventEnvelopeReads (sorted ms) f := by
  obtain ⟨ev, hev, hreads⟩ := h.event
  have hdev := domain_get hms hev
  refine ⟨get_sorted_str hms h.origin, get_sorted_str hms h.keyId, sorted ev,
    get_sorted_obj hms hev, ?_⟩
  obtain ⟨payload, hpayload, hallowed, htext⟩ := hreads.payload
  have hdp := domain_get hdev hpayload
  refine ⟨fun k hk => hreads.allowed k (mem_keys_of_sorted hk), get_sorted_str hdev hreads.eventId,
    get_sorted_str hdev hreads.type, get_sorted_str hdev hreads.source,
    get_sorted_str hdev hreads.target, get_sorted_str hdev hreads.createdAt,
    ⟨sorted payload, get_sorted_obj hdev hpayload,
      fun k hk => hallowed k (mem_keys_of_sorted hk), get_sorted_str hdp htext⟩, ?_⟩
  rw [sorted, get_sorted (nodup_of_domain hdev), hreads.inReplyTo]
  cases f.inReplyTo <;> rfl

/-- What is left of an object of the domain without its signature is in the domain. -/
theorem domain_withoutSig {ms : List (Str × Json)} (h : Domain (.obj ms)) :
    Domain (.obj (withoutSig ms)) := by
  rw [Domain] at h ⊢
  refine ⟨?_, domainMembers_iff.mpr fun m hm => domainMembers_iff.mp h.2 m (List.mem_filter.mp hm).1⟩
  exact (List.Sublist.map Prod.fst List.filter_sublist).nodup h.1

/-- A parsed envelope is in the domain. -/
theorem parseEvent_domain {env : Envelope} (h : parseEvent raw = .ok env) :
    Domain (.obj env.signed) := by
  obtain ⟨-, ms, hparse, hvalid⟩ := parseWith_ok_iff.mp h
  obtain ⟨-, -, -, -, sigStr, sig, -, -, rfl⟩ := validateEventEnvelope_ok_iff.mp hvalid
  exact domain_withoutSig (parseStrict_domain hparse).1

/-! ## What the inbox admits -/

/-- The parameters of a body that passes the checks: it parses, a registered key verifies it, and it
is for this family. -/
def Admitted (fed : Runtime) (raw : Bytes) (p : InboundParams) : Prop :=
  ∃ env rec, parseEvent raw = .ok env ∧ lookupSigner fed env = some rec ∧
    verifyEnvelope fed rec env = .ok () ∧ p = inboundParams env rec ∧
    (splitAddress p.targetAddr).2 = fed.identity.family

theorem admitted_of_admitInbound {limits : RateLimits} {env : Envelope}
    (hparse : parseEvent raw = .ok env) (h : admitInbound fed db limits env = .ok p) :
    Admitted fed raw p := by
  unfold admitInbound at h
  split at h
  · cases h
  · next rec hrec =>
    split at h
    · cases h
    · next hverify =>
      split_ifs at h with hrate
      simp only at h
      split_ifs at h with hfamily hmember
      cases h
      exact ⟨env, rec, hparse, hrec, hverify, rfl, not_not.mp hfamily⟩

/-- The canonical bytes of the event of an envelope. -/
def eventJcsOf (signedJson : List (Str × Json)) : Bytes :=
  (canonicalBytes (objMember (lit "event") signedJson)).getD []

/-- The arguments of `receive_event` are the fields of the envelope. -/
structure ParamsOf (f : EventFields) (p : InboundParams) : Prop where
  origin : p.origin = f.origin
  eventId : p.eventId = f.eventId
  source : p.sourceAddr = f.source
  target : p.targetAddr = f.target
  targetLocal : p.targetLocal = (splitAddress f.target).1
  type : p.type = f.type
  text : p.text = f.text
  createdAt : p.createdAt = f.createdAt
  jcs : p.eventJcs = eventJcsOf p.signedJson
  reads : EventEnvelopeReads p.signedJson f

theorem paramsOf_reads {env : Envelope} {rec : PeerRecord} (hdomain : Domain (.obj env.signed))
    (h : EventEnvelopeReads env.signed f) : ParamsOf f (inboundParams env rec) := by
  obtain ⟨ev, hev, hreads⟩ := h.event
  have hobj : objMember (lit "event") env.signed = ev := by rw [objMember, hev]
  have hstr : ∀ k s ms, get k ms = some (.str s) → (strMember k ms).getD [] = s := by
    intro k s ms hk
    rw [strMember, hk, Option.getD_some]
  obtain ⟨payload, hpayload, -, htext⟩ := hreads.payload
  have hpay : objMember (lit "payload") ev = payload := by rw [objMember, hpayload]
  have htarget := hstr _ _ _ hreads.target
  have hdev := domain_get hdomain hev
  have hjcs : (canonicalBytes ev).getD [] = eventJcsOf (sorted env.signed) := by
    rw [eventJcsOf, objMember, get_sorted_obj hdomain hev]
    simp only
    rw [canonicalBytes_sorted hdev]
  refine ⟨hstr _ _ _ h.origin, ?_, ?_, ?_, ?_, ?_, ?_, ?_, ?_, reads_sorted hdomain h⟩ <;>
    simp only [inboundParams, hobj, hpay]
  · exact hstr _ _ _ hreads.eventId
  · exact hstr _ _ _ hreads.source
  · exact htarget
  · rw [htarget]
  · exact hstr _ _ _ hreads.type
  · exact hstr _ _ _ htext
  · exact hstr _ _ _ hreads.createdAt
  · exact hjcs

theorem Admitted.reads (h : Admitted fed raw p) : ∃ f, f.Valid ∧ ParamsOf f p := by
  obtain ⟨env, rec, hparse, -, -, rfl, -⟩ := h
  obtain ⟨f, hreads, hvalid⟩ := Adapter.parseEvent_reads hparse
  exact ⟨f, hvalid, paramsOf_reads (parseEvent_domain hparse) hreads⟩

/-- The record that verifies an envelope is that of the family it is from. -/
theorem lookupSigner_family {env : Envelope} {rec : PeerRecord}
    (h : lookupSigner fed env = some rec) :
    rec.family = (strMember (lit "origin") env.signed).getD [] := by
  unfold lookupSigner PeerRegistry.lookup at h
  split at h
  · next found hfound =>
    split_ifs at h
    cases h
    unfold PeerRegistry.receiptsPeer at hfound
    simpa using List.find?_some hfound
  · cases h

/-! ## Stored rows -/

/-- The columns of an inbound row that its envelope decides. -/
structure FiledAs (f : EventFields) (inb : InboundRow) : Prop where
  valid : f.Valid
  origin : inb.origin = f.origin
  eventId : inb.eventId = f.eventId
  target : inb.target = f.target
  jcs : inb.eventJcs = eventJcsOf inb.signedJson
  reads : EventEnvelopeReads inb.signedJson f

/-- The local row of an event from abroad. -/
structure LocalOf (f : EventFields) (ev : EventRow) : Prop where
  eventId : ev.eventId = f.eventId
  source : ev.source = f.source
  target : ev.target = (splitAddress f.target).1
  type : ev.type = f.type
  createdAt : ev.createdAt = f.createdAt
  payload : ev.payload = (lit "text", .str f.text) ::
    (f.inReplyTo.map fun s => (lit "in_reply_to", Val.str s)).toList

def Filed (db : Db) (inb : InboundRow) : Prop :=
  ∃ f, FiledAs f inb ∧ ∃ ev ∈ db.events, LocalOf f ev

theorem filedAs_inboundRow (hf : f.Valid) (h : ParamsOf f p) (db : Db) (now : Time) :
    FiledAs f (inboundRow db p now) := ⟨hf, h.origin, h.eventId, h.target, h.jcs, h.reads⟩

theorem localOf_localRow (hf : f.Valid) (h : ParamsOf f p) (db : Db) (seq : ℤ) (now : Time) :
    LocalOf f (localRow db p seq now) := by
  refine ⟨h.eventId, h.source, h.targetLocal, h.type, h.createdAt, ?_⟩
  obtain ⟨ev, hev, hreads⟩ := h.reads.event
  have hlink : strMember (lit "in_reply_to") (objMember (lit "event") p.signedJson) =
      f.inReplyTo := by
    rw [objMember, hev, strMember]
    simp only [hreads.inReplyTo]
    cases f.inReplyTo <;> rfl
  show localPayload p = _
  unfold localPayload
  rw [hlink, h.text]
  -- the empty text would be no link, and no UUID is empty
  cases hreply : f.inReplyTo with
  | none => rfl
  | some s =>
    obtain ⟨-, hs⟩ := hf.inReplyTo s hreply
    cases s with
    | nil => exact absurd rfl (Adapter.uuidRe_ne_nil hs)
    | cons c s => rfl

theorem FiledAs.congr (h : FiledAs f inb) (hsame : InboundRow.fixed inb' = InboundRow.fixed inb) :
    FiledAs f inb' := by
  have horigin : inb'.origin = inb.origin := (congrArg InboundRow.origin hsame :)
  have heventId : inb'.eventId = inb.eventId := (congrArg InboundRow.eventId hsame :)
  have htarget : inb'.target = inb.target := (congrArg InboundRow.target hsame :)
  have hjcs : inb'.eventJcs = inb.eventJcs := (congrArg InboundRow.eventJcs hsame :)
  have hsigned : inb'.signedJson = inb.signedJson := (congrArg InboundRow.signedJson hsame :)
  exact ⟨h.valid, horigin.trans h.origin, heventId.trans h.eventId, htarget.trans h.target,
    hjcs.trans (hsigned ▸ h.jcs), hsigned ▸ h.reads⟩

/-! ## The calls -/

/-- Where a call is, it has what got it there: the parameters that were admitted, or a stored event
once it is to be answered with a success. -/
def Handled (fed : Runtime) (db : Db) (c : InboxCall) : InboxPhase → Prop
  | .start => True
  | .receive p => Admitted fed c.raw p
  | .classify p _ => Admitted fed c.raw p
  | .conflict p _ _ => Admitted fed c.raw p
  | .pending reply => Answers db c reply
  | .deliver _ reply => Answers db c reply
  | .mark _ _ reply => Answers db c reply
  | .done reply => Answers db c reply
where
  /-- A success is about an event that is stored. -/
  Answers (db : Db) (c : InboxCall) (reply : Reply) : Prop :=
    reply.status = 200 → ∃ p, Admitted fed c.raw p ∧
      ∃ inb ∈ db.federationInbound, inb.origin = p.origin ∧ inb.eventId = p.eventId

/-- What an own step of a call does: it stores the event, writes a conflict, or delivers. -/
theorem inboxStep_effect (envr : Env) (fed : Runtime) (c : InboxCall) (now : Time) (db : Db)
    (p : InboxPhase) :
    (∃ q, p = .receive q ∧ Stored db q now (inboxStep envr fed c now db p).1) ∨
      (∃ rows, (inboxStep envr fed c now db p).1 = { db with federationInboundConflicts := rows }) ∨
      Delivered db (inboxStep envr fed c now db p).1 := by
  have hsame : (∃ rows, db = { db with federationInboundConflicts := rows }) ∨ Delivered db db :=
    .inr (.refl db)
  cases p with
  | receive q =>
    simp only [inboxStep]
    split
    · exact .inr hsame
    · next db' row htxn => exact .inl ⟨q, rfl, (receiveTxn_committed htxn).1⟩
    · exact .inr hsame
  | classify q seen =>
    simp only [inboxStep]
    split
    · exact .inr hsame
    · split_ifs <;> exact .inr hsame
  | conflict q reason seen => exact .inr (.inl ⟨_, rfl⟩)
  | deliver rows reply =>
    cases rows with
    | nil => exact .inr hsame
    | cons row rows =>
      simp only [inboxStep]
      split <;> exact .inr hsame
  | mark row rows reply => exact .inr (.inr (markDelivered_delivered db row.origin row.eventId))
  | _ => exact .inr hsame

/-- The rows of one state are there in the other. -/
def Rises (db db' : Db) : Prop :=
  ∀ inb ∈ db.federationInbound, ∃ inb' ∈ db'.federationInbound,
    InboundRow.fixed inb' = InboundRow.fixed inb

theorem Rises.of_fixed (h : db'.federationInbound.map InboundRow.fixed =
    db.federationInbound.map InboundRow.fixed) : Rises db db' := by
  intro inb hinb
  obtain ⟨inb', hinb', hsame⟩ := exists_of_map_eq h.symm hinb
  exact ⟨inb', hinb', hsame⟩

theorem Rises.of_stored (h : Stored db p now db') : Rises db db' := by
  intro inb hinb
  rw [h.inbound]
  exact ⟨inb, List.mem_append_left _ hinb, rfl⟩

theorem Rises.trans {db'' : Db} (h : Rises db db') (h' : Rises db' db'') : Rises db db'' := by
  intro inb hinb
  obtain ⟨inb', hinb', hsame⟩ := h inb hinb
  obtain ⟨inb'', hinb'', hsame'⟩ := h' inb' hinb'
  exact ⟨inb'', hinb'', hsame'.trans hsame⟩

theorem Rises.keys {origin eventId : Str} (h : Rises db db')
    (hinb : ∃ inb ∈ db.federationInbound, inb.origin = origin ∧ inb.eventId = eventId) :
    ∃ inb ∈ db'.federationInbound, inb.origin = origin ∧ inb.eventId = eventId := by
  obtain ⟨inb, hmem, rfl, rfl⟩ := hinb
  obtain ⟨inb', hmem', hsame⟩ := h inb hmem
  exact ⟨inb', hmem', (congrArg InboundRow.origin hsame :), (congrArg InboundRow.eventId hsame :)⟩

theorem Handled.mono {c : InboxCall} {q : InboxPhase} (hrises : Rises db db')
    (h : Handled fed db c q) : Handled fed db' c q := by
  have hanswers : ∀ reply, Handled.Answers fed db c reply → Handled.Answers fed db' c reply := by
    intro reply hreply h200
    obtain ⟨p, hp, hinb⟩ := hreply h200
    exact ⟨p, hp, hrises.keys hinb⟩
  -- what was admitted is no matter of the tables
  cases q with
  | pending reply => exact hanswers reply h
  | deliver rows reply => exact hanswers reply h
  | mark row rows reply => exact hanswers reply h
  | done reply => exact hanswers reply h
  | _ => exact h

/-- Every step of a call keeps what it has. -/
theorem handled_step (envr : Env) {c : InboxCall} {q : InboxPhase} (now : Time)
    (h : Handled fed db c q) :
    Handled fed (inboxStep envr fed c now db q).1 c (inboxStep envr fed c now db q).2 := by
  have hrefused : ∀ reply : Reply, reply.status ≠ 200 → Handled.Answers fed db c reply :=
    fun reply hne h200 => absurd h200 hne
  cases q with
  | start =>
    simp only [inboxStep, inboxChecks]
    split_ifs with hconn
    · exact hrefused _ (by decide)
    · split
      · next e _ =>
        refine hrefused _ ?_
        cases e with
        | federation e => exact fedErrorStatus_ne_200 e
        | unicodeEncode => decide
      · next env hparse =>
        split
        · next reply hpass => exact hrefused _ (admitInbound_error hpass)
        · next p hpass => exact admitted_of_admitInbound hparse hpass
  | receive p =>
    simp only [inboxStep]
    split
    · exact hrefused _ (by decide)
    · next db' row htxn =>
      obtain ⟨hstored, -⟩ := receiveTxn_committed htxn
      intro _
      refine ⟨p, h, inboundRow db p now, ?_, rfl, rfl⟩
      rw [hstored.inbound]
      exact List.mem_append_right _ (List.mem_singleton_self _)
    · exact h
  -- whoever finds the row in the table answers about a stored event
  | classify p seen =>
    simp only [inboxStep]
    split
    · exact h
    · next row hfind =>
      have hkept : ∀ reply, Handled.Answers fed db c reply := by
        intro reply _
        have hkey := List.find?_some hfind
        rw [Bool.and_eq_true, decide_eq_true_eq, decide_eq_true_eq] at hkey
        exact ⟨p, h, row, List.mem_of_find?_eq_some hfind, hkey⟩
      split_ifs
      · exact hkept _
      · exact hkept _
      · exact h
  | conflict p reason seen => exact fun h200 => absurd h200 (by decide)
  | pending reply => exact h
  | deliver rows reply =>
    cases rows with
    | nil => exact h
    | cons row rows =>
      simp only [inboxStep]
      split
      · exact h
      · exact h
      · exact h
  | mark row rows reply =>
    exact Handled.mono (q := .deliver rows reply)
      (.of_fixed (markDelivered_delivered db row.origin row.eventId).rows) h
  | done reply => exact h

/-! ## The tables -/

/-- Inbound rows and local rows belong together, and say what was signed; no other local row names a
source abroad. -/
structure Held (db : Db) : Prop where
  paired : Paired db
  filed : ∀ inb ∈ db.federationInbound, Filed db inb
  abroad : ∀ ev ∈ db.events, ofChar '@' ∈ ev.source →
    ∃ inb ∈ db.federationInbound, inb.eventId = ev.eventId

theorem Filed.congr (h : Filed db inb) (hsame : InboundRow.fixed inb' = InboundRow.fixed inb)
    (hevents : ∀ ev ∈ db.events, ev ∈ db'.events) : Filed db' inb' := by
  obtain ⟨f, hf, ev, hev, hlocal⟩ := h
  exact ⟨f, hf.congr hsame, ev, hevents ev hev, hlocal⟩

/-- Inbound rows keep their fixed columns, and bare local events come in. -/
theorem Held.carry (h : Held db) (hpaired : Paired db')
    (hinbound : db'.federationInbound.map InboundRow.fixed =
      db.federationInbound.map InboundRow.fixed)
    (hevents : ∃ new, db'.events = db.events ++ new ∧ ∀ ev ∈ new, ofChar '@' ∉ ev.source) :
    Held db' := by
  -- the new rows have bare sources, so a row from abroad is an old one
  obtain ⟨new, hnew, hbare⟩ := hevents
  refine ⟨hpaired, fun inb' hinb' => ?_, fun ev hev hat => ?_⟩
  · obtain ⟨inb, hinb, hsame⟩ := exists_of_map_eq hinbound hinb'
    exact (h.filed inb hinb).congr hsame.symm fun ev hev => hnew ▸ List.mem_append_left _ hev
  · rw [hnew] at hev
    rcases List.mem_append.mp hev with hold | hnew
    · obtain ⟨inb, hinb, hid⟩ := h.abroad ev hold hat
      obtain ⟨inb', hinb', hsame⟩ := exists_of_map_eq hinbound.symm hinb
      exact ⟨inb', hinb', (congrArg InboundRow.eventId hsame).trans hid⟩
    · exact absurd hat (hbare ev hnew)

theorem Held.stored (h : Held db) (hadmitted : Admitted fed raw p) (hs : Stored db p now db') :
    Held db' := by
  obtain ⟨seq, hevents⟩ := hs.event
  obtain ⟨f, hvalid, hparams⟩ := hadmitted.reads
  refine ⟨h.paired.store hs, fun inb hinb => ?_, fun ev hev hat => ?_⟩
  · rw [hs.inbound] at hinb
    rcases List.mem_append.mp hinb with hold | hnew
    · exact (h.filed inb hold).congr rfl fun ev hev => hevents ▸ List.mem_append_left _ hev
    · rw [List.mem_singleton.mp hnew]
      refine ⟨f, filedAs_inboundRow hvalid hparams db now, localRow db p seq now, ?_,
        localOf_localRow hvalid hparams db seq now⟩
      rw [hevents]
      exact List.mem_append_right _ (List.mem_singleton_self _)
  · rw [hs.inbound]
    rw [hevents] at hev
    rcases List.mem_append.mp hev with hold | hnew
    · obtain ⟨inb, hinb, hid⟩ := h.abroad ev hold hat
      exact ⟨inb, List.mem_append_left _ hinb, hid⟩
    · rw [List.mem_singleton.mp hnew]
      exact ⟨_, List.mem_append_right _ (List.mem_singleton_self _), rfl⟩

theorem receipts_rows (fed : Runtime) (db : Db) (limits : RateLimits) (raw : Bytes)
    (woken : NotificationRow → Bool) (cursor : Option HintCursor) (now : Time) :
    (federationReceipts fed db limits raw woken cursor now).1.federationInbound =
        db.federationInbound ∧
      (federationReceipts fed db limits raw woken cursor now).1.events = db.events := by
  rcases federationReceipts_cases fed db limits raw woken cursor now with ⟨hdb, -⟩ |
    ⟨env, p, out, rec, db₁, status, -, -, -, hcall, hres⟩
  · rw [hdb]
    exact ⟨rfl, rfl⟩
  · obtain ⟨hinbound, hevents, -⟩ := Marks.same (hintPages_marks woken 50 db₁ cursor)
    have hrecord : db₁.federationInbound = db.federationInbound ∧ db₁.events = db.events := by
      rw [recordReceiptIn_eq] at hcall
      split at hcall
      · cases hcall
        unfold mergeReceipt
        split_ifs <;> exact ⟨rfl, rfl⟩
      · cases hcall
        exact storeReceipt_same fed p now
    rw [hres]
    exact ⟨hinbound.trans hrecord.1, hevents.trans hrecord.2⟩

/-- What the receiver does beside its inbox leaves the inbound rows and adds bare events. -/
theorem beside_rows (h : Beside db db') :
    db'.federationInbound.map InboundRow.fixed = db.federationInbound.map InboundRow.fixed ∧
      ∃ new, db'.events = db.events ++ new ∧ ∀ ev ∈ new, ofChar '@' ∉ ev.source := by
  have hnone : ∃ new, db.events = db.events ++ new ∧ ∀ ev ∈ new, ofChar '@' ∉ ev.source :=
    ⟨[], (List.append_nil _).symm, List.forall_mem_nil _⟩
  obtain ⟨act, hstep, hact⟩ := h
  cases act with
  | inbox => exact absurd hact id
  | receipts fed limits raw woken cursor now =>
    cases hstep
    obtain ⟨hinbound, hevents⟩ := receipts_rows fed db limits raw woken cursor now
    rw [hinbound, hevents]
    exact ⟨rfl, hnone⟩
  | post cfg r =>
    cases hstep
    rcases postEvents_cases cfg db r with hr | ⟨a, row, hcheck, -, -, hc, -⟩ |
      ⟨a, fed, family, s, raw, -, -, -, -, hout⟩
    · rcases hr with hr | ⟨audit, -, hr⟩
      · rw [hr]
        exact ⟨rfl, hnone⟩
      · rw [hr]
        exact ⟨rfl, hnone⟩
    · refine ⟨by rw [hc.frame], [row], hc.events, List.forall_mem_singleton.mpr ?_⟩
      rw [show row.source = a.source from (congrArg EventRow.source hc.columns :)]
      -- a request of the receiver's own names no source abroad
      exact hact a.source (checkEvent_ok hcheck).1
    · rw [hout]
      exact ⟨rfl, hnone⟩
  | ack env fed r path =>
    rw [ackWrite_frame hstep]
    exact ⟨rfl, hnone⟩
  | deliver =>
    cases hstep
    have hd := deliverPending_delivered db
    exact ⟨hd.rows, by rw [hd.frame]; exact hnone⟩
  | other db₁ =>
    cases hstep
    exact ⟨rfl, hnone⟩

theorem Held.beside (h : Held db) (hbeside : Beside db db') : Held db' ∧ Rises db db' := by
  obtain ⟨hinbound, hevents⟩ := beside_rows hbeside
  obtain ⟨act, hstep, -⟩ := hbeside
  exact ⟨h.carry (h.paired.step hstep) hinbound hevents, .of_fixed hinbound⟩

/-- The inbox keeps the tables, and each call what it has. -/
theorem inbox_keeps (P : Parties) : (inboxCalls P.env P.fed).Keeps peering.init Beside
    (fun _ _ _ _ => True) Held (Handled P.fed) Rises where
  refl _ := .of_fixed rfl
  trans _ _ _ h h' := h.trans h'
  init db h := by
    refine ⟨paired_of_reach (.init h), fun inb hinb => ?_, fun ev hev => ?_⟩
    · rw [h.2.1] at hinb
      exact absurd hinb List.not_mem_nil
    · rw [h.1] at hev
      exact absurd hev List.not_mem_nil
  env _ _ h hbeside := h.beside hbeside
  start _ _ _ := trivial
  mono _ _ _ _ hrises h := h.mono hrises
  step db c now q h hq hnone _ := by
    refine (and_left_comm.mp ⟨handled_step P.env now hq, ?_⟩)
    rcases inboxStep_effect P.env P.fed c now db q with ⟨p, rfl, hs⟩ | ⟨rows, hrows⟩ | hd
    · exact ⟨h.stored hq hs, .of_stored hs⟩
    · show Held (inboxStep P.env P.fed c now db q).1 ∧ Rises db (inboxStep P.env P.fed c now db q).1
      rw [hrows]
      exact ⟨h.carry (h.paired.same rfl rfl rfl rfl) rfl
        ⟨[], (List.append_nil _).symm, List.forall_mem_nil _⟩, .of_fixed rfl⟩
    · refine ⟨h.carry (h.paired.deliver hd) hd.rows ⟨[], ?_, List.forall_mem_nil _⟩,
        .of_fixed hd.rows⟩
      show (inboxStep P.env P.fed c now db q).1.events = db.events ++ []
      rw [hd.frame, List.append_nil]

/-- What holds in every reached state of the receiver. -/
structure Serving (fed : Runtime) (w : World Db InboxCall InboxPhase) : Prop where
  held : Held w.store
  handled : ∀ c ∈ w.calls, Handled fed w.store c.1 c.2

theorem serving_of_reach {w : World Db InboxCall InboxPhase} (h : Reachable (inbox P) w) :
    Serving P.fed w := by
  rw [Reachable, ← onAdvance_true] at h
  obtain ⟨hheld, hhandled⟩ := (inbox_keeps P).reach h
  exact ⟨hheld, hhandled⟩

end Exchange
end ATalk
