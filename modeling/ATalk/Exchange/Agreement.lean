import ATalk.Exchange.Receiver
import ATalk.Exchange.Sender

/-!
# What two instances agree on

In every reached state of the exchange the receiver has of the sender's events only such as the
sender queued for it, each once and as it was signed; and what the sender has marked as sent is
stored at the receiver.

* `Copies`                        : an inbound row is that of an outbound row;
* `Turns`                         : what a step of the sender does to its tables;
* `Exchanged`, `exchanged_of_reach` : the invariant.
-/

namespace ATalk
namespace Exchange

open Text Json Python Calendar ATalk.Core Federation Server Transition Callers Checks

variable {P : Parties} {db db' : Db} {row row' : OutboundRow} {inb inb' : InboundRow} {raw : Bytes}
  {p : InboundParams} {n n' : Node} {s s' : State}

/-! ## Copies -/

/-- The receiver has the event of the row, as it was signed. -/
structure Copies (row : OutboundRow) (inb : InboundRow) : Prop where
  eventId : inb.eventId = row.eventId
  target : inb.target = row.target
  signedJson : inb.signedJson = row.signedJson
  sig : inb.sig = row.sig

theorem Copies.congr (h : Copies row inb) (hrow : OutboundRow.fixed row' = OutboundRow.fixed row)
    (hinb : InboundRow.fixed inb' = InboundRow.fixed inb) : Copies row' inb' where
  eventId := (congrArg InboundRow.eventId hinb :).trans
    (h.eventId.trans (congrArg OutboundRow.eventId hrow :).symm)
  target := (congrArg InboundRow.target hinb :).trans
    (h.target.trans (congrArg OutboundRow.target hrow :).symm)
  signedJson := (congrArg InboundRow.signedJson hinb :).trans
    (h.signedJson.trans (congrArg OutboundRow.signedJson hrow :).symm)
  sig := (congrArg InboundRow.sig hinb :).trans
    (h.sig.trans (congrArg OutboundRow.sig hrow :).symm)

theorem sorted_sorted {ms : List (Str × Json)} (h : Domain (.obj ms)) :
    sorted (sorted ms) = sorted ms := by
  have hidem := sortKeys_idem _ (tidy_of_domain _ h)
  rw [sortKeys_obj, sortKeys_obj] at hidem
  exact Json.obj.inj hidem

/-- Objects with the same canonical bytes are the same, once sorted. -/
theorem sorted_of_canonicalBytes {ms ns : List (Str × Json)} (hms : Domain (.obj ms))
    (hns : Domain (.obj ns)) (h : canonicalBytes ms = canonicalBytes ns) :
    sorted ms = sorted ns := by
  have hequal := (canonicalBytes_eq_iff hms hns).mp h
  have hsame := (equal_iff_sortKeys _ _ (tidy_of_domain _ hms) (tidy_of_domain _ hns)).mp hequal
  rw [sortKeys_obj, sortKeys_obj] at hsame
  exact Json.obj.inj hsame

theorem Composed.sorted_signedJson (h : Composed P row) : sorted row.signedJson = row.signedJson := by
  obtain ⟨f, hf⟩ := h
  rw [hf.signed, sorted_sorted (domain_signedEvent hf.valid)]

/-- Who reads the signed object of a row reads what was composed. -/
theorem Composed.params {g : EventFields} (h : Composed P row) (hparams : ParamsOf g p)
    (hsigned : p.signedJson = row.signedJson) :
    p.origin = P.sender ∧ p.eventId = row.eventId ∧ p.targetAddr = row.target := by
  obtain ⟨f, hf⟩ := h
  -- one signed object, read twice, is read as the same fields
  have hreads : EventEnvelopeReads (signedEvent f) f :=
    ⟨rfl, rfl, eventObject f, rfl, eventReads_eventObject f⟩
  have hsame : g = f := by
    refine hparams.reads.injective ?_
    rw [hsigned, hf.signed]
    exact reads_sorted (domain_signedEvent hf.valid) hreads
  subst hsame
  exact ⟨hparams.origin.trans hf.origin, hparams.eventId.trans hf.eventId.symm,
    hparams.target.trans hf.target.symm⟩

/-- The receiver reads the envelope of a row as what was signed. -/
theorem Composed.parsed {env : Envelope} (h : Composed P row)
    (hparse : parseEvent row.envelopeJson = .ok env) :
    env.signed = row.signedJson ∧ env.sigStr = row.sig := by
  obtain ⟨f, hf⟩ := h
  have hbytes := hf.bytes
  rw [hf.sig] at hbytes
  obtain ⟨-, rfl⟩ := (parseEvent_composed hf.valid hbytes).mp hparse
  exact ⟨hf.signed.symm, hf.sig.symm⟩

/-- An envelope of the sender that the inbox admits is about the event of its row. -/
theorem Admitted.composed (h : Admitted P.fed row.envelopeJson p) (hrow : Composed P row) :
    p.origin = P.sender ∧ p.eventId = row.eventId := by
  obtain ⟨env, rec, hparse, -, -, rfl, -⟩ := h
  obtain ⟨f, hreads, -⟩ := Adapter.parseEvent_reads hparse
  have hsigned : (inboundParams env rec).signedJson = row.signedJson := by
    show sorted env.signed = _
    rw [(hrow.parsed hparse).1, hrow.sorted_signedJson]
  obtain ⟨horigin, heventId, -⟩ :=
    hrow.params (paramsOf_reads (parseEvent_domain hparse) hreads) hsigned
  exact ⟨horigin, heventId⟩

/-- What is on the wire is the envelope of a row for the receiver. -/
def OnWire (P : Parties) (db : Db) (wire : List Bytes) : Prop :=
  ∀ w ∈ wire, ∃ row ∈ db.federationOutbound, row.targetFamily = P.receiver ∧ row.envelopeJson = w

/-- What is admitted as the sender's, and genuine, is a copy of a row. -/
theorem Admitted.genuine {wire : List Bytes} (h : Admitted P.fed raw p)
    (hgenuine : P.Genuine wire raw) (horigin : p.origin = P.sender)
    (hwire : OnWire P db wire) (hcomposed : ∀ row ∈ db.federationOutbound, Composed P row) :
    ∃ row ∈ db.federationOutbound, row.targetFamily = P.receiver ∧ p.eventId = row.eventId ∧
      p.targetAddr = row.target ∧ p.signedJson = row.signedJson ∧ p.sig = row.sig := by
  obtain ⟨env, rec, hparse, hlookup, hverify, rfl, -⟩ := h
  obtain ⟨w, hw, env', hparse', hbytes, hsig⟩ :=
    hgenuine env rec hparse hlookup ((lookupSigner_family hlookup).trans horigin) hverify
  obtain ⟨row, hrow, hfamily, rfl⟩ := hwire w hw
  -- the verified bytes are those of an envelope on the wire, and that one is of a row
  obtain ⟨hsigned, hrowSig⟩ := (hcomposed row hrow).parsed hparse'
  have hsame : (inboundParams env rec).signedJson = row.signedJson := by
    show sorted env.signed = _
    rw [← sorted_of_canonicalBytes (parseEvent_domain hparse') (parseEvent_domain hparse) hbytes,
      hsigned, (hcomposed row hrow).sorted_signedJson]
  obtain ⟨f, hreads, -⟩ := Adapter.parseEvent_reads hparse
  obtain ⟨-, heventId, htarget⟩ :=
    (hcomposed row hrow).params (paramsOf_reads (parseEvent_domain hparse) hreads) hsame
  exact ⟨row, hrow, hfamily, heventId, htarget, hsame, hsig.symm.trans hrowSig⟩

/-! ## A step of the sender -/

/-- The rows after a step are those before it, with a new one, or with one written that the worker
had in its hands. -/
inductive Turned (P : Parties) (n n' : Node) : Prop where
  | same (hrows : n'.db.federationOutbound = n.db.federationOutbound)
      (hplace : n'.place = n.place ∨ ∀ row answer rows, n'.place ≠ .answered row answer rows)
  | queued (row : OutboundRow)
      (hrows : n'.db.federationOutbound = n.db.federationOutbound ++ [row])
      (hcomposed : Composed P row) (hpending : row.status = .pending)
      (hfresh : ∀ q ∈ n.db.federationOutbound, q.eventId ≠ row.eventId)
      (hplace : n'.place = n.place)
  | wrote (row : OutboundRow) (status : SendStatus) (hrow : row ∈ n.db.federationOutbound)
      (hpending : row.status = .pending) (hcloses : Closes row.eventId status n.db n'.db)
      (hplace : ∀ row answer rows, n'.place ≠ .answered row answer rows)
      (hsent : status = .sent → ∃ rows, n.place = .answered row (.ok .sent) rows)

structure Turns (P : Parties) (n n' : Node) : Prop where
  moves : ∃ label, Moves P.cap n label n'
  notifies : ∃ act, Notifies P.uuid5 n.db act n'.db
  addressed : Notified P.uuid5 n.db → Addressed n.db → Addressed n'.db
  turned : Turned P n n'

/-- A request, or another write, that leaves the rows alone. -/
theorem aside_turns (huuid : Function.Injective P.uuid5)
    (hrows : db.federationOutbound = n.db.federationOutbound)
    (hnotifies : ∃ act, Notifies P.uuid5 n.db act db) : Turns P n { n with db := db } where
  moves := ⟨.silent, .write hrows⟩
  notifies := hnotifies
  addressed hnotified haddressed := by
    obtain ⟨act, hact⟩ := hnotifies
    exact haddressed.aside huuid hnotified hact hrows
  turned := .same hrows (.inl rfl)

theorem post_turns (huuid : Function.Injective P.uuid5) {cfg : ServerConfig}
    (hcfg : P.Configures cfg) (n : Node) (r : Request) :
    Turns P n { n with db := (postEvents cfg n.db r).1 } := by
  rcases postEvents_rows hcfg n.db r with ⟨hrows, hnotifies⟩ |
    ⟨fed, p, row, hcap, hfed, hid, henqueue, hdb, hcomposed, hpending, hfresh⟩
  · exact aside_turns huuid hrows ⟨.other, hnotifies _⟩
  · have hstep : enqueueStep n.db p (enqueueOutbound fed n.db p r.now) =
        ((postEvents cfg n.db r).1, .committed p.eventId p.envelopeJson) := by
      rw [henqueue]
      rfl
    refine ⟨⟨_, .enqueue hcap hstep⟩, ⟨.other, .enqueue hfed hid henqueue⟩, fun _ h => ?_,
      .queued row (by rw [hdb]) hcomposed hpending hfresh rfl⟩
    -- nobody is told of a queued row
    show Addressed (postEvents cfg n.db r).1
    rw [hdb]
    exact h.carry (fun q hq => ⟨q, List.mem_append_left _ hq, rfl, rfl⟩)
      fun m hm hkind => .inl ⟨m, hm, hkind, rfl, rfl⟩

theorem work_turns (hs : Orderly P.cap n) (h : Works n n') : Turns P n n' := by
  have hmoves : Moves P.cap n .silent n' := h.moves
  cases h.cases hs with
  | moved hdb hplace =>
    refine ⟨⟨_, hmoves⟩, ⟨.other, ?_⟩, fun _ h => hdb ▸ h, .same (by rw [hdb]) (.inr hplace)⟩
    rw [hdb]
    exact .write rfl rfl rfl rfl rfl
  | wrote row status hrow hpending hcloses hnotifies haddressed hplace hsent =>
    refine ⟨⟨_, hmoves⟩, ⟨.other, hnotifies _⟩, fun _ => haddressed,
      .wrote row status hrow hpending hcloses (fun _ _ _ hanswered => ?_) hsent⟩
    -- after a write the worker has the rest of its page, and no answer
    obtain ⟨rows, hpage⟩ := hplace
    rw [hpage] at hanswered
    cases hanswered

/-- Rows stay, with what was composed. -/
theorem Turned.carries (h : Turned P n n') (hrow : row ∈ n.db.federationOutbound) :
    ∃ row' ∈ n'.db.federationOutbound, OutboundRow.fixed row' = OutboundRow.fixed row := by
  cases h with
  | same hrows => exact ⟨row, hrows ▸ hrow, rfl⟩
  | queued new hrows => exact ⟨row, hrows ▸ List.mem_append_left _ hrow, rfl⟩
  | wrote written status hwritten hpending hcloses =>
    obtain ⟨row', hrow', hfixed, -⟩ := hcloses.carries hrow
    exact ⟨row', hrow', hfixed⟩

/-- A row was there, and was sent or had its answer if it is sent now; or it is new. -/
theorem Turned.comes (hs : Orderly P.cap n) (h : Turned P n n')
    (hrow : row' ∈ n'.db.federationOutbound) :
    (∃ row ∈ n.db.federationOutbound, OutboundRow.fixed row' = OutboundRow.fixed row ∧
      (row'.status = .sent → row.status = .sent ∨
        ∃ rows, n.place = .answered row (.ok .sent) rows)) ∨
      Composed P row' ∧ row'.status = .pending := by
  cases h with
  | same hrows => exact .inl ⟨row', hrows ▸ hrow, rfl, .inl⟩
  | queued new hrows hcomposed hpending =>
    rw [hrows] at hrow
    rcases List.mem_append.mp hrow with hold | hnew
    · exact .inl ⟨row', hold, rfl, .inl⟩
    · rw [List.mem_singleton.mp hnew]
      exact .inr ⟨hcomposed, hpending⟩
  | wrote written status hwritten hpending hcloses hplace hsent =>
    obtain ⟨row, hold, hfixed, hstatus⟩ := hcloses.comes hrow
    refine .inl ⟨row, hold, hfixed, fun h => ?_⟩
    split_ifs at hstatus with hid
    · -- the row that is written as sent is the one with the answer
      obtain ⟨rows, hplace⟩ := hsent (hstatus.symm.trans h)
      rw [List.inj_on_of_nodup_map hs.eventIds hold hwritten hid]
      exact .inr ⟨rows, hplace⟩
    · exact .inl (hstatus.symm.trans h)

/-! ## The invariant -/

/-- The event of the sender is stored at the receiver. -/
def Arrived (P : Parties) (db : Db) (eventId : Str) : Prop :=
  ∃ inb ∈ db.federationInbound, inb.origin = P.sender ∧ inb.eventId = eventId

structure Exchanged (P : Parties) (s : State) : Prop where
  sender : Reachable (outbox P.cap) s.sender
  notifier : Reachable (notifier P.uuid5) s.sender.db
  receiver : Reachable (inbox P) s.receiver
  composed : ∀ row ∈ s.sender.db.federationOutbound, Composed P row
  addressed : Addressed s.sender.db
  wire : OnWire P s.sender.db s.wire
  genuine : ∀ c ∈ s.receiver.calls, P.Genuine s.wire c.1.raw
  copied : ∀ inb ∈ s.receiver.store.federationInbound, inb.origin = P.sender →
    ∃ row ∈ s.sender.db.federationOutbound, row.targetFamily = P.receiver ∧ Copies row inb
  answered : ∀ row rows, s.sender.place = .answered row (.ok .sent) rows →
    row.targetFamily = P.receiver → Arrived P s.receiver.store row.eventId
  sent : ∀ row ∈ s.sender.db.federationOutbound, row.targetFamily = P.receiver →
    row.status = .sent → Arrived P s.receiver.store row.eventId

theorem targetFamily_of_fixed (h : OutboundRow.fixed row' = OutboundRow.fixed row) :
    row'.targetFamily = row.targetFamily := (congrArg OutboundRow.targetFamily h :)

/-- A step of the sender. -/
theorem Exchanged.turn (huuid : Function.Injective P.uuid5) (h : Exchanged P s)
    (hturns : Turns P s.sender n') : Exchanged P { s with sender := n' } := by
  obtain ⟨label, hmoves⟩ := hturns.moves
  obtain ⟨act, hnotifies⟩ := hturns.notifies
  have horderly := orderly_of_reach h.sender
  refine ⟨.step h.sender trivial hmoves, .step h.notifier trivial hnotifies, h.receiver, ?_,
    hturns.addressed (notified_of_reach huuid h.notifier) h.addressed, ?_, h.genuine, ?_, ?_, ?_⟩
  · intro row' hrow'
    rcases hturns.turned.comes horderly hrow' with ⟨row, hrow, hfixed, -⟩ | ⟨hnew, -⟩
    · exact (h.composed row hrow).congr hfixed
    · exact hnew
  · intro w hw
    obtain ⟨row, hrow, hfamily, rfl⟩ := h.wire w hw
    obtain ⟨row', hrow', hfixed⟩ := hturns.turned.carries hrow
    exact ⟨row', hrow', (targetFamily_of_fixed hfixed).trans hfamily,
      (congrArg OutboundRow.envelopeJson hfixed :)⟩
  · intro inb hinb horigin
    obtain ⟨row, hrow, hfamily, hcopies⟩ := h.copied inb hinb horigin
    obtain ⟨row', hrow', hfixed⟩ := hturns.turned.carries hrow
    exact ⟨row', hrow', (targetFamily_of_fixed hfixed).trans hfamily, hcopies.congr hfixed rfl⟩
  · intro row rows hplace hfamily
    -- a place with an answer is no place that a write leads to
    have hsame : n'.place = s.sender.place := by
      cases hturns.turned with
      | same _ hsame => exact hsame.resolve_right fun hnot => hnot _ _ _ hplace
      | queued _ _ _ _ _ hsame => exact hsame
      | wrote _ _ _ _ _ hnot => exact absurd hplace (hnot _ _ _)
    exact h.answered row rows (hsame.symm.trans hplace) hfamily
  · intro row' hrow' hfamily hsent
    rcases hturns.turned.comes horderly hrow' with ⟨row, hrow, hfixed, hcame⟩ | ⟨-, hpending⟩
    · rw [targetFamily_of_fixed hfixed] at hfamily
      rw [eventId_of_fixed hfixed]
      -- it was sent before, or it is sent now on an answer that the receiver gave
      rcases hcame hsent with hbefore | ⟨rows, hplace⟩
      · exact h.sent row hrow hfamily hbefore
      · exact h.answered row rows hplace hfamily
    · rw [hsent] at hpending
      cases hpending

/-! ## The network -/

theorem Parties.Genuine.mono {wire wire' : List Bytes} (h : P.Genuine wire raw)
    (hwire : ∀ w ∈ wire, w ∈ wire') : P.Genuine wire' raw := by
  intro env rec hparse hlookup hfamily hverify
  obtain ⟨w, hw, hsame⟩ := h env rec hparse hlookup hfamily hverify
  exact ⟨w, hwire w hw, hsame⟩

/-- An envelope goes on the wire. -/
theorem Exchanged.emit (h : Exchanged P s) {rows : List OutboundRow}
    (hplace : s.sender.place = .page (row :: rows)) :
    Exchanged P { s with wire := s.wire ++ emitted P row } where
  sender := h.sender
  notifier := h.notifier
  receiver := h.receiver
  composed := h.composed
  addressed := h.addressed
  wire w hw := by
    rcases List.mem_append.mp hw with hold | hnew
    · exact h.wire w hold
    · unfold emitted at hnew
      split_ifs at hnew with hfamily
      · have hheld : s.sender.place.rows = row :: rows := by
          rw [hplace]
          rfl
        have hrow := (orderly_of_reach h.sender).holding.pending row
          (hheld ▸ List.mem_cons_self)
        exact ⟨row, hrow.1, hfamily, (List.mem_singleton.mp hnew).symm⟩
      · exact absurd hnew List.not_mem_nil
  genuine c hc := (h.genuine c hc).mono fun _ => List.mem_append_left _
  copied := h.copied
  answered := h.answered
  sent := h.sent

theorem status_of_transport {reply : Reply} {code : ℕ} {raw : Bytes}
    (h : reply.transport = .answered code raw) : reply.status = code := by
  unfold Reply.transport at h
  split_ifs at h
  exact (Transport.answered.inj h).1

/-- An answer comes, and the worker holds on to its outcome. -/
theorem Exchanged.answer (h : Exchanged P s) {fed : Runtime} {peer : PeerRecord}
    {rows : List OutboundRow} {t : Transport} {parsedate : Str → Option When} {now : Moment}
    (hplace : s.sender.place = .page (row :: rows))
    (hpeer : fed.registry.receiptsPeer row.targetFamily = some peer)
    (hhonest : P.Honest s (.answer t parsedate now)) :
    Exchanged P { s with sender := { s.sender with
      place := .answered row (.ok (sendEnvelope parsedate now t)) rows } } where
  sender := .step h.sender trivial (.transmit _ hplace hpeer)
  notifier := h.notifier
  receiver := h.receiver
  composed := h.composed
  addressed := h.addressed
  wire := h.wire
  genuine := h.genuine
  copied := h.copied
  sent := h.sent
  answered row' rows' hanswered hfamily := by
    obtain ⟨rfl, hsent, -⟩ := Place.answered.inj hanswered
    obtain ⟨body, rfl, -⟩ := sendEnvelope_sent_iff.mp (Except.ok.inj hsent)
    -- the answer is that of a call of the receiver, which answers so about a stored event only
    obtain ⟨c, hc, hraw, reply, hdone, htransport⟩ := hhonest row rows hplace hfamily _ _ rfl
    have hhandled := (serving_of_reach h.receiver).handled c hc
    rw [hdone] at hhandled
    obtain ⟨p, hadmitted, inb, hinb, horigin, heventId⟩ :=
      hhandled (status_of_transport htransport)
    have hheld : s.sender.place.rows = row :: rows := by
      rw [hplace]
      rfl
    have hrow := (orderly_of_reach h.sender).holding.pending row (hheld ▸ List.mem_cons_self)
    rw [hraw] at hadmitted
    obtain ⟨hsender, hid⟩ := hadmitted.composed (h.composed row hrow.1)
    exact ⟨inb, hinb, horigin.trans hsender, heventId.trans hid⟩

/-! ## The receiver -/

/-- A step of the receiver leaves its inbound rows, or stores the event of an admitted body. -/
theorem receive_cases {w w' : World Db InboxCall InboxPhase} {act : Callers.Action Db InboxCall Time}
    (hw : Reachable (inbox P) w) (hstep : (inbox P).step w act w') :
    w'.store.federationInbound.map InboundRow.fixed = w.store.federationInbound.map InboundRow.fixed ∨
      ∃ c ∈ w.calls, ∃ p now, Admitted P.fed c.1.raw p ∧ Stored w.store p now w'.store := by
  cases act with
  | call c =>
    cases hstep
    exact .inl rfl
  | advance i now =>
    obtain ⟨c, q, hi, -, rfl⟩ := hstep
    have hc := List.mem_of_getElem? hi
    have hhandled := (serving_of_reach hw).handled (c, q) hc
    rcases inboxStep_effect P.env P.fed c now w.store q with ⟨p, rfl, hs⟩ | ⟨rows, hrows⟩ | hd
    · exact .inr ⟨_, hc, p, now, hhandled, hs⟩
    · left
      show (inboxStep P.env P.fed c now w.store q).1.federationInbound.map InboundRow.fixed = _
      rw [hrows]
    · exact .inl hd.rows
  | other store =>
    obtain ⟨hbeside, rfl⟩ := hstep
    exact .inl (beside_rows hbeside).1

theorem receive_calls {w w' : World Db InboxCall InboxPhase} {act : Callers.Action Db InboxCall Time}
    (hstep : (inbox P).step w act w') {c : InboxCall × InboxPhase} (hc : c ∈ w'.calls) :
    (∃ c' ∈ w.calls, c'.1 = c.1) ∨ act = .call c.1 := by
  cases act with
  | call a =>
    cases hstep
    rcases List.mem_append.mp hc with hold | hnew
    · exact .inl ⟨c, hold, rfl⟩
    · rw [List.mem_singleton.mp hnew]
      exact .inr rfl
  | advance i now =>
    obtain ⟨a, q, hi, -, rfl⟩ := hstep
    rcases List.mem_or_eq_of_mem_set hc with hold | rfl
    · exact .inl ⟨c, hold, rfl⟩
    · exact .inl ⟨_, List.mem_of_getElem? hi, rfl⟩
  | other store =>
    obtain ⟨-, rfl⟩ := hstep
    exact .inl ⟨c, hc, rfl⟩

theorem Arrived.rises {eventId : Str} (h : Arrived P db eventId) (hrises : Rises db db') :
    Arrived P db' eventId := hrises.keys h

theorem Exchanged.receive (h : Exchanged P s) {act : Callers.Action Db InboxCall Time}
    {w : World Db InboxCall InboxPhase} (hhonest : P.Honest s (.receive act))
    (hstep : (inbox P).step s.receiver act w) : Exchanged P { s with receiver := w } := by
  have hcases := receive_cases h.receiver hstep
  have hrises : Rises s.receiver.store w.store := by
    rcases hcases with hsame | ⟨c, -, p, now, -, hs⟩
    · exact .of_fixed hsame
    · exact .of_stored hs
  refine ⟨h.sender, h.notifier, .step h.receiver trivial hstep, h.composed, h.addressed, h.wire,
    fun c hc => ?_, fun inb hinb horigin => ?_,
    fun row rows hplace hfamily => (h.answered row rows hplace hfamily).rises hrises,
    fun row hrow hfamily hsent => (h.sent row hrow hfamily hsent).rises hrises⟩
  · -- a request is one of those before, or the one that the network has just brought
    rcases receive_calls hstep hc with ⟨c', hc', hsame⟩ | rfl
    · rw [← hsame]
      exact h.genuine c' hc'
    · exact hhonest
  · rcases hcases with hsame | ⟨c, hc, p, now, hadmitted, hs⟩
    · obtain ⟨old, hold, hfixed⟩ := exists_of_map_eq hsame hinb
      obtain ⟨row, hrow, hfamily, hcopies⟩ :=
        h.copied old hold ((congrArg InboundRow.origin hfixed :).trans horigin)
      exact ⟨row, hrow, hfamily, hcopies.congr rfl hfixed.symm⟩
    · rw [hs.inbound] at hinb
      rcases List.mem_append.mp hinb with hold | hnew
      · exact h.copied inb hold horigin
      · -- a body that verifies under the key of the sender is an envelope of the wire
        rw [List.mem_singleton.mp hnew] at horigin ⊢
        obtain ⟨row, hrow, hfamily, heventId, htarget, hsigned, hsig⟩ :=
          hadmitted.genuine (h.genuine c hc) horigin h.wire h.composed
        exact ⟨row, hrow, hfamily, heventId, htarget, hsigned, hsig⟩

/-! ## Every reached state -/

theorem Exchanged.init (h : (exchange P).init s) : Exchanged P s := by
  obtain ⟨hsender, hnotifier, hwire, hreceiver⟩ := h
  have hrows : ∀ row, row ∉ s.sender.db.federationOutbound := by
    intro row hrow
    rw [hsender.1] at hrow
    exact List.not_mem_nil hrow
  refine ⟨.init hsender, .init hnotifier, .init hreceiver, fun row hrow => absurd hrow (hrows row),
    fun m hm => ?_, fun w hw => ?_, fun c hc => ?_, fun inb hinb => ?_, fun row rows hplace => ?_,
    fun row hrow => absurd hrow (hrows row)⟩
  · rw [hnotifier.2.2.2.2] at hm
    exact absurd hm List.not_mem_nil
  · rw [hwire] at hw
    exact absurd hw List.not_mem_nil
  · rw [hreceiver.2] at hc
    exact absurd hc List.not_mem_nil
  · rw [hreceiver.1.2.1] at hinb
    exact absurd hinb List.not_mem_nil
  · rw [hsender.2] at hplace
    cases hplace

theorem Exchanged.step (huuid : Function.Injective P.uuid5) (h : Exchanged P s) {act : Act}
    (hhonest : P.Honest s act) (hstep : (exchange P).step s act s') : Exchanged P s' := by
  cases act with
  | post cfg r =>
    obtain ⟨hcfg, rfl⟩ := hstep
    exact h.turn huuid (post_turns huuid hcfg s.sender r)
  | aside db =>
    obtain ⟨hrows, hnotifies, rfl⟩ := hstep
    exact h.turn huuid (aside_turns huuid hrows hnotifies)
  | work node =>
    obtain ⟨hworks, rfl⟩ := hstep
    exact h.turn huuid (work_turns (orderly_of_reach h.sender) hworks)
  | emit =>
    obtain ⟨row, rows, hplace, rfl⟩ := hstep
    exact h.emit hplace
  | answer t parsedate now =>
    obtain ⟨fed, peer, row, rows, hplace, hpeer, rfl⟩ := hstep
    exact h.answer hplace hpeer hhonest
  | receive act =>
    obtain ⟨w, hreceive, rfl⟩ := hstep
    exact h.receive hhonest hreceive

theorem exchanged_of_reach (huuid : Function.Injective P.uuid5)
    (h : Reach (exchange P) P.Honest s) : Exchanged P s :=
  h.invariant (fun _ hinit => .init hinit) fun _ _ _ hs hhonest hstep => hs.step huuid hhonest hstep

end Exchange
end ATalk
