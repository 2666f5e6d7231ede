import ATalk.Exchange.Delivery
import ATalk.Exchange.Verdict

/-!
# An attempt that nothing disturbs

Whatever has happened before, a row that is due can be delivered: the worker starts again, comes to
the row, and sends it; the receiver stores the event, or finds that it has it; and the row is marked.

* `Takes`        : what the receiver needs to accept the event of a row;
* `inbox_takes`  : then the inbox answers with a success;
* `run_marks`    : and the row can be marked as sent.
-/

namespace ATalk
namespace Exchange

open Text Json Python Sqlite Calendar ATalk.Core Federation Server Transition Callers Checks

variable {P : Parties} {db db' : Db} {row : OutboundRow} {s s' : State} {now : Time}

/-! ## The receiver -/

/-- The next number of the source is free. -/
def Numbered (env : Env) (db : Db) (source : Str) : Prop :=
  ∃ db₁ seq v, nextSeq env db source = .ok (db₁, seq) ∧ Sqlite.bind (.int seq) = .ok v ∧
    ∀ ev ∈ db.events, ev.source = source → sqlEq ev.seq v = false

/-- The envelope fits, the sender is registered under its key, the recipient is a member, and nothing
local has the id or the number of the event. -/
structure Takes (P : Parties) (db : Db) (row : OutboundRow) : Prop where
  size : row.envelopeJson.length ≤ requestBodyLimit
  signer : ∃ rec, P.fed.registry.lookup P.sender P.identity.keyId = some rec ∧
    ∀ message, P.fed.crypto.verify rec.publicKeyBytes message
      (P.fed.crypto.sign P.identity.seed message) = .ok ()
  member : isLocalMember db (splitAddress row.target).1 = true
  free : ∀ ev ∈ db.events, ev.eventId = row.eventId → Arrived P db row.eventId
  numbered : Numbered P.env db row.sourceAddr

/-- The envelope of a row passes the checks. -/
theorem admits_row (limits : RateLimits) (hrow : Composed P row)
    (hfamily : row.targetFamily = P.receiver) (htakes : Takes P db row)
    (hlimit : limits.family = true) : ∃ env p, parseEvent row.envelopeJson = .ok env ∧
      admitInbound P.fed db limits env = .ok p ∧ p.origin = P.sender ∧ p.eventId = row.eventId ∧
      p.sourceAddr = row.sourceAddr ∧ p.signedJson = row.signedJson ∧ ∃ f, ParamsOf f p := by
  obtain ⟨f, hf⟩ := hrow
  have hbytes := hf.bytes
  rw [hf.sig] at hbytes
  have hparse := (parseEvent_composed hf.valid hbytes).mpr ⟨htakes.size, rfl⟩
  obtain ⟨rec, hrec, hverify⟩ := htakes.signer
  have hdomain := domain_signedEvent hf.valid
  have hreads : EventEnvelopeReads (sorted (signedEvent f)) f :=
    reads_sorted hdomain ⟨rfl, rfl, eventObject f, rfl, eventReads_eventObject f⟩
  have hparams : ParamsOf f (inboundParams (receivedEvent P.fed.crypto P.identity f) rec) :=
    paramsOf_reads (parseEvent_domain hparse) hreads
  obtain ⟨agent, htarget⟩ := hf.family
  have hsplit : splitAddress f.target = (agent, row.targetFamily) := by
    rw [htarget.1, splitAddress_append (agentRe_ne_at htarget.2.1)]
  refine ⟨_, inboundParams (receivedEvent P.fed.crypto P.identity f) rec, hparse, ?_,
    hparams.origin.trans hf.origin, hparams.eventId.trans hf.eventId.symm,
    hparams.source.trans hf.source.symm, ?_, f, hparams⟩
  · have hlookup : lookupSigner P.fed (receivedEvent P.fed.crypto P.identity f) = some rec := by
      unfold lookupSigner strMember
      rw [show (receivedEvent P.fed.crypto P.identity f).signed = sorted (signedEvent f) from rfl,
        hreads.origin, hreads.keyId]
      simp only [Option.getD_some, hf.origin, hf.keyId]
      exact hrec
    have hverified : verifyEnvelope P.fed rec (receivedEvent P.fed.crypto P.identity f) = .ok () := by
      unfold verifyEnvelope Envelope.signedBytes
      rw [show (receivedEvent P.fed.crypto P.identity f).signed = sorted (signedEvent f) from rfl,
        canonicalBytes_sorted hdomain]
      exact hverify _
    have hlocal : isLocalMember db
        (inboundParams (receivedEvent P.fed.crypto P.identity f) rec).targetLocal = true := by
      rw [hparams.targetLocal, ← hf.target]
      exact htakes.member
    unfold admitInbound
    rw [hlookup]
    simp only [hverified, hlimit, hparams.target, hsplit, hfamily, hlocal]
    simp
  · show sorted (sorted (signedEvent f)) = _
    rw [sorted_sorted hdomain, hf.signed]

/-- The inbox stores the event, or has it. -/
theorem inbox_takes (hs : Exchanged P s) (hrow : row ∈ s.sender.db.federationOutbound)
    (hfamily : row.targetFamily = P.receiver) (htakes : Takes P s.receiver.store row) (now : Time) :
    (federationInbox P.env P.fed s.receiver.store ⟨true, true⟩ row.envelopeJson now).2 =
        statusReply 200 "stored" ∨
      (federationInbox P.env P.fed s.receiver.store ⟨true, true⟩ row.envelopeJson now).2 =
        statusReply 200 "duplicate" := by
  obtain ⟨env, p, hparse, hpass, horigin, heventId, hsource, hsigned, f, hparams⟩ :=
    admits_row ⟨true, true⟩ (hs.composed row hrow) hfamily htakes rfl
  have hinbox : federationInbox P.env P.fed s.receiver.store ⟨true, true⟩ row.envelopeJson now =
      storeInbound P.env s.receiver.store p now := by
    unfold federationInbox
    rw [hparse]
    simp only [hpass]
    rfl
  rw [hinbox]
  unfold storeInbound receiveEvent receiveTxn
  cases hfind : findInbound s.receiver.store p.origin p.eventId with
  | some inb =>
    right
    have hkey := List.find?_some hfind
    rw [Bool.and_eq_true, decide_eq_true_eq, decide_eq_true_eq] at hkey
    have hinb := List.mem_of_find?_eq_some hfind
    -- what is stored under the id is a copy of the row
    obtain ⟨row', hrow', -, hcopies⟩ := hs.copied inb hinb (hkey.1.trans horigin)
    have hsame : row' = row := by
      refine List.inj_on_of_nodup_map (orderly_of_reach hs.sender).eventIds hrow' hrow ?_
      exact hcopies.eventId.symm.trans (hkey.2.trans heventId)
    obtain ⟨g, hfiled, -⟩ := (serving_of_reach hs.receiver).held.filed inb hinb
    have hjcs : inb.eventJcs = p.eventJcs := by
      rw [hfiled.jcs, hparams.jcs, hcopies.signedJson, hsame, hsigned]
    simp only [Option.isSome_some, if_true, classifyReceived, hfind, if_pos hjcs]
  | none =>
    left
    obtain ⟨db₁, seq, v, hseq, hbind, hfresh⟩ := htakes.numbered
    have hid : s.receiver.store.events.any (fun ev => ev.eventId = p.eventId) = false := by
      rw [List.any_eq_false]
      intro ev hev
      rw [decide_eq_true_eq]
      intro hname
      obtain ⟨inb, hinb, hfrom, hsame⟩ := htakes.free ev hev (hname.trans heventId)
      have hnot := List.find?_eq_none.mp hfind inb hinb
      rw [Bool.and_eq_true, decide_eq_true_eq, decide_eq_true_eq] at hnot
      exact hnot ⟨hfrom.trans horigin.symm, hsame.trans heventId.symm⟩
    have hnumber : s.receiver.store.events.any
        (fun ev => ev.source = p.sourceAddr && sqlEq ev.seq v) = false := by
      rw [List.any_eq_false]
      intro ev hev
      rw [Bool.and_eq_true, decide_eq_true_eq, hsource]
      rintro ⟨hname, hsame⟩
      rw [hfresh ev hev hname] at hsame
      cases hsame
    rw [hsource] at hnumber ⊢
    simp only [Option.isSome_none, Bool.false_eq_true, if_false, hseq, hbind, hid, hnumber]

/-! ## The run -/

/-- Of the sender its requests and its worker, of the receiver the calls of its inbox. -/
def Act.Own : Act → Prop
  | .aside _ => False
  | .receive (.other _) => False
  | _ => True

def Parties.Own (P : Parties) (s : State) (act : Act) : Prop := P.Honest s act ∧ act.Own

theorem run_work {node : Node} (h : Works s.sender node) :
    Run (exchange P) P.Own s { s with sender := node } := .single ⟨.work node, ⟨trivial, trivial⟩, h, rfl⟩

/-- The worker leaves the rows ahead of one as they are. -/
theorem run_skips (ahead rows : List OutboundRow) (hplace : s.sender.place = .page (ahead ++ rows)) :
    Run (exchange P) P.Own s { s with sender := { s.sender with place := .page rows } } := by
  induction ahead generalizing s with
  | nil =>
    rw [List.nil_append] at hplace
    rw [← hplace]
  | cons r ahead ih =>
    have hraise : Works s.sender { s.sender with place := .raised r [] (ahead ++ rows) } :=
      .raise [] (by rw [hplace]; rfl)
    have hnext := (run_work (P := P) hraise).trans (run_work (.persistFails rfl))
    exact hnext.trans (ih rfl)

/-- A call that nobody interrupts. -/
theorem run_steps (calls : List (InboxCall × InboxPhase)) (c : InboxCall) (now : Time) (db : Db)
    (q : InboxPhase) (n : ℕ) :
    Run (exchange P) P.Own { s with receiver := ⟨db, calls ++ [(c, q)]⟩ }
      { s with receiver := ⟨((inboxCalls P.env P.fed).steps c now n (db, q)).1,
        calls ++ [(c, ((inboxCalls P.env P.fed).steps c now n (db, q)).2)]⟩ } := by
  induction n with
  | zero => exact .refl
  | succ n ih =>
    refine ih.trans ?_
    generalize hx : (inboxCalls P.env P.fed).steps c now n (db, q) = x
    have hsucc : (inboxCalls P.env P.fed).steps c now (n + 1) (db, q) =
        inboxStep P.env P.fed c now x.1 x.2 := by
      rw [← hx]
      rfl
    rw [hsucc]
    cases hresult : (inboxCalls P.env P.fed).result x.2 with
    | none =>
      refine .single ⟨.receive (.advance calls.length now), ⟨trivial, trivial⟩, _,
        ⟨c, x.2, by simp, hresult, rfl⟩, ?_⟩
      rw [List.set_append_right _ _ le_rfl, Nat.sub_self, List.set_cons_zero]
      rfl
    | some reply =>
      -- a call that has ended stays as it is
      have hdone : inboxStep P.env P.fed c now x.1 x.2 = x := by
        obtain ⟨db', q'⟩ := x
        cases q' with
        | done => rfl
        | _ => cases hresult
      rw [hdone]

/-- A request for the inbox, with no other call between its steps. -/
theorem run_call (c : InboxCall) (now : Time) (hgenuine : P.Genuine s.wire c.raw) :
    Run (exchange P) P.Own s { s with receiver :=
      ⟨(federationInbox P.env P.fed s.receiver.store c.limits c.raw now).1, s.receiver.calls ++
        [(c, .done (federationInbox P.env P.fed s.receiver.store c.limits c.raw now).2)]⟩ } := by
  have hcall : Run (exchange P) P.Own s { s with receiver :=
      ⟨s.receiver.store, s.receiver.calls ++ [(c, .start)]⟩ } :=
    .single ⟨.receive (.call c), ⟨hgenuine, trivial⟩, _, rfl, rfl⟩
  obtain ⟨n, hsteps⟩ := inboxCalls_answer P.env P.fed c now s.receiver.store
  have hrun := run_steps (P := P) (s := s) s.receiver.calls c now s.receiver.store .start n
  rw [hsteps] at hrun
  exact hcall.trans hrun

/-- An answer that counts, and the row that it is for. -/
theorem run_answer {fed : Runtime} {peer : PeerRecord} {rows : List OutboundRow} {reply : Reply}
    {c : InboxCall} (parsedate : Str → Option When) (clock : Moment) (draw : Draw)
    (hplace : s.sender.place = .page (row :: rows))
    (hpeer : fed.registry.receiptsPeer row.targetFamily = some peer)
    (hcall : (c, .done reply) ∈ s.receiver.calls) (hraw : c.raw = row.envelopeJson)
    (hsent : sendEnvelope parsedate clock reply.transport = .sent) (cfg : WorkerConfig) :
    Run (exchange P) P.Own s { s with sender :=
      ⟨markOutboundSent s.sender.db row.eventId (nowIso draw.stored), .page rows⟩ } := by
  have hhonest : P.Honest s (.answer reply.transport parsedate clock) := by
    intro row' rows' hplace' hfamily code raw hcode
    rw [hplace] at hplace'
    cases hplace'
    exact ⟨_, hcall, hraw, reply, rfl, rfl⟩
  have hanswer : Run (exchange P) P.Own s { s with sender := { s.sender with
      place := .answered row (.ok (sendEnvelope parsedate clock reply.transport)) rows } } :=
    .single ⟨.answer reply.transport parsedate clock, ⟨hhonest, trivial⟩, fed, peer, row, rows,
      hplace, hpeer, rfl⟩
  rw [hsent] at hanswer
  have happly : applyOutbound cfg s.sender.db row .sent draw =
      .ok (markOutboundSent s.sender.db row.eventId (nowIso draw.stored)) := rfl
  exact hanswer.trans (run_work (.apply rfl happly))

/-- Whatever has happened, a due row that the receiver takes can still be marked as sent. -/
theorem run_marks (huuid : Function.Injective P.uuid5) (hs : Reach (exchange P) P.Honest s)
    {fed : Runtime} {peer : PeerRecord} (hpeer : fed.registry.receiptsPeer P.receiver = some peer)
    (hdue : row ∈ dueOutbound s.sender.db now pageSize) (hfamily : row.targetFamily = P.receiver)
    (htakes : Takes P s.receiver.store row) (cfg : WorkerConfig) (draw : Draw)
    (parsedate : Str → Option When) (clock : Moment) :
    ∃ s', Run (exchange P) P.Own s s' ∧ ∃ row' ∈ s'.sender.db.federationOutbound,
      OutboundRow.fixed row' = OutboundRow.fixed row ∧ row'.status = .sent := by
  have h := exchanged_of_reach huuid hs
  have horderly := orderly_of_reach h.sender
  obtain ⟨hrow, hpending⟩ := (holding_due horderly.eventIds now pageSize).pending row hdue
  obtain ⟨ahead, rows, hpage⟩ := List.append_of_mem hdue
  -- the worker starts again and comes to the row
  have hpaged : Run (exchange P) P.Own s
      { s with sender := ⟨s.sender.db, .page (row :: rows)⟩ } := by
    have hstarted := (run_work (P := P) (s := s) .crash).trans (run_work (.recover now rfl))
    exact hstarted.trans (run_skips ahead (row :: rows) (congrArg Place.page hpage))
  -- the envelope is sent and received
  have hemitted : Run (exchange P) P.Own s
      ⟨⟨s.sender.db, .page (row :: rows)⟩, s.wire ++ [row.envelopeJson], s.receiver⟩ := by
    refine hpaged.trans (.single ⟨.emit, ⟨trivial, trivial⟩, row, rows, rfl, ?_⟩)
    rw [emitted, if_pos hfamily]
  have hgenuine : P.Genuine (s.wire ++ [row.envelopeJson]) row.envelopeJson :=
    fun env rec hparse _ _ _ => ⟨_, List.mem_append_right _ (List.mem_singleton_self _), env, hparse,
      rfl, rfl⟩
  have hcalled := hemitted.trans (run_call ⟨⟨true, true⟩, row.envelopeJson⟩ now hgenuine)
  -- the answer comes back
  have hsent : sendEnvelope parsedate clock (federationInbox P.env P.fed s.receiver.store
      ⟨true, true⟩ row.envelopeJson now).2.transport = .sent := by
    rcases inbox_takes h hrow hfamily htakes now with hreply | hreply
    · rw [hreply]
      exact transport_stored
    · rw [hreply]
      exact transport_duplicate
  have hknown : fed.registry.receiptsPeer row.targetFamily = some peer := hfamily ▸ hpeer
  have hrun := hcalled.trans (run_answer parsedate clock draw rfl hknown
    (List.mem_append_right _ (List.mem_singleton_self _)) rfl hsent cfg)
  refine ⟨_, hrun, ?_⟩
  have hcloses : Closes row.eventId .sent s.sender.db
      (markOutboundSent s.sender.db row.eventId (nowIso draw.stored)) :=
    updatePending_closes horderly.eventIds hrow hpending rfl (fun _ => rfl) fun _ _ => rfl
  obtain ⟨row', hrow', hfixed, hstatus⟩ := hcloses.carries hrow
  rw [if_pos rfl] at hstatus
  exact ⟨row', hrow', hfixed, hstatus⟩

end Exchange
end ATalk
