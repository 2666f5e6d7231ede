import ATalk.Exchange.Main
import ATalk.Exchange.Receipts
import ATalk.Federation.RetryAfter

/-!
# What a receipt proves, and that it comes through

* `Backed`, `receipts_agree`       : what the sender has merged, the receiver has acknowledged;
* `receipt_accepted`               : what the receiver sends is not refused;
* `receipt_stays_possible`         : a receipt that is due can still be merged.
-/

namespace ATalk
namespace Exchange

open Text Json Python Calendar ATalk.Core Federation Server Transition Callers Checks

variable {P : Parties} {db db' : Db} {row : OutboundRow} {r r' : ReceiptOutRow}
  {s s' : Correspondence} {fed : Runtime} {rec : PeerRecord}

/-! ## A receipt is taken in -/

/-- The sender takes in receipts under its identity, and the key of the receiver is registered. -/
structure Parties.Hears (P : Parties) (fed : Runtime) (rec : PeerRecord) : Prop where
  receives : P.Receives fed
  registered : fed.registry.lookup P.receiver P.fed.identity.keyId = some rec
  verifies : ∀ message, P.fed.crypto.verify rec.publicKeyBytes message
    (P.fed.crypto.sign P.fed.identity.seed message) = .ok ()

/-- What a receipt of the receiver says. -/
abbrev Parties.claim (P : Parties) (r : ReceiptOutRow) : ReceiptFields :=
  issuedAs r P.receiver P.fed.identity.keyId

/-- The stored original has bytes, and they are read as what was composed. -/
theorem Originates.bytes (h : Originates P.fed r) : ∃ body, signedBody r = .ok body ∧
    body.length ≤ 570 ∧
    parseReceipt body = .ok (receivedReceipt P.fed.crypto P.fed.identity (P.claim r)) := by
  obtain ⟨body, hbody, hlen⟩ := length_receiptBytes P.fed.crypto P.fed.identity h.valid
  have hsize : body.length ≤ 570 := hlen.trans_le (receiptSize_le h.valid)
  refine ⟨body, ?_, hsize, parseReceipt_composed h.valid hbody⟩
  have hrow : signedRow r P.fed.identity (signature P.fed.crypto P.fed.identity
      (signedReceipt (P.claim r))) r.updatedAt = r := by
    rw [signedRow, ← h.json, ← h.sig]
  rw [← hrow]
  exact signedBody_signedRow r hbody

theorem receivedReceipt_tells (hvalid : (P.claim r).Valid) :
    ReceiptSays (receivedReceipt P.fed.crypto P.fed.identity (P.claim r)) (P.claim r) where
  domain := sortKeys_obj _ ▸ domain_sortKeys _ (domain_signedReceipt hvalid)
  kind := rfl
  reads := ⟨rfl, rfl, _, rfl, of_decide_eq_true rfl, rfl, rfl, rfl, rfl, rfl, rfl⟩
  valid := hvalid

/-- The row of the sender that a receipt is about. -/
theorem Corresponded.about (h : Corresponded P s) (huuid : Function.Injective P.uuid5)
    (hr : r ∈ s.inDb.federationReceiptOut) (horigin : r.origin = P.sender) :
    ∃ inb ∈ s.inDb.federationInbound, OwedFor P.fed.crypto s.inDb inb r ∧
      ∃ row ∈ s.outDb.federationOutbound, row.targetFamily = P.receiver ∧ Copies row inb ∧
        findOutbound s.outDb r.eventId = some row ∧ familyPart row.target = some P.receiver := by
  obtain ⟨inb, hinb, howed⟩ := h.owed r hr
  have hexchanged := exchanged_of_reach huuid h.base
  obtain ⟨row, hrow, hfamily, hcopies⟩ :=
    hexchanged.copied inb hinb (howed.origin.symm.trans horigin)
  refine ⟨inb, hinb, howed, row, hrow, hfamily, hcopies, ?_, ?_⟩
  · have hid : row.eventId = r.eventId := hcopies.eventId.symm.trans howed.eventId.symm
    cases hfind : findOutbound s.outDb r.eventId with
    | none => exact absurd hid (by simpa using List.find?_eq_none.mp hfind row hrow)
    | some found =>
      have hfound : found.eventId = r.eventId := by simpa using List.find?_some hfind
      rw [List.inj_on_of_nodup_map (orderly_of_reach hexchanged.sender).eventIds
        (List.mem_of_find?_eq_some hfind) hrow (hfound.trans hid.symm)]
  · obtain ⟨f, hf⟩ := hexchanged.composed row hrow
    obtain ⟨agent, haddress⟩ := hf.family
    rw [hf.target, familyPart_address haddress, hfamily]

section
variable {env : Envelope} {t : AckType} {sig : Bytes}

/-- A receipt that passes every check is bound. -/
theorem bindReceipt_ok (hsig : decodeStrict row.sig 64 "signature_length" "schema" = .ok sig)
    (hhash : receiptField env "origin_event_sig_hash" = fed.crypto.sha256 sig)
    (hagent : receiptField env "agent" = row.target)
    (htype : AckType.ofText (receiptField env "ack_type") = some t) :
    bindReceipt fed ⟨true, true⟩ env row = .ok (receiptParams env row t) := by
  unfold bindReceipt
  rw [if_neg (by decide), hsig]
  simp only
  rw [if_neg (not_not.mpr hhash), if_neg (not_not.mpr hagent), htype]

theorem admitReceipt_ok {p : ReceiptParams} {family : Str}
    (hfind : findOutbound db (receiptField env "event_id") = some row)
    (horigin : receiptField env "origin" = fed.identity.family)
    (hpart : familyPart row.target = some family) (hissuer : envelopeField env "issuer" = family)
    (hregistered : fed.registry.lookup (envelopeField env "issuer") (envelopeField env "key_id") =
      some rec)
    (hverified : verifyEnvelope fed rec env = .ok ())
    (hbind : bindReceipt fed ⟨true, true⟩ env row = .ok p) :
    admitReceipt fed db ⟨true, true⟩ env = .ok p := by
  unfold admitReceipt
  rw [hfind]
  simp only
  rw [if_neg (not_not.mpr horigin), hpart]
  simp only
  rw [if_neg (not_not.mpr hissuer), hregistered]
  simp only
  rw [hverified]
  exact hbind

end

/-- A receipt that the receiver has signed passes the checks of the sender. -/
theorem Corresponded.admits (h : Corresponded P s) (huuid : Function.Injective P.uuid5)
    (hr : r ∈ s.inDb.federationReceiptOut) (horiginates : Originates P.fed r)
    (horigin : r.origin = P.sender) (hhears : P.Hears fed rec) : ∃ p,
    admitReceipt fed s.outDb ⟨true, true⟩
      (receivedReceipt P.fed.crypto P.fed.identity (P.claim r)) = .ok p ∧ p.key = keyOf r := by
  obtain ⟨inb, -, howed, row, -, -, hcopies, hfind, hpart⟩ := h.about huuid hr horigin
  have hread := (receivedReceipt_tells horiginates.valid).fields
  obtain ⟨⟨hcrypto, hidentity, -⟩, hregistered, hverifies⟩ := hhears
  obtain ⟨sig, hsig, hhash⟩ := howed.hash
  have hverified : verifyEnvelope fed rec
      (receivedReceipt P.fed.crypto P.fed.identity (P.claim r)) = .ok () := by
    unfold verifyEnvelope Envelope.signedBytes
    rw [show (receivedReceipt P.fed.crypto P.fed.identity (P.claim r)).signed =
      sorted (signedReceipt (P.claim r)) from rfl,
      canonicalBytes_sorted (domain_signedReceipt horiginates.valid), hcrypto]
    exact hverifies _
  generalize receivedReceipt P.fed.crypto P.fed.identity (P.claim r) = env at hread hverified ⊢
  -- the hash is that of the signature of the copy, which is the one of the row
  have hbind : bindReceipt fed ⟨true, true⟩ env row = .ok (receiptParams env row r.ackType) := by
    refine bindReceipt_ok (hcopies.sig ▸ hsig) ?_ ?_ ?_
    · rw [hread.sigHash, hcrypto]
      exact hhash
    · exact hread.agent.trans (howed.agent.trans hcopies.target)
    · rw [hread.ackType]
      exact ofText_text r.ackType
  refine ⟨_, admitReceipt_ok ?_ ?_ hpart hread.issuer ?_ hverified hbind, ?_⟩
  · rw [hread.eventId]
    exact hfind
  · rw [hread.origin, hidentity]
    exact horigin
  · rw [hread.issuer, hread.keyId]
    exact hregistered
  · show (receiptField env "event_id", receiptField env "agent", r.ackType) = keyOf r
    rw [hread.eventId, hread.agent]
    rfl

theorem mergeReceipt_merged (db : Db) (p : ReceiptParams) (originalId : ℕ) (now : Time) :
    ∃ m ∈ (mergeReceipt db p originalId now).federationReceiptIn, mergedKey m = p.key := by
  unfold mergeReceipt
  split_ifs with hthere
  · exact (any_mergedKey db p.key).mp hthere
  · exact ⟨_, List.mem_append_right _ (List.mem_singleton_self _), rfl⟩

/-- What is admitted is merged, and answered with a success. -/
theorem federationReceipts_ok {raw : Bytes} {env : Envelope} {p : ReceiptParams}
    (hparse : parseReceipt raw = .ok env) (hpass : admitReceipt fed db ⟨true, true⟩ env = .ok p)
    (woken : NotificationRow → Bool) (cursor : Option HintCursor) (now : Time) : ∃ db' status,
    federationReceipts fed db ⟨true, true⟩ raw woken cursor now =
        (db', statusReply 200 (statusText status)) ∧
      ∃ m ∈ db'.federationReceiptIn, mergedKey m = p.key := by
  have hcall : ∃ db' status, recordReceiptIn fed db p now = .ok (db', status) ∧
      ∃ m ∈ db'.federationReceiptIn, mergedKey m = p.key := by
    rw [recordReceiptIn_eq]
    cases findOriginal db.federationReceiptInOriginals p with
    | some o => exact ⟨_, _, rfl, mergeReceipt_merged ..⟩
    | none =>
      refine ⟨_, _, rfl, ?_⟩
      rw [storeReceipt, insertNotification_receiptIn]
      exact mergeReceipt_merged ..
  obtain ⟨db', status, hrecord, hmerged⟩ := hcall
  refine ⟨(hintNotifications woken db' cursor).1, status, ?_, ?_⟩
  · unfold federationReceipts
    rw [if_neg (by decide), hparse]
    simp only
    rw [hpass]
    simp only
    rw [hrecord]
  · have hmarks : Marks .other db' (hintNotifications woken db' cursor).1 := hintPages_marks ..
    rw [(Marks.same hmarks).2.2.2]
    exact hmerged

/-- A row in the hands of the worker with an original is one that the receiver owes. -/
theorem Corresponded.held (h : Corresponded P s) {row : ReceiptOutRow} {body : Bytes}
    (hrow : row ∈ s.place.rows) (hbody : signedBody row = .ok body) :
    ∃ r ∈ s.inDb.federationReceiptOut, kept r = kept row ∧ Originates P.fed r ∧
      P.issued r ∈ s.log := by
  have hsigned : row.signedJson ≠ none := by
    intro hnone
    unfold signedBody at hbody
    rw [hnone] at hbody
    cases hbody
  -- the row in its hands differs from the stored one in what a retry writes at most
  obtain ⟨tr, hconsistent⟩ := h.consistent
  obtain ⟨r, hr, -, hkept⟩ := hconsistent.held row hrow
  have hkept := hkept.resolve_left hsigned
  have hjson : r.signedJson = row.signedJson := (congrArg ReceiptOutRow.signedJson hkept :)
  obtain ⟨horiginates, hissued⟩ := h.originals r hr (hjson ▸ hsigned)
  exact ⟨r, hr, hkept, horiginates, hissued⟩

/-- What the worker of the receiver sends is taken in. -/
theorem Corresponded.accepted (h : Corresponded P s) (huuid : Function.Injective P.uuid5)
    {row : ReceiptOutRow} {body : Bytes} (hrow : row ∈ s.place.rows)
    (hbody : signedBody row = .ok body) (horigin : row.origin = P.sender)
    (hhears : P.Hears fed rec) (woken : NotificationRow → Bool) (cursor : Option HintCursor)
    (now : Time) : body.length ≤ 570 ∧ P.Authentic s.log fed body ∧ ∃ db' status,
      federationReceipts fed s.outDb ⟨true, true⟩ body woken cursor now =
          (db', statusReply 200 (statusText status)) ∧
        ∃ m ∈ db'.federationReceiptIn, mergedKey m = keyOf row := by
  obtain ⟨r, hr, hkept, horiginates, hissued⟩ := h.held hrow hbody
  obtain ⟨body', hbody', hlen, hparse⟩ := horiginates.bytes
  obtain rfl : body' = body := by
    rw [signedBody_congr hkept, hbody] at hbody'
    exact (Except.ok.inj hbody').symm
  have hdeclared := declared_of_kept hkept
  -- the body is that of the stored receipt
  obtain ⟨p, hpass, hkey⟩ := h.admits huuid hr horiginates
    ((congrArg ReceiptOutRow.origin hkept :).trans horigin) hhears
  have hrowKey : keyOf r = keyOf row := (congrArg keyOf hkept :)
  refine ⟨hlen, fun env rec' henv _ _ _ => ⟨_, hissued, ?_⟩, hrowKey ▸ hkey ▸
    federationReceipts_ok hparse hpass woken cursor now⟩
  obtain rfl := Except.ok.inj (hparse.symm.trans henv)
  exact (canonicalBytes_sorted (domain_signedReceipt horiginates.valid)).symm

/-! ## A receipt can always be merged -/

/-- A step of the worker that writes nothing. -/
theorem run_place {place : ReceiptPlace}
    (h : Dispatches ⟨s.inDb, P.fed, s.place⟩ .silent ⟨s.inDb, P.fed, place⟩) :
    Run (correspondence P) P.Fair s { s with place := place } :=
  .single ⟨.work .silent s.inDb place, trivial, h, fun _ hlabel => (by cases hlabel), rfl,
    fun _ _ hlabel => (by cases hlabel), rfl⟩

/-- The worker leaves the rows ahead of one as they are. -/
theorem run_passes (ahead rows : List ReceiptOutRow) (hplace : s.place = .page (ahead ++ rows)) :
    Run (correspondence P) P.Fair s { s with place := .page rows } := by
  induction ahead generalizing s with
  | nil =>
    rw [List.nil_append] at hplace
    rw [← hplace]
  | cons row ahead ih =>
    -- sending raises, and the write of the retry fails too
    have hraise : Run (correspondence P) P.Fair s
        { s with place := .raised row [] (.page (ahead ++ rows)) } :=
      run_place (.raise [] (by rw [hplace]; rfl))
    have hpersist : Run (correspondence P) P.Fair
        { s with place := .raised row [] (.page (ahead ++ rows)) }
        { s with place := .page (ahead ++ rows) } := run_place (.persistFails rfl)
    exact (hraise.trans hpersist).trans (ih (s := { s with place := .page (ahead ++ rows) }) rfl)

section
variable {d : Db} {row : ReceiptOutRow} {now : Time} {sig : Str} {identity : Identity}

theorem same_of_keys (hkeys : (d.federationReceiptOut.map keyOf).Nodup)
    (hmem : row ∈ d.federationReceiptOut) (hr : r ∈ d.federationReceiptOut)
    (hsame : SameReceipt row r) : r = row :=
  List.inj_on_of_nodup_map hkeys hr hmem (keyOf_eq.mpr hsame)

/-- The row that is signed is the one in the hands of the worker. -/
theorem signLabel_signed {identity' : Identity} (hkeys : (d.federationReceiptOut.map keyOf).Nodup)
    (hmem : row ∈ d.federationReceiptOut) (h : signLabel d row identity = .signed r identity') :
    r = row ∧ identity' = identity := by
  unfold signLabel at h
  split at h
  · next found hfind =>
    have hmatch := List.find?_some hfind
    simp only [decide_eq_true_eq] at hmatch
    cases h
    exact ⟨same_of_keys hkeys hmem (List.mem_of_find?_eq_some hfind) hmatch.1, rfl⟩
  · cases h

theorem signLabel_ne (d : Db) (row : ReceiptOutRow) (identity : Identity) (r : ReceiptOutRow) :
    signLabel d row identity ≠ .acknowledged r := by
  unfold signLabel
  split <;> exact fun h => by cases h

/-- Read again, the row has its original. -/
theorem freshReceipt_signed (hkeys : (d.federationReceiptOut.map keyOf).Nodup)
    (hmem : row ∈ d.federationReceiptOut) (hpending : row.status = .pending)
    (hnone : row.signedJson = none)
    (hdb : db'.federationReceiptOut =
      d.federationReceiptOut.map (written row (original row identity sig) sig now)) :
    freshReceipt db' row = signedRow row identity sig now := by
  have hwritten : written row (original row identity sig) sig now row =
      signedRow row identity sig now := written_of_unsigned (.refl row) hpending hnone
  unfold freshReceipt
  cases hfind : db'.federationReceiptOut.find? fun r => SameReceipt row r with
  | none =>
    have hno := List.find?_eq_none.mp hfind _ (hdb ▸ List.mem_map_of_mem hmem)
    rw [decide_eq_true_eq] at hno
    exact absurd (.of_declared (declared_written row).symm) hno
  -- keys are stored once, so the row that is found is the one just written
  | some found =>
    have hfound := List.mem_of_find?_eq_some hfind
    have hsame := List.find?_some hfind
    rw [decide_eq_true_eq] at hsame
    rw [hdb] at hfound
    obtain ⟨r, hr, rfl⟩ := List.mem_map.mp hfound
    obtain rfl := same_of_keys hkeys hmem hr
      (SameReceipt.trans hsame (.of_declared (declared_written r)))
    exact hwritten

end

/-- A receipt on the page that has no original yet is signed, and read again. -/
theorem run_signs {row : ReceiptOutRow} {rows : List ReceiptOutRow}
    (hplace : s.place = .page (row :: rows)) (hmem : row ∈ s.inDb.federationReceiptOut)
    (hpending : row.status = .pending) (hnone : row.signedJson = none)
    (hvalid : (P.claim row).Valid) (hkeys : (s.inDb.federationReceiptOut.map keyOf).Nodup)
    (now : Time) : ∃ s' current body, Run (correspondence P) P.Fair s s' ∧
      s'.base.sender = s.base.sender ∧ s'.place = .ready row current rows ∧
      keyOf current = keyOf row ∧ current.origin = row.origin ∧ signedBody current = .ok body := by
  obtain ⟨body, hbody, -⟩ := length_receiptBytes P.fed.crypto P.fed.identity hvalid
  have hcompose : composeReceipt P.fed.crypto P.fed.identity row.eventId row.origin
      row.originEventSigHash row.agent (AckType.text row.ackType) row.atTime =
      .ok (withSig (P.issued row) (signature P.fed.crypto P.fed.identity (P.issued row))) :=
    compose_receipt_ok_iff.mpr ⟨hvalid, rfl⟩
  obtain ⟨db₁, hsign, hframe⟩ : ∃ db₁, signReceipt P.fed s.inDb row now = .ok db₁ ∧
      WorkerFrame s.inDb db₁ := by
    rw [signReceipt, hcompose]
    exact ⟨_, rfl, rfl⟩
  obtain ⟨-, hrows⟩ := signReceipt_composes hsign
  have hfresh := freshReceipt_signed hkeys hmem hpending hnone hrows
  -- the signature, the write, and the second look at the row
  have hlogged : Run (correspondence P) P.Fair s { s with log := s.log ++ [P.issued row] } :=
    .single ⟨.signReceipt row, trivial, by rw [hplace]; exact List.mem_cons_self, rfl⟩
  have hsigned : Run (correspondence P) P.Fair { s with log := s.log ++ [P.issued row] }
      ⟨(s.withIn db₁).base, .made row rows, s.log ++ [P.issued row]⟩ := by
    refine .single ⟨.work (signLabel s.inDb row P.fed.identity) db₁ (.made row rows), trivial,
      .sign hplace hnone hsign, fun r => signLabel_ne _ _ _ r, hframe, fun r identity hr => ?_, rfl⟩
    obtain ⟨rfl, rfl⟩ := signLabel_signed hkeys hmem hr
    exact List.mem_append_right _ (List.mem_singleton_self _)
  have hread : Run (correspondence P) P.Fair
      ⟨(s.withIn db₁).base, .made row rows, s.log ++ [P.issued row]⟩
      ⟨(s.withIn db₁).base, .ready row (freshReceipt db₁ row) rows, s.log ++ [P.issued row]⟩ :=
    run_place (.reread rfl)
  refine ⟨_, freshReceipt db₁ row, body, (hlogged.trans hsigned).trans hread, rfl, rfl, ?_, ?_, ?_⟩
  · rw [hfresh]
    rfl
  · rw [hfresh]
    rfl
  · rw [hfresh]
    exact signedBody_signedRow row hbody

/-- The worker comes to a due receipt. -/
theorem run_ready (h : Reach (correspondence P) P.Fair s) (huuid : Function.Injective P.uuid5)
    {now : Time} (hdue : r ∈ dueReceipts s.inDb now pageSize) (hvalid : (P.claim r).Valid) :
    ∃ s' rows current body, Run (correspondence P) P.Fair s s' ∧
      s'.base.sender = s.base.sender ∧ s'.place = .ready r current rows ∧
      keyOf current = keyOf r ∧ current.origin = r.origin ∧ signedBody current = .ok body := by
  have hinvariant := corresponded_of_reach huuid h
  obtain ⟨hmem, hisDue⟩ := mem_dueReceipts hdue
  have hpending : r.status = .pending := by
    unfold isDue at hisDue
    rw [Bool.and_eq_true, decide_eq_true_eq] at hisDue
    exact hisDue.1
  obtain ⟨ahead, rows, hpage⟩ := List.append_of_mem hdue
  -- the process dies, starts again without its recovery scan, and takes up a cycle
  have hdown : Run (correspondence P) P.Fair s { s with place := .down } := run_place .crash
  have hidle : Run (correspondence P) P.Fair { s with place := .down } { s with place := .idle } :=
    run_place (.recoverFails rfl)
  have hcycle : Run (correspondence P) P.Fair { s with place := .idle }
      { s with place := .page (dueReceipts s.inDb now pageSize) } := run_place (.cycle now rfl)
  have hskips : Run (correspondence P) P.Fair
      { s with place := .page (dueReceipts s.inDb now pageSize) }
      { s with place := .page (r :: rows) } :=
    run_passes (s := { s with place := .page (dueReceipts s.inDb now pageSize) }) ahead (r :: rows)
      (congrArg ReceiptPlace.page hpage)
  have hcomes := ((hdown.trans hidle).trans hcycle).trans hskips
  -- it is signed now, or it was before
  by_cases hnone : r.signedJson = none
  · obtain ⟨tr, hconsistent⟩ := hinvariant.consistent
    obtain ⟨s', current, body, hrun, hsender, hplace, hkey, horigin, hbody⟩ :=
      run_signs (P := P) (s := { s with place := .page (r :: rows) }) rfl hmem
        hpending hnone hvalid hconsistent.keys now
    exact ⟨s', rows, current, body, hcomes.trans hrun, hsender, hplace, hkey, horigin, hbody⟩
  · obtain ⟨body, hbody, -, -⟩ := (hinvariant.originals r hmem hnone).1.bytes
    exact ⟨_, rows, r, body, hcomes.trans (run_place (s := { s with place := .page (r :: rows) })
      (.stored rfl hnone)), rfl, rfl, rfl, rfl, hbody⟩

/-- A receipt for the sender can be signed once its clock text is a timestamp. -/
theorem Corresponded.valid (h : Corresponded P s) (huuid : Function.Injective P.uuid5)
    (hr : r ∈ s.inDb.federationReceiptOut) (horigin : r.origin = P.sender)
    (hat : timestampOk r.atTime = true) : (P.claim r).Valid := by
  obtain ⟨inb, -, howed, row, hrow, -, hcopies, -, -⟩ := h.about huuid hr horigin
  obtain ⟨f, hf⟩ := (exchanged_of_reach huuid h.base).composed row hrow
  obtain ⟨agent, haddress⟩ := hf.family
  obtain ⟨sig, -, hhash⟩ := howed.hash
  refine ⟨P.fed.identity.family_ok, P.fed.identity.keyId_ok, ?_, ?_, ?_, ⟨agent, row.targetFamily, ?_⟩,
    ?_, hat⟩
  · show uuidRe r.eventId = true
    rw [howed.eventId, hcopies.eventId, hf.eventId]
    exact hf.valid.eventId
  · show familyRe r.origin = true
    rw [horigin]
    exact P.identity.family_ok
  · show hex64Re r.originEventSigHash = true
    rw [hhash]
    exact P.fed.crypto.hex_sha256 sig
  · show IsAddress r.agent agent row.targetFamily
    rw [howed.agent, hcopies.target, hf.target]
    exact haddress
  · show AckType.text r.ackType ∈ ackTypes
    cases r.ackType <;> decide

/-- A due receipt is sent, and merged. -/
theorem run_merges (h : Reach (correspondence P) P.Fair s) (huuid : Function.Injective P.uuid5)
    {now : Time} {peer : PeerRecord} (hdue : r ∈ dueReceipts s.inDb now pageSize)
    (horigin : r.origin = P.sender) (hat : timestampOk r.atTime = true)
    (hpeer : P.fed.registry.receiptsPeer P.sender = some peer) (hhears : P.Hears fed rec)
    (answer : Answer) (woken : NotificationRow → Bool) (cursor : Option HintCursor) :
    ∃ s', Run (correspondence P) P.Fair s s' ∧
      (∃ m ∈ s'.outDb.federationReceiptIn, mergedKey m = keyOf r) := by
  have hvalid := (corresponded_of_reach huuid h).valid huuid (mem_dueReceipts hdue).1 horigin hat
  obtain ⟨s₁, rows, current, body, hrun, hsender, hplace, hkey, hcurrent, hbody⟩ :=
    run_ready h huuid hdue hvalid
  have hknown : P.fed.registry.receiptsPeer current.origin = some peer := by
    rw [hcurrent, horigin]
    exact hpeer
  -- whatever the answer is, the body has been sent, and the sender takes it in
  have hsent : Run (correspondence P) P.Fair s₁ { s₁ with place := .answered r current answer rows } :=
    .single ⟨.work (.transmitted current body) s₁.inDb _, trivial,
      .transmit answer hplace hknown hbody, fun _ hlabel => (by cases hlabel), rfl,
      fun _ _ hlabel => (by cases hlabel), rfl⟩
  have hreached := (h.run hrun).run hsent
  have hheld : current ∈ (ReceiptPlace.answered r current answer rows).rows :=
    List.mem_cons_of_mem _ List.mem_cons_self
  obtain ⟨-, hauthentic, db', status, hanswer, hmerged⟩ :=
    (corresponded_of_reach huuid hreached).accepted huuid hheld hbody (hcurrent.trans horigin) hhears
      woken cursor now
  refine ⟨_, (hrun.trans hsent).trans (.single ⟨.receipts fed ⟨true, true⟩ body woken cursor now,
    hauthentic, hhears.receives, rfl⟩), ?_⟩
  rw [← hkey]
  show ∃ m ∈ (federationReceipts fed s₁.outDb ⟨true, true⟩ body woken cursor now).1.federationReceiptIn,
    mergedKey m = keyOf current
  rw [show federationReceipts fed s₁.outDb ⟨true, true⟩ body woken cursor now = _ from hanswer]
  exact hmerged

/-! ## Two instances, and a receipt -/

/-- A run of the exchange is one of the correspondence, in which nothing is acknowledged. -/
theorem run_lift {b b' : State} (h : Run (exchange P) P.Own b b') (place : ReceiptPlace)
    (log : List (List (Str × Json))) :
    Run (correspondence P) P.Fair ⟨b, place, log⟩ ⟨b', place, log⟩ ∧
      b'.receiver.store.federationReceiptOut = b.receiver.store.federationReceiptOut := by
  induction h with
  | refl => exact ⟨.refl, rfl⟩
  | @tail b₁ b₂ _ hstep ih =>
    obtain ⟨act, ⟨hhonest, hown⟩, hstep⟩ := hstep
    have hinner : Correspondence.Inner ⟨b₁, place, log⟩ act := by
      cases act with
      | aside db => exact hown.elim
      | receive act =>
        cases act with
        | other db => exact hown.elim
        | _ => trivial
      | _ => trivial
    refine ⟨ih.1.tail ⟨.exchange act, hhonest, hinner, b₂, hstep, rfl⟩, Eq.trans ?_ ih.2⟩
    cases act with
    | post cfg r =>
      obtain ⟨-, rfl⟩ := hstep
      rfl
    | aside db => exact hown.elim
    | work node =>
      obtain ⟨-, rfl⟩ := hstep
      rfl
    | emit =>
      obtain ⟨row, rows, -, rfl⟩ := hstep
      rfl
    | answer t parsedate now =>
      obtain ⟨fed, peer, row, rows, -, -, rfl⟩ := hstep
      rfl
    | receive act =>
      obtain ⟨w, hreceive, rfl⟩ := hstep
      cases act with
      | call c =>
        cases hreceive
        rfl
      | advance i now =>
        obtain ⟨c, q, -, -, rfl⟩ := hreceive
        exact (inboxStep_receipts ..).2
      | other store => exact hown.elim

/-- The first acknowledgement of an event that came in. -/
theorem run_ack (h : Corresponded P s) (huuid : Function.Injective P.uuid5) {inb : InboundRow}
    (hinb : inb ∈ s.inDb.federationInbound) (horigin : inb.origin = P.sender)
    (hnone : s.inDb.federationReceiptOut = []) (env : Env) (q : AckRequest) (t : AckType) :
    ∃ s' db sigHash, Run (correspondence P) P.Fair s s' ∧ s'.inDb.federationReceiptOut =
      [receiptOutRow db inb P.fed.identity inb.eventId t sigHash q.now] := by
  have hexchanged := exchanged_of_reach huuid h.base
  have hheld := (serving_of_reach hexchanged.receiver).held
  obtain ⟨row, hrow, -, hcopies⟩ := hexchanged.copied inb hinb horigin
  obtain ⟨f, hf⟩ := hexchanged.composed row hrow
  obtain ⟨agent, haddress⟩ := hf.family
  have hlocal : localPart inb.target = agent := by
    rw [← hf.target, ← hcopies.target] at haddress
    exact localPart_address haddress
  obtain ⟨sig, hsig⟩ : ∃ sig, decodeStrict inb.sig 64 "signature_length" "schema" = .ok sig := by
    rw [hcopies.sig, hf.sig]
    exact ⟨_, decodeStrict_signature ..⟩
  obtain ⟨ev, hev, hname⟩ := hheld.paired.events inb hinb
  have hclean : strParam (localPart inb.target) = .ok () := by
    rw [hlocal]
    exact guardOr_pos (plain_agentRe haddress.2.1).clean _
  have hany : s.inDb.events.any (·.eventId = inb.eventId) = true :=
    List.any_eq_true.mpr ⟨ev, hev, decide_eq_true hname⟩
  have hout := (upsertAck_receipts s.inDb inb.eventId (localPart inb.target) t q.now
    (detailOf q.detail)).trans hnone
  have hwrite : writeAck s.inDb (some inb.eventId) (some (localPart inb.target)) t q.now
      (detailOf q.detail) =
        .ok (upsertAck s.inDb inb.eventId (localPart inb.target) t q.now (detailOf q.detail)) :=
    if_pos hany
  -- there is no receipt yet, so the acknowledgement adds one
  have hfresh : ¬ hasReceiptOut (upsertAck s.inDb inb.eventId (localPart inb.target) t q.now
      (detailOf q.detail)) inb.eventId inb.target t = true := by
    unfold hasReceiptOut
    rw [hout]
    exact Bool.false_ne_true
  obtain ⟨db, hack, hdb⟩ : ∃ db, ackWrite env P.fed s.inDb q (.federated inb inb.eventId
      (localPart inb.target) t (P.fed.crypto.sha256 sig)) = .ok db ∧ db.federationReceiptOut =
        [receiptOutRow (upsertAck s.inDb inb.eventId (localPart inb.target) t q.now
          (detailOf q.detail)) inb P.fed.identity inb.eventId t (P.fed.crypto.sha256 sig) q.now] :=
    ⟨_, bind_eq_ok.mpr ⟨(), hclean, bind_eq_ok.mpr ⟨_, hwrite, if_neg hfresh⟩⟩, by rw [hout]; rfl⟩
  exact ⟨s.withIn db, _, _, .single ⟨.ack env q (.federated inb inb.eventId (localPart inb.target) t
    (P.fed.crypto.sha256 sig)), trivial, ⟨⟨inb, hinb, rfl⟩, rfl, rfl, sig, hsig, rfl⟩, db, hack, rfl⟩,
    hdb⟩

/-- `org-b`, with its key, in the registry of `org-a`. -/
def recordB : PeerRecord where
  family := lit "org-b"
  keyId := lit "ob-1"
  publicKey := lit "pk"
  publicKeyBytes := []
  inboxUrl := lit "https://b.example/federation/inbox"
  receiptsUrl := lit "https://b.example/federation/receipts"

/-- What `org-a` takes receipts in with. -/
def runtimeA : Runtime where
  crypto := plainCrypto
  identity := orgA
  registry := ⟨[recordB], List.nodup_singleton _⟩
  outboxCap := 1000
  uuid5 := id

/-- `bob` has acknowledged what `alice` sent, and the receipt is due. -/
theorem reach_acknowledged : ∃ s r, Reach (correspondence twoOrgs) twoOrgs.Fair s ∧
    r ∈ dueReceipts s.inDb noon pageSize ∧ r.origin = twoOrgs.sender ∧
    timestampOk r.atTime = true ∧ ∃ agent, IsAddress r.agent agent twoOrgs.receiver := by
  obtain ⟨b, hrun, row, hrow, hfamily, hsent⟩ := run_arrived
  obtain ⟨hlift, hnone⟩ := run_lift hrun .down []
  have hinit : (correspondence twoOrgs).init ⟨untouched, .down, []⟩ := ⟨untouched_init, rfl, rfl, rfl⟩
  have hreach : Reach (correspondence twoOrgs) twoOrgs.Fair ⟨b, .down, []⟩ :=
    (Reach.init hinit).run hlift
  have hexchanged := exchanged_of_reach Function.injective_id (reach_of_own hrun)
  obtain ⟨inb, hinb, horigin, -⟩ := hexchanged.sent row hrow hfamily hsent
  obtain ⟨row', hrow', hfamily', hcopies⟩ := hexchanged.copied inb hinb horigin
  obtain ⟨f, hf⟩ := hexchanged.composed row' hrow'
  obtain ⟨agent, haddress⟩ := hf.family
  obtain ⟨s, db, sigHash, hack, hrows⟩ := run_ack (corresponded_of_reach Function.injective_id hreach)
    Function.injective_id hinb horigin hnone plainEnv bobAck .applied
  refine ⟨s, receiptOutRow db inb orgB inb.eventId .applied sigHash noon, hreach.run hack, ?_,
    horigin, of_decide_eq_true rfl, agent, ?_⟩
  · rw [show Federation.pageSize = (Federation.pageSize - 1) + 1 from rfl, dueReceipts_alone hrows rfl rfl]
    exact List.mem_singleton_self _
  · show IsAddress inb.target agent twoOrgs.receiver
    rw [hcopies.target, hf.target, ← hfamily']
    exact haddress

theorem hears_b : twoOrgs.Hears runtimeA recordB := ⟨⟨rfl, rfl, rfl⟩, rfl, fun _ => rfl⟩

/-! ## Main results -/

/-- The receiver has the event of the row, its recipient has acknowledged it there, and the original
is a receipt that the receiver signed. -/
structure Backed (P : Parties) (s : Correspondence) (row : OutboundRow) (o : ReceiptOriginalRow) :
    Prop where
  stored : ∃ inb ∈ s.inDb.federationInbound, inb.origin = P.sender ∧ Copies row inb
  acked : hasAck s.inDb o.eventId (localPart o.agent) o.ackType = true
  signed : ∃ r ∈ s.inDb.federationReceiptOut, Redeems P r o

/-- In every reached state the receipts that the sender has stored are about its own events, each for
its own target, and behind one for the receiver are the event and the acknowledgement there; and a
merged receipt is the first of those that came in for it. -/
theorem receipts_agree (P : Parties) (huuid : Function.Injective P.uuid5) (s : Correspondence)
    (h : Reach (correspondence P) P.Fair s) :
    (∀ o ∈ s.outDb.federationReceiptInOriginals, ∃ row ∈ s.outDb.federationOutbound,
      row.eventId = o.eventId ∧ row.target = o.agent ∧
        (row.targetFamily = P.receiver → Backed P s row o)) ∧
    ∀ m ∈ s.outDb.federationReceiptIn, ∃ o ∈ s.outDb.federationReceiptInOriginals,
      o.id = m.originalId ∧ originalKey o = mergedKey m ∧ o.isVariant = false := by
  have hinvariant := corresponded_of_reach huuid h
  have hexchanged := exchanged_of_reach huuid hinvariant.base
  refine ⟨fun o ho => ?_, fun m hm => ?_⟩
  · obtain ⟨row, hrow, heventId, htarget, howes⟩ := hinvariant.stated o ho
    refine ⟨row, hrow, heventId, htarget, fun hfamily => ?_⟩
    obtain ⟨r, hr, hredeems⟩ := howes hfamily
    obtain ⟨inb, hinb, howed, row', hrow', -, hcopies, -, -⟩ :=
      hinvariant.about huuid hr hredeems.origin
    -- the copy is of the row that the receipt is about, for ids are stored once
    have hsame : row' = row := by
      refine List.inj_on_of_nodup_map (orderly_of_reach hexchanged.sender).eventIds hrow' hrow ?_
      rw [heventId, ← hredeems.eventId, howed.eventId, hcopies.eventId]
    refine ⟨⟨inb, hinb, howed.origin.symm.trans hredeems.origin, hsame ▸ hcopies⟩, ?_,
      ⟨r, hr, hredeems⟩⟩
    rw [← hredeems.eventId, ← hredeems.agent, ← hredeems.ackType]
    exact howed.acked
  · have hledger := (notified_of_reach huuid hexchanged.notifier).tables.ledger
    have hmap := List.mem_map_of_mem (f := fun m => (mergedKey m, m.issuer, m.originalId)) hm
    rw [hledger.merged] at hmap
    obtain ⟨o, ho, hsame⟩ := List.mem_map.mp hmap
    obtain ⟨hmem, hfirst⟩ := List.mem_filter.mp ho
    obtain ⟨hkey, hrest⟩ := Prod.mk.inj hsame
    exact ⟨o, hmem, (Prod.mk.inj hrest).2, hkey, by simpa using hfirst⟩

/-- `alice` reads that `bob` has acknowledged her message, and he has. -/
theorem receipts_agree_bob : ∃ s row o, o ∈ s.outDb.federationReceiptInOriginals ∧
    row ∈ s.outDb.federationOutbound ∧ Backed twoOrgs s row o := by
  obtain ⟨s, r, hs, hdue, horigin, hat, agent, haddress⟩ := reach_acknowledged
  have hpeer : twoOrgs.fed.registry.receiptsPeer twoOrgs.sender = some recordA := rfl
  obtain ⟨s', hrun, m, hm, hkey⟩ := run_merges hs Function.injective_id hdue horigin hat hpeer
    hears_b (.ok .sent) (fun _ => false) none
  have hs' := hs.run hrun
  obtain ⟨hbacked, hmerged⟩ := receipts_agree twoOrgs Function.injective_id s' hs'
  obtain ⟨o, ho, -, hsame, -⟩ := hmerged m hm
  obtain ⟨row, hrow, -, htarget, hback⟩ := hbacked o ho
  refine ⟨s', row, o, ho, hrow, hback ?_⟩
  obtain ⟨f, hf⟩ := (exchanged_of_reach Function.injective_id
    (corresponded_of_reach Function.injective_id hs').base).composed row hrow
  obtain ⟨agent', haddress'⟩ := hf.family
  have hagent : o.agent = r.agent := (Prod.mk.inj (Prod.mk.inj (hsame.trans hkey)).2).1
  rw [← hf.target, htarget, hagent] at haddress'
  exact (agent_of_address haddress' haddress).2

/-- Whatever the network has done and however often either process has died, a receipt that is due
at the receiver can still be merged by the sender. -/
theorem receipt_stays_possible (P : Parties) (huuid : Function.Injective P.uuid5) (s : Correspondence)
    (h : Reach (correspondence P) P.Fair s) (now : Time) (r : ReceiptOutRow)
    (hdue : r ∈ dueReceipts s.inDb now pageSize) (horigin : r.origin = P.sender)
    (hat : timestampOk r.atTime = true) (peer : PeerRecord)
    (hpeer : P.fed.registry.receiptsPeer P.sender = some peer) (fed : Runtime) (rec : PeerRecord)
    (hhears : P.Hears fed rec) (answer : Answer) (woken : NotificationRow → Bool)
    (cursor : Option HintCursor) : ∃ s', Run (correspondence P) P.Fair s s' ∧
      ∃ m ∈ s'.outDb.federationReceiptIn, mergedKey m = keyOf r :=
  run_merges h huuid hdue horigin hat hpeer hhears answer woken cursor

theorem receipt_stays_possible_bob : ∃ s r, Reach (correspondence twoOrgs) twoOrgs.Fair s ∧
    ∃ m ∈ s.outDb.federationReceiptIn, mergedKey m = keyOf r := by
  obtain ⟨s, r, hs, hdue, horigin, hat, -⟩ := reach_acknowledged
  obtain ⟨s', hrun, hmerged⟩ := receipt_stays_possible twoOrgs Function.injective_id s hs noon r hdue
    horigin hat recordA rfl runtimeA recordB hears_b (.ok .sent) (fun _ => false) none
  exact ⟨s', r, hs.run hrun, hmerged⟩

end Exchange
end ATalk
