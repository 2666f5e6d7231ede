import ATalk.Federation.Notifications

/-!
# `POST /federation/receipts`

The handler of a receipt: it has to be about an event of ours, for us, from the family of the
event's target and signed with its registered key, and it has to name the stored signature and the
full target.

* `federationReceipts` : the handler, from the bytes of a request to an answer;
* `Bound` : what an admitted receipt is bound to, `admitReceipt_ok`;
* `federationReceipts_cases` : the outcomes.
-/

namespace ATalk
namespace Federation

open Text Json Python Transition ATalk.Core Checks

/-! ## The handler -/

/-- `str(target).rsplit("@", 1)[1]` -/
def familyPart (addr : Str) : Option Str :=
  if ofChar '@' ∈ addr then some ((addr.reverse.takeWhile (· ≠ ofChar '@')).reverse) else none

/-- `CHECK (ack_type IN ('received','applied'))` -/
def AckType.ofText (s : Str) : Option AckType :=
  if s = lit "received" then some .received
  else if s = lit "applied" then some .applied
  else none

/-- The receipt of an envelope, field by field. -/
def receiptField (env : Envelope) (key : String) : Str :=
  (strMember (lit key) (objMember (lit "receipt") env.signed)).getD []

def envelopeField (env : Envelope) (key : String) : Str := (strMember (lit key) env.signed).getD []

/-- What is stored of a receipt, with what its sender is told. -/
def receiptParams (env : Envelope) (out : OutboundRow) (ackType : AckType) : ReceiptParams where
  eventId := receiptField env "event_id"
  agent := receiptField env "agent"
  ackType := ackType
  issuer := envelopeField env "issuer"
  issuerKeyId := envelopeField env "key_id"
  signedJson := sorted env.signed
  sig := env.sigStr
  notifyAgent := some out.sourceLocal
  notifyDetail := [(lit "origin", out.origin), (lit "target", out.target),
    (lit "origin_event_sig_hash", receiptField env "origin_event_sig_hash")]

/-- The checks after the signature: the rate, the hash of the stored signature, the full target. -/
def bindReceipt (fed : Runtime) (limits : RateLimits) (env : Envelope) (out : OutboundRow) :
    Except Reply ReceiptParams :=
  if limits.family = false then .error (rejected 429 "rate_limited_family")
  else
    match decodeStrict out.sig 64 "signature_length" "schema" with
    | .error e => .error (raisedReply (.federation e))
    | .ok storedSig =>
      if receiptField env "origin_event_sig_hash" ≠ fed.crypto.sha256 storedSig then
        .error (rejected 403 "hash_mismatch")
      else if receiptField env "agent" ≠ out.target then .error (rejected 403 "agent_mismatch")
      else
        match AckType.ofText (receiptField env "ack_type") with
        | none => .error internalReply
        | some ackType => .ok (receiptParams env out ackType)

/-- The checks before it: our event, our family, the family of the target, its key. -/
def admitReceipt (fed : Runtime) (db : Db) (limits : RateLimits) (env : Envelope) :
    Except Reply ReceiptParams :=
  match findOutbound db (receiptField env "event_id") with
  | none => .error (rejected 403 "unknown_event")
  | some out =>
    if receiptField env "origin" ≠ fed.identity.family then
      .error (rejected 403 "origin_mismatch")
    else
      match familyPart out.target with
      | none => .error internalReply
      | some family =>
        if envelopeField env "issuer" ≠ family then
          .error (rejected 403 "issuer_not_target_family")
        else
          match fed.registry.lookup (envelopeField env "issuer") (envelopeField env "key_id") with
          | none => .error (rejected 403 "unregistered_key")
          | some rec =>
            match verifyEnvelope fed rec env with
            | .error e => .error (rejected 403 e.category)
            | .ok () => bindReceipt fed limits env out

def statusText : ReceiptStatus → String
  | .stored => "stored"
  | .duplicate => "duplicate"

/-- `woken` says which hints a live queue takes, `cursor` where the last scan stopped. -/
def federationReceipts (fed : Runtime) (db : Db) (limits : RateLimits) (raw : Bytes)
    (woken : NotificationRow → Bool) (cursor : Option HintCursor) (now : Time) : Db × Reply :=
  if limits.conn = false then (db, rejected 429 "rate_limited_conn")
  else
    match parseReceipt raw with
    | .error e => (db, raisedReply e)
    | .ok env =>
      match admitReceipt fed db limits env with
      | .error reply => (db, reply)
      | .ok p =>
        match recordReceiptIn fed db p now with
        | .error _ => (db, internalReply)
        | .ok (db', status) =>
          ((hintNotifications woken db' cursor).1, statusReply 200 (statusText status))

/-! ## What is admitted -/

variable {fed : Runtime} {db db' : Db} {limits : RateLimits} {env : Envelope} {p : ReceiptParams}
  {out : OutboundRow}

/-- What an admitted receipt is bound to. -/
structure Bound (fed : Runtime) (db : Db) (env : Envelope) (p : ReceiptParams) (out : OutboundRow)
    (rec : PeerRecord) : Prop where
  outbound : findOutbound db p.eventId = some out
  origin : receiptField env "origin" = fed.identity.family
  issuer : familyPart out.target = some p.issuer
  registered : fed.registry.lookup p.issuer p.issuerKeyId = some rec
  verified : verifyEnvelope fed rec env = .ok ()
  hash : ∃ sig, decodeStrict out.sig 64 "signature_length" "schema" = .ok sig ∧
    receiptField env "origin_event_sig_hash" = fed.crypto.sha256 sig
  agent : p.agent = out.target
  ackType : AckType.ofText (receiptField env "ack_type") = some p.ackType
  params : p = receiptParams env out p.ackType

theorem bindReceipt_cases (fed : Runtime) (limits : RateLimits) (env : Envelope)
    (out : OutboundRow) :
    (∃ reply, bindReceipt fed limits env out = .error reply ∧ reply.status ≠ 200) ∨
      ∃ ackType sig, bindReceipt fed limits env out = .ok (receiptParams env out ackType) ∧
        AckType.ofText (receiptField env "ack_type") = some ackType ∧
        decodeStrict out.sig 64 "signature_length" "schema" = .ok sig ∧
        receiptField env "origin_event_sig_hash" = fed.crypto.sha256 sig ∧
        receiptField env "agent" = out.target := by
  unfold bindReceipt
  by_cases hlimit : limits.family = false
  · rw [if_pos hlimit]
    exact .inl ⟨_, rfl, show (429 : ℕ) ≠ 200 by decide⟩
  · rw [if_neg hlimit]
    cases hsig : decodeStrict out.sig 64 "signature_length" "schema" with
    | error e =>
      refine .inl ⟨_, rfl, ?_⟩
      show fedErrorStatus e ≠ 200
      unfold fedErrorStatus
      split_ifs <;> decide
    | ok sig =>
      simp only
      split_ifs with hhash hagent
      · exact .inl ⟨_, rfl, show (403 : ℕ) ≠ 200 by decide⟩
      · exact .inl ⟨_, rfl, show (403 : ℕ) ≠ 200 by decide⟩
      · cases htype : AckType.ofText (receiptField env "ack_type") with
        | none => exact .inl ⟨_, rfl, show (500 : ℕ) ≠ 200 by decide⟩
        | some ackType =>
          exact .inr ⟨ackType, sig, rfl, rfl, rfl, not_not.mp hhash, not_not.mp hagent⟩

/-- A receipt is refused, with something else than a 200, or bound to one of our events. -/
theorem admitReceipt_cases (fed : Runtime) (db : Db) (limits : RateLimits) (env : Envelope) :
    (∃ reply, admitReceipt fed db limits env = .error reply ∧ reply.status ≠ 200) ∨
      ∃ p out rec, admitReceipt fed db limits env = .ok p ∧ Bound fed db env p out rec := by
  have h403 : (403 : ℕ) ≠ 200 := by decide
  unfold admitReceipt
  cases hout : findOutbound db (receiptField env "event_id") with
  | none => exact .inl ⟨_, rfl, h403⟩
  | some out =>
    simp only
    split_ifs with horigin
    · exact .inl ⟨_, rfl, h403⟩
    · cases hfamily : familyPart out.target with
      | none => exact .inl ⟨_, rfl, show (500 : ℕ) ≠ 200 by decide⟩
      | some family =>
        simp only
        split_ifs with hissuer
        · exact .inl ⟨_, rfl, h403⟩
        · cases hrec : fed.registry.lookup (envelopeField env "issuer")
              (envelopeField env "key_id") with
          | none => exact .inl ⟨_, rfl, h403⟩
          | some rec =>
            simp only
            cases hverify : verifyEnvelope fed rec env with
            | error e => exact .inl ⟨_, rfl, h403⟩
            | ok u =>
              simp only
              rcases bindReceipt_cases fed limits env out with hrefused |
                ⟨ackType, sig, hok, htype, hsig, hhash, hagent⟩
              · exact .inl hrefused
              · refine .inr ⟨receiptParams env out ackType, out, rec, hok, ⟨hout, not_not.mp horigin, ?_, hrec, hverify,
                  ⟨sig, hsig, hhash⟩, hagent, htype, rfl⟩⟩
                rw [hfamily, ← not_not.mp hissuer]
                rfl

/-- A 200 is the answer to an admitted receipt; every other answer leaves the database alone. -/
theorem federationReceipts_cases (fed : Runtime) (db : Db) (limits : RateLimits) (raw : Bytes)
    (woken : NotificationRow → Bool) (cursor : Option HintCursor) (now : Time) :
    ((federationReceipts fed db limits raw woken cursor now).1 = db ∧
        (federationReceipts fed db limits raw woken cursor now).2.status ≠ 200) ∨
      ∃ env p out rec db' status, parseReceipt raw = .ok env ∧
        admitReceipt fed db limits env = .ok p ∧ Bound fed db env p out rec ∧
        recordReceiptIn fed db p now = .ok (db', status) ∧
        federationReceipts fed db limits raw woken cursor now =
          ((hintNotifications woken db' cursor).1, statusReply 200 (statusText status)) := by
  unfold federationReceipts
  split_ifs with hconn
  · exact .inl ⟨rfl, show (429 : ℕ) ≠ 200 by decide⟩
  · cases henv : parseReceipt raw with
    | error e =>
      refine .inl ⟨rfl, ?_⟩
      cases e with
      | federation e =>
        show fedErrorStatus e ≠ 200
        unfold fedErrorStatus
        split_ifs <;> decide
      | unicodeEncode => exact show (500 : ℕ) ≠ 200 by decide
    | ok env =>
      simp only
      rcases admitReceipt_cases fed db limits env with ⟨reply, hreply, hstatus⟩ |
        ⟨p, out, rec, hallowed, hbound⟩
      · rw [hreply]
        exact .inl ⟨rfl, hstatus⟩
      · simp only [hallowed]
        cases hcall : recordReceiptIn fed db p now with
        | error e => exact .inl ⟨rfl, show (500 : ℕ) ≠ 200 by decide⟩
        | ok q =>
          obtain ⟨db', status⟩ := q
          exact .inr ⟨env, p, out, rec, db', status, rfl, hallowed, hbound, hcall, rfl⟩

end Federation
end ATalk
