import ATalk.Federation.Outbox

/-!
# What a send leaves behind

`federation_send` taken apart: what its checks let through, and the one row a send that is
accepted anew adds to the outbox.

* `Queued` : a send the outbox takes;
* `federationSend_cases` : nothing is written, or the one row of a queued send;
* `federationSend_of_queued` : a send the outbox takes is answered with a 201.
-/

namespace ATalk
namespace Federation

open Text Json Python ATalk.Core

variable {fed : Runtime} {db db' : Db} {source target family newId : Str} {body : Dict}
  {now : Time} {reply : Reply}

/-! ## What a body asks for -/

def bodyPayload (body : Dict) : Dict :=
  match getNone (lit "payload") body with
  | .dict d => d
  | _ => []

def bodyText (body : Dict) : Str :=
  match getNone (lit "text") (bodyPayload body) with
  | .str s => s
  | _ => []

def bodyType (body : Dict) : Str :=
  match getDefault (lit "type") body (.str (lit "message")) with
  | .str s => s
  | _ => []

def bodyReplies (body : Dict) : Bool :=
  match getNone (lit "in_reply_to") (bodyPayload body) with
  | .none => false
  | _ => true

/-! ## Reading the checks back -/

theorem replyTo_ok {payload : Dict} {type : Str} {r : Option Str}
    (h : replyTo payload type = .ok r) :
    (r = none ∧ getNone (lit "in_reply_to") payload = .none) ∨
      ∃ s, r = some s ∧ getNone (lit "in_reply_to") payload = .str s ∧ type = lit "reply" ∧
        uuidRe s = true := by
  unfold replyTo at h
  split at h
  · next hn =>
    cases h
    exact .inl ⟨rfl, hn⟩
  · split_ifs at h with ht
    split at h
    · next s hs =>
      split_ifs at h with hu
      cases h
      exact .inr ⟨s, rfl, hs, not_not.mp ht, hu⟩
    · cases h

/-- What the checks before composing let through. -/
structure Checked (fed : Runtime) (src tgt : Str) (body : Dict) (fam : Str)
    (r : SendRequest) : Prop where
  registered : ∃ rec, fed.registry.receiptsPeer fam = some rec
  source : r.source = src
  target : r.target = tgt
  family : r.family = fam
  type : bodyType body = r.type
  text : bodyText body = r.text
  reply : bodyReplies body = r.inReplyTo.isSome
  eventId : uuidRe r.eventId = true
  bare : ofChar '@' ∉ src

theorem checkSend_ok {r : SendRequest}
    (h : checkSend fed source target body family newId = .ok (.ok r)) :
    Checked fed source target body family r := by
  unfold checkSend at h
  split at h
  · cases h
  next rec hrec =>
    split at h
    next type htype =>
      split at h
      · cases h
      split at h
      next payload hpay =>
        split at h
        next text htext =>
          split at h
          · cases h
          · split at h
            · cases h
            next inReplyTo hreply =>
              split at h
              · cases h
              next eventId hid =>
                split at h
                · cases h
                next hu =>
                split at h
                · cases h
                next hat =>
                simp only [Except.ok.injEq] at h
                subst h
                have hpayload : bodyPayload body = payload := by rw [bodyPayload, hpay]
                refine ⟨⟨rec, hrec⟩, rfl, rfl, rfl, ?_, ?_, ?_, by simpa using hu, hat⟩
                · rw [bodyType, htype]
                · rw [bodyText, hpayload, htext]
                · rw [bodyReplies, hpayload]
                  rcases replyTo_ok hreply with ⟨rfl, hn⟩ | ⟨s, rfl, hs, -⟩
                  · rw [hn]
                    rfl
                  · rw [hs]
                    rfl
        · cases h
      · cases h
    · cases h

/-! ## What is queued -/

theorem enqueueOutbound_some {p : OutboundParams} {e : Enqueued}
    (h : enqueueOutbound fed db p now = some (db', e)) :
    (e = .existing ∧ db' = db ∧ (findOutbound db p.eventId).isSome) ∨
      (e = .queued ∧ findOutbound db p.eventId = none ∧ pendingOutbound db < fed.outboxCap ∧
        db' = { db with federationOutbound := db.federationOutbound ++
          [outboundRow db p (fed.stableIntentId [lit "send_failed", p.eventId]) now] }) := by
  unfold enqueueOutbound at h
  split at h
  · next row hrow =>
    cases h
    exact .inl ⟨rfl, rfl, by rw [hrow]; rfl⟩
  · next hnone =>
    split_ifs at h with hcap
    cases h
    exact .inr ⟨rfl, hnone, not_le.mp hcap, rfl⟩

theorem strMember_sig (f : EventFields) (sig : Str) :
    strMember (lit "sig") (withSig (signedEvent f) sig) = some sig := rfl

theorem withoutSig_withSig (f : EventFields) (sig : Str) :
    withoutSig (withSig (signedEvent f) sig) = signedEvent f := rfl

/-- The signature of the envelope of a request. -/
def SendRequest.sig (r : SendRequest) (fed : Runtime) (now : Time) : Str :=
  signature fed.crypto fed.identity (signedEvent (r.fields fed now))

/-- The row of a request that is queued. -/
def SendRequest.row (r : SendRequest) (fed : Runtime) (db : Db) (raw : Bytes) (now : Time) :
    OutboundRow :=
  outboundRow db (r.params fed (withSig (signedEvent (r.fields fed now)) (r.sig fed now)) raw
    (r.sig fed now)) (fed.stableIntentId [lit "send_failed", r.eventId]) now

/-- A send the outbox takes: its checks pass, its fields are valid, its id is new and there is
room. -/
structure Queued (fed : Runtime) (db : Db) (src tgt : Str) (body : Dict) (fam newId : Str)
    (now : Time) (r : SendRequest) : Prop where
  checks : checkSend fed src tgt body fam newId = .ok (.ok r)
  valid : (r.fields fed now).Valid
  fresh : findOutbound db r.eventId = none
  room : pendingOutbound db < fed.outboxCap

/-- What a queued send makes of the ledger. -/
def SendRequest.stored (r : SendRequest) (fed : Runtime) (db : Db) (raw : Bytes) (now : Time) :
    Db :=
  { db with federationOutbound := db.federationOutbound ++ [r.row fed db raw now] }

/-- The bytes of a valid request are as long as its fields say. -/
theorem length_of_eventBytes {r : SendRequest} {raw : Bytes} (hvalid : (r.fields fed now).Valid)
    (hraw : eventBytes (r.fields fed now) (r.sig fed now) = some raw) :
    raw.length = eventSize (r.fields fed now) := by
  obtain ⟨raw', hraw', hlen⟩ :=
    length_eventBytes fed.crypto fed.identity hvalid
  rw [← hlen, Option.some.inj (hraw.symm.trans hraw')]

theorem Queued.enqueue {r : SendRequest}
    (h : Queued fed db source target body family newId now r) (raw : Bytes) :
    enqueueOutbound fed db (r.params fed (withSig (signedEvent (r.fields fed now))
      (r.sig fed now)) raw (r.sig fed now)) now = some (r.stored fed db raw now, .queued) := by
  unfold enqueueOutbound
  rw [show findOutbound db (SendRequest.params r fed _ raw _).eventId = none from h.fresh]
  simp only [if_neg (not_le.mpr h.room)]
  rfl

/-- A send the outbox takes is answered with a 201. -/
theorem federationSend_of_queued {r : SendRequest}
    (h : Queued fed db source target body family newId now r) :
    ∃ raw, eventBytes (r.fields fed now) (r.sig fed now) = some raw ∧
      federationSend fed db source target body family newId now =
        .ok (r.stored fed db raw now, ⟨201, sendItem (r.row fed db raw now) r⟩) := by
  obtain ⟨raw, hraw, -⟩ :=
    length_eventBytes fed.crypto fed.identity h.valid
  refine ⟨raw, hraw, ?_⟩
  have henv : composeEvent fed.crypto fed.identity r.source r.target r.type r.text r.eventId now
      r.inReplyTo = .ok (withSig (signedEvent (r.fields fed now)) (r.sig fed now)) :=
    compose_event_ok_iff.mpr ⟨h.valid, rfl⟩
  have hput := h.enqueue raw
  have hfind : findOutbound (r.stored fed db raw now) r.eventId = some (r.row fed db raw now) := by
    have hnone : db.federationOutbound.find? (·.eventId = r.eventId) = none := h.fresh
    have hrow : (r.row fed db raw now).eventId = r.eventId := rfl
    simp only [findOutbound, SendRequest.stored, List.find?_append, hnone, Option.none_or,
      List.find?_cons, hrow, decide_true]
  unfold federationSend
  rw [h.checks]
  simp only [sendChecked, henv]
  unfold queueSend
  rw [show canonicalBytes (withSig (signedEvent (r.fields fed now)) (r.sig fed now)) = some raw
    from hraw]
  simp only [strMember_sig, Option.getD_some, hput, hfind, reduceCtorEq, false_and, if_false]

/-- A send writes nothing, or the one row of a queued request with the bytes of its envelope. -/
theorem federationSend_cases
    (h : federationSend fed db source target body family newId now = .ok (db', reply)) :
    db' = db ∨ ∃ r raw, Queued fed db source target body family newId now r ∧
      eventBytes (r.fields fed now) (r.sig fed now) = some raw ∧
      (db', reply) = (r.stored fed db raw now, ⟨201, sendItem (r.row fed db raw now) r⟩) := by
  by_cases hq : ∃ r, Queued fed db source target body family newId now r
  · obtain ⟨r, hq⟩ := hq
    obtain ⟨raw, hraw, hsend⟩ := federationSend_of_queued hq
    exact .inr ⟨r, raw, hq, hraw, Except.ok.inj (h.symm.trans hsend)⟩
  left
  unfold federationSend at h
  split at h
  · cases h
  · cases h
    rfl
  next r hr =>
    unfold sendChecked at h
    split at h
    · cases h
    · cases h
      rfl
    next envelope henv =>
      obtain ⟨hvalid, rfl⟩ := compose_event_ok_iff.mp henv
      unfold queueSend at h
      split at h
      · cases h
      next raw hraw =>
        simp only [strMember_sig, Option.getD_some] at h
        split at h
        · cases h
          rfl
        next db'' e he =>
          split at h
          · cases h
          next row' hrow' =>
            have hdb : db'' = db' := by
              split_ifs at h <;> (cases h; rfl)
            subst hdb
            rcases enqueueOutbound_some he with ⟨-, hdb, -⟩ | ⟨-, hnone, hcap, -⟩
            · exact hdb
            · exact absurd ⟨r, hr, hvalid, hnone, hcap⟩ hq

end Federation
end ATalk
