import ATalk.Exchange.Agreement

/-!
# What the sender makes of the receiver's answer

The inbox answers with one of a few statuses, and the worker of the sender takes them for what they
are: what counts as sent is stored, and neither an event that is given up nor one that is tried again
was stored by the call.

* `transport_stored`, `transport_duplicate` : the two bodies that count;
* `inbox_verdict` : every answer of the inbox.
-/

namespace ATalk
namespace Exchange

open Text Json Python Calendar ATalk.Core Federation Server Transition Callers Checks

variable {fed : Runtime} {db db' : Db} {raw : Bytes} {now : Time}
  {parsedate : Str → Option When} {clock : Moment}

/-! ## Answers -/

/-- The bodies that count. -/
theorem transport_confirms {word : String} {n : ℕ}
    (hsize : (encode (dumpsStrings [(lit "status", lit word)])).map List.length = some n)
    (hn : n ≤ maxResponseBytes) (hword : word = "stored" ∨ word = "duplicate") :
    sendEnvelope parsedate clock (statusReply 200 word).transport = .sent := by
  obtain ⟨raw, hraw, rfl⟩ := Option.map_eq_some_iff.mp hsize
  refine sendEnvelope_sent_iff.mpr ⟨raw, transport_answered (by decide) hraw, hn, _, _, lit word,
    decode_encode hraw, parseJsonText_dumpsStrings (by simp) (by simp), rfl, ?_⟩
  rcases hword with rfl | rfl
  · exact .inl rfl
  · exact .inr rfl

theorem transport_stored :
    sendEnvelope parsedate clock (statusReply 200 "stored").transport = .sent :=
  transport_confirms (n := 20) (by decide +kernel) (by decide) (.inl rfl)

theorem transport_duplicate :
    sendEnvelope parsedate clock (statusReply 200 "duplicate").transport = .sent :=
  transport_confirms (n := 23) (by decide +kernel) (by decide) (.inr rfl)

/-- What the sender makes of an answer that is no success: some end the row, some leave it. -/
inductive Refused (parsedate : Str → Option When) (clock : Moment) (reply : Reply) : Prop where
  | final (error : Str) (h : sendEnvelope parsedate clock reply.transport = .permanent error)
      (hstatus : reply.status ∈ [400, 403, 409, 413, 422])
  | again (error : Str) (h : sendEnvelope parsedate clock reply.transport = .retry error none)
      (hstatus : reply.status ∈ [429, 500])

theorem refused_of_status {reply : Reply}
    (h : reply.status ∈ [400, 403, 409, 413, 422] ∨ reply.status ∈ [429, 500]) :
    Refused parsedate clock reply := by
  have hsuccess : ¬ (200 ≤ reply.status ∧ reply.status < 300) := by
    simp only [List.mem_cons, List.not_mem_nil, or_false] at h
    omega
  have htransport : reply.transport = .httpError reply.status none := by
    rw [Reply.transport, if_neg hsuccess]
  have hredirect : ¬ (300 ≤ reply.status ∧ reply.status < 400) := by
    simp only [List.mem_cons, List.not_mem_nil, or_false] at h
    omega
  rcases h with hstatus | hstatus
  · -- the sender gives up on these, and tries again after a 429 and after anything else
    have hlimited : reply.status ≠ 429 := by
      intro h429
      rw [h429] at hstatus
      exact absurd hstatus (by decide)
    have hpermanent : reply.status ∈ permanentHttp := by
      simp only [List.mem_cons, List.not_mem_nil, or_false, permanentHttp] at hstatus ⊢
      omega
    refine .final (lit s!"http_{reply.status}") ?_ hstatus
    rw [htransport, sendEnvelope, if_neg hredirect, if_neg hlimited, if_pos hpermanent]
  · by_cases hlimited : reply.status = 429
    · refine .again (lit "http_429") ?_ hstatus
      rw [htransport, sendEnvelope, if_neg hredirect, if_pos hlimited]
      rfl
    · have hpermanent : reply.status ∉ permanentHttp := by
        simp only [List.mem_cons, List.not_mem_nil, or_false, permanentHttp] at hstatus ⊢
        omega
      refine .again (lit s!"http_{reply.status}") ?_ hstatus
      rw [htransport, sendEnvelope, if_neg hredirect, if_neg hlimited, if_neg hpermanent]

/-! ## The inbox -/

theorem fedErrorStatus_mem (e : FederationError) : fedErrorStatus e ∈ [400, 403, 409, 413, 422] := by
  unfold fedErrorStatus
  split_ifs <;> decide

theorem admitInbound_refused {limits : RateLimits} {env : Envelope} {reply : Reply}
    (h : admitInbound fed db limits env = .error reply) :
    reply.status ∈ [400, 403, 409, 413, 422] ∨ reply.status ∈ [429, 500] := by
  unfold admitInbound at h
  split at h
  · cases h
    exact .inl (by decide)
  split at h
  · cases h
    exact .inl (List.mem_cons_of_mem _ List.mem_cons_self)
  split_ifs at h
  · cases h
    exact .inr (by decide)
  simp only at h
  split_ifs at h
  · cases h
    exact .inl (by decide)
  · cases h
    exact .inl (by decide)

/-- The event that the body names is stored, with these bytes. -/
def Kept (fed : Runtime) (db : Db) (raw : Bytes) : Prop :=
  ∃ p, Admitted fed raw p ∧ ∃ inb ∈ db.federationInbound,
    inb.origin = p.origin ∧ inb.eventId = p.eventId ∧ inb.eventJcs = p.eventJcs

theorem Kept.delivered (hd : Delivered db db') {p : InboundParams} (hadmitted : Admitted fed raw p)
    {inb : InboundRow} (hinb : inb ∈ db.federationInbound) (horigin : inb.origin = p.origin)
    (heventId : inb.eventId = p.eventId) (hjcs : inb.eventJcs = p.eventJcs) : Kept fed db' raw := by
  obtain ⟨inb', hinb', hfixed⟩ := Rises.of_fixed hd.rows inb hinb
  exact ⟨p, hadmitted, inb', hinb', (congrArg InboundRow.origin hfixed :).trans horigin,
    (congrArg InboundRow.eventId hfixed :).trans heventId,
    (congrArg InboundRow.eventJcs hfixed :).trans hjcs⟩

/-- The outcome of the sender, and the store that the call leaves. -/
inductive Verdict (fed : Runtime) (db : Db) (raw : Bytes) (parsedate : Str → Option When)
    (clock : Moment) (answer : Db × Reply) : Prop where
  | sent (h : sendEnvelope parsedate clock answer.2.transport = .sent)
      (hkept : Kept fed answer.1 raw)
  | permanent (error : Str)
      (h : sendEnvelope parsedate clock answer.2.transport = .permanent error)
      (hdb : ∃ rows, answer.1 = { db with federationInboundConflicts := rows })
  | retry (error : Str) (h : sendEnvelope parsedate clock answer.2.transport = .retry error none)
      (hdb : answer.1 = db)

/-- A refusal that wrote nothing. -/
theorem Verdict.refused {reply : Reply}
    (h : reply.status ∈ [400, 403, 409, 413, 422] ∨ reply.status ∈ [429, 500]) :
    Verdict fed db raw parsedate clock (db, reply) := by
  have hrefused : Refused parsedate clock reply := refused_of_status h
  cases hrefused with
  | final error houtcome => exact .permanent error houtcome ⟨db.federationInboundConflicts, rfl⟩
  | again error houtcome => exact .retry error houtcome rfl

theorem storeInbound_verdict (envr : Env) {p : InboundParams} (hadmitted : Admitted fed raw p) :
    Verdict fed db raw parsedate clock (storeInbound envr db p now) := by
  unfold storeInbound
  cases hreceive : receiveEvent envr db p now with
  | error e => exact .refused (.inr (by decide))
  | ok x =>
    obtain ⟨db', res⟩ := x
    rcases receiveEvent_cases hreceive with ⟨rfl, hs⟩ | ⟨row, rfl, hrow, hjcs, hsame⟩ |
      ⟨reason, rows, rfl, hsame⟩
    · -- a new event
      have hnew : inboundRow db p now ∈ db'.federationInbound := by
        rw [hs.inbound]
        exact List.mem_append_right _ (List.mem_singleton_self _)
      exact .sent transport_stored (Kept.delivered (deliverPending_delivered db') hadmitted hnew rfl
        rfl rfl)
    · -- a duplicate, whose bytes are those of the stored event
      have hkey := List.find?_some hrow
      rw [Bool.and_eq_true, decide_eq_true_eq, decide_eq_true_eq] at hkey
      have hkept : ∀ db', Delivered db db' → Kept fed db' raw := fun db' hd =>
        Kept.delivered hd hadmitted (List.mem_of_find?_eq_some hrow) hkey.1 hkey.2 hjcs
      refine .sent transport_duplicate (hkept _ ?_)
      simp only [hsame]
      split_ifs
      · exact deliverPending_delivered _
      · exact .refl _
    · -- a conflict is final
      have hrefused : Refused parsedate clock (statusReply 409 "conflict") :=
        refused_of_status (.inl (by decide))
      cases hrefused with
      | final error houtcome => exact .permanent error houtcome ⟨rows, hsame⟩
      | again error houtcome hstatus => exact absurd hstatus (by decide)

/-- What counts as sent is stored; a row that ends left a conflict behind at most; and one that is
tried again left nothing. -/
theorem inbox_verdict (envr : Env) (fed : Runtime) (db : Db) (limits : RateLimits) (raw : Bytes)
    (now : Time) (parsedate : Str → Option When) (clock : Moment) :
    Verdict fed db raw parsedate clock (federationInbox envr fed db limits raw now) := by
  unfold federationInbox
  split_ifs with hconn
  · exact .refused (.inr (by decide))
  split
  · next e hparse =>
    cases e with
    | federation e => exact .refused (.inl (fedErrorStatus_mem e))
    | unicodeEncode => exact .refused (.inr (by decide))
  next env hparse =>
  split
  · next reply hpass => exact .refused (admitInbound_refused hpass)
  · next p hpass => exact storeInbound_verdict envr (admitted_of_admitInbound hparse hpass)

end Exchange
end ATalk
