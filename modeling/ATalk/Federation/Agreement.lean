import ATalk.Federation.Send

/-!
# What the sender accepts and what the receiver accepts

The sender checks the decoded text and the composed dictionary; the receiver first checks the
length of the encoded body. The two agree except on length: every envelope the outbox takes
is one the receiver's schema takes, and the receiver refuses it exactly when escaping has
made its body longer than the limit.

* `sentSize` : the length of an envelope, from what the caller sent;
* `queued_accepted_iff` : when the receiver accepts it.
-/

namespace ATalk
namespace Federation

open Text Json Python ATalk.Core

/-- How long the envelope of a body is: its escaped text, its names, and a fixed part. -/
def sentSize (identity : Identity) (source target : Str) (body : Dict) : ℕ :=
  302 + escapedSize (bodyText body) + source.length + target.length + (bodyType body).length +
    identity.keyId.length + 2 * identity.family.length + if bodyReplies body then 53 else 0

/-- The receiver of a queued row accepts its bytes and reads the composed envelope. -/
def Accepted (row : OutboundRow) : Prop :=
  ∃ env, parseEvent row.envelopeJson = .ok env ∧ env.kind = eventKind ∧
    env.signed = row.signedJson ∧ env.sigStr = row.sig

theorem eventSize_fields {fed : Runtime} {source target : Str} {body : Dict} {family : Str}
    {r : SendRequest} (h : Checked fed source target body family r) (now : Time) :
    eventSize (r.fields fed now) = sentSize fed.identity source target body := by
  have hreply : (if r.inReplyTo = none then 0 else 53) = if r.inReplyTo.isSome then 53 else 0 := by
    cases r.inReplyTo <;> rfl
  rw [eventSize, sentSize, SendRequest.fields, composedFields, h.type, h.text, h.reply, h.source,
    h.target]
  simp only [List.length_append, List.length_cons, hreply]
  generalize (if r.inReplyTo.isSome = true then 53 else 0) = k, escapedSize r.text = t
  omega

/-- The receiver accepts a newly queued event exactly when its body fits the limit. -/
theorem queued_accepted_iff (fed : Runtime) (db db' : Db) (source target : Str) (body : Dict)
    (family newId : Str) (now : Time) (reply : Reply) (row : OutboundRow)
    (h : federationSend fed db source target body family newId now = .ok (db', reply))
    (hnew : db'.federationOutbound = db.federationOutbound ++ [row]) :
    Accepted row ↔ sentSize fed.identity source target body ≤ requestBodyLimit := by
  rcases federationSend_cases h with hsame | ⟨r, raw, hq, hraw, hout⟩
  · rw [hsame, List.self_eq_append_right] at hnew
    cases hnew
  have hrow : row = r.row fed db raw now := by
    rw [(Prod.mk.inj hout).1, SendRequest.stored, List.append_cancel_left_eq, List.cons.injEq] at hnew
    exact hnew.1.symm
  subst hrow
  rw [← eventSize_fields (checkSend_ok hq.checks) now, ← length_of_eventBytes hq.valid hraw]
  constructor
  · rintro ⟨env, hparse, -⟩
    exact ((parseEvent_composed hq.valid hraw).mp hparse).1
  · intro hl
    exact ⟨_, (parseEvent_composed hq.valid hraw).mpr ⟨hl, rfl⟩, rfl, rfl, rfl⟩

/-! ## A text of quotes -/

/-- A stand-in for the crypto backend, of the right shape. -/
def plainCrypto : Crypto where
  sign _ _ := List.replicate 64 0
  verify _ _ _ := .ok ()
  sha256 _ := List.replicate 64 (ofChar '0')
  length_sign _ _ := rfl
  hex_sha256 _ := by decide

def orgA : Identity where
  family := lit "org-a"
  keyId := lit "oa-1"
  seed := []
  family_ok := by decide
  keyId_ok := by decide

def peerB : PeerRecord where
  family := lit "org-b"
  keyId := lit "ob-1"
  publicKey := lit "pk"
  publicKeyBytes := []
  inboxUrl := lit "https://b.example/federation/inbox"
  receiptsUrl := lit "https://b.example/federation/receipts"

/-- Instance `org-a`, with `org-b` in its registry. -/
def fedA : Runtime where
  crypto := plainCrypto
  identity := orgA
  registry := ⟨[peerB], by decide⟩
  outboxCap := 1000
  uuid5 := id

def textBody (text : Str) : Dict :=
  [(lit "source", .str (lit "alice")), (lit "target", .str (lit "bob@org-b")),
    (lit "event_id", .str (lit "00000000-0000-4000-8000-000000000001")),
    (lit "payload", .dict [(lit "text", .str text)])]

def aliceRequest (text : Str) : SendRequest :=
  ⟨lit "alice", lit "bob@org-b", lit "org-b", lit "message", text, none,
    lit "00000000-0000-4000-8000-000000000001"⟩

def noon : Time := lit "2026-10-01T12:00:00Z"

theorem checkSend_textBody (text : Str) :
    checkSend fedA (lit "alice") (lit "bob@org-b") (textBody text) (lit "org-b") [] =
      .ok (.ok (aliceRequest text)) := rfl

theorem valid_aliceRequest {text : Str} (hc : Clean text) (hl : byteSize text ≤ textLimit) :
    ((aliceRequest text).fields fedA noon).Valid where
  origin := show familyRe (lit "org-a") = true by decide
  keyId := show keyIdRe (lit "oa-1") = true by decide
  eventId := show uuidRe (lit "00000000-0000-4000-8000-000000000001") = true by decide
  type := show lit "message" ∈ eventTypes by decide
  source := ⟨lit "alice", rfl, by decide, show familyRe (lit "org-a") = true by decide⟩
  target := ⟨lit "bob", lit "org-b", rfl, by decide, by decide⟩
  createdAt := show timestampOk (lit "2026-10-01T12:00:00Z") = true by decide
  text := ⟨hc, hl⟩
  inReplyTo := nofun

theorem queued_textBody {text : Str} (hc : Clean text) (hl : byteSize text ≤ textLimit) :
    Queued fedA {} (lit "alice") (lit "bob@org-b") (textBody text) (lit "org-b") [] noon
      (aliceRequest text) where
  checks := checkSend_textBody text
  valid := valid_aliceRequest hc hl
  fresh := rfl
  room := by decide

theorem replicate_quotes (n : ℕ) : Clean (List.replicate n (ofChar '"')) ∧
    byteSize (List.replicate n (ofChar '"')) = n ∧
    escapedSize (List.replicate n (ofChar '"')) = 2 * n := by
  have hs : charSize (ofChar '"') = 1 := by decide
  have he : byteSize (escape (ofChar '"')) = 2 := by decide
  induction n with
  | zero => exact ⟨clean_nil, rfl, rfl⟩
  | succ n ih =>
    rw [List.replicate_succ]
    refine ⟨clean_cons.mpr ⟨by decide, ih.1⟩, ?_, ?_⟩
    · rw [byteSize_cons, ih.2.1, hs]
      omega
    · have := ih.2.2
      rw [escapedSize] at this
      rw [escapedSize, List.flatMap_cons, byteSize_append, he, this]
      omega

/-- A short message is queued, and its envelope accepted. -/
theorem queued_accepted_hello : ∃ db' reply row,
    federationSend fedA {} (lit "alice") (lit "bob@org-b") (textBody (lit "hello")) (lit "org-b") []
      noon = .ok (db', reply) ∧ db'.federationOutbound = [row] ∧ Accepted row := by
  obtain ⟨raw, -, h⟩ := federationSend_of_queued
    (queued_textBody (show Clean (lit "hello") by decide) (by decide))
  exact ⟨_, _, _, h, rfl,
    (queued_accepted_iff fedA {} _ _ _ _ _ _ noon _ _ h rfl).mpr (by decide)⟩

/-- As many quotes as the text limit allows: queued with a 201, and refused by the receiver for
the size of its body. -/
theorem quotes_queued_and_refused : ∃ db' reply row,
    federationSend fedA {} (lit "alice") (lit "bob@org-b")
        (textBody (List.replicate 8192 (ofChar '"'))) (lit "org-b") [] noon = .ok (db', reply) ∧
      reply.status = 201 ∧ db'.federationOutbound = [row] ∧
      (∃ size, parseEvent row.envelopeJson = .error (.federation (bodyTooLarge size))) ∧
      ¬ Accepted row := by
  obtain ⟨hclean, hsize, hescaped⟩ := replicate_quotes 8192
  have hq := queued_textBody hclean (by rw [hsize]; decide)
  obtain ⟨raw, hraw, h⟩ := federationSend_of_queued hq
  have hlong : requestBodyLimit < raw.length := by
    rw [length_of_eventBytes hq.valid hraw, eventSize, show ((aliceRequest (List.replicate 8192 (ofChar '"'))).fields fedA
      noon).text = List.replicate 8192 (ofChar '"') from rfl, hescaped, requestBodyLimit]
    omega
  have hrefused := parseEvent_too_large hlong
  refine ⟨_, _, _, h, rfl, rfl, ⟨_, hrefused⟩, ?_⟩
  rintro ⟨env, henv, -⟩
  exact absurd (hrefused.symm.trans henv) (by simp)

end Federation
end ATalk
