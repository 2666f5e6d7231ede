import ATalk.Federation.Plain

/-!
# Composing envelopes

What an instance signs and ships: the event envelope of `compose_event` and the receipt envelope
of `compose_receipt`, both checked by the schema before they leave. The crypto backend is a
parameter; of it only the length of a signature and the form of a digest are used here.

* `parseEvent_composed` : the receiver of a composed event accepts its bytes exactly when they
  fit the body limit, and then reads the composed envelope;
* `length_eventBytes` : how long the bytes of a composed event are.
-/

namespace ATalk
namespace Federation

open Text Json Checks

/-- The crypto backend: Ed25519 on a seed, a strict verifier, and SHA-256 in hexadecimal. -/
structure Crypto where
  sign : Bytes → Bytes → Bytes
  verify : Bytes → Bytes → Bytes → Except FederationError Unit
  sha256 : Bytes → Str
  length_sign : ∀ seed message, (sign seed message).length = 64
  hex_sha256 : ∀ b, hex64Re (sha256 b) = true

/-- The local family, as `load_identity` lets it through. -/
structure Identity where
  family : Str
  keyId : Str
  seed : Bytes
  family_ok : familyRe family = true
  keyId_ok : keyIdRe keyId = true

/-! ## The signed objects -/

def eventObject (f : EventFields) : List (Str × Json) :=
  [(lit "event_id", .str f.eventId), (lit "type", .str f.type), (lit "source", .str f.source),
    (lit "target", .str f.target), (lit "created_at", .str f.createdAt),
    (lit "payload", .obj [(lit "text", .str f.text)])] ++
  match f.inReplyTo with
  | none => []
  | some r => [(lit "in_reply_to", .str r)]

def signedEvent (f : EventFields) : List (Str × Json) :=
  [(lit "kind", .str eventKind), (lit "origin", .str f.origin), (lit "key_id", .str f.keyId),
    (lit "event", .obj (eventObject f))]

def receiptObject (f : ReceiptFields) : List (Str × Json) :=
  [(lit "event_id", .str f.eventId), (lit "origin", .str f.origin),
    (lit "origin_event_sig_hash", .str f.sigHash), (lit "agent", .str f.agent),
    (lit "ack_type", .str f.ackType), (lit "at", .str f.atTime)]

def signedReceipt (f : ReceiptFields) : List (Str × Json) :=
  [(lit "kind", .str receiptKind), (lit "issuer", .str f.issuer), (lit "key_id", .str f.keyId),
    (lit "receipt", .obj (receiptObject f))]

/-- `envelope = dict(signed); envelope["sig"] = encode(sig)` -/
def withSig (signed : List (Str × Json)) (sig : Str) : List (Str × Json) :=
  signed ++ [(lit "sig", .str sig)]

/-- Sign, attach the signature, and check the result; the envelope is what was checked. -/
def compose (crypto : Crypto) (identity : Identity) (signed : List (Str × Json))
    (validate : List (Str × Json) → Except Raised Envelope) :
    Except Raised (List (Str × Json)) :=
  match canonicalBytes signed with
  | none => .error .unicodeEncode
  | some message => do
    let envelope := withSig signed (encodeB64 (crypto.sign identity.seed message))
    let _ ← validate envelope
    return envelope

/-- The fields `compose_event` signs. -/
def composedFields (identity : Identity) (sourceLocal target type text eventId : Str)
    (createdAt : Str) (inReplyTo : Option Str) : EventFields where
  origin := identity.family
  keyId := identity.keyId
  eventId := eventId
  type := type
  source := sourceLocal ++ ofChar '@' :: identity.family
  target := target
  createdAt := createdAt
  text := text
  inReplyTo := inReplyTo

def composeEvent (crypto : Crypto) (identity : Identity)
    (sourceLocal target type text eventId createdAt : Str) (inReplyTo : Option Str) :
    Except Raised (List (Str × Json)) :=
  compose crypto identity
    (signedEvent (composedFields identity sourceLocal target type text eventId createdAt inReplyTo))
    validateEventEnvelope

def composeReceipt (crypto : Crypto) (identity : Identity)
    (eventId origin sigHash agent ackType atTime : Str) : Except Raised (List (Str × Json)) :=
  compose crypto identity
    (signedReceipt ⟨identity.family, identity.keyId, eventId, origin, sigHash, agent, ackType,
      atTime⟩)
    validateReceiptEnvelope

/-! ## Signed objects say what their fields say -/

/-- The event of an envelope, its keys in canonical order. -/
def sortedEvent (f : EventFields) : List (Str × Json) :=
  (lit "created_at", .str f.createdAt) :: (lit "event_id", .str f.eventId) ::
  ((match f.inReplyTo with
  | none => []
  | some r => [(lit "in_reply_to", .str r)]) ++
  [(lit "payload", .obj [(lit "text", .str f.text)]), (lit "source", .str f.source),
    (lit "target", .str f.target), (lit "type", .str f.type)])

theorem sorted_eventObject (f : EventFields) : sorted (eventObject f) = sortedEvent f := by
  unfold sortedEvent eventObject
  cases f.inReplyTo <;> rfl

theorem sorted_signedEvent (f : EventFields) : sorted (signedEvent f) =
    [(lit "event", .obj (sortedEvent f)), (lit "key_id", .str f.keyId),
      (lit "kind", .str eventKind), (lit "origin", .str f.origin)] := by
  rw [← sorted_eventObject]
  rfl

theorem sorted_eventEnvelope (f : EventFields) (sig : Str) :
    sorted (withSig (signedEvent f) sig) =
      [(lit "event", .obj (sortedEvent f)), (lit "key_id", .str f.keyId),
        (lit "kind", .str eventKind), (lit "origin", .str f.origin), (lit "sig", .str sig)] := by
  rw [← sorted_eventObject]
  rfl

theorem sorted_receiptObject (f : ReceiptFields) : sorted (receiptObject f) =
    [(lit "ack_type", .str f.ackType), (lit "agent", .str f.agent), (lit "at", .str f.atTime),
      (lit "event_id", .str f.eventId), (lit "origin", .str f.origin),
      (lit "origin_event_sig_hash", .str f.sigHash)] := rfl

theorem eventReads_eventObject (f : EventFields) : EventReads (eventObject f) f := by
  obtain ⟨_, _, _, _, _, _, _, _, r⟩ := f
  cases r <;>
    exact ⟨of_decide_eq_true rfl, rfl, rfl, rfl, rfl, rfl, ⟨_, rfl, of_decide_eq_true rfl, rfl⟩, rfl⟩

theorem eventReads_sortedEvent (f : EventFields) : EventReads (sortedEvent f) f := by
  obtain ⟨_, _, _, _, _, _, _, _, r⟩ := f
  cases r <;>
    exact ⟨of_decide_eq_true rfl, rfl, rfl, rfl, rfl, rfl, ⟨_, rfl, of_decide_eq_true rfl, rfl⟩, rfl⟩

theorem eventEnvelopeReads_withSig (f : EventFields) (sig : Str) :
    EventEnvelopeReads (withSig (signedEvent f) sig) f :=
  ⟨rfl, rfl, _, rfl, eventReads_eventObject f⟩

theorem EventReads.injective {ev : List (Str × Json)} {f g : EventFields} (hf : EventReads ev f)
    (hg : EventReads ev g) (ho : f.origin = g.origin) (hk : f.keyId = g.keyId) : f = g := by
  obtain ⟨p, hp, -, hx⟩ := hf.payload
  obtain ⟨q, hq, -, hy⟩ := hg.payload
  have hpq : p = q := by
    rw [hp, Option.some.injEq, Json.obj.injEq] at hq
    exact hq
  have hstr : ∀ {k a b} {ms : List (Str × Json)}, get k ms = some (.str a) →
      get k ms = some (.str b) → a = b := by
    intro k a b ms ha hb
    rw [ha, Option.some.injEq, Json.str.injEq] at hb
    exact hb
  have hr : f.inReplyTo = g.inReplyTo := by
    have h := hf.inReplyTo.symm.trans hg.inReplyTo
    revert h
    cases f.inReplyTo <;> cases g.inReplyTo <;> simp
  cases f
  cases g
  subst hpq
  simp only at ho hk hr
  rw [EventFields.mk.injEq]
  exact ⟨ho, hk, hstr hf.eventId hg.eventId, hstr hf.type hg.type, hstr hf.source hg.source,
    hstr hf.target hg.target, hstr hf.createdAt hg.createdAt, hstr hx hy, hr⟩

/-- An envelope has one reading. -/
theorem EventEnvelopeReads.injective {obj : List (Str × Json)} {f g : EventFields}
    (hf : EventEnvelopeReads obj f) (hg : EventEnvelopeReads obj g) : f = g := by
  obtain ⟨ev, hev, hf'⟩ := hf.event
  obtain ⟨ev', hev', hg'⟩ := hg.event
  have he : ev = ev' := by
    rw [hev, Option.some.injEq, Json.obj.injEq] at hev'
    exact hev'
  have ho := hf.origin.symm.trans hg.origin
  have hk := hf.keyId.symm.trans hg.keyId
  rw [Option.some.injEq, Json.str.injEq] at ho hk
  subst he
  exact hf'.injective hg' ho hk

/-! ## A composed event -/

theorem EventFields.Valid.sourcePlain {f : EventFields} (h : f.Valid) : Plain f.source := by
  obtain ⟨_, hs⟩ := h.source
  exact hs.plain

theorem EventFields.Valid.targetPlain {f : EventFields} (h : f.Valid) : Plain f.target := by
  obtain ⟨_, _, ht⟩ := h.target
  exact ht.plain

theorem EventFields.Valid.typePlain {f : EventFields} (h : f.Valid) : Plain f.type :=
  plain_lit_of (by decide) h.type

theorem domain_str {k s : Str} (hk : keyRe k = true) (hs : Clean s) :
    keyRe (k, Json.str s).1 = true ∧ Domain (k, Json.str s).2 := ⟨hk, by rwa [Domain]⟩

theorem domain_signedEvent {f : EventFields} (h : f.Valid) : Domain (.obj (signedEvent f)) := by
  have hreply : ∀ r ∈ f.inReplyTo, Clean r := fun r hr => (plain_uuidRe (h.inReplyTo r hr).2).clean
  have ho := (plain_familyRe h.origin).clean
  have hk := (plain_keyIdRe h.keyId).clean
  have he := (plain_uuidRe h.eventId).clean
  have hty := h.typePlain.clean
  have hso := h.sourcePlain.clean
  have hta := h.targetPlain.clean
  have hcr := (plain_timestampOk h.createdAt).clean
  have hkind : Clean eventKind := by decide
  have hev : Domain (.obj (eventObject f)) := by
    rw [Domain, domainMembers_iff]
    constructor
    · unfold eventObject
      cases f.inReplyTo <;> exact of_decide_eq_true rfl
    · intro m hm
      simp only [eventObject, List.mem_append, List.mem_cons, List.not_mem_nil, or_false] at hm
      rcases hm with (rfl | rfl | rfl | rfl | rfl | rfl) | hm
      all_goals try exact domain_str (of_decide_eq_true rfl) (by assumption)
      · refine ⟨of_decide_eq_true rfl, ?_⟩
        rw [Domain, domainMembers_iff]
        refine ⟨List.nodup_singleton _, fun m hm => ?_⟩
        rw [List.mem_singleton.mp hm]
        exact domain_str (of_decide_eq_true rfl) h.text.1
      · cases hr : f.inReplyTo with
        | none => rw [hr] at hm; cases hm
        | some r =>
          rw [hr] at hm
          rw [List.mem_singleton.mp hm]
          exact domain_str (of_decide_eq_true rfl) (hreply r hr)
  rw [Domain, domainMembers_iff]
  constructor
  · exact of_decide_eq_true rfl
  · intro m hm
    simp only [signedEvent, List.mem_cons, List.not_mem_nil, or_false] at hm
    rcases hm with rfl | rfl | rfl | rfl
    all_goals try exact domain_str (of_decide_eq_true rfl) (by assumption)
    · exact ⟨of_decide_eq_true rfl, hev⟩

theorem domain_withSig {ms : List (Str × Json)} {sig : Str} (h : Domain (.obj ms))
    (hk : lit "sig" ∉ keys ms) (hs : Clean sig) : Domain (.obj (withSig ms sig)) := by
  rw [Domain, domainMembers_iff] at h ⊢
  constructor
  · rw [withSig, keys, List.map_append, List.nodup_append']
    refine ⟨h.1, List.nodup_singleton _, ?_⟩
    intro k hm hm'
    rw [List.map_cons, List.map_nil, List.mem_singleton] at hm'
    subst hm'
    exact hk hm
  · intro m hm
    rcases List.mem_append.mp hm with hm | hm
    · exact h.2 m hm
    · rw [List.mem_singleton.mp hm]
      exact domain_str (of_decide_eq_true rfl) hs

/-- The signature an instance puts on an object. -/
def signature (crypto : Crypto) (identity : Identity) (signed : List (Str × Json)) : Str :=
  encodeB64 (crypto.sign identity.seed ((canonicalBytes signed).getD []))

theorem decodeStrict_signature (crypto : Crypto) (identity : Identity)
    (signed : List (Str × Json)) (category layer : String) :
    decodeStrict (signature crypto identity signed) 64 category layer =
      .ok (crypto.sign identity.seed ((canonicalBytes signed).getD [])) := by
  have hl := crypto.length_sign identity.seed ((canonicalBytes signed).getD [])
  have hne : crypto.sign identity.seed ((canonicalBytes signed).getD []) ≠ [] := fun h => by
    rw [h] at hl
    cases hl
  have h := decodeStrict_encode hne category layer
  rwa [hl] at h

theorem length_signature (crypto : Crypto) (identity : Identity) (signed : List (Str × Json)) :
    (signature crypto identity signed).length = 86 := by
  rw [signature, length_encodeB64, crypto.length_sign]

theorem plain_signature (crypto : Crypto) (identity : Identity) (signed : List (Str × Json)) :
    Plain (signature crypto identity signed) := plain_encodeB64 _

/-- An event is composed exactly when its fields satisfy the grammars. -/
theorem compose_event_ok_iff {crypto : Crypto} {identity : Identity} {f : EventFields}
    {env : List (Str × Json)} :
    compose crypto identity (signedEvent f) validateEventEnvelope = .ok env ↔
      f.Valid ∧ env = withSig (signedEvent f) (signature crypto identity (signedEvent f)) := by
  unfold compose
  constructor
  · intro h
    split at h
    · cases h
    next message hm =>
      simp only [bind_eq_ok, pure_eq_ok] at h
      obtain ⟨env', hv, rfl⟩ := h
      obtain ⟨-, -, -, ⟨g, hg, hvalid⟩, -⟩ := validateEventEnvelope_ok_iff.mp hv
      rw [(eventEnvelopeReads_withSig f _).injective hg]
      refine ⟨hvalid, ?_⟩
      rw [← (eventEnvelopeReads_withSig f _).injective hg, signature, hm, Option.getD_some]
  · rintro ⟨hf, rfl⟩
    obtain ⟨message, hm, -⟩ := canonicalBytes_of_domain (domain_signedEvent hf)
    have hv : ∃ env', validateEventEnvelope
        (withSig (signedEvent f) (signature crypto identity (signedEvent f))) = .ok env' :=
      ⟨_, validateEventEnvelope_ok_iff.mpr ⟨of_decide_eq_true rfl, of_decide_eq_true rfl, rfl,
        ⟨f, eventEnvelopeReads_withSig f _, hf⟩, _, _, rfl,
        decodeStrict_signature crypto identity _ _ _, rfl⟩⟩
    obtain ⟨env', hv⟩ := hv
    rw [hm]
    simp only [bind_eq_ok, pure_eq_ok]
    have hs : signature crypto identity (signedEvent f) =
        encodeB64 (crypto.sign identity.seed message) := by rw [signature, hm, Option.getD_some]
    rw [hs] at hv ⊢
    exact ⟨env', hv, rfl⟩

/-! ## The receiver's view -/

/-- The bytes of a composed event. -/
def eventBytes (f : EventFields) (sig : Str) : Option Bytes :=
  canonicalBytes (withSig (signedEvent f) sig)

/-- What the receiver of a composed event makes of it. -/
def receivedEvent (crypto : Crypto) (identity : Identity) (f : EventFields) : Envelope where
  kind := eventKind
  signed := sorted (signedEvent f)
  sigStr := signature crypto identity (signedEvent f)
  sig := crypto.sign identity.seed ((canonicalBytes (signedEvent f)).getD [])

theorem depth_eventEnvelope (f : EventFields) (sig : Str) :
    depth (.obj (withSig (signedEvent f) sig)) = 3 := by
  unfold withSig signedEvent eventObject
  cases f.inReplyTo <;> rfl

/-- A receiver accepts the bytes of a composed event exactly when they fit the body limit, and
reads the envelope that was composed. -/
theorem parseEvent_composed {crypto : Crypto} {identity : Identity} {f : EventFields}
    (hf : f.Valid) {raw : Bytes}
    (hraw : eventBytes f (signature crypto identity (signedEvent f)) = some raw) {env : Envelope} :
    parseEvent raw = .ok env ↔
      raw.length ≤ requestBodyLimit ∧ env = receivedEvent crypto identity f := by
  have hdom := domain_withSig (domain_signedEvent hf) (of_decide_eq_true rfl)
    (plain_signature crypto identity (signedEvent f)).clean
  have hparse := parseStrict_canonicalBytes hdom (by rw [depth_eventEnvelope]; decide) hraw
  have hvalid : validateEventEnvelope
      (sorted (withSig (signedEvent f) (signature crypto identity (signedEvent f)))) =
      .ok (receivedEvent crypto identity f) := by
    rw [sorted_eventEnvelope]
    refine validateEventEnvelope_ok_iff.mpr ⟨of_decide_eq_true rfl, of_decide_eq_true rfl, rfl,
      ⟨f, ⟨rfl, rfl, _, rfl, eventReads_sortedEvent f⟩, hf⟩, _, _, rfl,
      decodeStrict_signature crypto identity _ _ _, ?_⟩
    rw [receivedEvent, sorted_signedEvent]
    rfl
  rw [parseEvent, parseWith_ok_iff]
  constructor
  · rintro ⟨hl, ms, hms, hv⟩
    rw [hparse] at hms
    cases hms
    rw [hvalid] at hv
    exact ⟨hl, (Except.ok.inj hv).symm⟩
  · rintro ⟨hl, rfl⟩
    exact ⟨hl, _, hparse, hvalid⟩

/-- A body over the limit is refused before anything is parsed. -/
theorem parseEvent_too_large {raw : Bytes} (h : requestBodyLimit < raw.length) :
    parseEvent raw = .error (.federation (bodyTooLarge raw.length)) := by
  rw [parseEvent, parseWith, checkBodySize, guardOr_neg (by omega)]
  rfl

/-! ## How long a composed event is -/

theorem byteSize_dumpString (s : Str) : byteSize (dumpString s) = escapedSize s + 2 := by
  rw [dumpString, byteSize_cons, byteSize_append, escapedSize]
  have h : charSize (ofChar '"') = 1 := by decide
  simp only [byteSize_cons, byteSize_nil, h]
  omega

theorem byteSize_dumpMembers (ms : List (Str × Json)) :
    byteSize (dumpMembers ms) =
      1 + (ms.map fun m => escapedSize m.1 + byteSize (dump m.2) + 4).sum := by
  induction ms with
  | nil => decide
  | cons m ms ih =>
    obtain ⟨k, v⟩ := m
    have hcolon : charSize (ofChar ':') = 1 := by decide
    have hcomma : charSize (ofChar ',') = 1 := by decide
    rw [dumpMembers]
    simp only [byteSize_cons, byteSize_append, byteSize_dumpString, hcolon, hcomma, ih,
      List.map_cons, List.sum_cons]
    omega

/-- An object takes its braces, and for each member the quotes of its key, a colon and a comma. -/
theorem byteSize_dump_obj {ms : List (Str × Json)} (h : ms ≠ []) :
    byteSize (dump (.obj ms)) =
      1 + (ms.map fun m => escapedSize m.1 + byteSize (dump m.2) + 4).sum := by
  match ms, h with
  | (k, v) :: ms, _ =>
    have hcolon : charSize (ofChar ':') = 1 := by decide
    have hopen : charSize (ofChar '{') = 1 := by decide
    rw [dump]
    simp only [byteSize_cons, byteSize_append, byteSize_dumpString, hcolon, hopen,
      byteSize_dumpMembers, List.map_cons, List.sum_cons]
    omega

theorem byteSize_dump_str (s : Str) : byteSize (dump (.str s)) = escapedSize s + 2 := by
  rw [dump, byteSize_dumpString]

/-- What a reply link adds to the bytes of an event. -/
def replySize : Option Str → ℕ
  | none => 0
  | some r => escapedSize r + 17

theorem byteSize_sortedEvent (f : EventFields) :
    byteSize (dump (.obj (sortedEvent f))) =
      87 + escapedSize f.createdAt + escapedSize f.eventId + replySize f.inReplyTo +
        escapedSize f.text + escapedSize f.source + escapedSize f.target + escapedSize f.type := by
  have h7 : escapedSize (lit "created_at") = 10 := by decide
  have h8 : escapedSize (lit "event_id") = 8 := by decide
  have h9 : escapedSize (lit "payload") = 7 := by decide
  have h10 : escapedSize (lit "text") = 4 := by decide
  have h11 : escapedSize (lit "source") = 6 := by decide
  have h12 : escapedSize (lit "target") = 6 := by decide
  have h13 : escapedSize (lit "type") = 4 := by decide
  have h14 : escapedSize (lit "in_reply_to") = 11 := by decide
  have hp : byteSize (dump (.obj [(lit "text", .str f.text)])) = escapedSize f.text + 11 := by
    rw [byteSize_dump_obj (List.cons_ne_nil _ _)]
    simp only [List.map_cons, List.map_nil, List.sum_cons, List.sum_nil, byteSize_dump_str, h10]
    omega
  rw [sortedEvent, byteSize_dump_obj (List.cons_ne_nil _ _)]
  cases f.inReplyTo with
  | none =>
    simp only [List.nil_append, List.map_cons, List.map_nil, List.sum_cons, List.sum_nil,
      byteSize_dump_str, hp, h7, h8, h9, h11, h12, h13, replySize]
    generalize escapedSize f.createdAt = a, escapedSize f.eventId = b, escapedSize f.text = c
    generalize escapedSize f.source = d, escapedSize f.target = e, escapedSize f.type = g
    omega
  | some r =>
    simp only [List.cons_append, List.nil_append, List.map_cons, List.map_nil, List.sum_cons,
      List.sum_nil, byteSize_dump_str, hp, h7, h8, h9, h11, h12, h13, h14, replySize]
    generalize escapedSize f.createdAt = a, escapedSize f.eventId = b, escapedSize f.text = c
    generalize escapedSize f.source = d, escapedSize f.target = e, escapedSize f.type = g
    omega

/-- The bytes of a composed event: its overhead, and what its strings take. -/
theorem byteSize_eventEnvelope (f : EventFields) (sig : Str) :
    byteSize (dump (.obj (sorted (withSig (signedEvent f) sig)))) =
      72 + byteSize (dump (.obj (sortedEvent f))) + escapedSize f.keyId + escapedSize f.origin +
        escapedSize sig := by
  have h1 : escapedSize (lit "event") = 5 := by decide
  have h2 : escapedSize (lit "key_id") = 6 := by decide
  have h3 : escapedSize (lit "kind") = 4 := by decide
  have h4 : escapedSize (lit "origin") = 6 := by decide
  have h5 : escapedSize (lit "sig") = 3 := by decide
  have h6 : escapedSize eventKind = 19 := by decide
  rw [sorted_eventEnvelope, byteSize_dump_obj (List.cons_ne_nil _ _)]
  simp only [List.map_cons, List.map_nil, List.sum_cons, List.sum_nil, byteSize_dump_str,
    h1, h2, h3, h4, h5, h6]
  omega

/-- How long the bytes of a composed event are: what its sender chooses, over a fixed part. -/
def eventSize (f : EventFields) : ℕ :=
  301 + escapedSize f.text + f.source.length + f.target.length + f.type.length + f.keyId.length +
    f.origin.length + if f.inReplyTo = none then 0 else 53

theorem length_eventBytes (crypto : Crypto) (identity : Identity) {f : EventFields}
    (hf : f.Valid) : ∃ raw,
    eventBytes f (signature crypto identity (signedEvent f)) = some raw ∧
      raw.length = eventSize f := by
  have hdom := domain_withSig (domain_signedEvent hf) (of_decide_eq_true rfl)
    (plain_signature crypto identity (signedEvent f)).clean
  obtain ⟨raw, hraw, hlen⟩ := canonicalBytes_of_domain hdom
  refine ⟨raw, hraw, ?_⟩
  have hreply : replySize f.inReplyTo = if f.inReplyTo = none then 0 else 53 := by
    cases hr : f.inReplyTo with
    | none => rfl
    | some r =>
      have hu := (hf.inReplyTo r hr).2
      rw [replySize, (plain_uuidRe hu).escapedSize, length_uuidRe hu]
      rfl
  rw [hlen, byteSize_eventEnvelope, byteSize_sortedEvent, (plain_timestampOk hf.createdAt).escapedSize,
    (plain_uuidRe hf.eventId).escapedSize, hf.sourcePlain.escapedSize, hf.targetPlain.escapedSize,
    hf.typePlain.escapedSize, (plain_keyIdRe hf.keyId).escapedSize,
    (plain_familyRe hf.origin).escapedSize, (plain_signature crypto identity _).escapedSize, length_signature,
    length_timestampOk hf.createdAt, length_uuidRe hf.eventId, hreply, eventSize]
  generalize (if f.inReplyTo = none then 0 else 53) = r, escapedSize f.text = t
  omega

end Federation
end ATalk
