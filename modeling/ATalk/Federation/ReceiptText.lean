import ATalk.Federation.ReceiptsOut

/-!
# The bytes of a receipt

What `compose_receipt` makes of the fields of a receipt, and what `parse_receipt` makes of its bytes.

* `compose_receipt_ok_iff` : which fields are signed;
* `length_receiptBytes`    : a receipt never comes near the body limit;
* `parseReceipt_composed`  : whoever reads the bytes reads the envelope that was composed.
-/

namespace ATalk
namespace Federation

open Text Json ATalk.Core Checks

variable {crypto : Crypto} {identity : Identity} {f : ReceiptFields} {raw : Bytes} {env : Envelope}

/-- An object says one thing. -/
theorem ReceiptEnvelopeReads.injective {obj : List (Str × Json)} {f g : ReceiptFields}
    (hf : ReceiptEnvelopeReads obj f) (hg : ReceiptEnvelopeReads obj g) : f = g := by
  have hstr : ∀ {k x y : Str} {ms : List (Str × Json)}, get k ms = some (.str x) →
      get k ms = some (.str y) → x = y := by
    intro k x y ms hx hy
    rw [hx] at hy
    exact Json.str.inj (Option.some.inj hy)
  obtain ⟨rc, hrc, hreads⟩ := hf.receipt
  obtain ⟨rc', hrc', hreads'⟩ := hg.receipt
  rw [hrc, Option.some.injEq, Json.obj.injEq] at hrc'
  subst hrc'
  obtain ⟨issuer, keyId, eventId, origin, sigHash, agent, ackType, atTime⟩ := f
  obtain ⟨issuer', keyId', eventId', origin', sigHash', agent', ackType', atTime'⟩ := g
  obtain rfl : issuer = issuer' := hstr hf.issuer hg.issuer
  obtain rfl : keyId = keyId' := hstr hf.keyId hg.keyId
  obtain rfl : eventId = eventId' := hstr hreads.eventId hreads'.eventId
  obtain rfl : origin = origin' := hstr hreads.origin hreads'.origin
  obtain rfl : sigHash = sigHash' := hstr hreads.sigHash hreads'.sigHash
  obtain rfl : agent = agent' := hstr hreads.agent hreads'.agent
  obtain rfl : ackType = ackType' := hstr hreads.ackType hreads'.ackType
  obtain rfl : atTime = atTime' := hstr hreads.atTime hreads'.atTime
  rfl

/-- A receipt is composed exactly when its fields satisfy the grammars. -/
theorem compose_receipt_ok_iff {envelope : List (Str × Json)} :
    compose crypto identity (signedReceipt f) validateReceiptEnvelope = .ok envelope ↔
      f.Valid ∧
        envelope = withSig (signedReceipt f) (signature crypto identity (signedReceipt f)) := by
  unfold compose
  constructor
  · intro h
    split at h
    · cases h
    next message hm =>
      simp only [bind_eq_ok, pure_eq_ok] at h
      obtain ⟨env', hv, rfl⟩ := h
      obtain ⟨-, -, -, ⟨g, hg, hvalid⟩, -⟩ := validateReceiptEnvelope_ok_iff.mp hv
      rw [(receiptEnvelopeReads_withSig f _).injective hg]
      refine ⟨hvalid, ?_⟩
      rw [← (receiptEnvelopeReads_withSig f _).injective hg, signature, hm, Option.getD_some]
  · rintro ⟨hf, rfl⟩
    obtain ⟨message, hm, -⟩ := canonicalBytes_of_domain (domain_signedReceipt hf)
    have hv : ∃ env', validateReceiptEnvelope
        (withSig (signedReceipt f) (signature crypto identity (signedReceipt f))) = .ok env' :=
      ⟨_, validateReceiptEnvelope_ok_iff.mpr ⟨of_decide_eq_true rfl, of_decide_eq_true rfl, rfl,
        ⟨f, receiptEnvelopeReads_withSig f _, hf⟩, _, _, rfl,
        decodeStrict_signature crypto identity _ _ _, rfl⟩⟩
    obtain ⟨env', hv⟩ := hv
    rw [hm]
    simp only [bind_eq_ok, pure_eq_ok]
    have hs : signature crypto identity (signedReceipt f) =
        encodeB64 (crypto.sign identity.seed message) := by rw [signature, hm, Option.getD_some]
    rw [hs] at hv ⊢
    exact ⟨env', hv, rfl⟩

/-- The bytes of a composed receipt. -/
def receiptBytes (f : ReceiptFields) (sig : Str) : Option Bytes :=
  canonicalBytes (withSig (signedReceipt f) sig)

/-! ## How long it is -/

theorem byteSize_receiptObject (f : ReceiptFields) :
    byteSize (dump (.obj (sorted (receiptObject f)))) =
      87 + escapedSize f.ackType + escapedSize f.agent + escapedSize f.atTime +
        escapedSize f.eventId + escapedSize f.origin + escapedSize f.sigHash := by
  have h1 : escapedSize (lit "ack_type") = 8 := by decide
  have h2 : escapedSize (lit "agent") = 5 := by decide
  have h3 : escapedSize (lit "at") = 2 := by decide
  have h4 : escapedSize (lit "event_id") = 8 := by decide
  have h5 : escapedSize (lit "origin") = 6 := by decide
  have h6 : escapedSize (lit "origin_event_sig_hash") = 21 := by decide
  rw [sorted_receiptObject, byteSize_dump_obj (List.cons_ne_nil _ _)]
  simp only [List.map_cons, List.map_nil, List.sum_cons, List.sum_nil, byteSize_dump_str, h1, h2, h3,
    h4, h5, h6]
  omega

/-- How long the bytes of a composed receipt are. -/
def receiptSize (f : ReceiptFields) : ℕ :=
  369 + f.issuer.length + f.keyId.length + f.ackType.length + f.agent.length + f.origin.length

theorem length_hex64Re {s : Str} (h : hex64Re s = true) : s.length = 64 := length_shapeRe h

theorem length_receiptBytes (crypto : Crypto) (identity : Identity) (hf : f.Valid) : ∃ raw,
    receiptBytes f (signature crypto identity (signedReceipt f)) = some raw ∧
      raw.length = receiptSize f := by
  have hdom := domain_withSig (domain_signedReceipt hf) (of_decide_eq_true rfl)
    (plain_signature crypto identity (signedReceipt f)).clean
  obtain ⟨raw, hraw, hlen⟩ := canonicalBytes_of_domain hdom
  refine ⟨raw, hraw, ?_⟩
  obtain ⟨_, _, haddress⟩ := hf.agent
  have h1 : escapedSize (lit "issuer") = 6 := by decide
  have h2 : escapedSize (lit "key_id") = 6 := by decide
  have h3 : escapedSize (lit "kind") = 4 := by decide
  have h4 : escapedSize (lit "receipt") = 7 := by decide
  have h5 : escapedSize (lit "sig") = 3 := by decide
  have h6 : escapedSize receiptKind = 21 := by decide
  rw [hlen, sorted_receiptEnvelope, byteSize_dump_obj (List.cons_ne_nil _ _)]
  simp only [List.map_cons, List.map_nil, List.sum_cons, List.sum_nil, byteSize_dump_str,
    byteSize_receiptObject, h1, h2, h3, h4, h5, h6]
  rw [(plain_familyRe hf.issuer).escapedSize, (plain_keyIdRe hf.keyId).escapedSize,
    (plain_lit_of (of_decide_eq_true rfl) hf.ackType).escapedSize, haddress.plain.escapedSize,
    (plain_timestampOk hf.atTime).escapedSize, (plain_uuidRe hf.eventId).escapedSize,
    (plain_familyRe hf.origin).escapedSize, (plain_hex64Re hf.sigHash).escapedSize,
    (plain_signature crypto identity _).escapedSize, length_signature, length_timestampOk hf.atTime,
    length_uuidRe hf.eventId, length_hex64Re hf.sigHash, receiptSize]
  omega

theorem length_classRe {p : CodePoint → Bool} {n : ℕ} {s : Str} (h : classRe p n s = true) :
    s.length ≤ n := by
  simp only [classRe, Bool.and_eq_true, decide_eq_true_eq] at h
  exact h.1.2

theorem receiptSize_le (hf : f.Valid) : receiptSize f ≤ 570 := by
  have hissuer := length_classRe hf.issuer
  have hkeyId := length_classRe hf.keyId
  have horigin := length_classRe hf.origin
  have htype : f.ackType.length ≤ 8 := by
    have htypes : ∀ t ∈ ackTypes, t.length ≤ 8 := by decide
    exact htypes _ hf.ackType
  obtain ⟨agent, family, haddr, hagent, hfamily⟩ := hf.agent
  have ha := length_classRe hagent
  have hb := length_classRe hfamily
  have haddress : f.agent.length ≤ 65 := by
    rw [haddr, List.length_append, List.length_cons]
    omega
  rw [receiptSize]
  omega

/-! ## Who reads it -/

/-- What the reader of a composed receipt makes of it. -/
def receivedReceipt (crypto : Crypto) (identity : Identity) (f : ReceiptFields) : Envelope where
  kind := receiptKind
  signed := sorted (signedReceipt f)
  sigStr := signature crypto identity (signedReceipt f)
  sig := crypto.sign identity.seed ((canonicalBytes (signedReceipt f)).getD [])

/-- The bytes of a composed receipt are read as the envelope that was composed. -/
theorem parseReceipt_composed (hf : f.Valid)
    (hraw : receiptBytes f (signature crypto identity (signedReceipt f)) = some raw) :
    parseReceipt raw = .ok (receivedReceipt crypto identity f) := by
  have hdom := domain_withSig (domain_signedReceipt hf) (of_decide_eq_true rfl)
    (plain_signature crypto identity (signedReceipt f)).clean
  have hdepth : depth (.obj (withSig (signedReceipt f)
      (signature crypto identity (signedReceipt f)))) ≤ nestingDepthLimit := of_decide_eq_true rfl
  have hsize : raw.length ≤ requestBodyLimit := by
    obtain ⟨raw', hraw', hlen⟩ := length_receiptBytes crypto identity hf
    have hle := receiptSize_le hf
    obtain rfl : raw' = raw := Option.some.inj (hraw'.symm.trans hraw)
    rw [requestBodyLimit, hlen]
    omega
  refine parseWith_ok_iff.mpr ⟨hsize, _, parseStrict_canonicalBytes hdom hdepth hraw, ?_⟩
  rw [sorted_receiptEnvelope]
  refine validateReceiptEnvelope_ok_iff.mpr ⟨of_decide_eq_true rfl, of_decide_eq_true rfl, rfl,
    ⟨f, ⟨rfl, rfl, _, rfl, of_decide_eq_true rfl, rfl, rfl, rfl, rfl, rfl, rfl⟩, hf⟩, _, _, rfl,
    decodeStrict_signature crypto identity _ _ _, rfl⟩

end Federation
end ATalk
