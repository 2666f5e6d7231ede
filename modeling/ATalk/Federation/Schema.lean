import ATalk.Lib.Checks
import ATalk.Federation.Canonical

/-!
# The envelope schema

The checks that stand between a parsed object and an `Envelope`: the field sets, the exact-byte
grammars, the calendar of a timestamp, the text limit, the decoding of the signature. An object
passes them exactly when it reads as a record of fields that satisfy the grammars; everything
after the checks works on that record.

* `validateEventEnvelope_ok_iff`, `validateReceiptEnvelope_ok_iff` : what the checks accept.
-/

namespace ATalk
namespace Federation

open Text Json Checks

def requestBodyLimit : ℕ := 16384

def textLimit : ℕ := 8192

def eventKind : Str := lit "federation.event.v0"

def receiptKind : Str := lit "federation.receipt.v0"

def eventTypes : List Str := [lit "message", lit "reply"]

def ackTypes : List Str := [lit "received", lit "applied"]

/-! ## Exact-byte grammars -/

def isDigit (c : CodePoint) : Bool := 0x30 ≤ c.val && c.val ≤ 0x39

def isLower (c : CodePoint) : Bool := 0x61 ≤ c.val && c.val ≤ 0x7A

def isUpper (c : CodePoint) : Bool := 0x41 ≤ c.val && c.val ≤ 0x5A

def isHex (c : CodePoint) : Bool := isDigit c || (0x61 ≤ c.val && c.val ≤ 0x66)

/-- One character class, repeated from `1` to `n` times. -/
def classRe (p : CodePoint → Bool) (n : ℕ) (s : Str) : Bool :=
  1 ≤ s.length && s.length ≤ n && s.all p

/-- One character class for each position. -/
def shapeRe : List (CodePoint → Bool) → Str → Bool
  | [], [] => true
  | p :: ps, c :: s => p c && shapeRe ps s
  | _, _ => false

def isChar (c : Char) (d : CodePoint) : Bool := d = ofChar c

def familyRe : Str → Bool := classRe (fun c => isLower c || isDigit c || isChar '-' c) 32

def agentRe : Str → Bool :=
  classRe (fun c => isLower c || isDigit c || isChar '_' c || isChar '-' c) 32

def keyIdRe : Str → Bool :=
  classRe (fun c => isUpper c || isLower c || isDigit c || isChar '.' c || isChar '_' c ||
    isChar '-' c) 64

def hexRun (n : ℕ) : List (CodePoint → Bool) := List.replicate n isHex

def digitRun (n : ℕ) : List (CodePoint → Bool) := List.replicate n isDigit

def uuidRe : Str → Bool :=
  shapeRe (hexRun 8 ++ [isChar '-'] ++ hexRun 4 ++ [isChar '-'] ++ hexRun 4 ++ [isChar '-'] ++
    hexRun 4 ++ [isChar '-'] ++ hexRun 12)

def hex64Re : Str → Bool := shapeRe (hexRun 64)

def timestampRe : Str → Bool :=
  shapeRe (digitRun 4 ++ [isChar '-'] ++ digitRun 2 ++ [isChar '-'] ++ digitRun 2 ++ [isChar 'T'] ++
    digitRun 2 ++ [isChar ':'] ++ digitRun 2 ++ [isChar ':'] ++ digitRun 2 ++ [isChar 'Z'])

/-! ## The field checks -/

/-- What the checks can raise. -/
inductive Raised where
  | federation (e : FederationError)
  | unicodeEncode
deriving DecidableEq, Repr

def err (category : String) (detail : Str) : Raised := .federation ⟨"schema", category, detail⟩

/-- `sorted(ks)[0]`, when there is one. -/
def firstOf (ks : List Str) : Option Str := (ks.insertionSort (· ≤ ·)).head?

def fields (obj : List (Str × Json)) (allowed required : List Str) (place : Str) :
    Except Raised Unit :=
  match firstOf ((keys obj).filter (· ∉ allowed)) with
  | some k => .error (err "unknown_field" (place ++ lit "." ++ k))
  | none =>
    match firstOf (required.filter (· ∉ keys obj)) with
    | some k => .error (err "missing_field" (place ++ lit "." ++ k))
    | none => .ok ()

def string (obj : List (Str × Json)) (key place : Str) : Except Raised Str :=
  match get key obj with
  | none | some .null => .error (err "missing_field" (place ++ lit "." ++ key))
  | some (.str s) => .ok s
  | some _ => .error (err "value_domain" (place ++ lit "." ++ key))

/-- A member that must be an object; `place` names it in the error. -/
def object (obj : List (Str × Json)) (key place : Str) : Except Raised (List (Str × Json)) :=
  match get key obj with
  | none | some .null => .error (err "missing_field" place)
  | some (.obj ms) => .ok ms
  | some _ => .error (err "value_domain" place)

def regex (value : Str) (rx : Str → Bool) (category : String) (detail : Str) :
    Except Raised Unit := guardOr (rx value = true) (err category detail)

/-- `agent, family = addr.split("@")` for an address with one `@`. -/
def splitAddress (addr : Str) : Str × Str :=
  (addr.takeWhile (· ≠ ofChar '@'), (addr.dropWhile (· ≠ ofChar '@')).tail)

def parseAddress (addr place : Str) : Except Raised (Str × Str) :=
  if addr.count (ofChar '@') ≠ 1 then .error (err "address_grammar" place)
  else
    let (agent, family) := splitAddress addr
    if agentRe agent = false ∨ familyRe family = false ∨ 65 < addr.length then
      .error (err "address_grammar" place)
    else .ok (agent, family)

/-- The value of a run of decimal digits. -/
def decimal (s : Str) : ℕ := s.foldl (fun n c => n * 10 + (c.val - 0x30)) 0

def isLeap (year : ℕ) : Bool := year % 4 = 0 && (year % 100 ≠ 0 || year % 400 = 0)

def daysInMonth (year month : ℕ) : ℕ :=
  if month = 2 then if isLeap year then 29 else 28
  else if month ∈ [4, 6, 9, 11] then 30 else 31

/-- `datetime(..)` does not raise. -/
def datetimeOk (year month day hour minute second : ℕ) : Bool :=
  1 ≤ year && year ≤ 9999 && 1 ≤ month && month ≤ 12 && 1 ≤ day && day ≤ daysInMonth year month &&
    hour ≤ 23 && minute ≤ 59 && second ≤ 59

/-- A timestamp of the calendar, to the second, in UTC. -/
def timestampOk (s : Str) : Bool :=
  timestampRe s &&
    datetimeOk (decimal (s.take 4)) (decimal ((s.drop 5).take 2)) (decimal ((s.drop 8).take 2))
      (decimal ((s.drop 11).take 2)) (decimal ((s.drop 14).take 2)) (decimal ((s.drop 17).take 2))

def timestamp (value place : Str) : Except Raised Unit :=
  guardOr (timestampOk value = true) (err "timestamp_format" place)

def eventFields : List Str :=
  [lit "event_id", lit "type", lit "source", lit "target", lit "created_at", lit "payload",
    lit "in_reply_to"]

def eventRequired : List Str :=
  [lit "event_id", lit "type", lit "source", lit "target", lit "created_at", lit "payload"]

def eventTop : List Str := [lit "kind", lit "origin", lit "key_id", lit "event", lit "sig"]

def receiptTop : List Str := [lit "kind", lit "issuer", lit "key_id", lit "receipt", lit "sig"]

def receiptFields : List Str :=
  [lit "event_id", lit "origin", lit "origin_event_sig_hash", lit "agent", lit "ack_type", lit "at"]

def payloadFields : List Str := [lit "text"]

def payloadTooLong (size : ℕ) : Raised := err "payload_too_long" (lit s!"{size} bytes")

/-- The UTF-8 bytes of the decoded text. -/
def textSize (s : Str) : Except Raised Unit :=
  match encode s with
  | none => .error .unicodeEncode
  | some b => guardOr (b.length ≤ textLimit) (payloadTooLong b.length)

def payloadText (payload : List (Str × Json)) : Except Raised Unit :=
  match get (lit "text") payload with
  | none => .error (err "missing_field" (lit "event.payload.text"))
  | some text =>
    match firstOf ((keys payload).filter (· ∉ payloadFields)) with
    | some k => .error (err "unknown_field" k)
    | none =>
      match text with
      | .str s => textSize s
      | _ => .error (err "value_domain" (lit "event.payload.text"))

def replyLink (ev : List (Str × Json)) (etype : Str) : Except Raised Unit :=
  if get (lit "in_reply_to") ev = none then .ok ()
  else do
    guardOr (etype = lit "reply")
      (err "in_reply_to_disallowed" (lit "in_reply_to outside type=reply"))
    regex (← string ev (lit "in_reply_to") (lit "event")) uuidRe "in_reply_to_format"
      (lit "event.in_reply_to")

def eventBody (obj : List (Str × Json)) : Except Raised Unit := do
  let origin ← string obj (lit "origin") (lit "envelope")
  regex origin familyRe "address_grammar" (lit "origin")
  regex (← string obj (lit "key_id") (lit "envelope")) keyIdRe "key_id_grammar" (lit "key_id")
  let ev ← object obj (lit "event") (lit "event")
  fields ev eventFields eventRequired (lit "event")
  regex (← string ev (lit "event_id") (lit "event")) uuidRe "event_id_format" (lit "event.event_id")
  let etype ← string ev (lit "type") (lit "event")
  guardOr (etype ∈ eventTypes) (err "type_whitelist" (lit "event.type=" ++ etype))
  let (_, sourceFamily) ← parseAddress (← string ev (lit "source") (lit "event")) (lit "event.source")
  guardOr (sourceFamily = origin) (err "source_family" (lit "event.source family != origin"))
  let _ ← parseAddress (← string ev (lit "target") (lit "event")) (lit "event.target")
  timestamp (← string ev (lit "created_at") (lit "event")) (lit "event.created_at")
  payloadText (← object ev (lit "payload") (lit "event.payload"))
  replyLink ev etype

def receiptBody (obj : List (Str × Json)) : Except Raised Unit := do
  regex (← string obj (lit "issuer") (lit "envelope")) familyRe "address_grammar" (lit "issuer")
  regex (← string obj (lit "key_id") (lit "envelope")) keyIdRe "key_id_grammar" (lit "key_id")
  let rc ← object obj (lit "receipt") (lit "receipt")
  fields rc receiptFields receiptFields (lit "receipt")
  regex (← string rc (lit "event_id") (lit "receipt")) uuidRe "event_id_format"
    (lit "receipt.event_id")
  regex (← string rc (lit "origin") (lit "receipt")) familyRe "address_grammar"
    (lit "receipt.origin")
  regex (← string rc (lit "origin_event_sig_hash") (lit "receipt")) hex64Re "hash_format"
    (lit "receipt.origin_event_sig_hash")
  let _ ← parseAddress (← string rc (lit "agent") (lit "receipt")) (lit "receipt.agent")
  let ack ← string rc (lit "ack_type") (lit "receipt")
  guardOr (ack ∈ ackTypes) (err "ack_type_whitelist" (lit "receipt.ack_type=" ++ ack))
  timestamp (← string rc (lit "at") (lit "receipt")) (lit "receipt.at")

/-- A validated envelope; `signed` is the object without `sig`, the signing input. -/
structure Envelope where
  kind : Str
  signed : List (Str × Json)
  sigStr : Str
  sig : Bytes

def Envelope.signedBytes (env : Envelope) : Option Bytes := canonicalBytes env.signed

/-- `{k: v for k, v in obj.items() if k != "sig"}` -/
def withoutSig (obj : List (Str × Json)) : List (Str × Json) := obj.filter (·.1 ≠ lit "sig")

/-- The text of a kind in an error; of one that is no string nothing is shown. -/
def kindDetail : Option Json → Str
  | some (.str s) => s
  | _ => []

def checkKind (obj : List (Str × Json)) (kind : Str) : Except Raised Unit :=
  match get (lit "kind") obj with
  | some (.str k) => guardOr (k = kind) (err "kind_mismatch" k)
  | other => .error (err "kind_mismatch" (kindDetail other))

def decodeSig (obj : List (Str × Json)) : Except Raised (Str × Bytes) :=
  match get (lit "sig") obj with
  | some (.str sig) =>
    match decodeStrict sig 64 "signature_length" "schema" with
    | .error e => .error (.federation e)
    | .ok sigBytes => .ok (sig, sigBytes)
  | _ => .error (err "value_domain" (lit "sig"))

def envelope (obj : List (Str × Json)) (kind : Str) (top : List Str)
    (bodyCheck : List (Str × Json) → Except Raised Unit) : Except Raised Envelope := do
  fields obj top top (lit "envelope")
  checkKind obj kind
  bodyCheck obj
  let (sig, sigBytes) ← decodeSig obj
  return ⟨kind, withoutSig obj, sig, sigBytes⟩

def validateEventEnvelope (obj : List (Str × Json)) : Except Raised Envelope :=
  envelope obj eventKind eventTop eventBody

def validateReceiptEnvelope (obj : List (Str × Json)) : Except Raised Envelope :=
  envelope obj receiptKind receiptTop receiptBody

def bodyTooLarge (size : ℕ) : FederationError :=
  ⟨"request", "body_too_large", lit s!"{size} > {requestBodyLimit}"⟩

def checkBodySize (raw : Bytes) : Except Raised Unit :=
  guardOr (raw.length ≤ requestBodyLimit) (.federation (bodyTooLarge raw.length))

/-- The body limit, strict parsing, then the schema. -/
def parseWith (validate : List (Str × Json) → Except Raised Envelope) (raw : Bytes) :
    Except Raised Envelope := do
  checkBodySize raw
  match parseStrict raw with
  | .error e => .error (.federation e)
  | .ok ms => validate ms

def parseEvent : Bytes → Except Raised Envelope := parseWith validateEventEnvelope

def parseReceipt : Bytes → Except Raised Envelope := parseWith validateReceiptEnvelope

/-! ## What the field checks accept -/

theorem firstOf_eq_none_iff {ks : List Str} : firstOf ks = none ↔ ks = [] := by
  rw [firstOf, List.head?_eq_none_iff]
  exact ⟨fun h => List.perm_nil.mp (h ▸ (List.perm_insertionSort (· ≤ ·) ks).symm),
    fun h => by rw [h]; rfl⟩

theorem fields_ok_iff {obj : List (Str × Json)} {allowed required : List Str} {place : Str}
    {u : Unit} : fields obj allowed required place = .ok u ↔
      (∀ k ∈ keys obj, k ∈ allowed) ∧ ∀ k ∈ required, k ∈ keys obj := by
  have hextra : (keys obj).filter (· ∉ allowed) = [] ↔ ∀ k ∈ keys obj, k ∈ allowed := by
    simp [List.filter_eq_nil_iff]
  have hmissing : required.filter (· ∉ keys obj) = [] ↔ ∀ k ∈ required, k ∈ keys obj := by
    simp [List.filter_eq_nil_iff]
  rw [← hextra, ← hmissing, ← firstOf_eq_none_iff, ← firstOf_eq_none_iff, fields]
  cases firstOf ((keys obj).filter (· ∉ allowed)) with
  | some k => simp
  | none => cases firstOf (required.filter (· ∉ keys obj)) <;> simp

theorem string_ok_iff {obj : List (Str × Json)} {key place s : Str} :
    string obj key place = .ok s ↔ get key obj = some (.str s) := by
  unfold string
  split <;> simp_all

theorem object_ok_iff {obj ms : List (Str × Json)} {key place : Str} :
    object obj key place = .ok ms ↔ get key obj = some (.obj ms) := by
  unfold object
  split <;> simp_all

theorem regex_ok_iff {value detail : Str} {rx : Str → Bool} {category : String} {u : Unit} :
    regex value rx category detail = .ok u ↔ rx value = true := guardOr_eq_ok

theorem timestamp_ok_iff {value place : Str} {u : Unit} :
    timestamp value place = .ok u ↔ timestampOk value = true := guardOr_eq_ok

theorem mem_keys_of_get {k : Str} {v : Json} {ms : List (Str × Json)} (h : get k ms = some v) :
    k ∈ keys ms := by
  by_contra hk
  rw [get_eq_none_iff.mpr hk] at h
  cases h

/-- An `agent@family` address in the exact-byte grammar. -/
def IsAddress (addr agent family : Str) : Prop :=
  addr = agent ++ ofChar '@' :: family ∧ agentRe agent = true ∧ familyRe family = true

theorem classRe_ne_at {p : CodePoint → Bool} {n : ℕ} {s : Str} (hp : p (ofChar '@') = false)
    (h : classRe p n s = true) : ∀ c ∈ s, c ≠ ofChar '@' := by
  simp only [classRe, Bool.and_eq_true, List.all_eq_true] at h
  rintro c hc rfl
  rw [h.2 _ hc] at hp
  cases hp

theorem agentRe_ne_at {s : Str} (h : agentRe s = true) : ∀ c ∈ s, c ≠ ofChar '@' :=
  classRe_ne_at (by decide) h

theorem familyRe_ne_at {s : Str} (h : familyRe s = true) : ∀ c ∈ s, c ≠ ofChar '@' :=
  classRe_ne_at (by decide) h

theorem splitAddress_append {a f : Str} (ha : ∀ c ∈ a, c ≠ ofChar '@') :
    splitAddress (a ++ ofChar '@' :: f) = (a, f) := by
  have htake : (a ++ ofChar '@' :: f).takeWhile (· ≠ ofChar '@') = a := by
    rw [List.takeWhile_append_of_pos (by simpa using ha)]
    simp
  have hdrop : (a ++ ofChar '@' :: f).dropWhile (· ≠ ofChar '@') = ofChar '@' :: f := by
    rw [List.dropWhile_append_of_pos (by simpa using ha)]
    simp
  rw [splitAddress, htake, hdrop, List.tail_cons]

theorem splitAddress_eq {addr : Str} (h : ofChar '@' ∈ addr) :
    addr = (splitAddress addr).1 ++ ofChar '@' :: (splitAddress addr).2 := by
  induction addr with
  | nil => cases h
  | cons c addr ih =>
    by_cases hc : c = ofChar '@'
    · simp [splitAddress, hc]
    · have hm : ofChar '@' ∈ addr := by
        rcases List.mem_cons.mp h with e | hm
        · exact absurd e.symm hc
        · exact hm
      have hs : splitAddress (c :: addr) = (c :: (splitAddress addr).1, (splitAddress addr).2) := by
        simp [splitAddress, hc]
      rw [hs, List.cons_append, ← ih hm]

theorem parseAddress_ok_iff {addr place agent family : Str} :
    parseAddress addr place = .ok (agent, family) ↔ IsAddress addr agent family := by
  unfold parseAddress IsAddress
  constructor
  · intro h
    split_ifs at h with hc
    simp only at h
    split_ifs at h with hg
    simp only [Except.ok.injEq, Prod.mk.injEq] at h
    obtain ⟨rfl, rfl⟩ := h
    have hm : ofChar '@' ∈ addr := List.count_pos_iff.mp (by omega)
    simp only [not_or, Bool.not_eq_false] at hg
    exact ⟨splitAddress_eq hm, hg.1, hg.2.1⟩
  · rintro ⟨rfl, ha, hf⟩
    have hca : agent.count (ofChar '@') = 0 :=
      List.count_eq_zero.mpr fun hm => agentRe_ne_at ha _ hm rfl
    have hcf : family.count (ofChar '@') = 0 :=
      List.count_eq_zero.mpr fun hm => familyRe_ne_at hf _ hm rfl
    have hla : agent.length ≤ 32 := by
      simp only [agentRe, classRe, Bool.and_eq_true, decide_eq_true_eq] at ha
      exact ha.1.2
    have hlf : family.length ≤ 32 := by
      simp only [familyRe, classRe, Bool.and_eq_true, decide_eq_true_eq] at hf
      exact hf.1.2
    rw [if_neg (by simp [List.count_append, hca, hcf]), splitAddress_append (agentRe_ne_at ha)]
    simp only [ha, hf, List.length_append, List.length_cons, Bool.true_eq_false, false_or]
    rw [if_neg (by omega)]

theorem textSize_ok_iff {s : Str} {u : Unit} :
    textSize s = .ok u ↔ Clean s ∧ byteSize s ≤ textLimit := by
  unfold textSize
  cases he : encode s with
  | none =>
    have hc : ¬ Clean s := fun hc => by rw [encode_eq_some hc] at he; cases he
    exact iff_of_false nofun fun h => hc h.1
  | some b =>
    have hc := (encode_eq_some_iff.mp he).1
    rw [guardOr_eq_ok, length_encode he]
    exact ⟨fun h => ⟨hc, h⟩, fun h => h.2⟩

theorem payloadText_ok_iff {payload : List (Str × Json)} {u : Unit} :
    payloadText payload = .ok u ↔
      (∀ k ∈ keys payload, k ∈ payloadFields) ∧
        ∃ s, get (lit "text") payload = some (.str s) ∧ Clean s ∧ byteSize s ≤ textLimit := by
  have hextra : firstOf ((keys payload).filter (· ∉ payloadFields)) = none ↔
      ∀ k ∈ keys payload, k ∈ payloadFields := by
    rw [firstOf_eq_none_iff, List.filter_eq_nil_iff]
    simp only [decide_eq_true_eq, not_not]
  unfold payloadText
  rw [← hextra]
  cases get (lit "text") payload with
  | none => exact iff_of_false nofun fun ⟨_, s, h, _⟩ => nomatch h
  | some text =>
    cases firstOf ((keys payload).filter (· ∉ payloadFields)) with
    | some k => exact iff_of_false nofun fun ⟨h, _⟩ => nomatch h
    | none =>
      cases text with
      | str s =>
        refine textSize_ok_iff.trans ⟨fun h => ⟨rfl, s, rfl, h⟩, ?_⟩
        rintro ⟨-, s', hs, h⟩
        cases hs
        exact h
      | _ => exact iff_of_false nofun fun ⟨_, s, h, _⟩ => nomatch h

theorem replyLink_ok_iff {ev : List (Str × Json)} {etype : Str} {u : Unit} :
    replyLink ev etype = .ok u ↔
      ∃ r : Option Str, get (lit "in_reply_to") ev = r.map .str ∧
        ∀ s ∈ r, etype = lit "reply" ∧ uuidRe s = true := by
  unfold replyLink
  split_ifs with h
  · exact iff_of_true rfl ⟨none, h, nofun⟩
  · simp only [bind_eq_ok, guardOr_eq_ok, string_ok_iff, regex_ok_iff]
    constructor
    · rintro ⟨_, ht, s, hs, hr⟩
      refine ⟨some s, hs, ?_⟩
      rintro _ ⟨⟩
      exact ⟨ht, hr⟩
    · rintro ⟨r, hg, hr⟩
      cases r with
      | none => exact absurd hg h
      | some s => exact ⟨(), (hr s rfl).1, s, hg, (hr s rfl).2⟩

/-! ## Event envelopes as records -/

/-- What an event envelope says, its signature apart. -/
structure EventFields where
  origin : Str
  keyId : Str
  eventId : Str
  type : Str
  source : Str
  target : Str
  createdAt : Str
  text : Str
  inReplyTo : Option Str
deriving DecidableEq, Repr

/-- The grammars of an event envelope. -/
structure EventFields.Valid (f : EventFields) : Prop where
  origin : familyRe f.origin = true
  keyId : keyIdRe f.keyId = true
  eventId : uuidRe f.eventId = true
  type : f.type ∈ eventTypes
  source : ∃ agent, IsAddress f.source agent f.origin
  target : ∃ agent family, IsAddress f.target agent family
  createdAt : timestampOk f.createdAt = true
  text : Clean f.text ∧ byteSize f.text ≤ textLimit
  inReplyTo : ∀ s ∈ f.inReplyTo, f.type = lit "reply" ∧ uuidRe s = true

/-- The `event` member says what `f` says. -/
structure EventReads (ev : List (Str × Json)) (f : EventFields) : Prop where
  allowed : ∀ k ∈ keys ev, k ∈ eventFields
  eventId : get (lit "event_id") ev = some (.str f.eventId)
  type : get (lit "type") ev = some (.str f.type)
  source : get (lit "source") ev = some (.str f.source)
  target : get (lit "target") ev = some (.str f.target)
  createdAt : get (lit "created_at") ev = some (.str f.createdAt)
  payload : ∃ p, get (lit "payload") ev = some (.obj p) ∧ (∀ k ∈ keys p, k ∈ payloadFields) ∧
    get (lit "text") p = some (.str f.text)
  inReplyTo : get (lit "in_reply_to") ev = f.inReplyTo.map .str

/-- The envelope says what `f` says. -/
structure EventEnvelopeReads (obj : List (Str × Json)) (f : EventFields) : Prop where
  origin : get (lit "origin") obj = some (.str f.origin)
  keyId : get (lit "key_id") obj = some (.str f.keyId)
  event : ∃ ev, get (lit "event") obj = some (.obj ev) ∧ EventReads ev f

theorem eventBody_ok_iff {obj : List (Str × Json)} {u : Unit} :
    eventBody obj = .ok u ↔ ∃ f, EventEnvelopeReads obj f ∧ f.Valid := by
  unfold eventBody
  simp only [bind_eq_ok, guardOr_eq_ok, string_ok_iff, regex_ok_iff, object_ok_iff, fields_ok_iff,
    timestamp_ok_iff, payloadText_ok_iff, replyLink_ok_iff, Prod.exists, parseAddress_ok_iff]
  constructor
  · rintro ⟨origin, ho, _, hor, keyId, hk, _, hkr, ev, hev, _, hf, eventId, he, _, her, etype, ht,
      _, htr, source, hs, agent, family, hsr, _, rfl, target, htg, tagent, tfamily, htgr, created,
      hc, _, hcr, p, hp, _, ⟨hpk, text, hx, hxr⟩, r, hr, hrr⟩
    exact ⟨⟨family, keyId, eventId, etype, source, target, created, text, r⟩,
      ⟨ho, hk, ev, hev, hf.1, he, ht, hs, htg, hc, ⟨p, hp, hpk, hx⟩, hr⟩,
      ⟨hor, hkr, her, htr, ⟨agent, hsr⟩, ⟨tagent, tfamily, htgr⟩, hcr, hxr, hrr⟩⟩
  · rintro ⟨f, ⟨ho, hk, ev, hev, hr⟩, hv⟩
    obtain ⟨agent, hsr⟩ := hv.source
    obtain ⟨tagent, tfamily, htgr⟩ := hv.target
    obtain ⟨p, hp, hpk, hx⟩ := hr.payload
    refine ⟨f.origin, ho, (), hv.origin, f.keyId, hk, (), hv.keyId, ev, hev, (), ⟨hr.allowed, ?_⟩,
      f.eventId, hr.eventId, (), hv.eventId, f.type, hr.type, (), hv.type, f.source, hr.source,
      agent, f.origin, hsr, (), rfl, f.target, hr.target, tagent, tfamily, htgr, f.createdAt,
      hr.createdAt, (), hv.createdAt, p, hp, (), ⟨hpk, f.text, hx, hv.text⟩, f.inReplyTo,
      hr.inReplyTo, hv.inReplyTo⟩
    intro k hk'
    simp only [eventRequired, List.mem_cons, List.not_mem_nil, or_false] at hk'
    rcases hk' with rfl | rfl | rfl | rfl | rfl | rfl
    · exact mem_keys_of_get hr.eventId
    · exact mem_keys_of_get hr.type
    · exact mem_keys_of_get hr.source
    · exact mem_keys_of_get hr.target
    · exact mem_keys_of_get hr.createdAt
    · exact mem_keys_of_get hp

/-! ## Receipt envelopes as records -/

/-- What a receipt envelope says, its signature apart. -/
structure ReceiptFields where
  issuer : Str
  keyId : Str
  eventId : Str
  origin : Str
  sigHash : Str
  agent : Str
  ackType : Str
  atTime : Str
deriving DecidableEq, Repr

/-- The grammars of a receipt envelope. -/
structure ReceiptFields.Valid (f : ReceiptFields) : Prop where
  issuer : familyRe f.issuer = true
  keyId : keyIdRe f.keyId = true
  eventId : uuidRe f.eventId = true
  origin : familyRe f.origin = true
  sigHash : hex64Re f.sigHash = true
  agent : ∃ agent family, IsAddress f.agent agent family
  ackType : f.ackType ∈ ackTypes
  atTime : timestampOk f.atTime = true

/-- The `receipt` member says what `f` says. -/
structure ReceiptReads (rc : List (Str × Json)) (f : ReceiptFields) : Prop where
  allowed : ∀ k ∈ keys rc, k ∈ receiptFields
  eventId : get (lit "event_id") rc = some (.str f.eventId)
  origin : get (lit "origin") rc = some (.str f.origin)
  sigHash : get (lit "origin_event_sig_hash") rc = some (.str f.sigHash)
  agent : get (lit "agent") rc = some (.str f.agent)
  ackType : get (lit "ack_type") rc = some (.str f.ackType)
  atTime : get (lit "at") rc = some (.str f.atTime)

/-- The envelope says what `f` says. -/
structure ReceiptEnvelopeReads (obj : List (Str × Json)) (f : ReceiptFields) : Prop where
  issuer : get (lit "issuer") obj = some (.str f.issuer)
  keyId : get (lit "key_id") obj = some (.str f.keyId)
  receipt : ∃ rc, get (lit "receipt") obj = some (.obj rc) ∧ ReceiptReads rc f

theorem receiptBody_ok_iff {obj : List (Str × Json)} {u : Unit} :
    receiptBody obj = .ok u ↔ ∃ f, ReceiptEnvelopeReads obj f ∧ f.Valid := by
  unfold receiptBody
  simp only [bind_eq_ok, guardOr_eq_ok, string_ok_iff, regex_ok_iff, object_ok_iff, fields_ok_iff,
    timestamp_ok_iff, Prod.exists, parseAddress_ok_iff]
  constructor
  · rintro ⟨issuer, hi, _, hir, keyId, hk, _, hkr, rc, hrc, _, hf, eventId, he, _, her, origin, ho,
      _, hor, hash, hh, _, hhr, agent, ha, a, fam, har, ack, hc, _, hcr, time, ht, htr⟩
    exact ⟨⟨issuer, keyId, eventId, origin, hash, agent, ack, time⟩,
      ⟨hi, hk, rc, hrc, hf.1, he, ho, hh, ha, hc, ht⟩, ⟨hir, hkr, her, hor, hhr, ⟨a, fam, har⟩, hcr, htr⟩⟩
  · rintro ⟨f, ⟨hi, hk, rc, hrc, hr⟩, hv⟩
    obtain ⟨a, fam, har⟩ := hv.agent
    refine ⟨f.issuer, hi, (), hv.issuer, f.keyId, hk, (), hv.keyId, rc, hrc, (), ⟨hr.allowed, ?_⟩,
      f.eventId, hr.eventId, (), hv.eventId, f.origin, hr.origin, (), hv.origin, f.sigHash,
      hr.sigHash, (), hv.sigHash, f.agent, hr.agent, a, fam, har, f.ackType, hr.ackType, (),
      hv.ackType, f.atTime, hr.atTime, hv.atTime⟩
    intro k hk'
    simp only [receiptFields, List.mem_cons, List.not_mem_nil, or_false] at hk'
    rcases hk' with rfl | rfl | rfl | rfl | rfl | rfl
    · exact mem_keys_of_get hr.eventId
    · exact mem_keys_of_get hr.origin
    · exact mem_keys_of_get hr.sigHash
    · exact mem_keys_of_get hr.agent
    · exact mem_keys_of_get hr.ackType
    · exact mem_keys_of_get hr.atTime

/-! ## What the envelope checks accept -/

theorem checkKind_ok_iff {obj : List (Str × Json)} {kind : Str} {u : Unit} :
    checkKind obj kind = .ok u ↔ get (lit "kind") obj = some (.str kind) := by
  unfold checkKind
  split
  · next k hk => rw [guardOr_eq_ok, hk, Option.some.injEq, Json.str.injEq]
  · next hk => exact iff_of_false nofun fun h => hk _ h

theorem decodeSig_ok_iff {obj : List (Str × Json)} {sigStr : Str} {sig : Bytes} :
    decodeSig obj = .ok (sigStr, sig) ↔ get (lit "sig") obj = some (.str sigStr) ∧
      decodeStrict sigStr 64 "signature_length" "schema" = .ok sig := by
  unfold decodeSig
  split
  · next s hs =>
    rw [hs, Option.some.injEq, Json.str.injEq]
    cases hd : decodeStrict s 64 "signature_length" "schema" with
    | error e =>
      refine iff_of_false nofun ?_
      rintro ⟨rfl, h⟩
      rw [hd] at h
      cases h
    | ok b =>
      rw [Except.ok.injEq, Prod.mk.injEq]
      constructor
      · rintro ⟨rfl, rfl⟩
        exact ⟨rfl, hd⟩
      · rintro ⟨rfl, h⟩
        rw [hd] at h
        exact ⟨rfl, Except.ok.inj h⟩
  · next hs => exact iff_of_false nofun fun h => hs _ h.1

theorem envelope_ok_iff {obj : List (Str × Json)} {kind : Str} {top : List Str}
    {bodyCheck : List (Str × Json) → Except Raised Unit} {env : Envelope} :
    envelope obj kind top bodyCheck = .ok env ↔
      (∀ k ∈ keys obj, k ∈ top) ∧ (∀ k ∈ top, k ∈ keys obj) ∧
        get (lit "kind") obj = some (.str kind) ∧ bodyCheck obj = .ok () ∧
        ∃ sigStr sig, get (lit "sig") obj = some (.str sigStr) ∧
          decodeStrict sigStr 64 "signature_length" "schema" = .ok sig ∧
          env = ⟨kind, withoutSig obj, sigStr, sig⟩ := by
  unfold envelope
  simp only [bind_eq_ok, fields_ok_iff, checkKind_ok_iff, Prod.exists, decodeSig_ok_iff,
    pure_eq_ok]
  constructor
  · rintro ⟨_, ⟨hall, hreq⟩, _, hkind, _, hbody, sigStr, sig, ⟨hs, hd⟩, rfl⟩
    exact ⟨hall, hreq, hkind, hbody, sigStr, sig, hs, hd, rfl⟩
  · rintro ⟨hall, hreq, hkind, hbody, sigStr, sig, hs, hd, rfl⟩
    exact ⟨(), ⟨hall, hreq⟩, (), hkind, (), hbody, sigStr, sig, ⟨hs, hd⟩, rfl⟩

/-- An object is an event envelope when it reads as valid fields and a signature of 64 bytes. -/
theorem validateEventEnvelope_ok_iff {obj : List (Str × Json)} {env : Envelope} :
    validateEventEnvelope obj = .ok env ↔
      (∀ k ∈ keys obj, k ∈ eventTop) ∧ (∀ k ∈ eventTop, k ∈ keys obj) ∧
        get (lit "kind") obj = some (.str eventKind) ∧
        (∃ f, EventEnvelopeReads obj f ∧ f.Valid) ∧
        ∃ sigStr sig, get (lit "sig") obj = some (.str sigStr) ∧
          decodeStrict sigStr 64 "signature_length" "schema" = .ok sig ∧
          env = ⟨eventKind, withoutSig obj, sigStr, sig⟩ := by
  rw [validateEventEnvelope, envelope_ok_iff, eventBody_ok_iff]

/-- An object is a receipt envelope when it reads as valid fields and a signature of 64 bytes. -/
theorem validateReceiptEnvelope_ok_iff {obj : List (Str × Json)} {env : Envelope} :
    validateReceiptEnvelope obj = .ok env ↔
      (∀ k ∈ keys obj, k ∈ receiptTop) ∧ (∀ k ∈ receiptTop, k ∈ keys obj) ∧
        get (lit "kind") obj = some (.str receiptKind) ∧
        (∃ f, ReceiptEnvelopeReads obj f ∧ f.Valid) ∧
        ∃ sigStr sig, get (lit "sig") obj = some (.str sigStr) ∧
          decodeStrict sigStr 64 "signature_length" "schema" = .ok sig ∧
          env = ⟨receiptKind, withoutSig obj, sigStr, sig⟩ := by
  rw [validateReceiptEnvelope, envelope_ok_iff, receiptBody_ok_iff]

theorem checkBodySize_ok_iff {raw : Bytes} {u : Unit} :
    checkBodySize raw = .ok u ↔ raw.length ≤ requestBodyLimit := guardOr_eq_ok

/-- A body is accepted when it is short enough, parses, and the object passes the checks. -/
theorem parseWith_ok_iff {validate : List (Str × Json) → Except Raised Envelope} {raw : Bytes}
    {env : Envelope} :
    parseWith validate raw = .ok env ↔
      raw.length ≤ requestBodyLimit ∧ ∃ ms, parseStrict raw = .ok ms ∧ validate ms = .ok env := by
  unfold parseWith
  simp only [bind_eq_ok, checkBodySize_ok_iff]
  constructor
  · rintro ⟨_, hl, h⟩
    split at h
    · cases h
    · next ms hp => exact ⟨hl, ms, hp, h⟩
  · rintro ⟨hl, ms, hp, h⟩
    refine ⟨(), hl, ?_⟩
    rw [hp]
    exact h

end Federation
end ATalk
