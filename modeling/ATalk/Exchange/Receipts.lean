import ATalk.Exchange.Agreement
import ATalk.Federation.ReceiptText
import ATalk.Federation.ReceiptsIn

/-!
# Receipts between two instances

The receiver of the events acknowledges them, and its worker signs receipts with the key that it
also signs its own events with; the sender takes in what verifies under that key. Every other family
may send it what it likes.

* `Correspondence`, `correspondence` : the exchange with its receipts, and what has been signed;
* `base_run`    : its steps are steps of the exchange;
* `Owed`        : what a receipt that the receiver owes is about;
* `Corresponded`, `corresponded_of_reach` : the invariant.
-/

namespace ATalk
namespace Exchange

open Text Json Python Calendar ATalk.Core Federation Server Transition Callers Checks

variable {P : Parties} {db db' : Db} {row : OutboundRow} {inb : InboundRow} {r r' : ReceiptOutRow}
  {s s' : Correspondence} {b : State}

/-! ## The system -/

/-- The exchange, the place of the worker that sends the receipts of the receiver, and the objects
that were signed with the receiver's key. -/
structure Correspondence where
  base : State
  place : ReceiptPlace
  log : List (List (Str × Json))

namespace Correspondence

abbrev outDb (s : Correspondence) : Db := s.base.sender.db

abbrev inDb (s : Correspondence) : Db := s.base.receiver.store

/-- The database of the receiver has changed. -/
def withIn (s : Correspondence) (db : Db) : Correspondence :=
  { s with base := { s.base with receiver := { s.base.receiver with store := db } } }

inductive Act where
  | exchange (act : Exchange.Act)
  | receipts (fed : Runtime) (limits : RateLimits) (raw : Bytes) (woken : NotificationRow → Bool)
    (cursor : Option HintCursor) (now : Time)
  | ack (env : Env) (r : AckRequest) (path : AckPath)
  | work (label : ReceiptLabel) (db : Db) (place : ReceiptPlace)
  | signReceipt (row : ReceiptOutRow)
  | signEvent (f : EventFields)
  | quiet (db : Db)

end Correspondence

/-- The sender takes in receipts under its identity. -/
def Parties.Receives (P : Parties) (fed : Runtime) : Prop :=
  fed.crypto = P.fed.crypto ∧ fed.identity = P.identity ∧ fed.uuid5 = P.uuid5

/-- What the worker of the receipts may write. -/
def WorkerFrame (db db' : Db) : Prop :=
  db' = { db with
    federationReceiptOut := db'.federationReceiptOut,
    federationNotifications := db'.federationNotifications }

/-- A step of the exchange that takes in no receipts, and is not one beside the inbox. -/
def Correspondence.Inner (s : Correspondence) : Exchange.Act → Prop
  | .aside db => db.federationReceiptInOriginals = s.outDb.federationReceiptInOriginals
  | .receive (.other _) => False
  | _ => True

open Correspondence in
/-- A step of the exchange; a request to `/federation/receipts` of the sender; an acknowledgement at
the receiver; a step of the worker of its receipts, which stores an original once it has signed it;
a signature under its key; or another request to it, which writes neither acknowledgements nor
receipts. -/
def correspondence (P : Parties) : System Correspondence Correspondence.Act where
  init s := (exchange P).init s.base ∧ s.inDb.federationReceiptOut = [] ∧ s.place = .down ∧ s.log = []
  step s act s' :=
    match act with
    | .exchange act => s.Inner act ∧
        ∃ base, (exchange P).step s.base act base ∧ s' = { s with base := base }
    | .receipts fed limits raw woken cursor now => P.Receives fed ∧
        s' = { s with base := { s.base with sender := { s.base.sender with
          db := (federationReceipts fed s.outDb limits raw woken cursor now).1 } } }
    | .ack env r path => PathFrom P.fed s.inDb path ∧
        ∃ db, ackWrite env P.fed s.inDb r path = .ok db ∧ s' = s.withIn db
    | .work label db place => Dispatches ⟨s.inDb, P.fed, s.place⟩ label ⟨db, P.fed, place⟩ ∧
        (∀ row, label ≠ .acknowledged row) ∧ WorkerFrame s.inDb db ∧
        (∀ row identity, label = .signed row identity →
          signedReceipt (issuedAs row identity.family identity.keyId) ∈ s.log) ∧
        s' = { s.withIn db with place := place }
    | .signReceipt row => row ∈ s.place.rows ∧ s' = { s with log := s.log ++
        [signedReceipt (issuedAs row P.receiver P.fed.identity.keyId)] }
    | .signEvent f => s' = { s with log := s.log ++ [signedEvent f] }
    | .quiet db => Beside s.inDb db ∧ db.federationReceiptOut = s.inDb.federationReceiptOut ∧
        db.acks = s.inDb.acks ∧ s' = s.withIn db

/-- What verifies under the key of the receiver was signed with it. -/
def Parties.Authentic (P : Parties) (log : List (List (Str × Json))) (fed : Runtime) (raw : Bytes) :
    Prop :=
  ∀ env rec, parseReceipt raw = .ok env →
    fed.registry.lookup (envelopeField env "issuer") (envelopeField env "key_id") = some rec →
    rec.family = P.receiver → verifyEnvelope fed rec env = .ok () →
    ∃ signed ∈ log, canonicalBytes signed = env.signedBytes

/-- Nobody else signs in the name of either instance, and nobody else answers in the name of the
receiver. -/
def Parties.Fair (P : Parties) (s : Correspondence) : Correspondence.Act → Prop
  | .exchange act => P.Honest s.base act
  | .receipts fed _ raw _ _ _ => P.Authentic s.log fed raw
  | _ => True

/-! ## What the receiver owes -/

/-- A receipt is about an event that came in, for whom it was for, and it was acknowledged. -/
structure OwedFor (crypto : Crypto) (db : Db) (inb : InboundRow) (r : ReceiptOutRow) : Prop where
  eventId : r.eventId = inb.eventId
  origin : r.origin = inb.origin
  agent : r.agent = inb.target
  hash : ∃ sig, decodeStrict inb.sig 64 "signature_length" "schema" = .ok sig ∧
    r.originEventSigHash = crypto.sha256 sig
  acked : hasAck db r.eventId (localPart r.agent) r.ackType = true

def Owed (crypto : Crypto) (db : Db) : Prop :=
  ∀ r ∈ db.federationReceiptOut, ∃ inb ∈ db.federationInbound, OwedFor crypto db inb r

/-- Events and acknowledgements stay, and receipts keep what they declare. -/
theorem Owed.carry {crypto : Crypto} (h : Owed crypto db) (hrises : Rises db db')
    (hacks : ∀ e x t, hasAck db e x t = true → hasAck db' e x t = true)
    (hreceipts : db'.federationReceiptOut.map declared = db.federationReceiptOut.map declared) :
    Owed crypto db' := by
  intro r' hr'
  obtain ⟨r, hr, hdeclared⟩ := exists_of_map_eq hreceipts hr'
  obtain ⟨inb, hinb, howed⟩ := h r hr
  obtain ⟨inb', hinb', hfixed⟩ := hrises inb hinb
  have heventId : r.eventId = r'.eventId := (congrArg ReceiptOutRow.eventId hdeclared :)
  have horigin : r.origin = r'.origin := (congrArg ReceiptOutRow.origin hdeclared :)
  have hagent : r.agent = r'.agent := (congrArg ReceiptOutRow.agent hdeclared :)
  have htype : r.ackType = r'.ackType := (congrArg ReceiptOutRow.ackType hdeclared :)
  have hhash : r.originEventSigHash = r'.originEventSigHash :=
    (congrArg ReceiptOutRow.originEventSigHash hdeclared :)
  refine ⟨inb', hinb', ?_, ?_, ?_, ?_, ?_⟩
  · rw [← heventId, howed.eventId]
    exact (congrArg InboundRow.eventId hfixed.symm :)
  · rw [← horigin, howed.origin]
    exact (congrArg InboundRow.origin hfixed.symm :)
  · rw [← hagent, howed.agent]
    exact (congrArg InboundRow.target hfixed.symm :)
  · rw [← hhash, show inb'.sig = inb.sig from (congrArg InboundRow.sig hfixed :)]
    exact howed.hash
  · rw [← heventId, ← hagent, ← htype]
    exact hacks _ _ _ howed.acked

theorem hasAck_of_acks (h : db'.acks = db.acks) (e x : Str) (t : AckType)
    (hack : hasAck db e x t = true) : hasAck db' e x t = true := by
  rwa [hasAck, h]

theorem upsertAck_receipts (db : Db) (eventId agent : Str) (ackType : AckType) (now : Time)
    (detail : Val) : (upsertAck db eventId agent ackType now detail).federationReceiptOut =
      db.federationReceiptOut := by
  unfold upsertAck
  split_ifs <;> rfl

/-- The receipt of an acknowledgement is owed. -/
theorem owedFor_new {fed : Runtime} {inb' : InboundRow} {eventId : Str} {ackType : AckType}
    {sigHash : Str} {now : Time} (hfixed : InboundRow.fixed inb' = InboundRow.fixed inb)
    (hid : inb.eventId = eventId) (hhash : ∃ sig, decodeStrict inb.sig 64 "signature_length" "schema" =
      .ok sig ∧ sigHash = fed.crypto.sha256 sig)
    (hack : hasAck db' eventId (localPart inb.target) ackType = true) :
    OwedFor fed.crypto db' inb' (receiptOutRow db inb fed.identity eventId ackType sigHash now) where
  eventId := hid.symm.trans (congrArg InboundRow.eventId hfixed.symm :)
  origin := (congrArg InboundRow.origin hfixed.symm :)
  agent := (congrArg InboundRow.target hfixed.symm :)
  hash := by
    rw [show inb'.sig = inb.sig from (congrArg InboundRow.sig hfixed :)]
    exact hhash
  acked := hack

/-- An acknowledgement owes what it adds. -/
theorem Owed.ack {env : Env} {fed : Runtime} {q : AckRequest} {path : AckPath}
    (h : Owed fed.crypto db) (hpath : PathFrom fed db path)
    (hack : ackWrite env fed db q path = .ok db') : Owed fed.crypto db' := by
  have hlater := (ackWrite_later hack).1.acks
  have hinbound : db'.federationInbound = db.federationInbound := by rw [ackWrite_frame hack]
  have hrises : Rises db db' := .of_fixed (by rw [hinbound])
  have hsame : db'.federationReceiptOut = db.federationReceiptOut → Owed fed.crypto db' := fun hout =>
    h.carry hrises hlater (by rw [hout])
  cases path with
  | localPath =>
    refine hsame ?_
    simp only [ackWrite, ackEvent, bind_eq_ok] at hack
    obtain ⟨_, -, _, -, _, -, _, -, hack⟩ := hack
    obtain ⟨_, _, -, -, -, rfl⟩ := writeAck_ok hack
    exact upsertAck_receipts ..
  | federated inb eventId agent ackType sigHash =>
    obtain ⟨⟨inb', hinb', hfixed⟩, hid, rfl, hhash⟩ := hpath
    simp only [ackWrite, ackWithReceiptIntent, bind_eq_ok] at hack
    obtain ⟨-, -, db₁, hwrite, hack⟩ := hack
    obtain ⟨_, _, he, hx, -, hdb₁⟩ := writeAck_ok hwrite
    cases he
    cases hx
    have hold : db₁.federationReceiptOut = db.federationReceiptOut := by
      rw [hdb₁]
      exact upsertAck_receipts ..
    have hnew : hasAck db₁ eventId (localPart inb.target) ackType = true := by
      rw [hdb₁, Adapter.hasAck_upsertAck]
      exact .inr ⟨rfl, rfl, rfl⟩
    split_ifs at hack with hthere
    · cases hack
      exact hsame hold
    · cases hack
      intro r hr
      rcases List.mem_append.mp hr with hr | hr
      · rw [hold] at hr
        obtain ⟨inb₀, hinb₀, howed⟩ := h r hr
        exact ⟨inb₀, hinbound ▸ hinb₀, howed.eventId, howed.origin, howed.agent, howed.hash,
          hlater _ _ _ howed.acked⟩
      · rw [List.mem_singleton.mp hr]
        exact ⟨inb', hinbound ▸ hinb', owedFor_new hfixed hid hhash hnew⟩

theorem declared_of_retains (h : Retains db db') :
    db'.federationReceiptOut.map declared = db.federationReceiptOut.map declared := by
  have hmap := congrArg (List.map declared) h
  rwa [List.map_map, List.map_map, show declared ∘ kept = declared from rfl] at hmap

theorem declared_of_written {row : ReceiptOutRow} {json : List (Str × Json)} {sig : Str} {now : Time}
    (h : db'.federationReceiptOut = db.federationReceiptOut.map (written row json sig now)) :
    db'.federationReceiptOut.map declared = db.federationReceiptOut.map declared := by
  rw [h, List.map_map]
  exact List.map_congr_left fun r _ => declared_written r

/-- The worker of the receipts writes no column that an acknowledgement has fixed. -/
theorem declared_of_dispatches {d d' : Dispatcher} {label : ReceiptLabel} (h : Dispatches d label d')
    (hlabel : ∀ row, label ≠ .acknowledged row) :
    d'.db.federationReceiptOut.map declared = d.db.federationReceiptOut.map declared := by
  cases h with
  | ack h =>
    rcases ackWrite_receipts h with hsame | ⟨row, hrow, -, -⟩
    · exact declared_of_retains (.of_eq hsame)
    · exact absurd (ackLabel_append hrow) (hlabel row)
  | write h => exact declared_of_retains (.of_eq h)
  | scanSign _ _ hdb =>
    obtain ⟨sig, hrows⟩ := signReceipt_writes hdb
    exact declared_of_written hrows
  | sign _ _ hdb =>
    obtain ⟨sig, hrows⟩ := signReceipt_writes hdb
    exact declared_of_written hrows
  | unregistered _ _ hdb => exact declared_of_retains (applyReceipt_retains hdb)
  | apply _ hdb => exact declared_of_retains (applyReceipt_retains hdb)
  | persist cfg draw => exact declared_of_retains (raisedReceipt_retains ..)
  | _ => rfl

/-- The receipt that the receiver owes, under the key that it signs with. -/
def Parties.issued (P : Parties) (r : ReceiptOutRow) : List (Str × Json) :=
  signedReceipt (issuedAs r P.receiver P.fed.identity.keyId)

/-- The stored original is what the receiver composes. -/
structure Originates (fed : Runtime) (r : ReceiptOutRow) : Prop where
  valid : (issuedAs r fed.identity.family fed.identity.keyId).Valid
  json : r.signedJson = some (original r fed.identity (signature fed.crypto fed.identity
    (signedReceipt (issuedAs r fed.identity.family fed.identity.keyId))))
  sig : r.sig = some (signature fed.crypto fed.identity
    (signedReceipt (issuedAs r fed.identity.family fed.identity.keyId)))

theorem Originates.congr {fed : Runtime} (h : Originates fed r) (hkept : kept r = kept r') :
    Originates fed r' := by
  have hdeclared := declared_of_kept hkept
  have hissued := issuedAs_of_declared hdeclared
  refine ⟨hissued _ _ ▸ h.valid, ?_, ?_⟩
  · have hjson := (congrArg ReceiptOutRow.signedJson hkept.symm :).trans h.json
    rwa [original, hissued] at hjson
  · have hsig := (congrArg ReceiptOutRow.sig hkept.symm :).trans h.sig
    rwa [hissued] at hsig

/-- Every original was signed by the receiver before it was stored. -/
def Originals (P : Parties) (log : List (List (Str × Json))) (db : Db) : Prop :=
  ∀ r ∈ db.federationReceiptOut, r.signedJson ≠ none → Originates P.fed r ∧ P.issued r ∈ log

theorem Originals.of_eq {log : List (List (Str × Json))} (h : Originals P log db)
    (hdb : db'.federationReceiptOut = db.federationReceiptOut) : Originals P log db' :=
  fun r hr => h r (hdb ▸ hr)

/-- The signing composes what it stores. -/
theorem signReceipt_composes {fed : Runtime} {row : ReceiptOutRow} {now : Time}
    (h : signReceipt fed db row now = .ok db') :
    (issuedAs row fed.identity.family fed.identity.keyId).Valid ∧
      db'.federationReceiptOut = db.federationReceiptOut.map (written row (original row fed.identity
        (signature fed.crypto fed.identity
          (signedReceipt (issuedAs row fed.identity.family fed.identity.keyId))))
        (signature fed.crypto fed.identity
          (signedReceipt (issuedAs row fed.identity.family fed.identity.keyId))) now) := by
  unfold signReceipt at h
  split at h
  · cases h
  · next envelope henvelope =>
    cases h
    obtain ⟨hvalid, rfl⟩ := compose_receipt_ok_iff.mp henvelope
    exact ⟨hvalid, rfl⟩

/-- A row after a signing was there before, or has its original now. -/
theorem originates_of_sign {tr : List ReceiptLabel} {d : Dispatcher} {row : ReceiptOutRow}
    {now : Time} (hc : Consistent tr d) (hrow : Mirrors d.db row)
    (h : signReceipt d.fed d.db row now = .ok db') (hr' : r' ∈ db'.federationReceiptOut) :
    (∃ r ∈ d.db.federationReceiptOut, kept r = kept r') ∨
      Originates d.fed r' ∧ ∃ found, signLabel d.db row d.fed.identity =
        .signed found d.fed.identity ∧ declared found = declared r' := by
  obtain ⟨hvalid, hrows⟩ := signReceipt_composes h
  rw [hrows] at hr'
  obtain ⟨r, hr, rfl⟩ := List.mem_map.mp hr'
  by_cases hsigns : SameReceipt row r ∧ r.status = .pending ∧ r.signedJson = none
  · right
    obtain ⟨hsame, hpending, hnone⟩ := hsigns
    obtain ⟨q, hq, hdeclared, -⟩ := hrow
    have hone : ∀ r₀ ∈ d.db.federationReceiptOut, SameReceipt row r₀ → r₀ = q := fun r₀ hr₀ hsame₀ =>
      hc.same hq hr₀ (SameReceipt.trans (.of_declared hdeclared) hsame₀)
    obtain rfl := hone r hr hsame
    have hissued := issuedAs_of_declared hdeclared
    rw [written_of_unsigned hsame hpending hnone]
    refine ⟨⟨hissued _ _ ▸ hvalid, ?_, ?_⟩, ?_⟩
    · show some (original row _ _) = some (original _ _ _)
      rw [original, original, ← hissued]
      rfl
    · show some (signature _ _ (signedReceipt (issuedAs row _ _))) = _
      rw [← hissued]
      rfl
    · unfold signLabel
      cases hfind : d.db.federationReceiptOut.find? fun r =>
          SameReceipt row r ∧ r.status = .pending ∧ r.signedJson = none with
      | none =>
        have hno := List.find?_eq_none.mp hfind r hr
        simp only [decide_eq_true_eq] at hno
        exact absurd ⟨hsame, hpending, hnone⟩ hno
      | some found =>
        have hmatch := List.find?_some hfind
        simp only [decide_eq_true_eq] at hmatch
        rw [hone found (List.mem_of_find?_eq_some hfind) hmatch.1]
        exact ⟨r, rfl, rfl⟩
  · exact .inl ⟨r, hr, by rw [(written_cases r).resolve_right hsigns]⟩

/-- The worker stores no original but those it has signed. -/
theorem originates_of_dispatches {tr : List ReceiptLabel} {d d' : Dispatcher} {label : ReceiptLabel}
    (hc : Consistent tr d) (h : Dispatches d label d') (hr' : r' ∈ d'.db.federationReceiptOut)
    (hsigned : r'.signedJson ≠ none) :
    (∃ r ∈ d.db.federationReceiptOut, kept r = kept r') ∨
      Originates d.fed r' ∧ ∃ found, label = .signed found d.fed.identity ∧
        declared found = declared r' := by
  have hback : Retains d.db d'.db → ∃ r ∈ d.db.federationReceiptOut, kept r = kept r' :=
    fun hretains => hretains.back hr'
  cases h with
  | ack h =>
    rcases ackWrite_receipts h with hsame | ⟨row, hrow, hnone, -⟩
    · exact .inl (hback (.of_eq hsame))
    · rcases List.mem_append.mp (hrow ▸ hr') with hold | hnew
      · exact .inl ⟨r', hold, rfl⟩
      · rw [List.mem_singleton.mp hnew] at hsigned
        exact absurd hnone hsigned
  | write h => exact .inl (hback (.of_eq h))
  | @scanSign row rows now db hplace _ hdb =>
    exact originates_of_sign hc (hc.held row (by rw [hplace]; exact List.mem_cons_self)) hdb hr'
  | @sign row rows now db hplace _ hdb =>
    exact originates_of_sign hc (hc.held row (by rw [hplace]; exact List.mem_cons_self)) hdb hr'
  | unregistered _ _ hdb => exact .inl (hback (applyReceipt_retains hdb))
  | apply _ hdb => exact .inl (hback (applyReceipt_retains hdb))
  | persist cfg draw => exact .inl (hback (raisedReceipt_retains ..))
  | _ => exact .inl ⟨r', hr', rfl⟩

/-! ## What a receipt says -/

theorem tidy_signedEvent (f : EventFields) : Tidy (.obj (signedEvent f)) := by
  refine ⟨of_decide_eq_true rfl, trivial, trivial, trivial, ?_, trivial⟩
  unfold eventObject
  cases f.inReplyTo with
  | none =>
    exact ⟨of_decide_eq_true rfl, trivial, trivial, trivial, trivial, trivial,
      ⟨of_decide_eq_true rfl, trivial, trivial⟩, trivial⟩
  | some s =>
    exact ⟨of_decide_eq_true rfl, trivial, trivial, trivial, trivial, trivial,
      ⟨of_decide_eq_true rfl, trivial, trivial⟩, trivial, trivial⟩

theorem tidy_signedReceipt (g : ReceiptFields) : Tidy (.obj (signedReceipt g)) :=
  ⟨of_decide_eq_true rfl, trivial, trivial, trivial,
    ⟨of_decide_eq_true rfl, trivial, trivial, trivial, trivial, trivial, trivial, trivial⟩, trivial⟩

/-- What a parsed receipt says. -/
structure ReceiptSays (env : Envelope) (f : ReceiptFields) : Prop where
  domain : Domain (.obj env.signed)
  kind : get (lit "kind") env.signed = some (.str receiptKind)
  reads : ReceiptEnvelopeReads env.signed f
  valid : f.Valid

theorem parseReceipt_tells {raw : Bytes} {env : Envelope} (h : parseReceipt raw = .ok env) :
    ∃ f, ReceiptSays env f := by
  obtain ⟨-, ms, hparse, hvalid⟩ := parseWith_ok_iff.mp h
  obtain ⟨-, -, hkind, ⟨f, hreads, hf⟩, sigStr, sig, -, -, rfl⟩ :=
    validateReceiptEnvelope_ok_iff.mp hvalid
  obtain ⟨rc, hrc, hreceipt⟩ := hreads.receipt
  have hget : ∀ k v, k ≠ lit "sig" → get k ms = some v → get k (withoutSig ms) = some v :=
    fun k v hk hv => (Adapter.get_withoutSig hk ms).trans hv
  exact ⟨f, domain_withoutSig (parseStrict_domain hparse).1, hget _ _ (by decide) hkind,
    ⟨hget _ _ (by decide) hreads.issuer, hget _ _ (by decide) hreads.keyId, rc,
      hget _ _ (by decide) hrc, hreceipt⟩, hf⟩

section
variable {env : Envelope} {f g : ReceiptFields}

/-- A string member is told by the canonical form. -/
theorem str_of_sorted {a b : List (Str × Json)} {k x y : Str} (ha : (keys a).Nodup)
    (hb : (keys b).Nodup) (h : sorted a = sorted b) (hx : get k a = some (.str x))
    (hy : get k b = some (.str y)) : x = y := by
  have hget := get_of_sorted_eq ha hb h k
  rw [hx, hy] at hget
  exact Json.str.inj (Option.some.inj hget)

/-- Whoever signed the bytes of a receipt signed what it says. -/
theorem ReceiptSays.signed (h : ReceiptSays env f)
    (hsame : sorted (signedReceipt g) = sorted env.signed) : g = f := by
  have hnodup := nodup_of_domain h.domain
  have hnodup' := (tidy_signedReceipt g).1
  obtain ⟨rc, hrc, hreads⟩ := h.reads.receipt
  have hrcs : sorted (receiptObject g) = sorted rc := by
    have hget := get_of_sorted_eq hnodup' hnodup hsame (lit "receipt")
    rw [hrc, show get (lit "receipt") (signedReceipt g) = some (.obj (receiptObject g)) from rfl,
      Option.map_some, Option.map_some, sortKeys_obj, sortKeys_obj] at hget
    exact Json.obj.inj (Option.some.inj hget)
  have hrn := nodup_of_domain (domain_get h.domain hrc)
  have hrn' : (keys (receiptObject g)).Nodup := (tidy_signedReceipt g).2.2.2.2.1.1
  obtain ⟨issuer, keyId, eventId, origin, sigHash, agent, ackType, atTime⟩ := g
  obtain ⟨issuer', keyId', eventId', origin', sigHash', agent', ackType', atTime'⟩ := f
  -- member by member, outside the inner object and in it
  obtain rfl : issuer = issuer' := str_of_sorted hnodup' hnodup hsame rfl h.reads.issuer
  obtain rfl : keyId = keyId' := str_of_sorted hnodup' hnodup hsame rfl h.reads.keyId
  obtain rfl : eventId = eventId' := str_of_sorted hrn' hrn hrcs rfl hreads.eventId
  obtain rfl : origin = origin' := str_of_sorted hrn' hrn hrcs rfl hreads.origin
  obtain rfl : sigHash = sigHash' := str_of_sorted hrn' hrn hrcs rfl hreads.sigHash
  obtain rfl : agent = agent' := str_of_sorted hrn' hrn hrcs rfl hreads.agent
  obtain rfl : ackType = ackType' := str_of_sorted hrn' hrn hrcs rfl hreads.ackType
  obtain rfl : atTime = atTime' := str_of_sorted hrn' hrn hrcs rfl hreads.atTime
  rfl

/-- The bytes of a receipt are not those of an event. -/
theorem ReceiptSays.no_event (h : ReceiptSays env f) (e : EventFields)
    (hsame : sorted (signedEvent e) = sorted env.signed) : False := by
  have hkind := str_of_sorted (tidy_signedEvent e).1 (nodup_of_domain h.domain) hsame rfl h.kind
  exact absurd hkind (by decide)

/-- What the handler reads of a receipt is what it says. -/
structure FieldsOf (env : Envelope) (f : ReceiptFields) : Prop where
  issuer : envelopeField env "issuer" = f.issuer
  keyId : envelopeField env "key_id" = f.keyId
  eventId : receiptField env "event_id" = f.eventId
  origin : receiptField env "origin" = f.origin
  sigHash : receiptField env "origin_event_sig_hash" = f.sigHash
  agent : receiptField env "agent" = f.agent
  ackType : receiptField env "ack_type" = f.ackType

theorem ReceiptSays.fields (h : ReceiptSays env f) : FieldsOf env f := by
  obtain ⟨rc, hrc, hreads⟩ := h.reads.receipt
  have hmember : ∀ {k x : Str} {ms : List (Str × Json)}, get k ms = some (.str x) →
      (strMember k ms).getD [] = x := by
    intro k x ms hx
    rw [strMember, hx, Option.getD_some]
  have hfield : ∀ {key value}, get (lit key) rc = some (.str value) →
      receiptField env key = value := by
    intro key value hvalue
    rw [receiptField, objMember, hrc]
    exact hmember hvalue
  exact ⟨hmember h.reads.issuer, hmember h.reads.keyId, hfield hreads.eventId, hfield hreads.origin,
    hfield hreads.sigHash, hfield hreads.agent, hfield hreads.ackType⟩

end

/-! ## The invariant -/

/-- The receiver owes the receipt, and the original is what it signed. -/
structure Redeems (P : Parties) (r : ReceiptOutRow) (o : ReceiptOriginalRow) : Prop where
  eventId : r.eventId = o.eventId
  agent : r.agent = o.agent
  ackType : r.ackType = o.ackType
  origin : r.origin = P.sender
  signed : o.signedJson = sorted (P.issued r)

/-- An original that came in is about a row of the sender, for whom that is for; if that is the
receiver, it owes the receipt. -/
def Stated (P : Parties) (out db : Db) (o : ReceiptOriginalRow) : Prop :=
  ∃ row ∈ out.federationOutbound, row.eventId = o.eventId ∧ row.target = o.agent ∧
    (row.targetFamily = P.receiver → ∃ r ∈ db.federationReceiptOut, Redeems P r o)

structure Corresponded (P : Parties) (s : Correspondence) : Prop where
  base : Reach (exchange P) P.Honest s.base
  owed : Owed P.fed.crypto s.inDb
  originals : Originals P s.log s.inDb
  consistent : ∃ tr, Consistent tr ⟨s.inDb, P.fed, s.place⟩
  log : ∀ signed ∈ s.log, (∃ f, signed = signedEvent f) ∨
    ∃ r ∈ s.inDb.federationReceiptOut, signed = P.issued r
  stated : ∀ o ∈ s.outDb.federationReceiptInOriginals, Stated P s.outDb s.inDb o

/-- A receipt that the receiver owes is owed as it was declared. -/
def Declares (db db' : Db) : Prop :=
  ∀ r ∈ db.federationReceiptOut, ∃ r' ∈ db'.federationReceiptOut, declared r' = declared r

theorem Declares.of_map
    (h : db'.federationReceiptOut.map declared = db.federationReceiptOut.map declared) :
    Declares db db' := fun _ hr => exists_of_map_eq h.symm hr

theorem issued_of_declared (h : declared r' = declared r) : P.issued r' = P.issued r :=
  congrArg signedReceipt (issuedAs_of_declared h _ _)

theorem Stated.declares {out : Db} {o : ReceiptOriginalRow} (h : Stated P out db o)
    (hdeclares : Declares db db') : Stated P out db' o := by
  obtain ⟨row, hrow, heventId, htarget, howed⟩ := h
  refine ⟨row, hrow, heventId, htarget, fun hfamily => ?_⟩
  obtain ⟨r, hr, hredeems⟩ := howed hfamily
  obtain ⟨r', hr', hsame⟩ := hdeclares r hr
  refine ⟨r', hr', ?_, ?_, ?_, ?_, ?_⟩
  · exact (congrArg ReceiptOutRow.eventId hsame :).trans hredeems.eventId
  · exact (congrArg ReceiptOutRow.agent hsame :).trans hredeems.agent
  · exact (congrArg ReceiptOutRow.ackType hsame :).trans hredeems.ackType
  · exact (congrArg ReceiptOutRow.origin hsame :).trans hredeems.origin
  · rw [issued_of_declared hsame]
    exact hredeems.signed

theorem Declares.refl (db : Db) : Declares db db := .of_map rfl

/-- The rows of the sender stay, with what was composed. -/
def Carries (n n' : Node) : Prop :=
  ∀ row ∈ n.db.federationOutbound, ∃ row' ∈ n'.db.federationOutbound,
    OutboundRow.fixed row' = OutboundRow.fixed row

theorem Carries.of_eq {n n' : Node} (h : n'.db = n.db) : Carries n n' :=
  fun row hrow => ⟨row, h.symm ▸ hrow, rfl⟩

theorem Carries.of_turns {n n' : Node} (h : Turns P n n') : Carries n n' :=
  fun _ hrow => h.turned.carries hrow

/-- Whatever takes in no receipt keeps the rows of the sender and the receipts of the receiver. -/
theorem Corresponded.move (h : Corresponded P s) {base : State} {place : ReceiptPlace}
    {label : ReceiptLabel} (hbase : Reach (exchange P) P.Honest base)
    (hcarries : Carries s.base.sender base.sender)
    (hin : base.sender.db.federationReceiptInOriginals = s.outDb.federationReceiptInOriginals)
    (howed : Owed P.fed.crypto base.receiver.store) (horiginals : Originals P s.log base.receiver.store)
    (hmove : Dispatches ⟨s.inDb, P.fed, s.place⟩ label ⟨base.receiver.store, P.fed, place⟩)
    (hdeclares : Declares s.inDb base.receiver.store) : Corresponded P ⟨base, place, s.log⟩ where
  base := hbase
  owed := howed
  originals := horiginals
  consistent := by
    obtain ⟨tr, hconsistent⟩ := h.consistent
    exact ⟨_, hconsistent.move hmove⟩
  log signed hsigned := by
    -- what was signed is owed still, as it was declared
    rcases h.log signed hsigned with hevent | ⟨r, hr, hissued⟩
    · exact .inl hevent
    · obtain ⟨r', hr', hsame⟩ := hdeclares r hr
      exact .inr ⟨r', hr', hissued.trans (issued_of_declared hsame).symm⟩
  stated o ho := by
    refine Stated.declares ?_ hdeclares
    obtain ⟨row, hrow, heventId, htarget, howed⟩ := h.stated o (hin ▸ ho)
    obtain ⟨row', hrow', hfixed⟩ := hcarries row hrow
    exact ⟨row', hrow', (eventId_of_fixed hfixed).trans heventId,
      (congrArg OutboundRow.target hfixed :).trans htarget,
      fun hfamily => howed (targetFamily_of_fixed hfixed ▸ hfamily)⟩

/-- A step of the sender that takes in no receipt. -/
theorem Corresponded.turn (h : Corresponded P s) {base : State}
    (hbase : Reach (exchange P) P.Honest base) (hcarries : Carries s.base.sender base.sender)
    (hin : base.sender.db.federationReceiptInOriginals = s.outDb.federationReceiptInOriginals)
    (hstore : base.receiver.store = s.inDb) : Corresponded P ⟨base, s.place, s.log⟩ :=
  h.move hbase hcarries hin (hstore ▸ h.owed) (h.originals.of_eq (by rw [hstore]))
    (.write (by rw [hstore])) (.of_map (by rw [hstore]))

/-- A step of the receiver. -/
theorem Corresponded.proceed (h : Corresponded P s) {base : State} {place : ReceiptPlace}
    {label : ReceiptLabel} (hbase : Reach (exchange P) P.Honest base)
    (hsender : base.sender = s.base.sender) (howed : Owed P.fed.crypto base.receiver.store)
    (horiginals : Originals P s.log base.receiver.store)
    (hmove : Dispatches ⟨s.inDb, P.fed, s.place⟩ label ⟨base.receiver.store, P.fed, place⟩)
    (hdeclares : Declares s.inDb base.receiver.store) : Corresponded P ⟨base, place, s.log⟩ :=
  h.move hbase (.of_eq (by rw [hsender])) (by rw [hsender]) howed horiginals hmove
    hdeclares

/-! ## Receipts that come in -/

theorem familyPart_address {addr agent family : Str} (h : IsAddress addr agent family) :
    familyPart addr = some family := by
  obtain ⟨rfl, -, hfamily⟩ := h
  have hat : ∀ c ∈ family.reverse, (decide (c ≠ ofChar '@')) = true := fun c hc =>
    decide_eq_true (familyRe_ne_at hfamily c (List.mem_reverse.mp hc))
  rw [familyPart, if_pos (List.mem_append_right _ List.mem_cons_self), List.reverse_append,
    List.reverse_cons, List.append_assoc, List.takeWhile_append_of_pos hat]
  simp

theorem lookup_family {reg : PeerRegistry} {family keyId : Str} {rec : PeerRecord}
    (h : reg.lookup family keyId = some rec) : rec.family = family := by
  unfold PeerRegistry.lookup at h
  split at h
  · next found hfound =>
    split_ifs at h
    cases h
    unfold PeerRegistry.receiptsPeer at hfound
    simpa using List.find?_some hfound
  · cases h

theorem ofText_text (t : AckType) : AckType.ofText (AckType.text t) = some t := by
  cases t <;> rfl

/-- What the receiver signed is owed. -/
theorem Corresponded.admitted (h : Corresponded P s) (huuid : Function.Injective P.uuid5)
    {fed : Runtime} {raw : Bytes} {env : Envelope} {p : ReceiptParams} {out : OutboundRow}
    {rec : PeerRecord} (hreceives : P.Receives fed) (hauthentic : P.Authentic s.log fed raw)
    (hparse : parseReceipt raw = .ok env) (hbound : Bound fed s.outDb env p out rec) (now : Time) :
    Stated P s.outDb s.inDb (originalRow s.outDb p now) := by
  have hmem : out ∈ s.outDb.federationOutbound := List.mem_of_find?_eq_some hbound.outbound
  have hid : out.eventId = p.eventId := by simpa using List.find?_some hbound.outbound
  refine ⟨out, hmem, hid, hbound.agent.symm, fun hfamily => ?_⟩
  obtain ⟨f, htells⟩ := parseReceipt_tells hparse
  have hread := htells.fields
  -- the issuer is the family of the target, and its key verified the bytes
  have hissuer : p.issuer = P.receiver := by
    obtain ⟨g, hg⟩ := (exchanged_of_reach huuid h.base).composed out hmem
    obtain ⟨agent, haddress⟩ := hg.family
    have hpart := hbound.issuer
    rw [hg.target, familyPart_address haddress, hfamily] at hpart
    exact (Option.some.inj hpart).symm
  have hrec : rec.family = P.receiver := (lookup_family hbound.registered).trans hissuer
  have hparams := hbound.params
  have hlookup : fed.registry.lookup (envelopeField env "issuer") (envelopeField env "key_id") =
      some rec := by
    have hregistered := hbound.registered
    rwa [hparams] at hregistered
  -- so the receiver has signed these bytes itself, and what it signs is an event or what it owes
  obtain ⟨signed, hsigned, hbytes⟩ := hauthentic env rec hparse hlookup hrec hbound.verified
  obtain ⟨message, hmessage, -⟩ := canonicalBytes_of_domain htells.domain
  have hsame : ∀ {ms}, Tidy (.obj ms) → signed = ms → sorted ms = sorted env.signed := by
    rintro ms hms rfl
    exact canonicalBytes_injective hms (tidy_of_domain _ htells.domain) (hbytes.trans hmessage)
      hmessage
  rcases h.log signed hsigned with ⟨e, he⟩ | ⟨r, hr, hissued⟩
  · exact (htells.no_event e (hsame (tidy_signedEvent e) he)).elim
  · have hforms := hsame (tidy_signedReceipt _) hissued
    rw [← htells.signed hforms] at hread
    refine ⟨r, hr, ?_, ?_, ?_, ?_, ?_⟩
    · show _ = p.eventId
      rw [hparams]
      exact hread.eventId.symm
    · show _ = p.agent
      rw [hparams]
      exact hread.agent.symm
    · have htext := hbound.ackType
      rw [hread.ackType] at htext
      exact Option.some.inj ((ofText_text r.ackType).symm.trans htext)
    · exact hread.origin.symm.trans (hbound.origin.trans (congrArg Identity.family hreceives.2.1))
    · show p.signedJson = _
      rw [hparams]
      exact hforms.symm

/-- What a request to `/federation/receipts` writes: an original that was admitted, or none. -/
theorem receipts_writes (fed : Runtime) (db : Db) (limits : RateLimits) (raw : Bytes)
    (woken : NotificationRow → Bool) (cursor : Option HintCursor) (now : Time) :
    (federationReceipts fed db limits raw woken cursor now).1 = db ∨
      ∃ env p out rec db' status, parseReceipt raw = .ok env ∧ Bound fed db env p out rec ∧
        recordReceiptIn fed db p now = .ok (db', status) ∧
        (federationReceipts fed db limits raw woken cursor now).1 =
          (hintNotifications woken db' cursor).1 ∧
        db'.federationOutbound = db.federationOutbound ∧
        (db'.federationReceiptInOriginals = db.federationReceiptInOriginals ∨
          db'.federationReceiptInOriginals =
            db.federationReceiptInOriginals ++ [originalRow db p now]) := by
  rcases federationReceipts_cases fed db limits raw woken cursor now with ⟨hdb, -⟩ |
    ⟨env, p, out, rec, db', status, hparse, -, hbound, hcall, hres⟩
  · exact .inl hdb
  refine .inr ⟨env, p, out, rec, db', status, hparse, hbound, hcall, congrArg Prod.fst hres, ?_⟩
  rw [recordReceiptIn_eq] at hcall
  split at hcall
  · cases hcall
    unfold mergeReceipt
    split_ifs <;> exact ⟨rfl, .inl rfl⟩
  · cases hcall
    unfold storeReceipt mergeReceipt
    split_ifs <;> exact ⟨insertNotification_outbound .., .inr (insertNotification_originals ..)⟩

/-- The request is a run of the exchange. -/
theorem receipts_run (huuid : Function.Injective P.uuid5) (hs : Exchanged P b) {fed : Runtime}
    (hreceives : P.Receives fed) (limits : RateLimits) (raw : Bytes) (woken : NotificationRow → Bool)
    (cursor : Option HintCursor) (now : Time) :
    Run (exchange P) P.Honest b { b with sender := { b.sender with
      db := (federationReceipts fed b.sender.db limits raw woken cursor now).1 } } := by
  rcases receipts_writes fed b.sender.db limits raw woken cursor now with hdb |
    ⟨env, p, out, rec, db', status, -, hbound, hcall, hres, hout, -⟩
  · rw [hdb]
  · have hmarks : Marks .other db' (hintNotifications woken db' cursor).1 := hintPages_marks ..
    have hscan : (hintNotifications woken db' cursor).1.federationOutbound =
        db'.federationOutbound := by rw [hmarks.frame]
    have hid : uuidRe p.eventId = true := by
      have hmem := List.mem_of_find?_eq_some hbound.outbound
      have heventId : out.eventId = p.eventId := by simpa using List.find?_some hbound.outbound
      rw [← heventId]
      exact (notified_of_reach huuid hs.notifier).tables.outboundIds out hmem
    rw [hres]
    -- the record of the receipt, and the scan for hints, each as a write beside the outbox
    refine .tail (.single ⟨.aside db', trivial, hout, ⟨_, .record hreceives.2.2 hid hcall⟩, rfl⟩)
      ⟨.aside _, trivial, hscan, ⟨_, .scan woken cursor⟩, rfl⟩

/-- The sender takes in a receipt, or refuses it. -/
theorem Corresponded.receipts (h : Corresponded P s) (huuid : Function.Injective P.uuid5)
    {fed : Runtime} (hreceives : P.Receives fed) {raw : Bytes}
    (hauthentic : P.Authentic s.log fed raw) (limits : RateLimits) (woken : NotificationRow → Bool)
    (cursor : Option HintCursor) (now : Time) :
    Corresponded P { s with base := { s.base with sender := { s.base.sender with
      db := (federationReceipts fed s.outDb limits raw woken cursor now).1 } } } := by
  have hbase := h.base.run (receipts_run huuid (exchanged_of_reach huuid h.base) hreceives limits raw
    woken cursor now)
  rcases receipts_writes fed s.outDb limits raw woken cursor now with hdb |
    ⟨env, p, out, rec, db', status, hparse, hbound, -, hres, hout, horiginals⟩
  · rw [hdb]
    exact h
  · have hmarks : Marks .other db' (hintNotifications woken db' cursor).1 := hintPages_marks ..
    have hrows : (hintNotifications woken db' cursor).1.federationOutbound =
        s.outDb.federationOutbound := by rw [hmarks.frame, hout]
    have hscan : (hintNotifications woken db' cursor).1.federationReceiptInOriginals =
        db'.federationReceiptInOriginals := by rw [hmarks.frame]
    have hstated : ∀ o, Stated P s.outDb s.inDb o →
        Stated P (hintNotifications woken db' cursor).1 s.inDb o := by
      rintro o ⟨row, hrow, hrest⟩
      exact ⟨row, hrows.symm ▸ hrow, hrest⟩
    refine ⟨hbase, h.owed, h.originals, h.consistent, h.log, fun o ho => ?_⟩
    rw [hres]
    refine hstated o ?_
    have ho' : o ∈ db'.federationReceiptInOriginals := by
      rw [← hscan, ← hres]
      exact ho
    rcases horiginals with hsame | hnew
    · exact h.stated o (hsame ▸ ho')
    · rcases List.mem_append.mp (hnew ▸ ho') with hold | hone
      · exact h.stated o hold
      · rw [List.mem_singleton.mp hone]
        exact h.admitted huuid hreceives hauthentic hparse hbound now

/-! ## Every step -/

theorem postEvents_originals (cfg : ServerConfig) (db : Db) (r : Request) :
    (postEvents cfg db r).1.federationReceiptInOriginals = db.federationReceiptInOriginals := by
  rcases postEvents_cases cfg db r with hr | ⟨a, row, -, -, -, hc, -⟩ |
    ⟨a, fed, family, q, raw, -, -, -, -, hout⟩
  · rcases hr with hr | ⟨audit, -, hr⟩ <;> rw [hr]
  · rw [hc.frame]
  · rw [hout]
    rfl

theorem applyOutbound_originals {cfg : WorkerConfig} {row : OutboundRow} {outcome : SendOutcome}
    {draw : Draw} (h : applyOutbound cfg db row outcome draw = .ok db') :
    db'.federationReceiptInOriginals = db.federationReceiptInOriginals := by
  cases outcome with
  | sent =>
    cases h
    rfl
  | permanent error =>
    cases h
    unfold failOutboundPermanent
    split
    · rfl
    · exact insertNotification_originals ..
  | retry error retryAfter =>
    simp only [applyOutbound] at h
    split at h
    · cases h
    · cases h
      rfl

theorem works_originals {n n' : Node} (h : Works n n') :
    n'.db.federationReceiptInOriginals = n.db.federationReceiptInOriginals := by
  cases h with
  | unregistered _ _ hdb => exact applyOutbound_originals hdb
  | apply _ hdb => exact applyOutbound_originals hdb
  | persist =>
    unfold raisedOutbound
    split <;> rfl
  | _ => rfl

/-- The calls of the inbox write neither acknowledgements nor receipts. -/
theorem inboxStep_receipts (envr : Env) (fed : Runtime) (c : InboxCall) (now : Time) (db : Db)
    (q : InboxPhase) : (inboxStep envr fed c now db q).1.acks = db.acks ∧
      (inboxStep envr fed c now db q).1.federationReceiptOut = db.federationReceiptOut := by
  rcases inboxStep_effect envr fed c now db q with ⟨p, -, hs⟩ | ⟨rows, hrows⟩ | hd
  · rw [hs.frame]
    exact ⟨rfl, rfl⟩
  · rw [hrows]
    exact ⟨rfl, rfl⟩
  · rw [hd.frame]
    exact ⟨rfl, rfl⟩

theorem Corresponded.exchange (h : Corresponded P s) (huuid : Function.Injective P.uuid5)
    {act : Exchange.Act} {base : State} (hinner : s.Inner act) (hhonest : P.Honest s.base act)
    (hstep : (Exchange.exchange P).step s.base act base) :
    Corresponded P ⟨base, s.place, s.log⟩ := by
  have hbase : Reach (Exchange.exchange P) P.Honest base := .step h.base hhonest hstep
  have hexchanged := exchanged_of_reach huuid h.base
  cases act with
  | post cfg r =>
    obtain ⟨hcfg, rfl⟩ := hstep
    exact h.turn hbase (.of_turns (post_turns huuid hcfg s.base.sender r))
      (postEvents_originals cfg s.outDb r) rfl
  | aside db =>
    obtain ⟨hrows, hnotifies, rfl⟩ := hstep
    exact h.turn hbase (.of_turns (aside_turns huuid hrows hnotifies)) hinner rfl
  | work node =>
    obtain ⟨hworks, rfl⟩ := hstep
    exact h.turn hbase (.of_turns (work_turns (orderly_of_reach hexchanged.sender) hworks))
      (works_originals hworks) rfl
  | emit =>
    obtain ⟨row, rows, -, rfl⟩ := hstep
    exact h.turn hbase (.of_eq rfl) rfl rfl
  | answer t parsedate now =>
    obtain ⟨fed, peer, row, rows, -, -, rfl⟩ := hstep
    exact h.turn hbase (.of_eq rfl) rfl rfl
  | receive act =>
    obtain ⟨w, hreceive, rfl⟩ := hstep
    have hrises : Rises s.inDb w.store := by
      rcases receive_cases hexchanged.receiver hreceive with hsame | ⟨c, -, p, now, -, hs⟩
      · exact .of_fixed hsame
      · exact .of_stored hs
    have hreceipts : w.store.acks = s.inDb.acks ∧
        w.store.federationReceiptOut = s.inDb.federationReceiptOut := by
      cases act with
      | call c =>
        cases hreceive
        exact ⟨rfl, rfl⟩
      | advance i now =>
        obtain ⟨c, q, -, -, rfl⟩ := hreceive
        exact inboxStep_receipts ..
      | other store => exact hinner.elim
    have hdeclared : w.store.federationReceiptOut.map declared =
        s.inDb.federationReceiptOut.map declared := by rw [hreceipts.2]
    exact h.proceed hbase rfl (h.owed.carry hrises (hasAck_of_acks hreceipts.1) hdeclared)
      (h.originals.of_eq hreceipts.2) (.write hreceipts.2) (.of_map hdeclared)

/-- The receiver does something beside its inbox. -/
theorem Corresponded.beside (h : Corresponded P s) {db : Db} {place : ReceiptPlace}
    {label : ReceiptLabel} (hbeside : Beside s.inDb db) (howed : Owed P.fed.crypto db)
    (horiginals : Originals P s.log db)
    (hmove : Dispatches ⟨s.inDb, P.fed, s.place⟩ label ⟨db, P.fed, place⟩)
    (hdeclares : Declares s.inDb db) : Corresponded P { s.withIn db with place := place } := by
  refine h.proceed (.step h.base (a := .receive (.other db)) trivial ?_) rfl howed horiginals hmove
    hdeclares
  exact ⟨{ s.base.receiver with store := db }, ⟨hbeside, rfl⟩, rfl⟩

/-- The worker of the receipts. -/
theorem Corresponded.work (h : Corresponded P s) {label : ReceiptLabel} {db : Db}
    {place : ReceiptPlace} (hmove : Dispatches ⟨s.inDb, P.fed, s.place⟩ label ⟨db, P.fed, place⟩)
    (hlabel : ∀ row, label ≠ .acknowledged row) (hframe : WorkerFrame s.inDb db)
    (hlog : ∀ row identity, label = .signed row identity →
      signedReceipt (issuedAs row identity.family identity.keyId) ∈ s.log) :
    Corresponded P { s.withIn db with place := place } := by
  have hdeclared := declared_of_dispatches hmove hlabel
  have hbeside : Beside s.inDb db := ⟨.other db, by rw [hframe]; rfl, trivial⟩
  have hacks : db.acks = s.inDb.acks := by rw [hframe]
  refine h.beside hbeside (h.owed.carry (.of_fixed (beside_rows hbeside).1) (hasAck_of_acks hacks)
    hdeclared) (fun r hr hsigned => ?_) hmove (.of_map hdeclared)
  obtain ⟨tr, hconsistent⟩ := h.consistent
  -- an original was there before, or the worker has just signed it
  rcases originates_of_dispatches hconsistent hmove hr hsigned with ⟨q, hq, hkept⟩ |
    ⟨horiginates, found, hfound, hsame⟩
  · have hjson : q.signedJson = r.signedJson := (congrArg ReceiptOutRow.signedJson hkept :)
    obtain ⟨hold, hissued⟩ := h.originals q hq (hjson ▸ hsigned)
    exact ⟨hold.congr hkept, issued_of_declared (declared_of_kept hkept) ▸ hissued⟩
  · refine ⟨horiginates, ?_⟩
    rw [← issued_of_declared hsame]
    exact hlog found _ hfound

/-- Something is signed with the key. -/
theorem Corresponded.sign (h : Corresponded P s) {signed : List (Str × Json)}
    (hsigned : (∃ f, signed = signedEvent f) ∨
      ∃ r ∈ s.inDb.federationReceiptOut, signed = P.issued r) :
    Corresponded P { s with log := s.log ++ [signed] } := by
  refine ⟨h.base, h.owed, fun r hr hjson => ?_, h.consistent, fun other hother => ?_, h.stated⟩
  · obtain ⟨horiginates, hissued⟩ := h.originals r hr hjson
    exact ⟨horiginates, List.mem_append_left _ hissued⟩
  · rcases List.mem_append.mp hother with hold | hnew
    · exact h.log other hold
    · rw [List.mem_singleton.mp hnew]
      exact hsigned

theorem Corresponded.step (huuid : Function.Injective P.uuid5) (h : Corresponded P s)
    {act : Correspondence.Act} (hfair : P.Fair s act) (hstep : (correspondence P).step s act s') :
    Corresponded P s' := by
  cases act with
  | exchange act =>
    obtain ⟨hinner, base, hbase, rfl⟩ := hstep
    exact h.exchange huuid hinner hfair hbase
  | receipts fed limits raw woken cursor now =>
    obtain ⟨hreceives, rfl⟩ := hstep
    exact h.receipts huuid hreceives hfair limits woken cursor now
  | ack env r path =>
    obtain ⟨hpath, db, hack, rfl⟩ := hstep
    have hbeside : Beside s.inDb db := ⟨.ack env P.fed r path, hack, trivial⟩
    -- an acknowledgement adds at most one receipt, which nobody has signed yet
    rcases ackWrite_receipts hack with hsame | ⟨row, hrow, hnone, -⟩
    · exact h.beside hbeside (h.owed.ack hpath hack) (h.originals.of_eq hsame) (.ack hack)
        (.of_map (by rw [hsame]))
    · refine h.beside hbeside (h.owed.ack hpath hack) (fun q hq hsigned => ?_) (.ack hack)
        fun q hq => ⟨q, hrow ▸ List.mem_append_left _ hq, rfl⟩
      rcases List.mem_append.mp (hrow ▸ hq) with hold | hnew
      · exact h.originals q hold hsigned
      · rw [List.mem_singleton.mp hnew] at hsigned
        exact absurd hnone hsigned
  | work label db place =>
    obtain ⟨hmove, hlabel, hframe, hlog, rfl⟩ := hstep
    exact h.work hmove hlabel hframe hlog
  | signReceipt row =>
    obtain ⟨hrow, rfl⟩ := hstep
    obtain ⟨tr, hconsistent⟩ := h.consistent
    obtain ⟨q, hq, hdeclared, -⟩ := hconsistent.held row hrow
    exact h.sign (.inr ⟨q, hq, (issued_of_declared hdeclared).symm⟩)
  | signEvent f =>
    cases hstep
    exact h.sign (.inl ⟨f, rfl⟩)
  | quiet db =>
    obtain ⟨hbeside, hout, hacks, rfl⟩ := hstep
    have hdeclared : db.federationReceiptOut.map declared =
        s.inDb.federationReceiptOut.map declared := by rw [hout]
    exact h.beside hbeside (h.owed.carry (.of_fixed (beside_rows hbeside).1) (hasAck_of_acks hacks)
      hdeclared) (h.originals.of_eq hout) (.write hout) (.of_map hdeclared)

theorem Corresponded.init (h : (correspondence P).init s) : Corresponded P s := by
  obtain ⟨hbase, hreceipts, hplace, hlog⟩ := h
  have hnone : ∀ r, r ∉ s.inDb.federationReceiptOut := by
    intro r hr
    rw [hreceipts] at hr
    exact List.not_mem_nil hr
  refine ⟨.init hbase, fun r hr => absurd hr (hnone r), fun r hr => absurd hr (hnone r), ⟨[], ?_⟩,
    fun signed hsigned => ?_, fun o ho => ?_⟩
  · have htrace : Trace dispatch ⟨s.inDb, P.fed, s.place⟩ [] ⟨s.inDb, P.fed, s.place⟩ := .nil
    exact consistent_of_trace ⟨hreceipts, hplace⟩ htrace
  · rw [hlog] at hsigned
    exact absurd hsigned List.not_mem_nil
  · rw [show s.outDb.federationReceiptInOriginals = [] from hbase.2.1.2.2.1] at ho
    exact absurd ho List.not_mem_nil

theorem corresponded_of_reach (huuid : Function.Injective P.uuid5)
    (h : Reach (correspondence P) P.Fair s) : Corresponded P s :=
  h.invariant (fun _ hinit => .init hinit) fun _ _ _ hs hfair hstep => hs.step huuid hfair hstep

end Exchange
end ATalk
