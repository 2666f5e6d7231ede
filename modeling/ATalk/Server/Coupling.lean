import ATalk.Adapter.Replies
import ATalk.Adapter.Requests
import ATalk.Federation.ReceiptsOut
import ATalk.Lib.KeyedTable
import ATalk.Server.InboxCalls
import ATalk.Server.TargetAcl

/-!
# Acknowledgements and the receipts they owe

An acknowledgement looks up whether its event came from abroad in one statement and is written in
another. When the inbox commits the event in between, the acknowledgement is written without the
receipt that it owes, under any name. Where that does not happen, every acknowledgement of an event
from abroad is the recipient's and has its receipt.

* `acking` : the acknowledgements and the inbox of one server, statement by statement;
* `Coupled` : what the two tables have to do with each other;
* `AckTables` : the invariant;
* `acks_coupled` : it holds while no acknowledgement is overtaken by its event.
-/

namespace ATalk
namespace Server

open Text Python Sqlite ATalk.Core Federation Checks Transition Callers

/-! ## The system -/

/-- The database, and the acknowledgements as they were written for the first time. -/
abbrev AckStore := Db × List AckRow

/-- The acknowledgements that a step has written for the first time. -/
def firstAcks (db db' : Db) : List AckRow :=
  db'.acks.filter fun row => !hasAck db row.eventId row.agentId row.ackType

/-- When an event was acknowledged first. -/
def ackedAt (acked : List AckRow) (eventId : Str) (ackType : AckType) : Option Time :=
  (acked.find? fun row => row.eventId = eventId && row.ackType = ackType).map (·.ackAt)

/-- What the worker and the other requests may do to these tables: they deliver, they sign and send
receipts, and they add events; nothing new is acknowledged. -/
structure Elsewhere (db db' : Db) : Prop where
  acks : ∀ e x t, hasAck db' e x t = hasAck db e x t
  events : ∀ row ∈ db.events, row ∈ db'.events
  inbound : db'.federationInbound.map InboundRow.fixed = db.federationInbound.map InboundRow.fixed
  receipts : db'.federationReceiptOut.map declared = db.federationReceiptOut.map declared

/-- Nothing was acknowledged, and nothing has come from abroad. -/
structure Unacked (s : AckStore) : Prop where
  acks : s.1.acks = []
  inbound : s.1.federationInbound = []
  receipts : s.1.federationReceiptOut = []
  acked : s.2 = []

/-- Acknowledgements and requests for the inbox on one server. -/
def acking (cfg : ServerConfig) (fed : Runtime) :
    System (World AckStore (AckCall ⊕ InboxCall) (AckPhase ⊕ InboxPhase))
      (Callers.Action AckStore (AckCall ⊕ InboxCall) Time) :=
  callers (((ackCalls cfg).recorded firstAcks).either ((inboxCalls cfg.env fed).recorded firstAcks))
    Unacked fun s s' => Elsewhere s.1 s'.1 ∧ s'.2 = s.2

/-- An acknowledgement that found its event local is not written when the event has arrived from
abroad by then, unless it repeats what the recipient has acknowledged. -/
def Timely (cfg : ServerConfig) (r : AckCall) (_ : Time) (s : AckStore) : AckPhase → Prop
  | .write .localPath =>
    jsonParam (detailOf (getNone (lit "detail") r.body)) = .ok () →
      ∀ eventId agent ackType, Adapter.Names cfg.env r.body eventId agent ackType →
        ∀ inb ∈ s.1.federationInbound, inb.eventId = eventId →
          agent = localPart inb.target ∧ hasReceiptOut s.1 eventId inb.target ackType = true
  | _ => True

/-- The same of a step of the server. -/
abbrev timely (cfg : ServerConfig) :
    World AckStore (AckCall ⊕ InboxCall) (AckPhase ⊕ InboxPhase) →
      Callers.Action AckStore (AckCall ⊕ InboxCall) Time → Prop :=
  onAdvance (eitherOk (Timely cfg) fun _ _ _ _ => True)

/-! ## What has to hold -/

/-- A receipt intent is about an inbound row, and about a first acknowledgement. -/
structure Declares (fed : Runtime) (inb : InboundRow) (first : Option Time) (r : ReceiptOutRow) :
    Prop where
  agent : r.agent = inb.target
  origin : r.origin = inb.origin
  hash : ∃ sig, decodeStrict inb.sig 64 "signature_length" "schema" = .ok sig ∧
    r.originEventSigHash = fed.crypto.sha256 sig
  time : first = some r.atTime

/-- The intents for one acknowledgement. -/
def intentsFor (db : Db) (eventId agent : Str) (ackType : AckType) : List ReceiptOutRow :=
  db.federationReceiptOut.filter fun r =>
    r.eventId = eventId && r.agent = agent && r.ackType = ackType

/-- Every acknowledgement of an event from abroad is its recipient's and has one receipt intent,
which says when it was given first; and every intent has its acknowledgement. -/
structure Coupled (fed : Runtime) (s : AckStore) : Prop where
  receipted : ∀ inb ∈ s.1.federationInbound, ∃ agent,
    IsAddress inb.target agent fed.identity.family ∧
      ∀ row ∈ s.1.acks, row.eventId = inb.eventId → row.agentId = agent ∧
        ∃ r, intentsFor s.1 inb.eventId inb.target row.ackType = [r] ∧
          Declares fed inb (ackedAt s.2 inb.eventId row.ackType) r
  acknowledged : ∀ r ∈ s.1.federationReceiptOut, ∃ row ∈ s.1.acks, row.eventId = r.eventId ∧
    row.ackType = r.ackType ∧ IsAddress r.agent row.agentId fed.identity.family

/-- The invariant. -/
structure AckTables (fed : Runtime) (s : AckStore) : Prop where
  acked : ∀ e x t, hasAck s.1 e x t = true → ∃ ev ∈ s.1.events, ev.eventId = e
  noted : ∀ e x t, (∃ row ∈ s.2, row.eventId = e ∧ row.agentId = x ∧ row.ackType = t) ↔
    hasAck s.1 e x t = true
  arrived : ∀ inb ∈ s.1.federationInbound, ∃ ev ∈ s.1.events, ev.eventId = inb.eventId
  address : ∀ inb ∈ s.1.federationInbound, ∃ agent, IsAddress inb.target agent fed.identity.family
  single : (s.1.federationInbound.map (·.eventId)).Nodup
  recipient : ∀ inb ∈ s.1.federationInbound, ∀ x t, hasAck s.1 inb.eventId x t = true →
    x = localPart inb.target
  owed : ∀ inb ∈ s.1.federationInbound, ∀ x t, hasAck s.1 inb.eventId x t = true →
    ∃ r ∈ s.1.federationReceiptOut, r.eventId = inb.eventId ∧ r.ackType = t
  declares : ∀ inb ∈ s.1.federationInbound, ∀ r ∈ s.1.federationReceiptOut,
    r.eventId = inb.eventId → Declares fed inb (ackedAt s.2 r.eventId r.ackType) r
  receipts : ∀ r ∈ s.1.federationReceiptOut, ∃ inb ∈ s.1.federationInbound,
    inb.eventId = r.eventId ∧ hasAck s.1 r.eventId (localPart inb.target) r.ackType = true
  keys : (s.1.federationReceiptOut.map fun r => (r.eventId, r.ackType)).Nodup

variable {cfg : ServerConfig} {fed : Runtime} {db db' : Db} {acked : List AckRow} {s s' : AckStore}
  {now : Time} {eventId agent : Str} {ackType : AckType} {inb inb' : InboundRow}
  {r r' : ReceiptOutRow}

theorem localPart_address {family : Str} (h : IsAddress inb.target agent family) :
    localPart inb.target = agent := by
  obtain ⟨haddr, -, hfamily⟩ := h
  have hat : ∀ c ∈ family, c ≠ ofChar '@' := familyRe_ne_at hfamily
  rw [haddr, localPart, if_pos (List.mem_append_right _ List.mem_cons_self), List.reverse_append,
    List.reverse_cons, List.append_assoc,
    List.dropWhile_append_of_pos fun c hc => decide_eq_true (hat c (List.mem_reverse.mp hc))]
  simp

theorem hasAck_of_mem {row : AckRow} (h : row ∈ db.acks) :
    hasAck db row.eventId row.agentId row.ackType = true :=
  List.any_eq_true.mpr ⟨row, h, by simp⟩

theorem exists_ack (h : hasAck db eventId agent ackType = true) :
    ∃ row ∈ db.acks, row.eventId = eventId ∧ row.agentId = agent ∧ row.ackType = ackType := by
  obtain ⟨row, hrow, hsame⟩ := List.any_eq_true.mp h
  simp only [Bool.and_eq_true, decide_eq_true_eq] at hsame
  exact ⟨row, hrow, hsame.1.1, hsame.1.2, hsame.2⟩

/-- The claim follows from the invariant. -/
theorem AckTables.coupled (h : AckTables fed s) : Coupled fed s := by
  refine ⟨fun inb hinb => ?_, fun r hr => ?_⟩
  · obtain ⟨agent, hagent⟩ := h.address inb hinb
    refine ⟨agent, hagent, fun row hrow hevent => ?_⟩
    have hack := hasAck_of_mem hrow
    rw [hevent] at hack
    have hrecipient := h.recipient inb hinb _ _ hack
    refine ⟨hrecipient.trans (localPart_address hagent), ?_⟩
    obtain ⟨r, hr, hrevent, hrtype⟩ := h.owed inb hinb _ _ hack
    have hdeclares := h.declares inb hinb r hr hrevent
    rw [hrevent, hrtype] at hdeclares
    refine ⟨r, ?_, hdeclares⟩
    have hfilter : intentsFor s.1 inb.eventId inb.target row.ackType =
        s.1.federationReceiptOut.filter fun q => (q.eventId, q.ackType) = (r.eventId, r.ackType) := by
      refine List.filter_congr fun q hq => ?_
      rw [hrevent, hrtype]
      by_cases hqevent : q.eventId = inb.eventId
      · simp [hqevent, (h.declares inb hinb q hq hqevent).agent]
      · simp [hqevent]
    rw [hfilter]
    exact KeyedTable.filter_key_eq h.keys hr
  · obtain ⟨inb, hinb, hevent, hack⟩ := h.receipts r hr
    obtain ⟨agent, hagent⟩ := h.address inb hinb
    obtain ⟨row, hrow, hrowEvent, hrowAgent, hrowType⟩ := exists_ack hack
    refine ⟨row, hrow, hrowEvent, hrowType, ?_⟩
    rw [(h.declares inb hinb r hr hevent.symm).agent, hrowAgent, localPart_address hagent]
    exact hagent

/-! ## Steps that change nothing of it -/

theorem exists_of_map_eq {α β : Type} {f : α → β} {l l' : List α} (h : l'.map f = l.map f) {x : α}
    (hx : x ∈ l') : ∃ y ∈ l, f y = f x := by
  have hmem : f x ∈ l.map f := h ▸ List.mem_map_of_mem hx
  exact List.mem_map.mp hmem

theorem Declares.congr {first : Option Time} (h : Declares fed inb first r)
    (hinb : InboundRow.fixed inb = InboundRow.fixed inb') (hr : declared r = declared r') :
    Declares fed inb' first r' := by
  have htarget : inb.target = inb'.target := (congrArg InboundRow.target hinb :)
  have horigin : inb.origin = inb'.origin := (congrArg InboundRow.origin hinb :)
  have hsig : inb.sig = inb'.sig := (congrArg InboundRow.sig hinb :)
  have hagent : r.agent = r'.agent := (congrArg ReceiptOutRow.agent hr :)
  have hrorigin : r.origin = r'.origin := (congrArg ReceiptOutRow.origin hr :)
  have hhash : r.originEventSigHash = r'.originEventSigHash :=
    (congrArg ReceiptOutRow.originEventSigHash hr :)
  have htime : r.atTime = r'.atTime := (congrArg ReceiptOutRow.atTime hr :)
  refine ⟨?_, ?_, ?_, ?_⟩
  · rw [← hagent, ← htarget]
    exact h.agent
  · rw [← hrorigin, ← horigin]
    exact h.origin
  · rw [← hsig, ← hhash]
    exact h.hash
  · rw [← htime]
    exact h.time

theorem Elsewhere.refl (db : Db) : Elsewhere db db := ⟨fun _ _ _ => rfl, fun _ h => h, rfl, rfl⟩

theorem Elsewhere.of_delivered (h : Delivered db db') : Elsewhere db db' := by
  have hacks : db'.acks = db.acks := (congrArg Db.acks h.frame :)
  have hevents : db'.events = db.events := (congrArg Db.events h.frame :)
  have hreceipts : db'.federationReceiptOut = db.federationReceiptOut :=
    (congrArg Db.federationReceiptOut h.frame :)
  refine ⟨fun e x t => ?_, fun row hrow => ?_, h.rows, ?_⟩
  · rw [hasAck, hasAck, hacks]
  · rwa [hevents]
  · rw [hreceipts]

/-- Nothing was acknowledged for the first time. -/
theorem Elsewhere.firstAcks_eq (h : Elsewhere db db') : firstAcks db db' = [] := by
  refine List.filter_eq_nil_iff.mpr fun row hrow => ?_
  rw [← h.acks, hasAck_of_mem hrow]
  simp

theorem AckTables.elsewhere (h : AckTables fed (db, acked)) (hdb : Elsewhere db db') :
    AckTables fed (db', acked) := by
  have hinbound : ∀ row ∈ db'.federationInbound, ∃ row' ∈ db.federationInbound,
      InboundRow.fixed row' = InboundRow.fixed row := fun row hrow => exists_of_map_eq hdb.inbound hrow
  have hreceipts : ∀ q ∈ db'.federationReceiptOut, ∃ q' ∈ db.federationReceiptOut,
      declared q' = declared q := fun q hq => exists_of_map_eq hdb.receipts hq
  have heventId : ∀ {row row' : InboundRow}, InboundRow.fixed row' = InboundRow.fixed row →
      row'.eventId = row.eventId := fun hfixed => (congrArg InboundRow.eventId hfixed :)
  have htarget : ∀ {row row' : InboundRow}, InboundRow.fixed row' = InboundRow.fixed row →
      row'.target = row.target := fun hfixed => (congrArg InboundRow.target hfixed :)
  have hkey : ∀ {q q' : ReceiptOutRow}, declared q' = declared q →
      q'.eventId = q.eventId ∧ q'.ackType = q.ackType := fun hq =>
    ⟨(congrArg ReceiptOutRow.eventId hq :), (congrArg ReceiptOutRow.ackType hq :)⟩
  refine ⟨fun e x t hack => ?_, fun e x t => ?_, fun row hrow => ?_, fun row hrow => ?_, ?_,
    fun row hrow x t hack => ?_, fun row hrow x t hack => ?_, fun row hrow q hq hevent => ?_,
    fun q hq => ?_, ?_⟩
  · rw [hdb.acks] at hack
    obtain ⟨ev, hev, hid⟩ := h.acked e x t hack
    exact ⟨ev, hdb.events ev hev, hid⟩
  · rw [hdb.acks]
    exact h.noted e x t
  · obtain ⟨row', hrow', hfixed⟩ := hinbound row hrow
    obtain ⟨ev, hev, hid⟩ := h.arrived row' hrow'
    exact ⟨ev, hdb.events ev hev, hid.trans (heventId hfixed)⟩
  · obtain ⟨row', hrow', hfixed⟩ := hinbound row hrow
    rw [← htarget hfixed]
    exact h.address row' hrow'
  · have hids : (db'.federationInbound.map InboundRow.fixed).map (·.eventId) =
        (db.federationInbound.map InboundRow.fixed).map (·.eventId) := by rw [hdb.inbound]
    rw [List.map_map, List.map_map] at hids
    exact hids ▸ h.single
  · rw [hdb.acks] at hack
    obtain ⟨row', hrow', hfixed⟩ := hinbound row hrow
    rw [← heventId hfixed] at hack
    rw [← htarget hfixed]
    exact h.recipient row' hrow' x t hack
  · rw [hdb.acks] at hack
    obtain ⟨row', hrow', hfixed⟩ := hinbound row hrow
    rw [← heventId hfixed] at hack
    obtain ⟨q, hq, hevent, htype⟩ := h.owed row' hrow' x t hack
    obtain ⟨q', hq', hdeclared⟩ := exists_of_map_eq hdb.receipts.symm hq
    obtain ⟨hevent', htype'⟩ := hkey hdeclared
    exact ⟨q', hq', hevent'.trans (hevent.trans (heventId hfixed)), htype'.trans htype⟩
  · obtain ⟨row', hrow', hfixed⟩ := hinbound row hrow
    obtain ⟨q', hq', hdeclared⟩ := hreceipts q hq
    obtain ⟨hevent', htype'⟩ := hkey hdeclared
    have hsame : q'.eventId = row'.eventId := hevent'.trans (hevent.trans (heventId hfixed).symm)
    have hdeclares := h.declares row' hrow' q' hq' hsame
    rw [hevent', htype'] at hdeclares
    exact hdeclares.congr hfixed hdeclared
  · obtain ⟨q', hq', hdeclared⟩ := hreceipts q hq
    obtain ⟨hevent', htype'⟩ := hkey hdeclared
    obtain ⟨row, hrow, hevent, hack⟩ := h.receipts q' hq'
    obtain ⟨row', hrow', hfixed⟩ := exists_of_map_eq hdb.inbound.symm hrow
    refine ⟨row', hrow', (heventId hfixed).trans (hevent.trans hevent'), ?_⟩
    rw [hdb.acks, htarget hfixed, ← hevent', ← htype']
    exact hack
  · have hkeys : (db'.federationReceiptOut.map declared).map (fun q => (q.eventId, q.ackType)) =
        (db.federationReceiptOut.map declared).map fun q => (q.eventId, q.ackType) := by
      rw [hdb.receipts]
    rw [List.map_map, List.map_map] at hkeys
    exact hkeys ▸ h.keys

/-! ## An event arrives -/

/-- A new event from abroad is acknowledged by nobody: its id was free. -/
theorem AckTables.stored {p : InboundParams} (h : AckTables fed (db, acked))
    (hs : Stored db p now db')
    (hp : ∃ agent, IsAddress p.targetAddr agent fed.identity.family) :
    AckTables fed (db', acked) := by
  have hack : ∀ e x t, hasAck db' e x t = hasAck db e x t := fun e x t => by
    rw [hasAck, hasAck, (congrArg Db.acks hs.frame :)]
  have hreceipts : db'.federationReceiptOut = db.federationReceiptOut :=
    (congrArg Db.federationReceiptOut hs.frame :)
  obtain ⟨seq, hevents⟩ := hs.event
  have hinbound : ∀ row ∈ db'.federationInbound,
      row ∈ db.federationInbound ∨ row = inboundRow db p now := by
    rw [hs.inbound]
    simp
  have hold : ∀ row ∈ db.federationInbound, row ∈ db'.federationInbound := by
    rw [hs.inbound]
    exact fun _ => List.mem_append_left _
  have hfree : ∀ x t, hasAck db p.eventId x t = true → False := by
    intro x t hx
    obtain ⟨ev, hev, hid⟩ := h.acked _ x t hx
    exact hs.freshEvent ev hev hid
  refine ⟨fun e x t hx => ?_, fun e x t => ?_, fun row hrow => ?_, fun row hrow => ?_, ?_,
    fun row hrow x t hx => ?_, fun row hrow x t hx => ?_, fun row hrow q hq hevent => ?_,
    fun q hq => ?_, ?_⟩
  · obtain ⟨ev, hev, hid⟩ := h.acked e x t (hack e x t ▸ hx)
    exact ⟨ev, by rw [hevents]; exact List.mem_append_left _ hev, hid⟩
  · rw [hack]
    exact h.noted e x t
  · rcases hinbound row hrow with hrow | rfl
    · obtain ⟨ev, hev, hid⟩ := h.arrived row hrow
      exact ⟨ev, by rw [hevents]; exact List.mem_append_left _ hev, hid⟩
    · refine ⟨localRow db p seq now, ?_, rfl⟩
      rw [hevents]
      exact List.mem_append_right _ (List.mem_singleton_self _)
  · rcases hinbound row hrow with hrow | rfl
    · exact h.address row hrow
    · exact hp
  · rw [hs.inbound, List.map_append, List.map_singleton, ← List.concat_eq_append]
    refine h.single.concat fun hmem => ?_
    obtain ⟨row, hrow, hid⟩ := List.mem_map.mp hmem
    obtain ⟨ev, hev, hevid⟩ := h.arrived row hrow
    exact hs.freshEvent ev hev (hevid.trans hid)
  · rw [hack] at hx
    rcases hinbound row hrow with hrow | rfl
    · exact h.recipient row hrow x t hx
    · exact (hfree x t hx).elim
  · rw [hack] at hx
    rcases hinbound row hrow with hrow | rfl
    · rw [hreceipts]
      exact h.owed row hrow x t hx
    · exact (hfree x t hx).elim
  · rw [hreceipts] at hq
    rcases hinbound row hrow with hrow | rfl
    · exact h.declares row hrow q hq hevent
    · obtain ⟨row, hrow, hid, -⟩ := h.receipts q hq
      obtain ⟨ev, hev, hevid⟩ := h.arrived row hrow
      exact absurd (hevid.trans (hid.trans hevent)) (hs.freshEvent ev hev)
  · rw [hreceipts] at hq
    obtain ⟨row, hrow, hid, hx⟩ := h.receipts q hq
    exact ⟨row, hold row hrow, hid, hack _ _ _ ▸ hx⟩
  · rw [hreceipts]
    exact h.keys

/-! ## An acknowledgement is written -/

theorem hasAck_append (db : Db) (row : AckRow) (receipts : List ReceiptOutRow) (e x : Str)
    (t : AckType) :
    hasAck { db with acks := db.acks ++ [row], federationReceiptOut := receipts } e x t = true ↔
      hasAck db e x t = true ∨ row.eventId = e ∧ row.agentId = x ∧ row.ackType = t := by
  unfold hasAck
  rw [List.any_append, Bool.or_eq_true]
  simp [and_assoc]

theorem ackedAt_append {first : Time} (h : ackedAt acked eventId ackType = some first)
    (rows : List AckRow) : ackedAt (acked ++ rows) eventId ackType = some first := by
  unfold ackedAt at h ⊢
  obtain ⟨row, hrow, hfirst⟩ := Option.map_eq_some_iff.mp h
  rw [List.find?_append, hrow, Option.some_or, Option.map_some, hfirst]

theorem ackedAt_new {row : AckRow}
    (h : ∀ n ∈ acked, ¬ (n.eventId = row.eventId ∧ n.ackType = row.ackType)) :
    ackedAt (acked ++ [row]) row.eventId row.ackType = some row.ackAt := by
  have hnone : acked.find? (fun n => n.eventId = row.eventId && n.ackType = row.ackType) = none :=
    List.find?_eq_none.mpr fun n hn => by simpa using h n hn
  rw [ackedAt, List.find?_append, hnone, Option.none_or, List.find?_cons_of_pos (by simp)]
  rfl

/-- A first acknowledgement, with the receipt that it owes if its event is from abroad. -/
theorem AckTables.first (row : AckRow) (new : List ReceiptOutRow) (h : AckTables fed (db, acked))
    (hfresh : hasAck db row.eventId row.agentId row.ackType ≠ true)
    (hevent : ∃ ev ∈ db.events, ev.eventId = row.eventId)
    (howes : ∀ inb ∈ db.federationInbound, inb.eventId = row.eventId →
      row.agentId = localPart inb.target ∧ ∃ r, new = [r] ∧ Declares fed inb (some row.ackAt) r)
    (hnew : ∀ r ∈ new, r.eventId = row.eventId ∧ r.ackType = row.ackType ∧
      ∃ inb ∈ db.federationInbound, inb.eventId = row.eventId)
    (hone : (new.map fun r => (r.eventId, r.ackType)).Nodup) :
    AckTables fed ({ db with
      acks := db.acks ++ [row], federationReceiptOut := db.federationReceiptOut ++ new },
      acked ++ [row]) := by
  have hack := hasAck_append db row (db.federationReceiptOut ++ new)
  -- the one who may acknowledge it has not done so, and nobody else can have
  have hnobody : ∀ inb ∈ db.federationInbound, inb.eventId = row.eventId →
      ∀ x, hasAck db row.eventId x row.ackType ≠ true := by
    intro inb hinb hid x hx
    have hrecipient := h.recipient inb hinb x row.ackType (hid ▸ hx)
    rw [hrecipient, ← (howes inb hinb hid).1] at hx
    exact hfresh hx
  refine ⟨fun e x t hx => ?_, fun e x t => ?_, h.arrived, h.address, h.single,
    fun inb hinb x t hx => ?_, fun inb hinb x t hx => ?_, fun inb hinb r hr hid => ?_,
    fun r hr => ?_, ?_⟩
  · rcases (hack e x t).mp hx with hx | ⟨rfl, -, -⟩
    · exact h.acked e x t hx
    · exact hevent
  · rw [hack, ← h.noted]
    constructor
    · rintro ⟨n, hn, hkey⟩
      rcases List.mem_append.mp hn with hn | hn
      · exact .inl ⟨n, hn, hkey⟩
      · rw [List.mem_singleton.mp hn] at hkey
        exact .inr hkey
    · rintro (⟨n, hn, hkey⟩ | hkey)
      · exact ⟨n, List.mem_append_left _ hn, hkey⟩
      · exact ⟨row, List.mem_append_right _ (List.mem_singleton_self _), hkey⟩
  · rcases (hack _ _ _).mp hx with hx | ⟨hid, rfl, -⟩
    · exact h.recipient inb hinb x t hx
    · exact (howes inb hinb hid.symm).1
  · rcases (hack _ _ _).mp hx with hx | ⟨hid, -, rfl⟩
    · obtain ⟨r, hr, hkey⟩ := h.owed inb hinb x t hx
      exact ⟨r, List.mem_append_left _ hr, hkey⟩
    · obtain ⟨-, r, rfl, -⟩ := howes inb hinb hid.symm
      obtain ⟨hrid, htype, -⟩ := hnew r (List.mem_singleton_self _)
      exact ⟨r, List.mem_append_right _ (List.mem_singleton_self _), hrid.trans hid, htype⟩
  · rcases List.mem_append.mp hr with hr | hr
    · have hdeclares := h.declares inb hinb r hr hid
      exact ⟨hdeclares.agent, hdeclares.origin, hdeclares.hash,
        ackedAt_append hdeclares.time [row]⟩
    · obtain ⟨hrid, htype, -⟩ := hnew r hr
      obtain ⟨-, r', rfl, hdeclares⟩ := howes inb hinb (hid.symm.trans hrid)
      rw [List.mem_singleton.mp hr] at hrid htype ⊢
      refine ⟨hdeclares.agent, hdeclares.origin, hdeclares.hash, ?_⟩
      rw [hrid, htype, ackedAt_new, hdeclares.time]
      rintro n hn ⟨hnid, hntype⟩
      refine hnobody inb hinb ?_ n.agentId ((h.noted _ _ _).mp ⟨n, hn, hnid, rfl, hntype⟩)
      rw [← hid, List.mem_singleton.mp hr, hrid]
  · rcases List.mem_append.mp hr with hr | hr
    · obtain ⟨inb, hinb, hid, hx⟩ := h.receipts r hr
      exact ⟨inb, hinb, hid, (hack _ _ _).mpr (.inl hx)⟩
    · obtain ⟨hrid, htype, inb, hinb, hid⟩ := hnew r hr
      refine ⟨inb, hinb, hid.trans hrid.symm, (hack _ _ _).mpr (.inr ⟨hrid.symm, ?_, htype.symm⟩)⟩
      exact (howes inb hinb hid).1
  · rw [List.map_append]
    refine h.keys.append hone fun k hold hk => ?_
    obtain ⟨r, hr, rfl⟩ := List.mem_map.mp hold
    obtain ⟨q, hq, hsame⟩ := List.mem_map.mp hk
    obtain ⟨hqid, hqtype, -⟩ := hnew q hq
    obtain ⟨hid, htype⟩ := Prod.mk.inj hsame
    obtain ⟨inb, hinb, hinbid, hx⟩ := h.receipts r hr
    rw [← hid, ← htype, hqid, hqtype] at hx
    exact hnobody inb hinb (hinbid.trans (hid.symm.trans hqid)) _ hx

theorem writeAck_ok {e x : Option Str} {detail : Val}
    (h : writeAck db e x ackType now detail = .ok db') :
    ∃ eventId agent, e = some eventId ∧ x = some agent ∧
      (∃ ev ∈ db.events, ev.eventId = eventId) ∧
      db' = upsertAck db eventId agent ackType now detail := by
  unfold writeAck at h
  split at h
  · next eventId agent =>
    split_ifs at h with hevent
    obtain ⟨ev, hev, hid⟩ := List.any_eq_true.mp hevent
    exact ⟨eventId, agent, rfl, rfl, ⟨ev, hev, of_decide_eq_true hid⟩, (Except.ok.inj h).symm⟩
  · cases h

/-- On the local path the acknowledgement that the body names is written, whoever gives it. -/
theorem storeAck_local {r : AckCall} (h : storeAck cfg db r.toRequest now .localPath = .ok db') :
    ∃ eventId agent ackType detail, Adapter.Names cfg.env r.body eventId agent ackType ∧
      jsonParam (detailOf (getNone (lit "detail") r.body)) = .ok () ∧
      (∃ ev ∈ db.events, ev.eventId = eventId) ∧
      db' = upsertAck db eventId agent ackType now detail := by
  have hkey : ∀ (field : String) v, requireKey r.body field = .ok v →
      dictGet (lit field) r.body = some v := by
    intro field v hv
    unfold requireKey at hv
    split at hv
    · next w hw =>
      cases hv
      exact hw
    · cases hv
  simp only [storeAck, ackEvent, bind_eq_ok] at h
  obtain ⟨e, he, x, hx, t, ht, ackType, htype, event, hevent, agent, hagent, _, hdetail, h⟩ := h
  obtain ⟨eventId, agentId, rfl, rfl, hstored, hdb⟩ := writeAck_ok h
  exact ⟨eventId, agentId, ackType, _, ⟨⟨e, hkey _ _ he, hevent⟩, ⟨x, hkey _ _ hx, hagent⟩,
    t, hkey _ _ ht, htype⟩, hdetail, hstored, hdb⟩

/-- On the federated path it is written with the intent of its receipt, unless that is there. -/
theorem storeAck_federated {r : Request} {sigHash : Str} (hfed : cfg.fed = some fed)
    (h : storeAck cfg db r now (.federated inb eventId agent ackType sigHash) = .ok db') :
    (∃ ev ∈ db.events, ev.eventId = eventId) ∧ ∃ detail,
      (hasReceiptOut db eventId inb.target ackType = true ∧
        db' = upsertAck db eventId agent ackType now detail) ∨
      (hasReceiptOut db eventId inb.target ackType ≠ true ∧
        db' = { upsertAck db eventId agent ackType now detail with
          federationReceiptOut := db.federationReceiptOut ++
            [receiptOutRow db inb fed.identity eventId ackType sigHash now] }) := by
  simp only [storeAck, hfed, ackWrite, ackWithReceiptIntent, bind_eq_ok] at h
  obtain ⟨-, -, db₁, hwrite, h⟩ := h
  obtain ⟨_, _, hid, hagent, hstored, rfl⟩ := writeAck_ok hwrite
  cases hid
  cases hagent
  refine ⟨hstored, detailOf (getNone (lit "detail") r.body), ?_⟩
  split_ifs at h with hthere
  · exact .inl ⟨hthere, (pure_eq_ok.mp h).symm⟩
  · exact .inr ⟨hthere, (pure_eq_ok.mp h).symm⟩

/-- An acknowledgement that was given before is given again. -/
theorem elsewhere_upsert (now : Time) (detail : Val) (h : hasAck db eventId agent ackType = true) :
    Elsewhere db (upsertAck db eventId agent ackType now detail) := by
  refine ⟨fun e x t => ?_, fun _ hrow => hrow, rfl, rfl⟩
  rw [Bool.eq_iff_iff, Adapter.hasAck_upsertAck, or_iff_left_of_imp]
  rintro ⟨rfl, rfl, rfl⟩
  exact h

theorem upsertAck_new {detail : Val} (h : hasAck db eventId agent ackType ≠ true) :
    upsertAck db eventId agent ackType now detail = { db with acks := db.acks ++
      [⟨nextId (db.acks.map (·.id)), eventId, agent, ackType, now, detail⟩] } := by
  rw [upsertAck, if_neg h]

theorem firstAcks_append (row : AckRow) (receipts : List ReceiptOutRow)
    (h : hasAck db row.eventId row.agentId row.ackType ≠ true) :
    firstAcks db { db with acks := db.acks ++ [row], federationReceiptOut := receipts } = [row] := by
  have hold : (db.acks.filter fun n => !hasAck db n.eventId n.agentId n.ackType) = [] :=
    List.filter_eq_nil_iff.mpr fun n hn => by simp [hasAck_of_mem hn]
  rw [firstAcks, List.filter_append, hold, List.filter_cons_of_pos (by simpa using h)]
  rfl

theorem hasReceiptOut_iff : hasReceiptOut db eventId agent ackType = true ↔
    ∃ r ∈ db.federationReceiptOut, r.eventId = eventId ∧ r.agent = agent ∧ r.ackType = ackType := by
  simp [hasReceiptOut, and_assoc]

/-- Where the receipt is there, its acknowledgement is. -/
theorem AckTables.hasAck_of_receipt (h : AckTables fed (db, acked))
    (hinb : inb ∈ db.federationInbound)
    (hreceipt : hasReceiptOut db inb.eventId inb.target ackType = true) :
    hasAck db inb.eventId (localPart inb.target) ackType = true := by
  obtain ⟨r, hr, hid, -, rfl⟩ := hasReceiptOut_iff.mp hreceipt
  obtain ⟨inb', hinb', hid', hack⟩ := h.receipts r hr
  rw [List.inj_on_of_nodup_map h.single hinb' hinb (hid'.trans hid), hid] at hack
  exact hack

/-- What a call on the federated path carries: an inbound row, as it was read, with its recipient
and the digest of its signature. -/
def PathFrom (fed : Runtime) (db : Db) : AckPath → Prop
  | .localPath => True
  | .federated inb eventId agent _ sigHash =>
    (∃ inb' ∈ db.federationInbound, InboundRow.fixed inb' = InboundRow.fixed inb) ∧
      inb.eventId = eventId ∧ agent = localPart inb.target ∧
      ∃ sig, decodeStrict inb.sig 64 "signature_length" "schema" = .ok sig ∧
        sigHash = fed.crypto.sha256 sig

/-- A write keeps the invariant. -/
theorem AckTables.write {r : AckCall} {path : AckPath} (hfed : cfg.fed = some fed)
    (h : AckTables fed (db, acked)) (hpath : PathFrom fed db path)
    (hok : Timely cfg r now (db, acked) (.write path))
    (hstore : storeAck cfg db r.toRequest now path = .ok db') :
    AckTables fed (db', acked ++ firstAcks db db') := by
  have hagain : ∀ e x t detail, hasAck db e x t = true → db' = upsertAck db e x t now detail →
      AckTables fed (db', acked ++ firstAcks db db') := by
    intro e x t detail hack hdb
    have helsewhere := hdb ▸ elsewhere_upsert now detail hack
    rw [helsewhere.firstAcks_eq, List.append_nil]
    exact h.elsewhere helsewhere
  cases path with
  | localPath =>
    obtain ⟨e, x, t, detail, hnames, hdetail, hevent, hdb⟩ := storeAck_local hstore
    by_cases hack : hasAck db e x t = true
    · exact hagain e x t detail hack hdb
    · -- the event is local: of one from abroad the receipt would be there
      have hlocal : ∀ inb ∈ db.federationInbound, inb.eventId ≠ e := by
        rintro inb hinb rfl
        obtain ⟨rfl, hreceipt⟩ := hok hdetail _ x t hnames inb hinb rfl
        exact hack (h.hasAck_of_receipt hinb hreceipt)
      have hfirst := h.first ⟨nextId (db.acks.map (·.id)), e, x, t, now, detail⟩ [] hack hevent
        (fun inb hinb hid => absurd hid (hlocal inb hinb))
        (fun _ hr => absurd hr List.not_mem_nil) List.nodup_nil
      rw [hdb, upsertAck_new hack]
      rw [List.append_nil] at hfirst
      exact (firstAcks_append ⟨_, e, x, t, now, detail⟩ db.federationReceiptOut hack).symm ▸ hfirst
  | federated inb e x t sigHash =>
    obtain ⟨⟨inb', hinb', hfixed⟩, hid, hagent, sig, hsig, hhash⟩ := hpath
    have hid' : inb'.eventId = e := (congrArg InboundRow.eventId hfixed :).trans hid
    have htarget : inb'.target = inb.target := (congrArg InboundRow.target hfixed :)
    obtain ⟨hevent, detail, ⟨hthere, hdb⟩ | ⟨hthere, hdb⟩⟩ := storeAck_federated hfed hstore
    · refine hagain e x t detail ?_ hdb
      rw [hagent, ← htarget, ← hid']
      rw [← htarget, ← hid'] at hthere
      exact h.hasAck_of_receipt hinb' hthere
    · have hack : hasAck db e x t ≠ true := by
        intro hack
        obtain ⟨r, hr, hrid, hrtype⟩ := h.owed inb' hinb' x t (hid'.symm ▸ hack)
        refine hthere (hasReceiptOut_iff.mpr ⟨r, hr, hrid.trans hid', ?_, hrtype⟩)
        rw [(h.declares inb' hinb' r hr hrid).agent, htarget]
      have hone : ∀ row ∈ db.federationInbound, row.eventId = e → row = inb' := fun row hrow hrid =>
        List.inj_on_of_nodup_map h.single hrow hinb' (hrid.trans hid'.symm)
      have hfirst := h.first ⟨nextId (db.acks.map (·.id)), e, x, t, now, detail⟩
        [receiptOutRow db inb fed.identity e t sigHash now] hack hevent
        (fun row hrow hrid => by
          rw [hone row hrow hrid]
          refine ⟨hagent.trans (congrArg localPart htarget.symm), _, rfl, htarget.symm, ?_, ?_, rfl⟩
          · exact (congrArg InboundRow.origin hfixed.symm :)
          · rw [show inb'.sig = inb.sig from (congrArg InboundRow.sig hfixed :)]
            exact ⟨sig, hsig, hhash⟩)
        (fun q hq => by
          rw [List.mem_singleton.mp hq]
          exact ⟨rfl, rfl, inb', hinb', hid'⟩)
        (List.nodup_singleton _)
      rw [hdb, upsertAck_new hack]
      exact (firstAcks_append ⟨_, e, x, t, now, detail⟩ _ hack).symm ▸ hfirst

/-! ## The calls -/

/-- Inbound rows stay, but for their delivery. -/
def Persist (s s' : AckStore) : Prop :=
  ∀ inb ∈ s.1.federationInbound, ∃ inb' ∈ s'.1.federationInbound,
    InboundRow.fixed inb' = InboundRow.fixed inb

theorem Persist.of_fixed (h : s'.1.federationInbound.map InboundRow.fixed =
    s.1.federationInbound.map InboundRow.fixed) : Persist s s' :=
  fun _ hinb => exists_of_map_eq h.symm hinb

theorem Persist.trans {s'' : AckStore} (h : Persist s s') (h' : Persist s' s'') :
    Persist s s'' := by
  intro inb hinb
  obtain ⟨inb', hinb', hfixed⟩ := h inb hinb
  obtain ⟨inb'', hinb'', hfixed'⟩ := h' inb' hinb'
  exact ⟨inb'', hinb'', hfixed'.trans hfixed⟩

/-- Where an acknowledgement is. -/
def AckPlace (fed : Runtime) (s : AckStore) (_ : AckCall) : AckPhase → Prop
  | .write path => PathFrom fed s.1 path
  | _ => True

/-- Where a request for the inbox is. -/
def InboxPlace (fed : Runtime) (_ : AckStore) (_ : InboxCall) : InboxPhase → Prop
  | .receive p => ∃ agent, IsAddress p.targetAddr agent fed.identity.family
  | _ => True

theorem storeAck_inbound {r : AckCall} {path : AckPath} (hfed : cfg.fed = some fed)
    (h : storeAck cfg db r.toRequest now path = .ok db') :
    db'.federationInbound = db.federationInbound := by
  cases path with
  | localPath =>
    obtain ⟨_, _, _, _, -, -, -, rfl⟩ := storeAck_local h
    rfl
  | federated inb e x t sigHash =>
    obtain ⟨-, _, ⟨-, rfl⟩ | ⟨-, rfl⟩⟩ := storeAck_federated hfed h <;> rfl

theorem pathFrom_of_readAck {r : Request} {path : AckPath}
    (h : readAck cfg fed db r = .ok path) : PathFrom fed db path := by
  cases path with
  | localPath => trivial
  | federated inb e x t sigHash =>
    obtain ⟨_, _, -, -, -, hlookup⟩ := readAck_federated h
    obtain ⟨-, hinb, -, hagent, -, hsig⟩ := ackLookup_federated hlookup
    refine ⟨⟨inb, List.mem_of_find?_eq_some hinb, rfl⟩, ?_, hagent, hsig⟩
    simpa using List.find?_some hinb

/-- An admitted event is addressed to a member of the family. -/
theorem address_of_admitted {limits : RateLimits} {raw : Bytes} {env : Envelope}
    {p : InboundParams} (hparse : parseEvent raw = .ok env)
    (h : admitInbound fed db limits env = .ok p) :
    ∃ agent, IsAddress p.targetAddr agent fed.identity.family := by
  obtain ⟨f, hreads, hf⟩ := Adapter.parseEvent_reads hparse
  obtain ⟨ev, hev, hevent⟩ := hreads.event
  obtain ⟨agent, family, htarget⟩ := hf.target
  obtain ⟨rec, hrec, hp⟩ := Adapter.admitInbound_params h
  have haddr : p.targetAddr = f.target := by
    rw [hp, inboundParams, objMember, hev]
    show (strMember (lit "target") ev).getD [] = f.target
    rw [strMember, hevent.target, Option.getD_some]
  have hsplit : (splitAddress p.targetAddr).2 = family := by
    rw [haddr, htarget.1, splitAddress_append (agentRe_ne_at htarget.2.1)]
  have hfamily : (splitAddress p.targetAddr).2 = fed.identity.family := by
    by_contra hother
    simp only [admitInbound, hrec, ← hp, if_pos hother] at h
    split at h
    · cases h
    · split_ifs at h
  rw [haddr]
  exact ⟨agent, hfamily ▸ hsplit ▸ htarget⟩

theorem Unacked.tables (h : Unacked s) : AckTables fed s := by
  obtain ⟨db, acked⟩ := s
  obtain ⟨hacks, hinbound, hreceipts, rfl⟩ := h
  have hack : ∀ e x t, hasAck db e x t ≠ true := by
    intro e x t hx
    rw [hasAck, hacks] at hx
    cases hx
  have hnone : ∀ inb, inb ∉ db.federationInbound := by
    rw [hinbound]
    exact fun _ => List.not_mem_nil
  have hrnone : ∀ r, r ∉ db.federationReceiptOut := by
    rw [hreceipts]
    exact fun _ => List.not_mem_nil
  refine ⟨fun e x t hx => absurd hx (hack e x t), fun e x t => ?_,
    fun inb h => absurd h (hnone inb), fun inb h => absurd h (hnone inb), ?_,
    fun inb h => absurd h (hnone inb), fun inb h => absurd h (hnone inb),
    fun inb h => absurd h (hnone inb), fun r h => absurd h (hrnone r), ?_⟩
  · refine iff_of_false ?_ (hack e x t)
    rintro ⟨_, hn, -⟩
    exact List.not_mem_nil hn
  · rw [hinbound]
    exact List.nodup_nil
  · rw [hreceipts]
    exact List.nodup_nil

/-- A step that changes nothing of it. -/
theorem AckTables.quiet (h : AckTables fed s) (hdb : Elsewhere s.1 db') :
    AckTables fed (db', s.2 ++ firstAcks s.1 db') ∧
      Persist s (db', s.2 ++ firstAcks s.1 db') := by
  rw [hdb.firstAcks_eq, List.append_nil]
  exact ⟨AckTables.elsewhere h hdb, .of_fixed hdb.inbound⟩

theorem ackStep_tables {r : AckCall} {p : AckPhase} (now : Time) (hfed : cfg.fed = some fed)
    (h : AckTables fed s) (hp : AckPlace fed s r p) (hok : Timely cfg r now s p) :
    (AckTables fed ((ackStep cfg r now s.1 p).1, s.2 ++ firstAcks s.1 (ackStep cfg r now s.1 p).1) ∧
      Persist s ((ackStep cfg r now s.1 p).1, s.2 ++ firstAcks s.1 (ackStep cfg r now s.1 p).1)) ∧
      AckPlace fed ((ackStep cfg r now s.1 p).1, s.2 ++ firstAcks s.1 (ackStep cfg r now s.1 p).1) r
        (ackStep cfg r now s.1 p).2 := by
  have hsame := h.quiet (.refl s.1)
  cases p with
  | start =>
    refine ⟨hsame, ?_⟩
    simp only [ackStep, ackChecked, hfed]
    split_ifs <;> trivial
  | token =>
    simp only [ackStep]
    split
    · exact ⟨hsame, trivial⟩
    · refine ⟨hsame, ?_⟩
      simp only [ackChecked, hfed]
      trivial
  | lookup =>
    simp only [ackStep, hfed]
    split
    · exact ⟨hsame, trivial⟩
    · next path hread => exact ⟨hsame, pathFrom_of_readAck hread⟩
  | write path =>
    simp only [ackStep]
    split
    · exact ⟨hsame, trivial⟩
    · next db' hstore =>
      have hwrite := AckTables.write hfed h hp hok hstore
      have hpersist : Persist s (db', s.2 ++ firstAcks s.1 db') :=
        .of_fixed (congrArg (List.map InboundRow.fixed) (storeAck_inbound hfed hstore))
      cases path <;> exact ⟨⟨hwrite, hpersist⟩, trivial⟩
  | hint =>
    have hmarks := hintPages_marks r.woken 50 s.1 r.cursor
    simp only [ackStep, hintNotifications]
    rw [hmarks.frame]
    exact ⟨h.quiet ⟨fun _ _ _ => rfl, fun _ hrow => hrow, rfl, rfl⟩, trivial⟩
  | done reply => exact ⟨hsame, trivial⟩

theorem ack_keeps (hfed : cfg.fed = some fed) :
    ((ackCalls cfg).recorded firstAcks).Keeps Unacked (fun s s' => Elsewhere s.1 s'.1 ∧ s'.2 = s.2)
      (Timely cfg) (AckTables fed) (AckPlace fed) Persist where
  refl _ inb hinb := ⟨inb, hinb, rfl⟩
  trans _ _ _ := .trans
  init _ h := h.tables
  env := by
    rintro ⟨db, acked⟩ ⟨db', _⟩ h ⟨hdb, rfl⟩
    exact ⟨h.elsewhere hdb, .of_fixed hdb.inbound⟩
  start _ _ _ := trivial
  mono s s' r p hR h := by
    cases p with
    | write path =>
      cases path with
      | localPath => trivial
      | federated inb e x t sigHash =>
        obtain ⟨⟨inb', hinb', hfixed⟩, hrest⟩ := h
        obtain ⟨inb'', hinb'', hfixed'⟩ := hR inb' hinb'
        exact ⟨⟨inb'', hinb'', hfixed'.trans hfixed⟩, hrest⟩
    | _ => trivial
  step s r now p h hp _ hok := by
    obtain ⟨⟨htables, hpersist⟩, hplace⟩ := ackStep_tables now hfed h hp hok
    exact ⟨htables, hplace, hpersist⟩

/-- A step of a request for the inbox stores its event, or changes nothing of it. -/
theorem inboxStep_cases (envr : Env) (fed : Runtime) (c : InboxCall) (now : Time) (db : Db)
    (p : InboxPhase) :
    (∃ q, p = .receive q ∧ Stored db q now (inboxStep envr fed c now db p).1 ∧
        (inboxStep envr fed c now db p).2 = .pending (statusReply 200 "stored")) ∨
      Elsewhere db (inboxStep envr fed c now db p).1 ∧
        ∀ q, (inboxStep envr fed c now db p).2 = .receive q → p = .start ∧
          inboxChecks fed c db = .receive q := by
  have hsame := Elsewhere.refl db
  cases p with
  | start => exact .inr ⟨hsame, fun q hq => ⟨rfl, hq⟩⟩
  | receive q =>
    simp only [inboxStep]
    split
    · exact .inr ⟨hsame, fun _ hq => by cases hq⟩
    · next db' row htxn => exact .inl ⟨q, rfl, (receiveTxn_committed htxn).1, rfl⟩
    · exact .inr ⟨hsame, fun _ hq => by cases hq⟩
  | classify q seen =>
    right
    simp only [inboxStep]
    split
    · exact ⟨hsame, fun _ hq => by cases hq⟩
    · split_ifs
      · exact ⟨hsame, fun _ hq => by cases hq⟩
      · exact ⟨hsame, fun _ hq => by cases hq⟩
      · exact ⟨hsame, fun _ hq => by cases hq⟩
  | conflict q reason seen =>
    exact .inr ⟨⟨fun _ _ _ => rfl, fun _ hrow => hrow, rfl, rfl⟩, fun _ hq => by cases hq⟩
  | pending reply => exact .inr ⟨hsame, fun _ hq => by cases hq⟩
  | deliver rows reply =>
    right
    cases rows with
    | nil => exact ⟨hsame, fun _ hq => by cases hq⟩
    | cons row rows =>
      simp only [inboxStep]
      split <;> exact ⟨hsame, fun _ hq => by cases hq⟩
  | mark row rows reply =>
    exact .inr ⟨.of_delivered (markDelivered_delivered db row.origin row.eventId),
      fun _ hq => by cases hq⟩
  | done reply => exact .inr ⟨hsame, fun _ hq => by cases hq⟩

theorem inboxChecks_receive {c : InboxCall} {p : InboundParams}
    (h : inboxChecks fed c db = .receive p) :
    ∃ agent, IsAddress p.targetAddr agent fed.identity.family := by
  unfold inboxChecks at h
  split_ifs at h
  split at h
  · cases h
  · next env hparse =>
    split at h
    · cases h
    · next q hadmit =>
      cases h
      exact address_of_admitted hparse hadmit

theorem inbox_keeps (envr : Env) (fed : Runtime) :
    ((inboxCalls envr fed).recorded firstAcks).Keeps Unacked
      (fun s s' => Elsewhere s.1 s'.1 ∧ s'.2 = s.2) (fun _ _ _ _ => True) (AckTables fed)
      (InboxPlace fed) Persist where
  refl _ inb hinb := ⟨inb, hinb, rfl⟩
  trans _ _ _ := .trans
  init _ h := h.tables
  env := by
    rintro ⟨db, acked⟩ ⟨db', _⟩ h ⟨hdb, rfl⟩
    exact ⟨h.elsewhere hdb, .of_fixed hdb.inbound⟩
  start _ _ _ := trivial
  mono s s' c p _ h := h
  step s c now p h hp _ _ := by
    show AckTables fed ((inboxStep envr fed c now s.1 p).1,
      s.2 ++ firstAcks s.1 (inboxStep envr fed c now s.1 p).1) ∧
        InboxPlace fed ((inboxStep envr fed c now s.1 p).1,
          s.2 ++ firstAcks s.1 (inboxStep envr fed c now s.1 p).1) c
            (inboxStep envr fed c now s.1 p).2 ∧
          Persist s ((inboxStep envr fed c now s.1 p).1,
            s.2 ++ firstAcks s.1 (inboxStep envr fed c now s.1 p).1)
    rcases inboxStep_cases envr fed c now s.1 p with ⟨q, rfl, hs, hnext⟩ | ⟨hdb, hnext⟩
    · have hfirst : firstAcks s.1 (inboxStep envr fed c now s.1 (.receive q)).1 = [] := by
        have hacks : (inboxStep envr fed c now s.1 (.receive q)).1.acks = s.1.acks :=
          (congrArg Db.acks hs.frame :)
        refine List.filter_eq_nil_iff.mpr fun row hrow => ?_
        rw [hacks] at hrow
        simp [hasAck_of_mem hrow]
      rw [hfirst, List.append_nil, hnext]
      refine ⟨AckTables.stored h hs hp, trivial, fun inb hinb => ⟨inb, ?_, rfl⟩⟩
      rw [hs.inbound]
      exact List.mem_append_left _ hinb
    · obtain ⟨htables, hpersist⟩ := h.quiet hdb
      refine ⟨htables, ?_, hpersist⟩
      cases hphase : (inboxStep envr fed c now s.1 p).2 with
      | receive q => exact inboxChecks_receive (hnext q hphase).2
      | _ => trivial

/-- While no acknowledgement is overtaken by its event, the acknowledgements of events from abroad
and the intents to send receipts for them belong together. -/
theorem acks_coupled (cfg : ServerConfig) (fed : Runtime) (hfed : cfg.fed = some fed)
    (w : World AckStore (AckCall ⊕ InboxCall) (AckPhase ⊕ InboxPhase))
    (h : Reach (acking cfg fed) (timely cfg) w) : Coupled fed w.store :=
  (((ack_keeps hfed).either (inbox_keeps cfg.env fed)).reach h).1.coupled

theorem Names.unique {env : Env} {body : Dict} {e x e' x' : Str} {t t' : AckType}
    (h : Adapter.Names env body e x t) (h' : Adapter.Names env body e' x' t') :
    e = e' ∧ x = x' ∧ t = t' := by
  have hsome : ∀ {α : Type} {field : String} {f : Val → Except Exn α} {a b : α},
      (∃ v, dictGet (lit field) body = some v ∧ f v = .ok a) →
        (∃ v, dictGet (lit field) body = some v ∧ f v = .ok b) → a = b := by
    rintro α field f a b ⟨v, hv, ha⟩ ⟨v', hv', hb⟩
    cases hv.symm.trans hv'
    exact Except.ok.inj (ha.symm.trans hb)
  exact ⟨Option.some.inj (hsome h.event h'.event), Option.some.inj (hsome h.agent h'.agent),
    hsome h.type h'.type⟩

/-- A local write keeps the tables together just when it meets the condition. -/
theorem coupled_iff_timely {r : AckCall} (hfed : cfg.fed = some fed)
    (h : AckTables fed (db, acked)) (hstore : storeAck cfg db r.toRequest now .localPath = .ok db') :
    Coupled fed (db', acked ++ firstAcks db db') ↔
      Timely cfg r now (db, acked) (.write .localPath) := by
  refine ⟨fun hcoupled _ e x t hnames inb hinb hid => ?_,
    fun hok => (h.write hfed (show PathFrom fed db .localPath from trivial) hok hstore).coupled⟩
  obtain ⟨e', x', t', detail, hnames', -, -, rfl⟩ := storeAck_local hstore
  obtain ⟨rfl, rfl, rfl⟩ := Names.unique hnames hnames'
  have hack : hasAck (upsertAck db e x t now detail) e x t = true :=
    (Adapter.hasAck_upsertAck db e x t now detail e x t).mpr (.inr ⟨rfl, rfl, rfl⟩)
  obtain ⟨row, hrow, hrowEvent, hrowAgent, hrowType⟩ := exists_ack hack
  obtain ⟨agent, hagent, hreceipted⟩ := hcoupled.receipted inb hinb
  obtain ⟨hsame, q, hintents, -⟩ := hreceipted row hrow (hrowEvent.trans hid.symm)
  refine ⟨hrowAgent.symm.trans (hsame.trans (localPart_address hagent).symm), ?_⟩
  have hq : q ∈ intentsFor (upsertAck db e x t now detail) inb.eventId inb.target row.ackType := by
    rw [hintents]
    exact List.mem_singleton_self q
  obtain ⟨hq, hkey⟩ := List.mem_filter.mp hq
  simp only [Bool.and_eq_true, decide_eq_true_eq] at hkey
  exact hasReceiptOut_iff.mpr ⟨q, hq, hkey.1.1.trans hid, hkey.1.2, hkey.2.trans hrowType⟩

/-! ## An acknowledgement that its event overtakes -/

/-- Alice acknowledges an event, of which she may not have heard yet. -/
def alicesAck : AckCall where
  body := [(lit "event_id", .str (lit "00000000-0000-4000-8000-000000000002")),
    (lit "agent_id", .str (lit "alice")), (lit "ack_type", .str (lit "applied"))]
  bearer := lit "t"
  now := noon
  newId := []
  woken _ := false
  cursor := none

/-- Bob's message is stored. -/
def bobStored : Db :=
  match receiveTxn plainEnv restrictedAlice Adapter.bobsParams noon with
  | .committed db _ => db
  | _ => restrictedAlice

/-- The acknowledgement looks for its event, Bob's message arrives, and the acknowledgement is
written. -/
def overtaken (raw : Bytes) : World AckStore (AckCall ⊕ InboxCall) (AckPhase ⊕ InboxPhase) where
  store := (upsertAck bobStored Adapter.bobsFields.eventId (lit "alice") .applied noon (.dict []),
    [⟨1, Adapter.bobsFields.eventId, lit "alice", .applied, noon, .dict []⟩])
  calls := [(.inl alicesAck, .inl (.done okReply)),
    (.inr ⟨⟨true, true⟩, raw⟩, .inr (.pending (statusReply 200 "stored")))]

theorem reach_overtaken {raw : Bytes}
    (hparse : parseEvent raw =
      .ok (receivedEvent plainCrypto Adapter.bobsFamily Adapter.bobsFields)) :
    Reachable (acking serverA fedA) (overtaken raw) := by
  have hinit : Reachable (acking serverA fedA) ⟨(restrictedAlice, []), []⟩ :=
    .init ⟨⟨rfl, rfl, rfl, rfl⟩, rfl⟩
  have hack : Reachable (acking serverA fedA)
      ⟨(restrictedAlice, []), [(.inl alicesAck, .inl .start)]⟩ :=
    .step (a := .call (.inl alicesAck)) hinit trivial rfl
  have hlooked : Reachable (acking serverA fedA)
      ⟨(restrictedAlice, []), [(.inl alicesAck, .inl (.write .localPath))]⟩ :=
    reach_schedule noon [0, 0, 0] hack rfl
  have hposted : Reachable (acking serverA fedA) ⟨(restrictedAlice, []),
      [(.inl alicesAck, .inl (.write .localPath)), (.inr ⟨⟨true, true⟩, raw⟩, .inr .start)]⟩ :=
    .step (a := .call (.inr ⟨⟨true, true⟩, raw⟩)) hlooked trivial rfl
  have hchecked : Reachable (acking serverA fedA) ⟨(restrictedAlice, []),
      [(.inl alicesAck, .inl (.write .localPath)),
        (.inr ⟨⟨true, true⟩, raw⟩, .inr (.receive Adapter.bobsParams))]⟩ := by
    refine .step (a := .advance 1 noon) hposted trivial
      ⟨.inr ⟨⟨true, true⟩, raw⟩, .inr .start, rfl, rfl, ?_⟩
    have hchecks : inboxChecks fedA ⟨⟨true, true⟩, raw⟩ restrictedAlice =
        .receive Adapter.bobsParams := by
      rw [inboxChecks, if_neg (fun hoff => by cases hoff), hparse]
      rfl
    rw [← hchecks]
    rfl
  exact reach_schedule noon [1, 0] hchecked rfl

/-- Alice's acknowledgement is in the ledger, and the receipt that it owes is not. -/
theorem receipt_is_lost : ¬ ∀ (cfg : ServerConfig) (fed : Runtime), cfg.fed = some fed →
    ∀ w, Reachable (acking cfg fed) w → Coupled fed w.store := by
  intro hclaim
  obtain ⟨raw, hraw, hlength⟩ :=
    length_eventBytes plainCrypto Adapter.bobsFamily Adapter.bobsFields_valid
  have hsize : eventSize Adapter.bobsFields ≤ requestBodyLimit := by decide
  have hparse := (parseEvent_composed Adapter.bobsFields_valid hraw).mpr ⟨hlength ▸ hsize, rfl⟩
  have hcoupled := hclaim serverA fedA rfl _ (reach_overtaken hparse)
  obtain ⟨_, -, hreceipted⟩ := hcoupled.receipted
    (inboundRow restrictedAlice Adapter.bobsParams noon) (List.mem_singleton_self _)
  obtain ⟨-, r, hr, -⟩ := hreceipted
    ⟨1, Adapter.bobsFields.eventId, lit "alice", .applied, noon, .dict []⟩
    (List.mem_singleton_self _) rfl
  cases hr

/-! ## An acknowledgement that comes after its event -/

theorem timely_of {w : World AckStore (AckCall ⊕ InboxCall) (AckPhase ⊕ InboxPhase)} {i : ℕ}
    {c : AckCall ⊕ InboxCall} {p : AckPhase ⊕ InboxPhase} (hi : w.calls[i]? = some (c, p))
    (hp : p ≠ .inl (.write .localPath)) : timely cfg w (.advance i now) := by
  rintro c' p' hi'
  cases hi.symm.trans hi'
  match c, p, hp with
  | .inl r, .inl .start, _ => trivial
  | .inl r, .inl .token, _ => trivial
  | .inl r, .inl .lookup, _ => trivial
  | .inl r, .inl (.write .localPath), hp => exact absurd rfl hp
  | .inl r, .inl (.write (.federated ..)), _ => trivial
  | .inl r, .inl .hint, _ => trivial
  | .inl r, .inl (.done reply), _ => trivial
  | .inr c, .inr p, _ => trivial
  | .inl r, .inr p, _ => trivial
  | .inr c, .inl p, _ => trivial

/-- The federated path of Alice's acknowledgement. -/
def alicesPath : AckPath :=
  match readAck serverA fedA bobStored alicesAck.toRequest with
  | .ok path => path
  | .error _ => .localPath

/-- Alice has acknowledged Bob's message. -/
def aliceAcked : Db :=
  match storeAck serverA bobStored alicesAck.toRequest noon alicesPath with
  | .ok db => db
  | .error _ => bobStored

set_option maxRecDepth 4000 in
theorem acks_coupled_alice :
    hasReceiptOut aliceAcked Adapter.bobsFields.eventId Adapter.bobsFields.target .applied = true ∧
      Coupled fedA (aliceAcked, aliceAcked.acks) := by
  obtain ⟨raw, hraw, hlength⟩ :=
    length_eventBytes plainCrypto Adapter.bobsFamily Adapter.bobsFields_valid
  have hsize : eventSize Adapter.bobsFields ≤ requestBodyLimit := by decide
  have hparse := (parseEvent_composed Adapter.bobsFields_valid hraw).mpr ⟨hlength ▸ hsize, rfl⟩
  have hchecks : inboxChecks fedA ⟨⟨true, true⟩, raw⟩ restrictedAlice =
      .receive Adapter.bobsParams := by
    rw [inboxChecks, if_neg (fun hoff => by cases hoff), hparse]
    rfl
  have hinit : Reach (acking serverA fedA) (timely serverA) ⟨(restrictedAlice, []), []⟩ :=
    .init ⟨⟨rfl, rfl, rfl, rfl⟩, rfl⟩
  have hposted : Reach (acking serverA fedA) (timely serverA)
      ⟨(restrictedAlice, []), [(.inr ⟨⟨true, true⟩, raw⟩, .inr .start)]⟩ :=
    .step (a := .call (.inr ⟨⟨true, true⟩, raw⟩)) hinit trivial rfl
  have hchecked : Reach (acking serverA fedA) (timely serverA)
      ⟨(restrictedAlice, []),
        [(.inr ⟨⟨true, true⟩, raw⟩, .inr (.receive Adapter.bobsParams))]⟩ := by
    refine .step (a := .advance 0 noon) hposted (timely_of rfl (fun hsame => by cases hsame))
      ⟨.inr ⟨⟨true, true⟩, raw⟩, .inr .start, rfl, rfl, ?_⟩
    rw [← hchecks]
    rfl
  have hstored : Reach (acking serverA fedA) (timely serverA)
      ⟨(bobStored, []),
        [(.inr ⟨⟨true, true⟩, raw⟩, .inr (.pending (statusReply 200 "stored")))]⟩ :=
    .step (a := .advance 0 noon) hchecked (timely_of rfl (fun hsame => by cases hsame))
      ⟨_, _, rfl, rfl, rfl⟩
  have hack : Reach (acking serverA fedA) (timely serverA)
      ⟨(bobStored, []), [(.inr ⟨⟨true, true⟩, raw⟩, .inr (.pending (statusReply 200 "stored"))),
        (.inl alicesAck, .inl .start)]⟩ :=
    .step (a := .call (.inl alicesAck)) hstored trivial rfl
  have htoken : Reach (acking serverA fedA) (timely serverA)
      ⟨(bobStored, []), [(.inr ⟨⟨true, true⟩, raw⟩, .inr (.pending (statusReply 200 "stored"))),
        (.inl alicesAck, .inl .token)]⟩ :=
    .step (a := .advance 1 noon) hack (timely_of rfl (fun hsame => by cases hsame))
      ⟨_, _, rfl, rfl, rfl⟩
  have hlookup : Reach (acking serverA fedA) (timely serverA)
      ⟨(bobStored, []), [(.inr ⟨⟨true, true⟩, raw⟩, .inr (.pending (statusReply 200 "stored"))),
        (.inl alicesAck, .inl .lookup)]⟩ :=
    .step (a := .advance 1 noon) htoken (timely_of rfl (fun hsame => by cases hsame))
      ⟨_, _, rfl, rfl, rfl⟩
  have hwrite : Reach (acking serverA fedA) (timely serverA)
      ⟨(bobStored, []), [(.inr ⟨⟨true, true⟩, raw⟩, .inr (.pending (statusReply 200 "stored"))),
        (.inl alicesAck, .inl (.write alicesPath))]⟩ :=
    .step (a := .advance 1 noon) hlookup (timely_of rfl (fun hsame => by cases hsame))
      ⟨_, _, rfl, rfl, rfl⟩
  have hpath : ∃ inb eventId agent ackType sigHash,
      alicesPath = .federated inb eventId agent ackType sigHash := ⟨_, _, _, _, _, rfl⟩
  have hfederated : (Sum.inl (.write alicesPath) : AckPhase ⊕ InboxPhase) ≠
      .inl (.write .localPath) := by
    obtain ⟨_, _, _, _, _, hpath⟩ := hpath
    rw [hpath]
    exact fun hsame => by cases hsame
  have hacked : Reach (acking serverA fedA) (timely serverA)
      ⟨(aliceAcked, aliceAcked.acks),
        [(.inr ⟨⟨true, true⟩, raw⟩, .inr (.pending (statusReply 200 "stored"))),
          (.inl alicesAck, .inl .hint)]⟩ :=
    .step (a := .advance 1 noon) hwrite (timely_of rfl hfederated) ⟨_, _, rfl, rfl, rfl⟩
  exact ⟨rfl, acks_coupled serverA fedA rfl _ hacked⟩

end Server
end ATalk
