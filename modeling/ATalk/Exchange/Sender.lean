import ATalk.Exchange

/-!
# The outbox of the sender

What the steps of the sender make of its rows: a request adds one, composed and signed; the worker
changes the state of the row in its hands and nothing that was composed; and whoever sent an event
that failed is told.

* `Composed`  : a row is what was signed for a request;
* `Closes`    : a write of the worker, by the state it leaves the row of one event in;
* `Works.cases`, `postEvents_rows` : the steps, by what they make of the table;
* `Addressed` : a notification of a failure is for the sender of the event.
-/

namespace ATalk
namespace Exchange

open Text Json Python Calendar ATalk.Core Federation Server Transition Callers Checks

variable {P : Parties} {db db' : Db} {row row' : OutboundRow} {s s' : Node}

/-! ## Composed rows -/

/-- The row of an event that was composed from the fields and signed under the identity. -/
structure ComposedOf (crypto : Crypto) (identity : Identity) (f : EventFields) (row : OutboundRow) :
    Prop where
  valid : f.Valid
  origin : f.origin = identity.family
  keyId : f.keyId = identity.keyId
  eventId : row.eventId = f.eventId
  source : row.sourceAddr = f.source
  bare : f.source = row.sourceLocal ++ ofChar '@' :: identity.family
  target : row.target = f.target
  family : ∃ agent, IsAddress f.target agent row.targetFamily
  type : row.type = f.type
  signed : row.signedJson = sorted (signedEvent f)
  sig : row.sig = signature crypto identity (signedEvent f)
  bytes : eventBytes f row.sig = some row.envelopeJson

def Composed (P : Parties) (row : OutboundRow) : Prop :=
  ∃ f, ComposedOf P.fed.crypto P.identity f row

/-- Nothing that was composed depends on the state of the row. -/
theorem Composed.congr (h : Composed P row)
    (hsame : OutboundRow.fixed row' = OutboundRow.fixed row) : Composed P row' := by
  obtain ⟨f, hf⟩ := h
  have hfixed : Composed P (OutboundRow.fixed row) :=
    ⟨f, hf.valid, hf.origin, hf.keyId, hf.eventId, hf.source, hf.bare, hf.target, hf.family, hf.type,
      hf.signed, hf.sig, hf.bytes⟩
  rw [← hsame] at hfixed
  obtain ⟨g, hg⟩ := hfixed
  exact ⟨g, hg.valid, hg.origin, hg.keyId, hg.eventId, hg.source, hg.bare, hg.target, hg.family,
    hg.type, hg.signed, hg.sig, hg.bytes⟩

/-- A queued row is composed. -/
theorem composed_queued {fed : Runtime} {source target family newId : Str} {body : Dict}
    {now : Time} {r : SendRequest} {raw : Bytes}
    (h : Queued fed db source target body family newId now r)
    (hraw : eventBytes (r.fields fed now) (r.sig fed now) = some raw)
    (hcrypto : fed.crypto = P.fed.crypto) (hidentity : fed.identity = P.identity)
    (hfamily : ∃ agent, IsAddress target agent family) : Composed P (r.row fed db raw now) := by
  have hchecked := checkSend_ok h.checks
  refine ⟨r.fields fed now, h.valid, ?_, ?_, rfl, rfl, ?_, rfl, ?_, rfl, ?_, ?_, hraw⟩
  · rw [← hidentity]
    rfl
  · rw [← hidentity]
    rfl
  · rw [← hidentity]
    rfl
  · show ∃ agent, IsAddress r.target agent r.family
    rw [hchecked.family, hchecked.target]
    exact hfamily
  · show sorted (withoutSig (withSig _ _)) = _
    rw [withoutSig_withSig]
  · show r.sig fed now = _
    rw [SendRequest.sig, hcrypto, hidentity]

/-! ## A request -/

/-- What a request makes of the tables that federation reads: nothing, or one queued row. -/
theorem postEvents_rows {cfg : ServerConfig} (hcfg : P.Configures cfg) (db : Db) (r : Request) :
    (postEvents cfg db r).1.federationOutbound = db.federationOutbound ∧
        (∀ uuid5, Notifies uuid5 db .other (postEvents cfg db r).1) ∨
      ∃ fed p row, fed.outboxCap = P.cap ∧ fed.uuid5 = P.uuid5 ∧ uuidRe p.eventId = true ∧
        enqueueOutbound fed db p r.now = some ((postEvents cfg db r).1, .queued) ∧
        (postEvents cfg db r).1 =
          { db with federationOutbound := db.federationOutbound ++ [row] } ∧
        Composed P row ∧ row.status = .pending ∧
        (∀ q ∈ db.federationOutbound, q.eventId ≠ row.eventId) := by
  rcases postEvents_cases cfg db r with hr | ⟨a, row, -, -, -, hc, -⟩ |
    ⟨a, fed, family, s, raw, hcheck, hroute, hqueued, hraw, hout⟩
  · left
    rcases hr with hr | ⟨row, -, hr⟩
    · rw [hr]
      exact ⟨rfl, fun _ => .write rfl rfl rfl rfl rfl⟩
    · rw [hr]
      exact ⟨rfl, fun _ => .write rfl rfl rfl rfl rfl⟩
  · left
    rw [hc.frame]
    exact ⟨rfl, fun _ => .write rfl rfl rfl rfl rfl⟩
  · right
    have hfed : cfg.fed = some fed := by
      unfold route at hroute
      split at hroute
      · cases hroute
      · next fed' hfed =>
        split_ifs at hroute
        rw [Option.map_eq_some_iff] at hroute
        obtain ⟨_, -, hpair⟩ := hroute
        rw [hfed, (Prod.mk.inj hpair).1]
    obtain ⟨hcrypto, hidentity, huuid, hcap⟩ := hcfg fed hfed
    obtain ⟨agent, haddress⟩ := route_family hroute
    have henqueue := hqueued.enqueue raw
    rw [hout]
    refine ⟨fed, _, s.row fed db raw r.now, hcap, huuid, ?_, henqueue, rfl,
      composed_queued hqueued hraw hcrypto hidentity ⟨agent, parseAddress_ok_iff.mp haddress⟩, rfl, ?_⟩
    · exact (checkSend_ok hqueued.checks).eventId
    · exact findOutbound_eq_none_iff.mp hqueued.fresh

/-! ## The worker -/

/-- The pending row of one event comes to a state, and what was composed stays as it was. -/
structure Closes (eventId : Str) (status : SendStatus) (db db' : Db) : Prop where
  rows : ∃ f : OutboundRow → OutboundRow,
    db'.federationOutbound = db.federationOutbound.map f ∧
      ∀ row ∈ db.federationOutbound, OutboundRow.fixed (f row) = OutboundRow.fixed row ∧
        (f row).status = if row.eventId = eventId then status else row.status

theorem updatePending_closes {eventId : Str} {status : SendStatus}
    {f : OutboundRow → OutboundRow} (heventIds : (db.federationOutbound.map (·.eventId)).Nodup)
    (hrow : row ∈ db.federationOutbound) (hpending : row.status = .pending)
    (hid : row.eventId = eventId) (hf : ∀ r, OutboundRow.fixed (f r) = OutboundRow.fixed r)
    (hstatus : ∀ r, r.status = .pending → (f r).status = status) :
    Closes eventId status db (updatePending db eventId f) := by
  refine ⟨_, rfl, fun r hr => ?_⟩
  split_ifs with hcond hname hname
  · exact ⟨hf r, hstatus r hcond.2⟩
  · exact absurd hcond.1 hname
  · -- the one row of the event is pending
    have hsame : r = row := List.inj_on_of_nodup_map heventIds hr hrow (hname.trans hid.symm)
    exact absurd ⟨hname, hsame ▸ hpending⟩ hcond
  · exact ⟨rfl, rfl⟩

theorem failOutboundPermanent_closes (hs : Orderly P.cap s) (hrow : row ∈ s.db.federationOutbound)
    (hpending : row.status = .pending) (error : Str) (now : Time) :
    Closes row.eventId .failedPermanent s.db (failOutboundPermanent s.db row.eventId error now) := by
  -- the pending row that the write looks for is the one in the worker's hands
  have hfound : s.db.federationOutbound.find?
      (fun r => r.eventId = row.eventId && r.status = .pending) = some row := by
    cases hfind : s.db.federationOutbound.find?
        (fun r => r.eventId = row.eventId && r.status = .pending) with
    | none =>
      have hnot := List.find?_eq_none.mp hfind row hrow
      simp [hpending] at hnot
    | some found =>
      have hkey := List.find?_some hfind
      rw [Bool.and_eq_true, decide_eq_true_eq] at hkey
      rw [List.inj_on_of_nodup_map hs.eventIds (List.mem_of_find?_eq_some hfind) hrow hkey.1]
  unfold failOutboundPermanent
  rw [hfound]
  refine ⟨_, insertNotification_outbound .., fun r hr => ?_⟩
  split_ifs with hid hname hname
  · exact ⟨rfl, rfl⟩
  · have hsame : r = row := List.inj_on_of_nodup_map hs.ids hr hrow hid
    exact absurd (congrArg OutboundRow.eventId hsame) hname
  · have hsame : r = row := List.inj_on_of_nodup_map hs.eventIds hr hrow hname
    exact absurd (congrArg OutboundRow.id hsame) hid
  · exact ⟨rfl, rfl⟩

theorem Closes.carries {eventId : Str} {status : SendStatus} (h : Closes eventId status db db')
    (hrow : row ∈ db.federationOutbound) : ∃ row' ∈ db'.federationOutbound,
      OutboundRow.fixed row' = OutboundRow.fixed row ∧
        row'.status = if row.eventId = eventId then status else row.status := by
  obtain ⟨f, hrows, hf⟩ := h.rows
  exact ⟨f row, hrows ▸ List.mem_map_of_mem hrow, hf row hrow⟩

theorem Closes.comes {eventId : Str} {status : SendStatus} (h : Closes eventId status db db')
    (hrow : row' ∈ db'.federationOutbound) : ∃ row ∈ db.federationOutbound,
      OutboundRow.fixed row' = OutboundRow.fixed row ∧
        row'.status = if row.eventId = eventId then status else row.status := by
  obtain ⟨f, hrows, hf⟩ := h.rows
  rw [hrows] at hrow
  obtain ⟨row, hmem, rfl⟩ := List.mem_map.mp hrow
  exact ⟨row, hmem, hf row hmem⟩

theorem eventId_of_fixed (h : OutboundRow.fixed row' = OutboundRow.fixed row) :
    row'.eventId = row.eventId := (congrArg OutboundRow.eventId h :)

/-- A notification that an event failed is for whoever sent the event. -/
def Addressed (db : Db) : Prop :=
  ∀ n ∈ db.federationNotifications, n.kind = lit "send_failed" →
    ∃ row ∈ db.federationOutbound, n.eventId = some row.eventId ∧ n.agent = some row.sourceLocal

theorem mem_insertNotification {intentId : Str} {kind : String} {agent eventId : Option Str}
    {detail : List (Str × Str)} {now : Time} {n : NotificationRow}
    (h : n ∈ (insertNotification db intentId kind agent eventId detail now).federationNotifications) :
    n ∈ db.federationNotifications ∨
      n = ⟨intentId, lit kind, agent, eventId, detail, false, false, now⟩ := by
  unfold insertNotification at h
  split_ifs at h
  · exact .inl h
  · exact (List.mem_append.mp h).imp_right List.mem_singleton.mp

theorem Addressed.carry (h : Addressed db)
    (hrows : ∀ row ∈ db.federationOutbound, ∃ row' ∈ db'.federationOutbound,
      row'.eventId = row.eventId ∧ row'.sourceLocal = row.sourceLocal)
    (hnotifications : ∀ n ∈ db'.federationNotifications, n.kind = lit "send_failed" →
      (∃ m ∈ db.federationNotifications, m.kind = lit "send_failed" ∧ n.eventId = m.eventId ∧
        n.agent = m.agent) ∨
      ∃ row ∈ db.federationOutbound, n.eventId = some row.eventId ∧
        n.agent = some row.sourceLocal) : Addressed db' := by
  intro n hn hkind
  obtain ⟨row, hrow, heventId, hagent⟩ : ∃ row ∈ db.federationOutbound,
      n.eventId = some row.eventId ∧ n.agent = some row.sourceLocal := by
    rcases hnotifications n hn hkind with ⟨m, hm, hmkind, hmid, hmagent⟩ | hnew
    · obtain ⟨row, hrow, heventId, hagent⟩ := h m hm hmkind
      exact ⟨row, hrow, hmid.trans heventId, hmagent.trans hagent⟩
    · exact hnew
  obtain ⟨row', hrow', hid, hlocal⟩ := hrows row hrow
  exact ⟨row', hrow', by rw [heventId, hid], by rw [hagent, hlocal]⟩

/-- A write of the worker that tells nobody. -/
theorem Addressed.closes {eventId : Str} {status : SendStatus} (h : Addressed db)
    (hcloses : Closes eventId status db db')
    (hsame : db'.federationNotifications = db.federationNotifications) : Addressed db' := by
  refine h.carry (fun row hrow => ?_) fun n hn hkind => .inl ⟨n, hsame ▸ hn, hkind, rfl, rfl⟩
  obtain ⟨row', hrow', hfixed, -⟩ := hcloses.carries hrow
  exact ⟨row', hrow', eventId_of_fixed hfixed, (congrArg OutboundRow.sourceLocal hfixed :)⟩

/-- The row that fails is told to its own sender. -/
theorem Addressed.fails (h : Addressed db) {eventId : Str} (error : Str) (now : Time)
    (hcloses : Closes eventId .failedPermanent db (failOutboundPermanent db eventId error now)) :
    Addressed (failOutboundPermanent db eventId error now) := by
  refine h.carry (fun row hrow => ?_) fun n hn hkind => ?_
  · obtain ⟨row', hrow', hfixed, -⟩ := hcloses.carries hrow
    exact ⟨row', hrow', eventId_of_fixed hfixed, (congrArg OutboundRow.sourceLocal hfixed :)⟩
  · unfold failOutboundPermanent at hn
    split at hn
    · exact .inl ⟨n, hn, hkind, rfl, rfl⟩
    next found hfound =>
      have hkey := List.find?_some hfound
      rw [Bool.and_eq_true, decide_eq_true_eq] at hkey
      -- the notification is inserted for the sender of the row that was found
      rcases mem_insertNotification hn with hold | rfl
      · exact .inl ⟨n, hold, hkind, rfl, rfl⟩
      · exact .inr ⟨found, List.mem_of_find?_eq_some hfound, by rw [hkey.1], rfl⟩

/-- Where no event fails, nobody is told that one did. -/
theorem Addressed.aside {uuid5 : Str → Str} {act : Federation.Act} (h : Addressed db)
    (huuid : Function.Injective uuid5) (hdb : Notified uuid5 db)
    (hstep : Notifies uuid5 db act db')
    (hout : db'.federationOutbound = db.federationOutbound) : Addressed db' := by
  obtain ⟨hdb', hgrows⟩ := hdb.step huuid hstep
  obtain ⟨k, new, hrows, hflags, -⟩ := hgrows
  refine h.carry (fun row hrow => ⟨row, hout ▸ hrow, rfl, rfl⟩) fun n hn hkind => .inl ?_
  -- the failure that it tells of was told before
  obtain ⟨f, hf, habout⟩ := hdb'.exact.sound n hn
  obtain ⟨e, rfl⟩ : ∃ e, f = .sendFailed e := by
    have hword := habout.kind.symm.trans hkind
    cases f with
    | sendFailed e => exact ⟨e, rfl⟩
    | receiptFailed => exact absurd hword (of_decide_eq_true rfl)
    | receiptIn => exact absurd hword (of_decide_eq_true rfl)
  -- no row has changed, so the same row had failed before
  have hbefore : Fact.Holds db (.sendFailed e) := by
    obtain ⟨row, hrow, hrest⟩ := hf
    exact ⟨row, hout ▸ hrow, hrest⟩
  obtain ⟨m, hm, hmabout⟩ := hdb.exact.complete _ hbefore
  have hmem : k m ∈ db'.federationNotifications := by
    rw [hrows]
    exact List.mem_append_left _ (List.mem_map_of_mem hm)
  -- both notifications have the id of the one failure
  have hsame : n = k m := by
    refine List.inj_on_of_nodup_map hdb'.exact.nodup hn hmem ?_
    rw [(hflags m).intentId, habout.intentId, hmabout.intentId]
  have hflag := (hflags m).columns
  refine ⟨m, hm, hmabout.kind, ?_, ?_⟩
  · rw [hsame]
    exact (congrArg NotificationRow.eventId hflag :)
  · rw [hsame]
    exact (hflags m).agent

/-- The state an outcome leaves a row in. -/
def SendOutcome.status : SendOutcome → SendStatus
  | .sent => .sent
  | .permanent _ => .failedPermanent
  | .retry _ _ => .pending

theorem applyOutbound_closes (hs : Orderly P.cap s) (hrow : row ∈ s.db.federationOutbound)
    (hpending : row.status = .pending) {cfg : WorkerConfig} {outcome : SendOutcome} {draw : Draw}
    (h : applyOutbound cfg s.db row outcome draw = .ok db') :
    Closes row.eventId (SendOutcome.status outcome) s.db db' ∧
      (∀ uuid5, Notifies uuid5 s.db .other db') ∧ (Addressed s.db → Addressed db') := by
  cases outcome with
  | sent =>
    cases h
    have hcloses : Closes row.eventId .sent s.db
        (markOutboundSent s.db row.eventId (nowIso draw.stored)) :=
      updatePending_closes hs.eventIds hrow hpending rfl (fun _ => rfl) fun _ _ => rfl
    exact ⟨hcloses, fun _ => .outboundSent .., fun h => h.closes hcloses rfl⟩
  | permanent error =>
    cases h
    have hcloses := failOutboundPermanent_closes hs hrow hpending error (nowIso draw.stored)
    exact ⟨hcloses, fun _ => .outboundFails .., fun h => h.fails _ _ hcloses⟩
  | retry error retryAfter =>
    simp only [applyOutbound] at h
    split at h
    · cases h
    · next deadline _ =>
      cases h
      have hcloses : Closes row.eventId .pending s.db (markOutboundRetry s.db row.eventId
          (row.attempts + 1) deadline error (nowIso draw.stored)) :=
        updatePending_closes hs.eventIds hrow hpending rfl (fun _ => rfl) fun _ hr => hr
      exact ⟨hcloses, fun _ => .outboundRetry .., fun h => h.closes hcloses rfl⟩

theorem raisedOutbound_closes (hs : Orderly P.cap s) (hrow : row ∈ s.db.federationOutbound)
    (hpending : row.status = .pending) (cfg : WorkerConfig) (cls : Str) (draw : Draw) :
    raisedOutbound cfg s.db row cls draw = s.db ∨
      Closes row.eventId .pending s.db (raisedOutbound cfg s.db row cls draw) ∧
        (∀ uuid5, Notifies uuid5 s.db .other (raisedOutbound cfg s.db row cls draw)) ∧
          (Addressed s.db → Addressed (raisedOutbound cfg s.db row cls draw)) := by
  unfold raisedOutbound
  split
  · exact .inl rfl
  · next deadline _ =>
    have hcloses : Closes row.eventId .pending s.db (markOutboundRetry s.db row.eventId
        (row.attempts + 1) deadline (workerError cls) (nowIso draw.stored)) :=
      updatePending_closes hs.eventIds hrow hpending rfl (fun _ => rfl) fun _ hr => hr
    exact .inr ⟨hcloses, fun _ => .outboundRetry .., fun h => h.closes hcloses rfl⟩

/-- A step of the worker changes where it is, or closes a row in its hands by one of its writes; it
closes one as sent only on the answer it has. -/
inductive Worked (s s' : Node) : Prop where
  | moved (hdb : s'.db = s.db) (hplace : ∀ row answer rows, s'.place ≠ .answered row answer rows)
  | wrote (row : OutboundRow) (status : SendStatus) (hrow : row ∈ s.db.federationOutbound)
      (hpending : row.status = .pending) (hcloses : Closes row.eventId status s.db s'.db)
      (hnotifies : ∀ uuid5, Notifies uuid5 s.db .other s'.db)
      (haddressed : Addressed s.db → Addressed s'.db)
      (hplace : ∃ rows, s'.place = .page rows)
      (hsent : status = .sent → ∃ rows, s.place = .answered row (.ok .sent) rows)

theorem Works.cases (hs : Orderly P.cap s) (h : Works s s') : Worked s s' := by
  cases h with
  | crash => exact .moved rfl fun _ _ _ h => by cases h
  | recover => exact .moved rfl fun _ _ _ h => by cases h
  | recoverFails => exact .moved rfl fun _ _ _ h => by cases h
  | cycle => exact .moved rfl fun _ _ _ h => by cases h
  | finish => exact .moved rfl fun _ _ _ h => by cases h
  | @unregistered _ _ row rows _ _ hplace _ hdb =>
    have hheld : s.place.rows = row :: rows := by rw [hplace]; rfl
    obtain ⟨hrow, hpending⟩ := hs.holding.pending row (by rw [hheld]; exact List.mem_cons_self)
    obtain ⟨hcloses, hnotifies, haddressed⟩ := applyOutbound_closes hs hrow hpending hdb
    exact .wrote row _ hrow hpending hcloses hnotifies haddressed ⟨rows, rfl⟩ fun h => by cases h
  | @apply _ row outcome rows _ _ hplace hdb =>
    have hheld : s.place.rows = row :: rows := by rw [hplace]; rfl
    obtain ⟨hrow, hpending⟩ := hs.holding.pending row (by rw [hheld]; exact List.mem_cons_self)
    obtain ⟨hcloses, hnotifies, haddressed⟩ := applyOutbound_closes hs hrow hpending hdb
    refine .wrote row _ hrow hpending hcloses hnotifies haddressed ⟨rows, rfl⟩ fun h => ?_
    -- only an answer that counts as sent closes the row so
    cases outcome with
    | sent => exact ⟨rows, hplace⟩
    | _ => cases h
  | raise => exact .moved rfl fun _ _ _ h => by cases h
  | @persist row cls rows cfg draw hplace =>
    have hheld : s.place.rows = row :: rows := by rw [hplace]; rfl
    obtain ⟨hrow, hpending⟩ := hs.holding.pending row (by rw [hheld]; exact List.mem_cons_self)
    rcases raisedOutbound_closes hs hrow hpending cfg cls draw with
      hsame | ⟨hcloses, hnotifies, haddressed⟩
    · exact .moved hsame fun _ _ _ h => by cases h
    · exact .wrote row _ hrow hpending hcloses hnotifies haddressed ⟨rows, rfl⟩ fun h => by cases h
  | persistFails => exact .moved rfl fun _ _ _ h => by cases h

/-- They are steps of the outbox. -/
theorem Works.moves {cap : ℕ} (h : Works s s') : Moves cap s .silent s' := by
  cases h with
  | crash => exact .crash
  | recover now h => exact .recover now h
  | recoverFails h => exact .recoverFails h
  | cycle now h => exact .cycle now h
  | finish h => exact .finish h
  | unregistered h hfamily hdb => exact .unregistered h hfamily hdb
  | apply h hdb => exact .apply h hdb
  | raise cls h => exact .raise cls h
  | persist cfg draw h => exact .persist cfg draw h
  | persistFails h => exact .persistFails h

end Exchange
end ATalk
