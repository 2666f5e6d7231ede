import ATalk.Exchange.Agreement
import ATalk.Lib.Channel

/-!
# The exchange is a channel

The two ledgers together are a channel that delivers at most once: a request posts an original under
the id of its event, the inbox of the receiver lets it arrive, and the worker of the sender confirms
it or gives it up.

* `view`              : the channel that the two ledgers are;
* `exchange_simulates` : every step is one of the channel, or none;
* `exchange_refines`  : so is every run.
-/

namespace ATalk
namespace Exchange

open Text Json Python Calendar ATalk.Core Federation Server Transition Callers Checks

variable {P : Parties} {db db' : Db} {row : OutboundRow} {n n' : Node} {s s' : State}
  {status status' : SendStatus}

/-! ## The view -/

/-- What arrives of an event: the signed object and its signature. -/
abbrev Original := List (Str × Json) × Str

/-- The originals that the sender has for the receiver. -/
def postedOf (P : Parties) (db : Db) : Set (Str × Original) :=
  { x | ∃ row ∈ db.federationOutbound, row.targetFamily = P.receiver ∧
    x = (row.eventId, row.signedJson, row.sig) }

/-- The originals that the receiver has of the sender. -/
def arrivedOf (P : Parties) (db : Db) : Set (Str × Original) :=
  { x | ∃ inb ∈ db.federationInbound, inb.origin = P.sender ∧
    x = (inb.eventId, inb.signedJson, inb.sig) }

/-- The events for the receiver whose rows are in a state. -/
def endedOf (P : Parties) (status : SendStatus) (db : Db) : Set Str :=
  { k | ∃ row ∈ db.federationOutbound, row.targetFamily = P.receiver ∧ row.status = status ∧
    row.eventId = k }

def view (P : Parties) (s : State) : Channel Str Original where
  posted := postedOf P s.sender.db
  arrived := arrivedOf P s.receiver.store
  confirmed := endedOf P .sent s.sender.db
  givenUp := endedOf P .failedPermanent s.sender.db

/-! ## The sender -/

theorem mem_postedOf (hrow : row ∈ db.federationOutbound) (hfamily : row.targetFamily = P.receiver) :
    (row.eventId, row.signedJson, row.sig) ∈ postedOf P db := ⟨row, hrow, hfamily, rfl⟩

theorem postedOf_queued (hrows : db'.federationOutbound = db.federationOutbound ++ [row]) :
    postedOf P db' = if row.targetFamily = P.receiver then
      insert (row.eventId, row.signedJson, row.sig) (postedOf P db) else postedOf P db := by
  ext x
  unfold postedOf
  rw [hrows]
  split_ifs with hfamily
  · simp [hfamily, or_and_right, exists_or, or_comm]
  · simp [hfamily, or_and_right, exists_or]

/-- A new row is in no final state. -/
theorem endedOf_queued (hrows : db'.federationOutbound = db.federationOutbound ++ [row])
    (hstatus : row.status ≠ status) : endedOf P status db' = endedOf P status db := by
  ext k
  unfold endedOf
  rw [hrows]
  simp [hstatus, or_and_right, exists_or]

theorem postedOf_closes {eventId : Str} (h : Closes eventId status db db') :
    postedOf P db' = postedOf P db := by
  have hcopy : ∀ {row row' : OutboundRow}, OutboundRow.fixed row' = OutboundRow.fixed row →
      row'.targetFamily = row.targetFamily ∧
        (row'.eventId, row'.signedJson, row'.sig) = (row.eventId, row.signedJson, row.sig) := by
    intro row row' hfixed
    refine ⟨targetFamily_of_fixed hfixed, ?_⟩
    rw [eventId_of_fixed hfixed, show row'.signedJson = row.signedJson from
      (congrArg OutboundRow.signedJson hfixed :), show row'.sig = row.sig from
      (congrArg OutboundRow.sig hfixed :)]
  ext x
  constructor
  · rintro ⟨row', hrow', hfamily, rfl⟩
    obtain ⟨row, hrow, hfixed, -⟩ := h.comes hrow'
    exact ⟨row, hrow, (hcopy hfixed).1.symm.trans hfamily, (hcopy hfixed).2⟩
  · rintro ⟨row, hrow, hfamily, rfl⟩
    obtain ⟨row', hrow', hfixed, -⟩ := h.carries hrow
    exact ⟨row', hrow', (hcopy hfixed).1.trans hfamily, (hcopy hfixed).2.symm⟩

/-- The row that is written comes to its state, and no other row to any. -/
theorem endedOf_closes (hs : Orderly P.cap n) (hrow : row ∈ n.db.federationOutbound)
    (hpending : row.status = .pending) (h : Closes row.eventId status n.db db')
    (hfinal : status' ≠ .pending) : endedOf P status' db' =
      if row.targetFamily = P.receiver ∧ status = status' then
        insert row.eventId (endedOf P status' n.db) else endedOf P status' n.db := by
  -- ids are stored once, so no other row changes its state
  have hself : ∀ {r : OutboundRow}, r ∈ n.db.federationOutbound → r.eventId = row.eventId → r = row :=
    fun hr hid => List.inj_on_of_nodup_map hs.eventIds hr hrow hid
  have hiff : ∀ k, k ∈ endedOf P status' db' ↔
      k ∈ endedOf P status' n.db ∨ row.targetFamily = P.receiver ∧ status = status' ∧
        k = row.eventId := by
    intro k
    constructor
    · rintro ⟨r', hr', hfamily, hstatus, rfl⟩
      obtain ⟨r, hr, hfixed, hcame⟩ := h.comes hr'
      rw [targetFamily_of_fixed hfixed] at hfamily
      rw [eventId_of_fixed hfixed]
      split_ifs at hcame with hid
      · rw [hself hr hid] at hfamily ⊢
        exact .inr ⟨hfamily, hcame.symm.trans hstatus, rfl⟩
      · exact .inl ⟨r, hr, hfamily, hcame.symm.trans hstatus, rfl⟩
    · rintro (⟨r, hr, hfamily, hstatus, rfl⟩ | ⟨hfamily, hstatus, rfl⟩)
      · obtain ⟨r', hr', hfixed, hcame⟩ := h.carries hr
        rw [if_neg] at hcame
        · exact ⟨r', hr', (targetFamily_of_fixed hfixed).trans hfamily, hcame.trans hstatus,
            eventId_of_fixed hfixed⟩
        · -- the row that is written was pending
          intro hid
          rw [hself hr hid, hpending] at hstatus
          exact hfinal hstatus.symm
      · obtain ⟨r', hr', hfixed, hcame⟩ := h.carries hrow
        rw [if_pos rfl] at hcame
        exact ⟨r', hr', (targetFamily_of_fixed hfixed).trans hfamily, hcame.trans hstatus,
          eventId_of_fixed hfixed⟩
  ext k
  rw [hiff]
  split_ifs with hcond
  · rw [Set.mem_insert_iff, or_comm]
    simp [hcond]
  · constructor
    · rintro (hold | ⟨hfamily, hstatus, -⟩)
      · exact hold
      · exact absurd ⟨hfamily, hstatus⟩ hcond
    · exact .inl

/-- An event whose row is pending is open. -/
theorem open_of_pending (hs : Orderly P.cap s.sender) (hrow : row ∈ s.sender.db.federationOutbound)
    (hpending : row.status = .pending) : (view P s).Open row.eventId := by
  have hnot : ∀ status, status ≠ .pending → row.eventId ∉ endedOf P status s.sender.db := by
    rintro status hstatus ⟨r, hr, -, hended, hid⟩
    rw [List.inj_on_of_nodup_map hs.eventIds hr hrow hid, hpending] at hended
    exact hstatus hended.symm
  exact ⟨hnot .sent (by decide), hnot .failedPermanent (by decide)⟩

/-- A step of the sender posts, confirms or gives up at most one event. -/
theorem Turned.simulates (h : Exchanged P s) (hturned : Turned P s.sender n') :
    ∃ es, Trace (channel Str Original) (view P s) es (view P { s with sender := n' }) := by
  have hs := orderly_of_reach h.sender
  cases hturned with
  | same hrows hplace =>
    have hsame : view P { s with sender := n' } = view P s := by
      unfold view postedOf endedOf
      rw [hrows]
    rw [hsame]
    exact ⟨[], .nil⟩
  | queued row hrows hcomposed hpending hfresh hplace =>
    -- a row for the receiver is posted; any other is no event of the channel
    have hended : ∀ status, status ≠ .pending →
        endedOf P status n'.db = endedOf P status s.sender.db :=
      fun status hstatus => endedOf_queued hrows (by rw [hpending]; exact hstatus.symm)
    have hposted := postedOf_queued (P := P) hrows
    split_ifs at hposted with hfamily
    · refine ⟨_, .snoc .nil (?_ : Channel.Step _ (.post row.eventId (row.signedJson, row.sig)) _)⟩
      have hview : view P { s with sender := n' } = { view P s with
          posted := insert (row.eventId, row.signedJson, row.sig) (view P s).posted } :=
        Channel.ext hposted rfl (hended .sent (by decide)) (hended .failedPermanent (by decide))
      rw [hview]
      refine .post ?_
      rintro m ⟨q, hq, -, hkey⟩
      exact hfresh q hq (congrArg Prod.fst hkey).symm
    · refine ⟨[], ?_⟩
      have hview : view P { s with sender := n' } = view P s :=
        Channel.ext hposted rfl (hended .sent (by decide)) (hended .failedPermanent (by decide))
      rw [hview]
      exact .nil
  | wrote row status hrow hpending hcloses hplace hsent =>
    have hended : ∀ final : SendStatus, final ≠ .pending → endedOf P final n'.db =
        if row.targetFamily = P.receiver ∧ status = final then
          insert row.eventId (endedOf P final s.sender.db) else endedOf P final s.sender.db :=
      fun final hfinal => endedOf_closes hs hrow hpending hcloses hfinal
    have hposted : (view P { s with sender := n' }).posted = (view P s).posted :=
      postedOf_closes hcloses
    have hsentRows := hended .sent (by decide)
    have hfailedRows := hended .failedPermanent (by decide)
    by_cases hfamily : row.targetFamily = P.receiver
    · have hopen := open_of_pending hs hrow hpending
      cases status with
      -- a retry: the channel does nothing
      | pending =>
        rw [if_neg (by simp)] at hsentRows hfailedRows
        have hview : view P { s with sender := n' } = view P s :=
          Channel.ext hposted rfl hsentRows hfailedRows
        rw [hview]
        exact ⟨[], .nil⟩
      | sent =>
        rw [if_pos ⟨hfamily, rfl⟩] at hsentRows
        rw [if_neg (by simp)] at hfailedRows
        have hview : view P { s with sender := n' } = { view P s with
            confirmed := insert row.eventId (view P s).confirmed } :=
          Channel.ext hposted rfl hsentRows hfailedRows
        -- the worker has an answer, and the receiver gave it about a stored event
        obtain ⟨rows, hanswered⟩ := hsent rfl
        obtain ⟨inb, hinb, horigin, heventId⟩ := h.answered row rows hanswered hfamily
        have harrived : (row.eventId, inb.signedJson, inb.sig) ∈ (view P s).arrived :=
          ⟨inb, hinb, horigin, by rw [heventId]⟩
        rw [hview]
        exact ⟨[.confirm row.eventId], .snoc .nil (.confirm harrived hopen)⟩
      | failedPermanent =>
        rw [if_neg (by simp)] at hsentRows
        rw [if_pos ⟨hfamily, rfl⟩] at hfailedRows
        have hview : view P { s with sender := n' } = { view P s with
            givenUp := insert row.eventId (view P s).givenUp } :=
          Channel.ext hposted rfl hsentRows hfailedRows
        rw [hview]
        exact ⟨[.giveUp row.eventId], .snoc .nil (.giveUp (mem_postedOf hrow hfamily) hopen)⟩
    · rw [if_neg (by simp [hfamily])] at hsentRows hfailedRows
      have hview : view P { s with sender := n' } = view P s :=
        Channel.ext hposted rfl hsentRows hfailedRows
      rw [hview]
      exact ⟨[], .nil⟩

/-! ## The receiver -/

theorem arrivedOf_fixed (h : db'.federationInbound.map InboundRow.fixed =
    db.federationInbound.map InboundRow.fixed) : arrivedOf P db' = arrivedOf P db := by
  have hsub : ∀ {db db' : Db}, db'.federationInbound.map InboundRow.fixed =
      db.federationInbound.map InboundRow.fixed → arrivedOf P db' ⊆ arrivedOf P db := by
    rintro db db' h x ⟨inb', hinb', horigin, rfl⟩
    obtain ⟨inb, hinb, hfixed⟩ := exists_of_map_eq h hinb'
    refine ⟨inb, hinb, (congrArg InboundRow.origin hfixed :).trans horigin, ?_⟩
    rw [show inb.eventId = inb'.eventId from (congrArg InboundRow.eventId hfixed :),
      show inb.signedJson = inb'.signedJson from (congrArg InboundRow.signedJson hfixed :),
      show inb.sig = inb'.sig from (congrArg InboundRow.sig hfixed :)]
  exact Set.Subset.antisymm (hsub h) (hsub h.symm)

theorem arrivedOf_stored {p : InboundParams} {now : Time} (h : Stored db p now db') :
    arrivedOf P db' = if p.origin = P.sender then
      insert (p.eventId, p.signedJson, p.sig) (arrivedOf P db) else arrivedOf P db := by
  have hnew : ∀ inb, inb ∈ db'.federationInbound ↔
      inb ∈ db.federationInbound ∨ inb = inboundRow db p now := by
    intro inb
    rw [h.inbound, List.mem_append, List.mem_singleton]
  ext x
  unfold arrivedOf
  simp only [hnew]
  split_ifs with horigin
  · constructor
    · rintro ⟨inb, hold | rfl, hfrom, rfl⟩
      · exact .inr ⟨inb, hold, hfrom, rfl⟩
      · exact .inl rfl
    · rintro (rfl | ⟨inb, hold, hfrom, rfl⟩)
      · exact ⟨_, .inr rfl, horigin, rfl⟩
      · exact ⟨inb, .inl hold, hfrom, rfl⟩
  · constructor
    · rintro ⟨inb, hold | rfl, hfrom, rfl⟩
      · exact ⟨inb, hold, hfrom, rfl⟩
      · exact absurd hfrom horigin
    · rintro ⟨inb, hold, hfrom, rfl⟩
      exact ⟨inb, .inl hold, hfrom, rfl⟩

/-- A step of the receiver lets at most one event arrive. -/
theorem receive_simulates (h : Exchanged P s) {act : Callers.Action Db InboxCall Time}
    {w : World Db InboxCall InboxPhase} (hstep : (inbox P).step s.receiver act w) :
    ∃ es, Trace (channel Str Original) (view P s) es (view P { s with receiver := w }) := by
  rcases receive_cases h.receiver hstep with hsame | ⟨c, hc, p, now, hadmitted, hstored⟩
  · have hview : view P { s with receiver := w } = view P s :=
      Channel.ext rfl (arrivedOf_fixed hsame) rfl rfl
    rw [hview]
    exact ⟨[], .nil⟩
  · -- an event of another family is none of the channel
    have harrived := arrivedOf_stored (P := P) hstored
    split_ifs at harrived with horigin
    · have hview : view P { s with receiver := w } = { view P s with
          arrived := insert (p.eventId, p.signedJson, p.sig) (view P s).arrived } :=
        Channel.ext rfl harrived rfl rfl
      obtain ⟨row, hrow, hfamily, heventId, -, hsigned, hsig⟩ :=
        hadmitted.genuine (h.genuine c hc) horigin h.wire h.composed
      rw [hview]
      refine ⟨_, .snoc .nil (?_ : Channel.Step _ (.arrive p.eventId (p.signedJson, p.sig)) _)⟩
      refine .arrive ?_ ?_
      · rw [heventId, hsigned, hsig]
        exact mem_postedOf hrow hfamily
      · rintro m ⟨inb, hinb, hfrom, hkey⟩
        -- the transaction has looked for the key before
        have hnone := List.find?_eq_none.mp hstored.freshInbound inb hinb
        simp only [hfrom, horigin, decide_true, Bool.true_and, decide_eq_true_eq] at hnone
        exact hnone (congrArg Prod.fst hkey).symm
    · have hview : view P { s with receiver := w } = view P s :=
        Channel.ext rfl harrived rfl rfl
      rw [hview]
      exact ⟨[], .nil⟩

/-! ## Runs -/

theorem view_init (h : (exchange P).init s) : view P s = ⟨∅, ∅, ∅, ∅⟩ := by
  obtain ⟨hsender, -, -, hreceiver⟩ := h
  refine Channel.ext ?_ ?_ ?_ ?_
  · exact Set.eq_empty_of_forall_notMem fun x hx => by
      obtain ⟨row, hrow, -⟩ := hx
      rw [hsender.1] at hrow
      exact List.not_mem_nil hrow
  · exact Set.eq_empty_of_forall_notMem fun x hx => by
      obtain ⟨inb, hinb, -⟩ := hx
      rw [hreceiver.1.2.1] at hinb
      exact List.not_mem_nil hinb
  all_goals
    refine Set.eq_empty_of_forall_notMem fun x hx => ?_
    obtain ⟨row, hrow, -⟩ := hx
    rw [hsender.1] at hrow
    exact List.not_mem_nil hrow

/-- Every step of the exchange is one of the channel, or none. -/
theorem exchange_simulates (huuid : Function.Injective P.uuid5) :
    Simulates (exchange P) P.Honest (channel Str Original) (view P) where
  init _ := view_init
  step s act s' hs hhonest hstep := by
    have h := exchanged_of_reach huuid hs
    cases act with
    | post cfg r =>
      obtain ⟨hcfg, rfl⟩ := hstep
      exact (post_turns huuid hcfg s.sender r).turned.simulates h
    | aside db =>
      obtain ⟨hrows, hnotifies, rfl⟩ := hstep
      exact (aside_turns huuid hrows hnotifies).turned.simulates h
    | work node =>
      obtain ⟨hworks, rfl⟩ := hstep
      exact (work_turns (orderly_of_reach h.sender) hworks).turned.simulates h
    | emit =>
      obtain ⟨row, rows, hplace, rfl⟩ := hstep
      exact ⟨[], .nil⟩
    | answer t parsedate now =>
      obtain ⟨fed, peer, row, rows, hplace, hpeer, rfl⟩ := hstep
      exact ⟨[], .nil⟩
    | receive act =>
      obtain ⟨w, hreceive, rfl⟩ := hstep
      exact receive_simulates h hreceive

end Exchange
end ATalk
