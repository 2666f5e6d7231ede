import ATalk.Federation.Starvation
import Mathlib.Logic.Relation

/-!
# Retry-After

A peer that answers 429 names the time before which it is not to be contacted again. The module
follows that time from the header to the row: parsing, the addition that may leave the calendar, the
rounding to whole seconds, the text, and the comparison with the truncated text of the clock.

* `parseRetryAfter` : the header as a delay;
* `deadline_bounds` : the persisted second against the exact deadline;
* `Elsewhere`, `ElsewhereReceipt` : the writes that handle other rows;
* `retry_after_kept` : a row comes back not before its deadline.
-/

namespace ATalk
namespace Federation

open Text Python Calendar ATalk.Core

/-! ## The header -/

/-- A `datetime` in seconds since the year 1 of its own clock, and the offset of a zone. -/
structure When where
  wall : ℤ
  offset : Option ℤ

/-- `when.timestamp()`; a time without a zone is one of UTC. -/
def When.utc (w : When) : ℤ := w.wall - w.offset.getD 0

def isAsciiDigit (c : CodePoint) : Bool := 0x30 ≤ c.val && c.val ≤ 0x39

/-- `value.isascii() and value.isdigit()` -/
def isDeltaSeconds (value : Str) : Bool := value ≠ [] && value.all isAsciiDigit

/-- `_parse_retry_after`, in microseconds. The reader of dates is `parsedate_to_datetime`, with `none`
for an exception. -/
def parseRetryAfter (parsedate : Str → Option When) (value : Option Str) (now : Moment) :
    Option ℕ :=
  match value with
  | none => none
  | some value =>
    if value = [] then none
    else
      let value := strip value
      if isDeltaSeconds value then some (decimal value * 1000000)
      else (parsedate value).map fun w => (w.utc * 1000000 - (now.val : ℤ)).toNat

/-- What a valid Retry-After asks for: a number of seconds, or a time. -/
inductive Asked where
  | seconds (n : ℕ)
  | date (t : ℤ)

/-- The grammar of Retry-After; `httpDate` is that of the dates, with the second that they name. -/
inductive Asks (httpDate : Str → ℤ → Prop) (value : Str) : Asked → Prop
  | seconds : isDeltaSeconds (strip value) = true →
      Asks httpDate value (.seconds (decimal (strip value)))
  | date {t : ℤ} : value ≠ [] → isDeltaSeconds (strip value) = false → httpDate (strip value) t →
      Asks httpDate value (.date t)

/-- The reader reads the dates of the grammar. -/
def ReadsDates (parsedate : Str → Option When) (httpDate : Str → ℤ → Prop) : Prop :=
  ∀ value t, httpDate value t → ∃ w, parsedate value = some w ∧ w.utc = t

/-- The exact deadline, in microseconds, of a request that is handled at a reading of the clock. -/
def Asked.deadline (handled : Moment) : Asked → ℤ
  | .seconds n => handled.val + n * 1000000
  | .date t => t * 1000000

variable {parsedate : Str → Option When} {httpDate : Str → ℤ → Prop} {value : Str} {asked : Asked}

/-- A valid header is a delay, which ends at the exact deadline or, for a date that is past, at
once. -/
theorem parseRetryAfter_asks (hreads : ReadsDates parsedate httpDate)
    (h : Asks httpDate value asked) (now : Moment) : ∃ delay,
      parseRetryAfter parsedate (some value) now = some delay ∧
        ((now.val + delay : ℕ) : ℤ) = max (asked.deadline now) now.val := by
  cases h with
  | seconds hdigits =>
    have hne : value ≠ [] := by
      rintro rfl
      exact absurd hdigits (by decide)
    refine ⟨decimal (strip value) * 1000000, ?_, ?_⟩
    · simp only [parseRetryAfter, if_neg hne, hdigits, if_true]
    · unfold Asked.deadline
      push_cast
      omega
  | @date t hne hdigits hdate =>
    obtain ⟨w, hread, hutc⟩ := hreads _ _ hdate
    refine ⟨(w.utc * 1000000 - (now.val : ℤ)).toNat, ?_, ?_⟩
    · simp only [parseRetryAfter, if_neg hne, hdigits, hread, Bool.false_eq_true, if_false,
        Option.map_some]
    · show _ = max (t * 1000000) (now.val : ℤ)
      rw [hutc]
      omega

/-! ## The persisted deadline -/

/-- The last second of the calendar. -/
def ceiling : Instant := ⟨horizon - 1, by decide⟩

/-- The second that `_backoff` persists for a delay. -/
def persisted (handled : Moment) (delay : ℕ) : Instant :=
  roundUp ((after handled delay).getD lastMoment)

theorem backoff_retryAfter (cfg : WorkerConfig) (attempts delay jitter : ℕ) (handled : Moment) :
    backoff cfg attempts (some delay) jitter handled = some (iso (persisted handled delay)) := rfl

theorem roundUp_bounds (m : Moment) : (roundUp m).val * 1000000 < m.val + 1000000 ∧
    (m.val ≤ (roundUp m).val * 1000000 ∨
      (horizon - 1) * 1000000 < m.val ∧ roundUp m = ceiling) := by
  have hm := m.isLt
  have hsecond : (Moment.second m).val = m.val / 1000000 := rfl
  unfold roundUp
  split_ifs with hwhole
  · rw [hsecond]
    omega
  · cases hnext : later (Moment.second m) 1 with
    | some t =>
      rw [later_eq_some] at hnext
      rw [Option.getD_some, hnext, hsecond]
      omega
    | none =>
      -- there is no next second
      have hlast : ¬ (Moment.second m).val + 1 < horizon := by
        intro hlt
        rw [later, dif_pos hlt] at hnext
        cases hnext
      rw [Option.getD_none]
      have hval : (Moment.second m).val = horizon - 1 := by omega
      refine ⟨by omega, .inr ⟨by omega, Fin.ext hval⟩⟩

theorem roundUp_lastMoment : roundUp lastMoment = ceiling := by decide +kernel

/-- A sum beyond the calendar, with the length of the calendar left a variable. -/
theorem over_bounds {bound total : ℕ} (hpos : 0 < bound) (hover : bound * 1000000 ≤ total) :
    (bound - 1) * 1000000 < total + 1000000 ∧ (bound - 1) * 1000000 < total := by omega

/-- The persisted second is not before the exact deadline, unless the calendar ends between them, and
less than a second after it. -/
theorem persisted_bounds (handled : Moment) (delay : ℕ) :
    (persisted handled delay).val * 1000000 < handled.val + delay + 1000000 ∧
      (handled.val + delay ≤ (persisted handled delay).val * 1000000 ∨
        (horizon - 1) * 1000000 < handled.val + delay ∧ persisted handled delay = ceiling) := by
  unfold persisted
  cases hafter : after handled delay with
  | some m =>
    have hm : m.val = handled.val + delay := by
      unfold after at hafter
      split_ifs at hafter
      rw [← Option.some.inj hafter]
    rw [Option.getD_some, ← hm]
    exact roundUp_bounds m
  | none =>
    have hover : horizon * 1000000 ≤ handled.val + delay := by
      unfold after at hafter
      split_ifs at hafter with hlt
      exact not_lt.mp hlt
    rw [Option.getD_none, roundUp_lastMoment]
    obtain ⟨hupper, hlower⟩ := over_bounds (by decide) hover
    exact ⟨hupper, .inr ⟨hlower, rfl⟩⟩

/-- The deadline is kept: the row comes back when it is over, or at the end of a calendar that has no
whole second from the deadline on. -/
def Asked.Kept (asked : Asked) (handled now : Moment) : Prop :=
  asked.deadline handled ≤ now.val ∨
    ((horizon - 1 : ℕ) : ℤ) * 1000000 < asked.deadline handled ∧
      (horizon - 1) * 1000000 ≤ now.val

/-- The exact deadline is not after the one that `_backoff` computes from a delay that was read
before. -/
theorem deadline_le (hreads : ReadsDates parsedate httpDate) (h : Asks httpDate value asked)
    {parsed handled : Moment} (hclock : parsed ≤ handled) {delay : ℕ}
    (hdelay : parseRetryAfter parsedate (some value) parsed = some delay) :
    asked.deadline handled ≤ (handled.val + delay : ℕ) := by
  obtain ⟨d, hd, hsum⟩ := parseRetryAfter_asks hreads h parsed
  have hsame : d = delay := Option.some.inj (hd.symm.trans hdelay)
  have hle : parsed.val ≤ handled.val := hclock
  rw [hsame] at hsum
  cases asked with
  | seconds n =>
    simp only [Asked.deadline] at hsum ⊢
    push_cast at hsum ⊢
    omega
  | date t =>
    simp only [Asked.deadline] at hsum ⊢
    push_cast at hsum ⊢
    omega

theorem isDue_iff {now deadline : Time} :
    isDue now .pending (some deadline) = true ↔ deadline ≤ now := by
  unfold isDue
  rw [Bool.and_eq_true, decide_eq_true_eq, decide_eq_true_eq]
  exact and_iff_right rfl

/-- A row whose deadline is the persisted one is due only when the exact deadline is kept. -/
theorem kept_of_due (hreads : ReadsDates parsedate httpDate) (h : Asks httpDate value asked)
    {parsed handled now : Moment} (hclock : parsed ≤ handled) {delay : ℕ}
    (hdelay : parseRetryAfter parsedate (some value) parsed = some delay) {status : SendStatus}
    (hdue : isDue (nowIso now) status (some (iso (persisted handled delay))) = true) :
    asked.Kept handled now := by
  have hle : iso (persisted handled delay) ≤ iso (Moment.second now) :=
    of_decide_eq_true (Bool.and_eq_true_iff.mp hdue).2
  have hsecond : (persisted handled delay).val ≤ now.val / 1000000 := iso_le_iff.mp hle
  have hexact := deadline_le hreads h hclock hdelay
  unfold Asked.Kept
  rcases (persisted_bounds handled delay).2 with hlower | ⟨hover, hceiling⟩
  · left
    omega
  · -- the persisted second is the last one
    rw [hceiling] at hsecond
    have hlast : horizon - 1 ≤ now.val / 1000000 := hsecond
    generalize horizon - 1 = last at *
    rcases le_or_gt (asked.deadline handled) ((last : ℤ) * 1000000) with hwithin | hbeyond
    · left
      omega
    · exact .inr ⟨hbeyond, by omega⟩

/-! ## Writes that handle other rows -/

/-- The keys of both tables. -/
structure Keys (db : Db) : Prop where
  outbound : OutboundKeys db
  receipts : ReceiptKeys db

/-- What is in the tables stays there. -/
structure KeepsRows (db db' : Db) : Prop where
  outbound : ∀ row ∈ db.federationOutbound, row ∈ db'.federationOutbound
  receipts : ∀ row ∈ db.federationReceiptOut, row ∈ db'.federationReceiptOut

/-- A write that succeeds: the worker handles a row or signs a receipt, or a request adds to the
tables; only rows with the properties are handled. -/
inductive Writes (cfg : WorkerConfig) (outbound : OutboundRow → Prop)
    (receipt : ReceiptOutRow → Prop) (db : Db) : Db → Prop
  | sendOutbound {fed : Runtime} {row : OutboundRow} {turn : Turn} (h : outbound row)
      (hkeys : Keys db) : Writes cfg outbound receipt db (guardedOutbound fed cfg db row turn)
  | sendReceipt {fed : Runtime} {row : ReceiptOutRow} {turn : Turn} (h : receipt row)
      (hkeys : Keys db) : Writes cfg outbound receipt db (guardedReceipt fed cfg db row turn)
  | sign {fed : Runtime} {row : ReceiptOutRow} {now : Time} {db' : Db} (h : receipt row)
      (hkeys : Keys db) (hsign : signReceipt fed db row now = .ok db') :
      Writes cfg outbound receipt db db'
  | signFails {row : ReceiptOutRow} {cls : Str} {draw : Draw} (h : receipt row)
      (hkeys : Keys db) : Writes cfg outbound receipt db (raisedReceipt cfg db row cls draw)
  | request {db' : Db} (h : KeepsRows db db') : Writes cfg outbound receipt db db'

/-- The writes until an outbound row is handled again. -/
def Elsewhere (cfg : WorkerConfig) (row : OutboundRow) : Db → Db → Prop :=
  Relation.ReflTransGen (Writes cfg (fun r => r.eventId ≠ row.eventId) fun _ => True)

/-- The writes until a receipt is handled again. -/
def ElsewhereReceipt (cfg : WorkerConfig) (row : ReceiptOutRow) : Db → Db → Prop :=
  Relation.ReflTransGen (Writes cfg (fun _ => True) fun r => ¬ SameReceipt r row)

variable {cfg : WorkerConfig} {db db' : Db}

theorem Settles.mem_of_ne {eventId : Str} (h : Settles eventId db db') {r : OutboundRow}
    (hr : r ∈ db.federationOutbound) (hne : r.eventId ≠ eventId) : r ∈ db'.federationOutbound := by
  obtain ⟨f, hrows, hf⟩ := h
  have hsame : f r = r := (hf r hr).2.resolve_right fun hkey => hne hkey.1
  rw [hrows]
  exact List.mem_map.mpr ⟨r, hr, hsame⟩

/-- The worker leaves the other receipts as they are. -/
def Spares (row : ReceiptOutRow) (db db' : Db) : Prop :=
  ∀ r ∈ db.federationReceiptOut, ¬ SameReceipt row r → r ∈ db'.federationReceiptOut

theorem updateReceipt_spares (db : Db) (row : ReceiptOutRow) (f : ReceiptOutRow → ReceiptOutRow) :
    Spares row db (updateReceipt db row f) := by
  intro r hr hne
  exact List.mem_map.mpr ⟨r, hr, if_neg fun h => hne h.1⟩

theorem failReceiptPermanent_spares (hids : (db.federationReceiptOut.map (·.id)).Nodup)
    (fed : Runtime) (row : ReceiptOutRow) (error : Str) (now : Time) :
    Spares row db (failReceiptPermanent fed db row error now) := by
  intro r hr hne
  unfold failReceiptPermanent
  split
  · exact hr
  next found hfound =>
    rw [insertNotification_receipts]
    refine List.mem_map.mpr ⟨r, hr, if_neg fun hid => hne ?_⟩
    have hkey := List.find?_some hfound
    rw [decide_eq_true_eq] at hkey
    rw [List.inj_on_of_nodup_map hids hr (List.mem_of_find?_eq_some hfound) hid]
    exact hkey.1

theorem Spares.congr {row row' : ReceiptOutRow} (hsame : SameReceipt row row')
    (h : Spares row' db db') : Spares row db db' :=
  fun r hr hne => h r hr fun hkey => hne (hsame.trans hkey)

theorem Spares.trans {row : ReceiptOutRow} {db₁ db₂ db₃ : Db} (h : Spares row db₁ db₂)
    (h' : Spares row db₂ db₃) : Spares row db₁ db₃ :=
  fun r hr hne => h' r (h r hr hne) hne

variable {fed : Runtime} {receipt : ReceiptOutRow} {turn : Turn}

theorem applyReceipt_spares (hids : (db.federationReceiptOut.map (·.id)).Nodup)
    {outcome : SendOutcome} {draw : Draw}
    (h : applyReceipt fed cfg db receipt outcome draw = .ok db') : Spares receipt db db' := by
  cases outcome with
  | sent =>
    cases h
    exact updateReceipt_spares _ _ _
  | permanent error =>
    cases h
    exact failReceiptPermanent_spares hids _ _ _ _
  | retry error retryAfter =>
    simp only [applyReceipt] at h
    split at h
    · cases h
    · cases h
      exact updateReceipt_spares _ _ _

theorem sendSigned_spares (hids : (db.federationReceiptOut.map (·.id)).Nodup)
    (h : sendSigned fed cfg db receipt turn = .ok db') : Spares receipt db db' := by
  unfold sendSigned at h
  split at h
  · exact applyReceipt_spares hids h
  · split at h
    · nomatch h
    · split at h
      · nomatch h
      · exact applyReceipt_spares hids h

/-- Signing keeps the ids, the origin of the receipt and the other receipts. -/
theorem signReceipt_spares {now : Time} (h : signReceipt fed db receipt now = .ok db') :
    Spares receipt db db' ∧
      db'.federationReceiptOut.map (·.id) = db.federationReceiptOut.map (·.id) := by
  unfold signReceipt at h
  split at h
  · nomatch h
  · cases h
    refine ⟨updateReceipt_spares _ _ _, ?_⟩
    show (List.map _ (List.map _ _)) = _
    rw [List.map_map]
    refine List.map_congr_left fun r _ => ?_
    show (if _ then _ else _ : ReceiptOutRow).id = r.id
    split_ifs
    · dsimp only
      split <;> rfl
    · rfl

theorem same_freshReceipt (db : Db) (row : ReceiptOutRow) :
    SameReceipt row (freshReceipt db row) := by
  unfold freshReceipt
  cases hfound : db.federationReceiptOut.find? fun r => SameReceipt row r with
  | none => exact .refl row
  | some found =>
    have hkey := List.find?_some hfound
    rw [decide_eq_true_eq] at hkey
    exact hkey

theorem sendReceipt_spares (fed : Runtime) (cfg : WorkerConfig) (receipt : ReceiptOutRow)
    (turn : Turn) (hids : (db.federationReceiptOut.map (·.id)).Nodup) :
    Spares receipt db (sendReceipt fed cfg db receipt turn).1 := by
  rcases sendReceipt_cases fed cfg db receipt turn with ⟨cls, -, -, hsend⟩ | ⟨d, row, hready, hsend⟩
  · rw [hsend]
    exact fun r hr _ => hr
  · obtain ⟨hd, hsame, hspares⟩ : (d.federationReceiptOut.map (·.id)).Nodup ∧
        SameReceipt receipt row ∧ Spares receipt db d := by
      rcases hready with ⟨-, rfl, rfl⟩ | ⟨-, hsign, rfl⟩
      · exact ⟨hids, .refl row, fun r hr _ => hr⟩
      · obtain ⟨hspares, hsameIds⟩ := signReceipt_spares hsign
        exact ⟨hsameIds ▸ hids, same_freshReceipt d receipt, hspares⟩
    rcases hsend with ⟨cls, -, hsend⟩ | ⟨d', hsigned, hsend⟩
    · rw [hsend]
      exact hspares
    · rw [hsend]
      exact hspares.trans ((sendSigned_spares hd hsigned).congr hsame)

theorem raisedReceipt_spares (cls : Str) (draw : Draw) :
    Spares receipt db (raisedReceipt cfg db receipt cls draw) := by
  unfold raisedReceipt
  split
  · exact fun r hr _ => hr
  · exact updateReceipt_spares _ _ _

theorem guardedReceipt_spares (hids : (db.federationReceiptOut.map (·.id)).Nodup) :
    Spares receipt db (guardedReceipt fed cfg db receipt turn) := by
  have hsent := sendReceipt_spares fed cfg receipt turn hids
  unfold guardedReceipt
  split
  next d _ heq =>
    rw [heq] at hsent
    exact hsent
  next d cls heq =>
    rw [heq] at hsent
    exact hsent.trans (raisedReceipt_spares cls turn.guard)

/-! ## Rows that stay -/

/-- An outbound row that is not handled again stays as it is. -/
theorem Elsewhere.mem {row r : OutboundRow} (h : Elsewhere cfg row db db')
    (hr : r ∈ db.federationOutbound) (hevent : r.eventId = row.eventId) :
    r ∈ db'.federationOutbound := by
  induction h with
  | refl => exact hr
  | tail _ hwrite ih =>
    cases hwrite with
    | sendOutbound hother hkeys =>
      refine (guardedOutbound_settles hkeys.outbound.ids _ cfg _ _).mem_of_ne ih ?_
      rw [hevent]
      exact fun heq => hother heq.symm
    | sendReceipt _ hkeys =>
      rw [guardedReceipt_outbound]
      exact ih
    | sign _ _ hsign =>
      unfold signReceipt at hsign
      split at hsign
      · nomatch hsign
      · cases hsign
        exact ih
    | signFails _ _ =>
      unfold raisedReceipt
      split
      · exact ih
      · exact ih
    | request hkeep => exact hkeep.outbound r ih

/-- A receipt that is not handled again stays as it is. -/
theorem ElsewhereReceipt.mem {row r : ReceiptOutRow} (h : ElsewhereReceipt cfg row db db')
    (hr : r ∈ db.federationReceiptOut) (hsame : SameReceipt row r) :
    r ∈ db'.federationReceiptOut := by
  have hne : ∀ other, ¬ SameReceipt other row → ¬ SameReceipt other r :=
    fun other hother hkey => hother (hkey.trans hsame.symm)
  induction h with
  | refl => exact hr
  | tail _ hwrite ih =>
    cases hwrite with
    | sendOutbound _ _ =>
      rw [guardedOutbound_receipts]
      exact ih
    | sendReceipt hother hkeys => exact guardedReceipt_spares hkeys.receipts.ids r ih (hne _ hother)
    | sign hother _ hsign => exact (signReceipt_spares hsign).1 r ih (hne _ hother)
    | signFails hother _ => exact raisedReceipt_spares _ _ r ih (hne _ hother)
    | request hkeep => exact hkeep.receipts r ih

/-! ## The answer 429 -/

/-- The branch of `send_envelope` for the status 429, with its header. -/
def tooManyRequests (parsedate : Str → Option When) (header : Option Str) (now : Moment) : Answer :=
  .ok (.retry (lit "http_429") (parseRetryAfter parsedate header now))

/-- The outbound row that a 429 leaves behind. -/
theorem guardedOutbound_retry (cfg : WorkerConfig) {row : OutboundRow} {peer : PeerRecord} {delay : ℕ}
    (hrow : row ∈ db.federationOutbound) (hpending : row.status = .pending)
    (hpeer : fed.registry.receiptsPeer row.targetFamily = some peer) {error : Str}
    (hanswer : turn.answer = .ok (.retry error (some delay))) :
    ∃ r ∈ (guardedOutbound fed cfg db row turn).federationOutbound, r.eventId = row.eventId ∧
      r.status = .pending ∧ r.nextRetryAt = some (iso (persisted turn.send.now delay)) := by
  have hsend : sendOutbound fed cfg db row turn =
      .ok (markOutboundRetry db row.eventId (row.attempts + 1)
        (iso (persisted turn.send.now delay)) error (nowIso turn.send.stored)) := by
    unfold sendOutbound
    rw [hpeer, hanswer]
    rfl
  unfold guardedOutbound
  rw [hsend]
  exact ⟨_, List.mem_map.mpr ⟨row, hrow, if_pos ⟨rfl, hpending⟩⟩, rfl, hpending, rfl⟩

theorem sendSigned_retry {peer : PeerRecord} {delay : ℕ} {error : Str} {db₂ : Db}
    (hpeer : fed.registry.receiptsPeer receipt.origin = some peer)
    (hanswer : turn.answer = .ok (.retry error (some delay)))
    (h : sendSigned fed cfg db receipt turn = .ok db₂) :
    db₂ = markReceiptRetry db receipt (receipt.attempts + 1)
      (iso (persisted turn.send.now delay)) error (nowIso turn.send.stored) := by
  unfold sendSigned at h
  rw [hpeer, hanswer] at h
  simp only at h
  split at h
  · nomatch h
  · exact (Except.ok.inj h).symm

theorem markReceiptRetry_mem {r : ReceiptOutRow} (hr : r ∈ db.federationReceiptOut)
    (hsame : SameReceipt receipt r) (hpending : r.status = .pending) (attempts : ℕ)
    (deadline : Time) (error : Str) (now : Time) :
    ∃ r' ∈ (markReceiptRetry db receipt attempts deadline error now).federationReceiptOut,
      SameReceipt receipt r' ∧ r'.nextRetryAt = some deadline :=
  ⟨_, List.mem_map.mpr ⟨r, hr, if_pos ⟨hsame, hpending⟩⟩, hsame, rfl⟩

/-- What signing makes of the receipt, and what is read back. -/
theorem signReceipt_mem (hkeys : ReceiptKeys db) (hrow : receipt ∈ db.federationReceiptOut)
    {now : Time} (h : signReceipt fed db receipt now = .ok db') :
    freshReceipt db' receipt ∈ db'.federationReceiptOut ∧
      (freshReceipt db' receipt).status = receipt.status ∧
      (freshReceipt db' receipt).origin = receipt.origin := by
  unfold signReceipt at h
  split at h
  · nomatch h
  · cases h
    next envelope _ =>
      have hstands : Stands db receipt := ⟨receipt, hrow, .refl receipt, rfl⟩
      obtain ⟨-, -, ⟨s, hs, hsame, -⟩, -, htask⟩ := materializeReceipt_stands hkeys hstands
        (sorted envelope) ((strMember (lit "sig") envelope).getD []) now
      generalize hfresh : freshReceipt _ receipt = fresh at *
      unfold freshReceipt at hfresh
      cases hfound : (materializeReceipt db receipt (sorted envelope)
          ((strMember (lit "sig") envelope).getD []) now).federationReceiptOut.find?
            fun r => SameReceipt receipt r with
      | none => exact absurd (decide_eq_true hsame) (List.find?_eq_none.mp hfound s hs)
      | some found =>
        rw [hfound, Option.getD_some] at hfresh
        have hmem := List.mem_of_find?_eq_some hfound
        have hkey := List.find?_some hfound
        rw [decide_eq_true_eq, hfresh] at hkey
        rw [hfresh] at hmem
        refine ⟨hmem, congrArg Task.status htask, ?_⟩
        -- the row that is read back is the one that was signed
        obtain ⟨old, hold, hnew⟩ := List.mem_map.mp hmem
        have hcopy : SameReceipt old fresh ∧ fresh.origin = old.origin := by
          rw [← hnew]
          split_ifs
          · dsimp only
            split <;> exact ⟨⟨rfl, rfl, rfl⟩, rfl⟩
          · exact ⟨.refl old, rfl⟩
        rw [hcopy.2, hkeys.receipts receipt hrow old hold (hkey.trans hcopy.1.symm)]

/-- The receipt that a 429 leaves behind, when nothing has raised on the way. -/
theorem guardedReceipt_retry (hkeys : ReceiptKeys db) {peer : PeerRecord} {delay : ℕ}
    (hrow : receipt ∈ db.federationReceiptOut) (hpending : receipt.status = .pending)
    (hpeer : fed.registry.receiptsPeer receipt.origin = some peer) {error : Str}
    (hanswer : turn.answer = .ok (.retry error (some delay)))
    (hok : (sendReceipt fed cfg db receipt turn).2 = .ok ()) :
    ∃ r ∈ (guardedReceipt fed cfg db receipt turn).federationReceiptOut,
      SameReceipt receipt r ∧ r.nextRetryAt = some (iso (persisted turn.send.now delay)) := by
  rcases sendReceipt_cases fed cfg db receipt turn with ⟨cls, -, -, hsend⟩ | ⟨d, row, hready, hsend⟩
  · rw [hsend] at hok
    cases hok
  · obtain ⟨hd, hsame, hstatus, horigin⟩ : row ∈ d.federationReceiptOut ∧ SameReceipt receipt row ∧
        row.status = .pending ∧ row.origin = receipt.origin := by
      rcases hready with ⟨-, rfl, rfl⟩ | ⟨-, hsign, rfl⟩
      · exact ⟨hrow, .refl row, hpending, rfl⟩
      · obtain ⟨hfresh, hstatus, horigin⟩ := signReceipt_mem hkeys hrow hsign
        exact ⟨hfresh, same_freshReceipt d receipt, hstatus.trans hpending, horigin⟩
    rcases hsend with ⟨cls, -, hsend⟩ | ⟨d', hsigned, hsend⟩
    · rw [hsend] at hok
      cases hok
    · rw [guardedReceipt_ok hsend]
      rw [← horigin] at hpeer
      rw [sendSigned_retry hpeer hanswer hsigned]
      obtain ⟨r, hr, hkey, hnext⟩ := markReceiptRetry_mem hd (.refl row) hstatus
        (row.attempts + 1) (iso (persisted turn.send.now delay)) error (nowIso turn.send.stored)
      exact ⟨r, hr, hsame.trans hkey, hnext⟩

/-! ## No early send -/

theorem mem_dueOutbound {now : Time} {limit : ℕ} {r : OutboundRow}
    (h : r ∈ dueOutbound db now limit) :
    r ∈ db.federationOutbound ∧ isDue now r.status r.nextRetryAt = true :=
  List.mem_filter.mp ((List.perm_insertionSort _ _).mem_iff.mp (List.mem_of_mem_take h))

theorem mem_dueReceipts {now : Time} {limit : ℕ} {r : ReceiptOutRow}
    (h : r ∈ dueReceipts db now limit) :
    r ∈ db.federationReceiptOut ∧ isDue now r.status r.nextRetryAt = true :=
  List.mem_filter.mp ((List.perm_insertionSort _ _).mem_iff.mp (List.mem_of_mem_take h))

/-- A table that fits into the limit is read whole. -/
theorem dueOutbound_of_small {now : Time} {limit : ℕ} {r : OutboundRow}
    (hr : r ∈ db.federationOutbound) (hdue : isDue now r.status r.nextRetryAt = true)
    (hsmall : db.federationOutbound.length ≤ limit) : r ∈ dueOutbound db now limit := by
  unfold dueOutbound
  rw [List.take_of_length_le]
  · exact (List.perm_insertionSort _ _).mem_iff.mpr (List.mem_filter.mpr ⟨hr, hdue⟩)
  · rw [List.length_insertionSort]
    exact (List.length_filter_le _ _).trans hsmall

/-- A Retry-After is never undercut. A row whose handling ends with a 429 and a valid header comes
back only when the exact deadline is over, or at the end of a calendar that has no whole second from
the deadline on; the persisted deadline is less than a second later, and the texts of the calendar
are ordered like its seconds. -/
theorem retry_after_kept (parsedate : Str → Option When) (httpDate : Str → ℤ → Prop)
    (hreads : ReadsDates parsedate httpDate) (value : Str) (asked : Asked)
    (hasks : Asks httpDate value asked) (cfg : WorkerConfig) (parsed : Moment) :
    (∀ (fed : Runtime) (db : Db) (row : OutboundRow) (peer : PeerRecord) (turn : Turn),
      row ∈ db.federationOutbound → row.status = .pending →
      fed.registry.receiptsPeer row.targetFamily = some peer →
      turn.answer = tooManyRequests parsedate (some value) parsed → parsed ≤ turn.send.now →
      ∀ later, Elsewhere cfg row (guardedOutbound fed cfg db row turn) later →
        OutboundKeys later →
        ∀ now limit, ∀ r ∈ dueOutbound later (nowIso now) limit, r.eventId = row.eventId →
          asked.Kept turn.send.now now) ∧
    (∀ (fed : Runtime) (db : Db) (row : ReceiptOutRow) (peer : PeerRecord) (turn : Turn),
      ReceiptKeys db → row ∈ db.federationReceiptOut → row.status = .pending →
      fed.registry.receiptsPeer row.origin = some peer →
      turn.answer = tooManyRequests parsedate (some value) parsed → parsed ≤ turn.send.now →
      (sendReceipt fed cfg db row turn).2 = .ok () →
      ∀ later, ElsewhereReceipt cfg row (guardedReceipt fed cfg db row turn) later →
        ReceiptKeys later →
        ∀ now limit, ∀ r ∈ dueReceipts later (nowIso now) limit, SameReceipt row r →
          asked.Kept turn.send.now now) ∧
    (∀ handled : Moment, parsed ≤ handled → ∀ attempts jitter, ∃ delay, ∃ deadline : Instant,
      parseRetryAfter parsedate (some value) parsed = some delay ∧
      backoff cfg attempts (some delay) jitter handled = some (iso deadline) ∧
      deadline.val * 1000000 < handled.val + delay + 1000000 ∧
      (parsed = handled →
        ((handled.val + delay : ℕ) : ℤ) = max (asked.deadline handled) handled.val)) ∧
    ∀ t u : Instant, (iso t ≤ iso u ↔ t ≤ u) ∧ (iso t < iso u ↔ t < u) := by
  obtain ⟨delay, hdelay, hsum⟩ := parseRetryAfter_asks hreads hasks parsed
  refine ⟨?_, ?_, ?_, fun t u => ⟨iso_le_iff, iso_lt_iff⟩⟩
  · intro fed db row peer turn hrow hpending hpeer hanswer hclock later hlater hkeys now limit r hr
      hevent
    rw [tooManyRequests, hdelay] at hanswer
    obtain ⟨written, hwritten, hsame, -, hnext⟩ :=
      guardedOutbound_retry cfg hrow hpending hpeer hanswer
    obtain ⟨hmem, hdue⟩ := mem_dueOutbound hr
    -- the row that comes back is the one that was written
    have hstays := hlater.mem hwritten hsame
    have heq : r = written := List.inj_on_of_nodup_map hkeys.eventIds hmem hstays
      (hevent.trans hsame.symm)
    rw [heq, hnext] at hdue
    exact kept_of_due hreads hasks hclock hdelay hdue
  · intro fed db row peer turn hkeysBefore hrow hpending hpeer hanswer hclock hok later hlater hkeys
      now limit r hr hsame
    rw [tooManyRequests, hdelay] at hanswer
    obtain ⟨written, hwritten, hsame', hnext⟩ :=
      guardedReceipt_retry hkeysBefore hrow hpending hpeer hanswer hok
    obtain ⟨hmem, hdue⟩ := mem_dueReceipts hr
    have hstays := hlater.mem hwritten hsame'
    have heq : r = written := hkeys.receipts written hstays r hmem (hsame'.symm.trans hsame)
    rw [heq, hnext] at hdue
    exact kept_of_due hreads hasks hclock hdelay hdue
  · intro handled hclock attempts jitter
    refine ⟨delay, persisted handled delay, hdelay, backoff_retryAfter _ _ _ _ _,
      (persisted_bounds handled delay).1, ?_⟩
    rintro rfl
    exact hsum

/-- Half a second before the last second of the calendar. -/
def nearEnd : Moment := ⟨(horizon - 1) * 1000000 - 500000, by decide⟩

/-- A fifth of a second into the last second. -/
def lastFifth : Moment := ⟨(horizon - 1) * 1000000 + 200000, by decide⟩

/-- A peer asks for one second more, half a second before the last one. -/
def endTurn : Turn :=
  ⟨tooManyRequests (fun _ => none) (some (lit "1")) nearEnd, nearEnd, ⟨0, nearEnd, nearEnd⟩,
    ⟨0, nearEnd, nearEnd⟩⟩

theorem asks_one (httpDate : Str → ℤ → Prop) : Asks httpDate (lit "1") (.seconds 1) :=
  .seconds (by decide)

/-- A header of one second is kept by the row of the outbox. -/
theorem retry_after_kept_one : queuedRow 1 ∈ (outboxOf 1).federationOutbound ∧
    ∀ now, ∀ r ∈ dueOutbound
      (guardedOutbound fedAC plainConfig (outboxOf 1) (queuedRow 1) endTurn) (nowIso now) pageSize,
    r.eventId = (queuedRow 1).eventId → (Asked.seconds 1).Kept nearEnd now := by
  have hrow : queuedRow 1 ∈ (outboxOf 1).federationOutbound := List.mem_singleton_self _
  refine ⟨hrow, fun now r hr hevent => ?_⟩
  have hkeys := (outboxKeys 1).settle
    (guardedOutbound_settles (outboxKeys 1).ids fedAC plainConfig (queuedRow 1) endTurn)
  exact (retry_after_kept (fun _ => none) (fun _ _ => False) (fun _ _ h => h.elim) (lit "1")
    (.seconds 1) (asks_one _) plainConfig nearEnd).1 fedAC (outboxOf 1) (queuedRow 1) peerB endTurn
    hrow rfl (by decide) rfl le_rfl _ .refl hkeys now pageSize r hr hevent

/-- A deadline in the last second of the calendar has no second of its own: the row comes back before
it, within the year 9999. -/
theorem last_second_undercut : ∃ r ∈ dueOutbound
      (guardedOutbound fedAC plainConfig (outboxOf 1) (queuedRow 1) endTurn) (nowIso lastFifth)
      pageSize,
    r.eventId = (queuedRow 1).eventId ∧
      (lastFifth.val : ℤ) < (Asked.seconds 1).deadline nearEnd ∧
      (Asked.seconds 1).deadline nearEnd < horizon * 1000000 := by
  have hrow : queuedRow 1 ∈ (outboxOf 1).federationOutbound := List.mem_singleton_self _
  have hpeer : fedAC.registry.receiptsPeer (queuedRow 1).targetFamily = some peerB := by decide
  have hanswer : endTurn.answer = .ok (.retry (lit "http_429") (some 1000000)) := rfl
  obtain ⟨r, hr, hevent, hpending, hnext⟩ :=
    guardedOutbound_retry plainConfig hrow rfl hpeer hanswer
  have hpersisted : persisted nearEnd 1000000 = ceiling := by decide +kernel
  have hsecond : Moment.second lastFifth = ceiling := by decide +kernel
  have hdue : isDue (nowIso lastFifth) r.status r.nextRetryAt = true := by
    have hreached : persisted endTurn.send.now 1000000 ≤ Moment.second lastFifth :=
      (hpersisted.trans hsecond.symm).le
    rw [hnext, hpending, isDue_iff]
    exact iso_le_iff.mpr hreached
  have hlength : (guardedOutbound fedAC plainConfig (outboxOf 1) (queuedRow 1)
      endTurn).federationOutbound.length ≤ pageSize := by
    obtain ⟨f, hrows, -⟩ :=
      guardedOutbound_settles (outboxKeys 1).ids fedAC plainConfig (queuedRow 1) endTurn
    rw [hrows, List.length_map]
    decide
  exact ⟨r, dueOutbound_of_small hr hdue hlength, hevent, by decide, by decide⟩

end Federation
end ATalk
