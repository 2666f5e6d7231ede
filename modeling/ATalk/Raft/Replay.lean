import ATalk.Raft.Ledger
import Mathlib.Logic.Relation
import Mathlib.Data.List.Perm.Basic

/-!
# A request that is sent twice

When the answer to a committed request is lost, the client sends the same statement list to the
next endpoint, possibly after other requests committed. The copy goes unnoticed when it leaves
the ledger it finds as it is and the caller gets the result of the first execution. Inserts with
no guard never do; the others do as long as what the first execution wrote still stands.

* `Extends` : what no request ever takes back;
* `Invisible` : the copy goes unnoticed;
* `Unnoticed` : when it does, operation by operation;
* `replay_invisible_iff` : the two agree in every run.
-/

namespace ATalk
namespace Raft

open Text Python Sqlite ATalk.Core Checks Transition

variable {c : Cluster} {db db' db'' : Db}

/-! ## What requests never take back -/

/-- Events and audit rows are appended; peers, tokens and acknowledgements keep their keys. -/
structure Extends (db db' : Db) : Prop where
  events : db.events <+: db'.events
  auditLog : db.auditLog <+: db'.auditLog
  peers : ∀ peerId, hasPeer db peerId = true → hasPeer db' peerId = true
  tokens : ∀ digest tokenId, tokenTaken db digest tokenId = true →
    tokenTaken db' digest tokenId = true
  acks : ∀ eventId agentId ackType, hasAck db eventId agentId ackType = true →
    hasAck db' eventId agentId ackType = true

theorem Extends.refl (db : Db) : Extends db db where
  events := List.prefix_rfl
  auditLog := List.prefix_rfl
  peers _ h := h
  tokens _ _ h := h
  acks _ _ _ h := h

theorem Extends.trans (h : Extends db db') (h' : Extends db' db'') : Extends db db'' where
  events := h.events.trans h'.events
  auditLog := h.auditLog.trans h'.auditLog
  peers p hp := h'.peers p (h.peers p hp)
  tokens d t ht := h'.tokens d t (h.tokens d t ht)
  acks e a t ht := h'.acks e a t (h.acks e a t ht)

theorem extends_tokens {f : TokenRow → TokenRow}
    (hf : ∀ row, (f row).tokenHash = row.tokenHash ∧ (f row).tokenId = row.tokenId) :
    Extends db { db with peerTokens := db.peerTokens.map f } :=
  { Extends.refl db with
    tokens := fun digest tokenId h => by
      obtain ⟨row, hrow, hkey⟩ := List.any_eq_true.mp h
      refine List.any_eq_true.mpr ⟨f row, List.mem_map_of_mem hrow, ?_⟩
      rw [(hf row).1, (hf row).2]
      exact hkey }

theorem extends_peers {f : PeerRow → PeerRow} (hf : ∀ row, (f row).peerId = row.peerId) :
    Extends db { db with peers := db.peers.map f } :=
  { Extends.refl db with
    peers := fun peerId h => by
      obtain ⟨row, hrow, hkey⟩ := List.any_eq_true.mp h
      refine List.any_eq_true.mpr ⟨f row, List.mem_map_of_mem hrow, ?_⟩
      rw [hf row]
      exact hkey }

theorem extends_upsertPeer (peerId digest : Str) (role platform endpoint : Option Str)
    (deliveryClass : Str) (ackTimeoutSec : ℤ) (now : Time) :
    Extends db
      (upsertPeer db peerId digest role platform endpoint deliveryClass ackTimeoutSec now) := by
  unfold upsertPeer
  split_ifs
  · refine extends_peers fun row => ?_
    split_ifs <;> rfl
  · exact { Extends.refl db with
      peers := fun p h => by
        obtain ⟨row, hrow, hkey⟩ := List.any_eq_true.mp h
        exact List.any_eq_true.mpr ⟨row, List.mem_append_left _ hrow, hkey⟩ }

theorem extends_upsertAck (eventId agentId : Str) (ackType : AckType) (now : Time) (detail : Val) :
    Extends db (upsertAck db eventId agentId ackType now detail) := by
  refine { Extends.refl db with acks := fun e a t h => ?_ }
  obtain ⟨row, hrow, hkey⟩ := List.any_eq_true.mp h
  by_cases hhas : hasAck db eventId agentId ackType = true
  · rw [upsertAck, if_pos hhas]
    refine List.any_eq_true.mpr ⟨_, List.mem_map_of_mem hrow, ?_⟩
    split_ifs <;> exact hkey
  · rw [upsertAck, if_neg hhas]
    exact List.any_eq_true.mpr ⟨row, List.mem_append_left _ hrow, hkey⟩

theorem extends_insertOrIgnore (v : EventValues) (seq : SqlVal) :
    Extends db (insertOrIgnore db v seq) := by
  unfold insertOrIgnore
  split_ifs
  · exact .refl db
  · exact { Extends.refl db with events := List.prefix_append _ _ }

theorem extends_insertAudit (values : AuditValues) : Extends db (insertAudit db values) :=
  { Extends.refl db with auditLog := List.prefix_append _ _ }

theorem extends_upsertCounter (source : Str) (init : SqlVal) (f : SqlVal → SqlVal) :
    Extends db (upsertCounter db source init f) := ⟨List.prefix_rfl, List.prefix_rfl, fun _ h => h,
  fun _ _ h => h, fun _ _ _ h => h⟩

/-- One statement. -/
theorem exec_extends {s : Stmt} {id : Option ℕ} (h : exec c db s = .ok (db', id)) :
    Extends db db' := by
  cases s with
  | upsertPeer =>
    cases h
    exact extends_upsertPeer ..
  | insertToken orIgnore peerId digest tokenId deviceLabel scope now =>
    simp only [exec] at h
    split_ifs at h
    · cases h
      exact .refl _
    · cases h
      exact { Extends.refl db with
        tokens := fun d t h => by
          obtain ⟨row, hrow, hkey⟩ := List.any_eq_true.mp h
          exact List.any_eq_true.mpr ⟨row, List.mem_append_left _ hrow, hkey⟩ }
  | revokeOthers | graceTokens | revokeToken =>
    cases h
    refine extends_tokens fun row => ?_
    split_ifs <;> exact ⟨rfl, rfl⟩
  | setPeerToken =>
    cases h
    refine extends_peers fun row => ?_
    split_ifs <;> rfl
  | insertGrant | insertAclTarget =>
    simp only [exec] at h
    split_ifs at h
    cases h
    exact ⟨List.prefix_rfl, List.prefix_rfl, fun _ h => h, fun _ _ h => h, fun _ _ _ h => h⟩
  | upsertAcl =>
    simp only [exec] at h
    split_ifs at h
    cases h
    exact ⟨List.prefix_rfl, List.prefix_rfl, fun _ h => h, fun _ _ h => h, fun _ _ _ h => h⟩
  | revokeGrant | deleteAclTargets | deleteAcl =>
    cases h
    exact ⟨List.prefix_rfl, List.prefix_rfl, fun _ h => h, fun _ _ h => h, fun _ _ _ h => h⟩
  | insertAudit =>
    cases h
    exact extends_insertAudit _
  | upsertAck =>
    simp only [exec] at h
    split_ifs at h
    cases h
    exact extends_upsertAck ..
  | bumpCounter | raiseCounter =>
    simp only [exec] at h
    split_ifs at h
    · cases h
      exact extends_upsertCounter ..
    · cases h
      exact .refl _
  | insertCounted values guard =>
    simp only [exec] at h
    split at h
    · cases h
      split_ifs
      · exact extends_insertOrIgnore _ _
      · exact .refl _
    · cases h
      exact .refl _
  | insertNumbered values seq guard =>
    cases h
    split_ifs
    · exact extends_insertOrIgnore _ _
    · exact .refl _
  | acceptCommand =>
    simp only [exec] at h
    split_ifs at h
    · cases h
      exact extends_insertAudit _
    · cases h
      exact .refl _

theorem execAll_extends {ss : List Stmt} {ids : List (Option ℕ)}
    (h : execAll c db ss = .ok (db', ids)) : Extends db db' := by
  induction ss generalizing db ids with
  | nil =>
    cases h
    exact .refl _
  | cons s ss ih =>
    obtain ⟨db₁, id, ids', hs, hrest, -⟩ := execAll_cons h
    exact (exec_extends hs).trans (ih hrest)

/-- A committed request. -/
def Commit (c : Cluster) (db db' : Db) : Prop := ∃ op, (cluster c).step db op db'

theorem commits_extend (h : Relation.ReflTransGen (Commit c) db db') : Extends db db' := by
  induction h with
  | refl => exact .refl _
  | tail _ hstep ih =>
    obtain ⟨op, ids, hexec⟩ := hstep
    exact ih.trans (execAll_extends hexec)

theorem commits_sound (hdb : Sound db) (h : Relation.ReflTransGen (Commit c) db db') :
    Sound db' := by
  induction h with
  | refl => exact hdb
  | tail _ hstep ih =>
    obtain ⟨op, hstep⟩ := hstep
    exact ih.step hstep

/-- An event keeps its row. -/
theorem Extends.findEvent {eventId : Str} {row : EventRow} (h : Extends db db')
    (hrow : findEvent db (some eventId) = some row) : findEvent db' (some eventId) = some row := by
  obtain ⟨rest, hrest⟩ := h.events
  unfold Core.findEvent at hrow ⊢
  rw [← hrest, List.find?_append, hrow]
  rfl

theorem Extends.hasEvent {eventId : Str} (h : Extends db db')
    (hev : hasEvent db eventId = true) : hasEvent db' eventId = true := by
  obtain ⟨row, hrow, hid⟩ := hasEvent_iff.mp hev
  exact hasEvent_iff.mpr ⟨row, h.events.subset hrow, hid⟩

theorem Extends.hasAccepted {eventId : Str} (h : Extends db db')
    (hacc : hasAccepted db eventId = true) : hasAccepted db' eventId = true := by
  obtain ⟨row, hrow, hkey⟩ := List.any_eq_true.mp hacc
  exact List.any_eq_true.mpr ⟨row, h.auditLog.subset hrow, hkey⟩

theorem Extends.peerKey {peerId : Str} (h : Extends db db') (hk : peerKey c db peerId = true) :
    peerKey c db' peerId = true := by
  unfold Raft.peerKey at hk ⊢
  rw [Bool.or_eq_true] at hk ⊢
  exact hk.imp id (h.peers peerId)

/-! ## Unnoticed copies -/

/-- The event of a request as its caller reads it back. -/
def readBack (db : Db) (v : EventValues) : Except Exn (Option Event) :=
  match findEvent db (some v.eventId) with
  | none => .ok none
  | some row => do
    return some (← verifyEventIdentity (← rowToEvent row) v.source v.target v.type)

/-- What the caller of a request gets besides what it knew before. -/
inductive Result where
  | nothing
  | grantId (id : Option ℕ)
  | event (event : Except Exn (Option Event))

def Op.result (op : Op) (db : Db) (ids : List (Option ℕ)) : Result :=
  match op with
  | .addGrant .. => .grantId ids.head?.join
  | .message v _ => .event (readBack db v)
  | .command v .. => .event (readBack db v)
  | _ => .nothing

/-- The same contents; the target lists are sets of rows. -/
structure Same (db db' : Db) : Prop where
  targets : db.peerTargetAclTargets.Perm db'.peerTargetAclTargets
  rest : { db with peerTargetAclTargets := db'.peerTargetAclTargets } = db'

/-- A copy that arrives at `db₂` leaves it as it is, and its caller gets the first result. -/
def Invisible (c : Cluster) (op : Op) (db₁ : Db) (ids₁ : List (Option ℕ)) (db₂ : Db) : Prop :=
  ∃ db₃ ids₃, execAll c db₂ op.statements = .ok (db₃, ids₃) ∧ Same db₂ db₃ ∧
    op.result db₃ ids₃ = op.result db₁ ids₁

/-- The sequence number the event of a request gets. -/
def assigned (c : Cluster) (db : Db) (v : EventValues) : Option Number → SqlVal
  | none => nextValue c.env db v.source
  | some t => integerColumn c.env.engine t.1

/-- The id has its event after the request: it had one, or the guard lets the row in and its
sequence number is free. -/
def Lands (c : Cluster) (db : Db) (v : EventValues) (seq : Option Number) (g : Guard) : Prop :=
  hasEvent db v.eventId = true ∨
    g.holds db = true ∧ slotTaken db v.source (assigned c db v seq) = false

/-- A new event does not get in, and no counter moves: the guard refuses it, or its sequence
number is taken and the counter it would move stays where it is. -/
def Idle (c : Cluster) (db : Db) (v : EventValues) (seq : Option Number) (g : Guard) : Prop :=
  g.holds db = false ∨
    slotTaken db v.source (assigned c db v seq) = true ∧
      (seq = none → counterValue db v.source = some (assigned c db v seq))

/-- The event was there after the first execution, or neither execution inserts it. -/
def Settled (c : Cluster) (db db₂ : Db) (v : EventValues) (seq : Option Number) (g : Guard) : Prop :=
  Lands c db v seq g ∨ hasEvent db₂ v.eventId = false ∧ Idle c db₂ v seq g

/-- When the copy of a request that was first executed on `db` goes unnoticed at `db₂`. -/
def Unnoticed (c : Cluster) (db db₂ : Db) : Op → Prop
  | .addPeer peerId digest _ role platform endpoint deliveryClass ackTimeoutSec _ =>
    (∀ row ∈ db₂.peers, row.peerId = peerId →
      row.tokenHash = some digest ∧ row.role = role ∧ row.platform = platform ∧
        row.endpoint = endpoint ∧ row.deliveryClass = deliveryClass ∧
        row.ackTimeoutSec = ackTimeoutSec ∧ row.revokedAt = none) ∧
      ∀ row ∈ db₂.peerTokens, isOther peerId digest row = false
  | .rotatePeerToken .. => False
  | .addGrant .. => False
  | .revokeGrant now grantId =>
    ∀ row ∈ db₂.peerGrants, row.id = grantId → row.revokedAt = some now
  | .addDeviceToken .. => False
  | .revokeDeviceToken .. => False
  | .setTargetAcl peerId targets now =>
    restricted db₂ peerId = true ∧
      (∀ row ∈ db₂.peerTargetAcl, row.peerId = peerId → row.updatedAt = now) ∧
      (db₂.peerTargetAclTargets.filter (·.peerId = peerId)).Perm
        ((distinct targets).map fun target => ⟨peerId, target, now⟩)
  | .clearTargetAcl peerId =>
    (∀ row ∈ db₂.peerTargetAcl, row.peerId ≠ peerId) ∧
      ∀ row ∈ db₂.peerTargetAclTargets, row.peerId ≠ peerId
  | .ack eventId agentId ackType now detail =>
    ∀ row ∈ db₂.acks, row.eventId = eventId → row.agentId = agentId → row.ackType = ackType →
      row.ackAt = now ∧ row.detail = detail
  | .message v seq => Settled c db db₂ v seq (.acl v.source v.target)
  | .command v seq digest grantId scope operation now =>
    Settled c db db₂ v seq (.command v.source digest now grantId v.target scope operation)
  | .reject .. => False

/-! ## Maps that change nothing -/

theorem map_eq_self_iff {α : Type} {f : α → α} {xs : List α} :
    xs.map f = xs ↔ ∀ x ∈ xs, f x = x := by
  conv_lhs => rw [← List.map_id xs]
  rw [List.map_map]
  exact List.map_inj_left

theorem Same.refl (db : Db) : Same db db := ⟨List.Perm.refl _, rfl⟩

section
variable {db₃ : Db} (h : Same db db₃)
include h

theorem Same.peers : db₃.peers = db.peers := (congrArg Db.peers h.rest).symm
theorem Same.peerTokens : db₃.peerTokens = db.peerTokens := (congrArg Db.peerTokens h.rest).symm
theorem Same.peerGrants : db₃.peerGrants = db.peerGrants := (congrArg Db.peerGrants h.rest).symm
theorem Same.peerTargetAcl : db₃.peerTargetAcl = db.peerTargetAcl :=
  (congrArg Db.peerTargetAcl h.rest).symm
theorem Same.sourceCounters : db₃.sourceCounters = db.sourceCounters :=
  (congrArg Db.sourceCounters h.rest).symm
theorem Same.events : db₃.events = db.events := (congrArg Db.events h.rest).symm
theorem Same.acks : db₃.acks = db.acks := (congrArg Db.acks h.rest).symm
theorem Same.auditLog : db₃.auditLog = db.auditLog := (congrArg Db.auditLog h.rest).symm

end

/-! ## The two statements of an event, once more -/

section
variable {v : EventValues} {seq : Option Number} {g : Guard}

theorem Sound.assigned_ne_null (h : Sound db) : assigned c db v seq ≠ .null := by
  cases seq with
  | none =>
    exact ((h.bump c.env).counted _ _ (counterValue_bump db v.source)).ne_null
  | some t => exact (integerColumn_spec c.env.engine t.2).1.ne_null

/-- The id has its event after the request exactly when the event lands. -/
theorem hasEvent_insert_iff (h : Sound db) {ids : List (Option ℕ)}
    (hexec : execAll c db (insertStatements v (seq.map (·.1)) g) = .ok (db', ids)) :
    hasEvent db' v.eventId = true ↔ Lands c db v seq g := by
  unfold Lands
  by_cases hknown : hasEvent db v.eventId = true
  · rw [execAll_insert_known h hknown] at hexec
    cases hexec
    simp [hknown]
  rw [Bool.not_eq_true] at hknown
  by_cases hg : g.holds db = true
  · have hnull : assigned c db v seq ≠ .null := h.assigned_ne_null
    have hlast : ∀ (rows : List EventRow) (s : SqlVal),
        (rows ++ [eventRow db v s]).any (fun row => decide (row.eventId = v.eventId)) = true := by
      intro rows s
      exact List.any_eq_true.mpr ⟨eventRow db v s, List.mem_append_right _ (List.mem_singleton_self _),
        decide_eq_true rfl⟩
    cases seq with
    | none =>
      rw [Option.map_none, execAll_insert_counted hknown hg] at hexec
      cases hexec
      unfold insertOrIgnore
      have hb : hasEvent (bumpCounter c.env db v.source) v.eventId = false := hknown
      have hsl : slotTaken (bumpCounter c.env db v.source) v.source (nextValue c.env db v.source) =
          slotTaken db v.source (assigned c db v none) := rfl
      rw [hb, hsl]
      by_cases ht : slotTaken db v.source (assigned c db v none) = true
      · rw [if_pos (.inr (.inr ht))]
        simp [hb, hknown, ht]
      · have hfree : ¬ (nextValue c.env db v.source = .null ∨ false = true ∨
            slotTaken db v.source (assigned c db v none) = true) := by
          rintro (h' | h' | h')
          · exact hnull h'
          · exact Bool.noConfusion h'
          · exact ht h'
        rw [if_neg hfree]
        simp only [hg, true_and, Bool.not_eq_true _ |>.mp ht, or_true, iff_true]
        exact hlast _ _
    | some t =>
      rw [Option.map_some, execAll_insert_numbered hknown hg t.2] at hexec
      cases hexec
      have hsl : assigned c db v (some t) = integerColumn c.env.engine t.1 := rfl
      rw [hsl]
      by_cases ht : slotTaken db v.source (integerColumn c.env.engine t.1) = true
      · simp [ht, hknown]
      · simp only [ht, Bool.false_eq_true, if_false, hg, true_and, or_true, iff_true]
        exact hlast _ _
  · rw [Bool.not_eq_true] at hg
    rw [execAll_insert_denied hknown hg] at hexec
    cases hexec
    simp [hknown, hg]

/-- A request that is idle for a new event changes nothing. -/
theorem execAll_insert_idle (h : Sound db) (hfresh : hasEvent db v.eventId = false)
    (hidle : Idle c db v seq g) :
    execAll c db (insertStatements v (seq.map (·.1)) g) = .ok (db, [none, none]) := by
  by_cases hg : g.holds db = true
  · have hidle' := hidle.resolve_left (by rw [hg]; exact Bool.noConfusion)
    cases seq with
    | none =>
      rw [Option.map_none, execAll_insert_counted hfresh hg]
      have hb : bumpCounter c.env db v.source = db := by
        have hs := hidle'.2 rfl
        refine upsertCounter_eq_self h.sources hs ?_
        have hnext := counterValue_bump (c := c) db v.source
        rw [bumpCounter, counterValue_upsert, if_pos rfl, hs] at hnext
        exact Option.some.inj hnext
      rw [hb, insertOrIgnore, if_pos (.inr (.inr hidle'.1))]
    | some t =>
      rw [Option.map_some, execAll_insert_numbered hfresh hg t.2,
        if_pos (show slotTaken db v.source (integerColumn c.env.engine t.1) = true from hidle'.1)]
  · exact execAll_insert_denied hfresh (by simpa using hg) _

/-- A request that is not idle for a new event changes the events or the counters. -/
theorem insert_not_idle (h : Sound db) (hfresh : hasEvent db v.eventId = false)
    {ids : List (Option ℕ)}
    (hexec : execAll c db (insertStatements v (seq.map (·.1)) g) = .ok (db', ids))
    (hev : db'.events = db.events) (hcnt : db'.sourceCounters = db.sourceCounters) :
    Idle c db v seq g := by
  by_contra hidle
  unfold Idle at hidle
  rw [not_or, Bool.not_eq_false, not_and] at hidle
  obtain ⟨hg, hidle⟩ := hidle
  have hland : ¬ Lands c db v seq g := by
    rw [← hasEvent_insert_iff h hexec, hasEvent, hev]
    exact Bool.eq_false_iff.mp hfresh
  have htaken : slotTaken db v.source (assigned c db v seq) = true := by
    by_contra hfree
    exact hland (.inr ⟨hg, by simpa using hfree⟩)
  have hcount := hidle htaken
  rw [Classical.not_imp] at hcount
  obtain ⟨rfl, hne⟩ := hcount
  rw [Option.map_none, execAll_insert_counted hfresh hg] at hexec
  cases hexec
  rw [insertOrIgnore, if_pos (.inr (.inr htaken))] at hcnt
  refine hne ?_
  have hb := counterValue_bump (c := c) db v.source
  rw [counterValue, findCounter, hcnt] at hb
  exact hb

end

/-! ## Operation by operation -/

section
variable {db₁ db₂ : Db} {ids₁ : List (Option ℕ)}

theorem execAll_of_exec {s : Stmt} {ss : List Stmt} {id : Option ℕ} {ids : List (Option ℕ)}
    (h : exec c db s = .ok (db', id)) (hrest : execAll c db' ss = .ok (db'', ids)) :
    execAll c db (s :: ss) = .ok (db'', id :: ids) := by
  rw [execAll, h]
  simp only [hrest]

/-- A copy that succeeds is invisible when it leaves the ledger and gives the result it gave. -/
theorem invisible_of_execAll {op : Op} {db₃ : Db} {ids₃ : List (Option ℕ)}
    (h : execAll c db₂ op.statements = .ok (db₃, ids₃))
    (hresult : op.result db₃ ids₃ = op.result db₁ ids₁) :
    Invisible c op db₁ ids₁ db₂ ↔ Same db₂ db₃ := by
  constructor
  · rintro ⟨d, i, hexec, hsame, -⟩
    rw [h] at hexec
    cases hexec
    exact hsame
  · exact fun hsame => ⟨db₃, ids₃, h, hsame, hresult⟩

theorem hasPeer_upsertPeer (peerId digest : Str) (role platform endpoint : Option Str)
    (deliveryClass : Str) (ackTimeoutSec : ℤ) (now : Time) :
    hasPeer (upsertPeer db peerId digest role platform endpoint deliveryClass ackTimeoutSec now)
      peerId = true := by
  unfold upsertPeer
  by_cases h : hasPeer db peerId = true
  · rw [if_pos h]
    obtain ⟨row, hrow, hkey⟩ := List.any_eq_true.mp h
    refine List.any_eq_true.mpr ⟨_, List.mem_map_of_mem hrow, ?_⟩
    split_ifs <;> exact hkey
  · rw [if_neg h]
    exact List.any_eq_true.mpr ⟨_, List.mem_append_right _ (List.mem_singleton_self _),
      decide_eq_true rfl⟩

/-- A token that was inserted, or left out for a key that was taken. -/
theorem tokenTaken_insertToken {orIgnore : Bool} {peerId digest tokenId deviceLabel scope : Str}
    {now : Time} {id : Option ℕ}
    (h : exec c db (.insertToken orIgnore peerId digest tokenId deviceLabel scope now) =
      .ok (db', id)) : tokenTaken db' digest tokenId = true := by
  simp only [exec] at h
  split_ifs at h with htaken
  · cases h
    exact htaken
  · cases h
    exact List.any_eq_true.mpr ⟨_, List.mem_append_right _ (List.mem_singleton_self _),
      by simp [tokenRow]⟩

theorem provision_eq_self_iff {digest : Str} {role platform endpoint : Option Str}
    {deliveryClass : Str} {ackTimeoutSec : ℤ} {row : PeerRow} :
    provision digest role platform endpoint deliveryClass ackTimeoutSec row = row ↔
      row.tokenHash = some digest ∧ row.role = role ∧ row.platform = platform ∧
        row.endpoint = endpoint ∧ row.deliveryClass = deliveryClass ∧
        row.ackTimeoutSec = ackTimeoutSec ∧ row.revokedAt = none := by
  obtain ⟨_, _, _, _, _, _, _, _, _⟩ := row
  simp only [provision, PeerRow.mk.injEq, true_and, eq_comm]

theorem revoke_eq_self_iff {peerId digest : Str} {now : Time} {row : TokenRow} :
    (if isOther peerId digest row then { row with revokedAt := some now } else row) = row ↔
      isOther peerId digest row = false := by
  rw [ite_eq_right_iff, Bool.eq_false_iff]
  refine imp_congr_right fun hother => iff_false_intro fun hrow => ?_
  have hlive : row.revokedAt = none := by
    simp only [isOther, Bool.and_eq_true, decide_eq_true_eq] at hother
    exact hother.1.2
  have hrev : some now = row.revokedAt := congrArg TokenRow.revokedAt hrow
  rw [hlive] at hrev
  cases hrev

theorem invisible_addPeer {peerId digest tokenId : Str} {role platform endpoint : Option Str}
    {deliveryClass : Str} {ackTimeoutSec : ℤ} {now : Time}
    (hexec : execAll c db (addPeer peerId digest tokenId role platform endpoint deliveryClass
      ackTimeoutSec now) = .ok (db₁, ids₁)) (hext : Extends db₁ db₂) :
    Invisible c (.addPeer peerId digest tokenId role platform endpoint deliveryClass ackTimeoutSec
        now) db₁ ids₁ db₂ ↔
      Unnoticed c db db₂ (.addPeer peerId digest tokenId role platform endpoint deliveryClass
        ackTimeoutSec now) := by
  obtain ⟨d₁, _, _, h₁, hrest, -⟩ := execAll_cons hexec
  obtain ⟨d₂, _, _, h₂, hrest', -⟩ := execAll_cons hrest
  have hpeer : hasPeer db₂ peerId = true := by
    cases h₁
    exact hext.peers _ ((execAll_extends hrest).peers _ (hasPeer_upsertPeer ..))
  have htoken : tokenTaken db₂ digest tokenId = true :=
    hext.tokens _ _ ((execAll_extends hrest').tokens _ _ (tokenTaken_insertToken h₂))
  let d := upsertPeer db₂ peerId digest role platform endpoint deliveryClass ackTimeoutSec now
  have hinsert : exec c d (.insertToken true peerId digest tokenId (lit "primary") (lit "full")
      now) = .ok (d, none) := by
    simp only [exec]
    rw [if_pos (show tokenTaken d digest tokenId = true from htoken)]
    rfl
  have hcopy : execAll c db₂ (addPeer peerId digest tokenId role platform endpoint deliveryClass
      ackTimeoutSec now) = .ok ({ d with
        peerTokens := db₂.peerTokens.map fun row =>
          if isOther peerId digest row then { row with revokedAt := some now } else row },
        [none, none, none]) :=
    execAll_of_exec rfl (execAll_of_exec hinsert rfl)
  refine (invisible_of_execAll hcopy ?_).trans ?_
  · rfl
  have hpeers : d.peers = db₂.peers.map fun row =>
      if row.peerId = peerId then
        provision digest role platform endpoint deliveryClass ackTimeoutSec row
      else row := if_pos hpeer
  have hiff : Unnoticed c db db₂ (.addPeer peerId digest tokenId role platform endpoint
      deliveryClass ackTimeoutSec now) ↔ d.peers = db₂.peers ∧
        (db₂.peerTokens.map fun row => if isOther peerId digest row then
          { row with revokedAt := some now } else row) = db₂.peerTokens := by
    rw [hpeers, map_eq_self_iff, map_eq_self_iff]
    refine and_congr (forall₂_congr fun row _ => ?_) (forall₂_congr fun row _ => ?_)
    · rw [ite_eq_right_iff, provision_eq_self_iff]
    · exact revoke_eq_self_iff.symm
  rw [hiff]
  constructor
  · exact fun h => ⟨h.peers, h.peerTokens⟩
  · rintro ⟨hp, ht⟩
    refine ⟨List.Perm.refl _, ?_⟩
    have hd : d = { db₂ with peers := d.peers } := rfl
    rw [hd, hp]
    exact (congrArg (fun rows => { db₂ with peerTokens := rows }) ht).symm

theorem invisible_revokeGrant {now : Time} {grantId : ℕ} :
    Invisible c (.revokeGrant now grantId) db₁ ids₁ db₂ ↔
      Unnoticed c db db₂ (.revokeGrant now grantId) := by
  have hcopy : execAll c db₂ (revokeGrant now grantId) = .ok ({ db₂ with
      peerGrants := db₂.peerGrants.map fun row =>
        if row.id = grantId then { row with revokedAt := some now } else row }, [none]) := rfl
  refine (invisible_of_execAll hcopy ?_).trans ?_
  · rfl
  have hiff : Unnoticed c db db₂ (.revokeGrant now grantId) ↔ (db₂.peerGrants.map fun row =>
      if row.id = grantId then { row with revokedAt := some now } else row) = db₂.peerGrants := by
    rw [map_eq_self_iff]
    refine forall₂_congr fun row _ => ?_
    rw [ite_eq_right_iff]
    refine imp_congr_right fun _ => ?_
    obtain ⟨_, _, _, _, _, _, _, _⟩ := row
    simp only [GrantRow.mk.injEq, true_and, eq_comm]
  rw [hiff]
  exact ⟨fun h => h.peerGrants, fun h => ⟨List.Perm.refl _, by rw [h]⟩⟩

theorem invisible_clearTargetAcl {peerId : Str} :
    Invisible c (.clearTargetAcl peerId) db₁ ids₁ db₂ ↔
      Unnoticed c db db₂ (.clearTargetAcl peerId) := by
  have hcopy : execAll c db₂ (clearTargetAcl peerId) = .ok ({ db₂ with
      peerTargetAcl := db₂.peerTargetAcl.filter (·.peerId ≠ peerId)
      peerTargetAclTargets := db₂.peerTargetAclTargets.filter (·.peerId ≠ peerId) },
      [none, none]) := rfl
  refine (invisible_of_execAll hcopy ?_).trans ?_
  · rfl
  constructor
  · intro h
    constructor
    · have hacl := h.peerTargetAcl
      rw [List.filter_eq_self] at hacl
      exact fun row hrow => by simpa using hacl row hrow
    · have hlen := h.targets.length_eq
      rw [eq_comm, List.length_filter_eq_length_iff] at hlen
      exact fun row hrow => by simpa using hlen row hrow
  · rintro ⟨hacl, htargets⟩
    have hacl' : db₂.peerTargetAcl.filter (·.peerId ≠ peerId) = db₂.peerTargetAcl :=
      List.filter_eq_self.mpr fun row hrow => by simpa using hacl row hrow
    have htargets' : db₂.peerTargetAclTargets.filter (·.peerId ≠ peerId) =
        db₂.peerTargetAclTargets :=
      List.filter_eq_self.mpr fun row hrow => by simpa using htargets row hrow
    rw [hacl', htargets']
    exact .refl db₂

theorem hasAck_upsertAck (eventId agentId : Str) (ackType : AckType) (now : Time) (detail : Val) :
    hasAck (upsertAck db eventId agentId ackType now detail) eventId agentId ackType = true := by
  by_cases h : hasAck db eventId agentId ackType = true
  · exact (extends_upsertAck ..).acks _ _ _ h
  · rw [upsertAck, if_neg h]
    exact List.any_eq_true.mpr ⟨_, List.mem_append_right _ (List.mem_singleton_self _), by simp⟩

theorem invisible_ack {eventId agentId : Str} {ackType : AckType} {now : Time} {detail : Val}
    (hexec : execAll c db (ack eventId agentId ackType now detail) = .ok (db₁, ids₁))
    (hext : Extends db₁ db₂) :
    Invisible c (.ack eventId agentId ackType now detail) db₁ ids₁ db₂ ↔
      Unnoticed c db db₂ (.ack eventId agentId ackType now detail) := by
  obtain ⟨d, _, _, h, hrest, -⟩ := execAll_cons hexec
  cases hrest
  have hext' := (exec_extends h).trans hext
  simp only [exec] at h
  split_ifs at h with hkey
  cases h
  have hkey' : ¬ (c.foreignKeys = true ∧ hasEvent db₂ eventId = false) := fun hn => by
    refine hkey ⟨hn.1, ?_⟩
    by_contra hev
    rw [Bool.not_eq_false] at hev
    have := hext'.hasEvent hev
    rw [hn.2] at this
    cases this
  have hhas : hasAck db₂ eventId agentId ackType = true :=
    hext.acks _ _ _ (hasAck_upsertAck ..)
  have hcopy : execAll c db₂ (ack eventId agentId ackType now detail) =
      .ok (upsertAck db₂ eventId agentId ackType now detail, [none]) := by
    refine execAll_of_exec ?_ rfl
    simp only [exec]
    rw [if_neg hkey']
    rfl
  refine (invisible_of_execAll hcopy ?_).trans ?_
  · rfl
  have hacks : (upsertAck db₂ eventId agentId ackType now detail).acks = db₂.acks.map fun row =>
      if row.eventId = eventId ∧ row.agentId = agentId ∧ row.ackType = ackType then
        { row with ackAt := now, detail := detail }
      else row := if_pos hhas
  have hiff : Unnoticed c db db₂ (.ack eventId agentId ackType now detail) ↔
      (upsertAck db₂ eventId agentId ackType now detail).acks = db₂.acks := by
    rw [hacks, map_eq_self_iff]
    refine forall₂_congr fun row _ => ?_
    rw [ite_eq_right_iff, and_imp, and_imp]
    refine imp_congr_right fun _ => imp_congr_right fun _ => imp_congr_right fun _ => ?_
    obtain ⟨_, _, _, _, _, _⟩ := row
    simp only [AckRow.mk.injEq, true_and, eq_comm]
  rw [hiff]
  refine ⟨fun hs => hs.acks, fun ha => ⟨List.Perm.refl _, ?_⟩⟩
  have hd : upsertAck db₂ eventId agentId ackType now detail =
      { db₂ with acks := (upsertAck db₂ eventId agentId ackType now detail).acks } := rfl
  rw [hd, ha]

/-! ## Target lists -/

theorem distinct_nodup (ts : List Str) : (distinct ts).Nodup := by
  induction ts with
  | nil => exact List.nodup_nil
  | cons t ts ih => exact List.nodup_cons.mpr ⟨by simp, ih.filter _⟩

def targetRows (peerId : Str) (now : Time) (ts : List Str) : List AclTargetRow :=
  ts.map fun target => ⟨peerId, target, now⟩

/-- The rows of a target list, inserted one after the other. -/
theorem execAll_insertAclTargets (c : Cluster) (db : Db) (peerId : Str) (now : Time) (ts : List Str)
    (hts : ts.Nodup) (hfree : ∀ t ∈ ts, listed db peerId t = false)
    (hkey : ∀ t ∈ ts, peerKey c db t = true) :
    ∃ ids, execAll c db (ts.map fun target => .insertAclTarget peerId target now) = .ok ({ db with
      peerTargetAclTargets := db.peerTargetAclTargets ++ targetRows peerId now ts }, ids) := by
  induction ts generalizing db with
  | nil => exact ⟨[], by simp [execAll, targetRows]⟩
  | cons t ts ih =>
    obtain ⟨ht, hts⟩ := List.nodup_cons.mp hts
    have hexec : exec c db (.insertAclTarget peerId t now) = .ok ({ db with
        peerTargetAclTargets := db.peerTargetAclTargets ++ [⟨peerId, t, now⟩] }, none) := by
      simp only [exec, hfree t (List.mem_cons_self ..), hkey t (List.mem_cons_self ..), done,
        Bool.false_eq_true, Bool.true_eq_false, if_false]
    have hfree' : ∀ u ∈ ts, listed { db with
        peerTargetAclTargets := db.peerTargetAclTargets ++ [⟨peerId, t, now⟩] } peerId u =
          false := by
      intro u hu
      have hne : t ≠ u := fun h => ht (h ▸ hu)
      have hold := hfree u (List.mem_cons_of_mem _ hu)
      unfold listed at hold ⊢
      rw [List.any_append, hold]
      simp [hne]
    obtain ⟨ids, hrest⟩ := ih _ hts hfree' fun u hu => hkey u (List.mem_cons_of_mem _ hu)
    refine ⟨none :: ids, ?_⟩
    rw [List.map_cons, execAll_of_exec hexec hrest]
    have hrows := List.append_assoc db.peerTargetAclTargets [⟨peerId, t, now⟩]
      (targetRows peerId now ts)
    exact congrArg (fun rows : List AclTargetRow =>
      Except.ok ({ db with peerTargetAclTargets := rows }, none :: ids)) hrows

/-- The targets of a committed list are peers where foreign keys are enforced. -/
theorem peerKey_of_insertAclTargets {peerId : Str} {now : Time} {ts : List Str}
    {ids : List (Option ℕ)}
    (h : execAll c db (ts.map fun target => .insertAclTarget peerId target now) = .ok (db', ids)) :
    ∀ t ∈ ts, peerKey c db' t = true := by
  induction ts generalizing db ids with
  | nil => exact nofun
  | cons t ts ih =>
    obtain ⟨d, _, _, hexec, hrest, -⟩ := execAll_cons h
    intro u hu
    rcases List.mem_cons.mp hu with rfl | hu
    · have hkey : peerKey c db u = true := by
        simp only [exec] at hexec
        split_ifs at hexec with hlist hkey
        simpa using hkey
      exact ((exec_extends hexec).trans (execAll_extends hrest)).peerKey hkey
    · exact ih hrest u hu

theorem perm_replace_iff {peerId : Str} {rows new : List AclTargetRow} :
    rows.Perm (rows.filter (·.peerId ≠ peerId) ++ new) ↔
      (rows.filter (·.peerId = peerId)).Perm new := by
  have hsplit : (rows.filter (·.peerId ≠ peerId) ++ rows.filter (·.peerId = peerId)).Perm rows := by
    have h := List.filter_append_perm (fun row : AclTargetRow => decide (row.peerId ≠ peerId)) rows
    simpa using h
  exact ⟨fun h => (List.perm_append_left_iff _).mp (hsplit.trans h),
    fun h => hsplit.symm.trans ((List.perm_append_left_iff _).mpr h)⟩

/-- An ACL that is set again in the same second is the same row. -/
theorem upsertAcl_eq_iff {db : Db} {peerId : Str} {now : Time} :
    (upsertAcl db peerId now).peerTargetAcl = db.peerTargetAcl ↔
      restricted db peerId = true ∧
        ∀ row ∈ db.peerTargetAcl, row.peerId = peerId → row.updatedAt = now := by
  by_cases hr : restricted db peerId = true
  · have hd : (upsertAcl db peerId now).peerTargetAcl = db.peerTargetAcl.map fun row =>
        if row.peerId = peerId then { row with updatedAt := now } else row := if_pos hr
    rw [hd, map_eq_self_iff, and_iff_right hr]
    refine forall₂_congr fun row _ => ?_
    rw [ite_eq_right_iff]
    refine imp_congr_right fun _ => ?_
    obtain ⟨_, _, _⟩ := row
    simp only [AclRow.mk.injEq, true_and, eq_comm]
  · have hd : (upsertAcl db peerId now).peerTargetAcl = db.peerTargetAcl ++ [⟨peerId, now, now⟩] :=
      if_neg hr
    rw [hd]
    simp [hr]

theorem invisible_setTargetAcl {peerId : Str} {targets : List Str} {now : Time}
    (hexec : execAll c db (setTargetAcl peerId targets now) = .ok (db₁, ids₁))
    (hext : Extends db₁ db₂) :
    Invisible c (.setTargetAcl peerId targets now) db₁ ids₁ db₂ ↔
      Unnoticed c db db₂ (.setTargetAcl peerId targets now) := by
  obtain ⟨d₁, _, _, h₁, hrest, -⟩ := execAll_cons hexec
  obtain ⟨d₂, _, _, h₂, hrest', -⟩ := execAll_cons hrest
  have hpeer : peerKey c db₂ peerId = true := by
    have hkey : peerKey c db peerId = true := by
      simp only [exec] at h₁
      split_ifs at h₁ with hkey
      simpa using hkey
    exact ((execAll_extends hexec).trans hext).peerKey hkey
  have hkeys : ∀ t ∈ distinct targets, peerKey c db₂ t = true := fun t ht =>
    hext.peerKey (peerKey_of_insertAclTargets hrest' t ht)
  let d := upsertAcl db₂ peerId now
  obtain ⟨ids, hinserts⟩ := execAll_insertAclTargets c
    { d with peerTargetAclTargets := d.peerTargetAclTargets.filter (·.peerId ≠ peerId) } peerId now
    (distinct targets) (distinct_nodup targets)
    (fun t _ => by
      rw [listed, List.any_eq_false]
      intro row hrow hcond
      simp only [List.mem_filter, decide_eq_true_eq, Bool.and_eq_true] at hrow hcond
      exact hrow.2 hcond.1) hkeys
  have hupsert : exec c db₂ (.upsertAcl peerId now) = .ok (d, none) := by
    simp only [exec, hpeer, Bool.true_eq_false, if_false]
    rfl
  have hcopy : execAll c db₂ (setTargetAcl peerId targets now) = .ok ({ d with
      peerTargetAclTargets := db₂.peerTargetAclTargets.filter (·.peerId ≠ peerId) ++
        targetRows peerId now (distinct targets) }, none :: none :: ids) :=
    execAll_of_exec hupsert (execAll_of_exec rfl hinserts)
  refine (invisible_of_execAll hcopy ?_).trans ?_
  · rfl
  have hacl : d.peerTargetAcl = db₂.peerTargetAcl ↔ restricted db₂ peerId = true ∧
      ∀ row ∈ db₂.peerTargetAcl, row.peerId = peerId → row.updatedAt = now := upsertAcl_eq_iff
  constructor
  · intro h
    obtain ⟨hr, hrows⟩ := hacl.mp h.peerTargetAcl
    exact ⟨hr, hrows, perm_replace_iff.mp h.targets⟩
  · rintro ⟨hr, hrows, hperm⟩
    refine ⟨perm_replace_iff.mpr hperm, ?_⟩
    have hd : d = { db₂ with peerTargetAcl := d.peerTargetAcl } := rfl
    rw [hd, hacl.mpr ⟨hr, hrows⟩]

/-! ## Inserts without a guard -/

/-- A copy that makes a table longer is noticed. -/
theorem not_invisible_of_grows {op : Op} {α : Type} (table : Db → List α)
    (hsame : ∀ d, Same db₂ d → table d = table db₂)
    (hgrows : ∀ d ids, execAll c db₂ op.statements = .ok (d, ids) →
      (table db₂).length < (table d).length) : ¬ Invisible c op db₁ ids₁ db₂ := by
  rintro ⟨d, ids, hexec, hs, -⟩
  have hlt := hgrows d ids hexec
  rw [hsame d hs] at hlt
  exact Nat.lt_irrefl _ hlt

theorem length_insertToken {peerId digest tokenId deviceLabel scope : Str} {now : Time}
    {id : Option ℕ}
    (h : exec c db (.insertToken false peerId digest tokenId deviceLabel scope now) =
      .ok (db', id)) : db'.peerTokens.length = db.peerTokens.length + 1 := by
  simp only [exec] at h
  split_ifs at h
  · rename_i hno
    cases hno
  · cases h
    exact List.length_append

theorem not_invisible_rotatePeerToken {peerId digest tokenId : Str} {graceUntil now : Time} :
    ¬ Invisible c (.rotatePeerToken peerId digest tokenId graceUntil now) db₁ ids₁ db₂ := by
  refine not_invisible_of_grows Db.peerTokens (fun _ h => h.peerTokens) fun d ids h => ?_
  obtain ⟨d₁, _, _, h₁, hrest, -⟩ := execAll_cons h
  obtain ⟨d₂, _, _, h₂, hrest', -⟩ := execAll_cons hrest
  cases hrest'
  cases h₁
  have hlen := length_insertToken h₂
  rw [List.length_map] at hlen
  exact hlen ▸ Nat.lt_succ_self _

theorem not_invisible_addDeviceToken {peerId digest tokenId deviceLabel scope actor : Str}
    {now : Time} :
    ¬ Invisible c (.addDeviceToken peerId digest tokenId deviceLabel scope actor now) db₁ ids₁
      db₂ := by
  refine not_invisible_of_grows Db.peerTokens (fun _ h => h.peerTokens) fun d ids h => ?_
  obtain ⟨d₁, _, _, h₁, hrest, -⟩ := execAll_cons h
  cases hrest
  exact (length_insertToken h₁) ▸ Nat.lt_succ_self _

theorem not_invisible_addGrant {grantor grantee commandType : Str} {scope : Dict} {now : Time}
    {validUntil : Option Time} :
    ¬ Invisible c (.addGrant grantor grantee commandType scope now validUntil) db₁ ids₁ db₂ := by
  refine not_invisible_of_grows Db.peerGrants (fun _ h => h.peerGrants) fun d ids h => ?_
  obtain ⟨d₁, _, _, h₁, hrest, -⟩ := execAll_cons h
  cases hrest
  simp only [exec] at h₁
  split_ifs at h₁
  cases h₁
  rw [List.length_append]
  exact Nat.lt_succ_self _

theorem not_invisible_revokeDeviceToken {row : TokenRow} {tokenId actor : Str} {now : Time} :
    ¬ Invisible c (.revokeDeviceToken row tokenId actor now) db₁ ids₁ db₂ := by
  refine not_invisible_of_grows Db.auditLog (fun _ h => h.auditLog) fun d ids h => ?_
  simp only [Op.statements, revokeDeviceToken] at h
  split_ifs at h
  · obtain ⟨d₁, _, _, h₁, hrest, -⟩ := execAll_cons h
    cases h₁
    cases hrest
    simp [Raft.insertAudit, auditRow]
  · obtain ⟨d₁, _, _, h₁, hrest, -⟩ := execAll_cons h
    obtain ⟨d₂, _, _, h₂, hrest', -⟩ := execAll_cons hrest
    cases hrest'
    cases h₁
    cases h₂
    simp [Raft.insertAudit, auditRow]

theorem not_invisible_reject {actor : Str} {sourceRef : Option Str} {target : Str}
    {eventId : Option Str} {result : Str} {now : Time} :
    ¬ Invisible c (.reject actor sourceRef target eventId result now) db₁ ids₁ db₂ := by
  refine not_invisible_of_grows Db.auditLog (fun _ h => h.auditLog) fun d ids h => ?_
  obtain ⟨d₁, _, _, h₁, hrest, -⟩ := execAll_cons h
  cases h₁
  cases hrest
  simp [Raft.insertAudit, auditRow]

/-! ## Events -/

theorem readBack_none_iff {v : EventValues} :
    readBack db v = .ok none ↔ hasEvent db v.eventId = false := by
  have hfind : hasEvent db v.eventId = false ↔ findEvent db (some v.eventId) = none := by
    rw [findEvent_eq_none_iff, hasEvent_eq_false]
  rw [hfind, readBack]
  cases h : findEvent db (some v.eventId) with
  | none => simp
  | some row =>
    simp only [reduceCtorEq, iff_false]
    intro hb
    rw [bind_eq_ok] at hb
    obtain ⟨e, -, hb⟩ := hb
    rw [bind_eq_ok] at hb
    obtain ⟨e', -, hb⟩ := hb
    cases hb

/-- An event that is there reads back the same later. -/
theorem readBack_extends {v : EventValues} (hext : Extends db db')
    (h : hasEvent db v.eventId = true) : readBack db' v = readBack db v := by
  cases hfind : findEvent db (some v.eventId) with
  | none =>
    rw [findEvent_eq_none_iff, ← hasEvent_eq_false, h] at hfind
    cases hfind
  | some row => rw [readBack, readBack, hfind, hext.findEvent hfind]

/-- What the copy of an insert has to meet: the statements `tail` after it change neither events
nor counters, and do nothing once they were executed for an event that is there. -/
theorem invisible_insert {op : Op} {v : EventValues} {seq : Option Number} {g : Guard}
    {tail : List Stmt} (hstmts : op.statements = insertStatements v (seq.map (·.1)) g ++ tail)
    (hresult : ∀ d i, op.result d i = .event (readBack d v))
    (htail : ∀ d : Db, ∃ d' ids, execAll c d tail = .ok (d', ids) ∧ d'.events = d.events ∧
      d'.sourceCounters = d.sourceCounters)
    (hquiet : ∀ d : Db, hasEvent d v.eventId = false → ∃ ids, execAll c d tail = .ok (d, ids))
    (honce : ∀ d d' ids d'', hasEvent d v.eventId = true → execAll c d tail = .ok (d', ids) →
      Extends d' d'' → Sound d'' → ∃ ids, execAll c d'' tail = .ok (d'', ids))
    (hs : Sound db) (hs₂ : Sound db₂)
    (hexec : execAll c db op.statements = .ok (db₁, ids₁)) (hext : Extends db₁ db₂) :
    Invisible c op db₁ ids₁ db₂ ↔ Settled c db db₂ v seq g := by
  rw [hstmts] at hexec
  obtain ⟨d, hd, -⟩ := hs.execAll_insert (c := c) v seq g
  obtain ⟨d', i', hd', hev', -⟩ := htail d
  rw [execAll_append hd, hd'] at hexec
  cases hexec
  -- after the first execution the id has its event exactly when the event lands
  have hland : hasEvent db₁ v.eventId = true ↔ Lands c db v seq g := by
    rw [← hasEvent_insert_iff hs hd, hasEvent, hasEvent, hev']
  obtain ⟨d₂, hd₂, -⟩ := hs₂.execAll_insert (c := c) v seq g
  constructor
  · rintro ⟨d₃, i₃, hexec₃, hsame, hres⟩
    by_cases hl : Lands c db v seq g
    · exact .inl hl
    right
    obtain ⟨d₄, i₄, hd₄, hev₄, hcnt₄⟩ := htail d₂
    rw [hstmts, execAll_append hd₂, hd₄] at hexec₃
    cases hexec₃
    rw [hresult, hresult, Result.event.injEq] at hres
    have hnone : readBack db₁ v = .ok none := by
      rw [readBack_none_iff, ← Bool.not_eq_true, hland]
      exact hl
    rw [hnone, readBack_none_iff, hasEvent, hsame.events] at hres
    refine ⟨hres, insert_not_idle hs₂ hres hd₂ ?_ ?_⟩
    · rw [← hev₄, hsame.events]
    · rw [← hcnt₄, hsame.sourceCounters]
  · rintro (hl | ⟨hfresh, hidle⟩)
    · have hev := hland.mpr hl
      have hknown := execAll_insert_known (c := c) (g := g) hs₂ (hext.hasEvent hev) seq
      have hevd : hasEvent d v.eventId = true := by
        rw [hasEvent, ← hev']
        exact hev
      obtain ⟨i₂, hi₂⟩ := honce d db₁ i' db₂ hevd hd' hext hs₂
      refine ⟨db₂, [none, none] ++ i₂, ?_, .refl db₂, ?_⟩
      · rw [hstmts, execAll_append hknown, hi₂]
      · rw [hresult, hresult, readBack_extends hext hev]
    · have hfresh' : hasEvent db₁ v.eventId = false := by
        rw [← Bool.not_eq_true]
        exact fun h => by
          rw [hext.hasEvent h] at hfresh
          cases hfresh
      obtain ⟨i₂, hi₂⟩ := hquiet db₂ hfresh
      refine ⟨db₂, [none, none] ++ i₂, ?_, .refl db₂, ?_⟩
      · rw [hstmts, execAll_append (execAll_insert_idle hs₂ hfresh hidle), hi₂]
      · rw [hresult, hresult, readBack_none_iff.mpr hfresh, readBack_none_iff.mpr hfresh']

theorem exec_acceptCommand (db : Db) (v : EventValues) (now : Time) :
    exec c db (.acceptCommand (acceptValues v now) v.eventId v.source v.target) =
      .ok (if db.events.any (isCommand v.eventId v.source v.target) = true ∧
          hasAccepted db v.eventId = false then insertAudit db (acceptValues v now) else db,
        none) := by
  simp only [exec]
  split_ifs <;> rfl

theorem invisible_command {v : EventValues} {seq : Option Number} {digest : Str} {grantId : ℕ}
    {scope : Dict} {operation : Str} {now : Time} (hs : Sound db) (hs₂ : Sound db₂)
    (hexec : execAll c db (Op.command v seq digest grantId scope operation now).statements =
      .ok (db₁, ids₁)) (hext : Extends db₁ db₂) :
    Invisible c (.command v seq digest grantId scope operation now) db₁ ids₁ db₂ ↔
      Unnoticed c db db₂ (.command v seq digest grantId scope operation now) := by
  refine invisible_insert rfl (fun _ _ => rfl) (fun d => ?_) (fun d hfresh => ?_)
    (fun d d' ids d'' hev htail hext' hs' => ?_) hs hs₂ hexec hext
  · refine ⟨_, _, execAll_of_exec (exec_acceptCommand d v now) rfl, ?_, ?_⟩
    all_goals split_ifs <;> rfl
  · have hnone : ¬ (d.events.any (isCommand v.eventId v.source v.target) = true ∧ hasAccepted d v.eventId = false) := by
      rintro ⟨hany, -⟩
      obtain ⟨row, hrow, hacc⟩ := List.any_eq_true.mp hany
      simp only [isCommand, Bool.and_eq_true, decide_eq_true_eq] at hacc
      exact hasEvent_eq_false.mp hfresh row hrow hacc.1.1.1.1
    refine ⟨[none], execAll_of_exec ?_ rfl⟩
    rw [exec_acceptCommand, if_neg hnone]
  · -- the row of the id is the same row later, and its audit row is there if it was accepted
    have hnone : ¬ (d''.events.any (isCommand v.eventId v.source v.target) = true ∧
        hasAccepted d'' v.eventId = false) := by
      rintro ⟨hany, hno⟩
      obtain ⟨d₁, _, _, hexec', hnil, -⟩ := execAll_cons htail
      cases hnil
      rw [exec_acceptCommand] at hexec'
      cases hexec'
      obtain ⟨row, hrow, hid⟩ := hasEvent_iff.mp hev
      obtain ⟨row', hrow', hacc⟩ := List.any_eq_true.mp hany
      have hid' : row'.eventId = v.eventId := by
        simp only [isCommand, Bool.and_eq_true, decide_eq_true_eq] at hacc
        exact hacc.1.1.1.1
      have hrow'' : row ∈ d''.events := hext'.events.subset (by split_ifs <;> exact hrow)
      have heq : row = row' :=
        List.inj_on_of_nodup_map hs'.ids hrow'' hrow' (hid.trans hid'.symm)
      subst heq
      have hany' : d.events.any (isCommand v.eventId v.source v.target) = true := List.any_eq_true.mpr ⟨row, hrow, hacc⟩
      have haccepted : hasAccepted d'' v.eventId = true := by
        refine hext'.hasAccepted ?_
        split_ifs with hcond
        · exact List.any_eq_true.mpr ⟨_, List.mem_append_right _ (List.mem_singleton_self _),
            by simp [acceptValues]⟩
        · rw [not_and, Bool.not_eq_false] at hcond
          exact hcond hany'
      rw [haccepted] at hno
      cases hno
    refine ⟨[none], execAll_of_exec ?_ rfl⟩
    rw [exec_acceptCommand, if_neg hnone]

theorem invisible_message {v : EventValues} {seq : Option Number} (hs : Sound db)
    (hs₂ : Sound db₂) (hexec : execAll c db (Op.message v seq).statements = .ok (db₁, ids₁))
    (hext : Extends db₁ db₂) :
    Invisible c (.message v seq) db₁ ids₁ db₂ ↔ Unnoticed c db db₂ (.message v seq) :=
  invisible_insert (List.append_nil _).symm (fun _ _ => rfl)
    (fun d => ⟨d, [], rfl, rfl, rfl⟩) (fun _ _ => ⟨[], rfl⟩)
    (fun _ _ _ _ _ _ _ _ => ⟨[], rfl⟩) hs hs₂ hexec hext

end

/-- In every run of a cluster, the copy of a committed request that arrives after any other
requests goes unnoticed exactly under the condition of its operation. -/
theorem replay_invisible_iff (c : Cluster) (op : Op) (db db₁ db₂ : Db) (ids₁ : List (Option ℕ))
    (hreach : Reachable (cluster c) db) (hfirst : execAll c db op.statements = .ok (db₁, ids₁))
    (hothers : Relation.ReflTransGen (Commit c) db₁ db₂) :
    Invisible c op db₁ ids₁ db₂ ↔ Unnoticed c db db₂ op := by
  have hs := sound_of_reach hreach
  have hs₂ := commits_sound (hs.step ⟨ids₁, hfirst⟩) hothers
  have hext := commits_extend hothers
  cases op with
  | addPeer => exact invisible_addPeer hfirst hext
  | rotatePeerToken => exact iff_of_false not_invisible_rotatePeerToken id
  | addGrant => exact iff_of_false not_invisible_addGrant id
  | revokeGrant => exact invisible_revokeGrant
  | addDeviceToken => exact iff_of_false not_invisible_addDeviceToken id
  | revokeDeviceToken => exact iff_of_false not_invisible_revokeDeviceToken id
  | setTargetAcl => exact invisible_setTargetAcl hfirst hext
  | clearTargetAcl => exact invisible_clearTargetAcl
  | ack => exact invisible_ack hfirst hext
  | message => exact invisible_message hs hs₂ hfirst hext
  | command => exact invisible_command hs hs₂ hfirst hext
  | reject => exact iff_of_false not_invisible_reject id

/-! ## A message and a grant, sent twice -/

def aliceToBob : EventValues :=
  ⟨lit "e", lit "alice", lit "bob", lit "message", lit "2026-10-01T12:00:00Z",
    lit "2026-10-01T12:00:00Z", [], true, none, none⟩

def bobGrantsAlice : Op :=
  .addGrant (lit "bob") (lit "alice") (lit "*") [] (lit "2026-10-01T12:00:00Z") none

/-- A message sent twice to an empty ledger. -/
theorem replay_invisible_message : ∃ db₁,
    execAll plainCluster {} (Op.message aliceToBob none).statements = .ok (db₁, [none, none]) ∧
      Invisible plainCluster (.message aliceToBob none) db₁ [none, none] db₁ := by
  refine ⟨_, rfl, (replay_invisible_iff plainCluster (.message aliceToBob none) {} _ _ _
    (.init rfl) rfl .refl).mpr ?_⟩
  exact .inl (.inr ⟨rfl, rfl⟩)

/-- A grant sent twice is two grants, and its caller gets the id of the second. -/
theorem grant_sent_twice : ∃ db₁ db₂,
    execAll plainCluster {} bobGrantsAlice.statements = .ok (db₁, [some 1]) ∧
      execAll plainCluster db₁ bobGrantsAlice.statements = .ok (db₂, [some 2]) ∧
      db₂.peerGrants.length = 2 ∧ ¬ Invisible plainCluster bobGrantsAlice db₁ [some 1] db₁ :=
  ⟨_, _, rfl, rfl, rfl, not_invisible_addGrant⟩

end Raft
end ATalk
