import ATalk.Lib.Transition
import ATalk.Core.InsertEvent
import ATalk.Raft.Store
import ATalk.Sqlite.Order

/-!
# The ledgers of a cluster

Every mutating operation sends a list of statements. What these lists can do to the events, the
counters and the audit log of a ledger, and the invariant of the ledgers they lead to: an id
names one event, the counter of a source is not below any of its events, and an accepted command
has its event.

* `Op`, `cluster` : the requests, and the ledgers their commits reach;
* `Sound` : the invariant, `Reach.sound` : it holds in every ledger;
* `execAll_insert_known`, `execAll_insert_denied`, `execAll_insert_counted`,
  `execAll_insert_numbered` : what the two statements of an event do.
-/

namespace ATalk
namespace Raft

open Text Python Sqlite ATalk.Core Checks Transition

/-- A number as a parameter. -/
abbrev Number := { v : SqlVal // v.Numeric }

/-- The mutating requests of the store, with the values they carry. -/
inductive Op where
  | addPeer (peerId digest tokenId : Str) (role platform endpoint : Option Str)
      (deliveryClass : Str) (ackTimeoutSec : ℤ) (now : Time)
  | rotatePeerToken (peerId digest tokenId : Str) (graceUntil now : Time)
  | addGrant (grantor grantee commandType : Str) (scope : Dict) (now : Time)
      (validUntil : Option Time)
  | revokeGrant (now : Time) (grantId : ℕ)
  | addDeviceToken (peerId digest tokenId deviceLabel scope actor : Str) (now : Time)
  | revokeDeviceToken (row : TokenRow) (tokenId actor : Str) (now : Time)
  | setTargetAcl (peerId : Str) (targets : List Str) (now : Time)
  | clearTargetAcl (peerId : Str)
  | ack (eventId agentId : Str) (ackType : AckType) (now : Time) (detail : Val)
  | message (v : EventValues) (seq : Option Number)
  | command (v : EventValues) (seq : Option Number) (tokenDigest : Str) (grantId : ℕ)
      (scope : Dict) (operation : Str) (now : Time)
  | reject (actor : Str) (sourceRef : Option Str) (target : Str) (eventId : Option Str)
      (result : Str) (now : Time)

def Op.statements : Op → List Stmt
  | .addPeer peerId digest tokenId role platform endpoint deliveryClass ackTimeoutSec now =>
    Raft.addPeer peerId digest tokenId role platform endpoint deliveryClass ackTimeoutSec now
  | .rotatePeerToken peerId digest tokenId graceUntil now =>
    Raft.rotatePeerToken peerId digest tokenId graceUntil now
  | .addGrant grantor grantee commandType scope now validUntil =>
    Raft.addGrant grantor grantee commandType scope now validUntil
  | .revokeGrant now grantId => Raft.revokeGrant now grantId
  | .addDeviceToken peerId digest tokenId deviceLabel scope actor now =>
    Raft.addDeviceToken peerId digest tokenId deviceLabel scope actor now
  | .revokeDeviceToken row tokenId actor now => Raft.revokeDeviceToken row tokenId actor now
  | .setTargetAcl peerId targets now => Raft.setTargetAcl peerId targets now
  | .clearTargetAcl peerId => Raft.clearTargetAcl peerId
  | .ack eventId agentId ackType now detail => Raft.ack eventId agentId ackType now detail
  | .message v seq => messageStatements v (seq.map (·.1))
  | .command v seq tokenDigest grantId scope operation now =>
    commandStatements v (seq.map (·.1))
      (.command v.source tokenDigest now grantId v.target scope operation) now
  | .reject actor sourceRef target eventId result now =>
    audit ⟨now, actor, lit "command_reject", sourceRef, target, eventId, result, []⟩

/-- The ledgers that commits lead to. -/
def cluster (c : Cluster) : System Db Op where
  init db := db = {}
  step db op db' := ∃ ids, execAll c db op.statements = .ok (db', ids)

variable {c : Cluster} {db db' : Db} {v : EventValues} {g : Guard} {source : Str}

/-! ## Counters -/

/-- The number the counter of a source gives next. -/
def nextValue (env : Env) (db : Db) (source : Str) : SqlVal :=
  match findCounter db source with
  | none => .int 1
  | some row => integerColumn env.engine (sqlSucc env.engine row.lastSeq)

theorem counterValue_bump (db : Db) (source : Str) :
    counterValue (bumpCounter c.env db source) source = some (nextValue c.env db source) := by
  rw [counterValue, bumpCounter, findCounter_upsert, nextValue]
  cases findCounter db source <;> rfl

theorem sources_upsert (init : SqlVal) (f : SqlVal → SqlVal)
    (h : (db.sourceCounters.map (·.source)).Nodup) :
    ((upsertCounter db source init f).sourceCounters.map (·.source)).Nodup := by
  simp only [upsertCounter]
  split_ifs with hany
  · rw [List.map_map]
    have hsame : ((fun row : CounterRow => row.source) ∘ fun row =>
        if row.source = source then { row with lastSeq := f row.lastSeq } else row) =
        fun row => row.source := by
      funext row
      simp only [Function.comp_apply]
      split_ifs <;> rfl
    rw [hsame]
    exact h
  · rw [List.map_append, List.nodup_append]
    refine ⟨h, List.nodup_singleton _, ?_⟩
    intro s hs s' hs' heq
    rw [List.map_singleton, List.mem_singleton] at hs'
    obtain ⟨row, hrow, rfl⟩ := List.mem_map.mp hs
    exact hany (List.any_eq_true.mpr ⟨row, hrow, decide_eq_true (heq.trans hs')⟩)

/-! ## The invariant -/

/-- What every ledger of a cluster keeps. -/
structure Sound (db : Db) : Prop where
  ids : (db.events.map (·.eventId)).Nodup
  sources : (db.sourceCounters.map (·.source)).Nodup
  numeric : ∀ row ∈ db.events, row.seq.Numeric
  counted : ∀ source s, counterValue db source = some s → s.Numeric
  above : ∀ row ∈ db.events, ∃ s, counterValue db row.source = some s ∧ row.seq.ext ≤ s.ext
  accepted : ∀ row ∈ db.auditLog, row.action = lit "command_accept" →
    ∃ e, row.eventId = some e ∧ hasEvent db e = true

theorem Sound.empty : Sound {} where
  ids := List.nodup_nil
  sources := List.nodup_nil
  numeric := nofun
  counted := nofun
  above := nofun
  accepted := nofun

theorem hasEvent_iff {eventId : Str} :
    hasEvent db eventId = true ↔ ∃ row ∈ db.events, row.eventId = eventId := by
  simp [hasEvent]

theorem hasEvent_eq_false {eventId : Str} :
    hasEvent db eventId = false ↔ ∀ row ∈ db.events, row.eventId ≠ eventId := by
  simp [hasEvent]

theorem slotTaken_iff {seq : SqlVal} :
    slotTaken db source seq = true ↔
      ∃ row ∈ db.events, row.source = source ∧ sqlEq row.seq seq = true := by
  simp [slotTaken]

theorem counterValue_upsert (init : SqlVal) (f : SqlVal → SqlVal) (source' : Str) :
    counterValue (upsertCounter db source init f) source' =
      if source' = source then some (((counterValue db source).map f).getD init)
      else counterValue db source' := by
  by_cases h : source' = source
  · subst h
    rw [if_pos rfl, counterValue, findCounter_upsert, counterValue]
    cases findCounter db source' <;> rfl
  · rw [if_neg h, counterValue, findCounter_upsert_ne h, counterValue]

/-- A counter that rises, or is new, keeps the invariant. -/
theorem Sound.upsert {init : SqlVal} {f : SqlVal → SqlVal} (h : Sound db) (hinit : init.Numeric)
    (hf : ∀ s : SqlVal, s.Numeric → (f s).Numeric ∧ s.ext ≤ (f s).ext) :
    Sound (upsertCounter db source init f) where
  ids := h.ids
  sources := sources_upsert init f h.sources
  numeric := h.numeric
  accepted := h.accepted
  counted source' s hs := by
    rw [counterValue_upsert] at hs
    split_ifs at hs
    · cases hold : counterValue db source with
      | none =>
        rw [hold] at hs
        exact Option.some.inj hs ▸ hinit
      | some t =>
        rw [hold] at hs
        exact Option.some.inj hs ▸ (hf t (h.counted _ _ hold)).1
    · exact h.counted _ _ hs
  above row hrow := by
    obtain ⟨t, ht, hle⟩ := h.above row hrow
    rw [counterValue_upsert]
    split_ifs with hs
    · rw [← hs, ht]
      exact ⟨f t, rfl, hle.trans (hf t (h.counted _ _ ht)).2⟩
    · exact ⟨t, ht, hle⟩

/-- A new event below its counter keeps the invariant. -/
theorem Sound.append {row : EventRow} {s : SqlVal} (h : Sound db)
    (hfresh : hasEvent db row.eventId = false) (hnum : row.seq.Numeric)
    (hs : counterValue db row.source = some s) (hle : row.seq.ext ≤ s.ext) :
    Sound { db with events := db.events ++ [row] } where
  ids := by
    rw [List.map_append, List.nodup_append]
    refine ⟨h.ids, List.nodup_singleton _, ?_⟩
    intro e he e' he' heq
    rw [List.map_singleton, List.mem_singleton] at he'
    obtain ⟨r, hr, rfl⟩ := List.mem_map.mp he
    exact hasEvent_eq_false.mp hfresh r hr (heq.trans he')
  sources := h.sources
  numeric r hr := by
    rcases List.mem_append.mp hr with hr | hr
    · exact h.numeric r hr
    · rw [List.mem_singleton.mp hr]
      exact hnum
  counted := h.counted
  above r hr := by
    rcases List.mem_append.mp hr with hr | hr
    · exact h.above r hr
    · rw [List.mem_singleton.mp hr]
      exact ⟨s, hs, hle⟩
  accepted r hr haction := by
    obtain ⟨e, he, hev⟩ := h.accepted r hr haction
    obtain ⟨r', hr', hid⟩ := hasEvent_iff.mp hev
    exact ⟨e, he, hasEvent_iff.mpr ⟨r', List.mem_append_left _ hr', hid⟩⟩

/-! ## The two statements of an event -/

theorem raise_spec {t : SqlVal} (ht : t.Numeric) :
    ∀ s : SqlVal, s.Numeric → (sqlMax s t).Numeric ∧ s.ext ≤ (sqlMax s t).ext := fun s hs =>
  ⟨numeric_sqlMax hs ht, by rw [ext_sqlMax hs ht]; exact le_max_left _ _⟩

theorem succ_spec {env : Env} :
    ∀ s : SqlVal, s.Numeric → (integerColumn env.engine (sqlSucc env.engine s)).Numeric ∧
      s.ext ≤ (integerColumn env.engine (sqlSucc env.engine s)).ext := fun s hs => by
  obtain ⟨hn, hle⟩ := sqlSucc_spec env.engine hs
  obtain ⟨hn', hext⟩ := integerColumn_spec env.engine hn
  exact ⟨hn', by rw [hext]; exact hle⟩

/-- An update that keeps the counter of a source keeps the ledger. -/
theorem upsertCounter_eq_self {init s : SqlVal} {f : SqlVal → SqlVal}
    (hnodup : (db.sourceCounters.map (·.source)).Nodup) (hs : counterValue db source = some s)
    (hf : f s = s) : upsertCounter db source init f = db := by
  rw [counterValue, Option.map_eq_some_iff] at hs
  obtain ⟨r, hr, rfl⟩ := hs
  have hmem := List.mem_of_find?_eq_some hr
  have hsrc : r.source = source := by simpa using List.find?_some hr
  have hany : (db.sourceCounters.any fun row => decide (row.source = source)) = true :=
    List.any_eq_true.mpr ⟨r, hmem, decide_eq_true hsrc⟩
  have hmap : (db.sourceCounters.map fun row =>
      if row.source = source then { row with lastSeq := f row.lastSeq } else row) =
      db.sourceCounters := by
    refine (List.map_congr_left fun row hrow => ?_).trans (List.map_id _)
    split_ifs with h
    · rw [List.inj_on_of_nodup_map hnodup hrow hmem (h.trans hsrc.symm), hf]
      rfl
    · rfl
  rw [upsertCounter]
  simp only [hany, if_true, hmap]

/-- The counter of an event that is there is high enough. -/
theorem Sound.raise_eq {row : EventRow} {t : SqlVal} (h : Sound db) (hrow : row ∈ db.events)
    (ht : t.Numeric) (heq : row.seq.ext = t.ext) : Core.raiseCounter db row.source t = db := by
  obtain ⟨s, hs, hle⟩ := h.above row hrow
  exact upsertCounter_eq_self h.sources hs (sqlMax_eq_left (h.counted _ _ hs) ht (heq ▸ hle))

/-- An event that is there is left alone, and so is its counter. -/
theorem execAll_insert_known (hs : Sound db) (h : hasEvent db v.eventId = true)
    (seq : Option Number) :
    execAll c db (insertStatements v (seq.map (·.1)) g) = .ok (db, [none, none]) := by
  cases seq with
  | none =>
    simp only [Option.map_none, insertStatements, execAll, exec, h, Bool.true_eq_false, false_and,
      if_false, done, insertOrIgnore, true_or, or_true, if_true, ite_self]
    cases counterValue db v.source <;> rfl
  | some t =>
    obtain ⟨t, ht⟩ := t
    simp only [Option.map_some, insertStatements, execAll, exec, done, insertOrIgnore, h, true_or,
      or_true, if_true, ite_self]
    split_ifs with hex
    · obtain ⟨row, hrow, hcond⟩ := List.any_eq_true.mp hex
      simp only [Bool.and_eq_true, decide_eq_true_eq] at hcond
      obtain ⟨⟨-, hsrc⟩, hseq⟩ := hcond
      obtain ⟨hn, hext⟩ := integerColumn_spec c.env.engine ht
      rw [← hsrc, hs.raise_eq hrow hn
        (((sqlEq_iff (hs.numeric row hrow) ht).mp hseq).trans hext.symm)]
    · rfl

/-- A guard that fails keeps a new event out. -/
theorem execAll_insert_denied (h : hasEvent db v.eventId = false) (hg : g.holds db = false)
    (seq : Option SqlVal) :
    execAll c db (insertStatements v seq g) = .ok (db, [none, none]) := by
  cases seq with
  | none =>
    simp only [insertStatements, execAll, exec, hg, Bool.false_eq_true, and_false, if_false, done]
    cases counterValue db v.source <;> rfl
  | some t =>
    have hex : (db.events.any fun row => decide (row.eventId = v.eventId) &&
        decide (row.source = v.source) && sqlEq row.seq t) = false := by
      rw [hasEvent_eq_false] at h
      rw [List.any_eq_false]
      intro row hrow hcond
      simp only [Bool.and_eq_true, decide_eq_true_eq] at hcond
      exact h row hrow hcond.1.1
    simp only [insertStatements, execAll, exec, hg, Bool.false_eq_true, if_false, done, hex]

/-- A new event that takes its number from the counter. -/
theorem execAll_insert_counted (h : hasEvent db v.eventId = false) (hg : g.holds db = true) :
    execAll c db (insertStatements v none g) =
      .ok (insertOrIgnore (bumpCounter c.env db v.source) v (nextValue c.env db v.source),
        [none, none]) := by
  have hg' : g.holds (bumpCounter c.env db v.source) = true := by
    cases g <;> exact hg
  simp only [insertStatements, execAll, exec, h, hg, and_self, if_true, done, counterValue_bump,
    hg']

/-- A new event with a number of its own. -/
theorem execAll_insert_numbered {t : SqlVal} (h : hasEvent db v.eventId = false)
    (hg : g.holds db = true) (ht : t.Numeric) :
    execAll c db (insertStatements v (some t) g) =
      .ok (if slotTaken db v.source (integerColumn c.env.engine t) = true then db
        else Core.raiseCounter
          { db with events := db.events ++ [eventRow db v (integerColumn c.env.engine t)] }
          v.source (integerColumn c.env.engine t), [none, none]) := by
  obtain ⟨hn, hext⟩ := integerColumn_spec c.env.engine ht
  simp only [insertStatements, execAll, exec, hg, if_true, done, insertOrIgnore, hn.ne_null, h,
    Bool.false_eq_true, false_or]
  by_cases htaken : slotTaken db v.source (integerColumn c.env.engine t) = true
  · have hex : (db.events.any fun row => decide (row.eventId = v.eventId) &&
        decide (row.source = v.source) && sqlEq row.seq t) = false := by
      rw [hasEvent_eq_false] at h
      rw [List.any_eq_false]
      intro row hrow hcond
      simp only [Bool.and_eq_true, decide_eq_true_eq] at hcond
      exact h row hrow hcond.1.1
    simp only [htaken, if_true, hex, Bool.false_eq_true, if_false]
  · have hself : sqlEq (integerColumn c.env.engine t) t = true := (sqlEq_iff hn ht).mpr hext
    simp only [htaken, Bool.false_eq_true, if_false, List.any_append, List.any_cons, eventRow,
      decide_true, Bool.true_and, hself, Bool.true_or, Bool.or_true, if_true]

/-! ## Every request keeps the invariant -/

/-- A statement that touches neither events nor counters, and accepts no command. -/
def Stmt.plain : Stmt → Bool
  | .bumpCounter .. => false
  | .insertCounted .. => false
  | .insertNumbered .. => false
  | .raiseCounter .. => false
  | .acceptCommand .. => false
  | .insertAudit values => values.action ≠ lit "command_accept"
  | _ => true

theorem Sound.congr (h : Sound db) (hev : db'.events = db.events)
    (hcnt : db'.sourceCounters = db.sourceCounters)
    (haud : ∀ row ∈ db'.auditLog, row.action = lit "command_accept" →
      ∃ e, row.eventId = some e ∧ hasEvent db e = true) : Sound db' where
  ids := by rw [hev]; exact h.ids
  sources := by rw [hcnt]; exact h.sources
  numeric := by rw [hev]; exact h.numeric
  counted source s hs := h.counted source s (by rwa [counterValue, findCounter, hcnt] at hs)
  above row hrow := by
    rw [hev] at hrow
    rw [counterValue, findCounter, hcnt]
    exact h.above row hrow
  accepted row hrow haction := by
    unfold hasEvent
    rw [hev]
    exact haud row hrow haction

theorem Sound.insertAudit {values : AuditValues} (h : Sound db)
    (haccept : values.action = lit "command_accept" →
      ∃ e, values.eventId = some e ∧ hasEvent db e = true) : Sound (insertAudit db values) := by
  refine h.congr rfl rfl fun row hrow haction => ?_
  simp only [Raft.insertAudit, auditRow, List.mem_append, List.mem_singleton] at hrow
  rcases hrow with hrow | rfl
  · exact h.accepted row hrow haction
  · exact haccept haction

theorem Sound.exec_plain {s : Stmt} {id : Option ℕ} (h : Sound db) (hs : s.plain = true)
    (hexec : exec c db s = .ok (db', id)) : Sound db' := by
  cases s with
  | insertAudit values =>
    cases hexec
    exact h.insertAudit fun hact => absurd hact (by simpa [Stmt.plain] using hs)
  | bumpCounter | insertCounted | insertNumbered | raiseCounter | acceptCommand =>
    exact absurd hs (by simp [Stmt.plain])
  | insertToken orIgnore peerId digest tokenId deviceLabel scope now =>
    simp only [exec] at hexec
    split_ifs at hexec
    all_goals
      cases hexec
      exact h.congr rfl rfl h.accepted
  | insertGrant | upsertAcl | insertAclTarget | upsertAck =>
    simp only [exec] at hexec
    split_ifs at hexec
    all_goals
      cases hexec
      exact h.congr rfl rfl h.accepted
  | _ =>
    cases hexec
    exact h.congr rfl rfl h.accepted

theorem execAll_cons {s : Stmt} {ss : List Stmt} {ids : List (Option ℕ)}
    (h : execAll c db (s :: ss) = .ok (db', ids)) :
    ∃ db₁ id ids', exec c db s = .ok (db₁, id) ∧ execAll c db₁ ss = .ok (db', ids') ∧
      ids = id :: ids' := by
  simp only [execAll] at h
  split at h
  · cases h
  next db₁ id hexec =>
    split at h
    · cases h
    next db₂ ids' hrest =>
      cases h
      exact ⟨db₁, id, ids', hexec, hrest, rfl⟩

theorem execAll_append {ss ts : List Stmt} {ids : List (Option ℕ)} {db₁ : Db}
    (h : execAll c db ss = .ok (db₁, ids)) :
    execAll c db (ss ++ ts) = match execAll c db₁ ts with
      | .error e => .error e
      | .ok (db', ids') => .ok (db', ids ++ ids') := by
  induction ss generalizing db ids with
  | nil =>
    cases h
    rw [List.nil_append]
    cases execAll c db₁ ts <;> rfl
  | cons s ss ih =>
    obtain ⟨db₂, id, ids', hexec, hrest, rfl⟩ := execAll_cons h
    rw [List.cons_append, execAll, hexec]
    simp only [ih hrest]
    cases execAll c db₁ ts <;> rfl

theorem Sound.execAll_plain {ss : List Stmt} {ids : List (Option ℕ)} (h : Sound db)
    (hss : ∀ s ∈ ss, s.plain = true) (hexec : execAll c db ss = .ok (db', ids)) : Sound db' := by
  induction ss generalizing db ids with
  | nil =>
    cases hexec
    exact h
  | cons s ss ih =>
    obtain ⟨db₁, id, ids', hs, hrest, -⟩ := execAll_cons hexec
    exact ih (h.exec_plain (hss s (List.mem_cons_self ..)) hs)
      (fun s' hs' => hss s' (List.mem_cons_of_mem _ hs')) hrest

theorem Sound.raise {seq : SqlVal} (h : Sound db) (hn : seq.Numeric) :
    Sound (Core.raiseCounter db source seq) := h.upsert hn (raise_spec hn)

theorem Sound.bump (h : Sound db) (env : Env) : Sound (bumpCounter env db source) :=
  h.upsert trivial succ_spec

/-- A counter raised to a number is not below it. -/
theorem counterValue_raise (h : Sound db) (source : Str) {seq : SqlVal} (hn : seq.Numeric) :
    ∃ s, counterValue (Core.raiseCounter db source seq) source = some s ∧ seq.ext ≤ s.ext := by
  rw [Core.raiseCounter, counterValue_upsert, if_pos rfl]
  refine ⟨_, rfl, ?_⟩
  cases hold : counterValue db source with
  | none => exact le_refl _
  | some t =>
    rw [Option.map_some, Option.getD_some, ext_sqlMax (h.counted _ _ hold) hn]
    exact le_max_right _ _

/-- What the two statements of an event leave: always a ledger, and one that is sound again. -/
theorem Sound.execAll_insert (h : Sound db) (v : EventValues) (seq : Option Number) (g : Guard) :
    ∃ db', execAll c db (insertStatements v (seq.map (·.1)) g) = .ok (db', [none, none]) ∧
      Sound db' := by
  by_cases hknown : hasEvent db v.eventId = true
  · exact ⟨db, execAll_insert_known h hknown seq, h⟩
  rw [Bool.not_eq_true] at hknown
  by_cases hg : g.holds db = true
  · cases seq with
    | none =>
      refine ⟨_, execAll_insert_counted hknown hg, ?_⟩
      unfold insertOrIgnore
      split_ifs
      · exact h.bump c.env
      · exact (h.bump c.env).append hknown ((h.bump c.env).counted _ _ (counterValue_bump db _))
          (counterValue_bump db _) le_rfl
    | some t =>
      obtain ⟨hn, -⟩ := integerColumn_spec c.env.engine t.2
      refine ⟨_, execAll_insert_numbered hknown hg t.2, ?_⟩
      split_ifs
      · exact h
      · obtain ⟨s, hs, hle⟩ := counterValue_raise h v.source hn
        have hfresh : hasEvent db (eventRow db v (integerColumn c.env.engine t.1)).eventId = false :=
          hknown
        exact (h.raise hn).append hfresh hn hs hle
  · exact ⟨db, execAll_insert_denied hknown (by simpa using hg) _, h⟩

theorem Sound.acceptCommand {values : AuditValues} {eventId target : Str} {id : Option ℕ}
    (h : Sound db) (hid : values.eventId = some eventId)
    (hexec : exec c db (.acceptCommand values eventId source target) = .ok (db', id)) :
    Sound db' := by
  simp only [exec] at hexec
  split_ifs at hexec with hcond
  · cases hexec
    refine h.insertAudit fun _ => ⟨eventId, hid, ?_⟩
    obtain ⟨row, hrow, hmatch⟩ := List.any_eq_true.mp hcond.1
    simp only [isCommand, Bool.and_eq_true, decide_eq_true_eq] at hmatch
    exact hasEvent_iff.mpr ⟨row, hrow, hmatch.1.1.1.1⟩
  · cases hexec
    exact h

theorem Op.plain_or (op : Op) : (∀ s ∈ op.statements, s.plain = true) ∨
    (∃ v seq, op = .message v seq) ∨
    ∃ v seq digest grantId scope operation now,
      op = .command v seq digest grantId scope operation now := by
  cases op with
  | message v seq => exact .inr (.inl ⟨v, seq, rfl⟩)
  | command v seq digest grantId scope operation now =>
    exact .inr (.inr ⟨v, seq, digest, grantId, scope, operation, now, rfl⟩)
  | revokeDeviceToken row tokenId actor now =>
    left
    intro s hs
    simp only [Op.statements, Raft.revokeDeviceToken, List.mem_append, List.mem_singleton] at hs
    rcases hs with hs | rfl
    · split_ifs at hs
      · cases hs
      · rw [List.mem_singleton.mp hs]
        rfl
    · exact of_decide_eq_true rfl
  | setTargetAcl peerId targets now =>
    left
    intro s hs
    simp only [Op.statements, Raft.setTargetAcl, List.mem_cons, List.mem_map] at hs
    rcases hs with rfl | rfl | ⟨target, -, rfl⟩ <;> rfl
  | _ =>
    left
    intro s hs
    simp only [Op.statements, Raft.addPeer, Raft.rotatePeerToken, Raft.addGrant, Raft.revokeGrant,
      Raft.addDeviceToken, Raft.clearTargetAcl, Raft.ack, audit, deviceAudit, List.mem_cons,
      List.not_mem_nil, or_false] at hs
    rcases hs with rfl | rfl | rfl <;> exact of_decide_eq_true rfl

/-- One request. -/
theorem Sound.step {op : Op} (h : Sound db) (hstep : (cluster c).step db op db') : Sound db' := by
  obtain ⟨ids, hexec⟩ := hstep
  rcases op.plain_or with hplain | ⟨v, seq, rfl⟩ | ⟨v, seq, digest, grantId, scope, operation, now,
    rfl⟩
  · exact h.execAll_plain hplain hexec
  · obtain ⟨db₁, hdb₁, hs⟩ := h.execAll_insert (c := c) v seq (.acl v.source v.target)
    simp only [Op.statements, messageStatements] at hexec
    rw [hdb₁] at hexec
    cases hexec
    exact hs
  · obtain ⟨db₁, hdb₁, hs⟩ := h.execAll_insert (c := c) v seq
      (.command v.source digest now grantId v.target scope operation)
    simp only [Op.statements, commandStatements] at hexec
    rw [execAll_append hdb₁] at hexec
    split at hexec
    · cases hexec
    next db₂ ids' hrest =>
      obtain ⟨db₃, id, ids'', haccept, hnil, -⟩ := execAll_cons hrest
      cases hnil
      cases hexec
      exact hs.acceptCommand rfl haccept

/-- Every ledger of a cluster is sound. -/
theorem sound_of_reach {ok : Db → Op → Prop} (h : Reach (cluster c) ok db) : Sound db :=
  h.invariant (fun _ hs => hs ▸ Sound.empty) fun _ _ _ hs _ hstep => hs.step hstep

end Raft
end ATalk
