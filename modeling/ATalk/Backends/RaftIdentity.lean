import ATalk.Backends.Identity

/-!
# One identity for an event id, on rqlite

The requests of `RaftSQLStore` probe for the id, send the guarded insert and read back. An insert
whose id has its event by then changes nothing, and the number of an event is an integer or a
double that was bound, so it can be read back.

* `Steady` : the invariant of the ledgers of a cluster;
* `Phase.Inv` : what a call carries;
* `identity_kept` : both backends keep one identity for an id.
-/

namespace ATalk
namespace Backends

open Text Python Sqlite ATalk.Core Checks Transition Callers Raft

/-- The number can be read back. -/
def Bounded (v : SqlVal) : Prop := v.Numeric ∧ ∃ i, intOf v = .ok i

/-- rqlite reads no infinity for an integer, and one more than a finite double is finite. -/
structure Finite (c : Cluster) : Prop where
  bigInt : ∀ i f, c.bigInt i = some f → f.value.isSome = true
  realSucc : ∀ f, f.value.isSome = true → (c.env.engine.realSucc f).value.isSome = true

/-- What every ledger of a cluster keeps here. -/
structure Steady (db : Db) : Prop where
  sound : Sound db
  legible : Legible db
  counted : ∀ source s, counterValue db source = some s → Bounded s

variable {c : Cluster} {db db' : Db} {a : EventArgs} {row : EventRow} {v : EventValues} {g : Guard}

/-! ## Numbers that can be read back -/

theorem bounded_int (i : ℤ) : Bounded (.int i) := ⟨trivial, i, rfl⟩

theorem bounded_real {f : Flt} (h : f.value.isSome = true) : Bounded (.real f) := by
  obtain ⟨q, hq⟩ := Option.isSome_iff_exists.mp h
  refine ⟨?_, q.num.tdiv q.den, by simp only [intOf, hq]⟩
  rintro rfl
  cases hq

theorem Bounded.value {f : Flt} (h : Bounded (.real f)) : f.value.isSome = true := by
  obtain ⟨-, i, hi⟩ := h
  cases hf : f.value with
  | none => simp [intOf, hf] at hi
  | some q => rfl

theorem Bounded.column {s : SqlVal} (h : Bounded s) (engine : Engine) :
    Bounded (integerColumn engine s) := by
  cases s with
  | int i => exact bounded_int i
  | real f =>
    have hf := h.value
    simp only [integerColumn, realColumn]
    split
    · split_ifs
      · exact bounded_int _
      · exact bounded_real hf
    · exact bounded_real hf
  | _ => exact absurd h.1 id

theorem Bounded.succ {s : SqlVal} (h : Bounded s) (hc : Finite c) :
    Bounded (sqlSucc c.env.engine s) := by
  cases s with
  | int i =>
    simp only [sqlSucc]
    split_ifs
    · exact bounded_int _
    · exact bounded_real (hc.realSucc _ rfl)
  | real f => exact bounded_real (hc.realSucc f h.value)
  | _ => exact absurd h.1 id

theorem Bounded.max {s t : SqlVal} (hs : Bounded s) (ht : Bounded t) : Bounded (sqlMax s t) := by
  rw [sqlMax_of_numeric hs.1 ht.1]
  split_ifs
  · exact hs
  · exact ht

/-! ## The ledger -/

theorem Steady.empty : Steady {} where
  sound := .empty
  legible := ⟨List.nodup_nil, List.nodup_nil, nofun⟩
  counted := nofun

/-- A change of other tables. -/
theorem Steady.congr (h : Steady db) (hs : Sound db') (hsame : SameTables db db') : Steady db' where
  sound := hs
  legible := h.legible.congr hsame.1
  counted source s hc := h.counted source s (by rwa [counterValue, findCounter, hsame.2] at hc)

/-- A counter that is set, or moved on. -/
theorem Steady.upsert {source : Str} {init : SqlVal} {f : SqlVal → SqlVal} (h : Steady db)
    (hs : Sound (upsertCounter db source init f)) (hinit : Bounded init)
    (hf : ∀ s, Bounded s → Bounded (f s)) : Steady (upsertCounter db source init f) where
  sound := hs
  legible := h.legible.congr rfl
  counted source' s hc := by
    rw [counterValue_upsert] at hc
    split_ifs at hc
    · cases hold : counterValue db source with
      | none =>
        rw [hold] at hc
        exact Option.some.inj hc ▸ hinit
      | some t =>
        rw [hold] at hc
        exact Option.some.inj hc ▸ hf t (h.counted _ _ hold)
    · exact h.counted _ _ hc

theorem Steady.bump (h : Steady db) (hc : Finite c) (source : Str) :
    Steady (bumpCounter c.env db source) :=
  h.upsert (h.sound.bump c.env) (bounded_int 1) fun _ hs => (hs.succ hc).column _

theorem Steady.raise {seq : SqlVal} (h : Steady db) (source : Str) (hseq : Bounded seq) :
    Steady (Core.raiseCounter db source seq) :=
  h.upsert (h.sound.raise hseq.1) hseq fun _ hs => hs.max hseq

/-- A row that `INSERT OR IGNORE` takes or leaves. -/
theorem Steady.insertOrIgnore {seq s : SqlVal} (h : Steady db) (hseq : Bounded seq)
    (hs : counterValue db v.source = some s) (hle : seq.ext ≤ s.ext) :
    Steady (insertOrIgnore db v seq) := by
  unfold Raft.insertOrIgnore
  split_ifs with hout
  · exact h
  · rw [not_or, not_or, Bool.not_eq_true] at hout
    obtain ⟨-, hfresh, -⟩ := hout
    have hread : ∃ event, rowToEvent (Raft.eventRow db v seq) = .ok event := by
      obtain ⟨i, hi⟩ := hseq.2
      exact Server.rowToEvent_of_intOf (i := i) hi
    refine ⟨h.sound.append hfresh hseq.1 hs hle, h.legible.append rfl (nextId_not_mem _) ?_ hread,
      h.counted⟩
    intro hmem
    obtain ⟨r, hr, hid⟩ := List.mem_map.mp hmem
    exact hasEvent_eq_false.mp hfresh r hr hid

/-- The two statements of an event. -/
theorem Steady.execAll_insert (h : Steady db) (hc : Finite c) (v : EventValues)
    (seq : Option Number) (hseq : ∀ t, seq = some t → Bounded t.1) (g : Guard) :
    ∃ db', execAll c db (insertStatements v (seq.map (·.1)) g) = .ok (db', [none, none]) ∧
      Steady db' := by
  by_cases hknown : hasEvent db v.eventId = true
  · exact ⟨db, execAll_insert_known h.sound hknown seq, h⟩
  rw [Bool.not_eq_true] at hknown
  by_cases hg : g.holds db = true
  · cases seq with
    | none =>
      have hbump := h.bump hc v.source
      have hval := counterValue_bump (c := c) db v.source
      exact ⟨_, execAll_insert_counted hknown hg,
        hbump.insertOrIgnore (hbump.counted _ _ hval) hval le_rfl⟩
    | some t =>
      have ht := hseq t rfl
      have hcol := ht.column c.env.engine
      refine ⟨_, execAll_insert_numbered hknown hg t.2, ?_⟩
      split_ifs with htaken
      · exact h
      · obtain ⟨s, hs, hle⟩ := counterValue_raise h.sound v.source hcol.1
        have hraise := (h.raise v.source hcol).insertOrIgnore (v := v) hcol hs hle
        have hfree : ¬ (integerColumn c.env.engine t.1 = .null ∨
            hasEvent (Core.raiseCounter db v.source (integerColumn c.env.engine t.1)) v.eventId =
              true ∨ slotTaken (Core.raiseCounter db v.source (integerColumn c.env.engine t.1))
                v.source (integerColumn c.env.engine t.1) = true) := by
          rintro (hnull | hev | hslot)
          · exact hcol.1.ne_null hnull
          · exact Bool.noConfusion (hknown.symm.trans hev)
          · exact htaken hslot
        rw [Raft.insertOrIgnore, if_neg hfree] at hraise
        exact hraise
  · exact ⟨db, execAll_insert_denied hknown (by simpa using hg) _, h⟩

/-- An administrative statement. -/
theorem exec_plain_same {s : Stmt} {id : Option ℕ} (hs : s.plain = true)
    (h : exec c db s = .ok (db', id)) : SameTables db db' := by
  cases s with
  | bumpCounter | insertCounted | insertNumbered | raiseCounter | acceptCommand =>
    exact absurd hs (by simp [Stmt.plain])
  | insertToken | insertGrant | upsertAcl | insertAclTarget | upsertAck =>
    simp only [exec] at h
    split_ifs at h
    all_goals
      cases h
      exact ⟨rfl, rfl⟩
  | _ =>
    cases h
    exact ⟨rfl, rfl⟩

theorem execAll_plain_same {ss : List Stmt} {ids : List (Option ℕ)} (hs : ∀ s ∈ ss, s.plain = true)
    (h : execAll c db ss = .ok (db', ids)) : SameTables db db' := by
  induction ss generalizing db ids with
  | nil =>
    cases h
    exact .refl _
  | cons s ss ih =>
    obtain ⟨db₁, id, ids', hexec, hrest, -⟩ := execAll_cons h
    have hfirst := exec_plain_same (hs s (List.mem_cons_self ..)) hexec
    have hlast := ih (fun s' hs' => hs s' (List.mem_cons_of_mem _ hs')) hrest
    exact ⟨hlast.1.trans hfirst.1, hlast.2.trans hfirst.2⟩

theorem Steady.administration (h : Steady db) (hadmin : Administration c db db') :
    Steady db' ∧ SameTables db db' := by
  obtain ⟨op, hplain, hstep⟩ := hadmin
  obtain ⟨ids, hexec⟩ := hstep
  have hsame := execAll_plain_same hplain hexec
  exact ⟨h.congr (h.sound.execAll_plain hplain hexec) hsame, hsame⟩

/-! ## The insert of a call -/

/-- The id a call on rqlite names. -/
def raftKey (c : Cluster) (a : EventArgs) (eventId : Str) : Prop :=
  Raft.jsonParam c a.key = .ok (some eventId)

theorem raftKey_unique {k k' : Str} (h : raftKey c a k) (h' : raftKey c a k') : k = k' := by
  have := h.symm.trans h'
  simpa using this

/-- The event and the number a call sends. -/
structure Carries (c : Cluster) (a : EventArgs) (v : EventValues) (seq : Option Number) :
    Prop where
  key : raftKey c a v.eventId
  same : (v.source, v.target, v.type) = (a.source, a.target, a.type)
  bounded : ∀ t, seq = some t → Bounded t.1

/-- The statements a call sends. -/
def IsInsert (c : Cluster) (a : EventArgs) (stmts : List Stmt) : Prop :=
  ∃ v seq, Carries c a v seq ∧
    (stmts = messageStatements v (seq.map (·.1)) ∨
      ∃ g now, a.type = lit "command" ∧ stmts = commandStatements v (seq.map (·.1)) g now)

theorem intParam_bounded {i : ℤ} {s : SqlVal} (hc : Finite c) (h : intParam c i = .ok s) :
    Bounded s := by
  rw [intParam] at h
  split_ifs at h
  · cases h
    exact bounded_int i
  · cases hbig : c.bigInt i with
    | none => simp [hbig] at h
    | some f =>
      simp only [hbig] at h
      cases h
      exact bounded_real (hc.bigInt i f hbig)

theorem seqParam_bounded {v : Val} {seq : Option SqlVal} (hc : Finite c)
    (h : seqParam c v = .ok seq) :
    ∃ n : Option Number, seq = n.map (·.1) ∧ ∀ t, n = some t → Bounded t.1 := by
  by_cases hv : v = .none
  · subst hv
    cases h
    exact ⟨none, rfl, nofun⟩
  · have hparam : seqParam c v = (do return some (← intParam c (← pyInt v))) := by
      cases v <;> first | exact absurd rfl hv | rfl
    rw [hparam, bind_eq_ok] at h
    obtain ⟨i, -, h⟩ := h
    rw [bind_eq_ok] at h
    obtain ⟨s, hs, h⟩ := h
    cases h
    have hb := intParam_bounded hc hs
    refine ⟨some ⟨s, hb.1⟩, rfl, fun t ht => ?_⟩
    cases ht
    exact hb

theorem eventValues_ok {now : Time} {actor : Option Str}
    (h : Raft.eventValues c a now actor = .ok v) :
    raftKey c a v.eventId ∧ (v.source, v.target, v.type) = (a.source, a.target, a.type) := by
  rw [Raft.eventValues, bind_eq_ok] at h
  obtain ⟨key, hkey, h⟩ := h
  rw [bind_eq_ok] at h
  obtain ⟨created, -, h⟩ := h
  rw [bind_eq_ok] at h
  obtain ⟨ref, -, h⟩ := h
  cases h
  refine ⟨?_, rfl⟩
  rw [keyParam, bind_eq_ok] at hkey
  obtain ⟨k, hk, hkey⟩ := hkey
  cases k with
  | none => cases hkey
  | some k =>
    cases hkey
    exact hk

theorem messageRequest_isInsert {now : Time} {stmts : List Stmt} (hc : Finite c)
    (h : messageRequest c a now = .ok stmts) : IsInsert c a stmts := by
  rw [messageRequest, bind_eq_ok] at h
  obtain ⟨v, hv, h⟩ := h
  rw [bind_eq_ok] at h
  obtain ⟨seq, hseq, h⟩ := h
  cases h
  obtain ⟨n, rfl, hn⟩ := seqParam_bounded hc hseq
  obtain ⟨hkey, hsame⟩ := eventValues_ok hv
  exact ⟨v, n, ⟨hkey, hsame, hn⟩, .inl rfl⟩

theorem commandRequest_isInsert {now : Time} {grant : GrantRow} {stmts : List Stmt} (hc : Finite c)
    (htype : a.type = lit "command") (h : commandRequest c a now grant = .ok stmts) :
    IsInsert c a stmts := by
  rw [commandRequest, bind_eq_ok] at h
  obtain ⟨digest, -, h⟩ := h
  rw [bind_eq_ok] at h
  obtain ⟨v, hv, h⟩ := h
  rw [bind_eq_ok] at h
  obtain ⟨seq, hseq, h⟩ := h
  cases h
  obtain ⟨n, rfl, hn⟩ := seqParam_bounded hc hseq
  obtain ⟨hkey, hsame⟩ := eventValues_ok hv
  exact ⟨v, n, ⟨hkey, hsame, hn⟩, .inr ⟨_, _, htype, rfl⟩⟩

/-- The audit row of an accepted command, or nothing. -/
theorem exec_accept (db : Db) (values : AuditValues) (eventId source target : Str) :
    ∃ db', exec c db (.acceptCommand values eventId source target) = .ok (db', none) ∧
      SameTables db db' ∧
      (db.events.any (isCommand eventId source target) = false → db' = db) := by
  simp only [exec]
  split_ifs with h
  · exact ⟨_, rfl, .refl db, fun hnone => Bool.noConfusion (hnone.symm.trans h.1)⟩
  · exact ⟨_, rfl, .refl db, fun _ => rfl⟩

/-- What the request of a call leaves. An id that has its event keeps all as it is; when the event
is another caller's, so does the audit log. -/
theorem IsInsert.exec {stmts : List Stmt} (h : IsInsert c a stmts) (hdb : Steady db)
    (hc : Finite c) : ∃ db' ids, execAll c db stmts = .ok (db', ids) ∧ Steady db' ∧
      ∀ row ∈ db.events, raftKey c a row.eventId →
        SameTables db db' ∧ (¬ Same a row → db' = db) := by
  obtain ⟨v, seq, hv, hstmts⟩ := h
  have hknown : ∀ g, ∀ row ∈ db.events, raftKey c a row.eventId →
      execAll c db (insertStatements v (seq.map (·.1)) g) = .ok (db, [none, none]) := by
    intro g row hrow hkey
    have hid := raftKey_unique hkey hv.key
    exact execAll_insert_known hdb.sound (hasEvent_iff.mpr ⟨row, hrow, hid⟩) seq
  rcases hstmts with rfl | ⟨g, now, htype, rfl⟩
  · obtain ⟨db', hexec, hs⟩ := hdb.execAll_insert hc v seq hv.bounded (.acl v.source v.target)
    refine ⟨db', _, hexec, hs, fun row hrow hkey => ?_⟩
    have heq : db' = db := by
      have := hexec.symm.trans (hknown _ row hrow hkey)
      cases this
      rfl
    rw [heq]
    exact ⟨.refl db, fun _ => rfl⟩
  · obtain ⟨db₁, hexec, hs⟩ := hdb.execAll_insert hc v seq hv.bounded g
    obtain ⟨db', haccept, hsame, hnone⟩ :=
      exec_accept (c := c) db₁ (acceptValues v now) v.eventId v.source v.target
    refine ⟨db', [none, none] ++ [none],
      (execAll_append hexec).trans (by simp only [execAll, haccept]),
      hs.congr (hs.sound.acceptCommand rfl haccept) hsame, fun row hrow hkey => ?_⟩
    have heq : db₁ = db := by
      have := hexec.symm.trans (hknown g row hrow hkey)
      cases this
      rfl
    subst heq
    refine ⟨hsame, fun hid => hnone ?_⟩
    rw [List.any_eq_false]
    intro r hr hmatch
    simp only [isCommand, Bool.and_eq_true, decide_eq_true_eq] at hmatch
    obtain ⟨⟨⟨⟨hkeyr, hsource⟩, htarget⟩, htyper⟩, -⟩ := hmatch
    have hrr := List.inj_on_of_nodup_map hdb.legible.keys hr hrow
      (hkeyr.trans (raftKey_unique hv.key hkey))
    refine hid ?_
    rw [← hrr, Same, ← hv.same, hsource, htarget, htyper, ← htype]
    exact congrArg (fun t => (v.source, v.target, t)) (congrArg (·.2.2) hv.same).symm

/-! ## The steps of a call -/

/-- What a call carries. -/
def PhaseInv (c : Cluster) (db : Db) (a : EventArgs) : Phase → Prop
  | .grants => a.type = lit "command"
  | .commit stmts => IsInsert c a stmts
  | .done r => Own (raftKey c) db a r
  | _ => True

theorem ofExcept_inv {α : Type} {f : α → Phase} {x : Except Exn α}
    (h : ∀ y, x = .ok y → PhaseInv c db a (f y)) : PhaseInv c db a (Phase.ofExcept f x) := by
  cases x with
  | error e => exact own_error e
  | ok y => exact h y rfl

/-- An event that is found under the id of a call. -/
theorem eventOrNone_some {event : Event} (h : eventOrNone c db a.key = .ok (some event)) :
    ∃ row ∈ db.events, rowToEvent row = .ok event ∧ raftKey c a row.eventId := by
  rw [eventOrNone, bind_eq_ok] at h
  obtain ⟨k, hk, h⟩ := h
  cases hfind : Core.findEvent db k with
  | none =>
    rw [hfind] at h
    cases h
  | some row =>
    simp only [hfind, bind_eq_ok] at h
    obtain ⟨e, he, h⟩ := h
    cases h
    have hkey : some row.eventId = k := by
      have hsome := List.find?_some hfind
      simpa using hsome
    exact ⟨row, findEvent_mem hfind, he, by rw [raftKey, hk, hkey]⟩

theorem verify_own {event : Event} (h : eventOrNone c db a.key = .ok (some event)) :
    Own (raftKey c) db a (verifyEventIdentity event a.source a.target a.type) := by
  obtain ⟨row, hrow, hread, hkey⟩ := eventOrNone_some h
  intro event' hev
  obtain ⟨rfl, hid⟩ := verifyEventIdentity_ok hev
  obtain ⟨seq, -, rfl⟩ := rowToEvent_ok hread
  exact ⟨row, hrow, hread, hkey, hid⟩

/-- The event of an id that is there. -/
theorem eventOrNone_known (h : Legible db) (hrow : row ∈ db.events)
    (hkey : raftKey c a row.eventId) :
    eventOrNone c db a.key = (do return some (← rowToEvent row)) := by
  rw [eventOrNone, hkey, ok_bind, findEvent_of_nodup h.keys hrow]

theorem transaction_ok {stmts : List Stmt} {ids : List (Option ℕ)}
    (h : execAll c db stmts = .ok (db', ids)) : transaction c db stmts = (db', .ok ids) := by
  rw [transaction, h]

/-- The audit row of a refusal. -/
theorem step_audit (c : Cluster) (a : EventArgs) (now : Time) (result message : String) :
    (∃ e, ∀ db, Raft.step c a now db (.audit result message) = (db, .done (.error e))) ∨
      ∃ values : AuditValues, values.action = lit "command_reject" ∧
        ∀ db, Raft.step c a now db (.audit result message) =
          (insertAudit db values, .done (.error (.permission (lit message)))) := by
  cases h : rejectValues c a now result with
  | error e => exact .inl ⟨e, fun db => by rw [Raft.step, h]⟩
  | ok values =>
    refine .inr ⟨values, ?_, fun db => by rw [Raft.step, h]; rfl⟩
    rw [rejectValues, bind_eq_ok] at h
    obtain ⟨ref, -, h⟩ := h
    rw [bind_eq_ok] at h
    obtain ⟨key, -, h⟩ := h
    cases h
    rfl

/-- One request of a call. -/
theorem raftStep_inv {p : Phase} (hc : Finite c) (hdb : Steady db) (hp : PhaseInv c db a p)
    (now : Time) : Steady (Raft.step c a now db p).1 ∧
      PhaseInv c (Raft.step c a now db p).1 a (Raft.step c a now db p).2 ∧
      db.events <+: (Raft.step c a now db p).1.events := by
  cases p with
  | probe =>
    refine ⟨hdb, ofExcept_inv fun found hfound => ?_, List.prefix_rfl⟩
    cases found with
    | some event => exact verify_own hfound
    | none =>
      show PhaseInv c db a (if _ then _ else _)
      split_ifs with htype
      · exact htype
      · exact ofExcept_inv fun stmts hstmts => messageRequest_isInsert hc hstmts
  | grants =>
    refine ⟨hdb, ?_, List.prefix_rfl⟩
    cases hgrant : matchingGrant c db now a.source a.target a.payload with
    | none =>
      simp only [Raft.step, hgrant]
      trivial
    | some grant =>
      simp only [Raft.step, hgrant, afterGrants]
      split_ifs
      · trivial
      · exact ofExcept_inv fun stmts hstmts => commandRequest_isInsert hc hp hstmts
  | commit stmts =>
    obtain ⟨db', ids, hexec, hs, -⟩ := IsInsert.exec hp hdb hc
    simp only [Raft.step, transaction_ok hexec]
    exact ⟨hs, trivial, (execAll_extends hexec).events⟩
  | readBack =>
    refine ⟨hdb, ofExcept_inv fun found hfound => ?_, List.prefix_rfl⟩
    cases found with
    | some event => exact verify_own hfound
    | none =>
      show PhaseInv c db a (if _ then _ else _)
      split_ifs
      · trivial
      · exact own_error _
  | refuse late =>
    refine ⟨hdb, ofExcept_inv fun valid _ => ?_, List.prefix_rfl⟩
    cases valid <;> cases late <;> trivial
  | audit result message =>
    rcases step_audit c a now result message with ⟨e, he⟩ | ⟨values, hact, hv⟩
    · rw [he]
      exact ⟨hdb, own_error _, List.prefix_rfl⟩
    · rw [hv]
      refine ⟨hdb.congr (hdb.sound.insertAudit fun h => ?_) (.refl _), own_error _, List.prefix_rfl⟩
      rw [hact] at h
      exact absurd h (by decide)
  | done r => exact ⟨hdb, hp, List.prefix_rfl⟩

theorem raft_keeps (hc : Finite c) : (raftCalls c).Keeps (fun db => db = {}) (Administration c)
    (fun _ _ _ _ => True) Steady (PhaseInv c) (fun db db' => db.events <+: db'.events) where
  refl _ := List.prefix_rfl
  trans _ _ _ h h' := h.trans h'
  init db hdb := hdb ▸ .empty
  env db db' hdb h := by
    obtain ⟨hs, hsame⟩ := hdb.administration h
    exact ⟨hs, hsame.1 ▸ List.prefix_rfl⟩
  start db a _ := by
    show PhaseInv c db a (if _ then _ else _)
    split_ifs <;> trivial
  mono db db' a p hev hp := by
    cases p with
    | done r => exact Own.mono hp hev
    | _ => exact hp
  step _ _ now _ hdb hp _ _ := raftStep_inv hc hdb hp now

/-- With an event of the call's id nothing is inserted. -/
theorem raftStep_known {p : Phase} (hc : Finite c) (hdb : Steady db) (hp : PhaseInv c db a p)
    (hrow : row ∈ db.events) (hkey : raftKey c a row.eventId) (now : Time) :
    SameTables db (Raft.step c a now db p).1 := by
  cases p with
  | commit stmts =>
    obtain ⟨db', ids, hexec, -, hsame⟩ := IsInsert.exec hp hdb hc
    simp only [Raft.step, transaction_ok hexec]
    exact (hsame row hrow hkey).1
  | audit result message =>
    rcases step_audit c a now result message with ⟨e, he⟩ | ⟨values, -, hv⟩
    · rw [he]
      exact .refl db
    · rw [hv]
      exact .refl db
  | _ => exact .refl db

/-- A call of another identity does the same on ledgers alike. -/
theorem raftStep_alike {db₁ db₂ : Db} {p : Phase} (hc : Finite c)
    (h : Alike row.eventId db₁ db₂) (h₁ : Steady db₁) (h₂ : Steady db₂) (hrow : row ∈ db₁.events)
    (hkey : raftKey c a row.eventId) (hid : ¬ Same a row) (hp : PhaseInv c db₁ a p) (now : Time) :
    (Raft.step c a now db₁ p).2 = (Raft.step c a now db₂ p).2 ∧
      Alike row.eventId (Raft.step c a now db₁ p).1 (Raft.step c a now db₂ p).1 := by
  obtain ⟨row', hrow', hkey', hsame⟩ := h.exists_row (a := a) hrow rfl
  have hid' : ¬ Same a row' := fun hs => hid (hsame.mp hs)
  have hread : ∀ f : Option Event → Phase,
      (∀ event, f (some event) = .done (verifyEventIdentity event a.source a.target a.type)) →
      Phase.ofExcept f (eventOrNone c db₁ a.key) = Phase.ofExcept f (eventOrNone c db₂ a.key) := by
    intro f hf
    have hone : ∀ db, Steady db → ∀ r ∈ db.events, r.eventId = row.eventId → ¬ Same a r →
        Phase.ofExcept f (eventOrNone c db a.key) =
          .done (.error (.eventIdConflict row.eventId)) := fun db hdb r hr hrk hrid => by
      obtain ⟨event, hevent⟩ := hdb.legible.rows r hr
      have hconf := hdb.legible.conflict hr hrid
      rw [hevent, ok_bind, hrk] at hconf
      rw [eventOrNone_known hdb.legible hr (hrk ▸ hkey), hevent, ok_bind]
      exact (hf event).trans (congrArg Phase.done hconf)
    rw [hone db₁ h₁ row hrow rfl hid, hone db₂ h₂ row' hrow' hkey' hid']
  cases p with
  | probe => exact ⟨hread _ fun _ => rfl, h⟩
  | readBack => exact ⟨hread _ fun _ => rfl, h⟩
  | commit stmts =>
    obtain ⟨db₁', ids₁, hexec₁, -, hkeep₁⟩ := IsInsert.exec hp h₁ hc
    obtain ⟨db₂', ids₂, hexec₂, -, hkeep₂⟩ := IsInsert.exec hp h₂ hc
    simp only [Raft.step, transaction_ok hexec₁, transaction_ok hexec₂]
    rw [(hkeep₁ row hrow hkey).2 hid, (hkeep₂ row' hrow' (hkey' ▸ hkey)).2 hid']
    exact ⟨trivial, h⟩
  | audit result message =>
    rcases step_audit c a now result message with ⟨e, he⟩ | ⟨values, -, hv⟩
    · rw [he, he]
      exact ⟨rfl, h⟩
    · rw [hv, hv]
      exact ⟨rfl, h.congr (fun db => insertAudit db values) rfl rfl (fun _ _ => rfl) rfl⟩
  | grants | refuse =>
    obtain ⟨payload, seq, created, stored, rfl⟩ := h
    exact ⟨rfl, payload, seq, created, stored, rfl⟩
  | done r => exact ⟨rfl, h⟩

/-- How far a call is from its end. -/
def remaining : Phase → ℕ
  | .probe => 6
  | .grants => 5
  | .commit _ => 4
  | .readBack => 3
  | .refuse _ => 2
  | .audit .. => 1
  | .done _ => 0

theorem remaining_ofExcept {α : Type} {f : α → Phase} {x : Except Exn α} {n : ℕ} (hn : 0 < n)
    (h : ∀ y, remaining (f y) < n) : remaining (Phase.ofExcept f x) < n := by
  cases x with
  | error e => exact hn
  | ok y => exact h y

theorem remaining_step {p : Phase} (now : Time) (db : Db) (hp : (raftCalls c).result p = none) :
    remaining (Raft.step c a now db p).2 < remaining p := by
  cases p with
  | probe =>
    refine remaining_ofExcept (by decide) fun found => ?_
    cases found with
    | some event => exact Nat.zero_lt_succ _
    | none =>
      show remaining (if _ then _ else _) < _
      split_ifs
      · exact Nat.lt_succ_self _
      · exact remaining_ofExcept (by decide) fun _ => of_decide_eq_true rfl
  | grants =>
    simp only [Raft.step]
    cases matchingGrant c db now a.source a.target a.payload with
    | none => exact of_decide_eq_true rfl
    | some grant =>
      simp only [afterGrants]
      split_ifs
      · exact of_decide_eq_true rfl
      · exact remaining_ofExcept (by decide) fun _ => Nat.lt_succ_self _
  | commit stmts =>
    simp only [Raft.step]
    split <;> simp [remaining]
  | readBack =>
    refine remaining_ofExcept (by decide) fun found => ?_
    cases found with
    | some event => exact Nat.zero_lt_succ _
    | none =>
      show remaining (if _ then _ else _) < _
      split_ifs <;> decide
  | refuse late =>
    refine remaining_ofExcept (by simp [remaining]) fun valid => ?_
    cases valid <;> cases late <;> exact Nat.lt_succ_self _
  | audit result message =>
    rcases step_audit c a now result message with ⟨e, he⟩ | ⟨values, -, hv⟩
    · rw [he]
      exact Nat.zero_lt_succ _
    · rw [hv]
      exact Nat.zero_lt_succ _
  | done r => cases hp

theorem raft_idempotent (hc : Finite c) : Idempotent (raftCalls c) (fun db => db = {})
    (Administration c) (fun _ _ _ _ => True) (raftKey c) where
  unique _ hw := ((raft_keeps hc).reach hw).1.legible.keys
  kept _ _ hw hrun := (raft_keeps hc).run hw hrun
  repeated w w' i a row hrow hw hi hkey hid hsourced hrun := by
    obtain ⟨event, hevent⟩ := ((raft_keeps hc).reach hw).1.legible.rows row hrow
    have hstart : (raftCalls c).start a = .probe := if_neg hsourced
    obtain ⟨p, hp, hQ⟩ := (raft_keeps hc).call
      (Q := fun p => p = .probe ∨ p = .done (.ok event)) hw hi (.inl hstart)
      (fun db now p hdb hev hp hnone => by
        rcases hp with rfl | rfl
        · right
          have hmem := hev.mem hrow
          have hown := verify_same hevent hid
          rw [hevent, ok_bind] at hown
          show Phase.ofExcept _ (eventOrNone c db a.key) = _
          rw [eventOrNone_known hdb.legible hmem hkey, hevent, ok_bind]
          exact congrArg Phase.done hown
        · cases hnone) hrun
    have hw' := hw.run hrun
    have hmem := ((raft_keeps hc).run hw hrun).mem hrow
    obtain ⟨hdb', hcalls'⟩ := (raft_keeps hc).reach hw'
    refine ⟨p, event, hp, hevent, fun now => ?_, fun r hr => ?_⟩
    · exact raftStep_known hc hdb' (hcalls' _ (List.mem_of_getElem? hp)) hmem hkey now
    · rcases hQ with rfl | rfl
      · cases hr
      · exact (Option.some.inj hr).symm
  refused w row hrow call hcall hw hkey hid := by
    obtain ⟨hdb, hcalls⟩ := (raft_keeps hc).reach hw
    refine ⟨fun now => raftStep_known hc hdb (hcalls _ hcall) hrow hkey now, fun r hr => ?_⟩
    obtain ⟨a, p⟩ := call
    have hp := hcalls _ hcall
    cases p with
    | done r' =>
      cases hr
      exact Own.refused hp hdb.legible.keys (fun _ _ => raftKey_unique) hrow hkey hid
    | _ => cases hr
  secret w₁ w₂ row hrow call hcall hw₁ hw₂ halike hkey hid now := by
    obtain ⟨hdb, hcalls⟩ := (raft_keeps hc).reach hw₁
    exact raftStep_alike hc halike hdb ((raft_keeps hc).reach hw₂).1 hrow hkey hid
      (hcalls _ hcall) now
  own w call hcall hw event hr := by
    obtain ⟨a, p⟩ := call
    have hp := ((raft_keeps hc).reach hw).2 _ hcall
    cases p with
    | done r =>
      cases hr
      exact Own.source hp
    | _ => cases hr
  ends := ⟨remaining, fun _ now db _ hnone => remaining_step now db hnone⟩

/-! ## Both backends -/

/-- A message from `alice` to `bob` whose sequence number is no number. -/
def abcCall : EventArgs where
  source := lit "alice"
  target := lit "bob"
  type := lit "message"
  payload := []
  seq := .str (lit "abc")
  eventId := .str (lit "e")
  createdAt := .none
  requiresAck := .bool true
  sourceRef := .none
  token := .none
  now := lit "2026-01-01T12:00:00Z"
  newId := []

end Backends
end ATalk
