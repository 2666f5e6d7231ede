import ATalk.Federation.Receive
import ATalk.Raft.Ledger
import Mathlib.Data.Rat.Floor

/-!
# Sequence numbers on SQLite

The counter of a source is the highest number it has used. An automatic number is the next one,
and it is stored unless the counter stands at the end of the 64-bit range.

* `numbering` : calls, inbound events and other changes of a ledger;
* `Numbered` : the invariant, with the counter at a number that was used;
* `Advances` : a call that commits with a number above all earlier ones;
* `numbers_rise` : it holds, and an automatic call advances exactly with room and values to store.
-/

namespace ATalk
namespace Backends

open Text Python Sqlite ATalk.Core Federation Checks Transition
open Raft (counterValue counterValue_upsert)

/-! ## Runs -/

/-- A sequence number of the caller is an integer, or there is none. -/
def IntegerSeq : Val → Prop
  | .none => True
  | .bool _ => True
  | .int _ => True
  | _ => False

inductive NumberAction where
  | insert (a : EventArgs)
  | receive (p : InboundParams) (now : Time)
  | other (db : Db)

/-- The ledgers of a store whose callers number with integers. -/
def numbering (env : Env) : System Db NumberAction where
  init db := db.events = [] ∧ db.sourceCounters = []
  step db act db' :=
    match act with
    | .insert a => IntegerSeq a.seq ∧ db' = (insertEvent env a db).1
    | .receive p now => ∃ res, receiveEvent env db p now = .ok (db', res)
    | .other db₁ => db' = { db₁ with events := db.events, sourceCounters := db.sourceCounters }

/-! ## What should hold -/

/-- No event is numbered above the counter of its source. -/
def HighWater (db : Db) : Prop :=
  ∀ row ∈ db.events, ∃ i n : ℤ, row.seq = .int i ∧
    counterValue db row.source = some (.int n) ∧ i ≤ n

/-- A call whose id is new and whose caller may send it. -/
structure Passes (env : Env) (db : Db) (a : EventArgs) : Prop where
  sourced : ¬ (a.type = lit "command" ∧ a.sourceRef.truthy = false)
  fresh : ∃ key, textParam env a.key = .ok key ∧ findEvent db key = none
  allowed : ∃ actor, authorize env db a = .ok (.allowed actor)

/-- A call that commits a row and returns it, numbered above all rows of its source. -/
def Advances (env : Env) (db : Db) (a : EventArgs) : Prop :=
  ∃ (row : EventRow) (i : ℤ), (insertEvent env a db).1.events = db.events ++ [row] ∧
    (insertEvent env a db).2 = rowToEvent row ∧ row.source = a.source ∧ row.seq = .int i ∧
    ∀ r ∈ db.events, r.source = a.source → ∃ j : ℤ, r.seq = .int j ∧ j < i

/-- The counter of the source can move on. -/
def Room (db : Db) (source : Str) : Prop := counterValue db source ≠ some (.int maxInt)

/-- The values of the call can be bound, and none is NULL that must not be. -/
def Storable (env : Env) (a : EventArgs) : Prop :=
  ∃ key created ref, rowParams env a (.int 0) = .ok ⟨some key, .int 0, some created, ref⟩

variable {env : Env} {db db' : Db} {a : EventArgs} {source : Str} {n : ℤ}

/-! ## The invariant -/

/-- Every counter stands at the highest number of its source. -/
structure Numbered (db : Db) : Prop where
  reached : ∀ source v, counterValue db source = some v → ∃ n : ℤ, v = .int n ∧ minInt ≤ n ∧
    n ≤ maxInt ∧ ∃ row ∈ db.events, row.source = source ∧ row.seq = .int n
  high : HighWater db

theorem Numbered.congr (h : Numbered db) (hev : db'.events = db.events)
    (hcnt : db'.sourceCounters = db.sourceCounters) : Numbered db' where
  reached s v hv := by
    rw [counterValue, findCounter, hcnt] at hv
    rw [hev]
    exact h.reached s v hv
  high row hrow := by
    rw [hev] at hrow
    rw [counterValue, findCounter, hcnt]
    exact h.high row hrow

/-- A new row whose counter is raised to the higher of the two numbers. -/
theorem Numbered.append (row : EventRow) {i m : ℤ} (h : Numbered db)
    (hev : db'.events = db.events ++ [row]) (hseq : row.seq = .int i)
    (hrange : minInt ≤ i ∧ i ≤ maxInt)
    (hcnt : ∀ s, counterValue db' s =
      if s = row.source then some (.int m) else counterValue db s)
    (him : i ≤ m) (hold : ∀ n, counterValue db row.source = some (.int n) → n ≤ m)
    (hm : m = i ∨ counterValue db row.source = some (.int m)) : Numbered db' where
  reached s v hv := by
    rw [hcnt] at hv
    split_ifs at hv with hs
    · cases hv
      rcases hm with rfl | hm
      · refine ⟨m, rfl, hrange.1, hrange.2, row, ?_, hs.symm, hseq⟩
        rw [hev]
        exact List.mem_append_right _ (List.mem_singleton_self _)
      · obtain ⟨n, hn, hmin, hmax, r, hr, hrs, hrn⟩ := h.reached _ _ hm
        cases hn
        refine ⟨m, rfl, hmin, hmax, r, ?_, hrs.trans hs.symm, hrn⟩
        rw [hev]
        exact List.mem_append_left _ hr
    · obtain ⟨n, hn, hmin, hmax, r, hr, hrest⟩ := h.reached _ _ hv
      refine ⟨n, hn, hmin, hmax, r, ?_, hrest⟩
      rw [hev]
      exact List.mem_append_left _ hr
  high r hr := by
    rw [hev, List.mem_append, List.mem_singleton] at hr
    rw [hcnt]
    rcases hr with hr | rfl
    · obtain ⟨j, n, hj, hn, hle⟩ := h.high r hr
      split_ifs with hs
      · rw [hs] at hn
        exact ⟨j, m, hj, rfl, hle.trans (hold n hn)⟩
      · exact ⟨j, n, hj, hn, hle⟩
    · rw [if_pos rfl]
      exact ⟨i, m, hseq, rfl, him⟩

/-! ## The next number -/

/-- `int` of a number that is not below an integer. -/
theorem intOf_ge {v : SqlVal} {m i : ℤ} (hm : 0 ≤ m) (hn : v.Numeric)
    (hv : (SqlVal.int m).ext ≤ v.ext) (hi : intOf v = .ok i) : m ≤ i := by
  cases v with
  | int j =>
    cases hi
    simpa [SqlVal.ext, SqlVal.number, place] using hv
  | real f =>
    cases f with
    | fin neg mag =>
      simp only [intOf, Flt.value, Except.ok.injEq] at hi
      simp only [SqlVal.ext, SqlVal.number, place, Bool.false_eq_true, if_false,
        WithBot.coe_le_coe, WithTop.coe_le_coe] at hv
      generalize (if neg = true then -mag else mag) = q at hi hv
      have hq : 0 ≤ q := le_trans (by exact_mod_cast hm) hv
      have hfloor : ⌊q⌋ = i := by
        rw [Rat.floor_def', ← hi, Int.tdiv_eq_ediv_of_nonneg (Rat.num_nonneg.mpr hq)]
      rw [← hfloor]
      exact Int.le_floor.mpr hv
    | _ => cases hi
  | _ => exact absurd hn id

/-- What the allocator does: the first number, the next one, or, past the end of the range,
a number that is not below the end. -/
theorem Numbered.allocated (h : Numbered db) {db₁ : Db}
    (hnext : nextSeq env db source = .ok (db₁, n)) :
    (counterValue db source = none ∧ n = 1 ∨
        (∃ m : ℤ, counterValue db source = some (.int m) ∧ minInt ≤ m ∧ m < maxInt ∧ n = m + 1) ∨
        counterValue db source = some (.int maxInt) ∧ maxInt ≤ n) ∧
      (Room db source → ∀ s, counterValue db₁ s =
        if s = source then some (.int n) else counterValue db s) := by
  rw [Core.nextSeq, bind_eq_ok] at hnext
  obtain ⟨_, -, hnext⟩ := hnext
  have hcnt : ∀ s, counterValue (bumpCounter env db source) s = if s = source then
      some (((counterValue db source).map fun v =>
        integerColumn env.engine (sqlSucc env.engine v)).getD (.int 1))
      else counterValue db s := counterValue_upsert _ _
  dsimp only at hnext
  split at hnext
  · cases hnext
  next row hrow =>
    rw [bind_eq_ok] at hnext
    obtain ⟨i, hi, hnext⟩ := hnext
    cases hnext
    have hlast : some row.lastSeq = counterValue (bumpCounter env db source) source := by
      rw [counterValue, hrow]
      rfl
    rw [hcnt, if_pos rfl] at hlast
    cases hold : counterValue db source with
    | none =>
      rw [hold] at hlast hcnt
      have h1 : row.lastSeq = .int 1 := Option.some.inj hlast
      rw [h1] at hi
      cases hi
      exact ⟨.inl ⟨rfl, rfl⟩, fun _ => hcnt⟩
    | some v =>
      obtain ⟨m, rfl, hmin, hmax, -⟩ := h.reached _ _ hold
      rw [hold] at hlast hcnt
      have hv : row.lastSeq = integerColumn env.engine (sqlSucc env.engine (.int m)) :=
        Option.some.inj hlast
      by_cases hlt : m < maxInt
      · have hsucc : sqlSucc env.engine (.int m) = .int (m + 1) := if_pos hlt
        rw [hv, hsucc] at hi
        cases hi
        refine ⟨.inr (.inl ⟨m, rfl, hmin, hlt, rfl⟩), fun _ s => ?_⟩
        rw [hcnt, Option.map_some, Option.getD_some, hsucc]
        rfl
      · have hm : m = maxInt := by omega
        subst hm
        refine ⟨.inr (.inr ⟨rfl, ?_⟩), fun hroom => absurd hold hroom⟩
        obtain ⟨hn, hle⟩ := sqlSucc_spec env.engine (v := .int maxInt) trivial
        obtain ⟨hcol, hext⟩ := integerColumn_spec env.engine hn
        rw [hv] at hi
        exact intOf_ge (by decide) hcol (hext ▸ hle) hi

/-- An automatic number is above all rows of its source. -/
theorem Numbered.lt_next (h : Numbered db) {db₁ : Db}
    (hnext : nextSeq env db source = .ok (db₁, n)) (hroom : Room db source) :
    ∀ r ∈ db.events, r.source = source → ∃ j : ℤ, r.seq = .int j ∧ j < n := by
  intro r hr hs
  obtain ⟨j, m, hj, hm, hle⟩ := h.high r hr
  rw [hs] at hm
  rcases (h.allocated hnext).1 with ⟨hnone, -⟩ | ⟨m', hm', -, -, rfl⟩ | ⟨hedge, -⟩
  · rw [hnone] at hm
    cases hm
  · rw [hm'] at hm
    cases hm
    exact ⟨j, hj, by omega⟩
  · exact absurd hedge hroom

/-- A number past the end of the range is taken, or cannot be bound. -/
theorem Numbered.room (h : Numbered db) {db₁ : Db} (hnext : nextSeq env db source = .ok (db₁, n))
    (hmax : n ≤ maxInt)
    (hfree : ∀ r ∈ db.events, r.source = source → sqlEq r.seq (.int n) = false) :
    Room db source := by
  intro hedge
  rcases (h.allocated hnext).1 with ⟨hnone, -⟩ | ⟨m, hm, -, hlt, -⟩ | ⟨-, hge⟩
  · rw [hnone] at hedge
    cases hedge
  · rw [hm] at hedge
    cases hedge
    exact absurd hlt (lt_irrefl _)
  · obtain ⟨m, hm, -, -, r, hr, hrs, hrm⟩ := h.reached _ _ hedge
    cases hm
    have htaken := hfree r hr hrs
    rw [hrm, sqlEq_int, decide_eq_false_iff_not] at htaken
    omega

theorem Numbered.next_range (h : Numbered db) {db₁ : Db}
    (hnext : nextSeq env db source = .ok (db₁, n)) (hroom : Room db source) :
    minInt ≤ n ∧ n ≤ maxInt := by
  rcases (h.allocated hnext).1 with ⟨-, rfl⟩ | ⟨m, -, hmin, hlt, rfl⟩ | ⟨hedge, -⟩
  · decide
  · omega
  · exact absurd hedge hroom

/-- With room the allocator finds a number. -/
theorem Numbered.nextSeq_ok (h : Numbered db) (env : Env) (hclean : strParam source = .ok ())
    (hroom : Room db source) : ∃ db₁ n, nextSeq env db source = .ok (db₁, n) := by
  have hcnt : counterValue (bumpCounter env db source) source = _ :=
    counterValue_upsert (.int 1) (fun v => integerColumn env.engine (sqlSucc env.engine v)) source
  rw [if_pos rfl] at hcnt
  have hlast : ∃ i : ℤ, counterValue (bumpCounter env db source) source = some (.int i) := by
    cases hold : counterValue db source with
    | none =>
      rw [hold] at hcnt
      exact ⟨1, hcnt⟩
    | some v =>
      obtain ⟨m, rfl, -, hmax, -⟩ := h.reached _ _ hold
      have hlt : m < maxInt := by
        refine lt_of_le_of_ne hmax ?_
        rintro rfl
        exact hroom hold
      have hsucc : sqlSucc env.engine (.int m) = .int (m + 1) := if_pos hlt
      rw [hold, Option.map_some, Option.getD_some, hsucc] at hcnt
      exact ⟨m + 1, hcnt⟩
  obtain ⟨i, hi⟩ := hlast
  rw [counterValue, Option.map_eq_some_iff] at hi
  obtain ⟨row, hrow, hseq⟩ := hi
  refine ⟨bumpCounter env db source, i, ?_⟩
  rw [Core.nextSeq, hclean, ok_bind]
  simp only [hrow, hseq]
  rfl

/-! ## Writers -/

theorem integerParam_int {i : ℤ} {s : SqlVal} (h : integerParam env (.int i) = .ok s) :
    s = .int i ∧ minInt ≤ i ∧ i ≤ maxInt := by
  simp only [integerParam, Sqlite.bind] at h
  split at h
  · cases h
  next x hx =>
    split_ifs at hx with hrange
    cases hx
    exact ⟨(Except.ok.inj h).symm, hrange⟩

theorem integerParam_of_range {i : ℤ} (h : minInt ≤ i ∧ i ≤ maxInt) :
    integerParam env (.int i) = .ok (.int i) := by
  rw [integerParam, bind_int h]
  rfl

/-- A row whose number is an integer. -/
theorem rowParams_int {i : ℤ} {p : RowParams} (h : rowParams env a (.int i) = .ok p) :
    p.seq = .int i ∧ (minInt ≤ i ∧ i ≤ maxInt) ∧ strParam a.source = .ok () ∧
      ∀ j : ℤ, minInt ≤ j ∧ j ≤ maxInt → rowParams env a (.int j) = .ok { p with seq := .int j } := by
  have hall := h
  simp only [rowParams, bind_eq_ok, pure_eq_ok] at h
  obtain ⟨key, hkey, u, hsource, _, htarget, _, htype, seq, hseq, created, hcreated, _, hpayload,
    ref, href, rfl⟩ := h
  obtain ⟨rfl, hrange⟩ := integerParam_int hseq
  refine ⟨rfl, hrange, hsource, fun j hj => ?_⟩
  rw [rowParams, hkey, ok_bind, hsource, ok_bind, htarget, ok_bind, htype, ok_bind,
    integerParam_of_range hj, ok_bind, hcreated, ok_bind, hpayload, ok_bind, href, ok_bind]
  rfl

/-- The number a call of ours is allocated: its own integer, or the counter's next. -/
theorem allocate_integer {db₁ : Db} {v : Val} (hseq : IntegerSeq a.seq)
    (h : allocate env db a = .ok (db₁, v)) :
    (∃ n : ℤ, a.seq = .none ∧ v = .int n ∧ nextSeq env db a.source = .ok (db₁, n)) ∨
      db₁ = db ∧ ∀ s, integerParam env v = .ok s → ∃ i : ℤ, s = .int i ∧ minInt ≤ i ∧ i ≤ maxInt := by
  cases ha : a.seq with
  | none =>
    left
    rw [allocate, ha] at h
    simp only [bind_eq_ok, pure_eq_ok, Prod.exists, Prod.mk.injEq] at h
    obtain ⟨db₂, n, hn, rfl, rfl⟩ := h
    exact ⟨n, rfl, rfl, hn⟩
  | bool b =>
    right
    rw [allocate_given env db (by rw [ha]; exact nofun), ha] at h
    cases h
    refine ⟨rfl, fun s hs => ?_⟩
    cases hs
    refine ⟨if b then 1 else 0, rfl, ?_⟩
    cases b <;> decide
  | int i =>
    right
    rw [allocate_given env db (by rw [ha]; exact nofun), ha] at h
    cases h
    exact ⟨rfl, fun s hs => ⟨i, integerParam_int hs⟩⟩
  | _ => exact absurd hseq (by rw [ha]; exact id)

theorem counterValue_of_eq (h : db'.sourceCounters = db.sourceCounters) (s : Str) :
    counterValue db' s = counterValue db s := by
  rw [counterValue, findCounter, h]
  rfl

theorem counterValue_raised (db : Db) (source : Str) (seq : SqlVal) (s : Str) :
    counterValue (raiseCounter db source seq) s = if s = source then
      some (((counterValue db source).map fun v => sqlMax v seq).getD seq)
      else counterValue db s := counterValue_upsert _ _ _

theorem Committed.seqParam {row : EventRow} {v : Val} {key created ref : Option Str}
    (h : rowParams env a v = .ok ⟨key, row.seq, created, ref⟩) :
    integerParam env v = .ok row.seq := by
  simp only [rowParams, bind_eq_ok, pure_eq_ok] at h
  obtain ⟨_, -, _, -, _, -, _, -, seq, hseq, _, -, _, -, _, -, heq⟩ := h
  have heq' : seq = row.seq := congrArg RowParams.seq heq
  rw [hseq, heq']

/-- A committed automatic number. -/
theorem Committed.automatic {row : EventRow} (hc : Committed env a db row db') (h : Numbered db)
    (hnone : a.seq = .none) : ∃ db₁ n, nextSeq env db a.source = .ok (db₁, n) ∧
      row.seq = .int n ∧ Room db a.source ∧
      rowParams env a (.int n) = .ok ⟨some row.eventId, row.seq, some row.createdAt, row.sourceRef⟩ ∧
      db'.sourceCounters = (raiseCounter db₁ a.source row.seq).sourceCounters := by
  obtain ⟨db₁, v, halloc, hparams, hcnt⟩ := hc.slot
  rw [allocate, hnone] at halloc
  simp only [bind_eq_ok, pure_eq_ok, Prod.exists, Prod.mk.injEq] at halloc
  obtain ⟨db₂, n, hnext, rfl, rfl⟩ := halloc
  obtain ⟨hseq, ⟨-, hmax⟩, -⟩ := rowParams_int hparams
  have hseq' : row.seq = .int n := hseq
  refine ⟨db₂, n, hnext, hseq', h.room hnext hmax fun r hr hs => ?_, hparams, hcnt⟩
  rw [← hseq']
  exact hc.free r hr hs

/-- A committed call keeps the counters at their highest numbers. -/
theorem Committed.numbered {row : EventRow} (hc : Committed env a db row db') (h : Numbered db)
    (hseq : IntegerSeq a.seq) : Numbered db' := by
  have hsource : row.source = a.source := by
    rw [hc.columns]
    rfl
  by_cases hnone : a.seq = .none
  · obtain ⟨db₁, n, hnext, hrow, hroom, -, hcnt⟩ := Committed.automatic hc h hnone
    have hold : ∀ m, counterValue db row.source = some (.int m) → m ≤ n := by
      intro m hm
      rw [hsource] at hm
      rcases (h.allocated hnext).1 with ⟨hno, -⟩ | ⟨m', hm', -, -, rfl⟩ | ⟨hedge, -⟩
      · rw [hno] at hm
        cases hm
      · rw [hm'] at hm
        cases hm
        omega
      · exact absurd hedge hroom
    refine h.append row hc.events hrow (h.next_range hnext hroom) (fun s => ?_) le_rfl hold (.inl rfl)
    rw [counterValue_of_eq hcnt, counterValue_raised, (h.allocated hnext).2 hroom, if_pos rfl, hrow,
      Option.map_some, Option.getD_some, sqlMax_int, max_self, hsource]
    split_ifs with hs
    · rfl
    · rw [(h.allocated hnext).2 hroom, if_neg hs]
  · obtain ⟨db₁, v, halloc, hparams, hcnt⟩ := hc.slot
    rcases allocate_integer hseq halloc with ⟨n, hn, -⟩ | ⟨rfl, hint⟩
    · exact absurd hn hnone
    · obtain ⟨i, hrow, hrange⟩ := hint _ (Committed.seqParam hparams)
      have hcnt' : ∀ s, counterValue db' s = if s = row.source then
          some (((counterValue db₁ row.source).map fun v => sqlMax v (.int i)).getD (.int i))
          else counterValue db₁ s := fun s => by
        rw [counterValue_of_eq hcnt, counterValue_raised, hrow, hsource]
      cases hold : counterValue db₁ row.source with
      | none =>
        rw [hold] at hcnt'
        exact h.append row hc.events hrow hrange hcnt' le_rfl
          (fun n hn => by rw [hold] at hn; cases hn) (.inl rfl)
      | some v =>
        obtain ⟨n, rfl, -⟩ := h.reached _ _ hold
        rw [hold, Option.map_some, Option.getD_some, sqlMax_int] at hcnt'
        refine h.append row hc.events hrow hrange hcnt' (le_max_right _ _) (fun m hm => ?_) ?_
        · rw [hold] at hm
          cases hm
          exact le_max_left _ _
        · rcases le_total n i with hle | hle
          · exact .inl (max_eq_right hle)
          · rw [max_eq_left hle]
            exact .inr hold

/-- An inbound event keeps them as well. -/
theorem receiveEvent_numbered {p : InboundParams} {now : Time} {res : Received} (h : Numbered db)
    (hrec : receiveEvent env db p now = .ok (db', res)) : Numbered db' := by
  unfold receiveEvent at hrec
  split at hrec
  · cases hrec
  next db₁ row htxn =>
    cases hrec
    unfold receiveTxn at htxn
    split at htxn
    · cases htxn
    split at htxn
    · cases htxn
    next db₂ n hnext =>
      split at htxn
      · cases htxn
      next v hv =>
        split_ifs at htxn with hid hslot
        cases htxn
        have hrange : minInt ≤ n ∧ n ≤ maxInt := by
          by_contra hout
          rw [bind_int_overflow hout] at hv
          cases hv
        rw [bind_int hrange] at hv
        cases hv
        have hfree : ∀ r ∈ db.events, r.source = p.sourceAddr → sqlEq r.seq (.int n) = false := by
          simpa using hslot
        have hroom := h.room hnext hrange.2 hfree
        refine h.append (localRow db p n now) rfl rfl hrange (fun s => ?_) le_rfl ?_ (.inl rfl)
        · exact (h.allocated hnext).2 hroom s
        · intro m hm
          have hm' : counterValue db p.sourceAddr = some (.int m) := hm
          rcases (h.allocated hnext).1 with ⟨hno, -⟩ | ⟨m', hm'', -, -, rfl⟩ | ⟨hedge, -⟩
          · rw [hno] at hm'
            cases hm'
          · rw [hm''] at hm'
            cases hm'
            omega
          · exact absurd hedge hroom
  · rw [Except.ok.injEq] at hrec
    unfold classifyReceived at hrec
    split at hrec
    · split_ifs at hrec
      all_goals
        cases hrec
        exact h.congr rfl rfl
    · cases hrec
      exact h.congr rfl rfl

/-- One action of a run. -/
theorem numbering_step {act : NumberAction} (h : Numbered db)
    (hstep : (numbering env).step db act db') : Numbered db' := by
  cases act with
  | insert a =>
    obtain ⟨hseq, rfl⟩ := hstep
    rcases insertEvent_cases env a db with ⟨hr, -⟩ | ⟨row, hc, -⟩
    · exact h.congr hr.events hr.sourceCounters
    · exact Committed.numbered hc h hseq
  | receive p now =>
    obtain ⟨res, hrec⟩ := hstep
    exact receiveEvent_numbered h hrec
  | other db₁ =>
    cases hstep
    exact h.congr rfl rfl

theorem numbered_of_reach (h : Reachable (numbering env) db) : Numbered db := by
  refine h.invariant (fun s hs => ⟨fun source v hv => ?_, fun row hrow => ?_⟩)
    fun _ _ _ hs _ hstep => numbering_step hs hstep
  · rw [counterValue, findCounter, hs.2] at hv
    cases hv
  · rw [hs.1] at hrow
    cases hrow

/-! ## Automatic numbers -/

/-- With room and values to store an automatic call advances. -/
theorem Passes.advances (hp : Passes env db a) (h : Numbered db) (hnone : a.seq = .none)
    (hroom : Room db a.source) (hstore : Storable env a) : Advances env db a := by
  obtain ⟨k, created, ref, hparams⟩ := hstore
  obtain ⟨-, -, hclean, hall⟩ := rowParams_int hparams
  obtain ⟨db₁, n, hnext⟩ := h.nextSeq_ok env hclean hroom
  obtain ⟨key, hkey, hfresh⟩ := hp.fresh
  obtain ⟨actor, hactor⟩ := hp.allowed
  have hkey' : key = some k := Except.ok.inj (hkey.symm.trans (textParam_of_rowParams hparams))
  rw [hkey'] at hfresh
  have hlt := h.lt_next hnext hroom
  have hframe := nextSeq_frame hnext
  have hev : db₁.events = db.events := by rw [hframe]
  have hfree : ∀ r ∈ db₁.events, r.source = a.source → sqlEq r.seq (.int n) = false := by
    intro r hr hs
    obtain ⟨j, hj, hjn⟩ := hlt r (hev ▸ hr) hs
    rw [hj, sqlEq_int, decide_eq_false_iff_not]
    omega
  have hfresh₁ : findEvent db₁ (some k) = none := by
    rw [findEvent, hev]
    exact hfresh
  have halloc : allocate env db a = .ok (db₁, .int n) := by
    rw [allocate, hnone]
    simp only [hnext, ok_bind]
    rfl
  have hcommit : ∃ q, commitEvent env db a actor =
      (q, .fetch (eventRow db₁ a actor k (.int n) created ref).id) ∧
      q.events = db.events ++ [eventRow db₁ a actor k (.int n) created ref] := by
    unfold commitEvent
    rw [halloc]
    simp only [hall n (h.next_range hnext hroom),
      insertRow_of_free (show SqlVal.int n ≠ .null by simp) hfresh₁ hfree]
    refine ⟨_, rfl, ?_⟩
    split_ifs
    all_goals
      rw [← hev]
      rfl
  obtain ⟨q, hq, hqev⟩ := hcommit
  have hwrite : writeEvent env a db =
      (q, .fetch (eventRow db₁ a actor k (.int n) created ref).id) := by
    unfold writeEvent
    rw [textParam_of_rowParams hparams]
    simp only [hfresh, hactor, hq]
  have hinsert : insertEvent env a db =
      (q, rowToEvent (eventRow db₁ a actor k (.int n) created ref)) := by
    unfold insertEvent
    rw [if_neg hp.sourced, hwrite]
    simp only [finishEvent]
    rw [getEventById_append (congrArg (fun events => nextId (events.map EventRow.id)) hev) hqev]
  refine ⟨eventRow db₁ a actor k (.int n) created ref, n, ?_, ?_, rfl, rfl, hlt⟩
  · rw [hinsert]
    exact hqev
  · rw [hinsert]

/-- A message from `alice` to `bob`. -/
def aliceCall (eventId : String) (seq : Val) : EventArgs where
  source := lit "alice"
  target := lit "bob"
  type := lit "message"
  payload := []
  seq := seq
  eventId := .str (lit eventId)
  createdAt := .none
  requiresAck := .bool true
  sourceRef := .none
  token := .none
  now := lit "2026-01-01T12:00:00Z"
  newId := []

/-- The double that follows the largest integer. -/
def edgeSucc (f : Flt) : Flt := if f = .fin false maxInt then .fin false (2 ^ 63) else f

/-- A host that rounds at the end of the range. -/
def edgeEnv : Env := { plainEnv with
  engine := { plainEngine with
    realSucc := edgeSucc
    le_realSucc := fun f hf => by
      unfold edgeSucc
      split_ifs with h
      · rw [h]
        exact ⟨nofun, by decide +kernel⟩
      · exact ⟨hf, numLe_refl hf⟩ } }

/-- The ledger after a message with the largest number. -/
def edgeLedger : Db := (insertEvent edgeEnv (aliceCall "e1" (.int maxInt)) {}).1

end Backends
end ATalk
