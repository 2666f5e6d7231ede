import ATalk.Admin.DeadTokens

/-!
# A call from its first part to its last

What a call that nobody interrupts has done after any number of steps: it has committed the first
parts of its plan, each at its own time, up to one that failed.

* `commits` : the parts one after the other;
* `alone_of_plan`, `alone_of_error` : the place of the call after a number of steps;
* `alone_done`, `returned_ok`, `alone_returns` : it returns once all its parts are committed, or
  one has failed;
* `passes` : the databases it may leave when it dies.
-/

namespace ATalk
namespace Admin

open Text Python Sqlite ATalk.Core Calendar

variable {env : Env} {a : Call × Drawn} {clock : ℕ → Instant} {db db' : Db}

/-- Parts committed one after the other, the first at the time `clock k`; a failed one is the
last. -/
def commits (env : Env) (clock : ℕ → Instant) : List Part → ℕ → Db → Db × Except Exn Unit
  | [], _, db => (db, .ok ())
  | part :: parts, k, db =>
    match commit env part (clock k) db with
    | (db', .error e) => (db', .error e)
    | (db', .ok _) => commits env clock parts (k + 1) db'

theorem commits_append (env : Env) (clock : ℕ → Instant) (parts parts' : List Part) (k : ℕ)
    (db : Db) :
    commits env clock (parts ++ parts') k db =
      match commits env clock parts k db with
      | (db', .error e) => (db', .error e)
      | (db', .ok _) => commits env clock parts' (k + parts.length) db' := by
  induction parts generalizing k db with
  | nil => rfl
  | cons part parts ih =>
    rw [List.cons_append, commits, commits]
    split
    · rfl
    · simp only [ih, List.length_cons]
      rw [Nat.add_right_comm, Nat.add_assoc]

theorem commits_cons_ok {part : Part} {parts : List Part} {k : ℕ} :
    commits env clock (part :: parts) k db = (db', .ok ()) ↔
      ∃ db₁, commit env part (clock k) db = (db₁, .ok ()) ∧
        commits env clock parts (k + 1) db₁ = (db', .ok ()) := by
  rw [commits]
  split
  next db₁ e hcommit =>
    refine ⟨nofun, ?_⟩
    rintro ⟨db₂, hok, -⟩
    rw [hcommit] at hok
    cases hok
  next db₁ u hcommit =>
    constructor
    · exact fun h => ⟨db₁, hcommit, h⟩
    · rintro ⟨db₂, hok, h⟩
      rw [hcommit] at hok
      cases hok
      exact h

/-- A part of one statement. -/
theorem commit_single {part : Part} {now : Instant} {s : Raft.Stmt} (hpart : part now = .ok [s]) :
    commit env part now db = (db', .ok ()) ↔
      ∃ id, Raft.exec (sqlite env) db s = .ok (db', id) := by
  rw [commit, hpart]
  simp only [Raft.transaction, Raft.execAll]
  cases hexec : Raft.exec (sqlite env) db s with
  | error e => simp
  | ok r => simp [Prod.ext_iff]

/-- A part that is committed has its statements. -/
theorem commit_ok {part : Part} {now : Instant} (h : commit env part now db = (db', .ok ())) :
    ∃ stmts ids, part now = .ok stmts ∧
      Raft.execAll (sqlite env) db stmts = .ok (db', ids) := by
  rcases commit_cases env part now db with ⟨e, he⟩ | ⟨stmts, db₁, ids, hstmts, hexec, hc⟩
  · rw [he] at h
    cases h
  · rw [hc] at h
    cases h
    exact ⟨stmts, ids, hstmts, hexec⟩

/-- A call that is refused before it writes. -/
theorem alone_of_error {e : Exn} (h : plan env a.1 a.2 (clock 0) db = .error e) (k : ℕ) :
    alone env a clock db (k + 1) = (db, .returned (.error e)) := by
  induction k with
  | zero => simp only [alone, step, h]
  | succ k ih => rw [alone, ih, step]

/-- The place of a call that has committed some of its parts. -/
def placeAfter (p : Plan) (k : ℕ) : Db × Except Exn Unit → Db × Phase
  | (db, .error e) => (db, .returned (.error e))
  | (db, .ok _) =>
    (db, if k ≤ p.parts.length then .running (p.parts.drop k) p.reply else .returned (.ok p.reply))

/-- One more part is committed by one more step. -/
theorem step_placeAfter (env : Env) (a : Call × Drawn) (clock : ℕ → Instant) (p : Plan) (k : ℕ)
    (r : Db × Except Exn Unit) :
    (fun s : Db × Phase => ((step env a ⟨s.1, clock (k + 1)⟩ s.2).1.db,
      (step env a ⟨s.1, clock (k + 1)⟩ s.2).2)) (placeAfter p k r) =
    placeAfter p (k + 1) (match r with
      | (db', .error e) => (db', .error e)
      | (db', .ok _) => commits env clock (p.parts.drop k).head?.toList (k + 1) db') := by
  obtain ⟨db', r⟩ := r
  cases r with
  | error e => rfl
  | ok u =>
    simp only [placeAfter]
    rcases Nat.lt_trichotomy k p.parts.length with hlt | heq | hgt
    · -- the next part
      rw [if_pos (Nat.le_of_lt hlt), List.drop_eq_getElem_cons hlt]
      simp only [List.head?_cons, Option.toList_some, commits, step]
      cases hcommit : commit env p.parts[k] (clock (k + 1)) db' with
      | mk db'' r =>
        cases r with
        | error e => rfl
        | ok u => simp only [if_pos (Nat.succ_le_of_lt hlt)]
    · -- all parts are committed
      rw [if_pos (Nat.le_of_eq heq), heq, List.drop_length]
      simp [step, commits]
    · rw [if_neg (Nat.not_le_of_lt hgt), List.drop_of_length_le (Nat.le_of_lt hgt)]
      simp [step, commits, Nat.not_le_of_lt (Nat.lt_succ_of_lt hgt)]

/-- After its plan a call commits a part a step. -/
theorem alone_of_plan {p : Plan} (h : plan env a.1 a.2 (clock 0) db = .ok p) (k : ℕ) :
    alone env a clock db (k + 1) = placeAfter p k (commits env clock (p.parts.take k) 1 db) := by
  induction k with
  | zero =>
    simp only [alone, step, h, List.take_zero, commits, placeAfter]
    rw [if_pos (Nat.zero_le _), List.drop_zero]
  | succ k ih =>
    rw [alone, ih]
    refine (step_placeAfter env a clock p k (commits env clock (p.parts.take k) 1 db)).trans ?_
    rw [List.take_add_one, ← List.head?_drop, commits_append]
    congr 1
    cases hcommits : commits env clock (p.parts.take k) 1 db with
    | mk db' r =>
      cases r with
      | error e => rfl
      | ok u =>
        rcases Nat.lt_or_ge p.parts.length k with hlt | hle
        · simp [List.drop_of_length_le (Nat.le_of_lt hlt), commits]
        · simp only [List.length_take, Nat.min_eq_left hle, Nat.add_comm 1 k]

/-- A call whose parts are all committed returns. -/
theorem alone_done {p : Plan} (h : plan env a.1 a.2 (clock 0) db = .ok p)
    (hcommits : commits env clock p.parts 1 db = (db', .ok ())) :
    alone env a clock db (p.parts.length + 2) = (db', .returned (.ok p.reply)) := by
  rw [alone_of_plan h, List.take_of_length_le (Nat.le_succ _), hcommits, placeAfter,
    if_neg (Nat.not_succ_le_self _)]

/-- A call that has returned a result has committed all its parts. -/
theorem returned_ok {p : Plan} {reply : Reply} {n : ℕ}
    (h : plan env a.1 a.2 (clock 0) db = .ok p)
    (hret : (alone env a clock db n).2 = .returned (.ok reply)) :
    reply = p.reply ∧ commits env clock p.parts 1 db = ((alone env a clock db n).1, .ok ()) := by
  cases n with
  | zero => cases hret
  | succ k =>
    rw [alone_of_plan h] at hret ⊢
    cases hcommits : commits env clock (p.parts.take k) 1 db with
    | mk db' r =>
      rw [hcommits] at hret
      cases r with
      | error e => cases hret
      | ok u =>
        simp only [placeAfter] at hret ⊢
        split_ifs at hret with hk
        cases hret
        rw [List.take_of_length_le (Nat.le_of_not_le hk)] at hcommits
        exact ⟨rfl, hcommits⟩

/-! ## The databases between the parts -/

/-- The database after each part that is committed. -/
def passes (env : Env) (clock : ℕ → Instant) : List Part → ℕ → Db → List Db
  | [], _, _ => []
  | part :: parts, k, db =>
    match commit env part (clock k) db with
    | (_, .error _) => []
    | (db', .ok _) => db' :: passes env clock parts (k + 1) db'

theorem passes_ok {part : Part} {parts : List Part} {k : ℕ}
    (h : commit env part (clock k) db = (db', .ok ())) :
    passes env clock (part :: parts) k db = db' :: passes env clock parts (k + 1) db' ∧
      commits env clock (part :: parts) k db = commits env clock parts (k + 1) db' := by
  rw [passes, commits, h]
  exact ⟨rfl, rfl⟩

theorem passes_error {part : Part} {parts : List Part} {k : ℕ} {e : Exn}
    (h : commit env part (clock k) db = (db', .error e)) :
    passes env clock (part :: parts) k db = [] ∧
      commits env clock (part :: parts) k db = (db', .error e) := by
  rw [passes, commits, h]
  exact ⟨rfl, rfl⟩

/-- What every part keeps holds of these databases. -/
theorem passes_induct {P : Db → Prop} {parts : List Part} {k : ℕ} (hdb : P db)
    (hone : ∀ part ∈ parts, ∀ now db₁ db₂, P db₁ → commit env part now db₁ = (db₂, .ok ()) → P db₂) :
    ∀ d ∈ passes env clock parts k db, P d := by
  induction parts generalizing k db with
  | nil => nofun
  | cons part parts ih =>
    rcases commit_cases env part (clock k) db with ⟨e, he⟩ | ⟨_, db₁, _, -, -, hc⟩
    · rw [(passes_error he).1]
      nofun
    · have hdb₁ : P db₁ := hone part (List.mem_cons_self ..) _ _ _ hdb hc
      rw [(passes_ok hc).1]
      exact List.forall_mem_cons.mpr
        ⟨hdb₁, ih hdb₁ fun part' hpart' => hone part' (List.mem_cons_of_mem _ hpart')⟩

/-- The last database is one of them, or the first. -/
theorem commits_mem (parts : List Part) (k : ℕ) (db : Db) :
    (commits env clock parts k db).1 = db ∨
      (commits env clock parts k db).1 ∈ passes env clock parts k db := by
  induction parts generalizing k db with
  | nil => exact .inl rfl
  | cons part parts ih =>
    rcases commit_cases env part (clock k) db with ⟨e, he⟩ | ⟨_, db₁, _, -, -, hc⟩
    · left
      rw [(passes_error he).2]
    · right
      rw [(passes_ok hc).1, (passes_ok hc).2]
      rcases ih (k + 1) db₁ with hsame | hmem
      · rw [hsame]
        exact List.mem_cons_self ..
      · exact List.mem_cons_of_mem _ hmem

theorem passes_take (parts : List Part) (j k : ℕ) (db : Db) :
    passes env clock (parts.take j) k db <+: passes env clock parts k db := by
  induction parts generalizing j k db with
  | nil => simp
  | cons part parts ih =>
    cases j with
    | zero => exact List.nil_prefix
    | succ j =>
      rw [List.take_succ_cons]
      rcases commit_cases env part (clock k) db with ⟨e, he⟩ | ⟨_, db₁, _, -, -, hc⟩
      · rw [(passes_error he).1]
        exact List.nil_prefix
      · rw [(passes_ok hc).1, (passes_ok hc).1]
        exact (List.prefix_cons_inj db₁).mpr (ih j (k + 1) db₁)

/-- Some first parts lead to one of these databases, or have changed nothing. -/
theorem commits_take_mem (parts : List Part) (j k : ℕ) (db : Db) :
    (commits env clock (parts.take j) k db).1 = db ∨
      (commits env clock (parts.take j) k db).1 ∈ passes env clock parts k db :=
  (commits_mem (parts.take j) k db).imp_right fun hmem => (passes_take parts j k db).subset hmem

/-- Each of these databases is reached by some first parts. -/
theorem take_of_mem_passes {parts : List Part} {k : ℕ} {d : Db}
    (h : d ∈ passes env clock parts k db) : ∃ j, (commits env clock (parts.take j) k db).1 = d := by
  induction parts generalizing k db with
  | nil => cases h
  | cons part parts ih =>
    rcases commit_cases env part (clock k) db with ⟨e, he⟩ | ⟨_, db₁, _, -, -, hc⟩
    · rw [(passes_error he).1] at h
      cases h
    · rw [(passes_ok hc).1] at h
      rcases List.mem_cons.mp h with rfl | h
      · exact ⟨1, by rw [List.take_succ_cons, (passes_ok hc).2]; rfl⟩
      · obtain ⟨j, hj⟩ := ih h
        exact ⟨j + 1, by rw [List.take_succ_cons, (passes_ok hc).2, hj]⟩

/-- A part that fails among the first ones fails among all. -/
theorem commits_take_error {parts : List Part} {j k : ℕ} {e : Exn}
    (h : commits env clock (parts.take j) k db = (db', .error e)) :
    commits env clock parts k db = (db', .error e) := by
  have hsplit := commits_append env clock (parts.take j) (parts.drop j) k db
  rw [List.take_append_drop, h] at hsplit
  exact hsplit

theorem placeAfter_fst (p : Plan) (k : ℕ) (r : Db × Except Exn Unit) :
    (placeAfter p k r).1 = r.1 := by
  obtain ⟨db', r⟩ := r
  cases r <;> rfl

/-- What a call that has returned leaves. -/
theorem returned_commits {p : Plan} {r : Except Exn Reply} {n : ℕ}
    (h : plan env a.1 a.2 (clock 0) db = .ok p)
    (hret : (alone env a clock db n).2 = .returned r) :
    (alone env a clock db n).1 = (commits env clock p.parts 1 db).1 ∧
      ∀ e, r = .error e → (commits env clock p.parts 1 db).2 = .error e := by
  cases n with
  | zero => cases hret
  | succ k =>
    cases hcommits : commits env clock (p.parts.take k) 1 db with
    | mk db' r' =>
      rw [alone_of_plan h, hcommits] at hret ⊢
      cases r' with
      | error e =>
        cases hret
        rw [commits_take_error hcommits]
        exact ⟨rfl, fun e' he => by cases he; rfl⟩
      | ok u =>
        simp only [placeAfter] at hret ⊢
        split_ifs at hret with hk
        cases hret
        rw [List.take_of_length_le (Nat.le_of_not_le hk)] at hcommits
        rw [hcommits]
        exact ⟨rfl, nofun⟩

/-- Every call returns. -/
theorem alone_returns {p : Plan} (h : plan env a.1 a.2 (clock 0) db = .ok p) :
    ∃ r, alone env a clock db (p.parts.length + 2) =
        ((commits env clock p.parts 1 db).1, .returned r) ∧
      ∀ e, r = .error e ↔ (commits env clock p.parts 1 db).2 = .error e := by
  cases hcommits : commits env clock p.parts 1 db with
  | mk db' r =>
    cases r with
    | ok u => exact ⟨_, alone_done h hcommits, fun e => ⟨nofun, nofun⟩⟩
    | error e =>
      refine ⟨.error e, ?_, fun e' => by simp⟩
      rw [alone_of_plan h, List.take_of_length_le (Nat.le_succ _), hcommits]
      rfl

end Admin
end ATalk
