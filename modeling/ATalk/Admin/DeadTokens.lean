import ATalk.Admin.Tokens

/-!
# Dead tokens stay dead

Any number of calls on one host, which opens its store again now and then, with a clock that never
goes back. A relation between a token row and what becomes of it is carried along every run when
every part of a call carries it; a row that is no longer valid is carried to one that is not.

* `Moves`, `admin_keeps` : the invariant of the tables and the relation of the rows in any run;
* `tokenUpdate_dead` : no statement revives a row;
* `dead_stay_dead` : no run does.
-/

namespace ATalk
namespace Admin

open Text Python Sqlite ATalk.Core Checks Transition Callers Calendar
open Raft (Stmt ownLabel isOther tokenActive)

/-! ## Runs -/

/-- Time has passed, and every row is related to one that is there now. -/
structure Moves (ρ : Instant → Instant → TokenRow → TokenRow → Prop) (host host' : Host) :
    Prop where
  clock : host.clock ≤ host'.clock
  rows : Carry (ρ host.clock host'.clock) host.db host'.db

/-- The parts a call has still to commit are its own. -/
def Phase.Own (env : Env) (a : Call × Drawn) : Phase → Prop
  | .running parts _ => ∀ part ∈ parts, PartOf env a part
  | _ => True

variable {env : Env} {legacyTokenId : Str → Str → Str} {host : Host} {a : Call × Drawn}
  {ok : Call × Drawn → Unit → Host → Phase → Prop}

theorem step_start_own (env : Env) (a : Call × Drawn) (host : Host) :
    (step env a host .start).1 = host ∧
    (step env a host .start).2.Own env a := by
  rw [step]
  cases hplan : plan env a.1 a.2 host.clock host.db with
  | error e => exact ⟨rfl, trivial⟩
  | ok p => exact ⟨rfl, plan_does hplan⟩

/-- A step writes what its part commits. -/
theorem step_running (env : Env) (a : Call × Drawn) (host : Host) (part : Part) (parts : List Part)
    (reply : Reply) :
    (step env a host (.running (part :: parts) reply)).1 =
        { host with db := (commit env part host.clock host.db).1 } ∧
      ((step env a host (.running (part :: parts) reply)).2 = .running parts reply ∨
        ∃ e, (step env a host (.running (part :: parts) reply)).2 = .returned (.error e)) := by
  rw [step]
  split
  next db e heq =>
    rw [heq]
    exact ⟨rfl, .inr ⟨e, rfl⟩⟩
  next db u heq =>
    rw [heq]
    exact ⟨rfl, .inl rfl⟩

/-- A relation that holds of unchanged rows and is carried by every part is carried by every run. -/
theorem admin_keeps (ρ : Instant → Instant → TokenRow → TokenRow → Prop)
    (htrans : ∀ t u v r s w, ρ t u r s → ρ u v s w → ρ t v r w)
    (hsame : ∀ t u r s, t ≤ u → Unchanged r s → ρ t u r s)
    (hpart : ∀ a host part parts reply, Registered host.db → PartOf env a part →
      ok a () host (.running (part :: parts) reply) →
      Carry (ρ host.clock host.clock) host.db (commit env part host.clock host.db).1) :
    (adminCalls env).Keeps Fresh (Other legacyTokenId) ok (fun host => Registered host.db)
      (fun _ a p => p.Own env a) (Moves ρ) where
  refl host := ⟨le_refl _, fun row hrow => ⟨row, hrow, hsame _ _ _ _ (le_refl _) (.refl row)⟩⟩
  trans h₁ h₂ h₃ h h' := by
    refine ⟨h.clock.trans h'.clock, fun row hrow => ?_⟩
    obtain ⟨row', hrow', hr⟩ := h.rows row hrow
    obtain ⟨row'', hrow'', hr'⟩ := h'.rows row' hrow'
    exact ⟨row'', hrow'', htrans _ _ _ _ _ _ hr hr'⟩
  init host hfresh := by
    have hdb : host.db = {} := hfresh
    rw [hdb]
    exact .empty
  env host host' hdb hother := by
    cases hother with
    | tick h =>
      exact ⟨hdb, h, fun row hrow => ⟨row, hrow, hsame _ _ _ _ h (.refl row)⟩⟩
    | restart =>
      refine ⟨hdb.restart legacyTokenId, le_refl _, fun row hrow => ?_⟩
      obtain ⟨row', hrow', hr⟩ := restart_carry legacyTokenId host.db row hrow
      exact ⟨row', hrow', hsame _ _ _ _ (le_refl _) hr⟩
    | @write db h =>
      refine ⟨⟨?_, ?_, ?_⟩, le_refl _, fun row hrow => ?_⟩
      · show (db.peerTokens.map (·.tokenHash)).Nodup
        rw [h.peerTokens]
        exact hdb.hashes
      · show ∀ row ∈ db.peerTokens, ∃ peer ∈ db.peers, peer.peerId = row.peerId
        rw [h.peerTokens, h.peers]
        exact hdb.owners
      · show ∀ peer ∈ db.peers, Clean peer.peerId
        rw [h.peers]
        exact hdb.clean
      · refine ⟨row, ?_, hsame _ _ _ _ (le_refl _) (.refl row)⟩
        show row ∈ db.peerTokens
        rw [h.peerTokens]
        exact hrow
  start _ _ _ := trivial
  mono _ _ _ _ _ hp := hp
  step host a now p hdb hp hnone hok := by
    have hstay : Moves ρ host host :=
      ⟨le_refl _, fun row hrow => ⟨row, hrow, hsame _ _ _ _ (le_refl _) (.refl row)⟩⟩
    show Registered (step env a host p).1.db ∧ (step env a host p).2.Own env a ∧
      Moves ρ host (step env a host p).1
    cases p with
    | start =>
      obtain ⟨hhost, hown⟩ := step_start_own env a host
      rw [hhost]
      exact ⟨hdb, hown, hstay⟩
    | running parts reply =>
      cases parts with
      | nil => exact ⟨hdb, trivial, hstay⟩
      | cons part parts =>
        have hmine : PartOf env a part := hp part (List.mem_cons_self ..)
        obtain ⟨hhost, hphase⟩ := step_running env a host part parts reply
        rw [hhost]
        refine ⟨commit_registered hmine hdb _, ?_, le_refl _, hpart a host part parts reply hdb
          hmine hok⟩
        rcases hphase with hphase | ⟨e, hphase⟩
        · rw [hphase]
          exact fun part' hpart' => hp part' (List.mem_cons_of_mem _ hpart')
        · rw [hphase]
          trivial
    | returned result => cases hnone

theorem step_clock (env : Env) (a : Call × Drawn) (host : Host) (p : Phase) :
    (step env a host p).1.clock = host.clock := by
  cases p with
  | start =>
    rw [step]
    split <;> rfl
  | running parts reply =>
    cases parts with
    | nil => rfl
    | cons part parts => rw [(step_running env a host part parts reply).1]
  | returned result => rfl

/-- A call that nobody interrupts is part of a run. -/
theorem reach_alone {init : Host → Prop} {db : Db} {calls : List ((Call × Drawn) × Phase)}
    (clock : ℕ → Instant) (hclock : Monotone clock) (hok : ∀ n,
      ok a () ⟨(alone env a clock db n).1, clock n⟩ (alone env a clock db n).2)
    (h : Reach (callers (adminCalls env) init (Other legacyTokenId)) (onAdvance ok)
      ⟨⟨db, clock 0⟩, calls⟩) (n : ℕ) :
    Reach (callers (adminCalls env) init (Other legacyTokenId)) (onAdvance ok)
      ⟨⟨(alone env a clock db n).1, clock n⟩, calls ++ [(a, (alone env a clock db n).2)]⟩ := by
  induction n with
  | zero => exact .step (a := .call a) h trivial rfl
  | succ n ih =>
    have htick : ∀ host : Host, host.clock = clock n →
        Other legacyTokenId host ⟨host.db, clock (n + 1)⟩ := fun host hhost =>
      .tick (hhost ▸ hclock (Nat.le_succ n))
    have hlast : (calls ++ [(a, (alone env a clock db n).2)])[calls.length]? =
        some (a, (alone env a clock db n).2) := by simp
    cases hres : (adminCalls env).result (alone env a clock db n).2 with
    | some result =>
      -- the call has returned
      have hstill : alone env a clock db (n + 1) = alone env a clock db n := by
        rw [alone]
        cases hp : (alone env a clock db n).2 with
        | returned r => exact Prod.ext rfl hp.symm
        | start => rw [hp] at hres; cases hres
        | running parts reply => rw [hp] at hres; cases hres
      rw [hstill]
      exact .step (a := .other ⟨(alone env a clock db n).1, clock (n + 1)⟩) ih trivial
        ⟨htick _ rfl, rfl⟩
    | none =>
      refine .step (a := .other ⟨(alone env a clock db (n + 1)).1, clock (n + 1)⟩)
        (.step (a := .advance calls.length ()) ih ?_ ⟨a, _, hlast, hres, rfl⟩) trivial ⟨?_, ?_⟩
      · intro b p hbp
        cases hlast.symm.trans hbp
        exact hok n
      · exact htick _ (step_clock env a _ _)
      · simp [alone, adminCalls]

/-! ## Dead rows -/

/-- The row is revoked, or its grace is over. -/
def Dead (row : TokenRow) (t : Instant) : Prop := TokenRow.live row (iso t) = false

theorem dead_iff {row : TokenRow} {t : Instant} : Dead row t ↔
    row.revokedAt.getD [] ≠ [] ∨ ∃ g, row.graceUntil = some g ∧ g ≠ [] ∧ g < iso t := by
  unfold Dead TokenRow.live
  cases hg : row.graceUntil with
  | none => simp
  | some g =>
    by_cases hrev : row.revokedAt.getD [] = []
    · simp [hrev, not_le]
    · simp [hrev]

theorem Dead.later {row : TokenRow} {t u : Instant} (h : Dead row t) (htu : t ≤ u) : Dead row u := by
  rw [dead_iff] at h ⊢
  rcases h with h | ⟨g, hg, hne, hlt⟩
  · exact .inl h
  · exact .inr ⟨g, hg, hne, lt_of_lt_of_le hlt (iso_le_iff.mpr htu)⟩

theorem Unchanged.dead {row row' : TokenRow} {t : Instant} (h : Unchanged row row') :
    Dead row' t ↔ Dead row t := by
  rw [dead_iff, dead_iff, h.revokedAt, h.graceUntil]

/-- A row that takes part in a rotation is alive. -/
theorem Dead.not_active {row : TokenRow} {t : Instant} (h : Dead row t) :
    tokenActive row (iso t) = false := by
  unfold tokenActive
  rw [Bool.and_eq_false_iff]
  rcases dead_iff.mp h with hrev | ⟨g, hg, -, hlt⟩
  · left
    cases hr : row.revokedAt with
    | none => exact absurd (by rw [hr]; rfl) hrev
    | some r => rfl
  · right
    rw [hg]
    simpa using hlt

/-- No statement revives a row. -/
theorem tokenUpdate_dead {s : Stmt} {row : TokenRow} {now : Instant}
    (hs : Does env a.2 now a.1 s) (h : Dead row now) : Dead (tokenUpdate s row) now := by
  have hrevoke : ∀ t : Instant, Dead { row with revokedAt := some (iso t) } now := fun t =>
    dead_iff.mpr (.inl (iso_ne_nil t))
  obtain ⟨call, drawn⟩ := a
  cases hs with
  | revokeOthers =>
    simp only [tokenUpdate]
    split_ifs
    · exact hrevoke now
    · exact h
  | revokeToken t =>
    simp only [tokenUpdate]
    split_ifs
    · exact hrevoke t
    · exact h
  | graceTokens graceUntil =>
    simp only [tokenUpdate, h.not_active, Bool.false_eq_true, and_false, if_false]
    exact h
  | _ => exact h

/-- A dead row is carried to a dead row. -/
def Buries (t u : Instant) (row row' : TokenRow) : Prop :=
  SameKey row row' ∧ (Dead row t → Dead row' u)

theorem buries_keeps (env : Env) (legacyTokenId : Str → Str → Str) :
    (adminCalls env).Keeps Fresh (Other legacyTokenId) (fun _ _ _ _ => True)
      (fun host => Registered host.db) (fun _ a p => p.Own env a) (Moves Buries) := by
  refine admin_keeps Buries ?_ ?_ ?_
  · exact fun t u v r s w h h' => ⟨h.1.trans h'.1, fun hd => h'.2 (h.2 hd)⟩
  · exact fun t u r s htu hsame => ⟨hsame.toSameKey, fun hd => hsame.dead.mpr (hd.later htu)⟩
  · intro a host part parts reply _ hmine _
    refine commit_carry (fun row => ⟨.refl row, id⟩)
      (fun r s t h h' => ⟨h.1.trans h'.1, fun hd => h'.2 (h.2 hd)⟩) hmine fun s row hs => ?_
    exact ⟨sameKey_update s row, tokenUpdate_dead hs⟩

/-! ## The scope over a run -/

/-- The token of a dead row has no scope. -/
theorem tokenScope_dead {db : Db} {row : TokenRow} {token : Str} {t : Instant}
    (hdb : Registered db) (hrow : row ∈ db.peerTokens) (hd : hashOf env token = .ok row.tokenHash)
    (hdead : Dead row t) : tokenScope env db (iso t) row.peerId (.str token) = .ok none := by
  by_cases htoken : token = []
  · rw [htoken]
    rfl
  have hlive : TokenRow.live row (iso t) = false := hdead
  rw [tokenScope_row hdb hrow htoken hd, hlive]
  rfl

/-- Noon on 1 October of the year 2026. -/
def noon : Instant := ⟨63926452800, by decide⟩

def drawOne : Drawn := ⟨lit "drawn-one", lit "id-one", by decide, by decide, by decide⟩

def drawTwo : Drawn := ⟨lit "drawn-two", lit "id-two", by decide, by decide, by decide⟩

/-- `add_peer("alice", token)` -/
def aliceToken (token : Str) : Call :=
  .addPeer (lit "alice") (some token) none none none (lit "normal") 180

/-- Alice has the token `one`. -/
def aliceOne : Db := (alone plainEnv (aliceToken (lit "one"), drawOne) (fun _ => noon) {} 5).1

/-- Alice is added again with the token `two`. -/
def aliceTwo : Db := (alone plainEnv (aliceToken (lit "two"), drawTwo) (fun _ => noon) aliceOne 5).1

theorem reach_aliceTwo (legacyTokenId : Str → Str → Str) : ∃ calls,
    Reachable (callers (adminCalls plainEnv) Fresh (Other legacyTokenId))
      ⟨⟨aliceTwo, noon⟩, calls⟩ := by
  have hempty : Reach (callers (adminCalls plainEnv) Fresh (Other legacyTokenId))
      (onAdvance fun _ _ _ _ => True) ⟨⟨{}, noon⟩, []⟩ := .init ⟨rfl, rfl⟩
  have hone := reach_alone (a := (aliceToken (lit "one"), drawOne)) (fun _ => noon) monotone_const
    (fun _ => trivial) hempty 5
  have htwo := reach_alone (a := (aliceToken (lit "two"), drawTwo)) (fun _ => noon) monotone_const
    (fun _ => trivial) hone 5
  rw [onAdvance_true] at htwo
  exact ⟨_, htwo⟩

/-- An id made of both texts. -/
def plainTokenId (peerId digest : Str) : Str := peerId ++ digest

end Admin
end ATalk
