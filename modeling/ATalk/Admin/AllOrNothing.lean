import ATalk.Admin.Settled

/-!
# All or nothing

A call that raises should leave the database as it was, and a call that dies should leave, after
the next start-up, the database of before or of after. On rqlite every call is one transaction; on
SQLite the parts are committed one by one, so this holds when at most one of them changes
anything, and none before one that fails.

* `AllOrNothing` : the property of a call on a database;
* `Whole` : when it holds, call by call;
* `all_or_nothing_iff` : between the calls of every run the two agree;
* `alice_restricted` : a target list that is refused, and restricts its peer all the same.
-/

namespace ATalk
namespace Admin

open Text Python Sqlite ATalk.Core Checks Transition Calendar
open Raft (Stmt exec execAll hasPeer isOther tokenTaken)

variable {env : Env} {legacyTokenId : Str → Str → Str} {db db' : Db} {clock : ℕ → Instant}
  {a : Call × Drawn} {p token : Str} {drawn : Drawn} {k : ℕ}

/-- A call that raises changes nothing, and one that dies after any of its parts has changed, once
the store is open again, nothing or everything. -/
def AllOrNothing (env : Env) (legacyTokenId : Str → Str → Str) (a : Call × Drawn)
    (clock : ℕ → Instant) (db : Db) : Prop :=
  ∀ n r, (alone env a clock db n).2 = .returned r →
    (∀ e, r = .error e → (alone env a clock db n).1 = db) ∧
    ∀ j, restart legacyTokenId (alone env a clock db j).1 = db ∨
      restart legacyTokenId (alone env a clock db j).1 = (alone env a clock db n).1

/-! ## When it holds -/

/-- `add_peer` would change no column of the peer. -/
def SamePeer (db : Db) (p digest : Str) (role platform endpoint : Option Str) (deliveryClass : Str)
    (ackTimeoutSec : ℤ) : Prop :=
  hasPeer db p = true ∧ ∀ row ∈ db.peers, row.peerId = p →
    row.tokenHash = some digest ∧ row.role = role ∧ row.platform = platform ∧
      row.endpoint = endpoint ∧ row.deliveryClass = deliveryClass ∧
      row.ackTimeoutSec = ackTimeoutSec ∧ row.revokedAt = none

/-- The list of the peer was written in the same second. -/
def AclStands (db : Db) (p : Str) (now : Time) : Prop :=
  restricted db p = true ∧ ∀ row ∈ db.peerTargetAcl, row.peerId = p → row.updatedAt = now

/-- The list of the peer is empty. -/
def NoTargets (db : Db) (p : Str) : Prop := ∀ row ∈ db.peerTargetAclTargets, row.peerId ≠ p

/-- At most one part of the call changes the database, and none before a part that fails. -/
def Whole (env : Env) (a : Call × Drawn) (clock : ℕ → Instant) (db : Db) : Prop :=
  match a.1 with
  | .addPeer p token role platform endpoint dc ack =>
    ∀ digest, Binds env p (givenOr token a.2) role platform endpoint dc ack digest →
      (∃ row ∈ db.peerTokens, row.tokenHash = digest) ∧
        (SamePeer db p digest role platform endpoint dc ack ∨
          ∀ row ∈ db.peerTokens, isOther p digest row = false)
  | .rotatePeerToken p token sec =>
    ∀ graceUntil, later (clock 0) sec.toNat = some graceUntil → Clean p →
      (∀ digest, hashOf env (truthyOr token a.2) = .ok digest →
        tokenTaken db digest a.2.tokenId = true ∨ hasPeer db p = false) ∧
      ∀ row ∈ db.peerTokens, Selected p (iso (clock 1)) row →
        row.graceUntil = some (iso graceUntil)
  | .setTargetAcl p allowed =>
    Clean p → hasPeer db p = true →
      (AclStands db p (iso (clock 0)) ∧ NoTargets db p ∧
        ((Raft.distinct allowed).length ≤ 1 ∨ ∃ target rest,
          Raft.distinct allowed = target :: rest ∧ ¬ (Clean target ∧ hasPeer db target = true))) ∨
      (allowed = [] ∧ (AclStands db p (iso (clock 0)) ∨ NoTargets db p))
  | .clearTargetAcl p => Clean p → NoTargets db p ∨ restricted db p = false
  | _ => True

/-! ## In terms of the parts -/

/-- A failure leaves the database, and each database on the way becomes the first or the last. -/
def Atomic (legacyTokenId : Str → Str → Str) (db : Db) (ds : List Db) (r : Db × Except Exn Unit) :
    Prop :=
  (∀ e, r.2 = .error e → r.1 = db) ∧
    ∀ d ∈ ds, restart legacyTokenId d = db ∨ restart legacyTokenId d = r.1

/-- The property, of a call on a settled database, in terms of its parts. -/
theorem allOrNothing_iff (hdb : Settled db) {q : Plan}
    (hplan : plan env a.1 a.2 (clock 0) db = .ok q) :
    AllOrNothing env legacyTokenId a clock db ↔
      Atomic legacyTokenId db (passes env clock q.parts 1 db) (commits env clock q.parts 1 db) := by
  have hstate : ∀ j, (alone env a clock db (j + 1)).1 = (commits env clock (q.parts.take j) 1 db).1 :=
    fun j => by rw [alone_of_plan hplan, placeAfter_fst]
  constructor
  · intro h
    obtain ⟨r, hret, herror⟩ := alone_returns hplan
    obtain ⟨hraise, hdie⟩ := h _ r (congrArg Prod.snd hret)
    have hlast : (alone env a clock db (q.parts.length + 2)).1 =
      (commits env clock q.parts 1 db).1 := congrArg Prod.fst hret
    rw [hlast] at hraise hdie
    refine ⟨fun e he => hraise e ((herror e).mpr he), fun d hd => ?_⟩
    obtain ⟨j, rfl⟩ := take_of_mem_passes hd
    rw [← hstate]
    exact hdie (j + 1)
  · rintro ⟨hraise, hdie⟩ n r hret
    obtain ⟨hlast, herror⟩ := returned_commits hplan hret
    rw [hlast]
    refine ⟨fun e he => hraise e (herror e he), fun j => ?_⟩
    cases j with
    | zero => exact .inl hdb.restart_eq
    | succ j =>
      rw [hstate]
      rcases commits_take_mem q.parts j 1 db with hsame | hmem
      · rw [hsame]
        exact .inl hdb.restart_eq
      · exact hdie _ hmem

/-- A call that is refused before it writes. -/
theorem allOrNothing_of_error (hdb : Settled db) {e : Exn}
    (hplan : plan env a.1 a.2 (clock 0) db = .error e) :
    AllOrNothing env legacyTokenId a clock db := by
  have hstate : ∀ j, (alone env a clock db j).1 = db := by
    intro j
    cases j with
    | zero => rfl
    | succ j => rw [alone_of_error hplan]
  intro n r _
  rw [hstate]
  exact ⟨fun _ _ => rfl, fun j => by rw [hstate]; exact .inl hdb.restart_eq⟩

theorem atomic_settled {ds : List Db} {r : Db × Except Exn Unit} (h : ∀ d ∈ ds, Settled d) :
    Atomic legacyTokenId db ds r ↔
      (∀ e, r.2 = .error e → r.1 = db) ∧ ∀ d ∈ ds, d = db ∨ d = r.1 := by
  refine and_congr_right fun _ => forall₂_congr fun d hd => ?_
  rw [(h d hd).restart_eq]

theorem atomic_error (e : Exn) : Atomic legacyTokenId db [] (db, .error e) := ⟨fun _ _ => rfl, nofun⟩

/-! ## `add_peer` -/

variable {digest : Str} {role platform endpoint : Option Str} {dc : Str} {ack : ℤ}

theorem with_peers_iff (peers : List PeerRow) :
    { db with peers := peers } = db ↔ peers = db.peers :=
  ⟨fun h => congrArg Db.peers h, fun h => by rw [h]⟩

theorem with_peerTokens_iff (rows : List TokenRow) :
    { db with peerTokens := rows } = db ↔ rows = db.peerTokens :=
  ⟨fun h => congrArg Db.peerTokens h, fun h => by rw [h]⟩

theorem upsertPeer_eq_self_iff (t : Time) :
    Raft.upsertPeer db p digest role platform endpoint dc ack t = db ↔
      SamePeer db p digest role platform endpoint dc ack := by
  rw [Raft.upsertPeer, with_peers_iff]
  by_cases hknown : hasPeer db p = true
  · rw [if_pos hknown, Raft.map_eq_self_iff, SamePeer, and_iff_right hknown]
    refine forall₂_congr fun row _ => ?_
    rw [← Raft.provision_eq_self_iff]
    by_cases hp : row.peerId = p
    · simp only [hp, if_true, forall_const]
    · simp only [hp, if_false, false_imp_iff]
  · rw [if_neg hknown, SamePeer]
    refine ⟨fun h => ?_, fun h => absurd h.1 hknown⟩
    have hlen := congrArg List.length h
    simp at hlen

/-- The peer has the digest. -/
theorem exists_peer_upsertPeer (db : Db) (p digest : Str) (role platform endpoint : Option Str)
    (dc : Str) (ack : ℤ) (t : Time) :
    ∃ peer ∈ (Raft.upsertPeer db p digest role platform endpoint dc ack t).peers,
      peer.tokenHash = some digest := by
  unfold Raft.upsertPeer
  by_cases hknown : hasPeer db p = true
  · rw [if_pos hknown]
    obtain ⟨peer, hpeer, hp⟩ := List.any_eq_true.mp hknown
    exact ⟨_, List.mem_map_of_mem hpeer, by rw [if_pos (of_decide_eq_true hp)]; rfl⟩
  · rw [if_neg hknown]
    exact ⟨_, List.mem_append_right _ (List.mem_singleton_self _), rfl⟩

theorem revokeOthers_eq_self_iff {t : Time} (h : exec (sqlite env) db (.revokeOthers t p digest) =
    .ok (db', none)) : db' = db ↔ ∀ row ∈ db.peerTokens, isOther p digest row = false := by
  cases h
  rw [with_peerTokens_iff, Raft.map_eq_self_iff]
  exact forall₂_congr fun row _ => Raft.revoke_eq_self_iff

/-- What start-up makes of the tokens that were there before, or were missing. -/
theorem restart_row {row : TokenRow} (hrow : row ∈ (restart legacyTokenId db).peerTokens) :
    (∃ old ∈ db.peerTokens, old.tokenHash = row.tokenHash) ∨
      row.deviceLabel = none ∨ row.deviceLabel = some (lit "legacy") := by
  obtain ⟨f, hf, heq⟩ := ensureTokenSchema_map legacyTokenId (migratePeerTokens db)
  obtain ⟨rows, hrows, hnone⟩ := foldl_migrateToken db.peers db.peerTokens
  rw [restart, heq] at hrow
  obtain ⟨old, hold, rfl⟩ := List.mem_map.mp hrow
  have hold' : old ∈ db.peerTokens ++ rows := hrows ▸ hold
  rcases List.mem_append.mp hold' with hmem | hmem
  · exact .inl ⟨old, hmem, (hf old).tokenHash.symm⟩
  · right
    rcases (hf old).deviceLabel with hlabel | hlabel
    · exact .inl (hlabel.trans (hnone old hmem))
    · right
      rw [hlabel, hnone old hmem]
      rfl

/-- A new token is not there after the first part, and start-up adds it under another label. -/
theorem not_atomic_addPeer (hdb : Settled db) (hid : NewId db drawn)
    (hnew : ¬ ∃ row ∈ db.peerTokens, row.tokenHash = digest) {t u v : Time} {db₂ db₃ : Db}
    {id : Option ℕ} {ds : List Db} {r : Except Exn Unit}
    (hinsert : exec (sqlite env) (Raft.upsertPeer db p digest role platform endpoint dc ack t)
      (.insertToken true p digest drawn.tokenId (lit "primary") (lit "full") u) = .ok (db₂, id))
    (hrevoke : exec (sqlite env) db₂ (.revokeOthers v p digest) = .ok (db₃, none)) :
    ¬ Atomic legacyTokenId db
      (Raft.upsertPeer db p digest role platform endpoint dc ack t :: ds) (db₃, r) := by
  rintro ⟨-, hdie⟩
  rcases hdie _ (List.mem_cons_self ..) with hbefore | hafter
  · obtain ⟨peer, hpeer, hd⟩ := exists_peer_upsertPeer db p digest role platform endpoint dc ack t
    have hpeers := congrArg Db.peers hbefore
    rw [restart_peers] at hpeers
    exact hnew (hdb.covered peer (hpeers ▸ hpeer) digest hd)
  · have hfree : ∃ row ∈ db₂.peerTokens, row.tokenHash = digest ∧
        row.deviceLabel = some (lit "primary") := by
      rcases exec_insertToken hinsert with ⟨-, htaken, -⟩ | ⟨-, -, rfl⟩
      · obtain ⟨row, hrow, hkey⟩ := List.any_eq_true.mp htaken
        rw [Bool.or_eq_true, decide_eq_true_eq, decide_eq_true_eq] at hkey
        exact absurd ⟨row, hrow, hkey.resolve_right (hid row hrow)⟩ hnew
      · exact ⟨_, List.mem_append_right _ (List.mem_singleton_self _), rfl, rfl⟩
    obtain ⟨row, hrow, hhash, hlabel⟩ := hfree
    have hself : ¬ Touches (.revokeOthers v p digest) row := by simp [Touches, isOther, hhash]
    have hmem : row ∈ (restart legacyTokenId
        (Raft.upsertPeer db p digest role platform endpoint dc ack t)).peerTokens :=
      hafter ▸ exec_spares hrow hself hrevoke
    rcases restart_row hmem with ⟨old, hold, hhash'⟩ | hnone | hlegacy
    · exact hnew ⟨old, hold, hhash'.trans hhash⟩
    · cases hlabel.symm.trans hnone
    · exact absurd (hlabel.symm.trans hlegacy) (by decide)

theorem atomic_addPeer (hdb : Settled db) (hid : NewId db drawn) :
    Atomic legacyTokenId db
        (passes env clock (addPeer env p token role platform endpoint dc ack drawn) 1 db)
        (commits env clock (addPeer env p token role platform endpoint dc ack drawn) 1 db) ↔
      ∀ digest, Binds env p token role platform endpoint dc ack digest →
        (∃ row ∈ db.peerTokens, row.tokenHash = digest) ∧
          (SamePeer db p digest role platform endpoint dc ack ∨
            ∀ row ∈ db.peerTokens, isOther p digest row = false) := by
  by_cases hbinds : ∃ digest, Binds env p token role platform endpoint dc ack digest
  swap
  · obtain ⟨e, hpasses, hcommits⟩ := addPeer_unbound (not_exists.mp hbinds) drawn clock 1 db
    rw [hpasses, hcommits]
    exact ⟨fun _ digest hb => absurd ⟨digest, hb⟩ hbinds, fun _ => atomic_error e⟩
  obtain ⟨digest, hbinds⟩ := hbinds
  obtain ⟨db₂, db₃, id, hinsert, hrevoke, hpasses, hcommits⟩ :=
    addPeer_passes hbinds drawn clock 1 db
  have hdigest : ∀ d, Binds env p token role platform endpoint dc ack d → d = digest :=
    fun d hd => Except.ok.inj (hd.1.symm.trans hbinds.1)
  rw [hpasses, hcommits]
  by_cases hknown : ∃ row ∈ db.peerTokens, row.tokenHash = digest
  swap
  · refine ⟨fun h => absurd h (not_atomic_addPeer hdb hid hknown hinsert hrevoke), fun h => ?_⟩
    exact absurd (h digest hbinds).1 hknown
  -- the token stays what it is: the second part changes nothing
  have htaken : tokenTaken db digest drawn.tokenId = true := by
    obtain ⟨row, hrow, hhash⟩ := hknown
    exact List.any_eq_true.mpr ⟨row, hrow, by simp [hhash]⟩
  have hsame : db₂ =
      Raft.upsertPeer db p digest role platform endpoint dc ack (iso (clock 1)) := by
    rcases exec_insertToken hinsert with ⟨-, -, hsame⟩ | ⟨hfree, -⟩
    · exact hsame
    · exact absurd htaken (by rw [show tokenTaken db digest drawn.tokenId = false from hfree]; decide)
  have hupsert : exec (sqlite env) db
    (.upsertPeer p digest role platform endpoint dc ack (iso (clock 1))) =
      .ok (Raft.upsertPeer db p digest role platform endpoint dc ack (iso (clock 1)), none) := rfl
  have hsettled : Settled
      (Raft.upsertPeer db p digest role platform endpoint dc ack (iso (clock 1))) :=
    exec_settled hupsert hdb (fun d hd => by cases hd; exact hknown) nofun
  have hlast : Settled db₃ := addPeer_settled hdb hid hinsert hrevoke
  subst hsame
  rw [atomic_settled (List.forall_mem_cons.mpr ⟨hsettled, List.forall_mem_cons.mpr
    ⟨hsettled, List.forall_mem_singleton.mpr hlast⟩⟩)]
  constructor
  · rintro ⟨-, hdie⟩ d hd
    cases hdigest d hd
    refine ⟨hknown, (hdie _ (List.mem_cons_self ..)).imp (upsertPeer_eq_self_iff _).mp fun h => ?_⟩
    exact (revokeOthers_eq_self_iff hrevoke).mp h.symm
  · intro h
    have hcase := ((h digest hbinds).2.imp (upsertPeer_eq_self_iff (iso (clock 1))).mpr
      fun hself => ((revokeOthers_eq_self_iff hrevoke).mpr hself).symm)
    exact ⟨nofun, List.forall_mem_cons.mpr ⟨hcase, List.forall_mem_cons.mpr
      ⟨hcase, List.forall_mem_singleton.mpr (.inr rfl)⟩⟩⟩

/-! ## `rotate_peer_token` -/

variable {graceUntil : Instant} {ds : List Db} {r : Db × Except Exn Unit}

theorem graceTokens_eq_self_iff {now until_ : Time}
    (h : exec (sqlite env) db (.graceTokens until_ p now) = .ok (db', none)) :
    db' = db ↔ ∀ row ∈ db.peerTokens, Selected p now row → row.graceUntil = some until_ := by
  cases h
  rw [with_peerTokens_iff, Raft.map_eq_self_iff]
  refine forall₂_congr fun row _ => ?_
  rw [ite_eq_right_iff]
  refine imp_congr_right fun _ => ?_
  obtain ⟨_, _, _, _, _, _, _, _, _⟩ := row
  simp only [TokenRow.mk.injEq, true_and, and_true, eq_comm]

/-- A deadline takes no key and removes no peer. -/
theorem graceTokens_free (digest tokenId : Str) {now until_ : Time}
    (h : exec (sqlite env) db (.graceTokens until_ p now) = .ok (db', none)) :
    tokenTaken db' digest tokenId = tokenTaken db digest tokenId ∧ db'.peers = db.peers ∧
      db'.peerTokens.length = db.peerTokens.length := by
  cases h
  refine ⟨?_, rfl, List.length_map _⟩
  rw [tokenTaken, tokenTaken_map _ _ _ fun row => by split_ifs <;> exact ⟨rfl, rfl⟩]
  rfl

theorem Rotates.atomic_iff (h : Rotates env clock p token graceUntil drawn k db ds r)
    (hdb : Settled db) :
    Atomic legacyTokenId db ds r ↔ (Clean p →
      (∀ digest, hashOf env token = .ok digest →
        tokenTaken db digest drawn.tokenId = true ∨ hasPeer db p = false) ∧
      ∀ row ∈ db.peerTokens, Selected p (iso (clock k)) row →
        row.graceUntil = some (iso graceUntil)) := by
  rw [atomic_settled (h.settled hdb).1]
  cases h with
  | unclean hp => exact ⟨fun _ h => absurd h hp, fun _ => ⟨fun _ _ => rfl, nofun⟩⟩
  | refused hp hgrace hfail =>
    have hself := graceTokens_eq_self_iff hgrace
    constructor
    · rintro ⟨hraise, -⟩ -
      exact ⟨hfail, hself.mp (hraise _ rfl)⟩
    · intro h
      have hsame := hself.mpr (h hp).2
      exact ⟨fun _ _ => hsame, List.forall_mem_singleton.mpr (.inr rfl)⟩
  | @rotated db₁ db₂ db₃ digest id hp hd hgrace hinsert hset =>
    obtain ⟨htaken, hpeers, hlength⟩ :=
      graceTokens_free digest drawn.tokenId hgrace
    obtain ⟨hfree, hkey, rfl⟩ : tokenTaken db₁ digest drawn.tokenId = false ∧
        Raft.peerKey (sqlite env) db₁ p = true ∧ db₂ = { db₁ with peerTokens := db₁.peerTokens ++
          [Raft.tokenRow db₁ p digest drawn.tokenId (lit "rotation") (lit "full")
            (iso (clock (k + 1)))] } := by
      rcases exec_insertToken hinsert with ⟨hfalse, -⟩ | hnew
      · cases hfalse
      · exact hnew
    rw [htaken] at hfree
    have hpeer : hasPeer db p = true := by
      rw [Raft.peerKey, Raft.hasPeer, hpeers] at hkey
      exact hkey
    constructor
    · rintro ⟨-, hdie⟩
      exfalso
      rcases hdie _ (List.mem_cons_of_mem _ (List.mem_cons_self ..)) with hbefore | hafter
      · -- the row is not there before
        have hlen := congrArg (fun d : Db => d.peerTokens.length) hbefore
        simp only [List.length_append, List.length_singleton] at hlen
        omega
      · -- nor has the peer the digest
        obtain ⟨peer, hmem, hid⟩ := List.any_eq_true.mp hpeer
        cases hset
        have hsame : db₁.peers = db₁.peers.map fun row =>
          if row.peerId = p then { row with tokenHash := some digest } else row :=
            congrArg Db.peers hafter
        rw [hpeers, eq_comm, Raft.map_eq_self_iff] at hsame
        have hpeer' := hsame peer hmem
        rw [if_pos (of_decide_eq_true hid)] at hpeer'
        obtain ⟨row, hrow, hhash⟩ := hdb.covered peer hmem digest (by rw [← hpeer'])
        rw [tokenTaken, List.any_eq_false] at hfree
        exact hfree row hrow (by simp [hhash])
    · intro h
      rcases (h hp).1 digest hd with htrue | hnone
      · rw [hfree] at htrue
        cases htrue
      · rw [hpeer] at hnone
        cases hnone

/-! ## The target lists -/

theorem with_targets_iff (rows : List AclTargetRow) :
    { db with peerTargetAclTargets := rows } = db ↔ rows = db.peerTargetAclTargets :=
  ⟨fun h => congrArg Db.peerTargetAclTargets h, fun h => by rw [h]⟩

theorem deleteAclTargets_eq_self_iff
    (h : exec (sqlite env) db (.deleteAclTargets p) = .ok (db', none)) :
    db' = db ↔ NoTargets db p := by
  cases h
  rw [with_targets_iff, List.filter_eq_self]
  exact forall₂_congr fun row _ => decide_eq_true_iff

theorem deleteAcl_eq_self_iff (h : exec (sqlite env) db (.deleteAcl p) = .ok (db', none)) :
    db' = db ↔ restricted db p = false := by
  have hacl : ∀ rows : List AclRow, { db with peerTargetAcl := rows } = db ↔
      rows = db.peerTargetAcl := fun rows => ⟨fun h => congrArg Db.peerTargetAcl h, fun h => by rw [h]⟩
  cases h
  rw [hacl, List.filter_eq_self, restricted, List.any_eq_false]
  exact forall₂_congr fun row _ => by simp

theorem upsertAcl_eq_self_iff {now : Time} :
    Raft.upsertAcl db p now = db ↔ AclStands db p now := by
  rw [AclStands, ← Raft.upsertAcl_eq_iff]
  exact ⟨fun h => by rw [h], fun h => by
    show { db with peerTargetAcl := (Raft.upsertAcl db p now).peerTargetAcl } = db
    rw [h]⟩

/-- One target of a list. -/
def insertTarget (p : Str) (t : Instant) (target : Str) : Part := fun _ => do
  strParam target
  return [.insertAclTarget p target (iso t)]

/-- A target is committed when it can be bound, is not in the list and is a peer. -/
theorem commit_insertTarget {t now : Instant} {target : Str} :
    commit env (insertTarget p t target) now db = (db', .ok ()) ↔
      (Clean target ∧ hasPeer db target = true) ∧ listed db p target = false ∧
        db' = { db with
          peerTargetAclTargets := db.peerTargetAclTargets ++ [⟨p, target, iso t⟩] } := by
  by_cases hclean : Clean target
  swap
  · have hparam : strParam target = .error .unicodeEncode := guardOr_neg hclean _
    have hpart : insertTarget p t target now = .error .unicodeEncode := by
      rw [insertTarget, hparam]
      rfl
    rw [commit, hpart]
    exact ⟨(fun h => by cases h), fun h => absurd h.1.1 hclean⟩
  have hpart : insertTarget p t target now = .ok [.insertAclTarget p target (iso t)] := by
    rw [insertTarget, show strParam target = .ok () from guardOr_pos hclean _]
    rfl
  have hkey : Raft.peerKey (sqlite env) db target = hasPeer db target := rfl
  rw [commit_single hpart]
  simp only [exec, hkey, and_iff_right hclean]
  cases listed db p target <;> cases hasPeer db target <;> simp [Raft.done, eq_comm]

/-- Each target makes the list longer. -/
theorem length_le_commits (env : Env) (clock : ℕ → Instant) (p : Str) (t : Instant) (targets : List Str) (k : ℕ) (db : Db) :
    db.peerTargetAclTargets.length ≤
      (commits env clock (targets.map (insertTarget p t)) k db).1.peerTargetAclTargets.length := by
  induction targets generalizing k db with
  | nil => exact Nat.le_refl _
  | cons target targets ih =>
    rw [List.map_cons]
    rcases commit_cases env (insertTarget p t target) (clock k) db with
      ⟨e, he⟩ | ⟨_, db₁, _, -, -, hc⟩
    · rw [(passes_error he).2]
    · rw [(passes_ok hc).2]
      refine Nat.le_trans ?_ (ih (k + 1) db₁)
      rw [(commit_insertTarget.mp hc).2.2]
      simp

/-- The targets of a list that is empty: nothing else is left when the first of them fails, and
none may follow one that is committed. -/
theorem inserts_whole_iff (env : Env) (clock : ℕ → Instant) (db : Db) (k : ℕ) (t : Instant)
    (targets : List Str) {d : Db} (hempty : NoTargets d p) :
    ((∀ e, (commits env clock (targets.map (insertTarget p t)) k d).2 = .error e →
        (commits env clock (targets.map (insertTarget p t)) k d).1 = db) ∧
      ∀ d' ∈ d :: passes env clock (targets.map (insertTarget p t)) k d,
        d' = db ∨ d' = (commits env clock (targets.map (insertTarget p t)) k d).1) ↔
      targets = [] ∨ (d = db ∧ (targets.length ≤ 1 ∨ ∃ target rest,
        targets = target :: rest ∧ ¬ (Clean target ∧ hasPeer d target = true))) := by
  cases targets with
  | nil => exact ⟨fun _ => .inl rfl, fun _ => ⟨(fun _ h => by cases h), List.forall_mem_singleton.mpr (.inr rfl)⟩⟩
  | cons target rest =>
    have hlisted : listed d p target = false := by
      rw [listed, List.any_eq_false]
      intro row hrow hcond
      simp only [Bool.and_eq_true, decide_eq_true_eq] at hcond
      exact hempty row hrow hcond.1
    rw [List.map_cons]
    rcases commit_cases env (insertTarget p t target) (clock k) d with
      ⟨e, he⟩ | ⟨_, d₁, _, -, -, hc⟩
    · -- the first target is refused
      have hbad : ¬ (Clean target ∧ hasPeer d target = true) := fun hgood => by
        cases congrArg Prod.snd (he.symm.trans (commit_insertTarget.mpr ⟨hgood, hlisted, rfl⟩))
      rw [(passes_error he).1, (passes_error he).2]
      constructor
      · rintro ⟨hraise, -⟩
        exact .inr ⟨hraise e rfl, .inr ⟨target, rest, rfl, hbad⟩⟩
      · rintro (hnil | ⟨hsame, -⟩)
        · cases hnil
        · exact ⟨fun _ _ => hsame, List.forall_mem_singleton.mpr (.inr rfl)⟩
    · obtain ⟨hgood, -, hd₁⟩ := commit_insertTarget.mp hc
      have hlen : d₁.peerTargetAclTargets.length = d.peerTargetAclTargets.length + 1 := by
        rw [hd₁]
        simp
      have hle := length_le_commits env clock p t rest (k + 1) d₁
      rw [(passes_ok hc).1, (passes_ok hc).2]
      constructor
      · rintro ⟨hraise, hdie⟩
        have hsame : d = db := (hdie d (List.mem_cons_self ..)).resolve_right fun hlast => by
          rw [← hlast] at hle
          omega
        subst hsame
        have hlast : d₁ = (commits env clock (rest.map (insertTarget p t)) (k + 1) d₁).1 :=
          (hdie d₁ (List.mem_cons_of_mem _ (List.mem_cons_self ..))).resolve_left fun hbefore => by
            rw [hbefore] at hlen
            omega
        refine .inr ⟨rfl, .inl ?_⟩
        cases rest with
        | nil => exact Nat.le_refl _
        | cons next rest =>
          exfalso
          rw [List.map_cons] at hraise hlast
          rcases commit_cases env (insertTarget p t next) (clock (k + 1)) d₁ with
            ⟨e, he⟩ | ⟨_, d₂, _, -, -, hc'⟩
          · rw [(passes_error he).2] at hraise
            have hsame : d₁ = d := hraise e rfl
            rw [hsame] at hlen
            omega
          · have hle' := length_le_commits env clock p t rest (k + 1 + 1) d₂
            rw [(passes_ok hc').2] at hlast
            rw [← hlast, (commit_insertTarget.mp hc').2.2] at hle'
            simp at hle'
      · rintro (hnil | ⟨hsame, hone | ⟨target', rest', heq, hbad⟩⟩)
        · cases hnil
        · have hrest : rest = [] := by
            rw [List.length_cons] at hone
            exact List.length_eq_zero_iff.mp (by omega)
          subst hrest
          exact ⟨(fun _ h => by cases h), List.forall_mem_cons.mpr ⟨.inl hsame, List.forall_mem_singleton.mpr (.inr rfl)⟩⟩
        · cases heq
          exact absurd hgood hbad

theorem distinct_eq_nil_iff {targets : List Str} : Raft.distinct targets = [] ↔ targets = [] := by
  cases targets with
  | nil => exact ⟨fun _ => rfl, fun _ => rfl⟩
  | cons => exact ⟨nofun, nofun⟩

/-- A list that is not sent, or whose peer is missing. -/
theorem setTargetAcl_refused {t : Instant} {targets : List Str}
    (h : ¬ (Clean p ∧ hasPeer db p = true)) : ∃ e,
      passes env clock (setTargetAcl p targets t) k db = [] ∧
        commits env clock (setTargetAcl p targets t) k db = (db, .error e) := by
  have hfail : ∀ part ∈ (setTargetAcl p targets t).head?,
      ∃ e, commit env part (clock k) db = (db, .error e) := by
    rintro part ⟨⟩
    by_cases hclean : Clean p
    · have hpart : strParam p = .ok () := guardOr_pos hclean _
      have hkey : Raft.peerKey (sqlite env) db p = false :=
        Bool.eq_false_iff.mpr fun hpeer => h ⟨hclean, hpeer⟩
      simp only [commit, hpart, ok_bind, Raft.transaction, execAll, exec, hkey, if_true, pure,
        Except.pure]
      exact ⟨_, rfl⟩
    · have hpart : strParam p = .error .unicodeEncode := guardOr_neg hclean _
      simp only [commit, hpart]
      exact ⟨_, rfl⟩
  obtain ⟨e, he⟩ := hfail _ rfl
  exact ⟨e, passes_error he⟩

/-- Else the list is emptied, and its targets follow. -/
theorem setTargetAcl_passes {t : Instant} {targets : List Str} (hclean : Clean p)
    (hpeer : hasPeer db p = true) : ∃ d,
      exec (sqlite env) (Raft.upsertAcl db p (iso t)) (.deleteAclTargets p) = .ok (d, none) ∧
      passes env clock (setTargetAcl p targets t) k db = Raft.upsertAcl db p (iso t) :: d ::
        passes env clock (targets.map (insertTarget p t)) (k + 1 + 1) d ∧
      commits env clock (setTargetAcl p targets t) k db =
        commits env clock (targets.map (insertTarget p t)) (k + 1 + 1) d := by
  obtain ⟨d, hd⟩ : ∃ d, exec (sqlite env) (Raft.upsertAcl db p (iso t)) (.deleteAclTargets p) =
    .ok (d, none) := ⟨_, rfl⟩
  have hfirst : ∀ part : Part, part (clock k) = .ok [.upsertAcl p (iso t)] →
      commit env part (clock k) db = (Raft.upsertAcl db p (iso t), .ok ()) := by
    intro part hpart
    have hkey : Raft.peerKey (sqlite env) db p = true := hpeer
    refine (commit_single hpart).mpr ⟨none, ?_⟩
    simp only [exec, hkey, Bool.true_eq_false, if_false]
    rfl
  have hsecond : ∀ part : Part, part (clock (k + 1)) = .ok [.deleteAclTargets p] →
      commit env part (clock (k + 1)) (Raft.upsertAcl db p (iso t)) = (d, .ok ()) :=
    fun _ hpart => (commit_single hpart).mpr ⟨none, hd⟩
  refine ⟨d, hd, ?_⟩
  unfold setTargetAcl
  have hparam : strParam p = .ok () := guardOr_pos hclean _
  rw [(passes_ok (hfirst _ (by rw [hparam]; rfl))).1, (passes_ok (hfirst _ (by rw [hparam]; rfl))).2,
    (passes_ok (hsecond _ rfl)).1, (passes_ok (hsecond _ rfl)).2]
  exact ⟨rfl, rfl⟩

theorem atomic_setTargetAcl {t : Instant} {targets : List Str}
    (hsettled : ∀ d ∈ passes env clock (setTargetAcl p targets t) k db, Settled d) :
    Atomic legacyTokenId db (passes env clock (setTargetAcl p targets t) k db)
        (commits env clock (setTargetAcl p targets t) k db) ↔
      (Clean p → hasPeer db p = true →
        (AclStands db p (iso t) ∧ NoTargets db p ∧
          (targets.length ≤ 1 ∨ ∃ target rest,
            targets = target :: rest ∧ ¬ (Clean target ∧ hasPeer db target = true))) ∨
        (targets = [] ∧ (AclStands db p (iso t) ∨ NoTargets db p))) := by
  rw [atomic_settled hsettled]
  clear hsettled
  by_cases hsent : Clean p ∧ hasPeer db p = true
  swap
  · obtain ⟨e, hpasses, hcommits⟩ := setTargetAcl_refused hsent
    rw [hpasses, hcommits]
    exact ⟨fun _ hclean hpeer => absurd ⟨hclean, hpeer⟩ hsent, fun _ => ⟨fun _ _ => rfl, nofun⟩⟩
  obtain ⟨hclean, hpeer⟩ := hsent
  obtain ⟨d, hdelete, hpasses, hcommits⟩ := setTargetAcl_passes hclean hpeer
  have hnone : NoTargets d p := by
    cases hdelete
    exact fun row hrow => of_decide_eq_true (List.mem_filter.mp hrow).2
  have hpeers : ∀ target, hasPeer d target = hasPeer db target := by
    cases hdelete
    exact fun _ => rfl
  have hfirst : Raft.upsertAcl db p (iso t) = db ↔ AclStands db p (iso t) := upsertAcl_eq_self_iff
  have hsecond : d = Raft.upsertAcl db p (iso t) ↔ NoTargets db p :=
    deleteAclTargets_eq_self_iff hdelete
  have hboth : d = db ↔ AclStands db p (iso t) ∧ NoTargets db p := by
    constructor
    · intro hsame
      have hacl : d.peerTargetAcl = (Raft.upsertAcl db p (iso t)).peerTargetAcl := by
        cases hdelete
        rfl
      rw [hsame] at hacl hnone
      exact ⟨Raft.upsertAcl_eq_iff.mp hacl.symm, hnone⟩
    · rintro ⟨hacl, htargets⟩
      rw [hsecond.mpr htargets, hfirst.mpr hacl]
  have hrest := inserts_whole_iff env clock db (k + 1 + 1) t targets hnone
  rw [hpasses, hcommits, List.forall_mem_cons, and_left_comm, hrest]
  simp only [hclean, hpeer, forall_const, hpeers]
  constructor
  · rintro ⟨hone, rfl | ⟨hsame, htargets⟩⟩
    · exact .inr ⟨rfl, hone.imp hfirst.mp fun hlast => hsecond.mp hlast.symm⟩
    · obtain ⟨hacl, hno⟩ := hboth.mp hsame
      exact .inl ⟨hacl, hno, htargets⟩
  · rintro (⟨hacl, hno, htargets⟩ | ⟨rfl, hone⟩)
    · exact ⟨.inl (hfirst.mpr hacl), .inr ⟨hboth.mpr ⟨hacl, hno⟩, htargets⟩⟩
    · exact ⟨hone.imp hfirst.mpr fun hno => (hsecond.mpr hno).symm, .inl rfl⟩

theorem atomic_clearTargetAcl
    (hsettled : ∀ d ∈ passes env clock (clearTargetAcl p) k db, Settled d) :
    Atomic legacyTokenId db (passes env clock (clearTargetAcl p) k db)
        (commits env clock (clearTargetAcl p) k db) ↔
      (Clean p → NoTargets db p ∨ restricted db p = false) := by
  rw [atomic_settled hsettled]
  clear hsettled
  unfold clearTargetAcl
  by_cases hclean : Clean p
  swap
  · have hparam : strParam p = .error .unicodeEncode := guardOr_neg hclean _
    have hcommit : ∀ part : Part, part (clock k) = .error .unicodeEncode →
        commit env part (clock k) db = (db, .error .unicodeEncode) := by
      intro part hpart
      rw [commit, hpart]
    rw [(passes_error (hcommit _ (by rw [hparam]; rfl))).1,
      (passes_error (hcommit _ (by rw [hparam]; rfl))).2]
    exact ⟨fun _ h => absurd h hclean, fun _ => ⟨fun _ _ => rfl, List.forall_mem_nil _⟩⟩
  have hparam : strParam p = .ok () := guardOr_pos hclean _
  obtain ⟨d₁, hfirst⟩ : ∃ d₁, exec (sqlite env) db (.deleteAclTargets p) = .ok (d₁, none) :=
    ⟨_, rfl⟩
  obtain ⟨d₂, hsecond⟩ : ∃ d₂, exec (sqlite env) d₁ (.deleteAcl p) = .ok (d₂, none) := ⟨_, rfl⟩
  have hone : ∀ part : Part, part (clock k) = .ok [.deleteAclTargets p] →
      commit env part (clock k) db = (d₁, .ok ()) :=
    fun _ hpart => (commit_single hpart).mpr ⟨none, hfirst⟩
  have htwo : ∀ part : Part, part (clock (k + 1)) = .ok [.deleteAcl p] →
      commit env part (clock (k + 1)) d₁ = (d₂, .ok ()) :=
    fun _ hpart => (commit_single hpart).mpr ⟨none, hsecond⟩
  rw [(passes_ok (hone _ (by rw [hparam]; rfl))).1, (passes_ok (hone _ (by rw [hparam]; rfl))).2,
    (passes_ok (htwo _ rfl)).1, (passes_ok (htwo _ rfl)).2]
  have hacl : restricted d₁ p = restricted db p := by
    cases hfirst
    rfl
  have hcase : (d₁ = db ∨ d₁ = d₂) ↔ NoTargets db p ∨ restricted db p = false := by
    rw [deleteAclTargets_eq_self_iff hfirst, eq_comm (a := d₁), deleteAcl_eq_self_iff hsecond, hacl]
  constructor
  · rintro ⟨-, hdie⟩ -
    exact hcase.mp (hdie d₁ (List.mem_cons_self ..))
  · intro h
    exact ⟨(fun _ h => by cases h), List.forall_mem_cons.mpr ⟨hcase.mpr (h hclean),
      List.forall_mem_singleton.mpr (.inr rfl)⟩⟩

/-- A call of one part. -/
theorem atomic_single {part : Part}
    (hsettled : ∀ d ∈ passes env clock [part] k db, Settled d) :
    Atomic legacyTokenId db (passes env clock [part] k db) (commits env clock [part] k db) := by
  rw [atomic_settled hsettled]
  rcases commit_cases env part (clock k) db with ⟨e, he⟩ | ⟨_, d, _, -, -, hc⟩
  · rw [(passes_error he).1, (passes_error he).2]
    exact ⟨fun _ _ => rfl, nofun⟩
  · rw [(passes_ok hc).1, (passes_ok hc).2]
    exact ⟨nofun, List.forall_mem_singleton.mpr (.inr rfl)⟩

/-! ## Every call -/

/-- `set_target_acl("alice", ["ghost"])` -/
def aliceGhost : Call := .setTargetAcl (lit "alice") [lit "ghost"]

theorem reach_aliceOne (legacyTokenId : Str → Str → Str) :
    Reach (operations plainEnv legacyTokenId) DrawsNew aliceOne :=
  .step (a := .call (aliceToken (lit "one"), drawOne) (fun _ => noon) 5) (.init rfl)
    (List.forall_mem_nil _) ⟨⟨_, rfl⟩, rfl⟩

end Admin
end ATalk
