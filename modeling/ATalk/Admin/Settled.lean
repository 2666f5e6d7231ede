import ATalk.Admin.Credential

/-!
# Databases that a restart leaves alone

Calls made one at a time: each returns, or dies and the store is opened again. What start-up would
do to the tokens is then done already: every token of a peer has its row, and every row its id.

* `Settled`, `Settled.restart_eq` : start-up changes nothing;
* `covered_restart` : start-up adds every row that is missing;
* `operations`, `settled_of_reach` : the databases between the calls.
-/

namespace ATalk
namespace Admin

open Text Python Sqlite ATalk.Core Checks Transition Calendar
open Raft (Stmt exec execAll)

variable {env : Env} {legacyTokenId : Str → Str → Str} {c : Raft.Cluster} {db db' : Db}
  {clock : ℕ → Instant} {a : Call × Drawn}

/-- The current token of every peer has a row. -/
def Covered (db : Db) : Prop :=
  ∀ peer ∈ db.peers, ∀ digest, peer.tokenHash = some digest →
    ∃ row ∈ db.peerTokens, row.tokenHash = digest

/-- Every row has an id. -/
def Labelled (db : Db) : Prop := ∀ row ∈ db.peerTokens, unlabelled row = false

structure Settled (db : Db) : Prop where
  covered : Covered db
  labelled : Labelled db

theorem migrateToken_of_mem {tokens : List TokenRow} {peer : PeerRow}
    (h : ∀ digest, peer.tokenHash = some digest → ∃ row ∈ tokens, row.tokenHash = digest) :
    migrateToken tokens peer = tokens := by
  unfold migrateToken
  split
  · rfl
  next digest hd =>
    obtain ⟨row, hrow, hhash⟩ := h digest hd
    exact if_pos (List.any_eq_true.mpr ⟨row, hrow, decide_eq_true hhash⟩)

theorem migratePeerTokens_eq (h : Covered db) : migratePeerTokens db = db := by
  have hfold : ∀ peers : List PeerRow, (∀ peer ∈ peers, peer ∈ db.peers) →
      peers.foldl migrateToken db.peerTokens = db.peerTokens := by
    intro peers
    induction peers with
    | nil => exact fun _ => rfl
    | cons peer peers ih =>
      intro hsub
      rw [List.foldl_cons, migrateToken_of_mem (h peer (hsub peer (List.mem_cons_self ..)))]
      exact ih fun p hp => hsub p (List.mem_cons_of_mem _ hp)
  rw [migratePeerTokens, hfold db.peers fun _ hp => hp]

theorem ensureTokenSchema_eq (h : Labelled db) : ensureTokenSchema legacyTokenId db = db := by
  have hnone : db.peerTokens.filter unlabelled = [] :=
    List.filter_eq_nil_iff.mpr fun row hrow => by simp [h row hrow]
  rw [ensureTokenSchema, hnone]
  rfl

/-- Start-up changes nothing. -/
theorem Settled.restart_eq (h : Settled db) : restart legacyTokenId db = db := by
  rw [restart, migratePeerTokens_eq h.covered, ensureTokenSchema_eq h.labelled]

/-- A settled database stays so while the peers and the token rows are the same. -/
theorem Settled.congr (h : Settled db) (hpeers : db'.peers = db.peers)
    (htokens : db'.peerTokens = db.peerTokens) : Settled db' := by
  refine ⟨?_, ?_⟩
  · unfold Covered
    rw [hpeers, htokens]
    exact h.covered
  · unfold Labelled
    rw [htokens]
    exact h.labelled

theorem Settled.empty : Settled {} := ⟨nofun, nofun⟩

/-- After start-up every token of a peer has its row. -/
theorem covered_restart (legacyTokenId : Str → Str → Str) (db : Db) :
    Covered (restart legacyTokenId db) := by
  have hfold : ∀ (peers : List PeerRow) (tokens : List TokenRow), ∀ peer ∈ peers, ∀ digest,
      peer.tokenHash = some digest →
        ∃ row ∈ peers.foldl migrateToken tokens, row.tokenHash = digest := by
    intro peers
    induction peers with
    | nil => nofun
    | cons p peers ih =>
      intro tokens peer hpeer digest hd
      rcases List.mem_cons.mp hpeer with rfl | hpeer
      · obtain ⟨rows, hrows, -⟩ := foldl_migrateToken peers (migrateToken tokens peer)
        rw [List.foldl_cons, hrows]
        have hone : ∃ row ∈ migrateToken tokens peer, row.tokenHash = digest := by
          unfold migrateToken
          rw [hd]
          simp only
          split_ifs with hany
          · obtain ⟨row, hrow, hhash⟩ := List.any_eq_true.mp hany
            exact ⟨row, hrow, of_decide_eq_true hhash⟩
          · exact ⟨_, List.mem_append_right _ (List.mem_singleton_self _), rfl⟩
        obtain ⟨row, hrow, hhash⟩ := hone
        exact ⟨row, List.mem_append_left _ hrow, hhash⟩
      · exact ih _ peer hpeer digest hd
  intro peer hpeer digest hd
  rw [restart_peers] at hpeer
  obtain ⟨f, hf, heq⟩ := ensureTokenSchema_map legacyTokenId (migratePeerTokens db)
  obtain ⟨row, hrow, hhash⟩ := hfold db.peers db.peerTokens peer hpeer digest hd
  refine ⟨f row, ?_, (hf row).tokenHash.trans hhash⟩
  rw [restart, heq]
  exact List.mem_map_of_mem hrow

/-! ## What statements keep -/

/-- The digest a statement gives a peer. -/
def newDigest : Stmt → Option Str
  | .upsertPeer _ digest .. => some digest
  | .setPeerToken digest _ => some digest
  | _ => none

/-- A digest of a peer was one before, or the statement has given it. -/
theorem exec_digests {s : Stmt} {id : Option ℕ} (h : exec c db s = .ok (db', id)) :
    ∀ peer' ∈ db'.peers, (∃ peer ∈ db.peers, peer.tokenHash = peer'.tokenHash) ∨
      ∃ digest, peer'.tokenHash = some digest ∧ newDigest s = some digest := by
  have hsame : db'.peers = db.peers → ∀ peer' ∈ db'.peers,
      (∃ peer ∈ db.peers, peer.tokenHash = peer'.tokenHash) ∨
      ∃ digest, peer'.tokenHash = some digest ∧ newDigest s = some digest :=
    fun heq peer' hpeer' => .inl ⟨peer', heq ▸ hpeer', rfl⟩
  have hinsert : ∀ v seq, (Raft.insertOrIgnore db v seq).peers = db.peers := by
    intro v seq
    unfold Raft.insertOrIgnore
    split_ifs <;> rfl
  cases s with
  | upsertPeer =>
    cases h
    intro peer' hpeer'
    simp only [Raft.upsertPeer] at hpeer'
    split_ifs at hpeer' with hknown
    · obtain ⟨peer, hpeer, rfl⟩ := List.mem_map.mp hpeer'
      split_ifs
      · exact .inr ⟨_, rfl, rfl⟩
      · exact .inl ⟨peer, hpeer, rfl⟩
    · rcases List.mem_append.mp hpeer' with hpeer' | hpeer'
      · exact .inl ⟨peer', hpeer', rfl⟩
      · rw [List.mem_singleton.mp hpeer']
        exact .inr ⟨_, rfl, rfl⟩
  | setPeerToken =>
    cases h
    intro peer' hpeer'
    obtain ⟨peer, hpeer, rfl⟩ := List.mem_map.mp hpeer'
    split_ifs
    · exact .inr ⟨_, rfl, rfl⟩
    · exact .inl ⟨peer, hpeer, rfl⟩
  | insertToken | insertGrant | upsertAcl | insertAclTarget | upsertAck | bumpCounter |
    raiseCounter | acceptCommand =>
    simp only [exec] at h
    split_ifs at h
    all_goals
      cases h
      exact hsame rfl
  | insertCounted values guard =>
    simp only [exec] at h
    split at h
    · cases h
      split_ifs at hsame ⊢
      · exact hsame (hinsert _ _)
      · exact hsame rfl
    · cases h
      exact hsame rfl
  | insertNumbered values seq guard =>
    cases h
    split_ifs at hsame ⊢
    · exact hsame (hinsert _ _)
    · exact hsame rfl
  | _ =>
    cases h
    exact hsame rfl

/-- A statement keeps the rows of the tokens, and so what they cover. -/
theorem exec_covered {s : Stmt} {id : Option ℕ} (h : exec c db s = .ok (db', id)) (hdb : Covered db)
    (hnew : ∀ digest, newDigest s = some digest → ∃ row ∈ db.peerTokens, row.tokenHash = digest) :
    Covered db' := by
  intro peer' hpeer' digest hd
  have hold : ∃ row ∈ db.peerTokens, row.tokenHash = digest := by
    rcases exec_digests h peer' hpeer' with ⟨peer, hpeer, hsame⟩ | ⟨digest', hd', hs'⟩
    · exact hdb peer hpeer digest (hsame.trans hd)
    · cases hd.symm.trans hd'
      exact hnew digest hs'
  obtain ⟨row, hrow, hhash⟩ := hold
  obtain ⟨rows, htokens, -⟩ := exec_tokens h
  refine ⟨tokenUpdate s row, ?_, (tokenUpdate_tokenHash s row).trans hhash⟩
  rw [htokens]
  exact List.mem_append_left _ (List.mem_map_of_mem hrow)

/-- The id a statement gives a new row. -/
def newTokenId : Stmt → Option Str
  | .insertToken _ _ _ tokenId .. => some tokenId
  | _ => none

theorem exec_labelled {s : Stmt} {id : Option ℕ} (h : exec c db s = .ok (db', id))
    (hdb : Labelled db) (hnew : newTokenId s ≠ some []) : Labelled db' := by
  obtain ⟨rows, htokens, hrows⟩ := exec_tokens h
  intro row' hrow'
  rw [htokens, List.mem_append] at hrow'
  rcases hrow' with hold | hadded
  · obtain ⟨row, hrow, rfl⟩ := List.mem_map.mp hold
    rw [unlabelled, tokenUpdate_tokenId]
    exact hdb row hrow
  · rcases hrows with rfl | ⟨o, p, digest, tokenId, label, scope, t, rfl, -, -, rfl⟩
    · cases hadded
    · have hid : tokenId ≠ [] := fun hnil => hnew (congrArg some hnil)
      rw [List.mem_singleton.mp hadded]
      simp [unlabelled, Raft.tokenRow, hid]

theorem exec_settled {s : Stmt} {id : Option ℕ} (h : exec c db s = .ok (db', id)) (hdb : Settled db)
    (hdigest : ∀ digest, newDigest s = some digest → ∃ row ∈ db.peerTokens, row.tokenHash = digest)
    (hid : newTokenId s ≠ some []) : Settled db' :=
  ⟨exec_covered h hdb.covered hdigest, exec_labelled h hdb.labelled hid⟩

/-- A call draws an id that is no empty text. -/
theorem Does.newTokenId_ne {s : Stmt} {now : Instant} (hs : Does env a.2 now a.1 s) :
    newTokenId s ≠ some [] := by
  obtain ⟨call, drawn⟩ := a
  cases hs with
  | primary | rotation | deviceToken => exact fun h => drawn.tokenId_ne (Option.some.inj h)
  | _ => nofun

theorem settled_passes {parts : List Part} {k : ℕ} (hdb : Settled db)
    (hparts : ∀ part ∈ parts, PartOf env a part)
    (hcall : ∀ now s, Does env a.2 now a.1 s → newDigest s = none) :
    ∀ d ∈ passes env clock parts k db, Settled d := by
  refine passes_induct hdb fun part hpart now db₁ db₂ hdb₁ hcommit => ?_
  obtain ⟨stmts, ids, hstmts, hexec⟩ := commit_ok hcommit
  refine execAll_induct (P := Settled) hdb₁ (fun s hs d d' id hd hone => ?_) hexec
  have hdoes := hparts part hpart now stmts hstmts s hs
  refine exec_settled hone hd (fun digest hnew => ?_) hdoes.newTokenId_ne
  rw [hcall now s hdoes] at hnew
  cases hnew

variable {p token : Str} {drawn : Drawn}

/-- What `rotate_peer_token` commits: nothing, the grace alone, or all three parts. -/
inductive Rotates (env : Env) (clock : ℕ → Instant) (p token : Str) (graceUntil : Instant)
    (drawn : Drawn) (k : ℕ) (db : Db) : List Db → Db × Except Exn Unit → Prop where
  | unclean (hp : ¬ Clean p) : Rotates env clock p token graceUntil drawn k db [] (db, .error .unicodeEncode)
  | refused {db₁ : Db} {e : Exn} (hp : Clean p)
      (hgrace : exec (sqlite env) db (.graceTokens (iso graceUntil) p (iso (clock k))) =
        .ok (db₁, none))
      (hfail : ∀ digest, hashOf env token = .ok digest →
        Raft.tokenTaken db digest drawn.tokenId = true ∨ Raft.hasPeer db p = false) :
      Rotates env clock p token graceUntil drawn k db [db₁] (db₁, .error e)
  | rotated {db₁ db₂ db₃ : Db} {digest : Str} {id : Option ℕ} (hp : Clean p)
      (hd : hashOf env token = .ok digest)
      (hgrace : exec (sqlite env) db (.graceTokens (iso graceUntil) p (iso (clock k))) =
        .ok (db₁, none))
      (hinsert : exec (sqlite env) db₁ (.insertToken false p digest drawn.tokenId (lit "rotation")
        (lit "full") (iso (clock (k + 1)))) = .ok (db₂, id))
      (hset : exec (sqlite env) db₂ (.setPeerToken digest p) = .ok (db₃, none)) :
      Rotates env clock p token graceUntil drawn k db [db₁, db₂, db₃] (db₃, .ok ())

/-- Deadlines change neither the keys of the rows nor the peers. -/
theorem tokenTaken_map {f : TokenRow → TokenRow} (tokens : List TokenRow) (digest tokenId : Str)
    (hf : ∀ row, (f row).tokenHash = row.tokenHash ∧ (f row).tokenId = row.tokenId) :
    (tokens.map f).any (fun row => row.tokenHash = digest || row.tokenId = some tokenId) =
      tokens.any fun row => row.tokenHash = digest || row.tokenId = some tokenId := by
  rw [List.any_map]
  congr 1
  funext row
  simp only [Function.comp, (hf row).1, (hf row).2]

/-- A plain INSERT of a token fails for a key that is taken or a peer that is missing. -/
theorem exec_insertToken_error {p digest tokenId label scope : Str} {t : Time} {e : Raft.SqlError}
    (h : exec (sqlite env) db (.insertToken false p digest tokenId label scope t) = .error e) :
    Raft.tokenTaken db digest tokenId = true ∨ Raft.hasPeer db p = false := by
  by_contra hfree
  rw [not_or, Bool.not_eq_true, Bool.not_eq_false] at hfree
  have hkey : Raft.peerKey (sqlite env) db p = true := by
    rw [Raft.peerKey, hfree.2, Bool.or_true]
  simp only [exec, hfree.1, hkey, Bool.false_eq_true, Bool.true_eq_false, if_false] at h
  cases h

theorem rotatePeerToken_rotates (env : Env) (clock : ℕ → Instant) (p token : Str)
    (graceUntil : Instant) (drawn : Drawn) (k : ℕ) (db : Db) :
    Rotates env clock p token graceUntil drawn k db
      (passes env clock (rotatePeerToken env p token graceUntil drawn) k db)
      (commits env clock (rotatePeerToken env p token graceUntil drawn) k db) := by
  unfold rotatePeerToken
  by_cases hp : Clean p
  swap
  · -- the first part is not sent
    have hparam : strParam p = .error .unicodeEncode := guardOr_neg hp _
    have hcommit : ∀ part : Part, part (clock k) = .error .unicodeEncode →
        commit env part (clock k) db = (db, .error .unicodeEncode) := by
      intro part hpart
      rw [commit, hpart]
    rw [(passes_error (hcommit _ (by rw [hparam]; rfl))).1,
      (passes_error (hcommit _ (by rw [hparam]; rfl))).2]
    exact .unclean hp
  have hparam : strParam p = .ok () := guardOr_pos hp _
  obtain ⟨db₁, hgrace⟩ : ∃ db₁, exec (sqlite env) db
    (.graceTokens (iso graceUntil) p (iso (clock k))) = .ok (db₁, none) := ⟨_, rfl⟩
  have hfirst : ∀ part : Part, part (clock k) =
      .ok [.graceTokens (iso graceUntil) p (iso (clock k))] →
        commit env part (clock k) db = (db₁, .ok ()) :=
    fun _ hpart => (commit_single hpart).mpr ⟨none, hgrace⟩
  rw [(passes_ok (hfirst _ (by rw [hparam]; rfl))).1, (passes_ok (hfirst _ (by rw [hparam]; rfl))).2]
  cases hd : hashOf env token with
  | error e =>
    -- the token cannot be hashed
    have hcommit : ∀ part : Part, part (clock (k + 1)) = .error e →
        commit env part (clock (k + 1)) db₁ = (db₁, .error e) := by
      intro part hpart
      rw [commit, hpart]
    rw [(passes_error (hcommit _ (by rw [hparam]; rfl))).1,
      (passes_error (hcommit _ (by rw [hparam]; rfl))).2]
    refine .refused hp hgrace fun digest hd' => ?_
    cases hd.symm.trans hd'
  | ok digest =>
    cases hinsert : exec (sqlite env) db₁ (.insertToken false p digest drawn.tokenId
        (lit "rotation") (lit "full") (iso (clock (k + 1)))) with
    | error e =>
      have hcommit : ∀ part : Part, part (clock (k + 1)) = .ok [.insertToken false p digest
          drawn.tokenId (lit "rotation") (lit "full") (iso (clock (k + 1)))] →
          commit env part (clock (k + 1)) db₁ = (db₁, .error (.integrity e.constraint)) := by
        intro part hpart
        rw [commit, hpart]
        simp only [Raft.transaction, execAll, hinsert]
      rw [(passes_error (hcommit _ (by rw [hparam]; rfl))).1,
        (passes_error (hcommit _ (by rw [hparam]; rfl))).2]
      refine .refused hp hgrace fun digest' hd' => ?_
      cases hd.symm.trans hd'
      have hfail := exec_insertToken_error hinsert
      cases hgrace
      rw [Raft.tokenTaken, tokenTaken_map _ _ _ fun row => by split_ifs <;> exact ⟨rfl, rfl⟩] at hfail
      exact hfail
    | ok r =>
      obtain ⟨db₂, id⟩ := r
      obtain ⟨db₃, hset⟩ : ∃ db₃, exec (sqlite env) db₂ (.setPeerToken digest p) = .ok (db₃, none) :=
        ⟨_, rfl⟩
      have hsecond : ∀ part : Part, part (clock (k + 1)) = .ok [.insertToken false p digest
          drawn.tokenId (lit "rotation") (lit "full") (iso (clock (k + 1)))] →
          commit env part (clock (k + 1)) db₁ = (db₂, .ok ()) :=
        fun _ hpart => (commit_single hpart).mpr ⟨id, hinsert⟩
      have hthird : ∀ part : Part, part (clock (k + 1 + 1)) = .ok [.setPeerToken digest p] →
          commit env part (clock (k + 1 + 1)) db₂ = (db₃, .ok ()) :=
        fun _ hpart => (commit_single hpart).mpr ⟨none, hset⟩
      rw [(passes_ok (hsecond _ (by rw [hparam]; rfl))).1,
        (passes_ok (hsecond _ (by rw [hparam]; rfl))).2, (passes_ok (hthird _ (by rw [hparam]; rfl))).1,
        (passes_ok (hthird _ (by rw [hparam]; rfl))).2]
      exact .rotated hp hd hgrace hinsert hset

/-! ## What calls keep -/

/-- No row has the id that the call draws. -/
def NewId (db : Db) (drawn : Drawn) : Prop :=
  ∀ row ∈ db.peerTokens, row.tokenId ≠ some drawn.tokenId

/-- A row is there after it was inserted, or was before. -/
theorem exists_row_insertToken {o : Bool} {digest tokenId label scope : Str} {t : Time}
    {id : Option ℕ} (hid : ∀ row ∈ db.peerTokens, row.tokenId ≠ some tokenId)
    (h : exec c db (.insertToken o p digest tokenId label scope t) = .ok (db', id)) :
    ∃ row ∈ db'.peerTokens, row.tokenHash = digest := by
  rcases exec_insertToken h with ⟨-, htaken, rfl⟩ | ⟨-, -, rfl⟩
  · obtain ⟨row, hrow, hkey⟩ := List.any_eq_true.mp htaken
    rw [Bool.or_eq_true, decide_eq_true_eq, decide_eq_true_eq] at hkey
    exact ⟨row, hrow, hkey.resolve_right (hid row hrow)⟩
  · exact ⟨_, List.mem_append_right _ (List.mem_singleton_self _), rfl⟩

theorem Rotates.settled {graceUntil : Instant} {k : ℕ} {ds : List Db} {r : Db × Except Exn Unit}
    (h : Rotates env clock p token graceUntil drawn k db ds r) (hdb : Settled db) :
    (∀ d ∈ ds, Settled d) ∧ Settled r.1 := by
  cases h with
  | unclean => exact ⟨nofun, hdb⟩
  | refused hp hgrace =>
    have h₁ := exec_settled hgrace hdb nofun nofun
    exact ⟨List.forall_mem_singleton.mpr h₁, h₁⟩
  | @rotated db₁ db₂ db₃ digest id hp hd hgrace hinsert hset =>
    have h₁ := exec_settled hgrace hdb nofun nofun
    have h₂ := exec_settled hinsert h₁ nofun fun hnil => drawn.tokenId_ne (Option.some.inj hnil)
    have hrow : ∃ row ∈ db₂.peerTokens, row.tokenHash = digest := by
      rcases exec_insertToken hinsert with ⟨hfalse, -⟩ | ⟨-, -, rfl⟩
      · cases hfalse
      · exact ⟨_, List.mem_append_right _ (List.mem_singleton_self _), rfl⟩
    have h₃ := exec_settled hset h₂ (fun d hd' => by cases hd'; exact hrow) nofun
    exact ⟨List.forall_mem_cons.mpr ⟨h₁, List.forall_mem_cons.mpr
      ⟨h₂, List.forall_mem_singleton.mpr h₃⟩⟩, h₃⟩

/-- After all three parts of `add_peer` the token has its row. -/
theorem addPeer_settled {digest : Str} {role platform endpoint : Option Str} {dc : Str} {ack : ℤ}
    {t u v : Time} {db₂ db₃ : Db} {id : Option ℕ} (hdb : Settled db) (hid : NewId db drawn)
    (hinsert : exec (sqlite env) (Raft.upsertPeer db p digest role platform endpoint dc ack t)
      (.insertToken true p digest drawn.tokenId (lit "primary") (lit "full") u) = .ok (db₂, id))
    (hrevoke : exec (sqlite env) db₂ (.revokeOthers v p digest) = .ok (db₃, none)) :
    Settled db₃ := by
  have hupsert : exec (sqlite env) db (.upsertPeer p digest role platform endpoint dc ack t) =
    .ok (Raft.upsertPeer db p digest role platform endpoint dc ack t, none) := rfl
  have hid₁ : ∀ row ∈ (Raft.upsertPeer db p digest role platform endpoint dc ack t).peerTokens,
    row.tokenId ≠ some drawn.tokenId := hid
  obtain ⟨row, hrow, hhash⟩ := exists_row_insertToken hid₁ hinsert
  have hlabelled : Labelled db₂ := exec_labelled hinsert (exec_labelled hupsert hdb.labelled nofun)
    fun hnil => drawn.tokenId_ne (Option.some.inj hnil)
  have hcovered : Covered db₂ := by
    intro peer hpeer digest' hd
    rcases exec_digests hinsert peer hpeer with ⟨peer₁, hpeer₁, hsame₁⟩ | ⟨_, _, hnone⟩
    · rcases exec_digests hupsert peer₁ hpeer₁ with ⟨peer₀, hpeer₀, hsame₀⟩ | ⟨d, hd', hnew⟩
      · -- the digest is an old one
        obtain ⟨old, hold, hhash'⟩ := hdb.covered peer₀ hpeer₀ digest'
          (hsame₀.trans (hsame₁.trans hd))
        obtain ⟨rows, htokens, -⟩ := exec_tokens hinsert
        refine ⟨old, ?_, hhash'⟩
        rw [htokens]
        exact List.mem_append_left _ (List.mem_map.mpr ⟨old, hold, rfl⟩)
      · cases hnew
        cases hd'.symm.trans (hsame₁.trans hd)
        exact ⟨row, hrow, hhash⟩
    · cases hnone
  exact exec_settled hrevoke ⟨hcovered, hlabelled⟩ nofun nofun

/-- A call that returns, with a result or an error, leaves a settled database. -/
theorem Settled.commits {q : Plan} {now : Instant} (hdb : Settled db) (hid : NewId db a.2)
    (hplan : plan env a.1 a.2 now db = .ok q) : Settled (commits env clock q.parts 1 db).1 := by
  have hrest : (∀ now s, Does env a.2 now a.1 s → newDigest s = none) →
      Settled (Admin.commits env clock q.parts 1 db).1 := by
    intro hcall
    rcases commits_mem q.parts 1 db with hsame | hmem
    · rw [hsame]
      exact hdb
    · exact settled_passes hdb (plan_does hplan) hcall _ hmem
  obtain ⟨call, drawn⟩ := a
  cases call with
  | addPeer p given role platform endpoint dc ack =>
    cases hplan
    by_cases hbinds : ∃ digest, Binds env p (givenOr given drawn) role platform endpoint dc ack digest
    · obtain ⟨digest, hbinds⟩ := hbinds
      obtain ⟨db₂, db₃, id, hinsert, hrevoke, -, hcommits⟩ := addPeer_passes hbinds drawn clock 1 db
      rw [hcommits]
      exact addPeer_settled hdb hid hinsert hrevoke
    · obtain ⟨e, -, hcommits⟩ := addPeer_unbound (not_exists.mp hbinds) drawn clock 1 db
      rw [hcommits]
      exact hdb
  | rotatePeerToken p given sec =>
    simp only [plan] at hplan
    split at hplan
    · cases hplan
    · cases hplan
      exact ((rotatePeerToken_rotates ..).settled hdb).2
  | addDeviceToken | revokeDeviceToken | setTargetAcl | clearTargetAcl =>
    exact hrest fun now s hs => by cases hs <;> rfl

/-! ## One call at a time -/

inductive Operation where
  | call (a : Call × Drawn) (clock : ℕ → Instant) (n : ℕ)
  | crash (a : Call × Drawn) (clock : ℕ → Instant) (n : ℕ)
  | write (db : Db)

/-- A call that returns, a call that dies after some steps and the next start-up, or a request that
writes other tables. A store that cannot label its rows does not open. -/
def operations (env : Env) (legacyTokenId : Str → Str → Str) : System Db Operation where
  init db := db = {}
  step db op db' :=
    match op with
    | .call a clock n =>
      (∃ r, (alone env a clock db n).2 = .returned r) ∧ db' = (alone env a clock db n).1
    | .crash a clock n => db' = restart legacyTokenId (alone env a clock db n).1 ∧ Labelled db'
    | .write d => SameAdmin db d ∧ db' = d

/-- The id that a call draws is new. -/
def DrawsNew (db : Db) : Operation → Prop
  | .call a .. => NewId db a.2
  | .crash a .. => NewId db a.2
  | .write _ => True

/-- Between the calls start-up would change nothing. -/
theorem settled_of_reach (h : Reach (operations env legacyTokenId) DrawsNew db) : Settled db := by
  refine h.invariant (P := Settled) ?_ ?_
  · intro db hinit
    have hempty : db = {} := hinit
    rw [hempty]
    exact .empty
  · intro db op db' hdb hnew hstep
    cases op with
    | call a clock n =>
      obtain ⟨⟨r, hret⟩, rfl⟩ := hstep
      cases hplan : plan env a.1 a.2 (clock 0) db with
      | error e =>
        cases n with
        | zero => cases hret
        | succ n =>
          rw [alone_of_error hplan]
          exact hdb
      | ok q =>
        rw [(returned_commits hplan hret).1]
        exact hdb.commits hnew hplan
    | crash a clock n =>
      obtain ⟨rfl, hlabelled⟩ := hstep
      exact ⟨covered_restart _ _, hlabelled⟩
    | write d =>
      obtain ⟨hsame, rfl⟩ := hstep
      exact hdb.congr hsame.peers hsame.peerTokens

end Admin
end ATalk
