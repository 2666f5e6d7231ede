import ATalk.Admin

/-!
# What the administration does to tokens

Every call sends statements of a few kinds, and each of them takes the token rows one by one and
may add a row at the end. An invariant of the tables is proved for one statement and holds in every
run; a relation between a row and what becomes of it is proved for one statement and carried along
every run.

* `Does`, `plan_does` : the statements of each call;
* `tokenUpdate`, `exec_tokens` : what a statement does to the token rows;
* `Registered` : what the tables keep;
* `Carry`, `commit_carry`, `restart_carry` : the rows before among the rows after;
* `tokenScope_row` : the scope of a token is that of its row.
-/

namespace ATalk
namespace Admin

open Text Python Sqlite ATalk.Core Checks Transition Callers Calendar
open Raft (Stmt exec execAll hasPeer ownLabel isOther tokenActive tokenTaken peerKey)

/-! ## The statements of a call -/

/-- A statement that a call may send at a moment. -/
inductive Does (env : Env) (drawn : Drawn) (now : Instant) : Call → Stmt → Prop where
  | upsertPeer {p token role platform endpoint dc ack digest} (hp : Clean p)
      (hd : hashOf env (givenOr token drawn) = .ok digest) :
      Does env drawn now (.addPeer p token role platform endpoint dc ack)
        (.upsertPeer p digest role platform endpoint dc ack (iso now))
  | primary {p token role platform endpoint dc ack digest}
      (hd : hashOf env (givenOr token drawn) = .ok digest) :
      Does env drawn now (.addPeer p token role platform endpoint dc ack)
        (.insertToken true p digest drawn.tokenId (lit "primary") (lit "full") (iso now))
  | revokeOthers {p token role platform endpoint dc ack digest}
      (hd : hashOf env (givenOr token drawn) = .ok digest) :
      Does env drawn now (.addPeer p token role platform endpoint dc ack)
        (.revokeOthers (iso now) p digest)
  | graceTokens {p token sec} (graceUntil : Instant) :
      Does env drawn now (.rotatePeerToken p token sec)
        (.graceTokens (iso graceUntil) p (iso now))
  | rotation {p token sec digest} (hd : hashOf env (truthyOr token drawn) = .ok digest) :
      Does env drawn now (.rotatePeerToken p token sec)
        (.insertToken false p digest drawn.tokenId (lit "rotation") (lit "full") (iso now))
  | setPeerToken {p token sec digest} (hd : hashOf env (truthyOr token drawn) = .ok digest) :
      Does env drawn now (.rotatePeerToken p token sec) (.setPeerToken digest p)
  | deviceToken {p label token scope actor digest} (t : Instant)
      (hlabel : label ∉ [lit "legacy", lit "primary", lit "rotation"])
      (hd : hashOf env (truthyOr token drawn) = .ok digest) :
      Does env drawn now (.addDeviceToken p label token scope actor)
        (.insertToken false p digest drawn.tokenId label scope (iso t))
  | deviceAudit {p label token scope actor} (values : Raft.AuditValues) :
      Does env drawn now (.addDeviceToken p label token scope actor) (.insertAudit values)
  | revokeToken {tokenId actor} (t : Instant) :
      Does env drawn now (.revokeDeviceToken tokenId actor) (.revokeToken (iso t) tokenId)
  | revokeAudit {tokenId actor} (values : Raft.AuditValues) :
      Does env drawn now (.revokeDeviceToken tokenId actor) (.insertAudit values)
  | upsertAcl {p targets} (t : Instant) :
      Does env drawn now (.setTargetAcl p targets) (.upsertAcl p (iso t))
  | replaceTargets {p targets} : Does env drawn now (.setTargetAcl p targets) (.deleteAclTargets p)
  | insertTarget {p targets target} (t : Instant) :
      Does env drawn now (.setTargetAcl p targets) (.insertAclTarget p target (iso t))
  | clearTargets {p} : Does env drawn now (.clearTargetAcl p) (.deleteAclTargets p)
  | clearAcl {p} : Does env drawn now (.clearTargetAcl p) (.deleteAcl p)

/-- All that a part sends, whenever it is committed, is of the call. -/
def PartOf (env : Env) (a : Call × Drawn) (part : Part) : Prop :=
  ∀ now stmts, part now = .ok stmts → ∀ s ∈ stmts, Does env a.2 now a.1 s

variable {env : Env} {drawn : Drawn} {call : Call} {now : Instant} {db db' : Db}
  {legacyTokenId : Str → Str → Str} {c : Raft.Cluster}

theorem addPeer_does {p : Str} {token role platform endpoint : Option Str} {dc : Str} {ack : ℤ} :
    ∀ part ∈ addPeer env p (givenOr token drawn) role platform endpoint dc ack drawn,
      PartOf env (.addPeer p token role platform endpoint dc ack, drawn) part := by
  intro part hpart now stmts h s hs
  simp only [addPeer, List.mem_cons, List.not_mem_nil, or_false] at hpart
  rcases hpart with rfl | rfl | rfl
  all_goals
    rw [bind_eq_ok] at h
    obtain ⟨digest, hd, h⟩ := h
    rw [bind_eq_ok] at h
    obtain ⟨_, hp, h⟩ := h
  · simp only [bind_eq_ok] at h
    obtain ⟨_, -, _, -, _, -, _, -, _, -, h⟩ := h
    cases h
    rw [List.mem_singleton.mp hs]
    exact .upsertPeer ((guardOr_eq_ok.mp hp)) hd
  · cases h
    rw [List.mem_singleton.mp hs]
    exact .primary hd
  · cases h
    rw [List.mem_singleton.mp hs]
    exact .revokeOthers hd

theorem rotatePeerToken_does {p : Str} {token : Option Str} {sec : ℤ} {graceUntil : Instant} :
    ∀ part ∈ rotatePeerToken env p (truthyOr token drawn) graceUntil drawn,
      PartOf env (.rotatePeerToken p token sec, drawn) part := by
  intro part hpart now stmts h s hs
  simp only [rotatePeerToken, List.mem_cons, List.not_mem_nil, or_false] at hpart
  rcases hpart with rfl | rfl | rfl
  all_goals simp only [bind_eq_ok] at h
  · obtain ⟨_, -, h⟩ := h
    cases h
    rw [List.mem_singleton.mp hs]
    exact .graceTokens graceUntil
  · obtain ⟨_, -, digest, hd, h⟩ := h
    cases h
    rw [List.mem_singleton.mp hs]
    exact .rotation hd
  · obtain ⟨digest, hd, _, -, h⟩ := h
    cases h
    rw [List.mem_singleton.mp hs]
    exact .setPeerToken hd

theorem setTargetAcl_does {p : Str} {targets targets' : List Str} {t : Instant} :
    ∀ part ∈ setTargetAcl p targets' t, PartOf env (.setTargetAcl p targets, drawn) part := by
  intro part hpart now stmts h s hs
  simp only [setTargetAcl, List.mem_cons, List.mem_map] at hpart
  rcases hpart with rfl | rfl | ⟨target, -, rfl⟩
  · simp only [bind_eq_ok] at h
    obtain ⟨_, -, h⟩ := h
    cases h
    rw [List.mem_singleton.mp hs]
    exact .upsertAcl t
  · cases h
    rw [List.mem_singleton.mp hs]
    exact .replaceTargets
  · simp only [bind_eq_ok] at h
    obtain ⟨_, -, h⟩ := h
    cases h
    rw [List.mem_singleton.mp hs]
    exact .insertTarget t

/-- The parts of a call send statements of the call. -/
theorem plan_does {t : Instant} {p : Plan} (h : plan env call drawn t db = .ok p) :
    ∀ part ∈ p.parts, PartOf env (call, drawn) part := by
  cases call with
  | addPeer =>
    cases h
    exact addPeer_does
  | rotatePeerToken =>
    simp only [plan] at h
    split at h
    · cases h
    · cases h
      exact rotatePeerToken_does
  | addDeviceToken =>
    simp only [plan, bind_eq_ok] at h
    obtain ⟨_, hlabel, _, -, _, -, _, -, h⟩ := h
    cases h
    intro part hpart now stmts hpart' s hs
    rw [List.mem_singleton.mp hpart] at hpart'
    simp only [bind_eq_ok] at hpart'
    obtain ⟨digest, hd, _, -, _, -, hpart'⟩ := hpart'
    cases hpart'
    simp only [Raft.addDeviceToken, List.mem_cons, List.not_mem_nil, or_false] at hs
    rcases hs with rfl | rfl
    · exact .deviceToken t (guardOr_eq_ok.mp hlabel) hd
    · exact .deviceAudit _
  | revokeDeviceToken =>
    simp only [plan, bind_eq_ok] at h
    obtain ⟨_, -, h⟩ := h
    split at h
    · cases h
    · cases h
      intro part hpart now stmts hpart' s hs
      rw [List.mem_singleton.mp hpart] at hpart'
      simp only [bind_eq_ok] at hpart'
      obtain ⟨_, -, hpart'⟩ := hpart'
      cases hpart'
      simp only [Raft.revokeDeviceToken, List.mem_append, List.mem_singleton] at hs
      rcases hs with hs | rfl
      · split_ifs at hs
        · cases hs
        · rw [List.mem_singleton.mp hs]
          exact .revokeToken t
      · exact .revokeAudit _
  | setTargetAcl =>
    cases h
    exact setTargetAcl_does
  | clearTargetAcl =>
    cases h
    intro part hpart now stmts h s hs
    simp only [clearTargetAcl, List.mem_cons, List.not_mem_nil, or_false] at hpart
    rcases hpart with rfl | rfl
    · simp only [bind_eq_ok] at h
      obtain ⟨_, -, h⟩ := h
      cases h
      rw [List.mem_singleton.mp hs]
      exact .clearTargets
    · cases h
      rw [List.mem_singleton.mp hs]
      exact .clearAcl

/-! ## What a statement does to the token rows -/

/-- What becomes of a row. -/
def tokenUpdate : Stmt → TokenRow → TokenRow
  | .revokeOthers now p digest, row =>
    if isOther p digest row then { row with revokedAt := some now } else row
  | .graceTokens graceUntil p now, row =>
    if row.peerId = p ∧ ownLabel row.deviceLabel = true ∧ tokenActive row now = true then
      { row with graceUntil := some graceUntil }
    else row
  | .revokeToken now tokenId, row =>
    if row.tokenId = some tokenId then { row with revokedAt := some now } else row
  | _, row => row

/-- The row that a statement adds. -/
def NewToken (c : Raft.Cluster) (db : Db) (s : Stmt) (rows : List TokenRow) : Prop :=
  rows = [] ∨ ∃ o p digest tokenId label scope now,
    s = .insertToken o p digest tokenId label scope now ∧ tokenTaken db digest tokenId = false ∧
      peerKey c db p = true ∧ rows = [Raft.tokenRow db p digest tokenId label scope now]

/-- A token is inserted under a free digest and id for a peer that is there, or left out. -/
theorem exec_insertToken {o : Bool} {p digest tokenId label scope : Str} {t : Time} {id : Option ℕ}
    (h : exec c db (.insertToken o p digest tokenId label scope t) = .ok (db', id)) :
    (o = true ∧ tokenTaken db digest tokenId = true ∧ db' = db) ∨
      tokenTaken db digest tokenId = false ∧ peerKey c db p = true ∧ db' = { db with
        peerTokens := db.peerTokens ++ [Raft.tokenRow db p digest tokenId label scope t] } := by
  simp only [exec] at h
  split_ifs at h with htaken ho hpeer
  · cases h
    exact .inl ⟨ho, htaken, rfl⟩
  · cases h
    exact .inr ⟨by simpa using htaken, by simpa using hpeer, rfl⟩

/-- The rows are taken one by one, and a new one may follow them. -/
theorem exec_tokens {s : Stmt} {id : Option ℕ} (h : exec c db s = .ok (db', id)) :
    ∃ rows, db'.peerTokens = db.peerTokens.map (tokenUpdate s) ++ rows ∧ NewToken c db s rows := by
  have hsame : ∀ tokens : List TokenRow, tokens = tokens.map (fun row => row) ++ [] := by simp
  have hinsert : ∀ v seq, (Raft.insertOrIgnore db v seq).peerTokens =
      db.peerTokens.map (fun row => row) ++ [] := by
    intro v seq
    unfold Raft.insertOrIgnore
    split_ifs <;> exact hsame _
  cases s with
  | insertToken =>
    rcases exec_insertToken h with ⟨-, -, rfl⟩ | ⟨htaken, hpeer, rfl⟩
    · exact ⟨[], hsame _, .inl rfl⟩
    · refine ⟨_, ?_, .inr ⟨_, _, _, _, _, _, _, rfl, htaken, hpeer, rfl⟩⟩
      exact congrArg (· ++ _) (List.map_id _).symm
  | revokeOthers | graceTokens | revokeToken =>
    cases h
    exact ⟨[], (List.append_nil _).symm, .inl rfl⟩
  | insertGrant | upsertAcl | insertAclTarget | upsertAck | bumpCounter | raiseCounter |
    acceptCommand =>
    simp only [exec] at h
    split_ifs at h
    all_goals
      cases h
      exact ⟨[], hsame _, .inl rfl⟩
  | insertCounted values guard =>
    simp only [exec] at h
    split at h
    · cases h
      split_ifs
      · exact ⟨[], hinsert _ _, .inl rfl⟩
      · exact ⟨[], hsame _, .inl rfl⟩
    · cases h
      exact ⟨[], hsame _, .inl rfl⟩
  | insertNumbered values seq guard =>
    cases h
    split_ifs
    · exact ⟨[], hinsert _ _, .inl rfl⟩
    · exact ⟨[], hsame _, .inl rfl⟩
  | _ =>
    cases h
    exact ⟨[], hsame _, .inl rfl⟩

@[simp] theorem tokenUpdate_peerId (s : Stmt) (row : TokenRow) :
    (tokenUpdate s row).peerId = row.peerId := by
  unfold tokenUpdate
  split <;> first | rfl | (split_ifs <;> rfl)

@[simp] theorem tokenUpdate_tokenHash (s : Stmt) (row : TokenRow) :
    (tokenUpdate s row).tokenHash = row.tokenHash := by
  unfold tokenUpdate
  split <;> first | rfl | (split_ifs <;> rfl)

@[simp] theorem tokenUpdate_tokenId (s : Stmt) (row : TokenRow) :
    (tokenUpdate s row).tokenId = row.tokenId := by
  unfold tokenUpdate
  split <;> first | rfl | (split_ifs <;> rfl)

@[simp] theorem tokenUpdate_scope (s : Stmt) (row : TokenRow) :
    (tokenUpdate s row).scope = row.scope := by
  unfold tokenUpdate
  split <;> first | rfl | (split_ifs <;> rfl)

/-! ## What the tables keep -/

/-- A digest belongs to one row, a token to a peer, and the ids of peers can be encoded. -/
structure Registered (db : Db) : Prop where
  hashes : (db.peerTokens.map (·.tokenHash)).Nodup
  owners : ∀ row ∈ db.peerTokens, ∃ peer ∈ db.peers, peer.peerId = row.peerId
  clean : ∀ peer ∈ db.peers, Clean peer.peerId

theorem Registered.empty : Registered {} := ⟨List.nodup_nil, nofun, nofun⟩

/-- Peers are added and changed, never removed. -/
theorem exec_peers {s : Stmt} {id : Option ℕ} (hs : Does env drawn now call s)
    (h : exec (sqlite env) db s = .ok (db', id)) :
    (∀ peer ∈ db.peers, ∃ peer' ∈ db'.peers, peer'.peerId = peer.peerId) ∧
      ∀ peer' ∈ db'.peers, Clean peer'.peerId ∨ ∃ peer ∈ db.peers, peer.peerId = peer'.peerId := by
  have hrefl : db'.peers = db.peers →
      (∀ peer ∈ db.peers, ∃ peer' ∈ db'.peers, peer'.peerId = peer.peerId) ∧
      ∀ peer' ∈ db'.peers, Clean peer'.peerId ∨ ∃ peer ∈ db.peers, peer.peerId = peer'.peerId := by
    intro heq
    rw [heq]
    exact ⟨fun peer hpeer => ⟨peer, hpeer, rfl⟩, fun peer hpeer => .inr ⟨peer, hpeer, rfl⟩⟩
  have hmap : ∀ f : PeerRow → PeerRow, (∀ peer, (f peer).peerId = peer.peerId) →
      db'.peers = db.peers.map f →
      (∀ peer ∈ db.peers, ∃ peer' ∈ db'.peers, peer'.peerId = peer.peerId) ∧
      ∀ peer' ∈ db'.peers, Clean peer'.peerId ∨ ∃ peer ∈ db.peers, peer.peerId = peer'.peerId := by
    intro f hf heq
    rw [heq]
    refine ⟨fun peer hpeer => ⟨f peer, List.mem_map_of_mem hpeer, hf peer⟩, fun peer' hpeer' => ?_⟩
    obtain ⟨peer, hpeer, rfl⟩ := List.mem_map.mp hpeer'
    exact .inr ⟨peer, hpeer, (hf peer).symm⟩
  cases hs with
  | upsertPeer hp hd =>
    cases h
    simp only [Raft.upsertPeer] at hmap ⊢
    split_ifs at hmap ⊢ with hknown
    · refine hmap _ (fun peer => ?_) rfl
      split_ifs <;> rfl
    · refine ⟨fun peer hpeer => ⟨peer, List.mem_append_left _ hpeer, rfl⟩, fun peer' hpeer' => ?_⟩
      rcases List.mem_append.mp hpeer' with hold | hnew
      · exact .inr ⟨peer', hold, rfl⟩
      · rw [List.mem_singleton.mp hnew]
        exact .inl hp
  | setPeerToken =>
    cases h
    refine hmap _ (fun peer => ?_) rfl
    split_ifs <;> rfl
  | primary | rotation | deviceToken | upsertAcl | insertTarget =>
    simp only [exec] at h
    split_ifs at h
    all_goals
      cases h
      exact hrefl rfl
  | _ =>
    cases h
    exact hrefl rfl

/-- A digest is inserted once. -/
theorem exec_hashes {s : Stmt} {id : Option ℕ} (h : exec c db s = .ok (db', id))
    (hdb : (db.peerTokens.map (·.tokenHash)).Nodup) : (db'.peerTokens.map (·.tokenHash)).Nodup := by
  obtain ⟨rows, htokens, hnew⟩ := exec_tokens h
  have hmap : (db.peerTokens.map (tokenUpdate s)).map (·.tokenHash) =
      db.peerTokens.map (·.tokenHash) := by
    rw [List.map_map]
    exact List.map_congr_left fun row _ => tokenUpdate_tokenHash s row
  rw [htokens, List.map_append, hmap]
  rcases hnew with rfl | ⟨o, p, digest, tokenId, label, scope, t, -, htaken, -, rfl⟩
  · rw [List.map_nil, List.append_nil]
    exact hdb
  · rw [List.map_singleton, ← List.concat_eq_append]
    refine hdb.concat fun hmem => ?_
    obtain ⟨row, hrow, hhash⟩ := List.mem_map.mp hmem
    simp only [tokenTaken, List.any_eq_false, Bool.or_eq_true, decide_eq_true_eq, not_or] at htaken
    exact (htaken row hrow).1 hhash

theorem exec_registered {s : Stmt} {id : Option ℕ} (hs : Does env drawn now call s)
    (h : exec (sqlite env) db s = .ok (db', id)) (hdb : Registered db) : Registered db' := by
  obtain ⟨rows, htokens, hnew⟩ := exec_tokens h
  obtain ⟨hkept, hclean⟩ := exec_peers hs h
  have hown : ∀ row ∈ db.peerTokens.map (tokenUpdate s),
      ∃ peer ∈ db'.peers, peer.peerId = row.peerId := by
    intro row' hrow'
    obtain ⟨row, hrow, rfl⟩ := List.mem_map.mp hrow'
    obtain ⟨peer, hpeer, hid⟩ := hdb.owners row hrow
    obtain ⟨peer', hpeer', hid'⟩ := hkept peer hpeer
    exact ⟨peer', hpeer', by rw [hid', hid, tokenUpdate_peerId]⟩
  refine ⟨exec_hashes h hdb.hashes, fun row hrow => ?_, fun peer' hpeer' => ?_⟩
  · rw [htokens] at hrow
    rcases List.mem_append.mp hrow with hrow | hrow
    · exact hown row hrow
    rcases hnew with rfl | ⟨o, p, digest, tokenId, label, scope, t, -, -, hpeer, rfl⟩
    · cases hrow
    · rw [List.mem_singleton.mp hrow]
      simp only [peerKey, sqlite, Bool.not_true, Bool.false_or, hasPeer, List.any_eq_true,
        decide_eq_true_eq] at hpeer
      obtain ⟨peer, hmem, hid⟩ := hpeer
      obtain ⟨peer', hpeer', hid'⟩ := hkept peer hmem
      exact ⟨peer', hpeer', hid'.trans hid⟩
  · rcases hclean peer' hpeer' with hc | ⟨peer, hpeer, hid⟩
    · exact hc
    · rw [← hid]
      exact hdb.clean peer hpeer

/-! ## Valid tokens -/

/-- A token of the peer itself that is still valid: what a rotation puts into grace. -/
def Selected (p : Str) (now : Time) (row : TokenRow) : Prop :=
  row.peerId = p ∧ ownLabel row.deviceLabel = true ∧ tokenActive row now = true

/-! ## Rows before and after -/

/-- Every row before is related to one after. -/
def Carry (ρ : TokenRow → TokenRow → Prop) (db db' : Db) : Prop :=
  ∀ row ∈ db.peerTokens, ∃ row' ∈ db'.peerTokens, ρ row row'

/-- The columns that nothing changes. -/
structure SameKey (row row' : TokenRow) : Prop where
  peerId : row'.peerId = row.peerId
  tokenHash : row'.tokenHash = row.tokenHash
  scope : row'.scope = row.scope

/-- A row whose validity is the same. -/
structure Unchanged (row row' : TokenRow) : Prop extends SameKey row row' where
  graceUntil : row'.graceUntil = row.graceUntil
  revokedAt : row'.revokedAt = row.revokedAt

variable {ρ : TokenRow → TokenRow → Prop} {a : Call × Drawn} {part : Part}

theorem SameKey.refl (row : TokenRow) : SameKey row row := ⟨rfl, rfl, rfl⟩

theorem SameKey.trans {r s t : TokenRow} (h : SameKey r s) (h' : SameKey s t) : SameKey r t :=
  ⟨h'.1.trans h.1, h'.2.trans h.2, h'.3.trans h.3⟩

theorem sameKey_update (s : Stmt) (row : TokenRow) : SameKey row (tokenUpdate s row) :=
  ⟨tokenUpdate_peerId s row, tokenUpdate_tokenHash s row, tokenUpdate_scope s row⟩

theorem Unchanged.refl (row : TokenRow) : Unchanged row row := ⟨.refl row, rfl, rfl⟩

theorem Carry.refl (hrefl : ∀ row, ρ row row) (db : Db) : Carry ρ db db :=
  fun row hrow => ⟨row, hrow, hrefl row⟩

theorem Carry.trans {db₁ db₂ db₃ : Db} (htrans : ∀ r s t, ρ r s → ρ s t → ρ r t)
    (h : Carry ρ db₁ db₂) (h' : Carry ρ db₂ db₃) : Carry ρ db₁ db₃ := by
  intro row hrow
  obtain ⟨row', hrow', hr⟩ := h row hrow
  obtain ⟨row'', hrow'', hr'⟩ := h' row' hrow'
  exact ⟨row'', hrow'', htrans _ _ _ hr hr'⟩

theorem exec_carry {s : Stmt} {id : Option ℕ} (h : exec c db s = .ok (db', id))
    (hone : ∀ row ∈ db.peerTokens, ρ row (tokenUpdate s row)) : Carry ρ db db' := by
  intro row hrow
  obtain ⟨rows, htokens, -⟩ := exec_tokens h
  refine ⟨tokenUpdate s row, ?_, hone row hrow⟩
  rw [htokens]
  exact List.mem_append_left _ (List.mem_map_of_mem hrow)

/-- A part is committed, or nothing is. -/
theorem commit_cases (env : Env) (part : Part) (now : Instant) (db : Db) :
    (∃ e, commit env part now db = (db, .error e)) ∨
      ∃ stmts db' ids, part now = .ok stmts ∧ execAll (sqlite env) db stmts = .ok (db', ids) ∧
        commit env part now db = (db', .ok ()) := by
  unfold commit
  cases hpart : part now with
  | error e => exact .inl ⟨e, rfl⟩
  | ok stmts =>
    unfold Raft.transaction
    cases hexec : execAll (sqlite env) db stmts with
    | error e => exact .inl ⟨.integrity e.constraint, by simp only [hexec]⟩
    | ok r =>
      obtain ⟨db', ids⟩ := r
      exact .inr ⟨stmts, db', ids, rfl, hexec, by simp only [hexec]⟩

/-- What every statement of a part keeps, the part keeps. -/
theorem execAll_induct {P : Db → Prop} {stmts : List Stmt} {ids : List (Option ℕ)} (hdb : P db)
    (hone : ∀ s ∈ stmts, ∀ db₁ db₂ id, P db₁ → exec c db₁ s = .ok (db₂, id) → P db₂)
    (h : execAll c db stmts = .ok (db', ids)) : P db' := by
  induction stmts generalizing db ids with
  | nil =>
    cases h
    exact hdb
  | cons s stmts ih =>
    simp only [execAll] at h
    split at h
    · cases h
    next db₁ id hexec =>
      split at h
      · cases h
      next db₂ ids' hrest =>
        cases h
        exact ih (hone s (List.mem_cons_self ..) _ _ _ hdb hexec)
          (fun s' hs' => hone s' (List.mem_cons_of_mem _ hs')) hrest

theorem commit_registered (hpart : PartOf env a part) (hdb : Registered db) (now : Instant) :
    Registered (commit env part now db).1 := by
  rcases commit_cases env part now db with ⟨e, he⟩ | ⟨stmts, db', ids, hstmts, hexec, hc⟩
  · rw [he]
    exact hdb
  · rw [hc]
    exact execAll_induct hdb (fun s hs _ _ _ hdb₁ h =>
      exec_registered (hpart now stmts hstmts s hs) h hdb₁) hexec

/-- Statements that relate every row to what becomes of it. -/
theorem execAll_carry {stmts : List Stmt} {ids : List (Option ℕ)} (hrefl : ∀ row, ρ row row)
    (htrans : ∀ r s t, ρ r s → ρ s t → ρ r t) (hone : ∀ s ∈ stmts, ∀ row, ρ row (tokenUpdate s row))
    (h : execAll c db stmts = .ok (db', ids)) : Carry ρ db db' := by
  refine execAll_induct (P := fun db₁ => Carry ρ db db₁) (.refl hrefl db) ?_ h
  intro s hs db₁ db₂ id hcarry hexec
  exact hcarry.trans htrans (exec_carry hexec fun row _ => hone s hs row)

theorem commit_carry (hrefl : ∀ row, ρ row row) (htrans : ∀ r s t, ρ r s → ρ s t → ρ r t)
    (hpart : PartOf env a part)
    (hone : ∀ s row, Does env a.2 now a.1 s → ρ row (tokenUpdate s row)) :
    Carry ρ db (commit env part now db).1 := by
  rcases commit_cases env part now db with ⟨e, he⟩ | ⟨stmts, db', ids, hstmts, hexec, hc⟩
  · rw [he]
    exact .refl hrefl db
  · rw [hc]
    exact execAll_carry hrefl htrans
      (fun s hs row => hone s row (hpart now stmts hstmts s hs)) hexec

/-! ## Start-up -/

theorem migrateToken_append (tokens : List TokenRow) (peer : PeerRow) :
    ∃ rows, migrateToken tokens peer = tokens ++ rows ∧ ∀ row ∈ rows, row.deviceLabel = none := by
  unfold migrateToken
  split
  · exact ⟨[], (List.append_nil _).symm, nofun⟩
  · split_ifs
    · exact ⟨[], (List.append_nil _).symm, nofun⟩
    · exact ⟨_, rfl, List.forall_mem_cons.mpr ⟨rfl, nofun⟩⟩

/-- The migration adds rows without a label. -/
theorem foldl_migrateToken (peers : List PeerRow) (tokens : List TokenRow) :
    ∃ rows, peers.foldl migrateToken tokens = tokens ++ rows ∧
      ∀ row ∈ rows, row.deviceLabel = none := by
  induction peers generalizing tokens with
  | nil => exact ⟨[], (List.append_nil _).symm, nofun⟩
  | cons peer peers ih =>
    obtain ⟨rows, hrows, hnone⟩ := migrateToken_append tokens peer
    obtain ⟨rows', hrows', hnone'⟩ := ih (tokens ++ rows)
    refine ⟨rows ++ rows', by rw [List.foldl_cons, hrows, hrows', List.append_assoc], ?_⟩
    exact fun row hrow => (List.mem_append.mp hrow).elim (hnone row) (hnone' row)

/-- A row whose validity is the same, and that has no new label but `legacy`. -/
structure Relabels (row row' : TokenRow) : Prop extends Unchanged row row' where
  deviceLabel : row'.deviceLabel = row.deviceLabel ∨
    row'.deviceLabel = some (row.deviceLabel.getD (lit "legacy"))

theorem Relabels.refl (row : TokenRow) : Relabels row row := ⟨.refl row, .inl rfl⟩

theorem Relabels.trans {r s t : TokenRow} (h : Relabels r s) (h' : Relabels s t) : Relabels r t := by
  refine ⟨⟨h.toSameKey.trans h'.toSameKey, h'.graceUntil.trans h.graceUntil,
    h'.revokedAt.trans h.revokedAt⟩, ?_⟩
  rcases h'.deviceLabel with hsame | hnew
  · rw [hsame]
    exact h.deviceLabel
  · right
    rw [hnew]
    rcases h.deviceLabel with hold | hold <;> rw [hold]
    rfl

theorem label_relabels (row : TokenRow) : Relabels row (label legacyTokenId row) :=
  ⟨⟨⟨rfl, rfl, rfl⟩, rfl, rfl⟩, .inr rfl⟩

/-- The labels change rows one by one, in no other column. -/
theorem foldlM_labelToken {rows tokens tokens' : List TokenRow}
    (h : rows.foldlM (labelToken legacyTokenId) tokens = some tokens') :
    ∃ f : TokenRow → TokenRow, tokens' = tokens.map f ∧ ∀ row, Relabels row (f row) := by
  induction rows generalizing tokens with
  | nil =>
    cases h
    exact ⟨fun row => row, (List.map_id _).symm, .refl⟩
  | cons row rows ih =>
    simp only [List.foldlM_cons, Option.bind_eq_bind, Option.bind_eq_some_iff] at h
    obtain ⟨tokens₁, hfirst, hrest⟩ := h
    unfold labelToken at hfirst
    split_ifs at hfirst
    cases hfirst
    obtain ⟨f, rfl, hf⟩ := ih hrest
    refine ⟨fun r => f (if r.id = row.id then label legacyTokenId r else r), by
      rw [List.map_map]; rfl, fun r => ?_⟩
    have hlabel : Relabels r (if r.id = row.id then label legacyTokenId r else r) := by
      split_ifs
      · exact label_relabels r
      · exact .refl r
    exact hlabel.trans (hf _)

theorem ensureTokenSchema_map (legacyTokenId : Str → Str → Str) (db : Db) :
    ∃ f : TokenRow → TokenRow, (∀ row, Relabels row (f row)) ∧
      ensureTokenSchema legacyTokenId db = { db with peerTokens := db.peerTokens.map f } := by
  unfold ensureTokenSchema
  split
  next tokens h =>
    obtain ⟨f, rfl, hf⟩ := foldlM_labelToken h
    exact ⟨f, hf, rfl⟩
  · exact ⟨fun row => row, .refl, by rw [show (fun row : TokenRow => row) = id from rfl, List.map_id]⟩

theorem restart_peers (legacyTokenId : Str → Str → Str) (db : Db) :
    (restart legacyTokenId db).peers = db.peers := by
  obtain ⟨f, -, hf⟩ := ensureTokenSchema_map legacyTokenId (migratePeerTokens db)
  rw [restart, hf]
  rfl

/-- Opening the store leaves the validity of every token. -/
theorem restart_carry (legacyTokenId : Str → Str → Str) (db : Db) :
    Carry Unchanged db (restart legacyTokenId db) := by
  intro row hrow
  obtain ⟨f, hf, heq⟩ := ensureTokenSchema_map legacyTokenId (migratePeerTokens db)
  obtain ⟨rows, hrows, -⟩ := foldl_migrateToken db.peers db.peerTokens
  refine ⟨f row, ?_, (hf row).toUnchanged⟩
  rw [restart, heq]
  refine List.mem_map_of_mem ?_
  show row ∈ db.peers.foldl migrateToken db.peerTokens
  rw [hrows]
  exact List.mem_append_left _ hrow

theorem migrateToken_registered {peers : List PeerRow} {tokens : List TokenRow} {peer : PeerRow}
    (hpeer : peer ∈ peers) (hhashes : (tokens.map (·.tokenHash)).Nodup)
    (howners : ∀ row ∈ tokens, ∃ p ∈ peers, p.peerId = row.peerId) :
    ((migrateToken tokens peer).map (·.tokenHash)).Nodup ∧
      ∀ row ∈ migrateToken tokens peer, ∃ p ∈ peers, p.peerId = row.peerId := by
  unfold migrateToken
  split
  · exact ⟨hhashes, howners⟩
  next digest _ =>
    split_ifs with hany
    · exact ⟨hhashes, howners⟩
    · refine ⟨?_, fun row hrow => ?_⟩
      · rw [List.map_append, List.map_singleton, ← List.concat_eq_append]
        refine hhashes.concat fun hmem => hany ?_
        obtain ⟨row, hrow, hhash⟩ := List.mem_map.mp hmem
        exact List.any_eq_true.mpr ⟨row, hrow, decide_eq_true hhash⟩
      · rcases List.mem_append.mp hrow with hrow | hrow
        · exact howners row hrow
        · rw [List.mem_singleton.mp hrow]
          exact ⟨peer, hpeer, rfl⟩

theorem Registered.migrate (h : Registered db) : Registered (migratePeerTokens db) := by
  have hfold : ∀ (peers : List PeerRow) (tokens : List TokenRow), (∀ peer ∈ peers, peer ∈ db.peers) →
      (tokens.map (·.tokenHash)).Nodup →
      (∀ row ∈ tokens, ∃ p ∈ db.peers, p.peerId = row.peerId) →
      ((peers.foldl migrateToken tokens).map (·.tokenHash)).Nodup ∧
        ∀ row ∈ peers.foldl migrateToken tokens, ∃ p ∈ db.peers, p.peerId = row.peerId := by
    intro peers
    induction peers with
    | nil => exact fun tokens _ hhashes howners => ⟨hhashes, howners⟩
    | cons peer peers ih =>
      intro tokens hsub hhashes howners
      obtain ⟨hhashes', howners'⟩ :=
        migrateToken_registered (hsub peer (List.mem_cons_self ..)) hhashes howners
      exact ih _ (fun p hp => hsub p (List.mem_cons_of_mem _ hp)) hhashes' howners'
  obtain ⟨hhashes, howners⟩ := hfold db.peers db.peerTokens (fun _ hp => hp) h.hashes h.owners
  exact ⟨hhashes, howners, h.clean⟩

theorem Registered.restart (h : Registered db) (legacyTokenId : Str → Str → Str) :
    Registered (restart legacyTokenId db) := by
  obtain ⟨f, hf, heq⟩ := ensureTokenSchema_map legacyTokenId (migratePeerTokens db)
  have hm := h.migrate
  rw [Admin.restart, heq]
  refine ⟨?_, fun row' hrow' => ?_, hm.clean⟩
  · rw [List.map_map]
    have hhash : ((fun row : TokenRow => row.tokenHash) ∘ f) = fun row => row.tokenHash :=
      funext fun row => (hf row).tokenHash
    rw [hhash]
    exact hm.hashes
  · obtain ⟨row, hrow, rfl⟩ := List.mem_map.mp hrow'
    rw [(hf row).peerId]
    exact hm.owners row hrow

/-! ## The scope of a token -/

/-- `str(row["scope"] or "full")` -/
def scopeText (row : TokenRow) : Str := if row.scope = [] then lit "full" else row.scope

theorem scopeOf_cons (t : Time) (token : Val) (row : TokenRow) (rows : List TokenRow) :
    scopeOf env t token (row :: rows) =
      if TokenRow.live row t then
        match tokenDigest env token with
        | .error e => .error e
        | .ok digest =>
          if row.tokenHash = digest then .ok (some (scopeText row)) else scopeOf env t token rows
      else scopeOf env t token rows := rfl

theorem scopeOf_row {rows : List TokenRow} {row : TokenRow} {token : Val} {t : Time}
    (hd : tokenDigest env token = .ok row.tokenHash) (hhashes : (rows.map (·.tokenHash)).Nodup)
    (hrow : row ∈ rows) :
    scopeOf env t token rows = .ok (if TokenRow.live row t then some (scopeText row) else none) := by
  have hmiss : ∀ rows : List TokenRow, (∀ r ∈ rows, r.tokenHash ≠ row.tokenHash) →
      scopeOf env t token rows = .ok none := by
    intro rows hrows
    induction rows with
    | nil => rfl
    | cons r rows ih =>
      rw [List.forall_mem_cons] at hrows
      rw [scopeOf_cons]
      simp only [hd, hrows.1, if_false, ih hrows.2, ite_self]
  induction rows with
  | nil => cases hrow
  | cons r rows ih =>
    rw [List.map_cons, List.nodup_cons] at hhashes
    rcases List.mem_cons.mp hrow with rfl | hrow
    · -- the row itself decides; no other has its digest
      have hrest : scopeOf env t token rows = .ok none :=
        hmiss rows fun r hr hhash => hhashes.1 (List.mem_map.mpr ⟨r, hr, hhash⟩)
      rw [scopeOf_cons]
      simp only [hd, if_true, hrest]
      split_ifs <;> rfl
    · have hne : r.tokenHash ≠ row.tokenHash := fun hhash =>
        hhashes.1 (List.mem_map.mpr ⟨row, hrow, hhash.symm⟩)
      rw [scopeOf_cons]
      simp only [hd, hne, if_false, ih hhashes.2 hrow, ite_self]

theorem Registered.owner_clean (h : Registered db) {row : TokenRow} (hrow : row ∈ db.peerTokens) :
    Clean row.peerId := by
  obtain ⟨peer, hpeer, hid⟩ := h.owners row hrow
  rw [← hid]
  exact h.clean peer hpeer

/-- The scope of a token of a peer is that of its row, while the row is live. -/
theorem tokenScope_row (h : Registered db) {row : TokenRow} (hrow : row ∈ db.peerTokens)
    {token : Str} (htoken : token ≠ []) (hd : hashOf env token = .ok row.tokenHash) (t : Time) :
    tokenScope env db t row.peerId (.str token) =
      .ok (if TokenRow.live row t then some (scopeText row) else none) := by
  have htruthy : (Val.str token).truthy = true := by simp [Val.truthy, htoken]
  have hhashes : ((db.peerTokens.filter (·.peerId = row.peerId)).map (·.tokenHash)).Nodup :=
    h.hashes.sublist (List.filter_sublist.map _)
  have hparam : strParam row.peerId = .ok () := guardOr_pos (h.owner_clean hrow) _
  rw [tokenScope, if_neg (by simp [htruthy]), hparam, ok_bind]
  exact scopeOf_row hd hhashes (List.mem_filter.mpr ⟨hrow, decide_eq_true rfl⟩)

/-- A scope is found in a live row with the digest. -/
theorem scopeOf_some {rows : List TokenRow} {scope : Str} {token : Val} {t : Time}
    (h : scopeOf env t token rows = .ok (some scope)) : ∃ row ∈ rows,
      tokenDigest env token = .ok row.tokenHash ∧ TokenRow.live row t = true ∧
        scope = scopeText row := by
  induction rows with
  | nil => cases h
  | cons r rows ih =>
    rw [scopeOf_cons] at h
    split_ifs at h with hlive
    · split at h
      · cases h
      next digest hd =>
        split_ifs at h with hhash
        · cases h
          exact ⟨r, List.mem_cons_self .., hhash ▸ hd, hlive, rfl⟩
        · obtain ⟨row, hrow, hrest⟩ := ih h
          exact ⟨row, List.mem_cons_of_mem _ hrow, hrest⟩
    · obtain ⟨row, hrow, hrest⟩ := ih h
      exact ⟨row, List.mem_cons_of_mem _ hrow, hrest⟩

/-- A token that has a scope has a live row. -/
theorem tokenScope_some {p scope : Str} {token : Val} {t : Time}
    (h : tokenScope env db t p token = .ok (some scope)) : ∃ row ∈ db.peerTokens, row.peerId = p ∧
      tokenDigest env token = .ok row.tokenHash ∧ TokenRow.live row t = true ∧
        scope = scopeText row := by
  unfold tokenScope at h
  split_ifs at h
  · cases h
  rw [bind_eq_ok] at h
  obtain ⟨_, -, h⟩ := h
  obtain ⟨row, hrow, hrest⟩ := scopeOf_some h
  obtain ⟨hmem, hp⟩ := List.mem_filter.mp hrow
  exact ⟨row, hmem, of_decide_eq_true hp, hrest⟩

end Admin
end ATalk
