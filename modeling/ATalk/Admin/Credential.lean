import ATalk.Admin.Alone
import ATalk.Raft.Replay

/-!
# Provisioning a peer

`add_peer` and `rotate_peer_token` return the token of a peer. A rotation inserts its row or
raises; `add_peer` inserts with OR IGNORE, so a token that is in the table already stays what it is:
revoked, in grace, another peer's, a device's.

* `Usable` : the token is new, or a valid token of the peer for good;
* `Touches`, `execAll_spares` : a row that no statement changes;
* `Holds`, `holds_iff` : the credential after `add_peer`;
* `SqliteWorks`, `RqliteWorks`, `credential_works_iff` : when the returned token works on either
  backend, now and until an operation on the peer or the token.
-/

namespace ATalk
namespace Admin

open Text Python Sqlite ATalk.Core Checks Transition Callers Calendar
open Raft (Stmt exec execAll hasPeer ownLabel isOther tokenActive tokenTaken)

variable {env : Env} {c : Raft.Cluster} {db db' : Db} {p token digest tokenId : Str} {row : TokenRow}

/-! ## Rows that are left alone -/

/-- The statement changes the row. -/
def Touches : Stmt → TokenRow → Prop
  | .revokeOthers _ p digest, row => isOther p digest row = true
  | .graceTokens _ p now, row => Selected p now row
  | .revokeToken _ tokenId, row => row.tokenId = some tokenId
  | _, _ => False

theorem tokenUpdate_of_not_touches {s : Stmt} (h : ¬ Touches s row) : tokenUpdate s row = row := by
  cases s with
  | revokeOthers => exact if_neg h
  | graceTokens => exact if_neg h
  | revokeToken => exact if_neg h
  | _ => rfl

/-- A row that a statement does not touch stays in the table. -/
theorem exec_spares {s : Stmt} {id : Option ℕ} (hrow : row ∈ db.peerTokens) (hs : ¬ Touches s row)
    (h : exec c db s = .ok (db', id)) : row ∈ db'.peerTokens := by
  obtain ⟨rows, htokens, -⟩ := exec_tokens h
  rw [htokens, ← tokenUpdate_of_not_touches hs]
  exact List.mem_append_left _ (List.mem_map_of_mem hrow)

theorem execAll_spares {stmts : List Stmt} {ids : List (Option ℕ)} (hrow : row ∈ db.peerTokens)
    (hs : ∀ s ∈ stmts, ¬ Touches s row) (h : execAll c db stmts = .ok (db', ids)) :
    row ∈ db'.peerTokens :=
  execAll_induct (P := fun db₁ => row ∈ db₁.peerTokens) hrow
    (fun s hmem _ _ _ hrow₁ hexec => exec_spares hrow₁ (hs s hmem) hexec) h

/-! ## Valid for good -/

/-- The peer has a valid token of its own with the digest, and always will. -/
def Holds (db : Db) (p digest : Str) : Prop :=
  ∃ row ∈ db.peerTokens, row.tokenHash = digest ∧ scopeText row = lit "full" ∧
    ∀ t : Instant, Selected p (iso t) row

/-- The token may be given to the peer: it is new, or the peer has it. -/
def Usable (db : Db) (p token digest tokenId : Str) : Prop :=
  token ≠ [] ∧ (tokenTaken db digest tokenId = false ∨ Holds db p digest)

theorem Selected.live {t : Time} (h : Selected p t row) : TokenRow.live row t = true := by
  obtain ⟨-, -, hactive⟩ := h
  unfold tokenActive at hactive
  unfold TokenRow.live
  rw [Bool.and_eq_true] at hactive ⊢
  refine ⟨by simp [of_decide_eq_true hactive.1], ?_⟩
  cases hg : row.graceUntil with
  | none => rfl
  | some g =>
    rw [hg] at hactive
    simp [of_decide_eq_true hactive.2]

/-- A row that is valid now and live at all later times is valid at all times. -/
theorem Selected.always {now : Instant} (h : Selected p (iso now) row)
    (hlive : ∀ t, now ≤ t → TokenRow.live row (iso t) = true) (t : Instant) :
    Selected p (iso t) row := by
  obtain ⟨hp, hlabel, hactive⟩ := h
  refine ⟨hp, hlabel, ?_⟩
  unfold tokenActive at hactive ⊢
  rw [Bool.and_eq_true] at hactive ⊢
  refine ⟨hactive.1, ?_⟩
  cases hg : row.graceUntil with
  | none => rfl
  | some g =>
    rw [hg] at hactive
    have hnow : iso now ≤ g := of_decide_eq_true hactive.2
    have hlater := hlive (max now t) (le_max_left _ _)
    unfold TokenRow.live at hlater
    rw [hg, Bool.and_eq_true, Bool.or_eq_true] at hlater
    rcases hlater.2 with hnil | hle
    · rw [of_decide_eq_true hnil] at hnow
      cases hiso : iso now with
      | nil => exact absurd hiso (iso_ne_nil now)
      | cons x rest =>
        rw [hiso] at hnow
        exact absurd (List.nil_lt_cons x rest) (not_lt.mpr hnow)
    · exact decide_eq_true ((iso_le_iff.mpr (le_max_right now t)).trans (of_decide_eq_true hle))

/-- A digest has one row. -/
theorem row_unique (hashes : (db.peerTokens.map (·.tokenHash)).Nodup) {r s : TokenRow}
    (hr : r ∈ db.peerTokens) (hs : s ∈ db.peerTokens) (h : r.tokenHash = s.tokenHash) : r = s :=
  List.inj_on_of_nodup_map hashes hr hs h

/-- A new row is a credential. -/
theorem selected_tokenRow {label : Str} {t : Time} (hlabel : ownLabel (some label) = true)
    (u : Time) : Selected p u (Raft.tokenRow db p digest tokenId label (lit "full") t) :=
  ⟨rfl, hlabel, rfl⟩

/-! ## After `add_peer` -/

/-- A token is inserted or left out, then the other tokens of the peer are revoked. -/
def Added (c : Raft.Cluster) (db db' : Db) (p digest tokenId : Str) : Prop :=
  ∃ db₁ db₂ t t' id id', db₁.peerTokens = db.peerTokens ∧
    exec c db₁ (.insertToken true p digest tokenId (lit "primary") (lit "full") t) =
      .ok (db₂, id) ∧
    exec c db₂ (.revokeOthers t' p digest) = .ok (db', id')

theorem tokenTaken_congr {db₁ : Db} (h : db₁.peerTokens = db.peerTokens) :
    tokenTaken db₁ digest tokenId = tokenTaken db digest tokenId := by
  rw [tokenTaken, h, tokenTaken]

theorem Added.hashes (h : Added c db db' p digest tokenId)
    (hdb : (db.peerTokens.map (·.tokenHash)).Nodup) : (db'.peerTokens.map (·.tokenHash)).Nodup := by
  obtain ⟨db₁, db₂, t, t', id, id', hsame, hinsert, hrevoke⟩ := h
  exact exec_hashes hrevoke (exec_hashes hinsert (hsame ▸ hdb))

/-- The peer has a credential afterwards when the token was new or the peer had it. -/
theorem Added.holds (h : Added c db db' p digest tokenId)
    (huse : tokenTaken db digest tokenId = false ∨ Holds db p digest) : Holds db' p digest := by
  obtain ⟨db₁, db₂, t, t', id, id', hsame, hinsert, hrevoke⟩ := h
  have hkept : ∀ row ∈ db₂.peerTokens, row.tokenHash = digest → row ∈ db'.peerTokens := by
    intro row hrow hhash
    refine exec_spares hrow ?_ hrevoke
    simp [Touches, isOther, hhash]
  rcases huse with hfree | ⟨row, hrow, hhash, hscope, hsel⟩
  · rcases exec_insertToken hinsert with ⟨-, htaken, -⟩ | ⟨-, -, rfl⟩
    · rw [tokenTaken_congr hsame, hfree] at htaken
      cases htaken
    · refine ⟨_, hkept _ (List.mem_append_right _ (List.mem_singleton_self _)) rfl, rfl, rfl, ?_⟩
      exact fun _ => selected_tokenRow rfl _
  · have hstill : row ∈ db₂.peerTokens :=
      exec_spares (s := .insertToken true p digest tokenId _ _ t) (hsame ▸ hrow) not_false hinsert
    exact ⟨row, hkept row hstill hhash, hhash, hscope, hsel⟩

/-- And only then. -/
theorem Added.usable (h : Added c db db' p digest tokenId) (hholds : Holds db' p digest) :
    tokenTaken db digest tokenId = false ∨ Holds db p digest := by
  obtain ⟨db₁, db₂, t, t', id, id', hsame, hinsert, hrevoke⟩ := h
  rcases exec_insertToken hinsert with ⟨-, -, rfl⟩ | ⟨hfree, -, -⟩
  · right
    obtain ⟨row, hrow, hhash, hscope, hsel⟩ := hholds
    cases hrevoke
    obtain ⟨old, hold, rfl⟩ := List.mem_map.mp hrow
    have hdigest : old.tokenHash = digest := by
      split_ifs at hhash <;> exact hhash
    have hself : isOther p digest old = false := by simp [isOther, hdigest]
    rw [if_neg (by rw [hself]; exact Bool.false_ne_true)] at hscope hsel
    exact ⟨old, hsame ▸ hold, hdigest, hscope, hsel⟩
  · left
    rw [← hfree]
    exact (tokenTaken_congr hsame).symm

/-- A valid token of the peer itself, afterwards, has the digest. -/
theorem Added.selected (h : Added c db db' p digest tokenId) {t : Time} (hrow : row ∈ db'.peerTokens)
    (hsel : Selected p t row) : row.tokenHash = digest := by
  obtain ⟨db₁, db₂, _, t', id, id', -, -, hrevoke⟩ := h
  cases hrevoke
  obtain ⟨old, hold, rfl⟩ := List.mem_map.mp hrow
  obtain ⟨hp, hlabel, hactive⟩ := hsel
  unfold tokenActive at hactive
  rw [Bool.and_eq_true] at hactive
  have hrevoked := of_decide_eq_true hactive.1
  split_ifs at hp hlabel hrevoked ⊢ with hother
  by_contra hne
  exact hother (by simp [isOther, hp, hne, hrevoked, hlabel])

/-- A token that has the full scope from now on, next to a valid token of the peer itself. -/
theorem Added.holds_of_scope (h : Added c db db' p digest tokenId) {now : Instant}
    (hashes : (db'.peerTokens.map (·.tokenHash)).Nodup)
    (hsel : ∃ row ∈ db'.peerTokens, Selected p (iso now) row)
    (hscope : ∀ t, now ≤ t → ∃ row ∈ db'.peerTokens, row.tokenHash = digest ∧
      TokenRow.live row (iso t) = true ∧ scopeText row = lit "full") : Holds db' p digest := by
  obtain ⟨row, hrow, hvalid⟩ := hsel
  have hhash : row.tokenHash = digest := h.selected hrow hvalid
  have hsame : ∀ t, now ≤ t → TokenRow.live row (iso t) = true ∧ scopeText row = lit "full" := by
    intro t ht
    obtain ⟨other, hother, hhash', hlive, hfull⟩ := hscope t ht
    rw [row_unique hashes hrow hother (hhash.trans hhash'.symm)]
    exact ⟨hlive, hfull⟩
  exact ⟨row, hrow, hhash, (hsame now le_rfl).2, hvalid.always fun t ht => (hsame t ht).1⟩

/-! ## The scope of a credential -/

theorem Holds.scope_full (h : Holds db p digest) (hdb : Registered db) (htoken : token ≠ [])
    (hd : hashOf env token = .ok digest) (t : Instant) :
    tokenScope env db (iso t) p (.str token) = .ok (some (lit "full")) := by
  obtain ⟨row, hrow, rfl, hscope, hsel⟩ := h
  rw [← (hsel t).1, tokenScope_row hdb hrow htoken hd, if_pos (hsel t).live, hscope]

theorem Holds.raft_scope_full (h : Holds db p digest)
    (hashes : (db.peerTokens.map (·.tokenHash)).Nodup) (htoken : token ≠ [])
    (hd : hashOf c.env token = .ok digest) (t : Instant) :
    Raft.tokenScope c db (iso t) p (.str token) = .ok (some (lit "full")) := by
  obtain ⟨row, hrow, rfl, hscope, hsel⟩ := h
  have hfilter : ((db.peerTokens.filter (·.peerId = p)).map (·.tokenHash)).Nodup :=
    hashes.sublist (List.filter_sublist.map _)
  rw [Raft.tokenScope, if_neg (by simp [htoken]), scopeOf_row hd hfilter
    (List.mem_filter.mpr ⟨hrow, decide_eq_true (hsel t).1⟩), if_pos (hsel t).live, hscope]

/-! ## Operations on a peer or a token -/

/-- The peer that a call provisions. -/
def Call.provisioned : Call → Option Str
  | .addPeer p .. => some p
  | .rotatePeerToken p .. => some p
  | _ => none

/-- The call is on the peer or on the token. -/
def Concerns (env : Env) (p digest : Str) (db : Db) (a : Call × Drawn) : Prop :=
  match a.1 with
  | .addPeer q token .. => q = p ∨ hashOf env (givenOr token a.2) = .ok digest
  | .rotatePeerToken q token _ => q = p ∨ hashOf env (truthyOr token a.2) = .ok digest
  | .addDeviceToken q _ token .. => q = p ∨ hashOf env (truthyOr token a.2) = .ok digest
  | .revokeDeviceToken tokenId _ => ∃ row ∈ db.peerTokens, row.tokenId = some tokenId ∧
      (row.peerId = p ∨ row.tokenHash = digest)
  | .setTargetAcl q _ => q = p
  | .clearTargetAcl q => q = p

/-- The request is on the peer or on the token. -/
def OpConcerns (p digest : Str) (db : Db) : Raft.Op → Prop
  | .addPeer q d .. => q = p ∨ d = digest
  | .rotatePeerToken q d .. => q = p ∨ d = digest
  | .addDeviceToken q d .. => q = p ∨ d = digest
  | .revokeDeviceToken _ tokenId .. => ∃ row ∈ db.peerTokens, row.tokenId = some tokenId ∧
      (row.peerId = p ∨ row.tokenHash = digest)
  | .setTargetAcl q .. => q = p
  | .clearTargetAcl q => q = p
  | _ => False

theorem Does.not_touches {a : Call × Drawn} {now : Instant} {s : Stmt}
    (hs : Does env a.2 now a.1 s) (hrow : row ∈ db.peerTokens) (hp : row.peerId = p)
    (hother : ¬ Concerns env p digest db a) : ¬ Touches s row := by
  obtain ⟨call, drawn⟩ := a
  intro htouch
  cases hs with
  | revokeOthers =>
    simp only [Touches, isOther, Bool.and_eq_true, decide_eq_true_eq] at htouch
    exact hother (.inl (htouch.1.1.1.symm.trans hp))
  | graceTokens => exact hother (.inl (htouch.1.symm.trans hp))
  | revokeToken => exact hother ⟨row, hrow, htouch, .inl hp⟩
  | _ => exact htouch

theorem op_not_touches {op : Raft.Op} (hrow : row ∈ db.peerTokens) (hp : row.peerId = p)
    (hother : ¬ OpConcerns p digest db op) : ∀ s ∈ op.statements, ¬ Touches s row := by
  intro s hs htouch
  cases op with
  | addPeer =>
    simp only [Raft.Op.statements, Raft.addPeer, List.mem_cons, List.not_mem_nil, or_false] at hs
    rcases hs with rfl | rfl | rfl
    · exact htouch
    · exact htouch
    · simp only [Touches, isOther, Bool.and_eq_true, decide_eq_true_eq] at htouch
      exact hother (.inl (htouch.1.1.1.symm.trans hp))
  | rotatePeerToken =>
    simp only [Raft.Op.statements, Raft.rotatePeerToken, List.mem_cons, List.not_mem_nil,
      or_false] at hs
    rcases hs with rfl | rfl | rfl
    · exact hother (.inl (htouch.1.symm.trans hp))
    · exact htouch
    · exact htouch
  | revokeDeviceToken old tokenId =>
    simp only [Raft.Op.statements, Raft.revokeDeviceToken, List.mem_append,
      List.mem_singleton] at hs
    rcases hs with hs | rfl
    · split_ifs at hs
      · cases hs
      · rw [List.mem_singleton.mp hs] at htouch
        exact hother ⟨row, hrow, htouch, .inl hp⟩
    · exact htouch
  | setTargetAcl =>
    simp only [Raft.Op.statements, Raft.setTargetAcl, List.mem_cons, List.mem_map] at hs
    rcases hs with rfl | rfl | ⟨target, -, rfl⟩ <;> exact htouch
  | message v seq =>
    cases seq <;>
    · simp only [Raft.Op.statements, Raft.messageStatements, Raft.insertStatements, Option.map_none,
        Option.map_some, List.mem_cons, List.not_mem_nil, or_false] at hs
      rcases hs with rfl | rfl <;> exact htouch
  | command v seq =>
    cases seq <;>
    · simp only [Raft.Op.statements, Raft.commandStatements, Raft.insertStatements, Option.map_none,
        Option.map_some, List.cons_append, List.nil_append, List.mem_cons, List.not_mem_nil,
        or_false] at hs
      rcases hs with rfl | rfl | rfl <;> exact htouch
  | _ =>
    simp only [Raft.Op.statements, Raft.addGrant, Raft.revokeGrant, Raft.addDeviceToken,
      Raft.clearTargetAcl, Raft.ack, Raft.audit, List.mem_cons, List.not_mem_nil, or_false] at hs
    rcases hs with rfl | rfl <;> exact htouch

/-! ## The SQLite backend -/

/-- A relation that says nothing of other rows than the peer's with the digest. -/
def Stays (p digest : Str) (row row' : TokenRow) : Prop :=
  row.peerId = p → row.tokenHash = digest → Unchanged row row'

theorem Unchanged.trans {r s t : TokenRow} (h : Unchanged r s) (h' : Unchanged s t) :
    Unchanged r t :=
  ⟨h.toSameKey.trans h'.toSameKey, h'.graceUntil.trans h.graceUntil,
    h'.revokedAt.trans h.revokedAt⟩

theorem stays_keeps (env : Env) (legacyTokenId : Str → Str → Str) (p digest : Str) :
    (adminCalls env).Keeps Fresh (Other legacyTokenId)
      (fun a _ host _ => ¬ Concerns env p digest host.db a) (fun host => Registered host.db)
      (fun _ a p => p.Own env a) (Moves fun _ _ => Stays p digest) := by
  refine admin_keeps (fun _ _ => Stays p digest) ?_ ?_ ?_
  · intro _ _ _ r s t h h' hp hd
    have hrs := h hp hd
    exact hrs.trans (h' (hrs.peerId.trans hp) (hrs.tokenHash.trans hd))
  · exact fun _ _ _ _ _ h _ _ => h
  · intro a host part parts reply hdb hmine hother row hrow
    by_cases hcase : row.peerId = p ∧ row.tokenHash = digest
    · refine ⟨row, ?_, fun _ _ => .refl row⟩
      rcases commit_cases env part host.clock host.db with ⟨e, he⟩ | ⟨stmts, db', ids, hstmts, hexec, hc⟩
      · rw [he]
        exact hrow
      · rw [hc]
        exact execAll_spares hrow
          (fun s hs => (hmine _ stmts hstmts s hs).not_touches hrow hcase.1 hother) hexec
    · -- another row is there too, and nothing is said of it
      obtain ⟨row', hrow', -⟩ := commit_carry (ρ := fun _ _ => True) (fun _ => trivial)
        (fun _ _ _ _ _ => trivial) hmine (fun _ _ _ => trivial) row hrow
      exact ⟨row', hrow', fun hp hd => absurd ⟨hp, hd⟩ hcase⟩

/-- What can be bound as the parameters of `add_peer`. -/
def Binds (env : Env) (p token : Str) (role platform endpoint : Option Str) (deliveryClass : Str)
    (ackTimeoutSec : ℤ) (digest : Str) : Prop :=
  hashOf env token = .ok digest ∧ Clean p ∧ optParam role = .ok () ∧ optParam platform = .ok () ∧
    optParam endpoint = .ok () ∧ Clean deliveryClass ∧
      (minInt ≤ ackTimeoutSec ∧ ackTimeoutSec ≤ maxInt)

/-- The call, whenever it returns a token, leaves the peer a valid token of its own, and the token
has the full scope until an operation on the peer or the token. -/
def SqliteWorks (env : Env) (legacyTokenId : Str → Str → Str)
    (w : World Host (Call × Drawn) Phase) (a : Call × Drawn) (clock : ℕ → Instant) : Prop :=
  ∀ n p token digest, a.1.provisioned = some p →
    (alone env a clock w.store.db n).2 = .returned (.ok (.token token)) →
    hashOf env token = .ok digest →
      (∃ row ∈ (alone env a clock w.store.db n).1.peerTokens, Selected p (iso (clock n)) row) ∧
      ∀ w', Run (callers (adminCalls env) Fresh (Other legacyTokenId))
          (onAdvance fun a _ host _ => ¬ Concerns env p digest host.db a)
          ⟨⟨(alone env a clock w.store.db n).1, clock n⟩,
            w.calls ++ [(a, (alone env a clock w.store.db n).2)]⟩ w' →
        tokenScope env w'.store.db (iso w'.store.clock) p (.str token) = .ok (some (lit "full"))

/-- The token that a call provisions a peer with on SQLite may be given to the peer. -/
def SqliteSuits (env : Env) (db : Db) (a : Call × Drawn) : Prop :=
  match a.1 with
  | .addPeer p token role platform endpoint dc ack =>
    ∀ digest, Binds env p (givenOr token a.2) role platform endpoint dc ack digest →
      Usable db p (givenOr token a.2) digest a.2.tokenId
  | _ => True

theorem truthyOr_ne (given : Option Str) (drawn : Drawn) : truthyOr given drawn ≠ [] := by
  unfold truthyOr
  split
  · exact drawn.token_ne
  next t hne => exact fun hnil => hne hnil
  · exact drawn.token_ne

variable {clock : ℕ → Instant} {role platform endpoint : Option Str} {dc : Str} {ack : ℤ}
  {drawn : Drawn}

/-- The peer is there when its token is inserted. -/
theorem insertToken_upsertPeer (db : Db) (t u : Time) : ∃ db₂ id,
    exec c (Raft.upsertPeer db p digest role platform endpoint dc ack t)
      (.insertToken true p digest tokenId (lit "primary") (lit "full") u) = .ok (db₂, id) := by
  have hkey : Raft.peerKey c (Raft.upsertPeer db p digest role platform endpoint dc ack t) p =
      true := by
    rw [Raft.peerKey, Raft.hasPeer_upsertPeer, Bool.or_true]
  simp only [exec, hkey, if_true, Bool.true_eq_false, if_false]
  split_ifs <;> exact ⟨_, _, rfl⟩

/-- The first part is sent when its parameters can be bound. -/
theorem addPeer_binds {part : Part} {now : Instant} {stmts : List Stmt}
    (hpart : part ∈ (addPeer env p token role platform endpoint dc ack drawn).head?)
    (h : part now = .ok stmts) : ∃ digest, Binds env p token role platform endpoint dc ack digest ∧
      stmts = [.upsertPeer p digest role platform endpoint dc ack (iso now)] := by
  cases hpart
  simp only [bind_eq_ok] at h
  obtain ⟨digest, hd, _, hp, _, hrole, _, hplatform, _, hendpoint, _, hdc, _, hack, h⟩ := h
  cases h
  exact ⟨digest, ⟨hd, guardOr_eq_ok.mp hp, hrole, hplatform, hendpoint, guardOr_eq_ok.mp hdc,
    guardOr_eq_ok.mp hack⟩, rfl⟩

/-- It commits nothing when they cannot. -/
theorem addPeer_unbound (h : ∀ digest, ¬ Binds env p token role platform endpoint dc ack digest)
    (drawn : Drawn) (clock : ℕ → Instant) (k : ℕ) (db : Db) : ∃ e,
      passes env clock (addPeer env p token role platform endpoint dc ack drawn) k db = [] ∧
      commits env clock (addPeer env p token role platform endpoint dc ack drawn) k db =
        (db, .error e) := by
  have hfail : ∀ part ∈ (addPeer env p token role platform endpoint dc ack drawn).head?,
      ∃ e, commit env part (clock k) db = (db, .error e) := by
    intro part hpart
    rcases commit_cases env part (clock k) db with he | ⟨stmts, _, _, hstmts, -, -⟩
    · exact he
    · obtain ⟨digest, hbinds, -⟩ := addPeer_binds hpart hstmts
      exact absurd hbinds (h digest)
  obtain ⟨e, he⟩ := hfail _ rfl
  exact ⟨e, passes_error he⟩

/-- It commits all three parts when its parameters can be bound. -/
theorem addPeer_passes (h : Binds env p token role platform endpoint dc ack digest)
    (drawn : Drawn) (clock : ℕ → Instant) (k : ℕ) (db : Db) : ∃ db₂ db₃ id,
      exec (sqlite env) (Raft.upsertPeer db p digest role platform endpoint dc ack (iso (clock k)))
        (.insertToken true p digest drawn.tokenId (lit "primary") (lit "full")
          (iso (clock (k + 1)))) = .ok (db₂, id) ∧
      exec (sqlite env) db₂ (.revokeOthers (iso (clock (k + 1 + 1))) p digest) = .ok (db₃, none) ∧
      passes env clock (addPeer env p token role platform endpoint dc ack drawn) k db =
        [Raft.upsertPeer db p digest role platform endpoint dc ack (iso (clock k)), db₂, db₃] ∧
      commits env clock (addPeer env p token role platform endpoint dc ack drawn) k db =
        (db₃, .ok ()) := by
  obtain ⟨hd, hp, hrole, hplatform, hendpoint, hdc, hack⟩ := h
  have hpeer : strParam p = .ok () := guardOr_pos hp _
  have hclass : strParam dc = .ok () := guardOr_pos hdc _
  have htimeout : guardOr (minInt ≤ ack ∧ ack ≤ maxInt) Exn.overflow = .ok () := guardOr_pos hack _
  let db₁ := Raft.upsertPeer db p digest role platform endpoint dc ack (iso (clock k))
  obtain ⟨db₂, id, hinsert⟩ : ∃ db₂ id, exec (sqlite env) db₁ (.insertToken true p digest
      drawn.tokenId (lit "primary") (lit "full") (iso (clock (k + 1)))) = .ok (db₂, id) :=
    insertToken_upsertPeer db _ _
  obtain ⟨db₃, hrevoke⟩ : ∃ db₃, exec (sqlite env) db₂
    (.revokeOthers (iso (clock (k + 1 + 1))) p digest) = .ok (db₃, none) := ⟨_, rfl⟩
  refine ⟨db₂, db₃, id, hinsert, hrevoke, ?_⟩
  unfold addPeer
  have hfirst : ∀ part : Part, part (clock k) = .ok [.upsertPeer p digest role platform endpoint dc
      ack (iso (clock k))] → commit env part (clock k) db = (db₁, .ok ()) :=
    fun _ hpart => (commit_single hpart).mpr ⟨none, rfl⟩
  have hsecond : ∀ part : Part, part (clock (k + 1)) = .ok [.insertToken true p digest drawn.tokenId
      (lit "primary") (lit "full") (iso (clock (k + 1)))] →
        commit env part (clock (k + 1)) db₁ = (db₂, .ok ()) :=
    fun _ hpart => (commit_single hpart).mpr ⟨id, hinsert⟩
  have hthird : ∀ part : Part, part (clock (k + 1 + 1)) =
      .ok [.revokeOthers (iso (clock (k + 1 + 1))) p digest] →
        commit env part (clock (k + 1 + 1)) db₂ = (db₃, .ok ()) :=
    fun _ hpart => (commit_single hpart).mpr ⟨none, hrevoke⟩
  rw [(passes_ok (hfirst _ ?_)).1, (passes_ok (hfirst _ ?_)).2, (passes_ok (hsecond _ ?_)).1,
    (passes_ok (hsecond _ ?_)).2, (passes_ok (hthird _ ?_)).1, (passes_ok (hthird _ ?_)).2]
  · exact ⟨rfl, rfl⟩
  all_goals
    simp only [hd, hpeer, hrole, hplatform, hendpoint, hclass, htimeout]
    rfl

/-- What `add_peer` has done when it returns. -/
theorem addPeer_added {k : ℕ}
    (h : commits env clock (addPeer env p token role platform endpoint dc ack drawn) k db =
      (db', .ok ())) : ∃ digest, Binds env p token role platform endpoint dc ack digest ∧
        Added (sqlite env) db db' p digest drawn.tokenId := by
  by_cases hbinds : ∃ digest, Binds env p token role platform endpoint dc ack digest
  · obtain ⟨digest, hbinds⟩ := hbinds
    obtain ⟨db₂, db₃, id, hinsert, hrevoke, -, hcommits⟩ := addPeer_passes hbinds drawn clock k db
    cases h.symm.trans hcommits
    exact ⟨digest, hbinds, Raft.upsertPeer db p digest role platform endpoint dc ack
      (iso (clock k)), db₂, _, _, id, none, rfl, hinsert, hrevoke⟩
  · obtain ⟨e, -, hcommits⟩ := addPeer_unbound (not_exists.mp hbinds) drawn clock k db
    cases h.symm.trans hcommits

/-- What `rotate_peer_token` has done when it returns. -/
theorem rotatePeerToken_holds {graceUntil : Instant} {k : ℕ}
    (h : commits env clock (rotatePeerToken env p token graceUntil drawn) k db = (db', .ok ())) :
    ∃ digest, hashOf env token = .ok digest ∧ Holds db' p digest := by
  obtain ⟨db₁, -, h⟩ := commits_cons_ok.mp h
  obtain ⟨db₂, htoken, h⟩ := commits_cons_ok.mp h
  obtain ⟨db₃, hpeer, h⟩ := commits_cons_ok.mp h
  cases h
  obtain ⟨stmts, ids, hstmts, hexec⟩ := commit_ok htoken
  simp only [bind_eq_ok] at hstmts
  obtain ⟨_, hp, digest, hd, hstmts⟩ := hstmts
  cases hstmts
  obtain ⟨id, hinsert⟩ := (commit_single (s := .insertToken false p digest drawn.tokenId
    (lit "rotation") (lit "full") (iso (clock (k + 1)))) (by rw [hp, hd]; rfl)).mp htoken
  obtain ⟨id', hset⟩ := (commit_single (s := .setPeerToken digest p)
    (by rw [hp, hd]; rfl)).mp hpeer
  refine ⟨digest, hd, ?_⟩
  rcases exec_insertToken hinsert with ⟨hfalse, -⟩ | ⟨-, -, rfl⟩
  · cases hfalse
  · exact ⟨_, exec_spares (s := .setPeerToken digest p)
      (List.mem_append_right _ (List.mem_singleton_self _)) not_false hset, rfl, rfl,
      fun _ => selected_tokenRow rfl _⟩

/-- A credential works until an operation on the peer or the token. -/
theorem Holds.run {legacyTokenId : Str → Str → Str} {w w' : World Host (Call × Drawn) Phase}
    (h : Holds w.store.db p digest)
    (hw : Registered w.store.db ∧ ∀ call ∈ w.calls, call.2.Own env call.1)
    (hrun : Run (callers (adminCalls env) Fresh (Other legacyTokenId))
      (onAdvance fun a _ host _ => ¬ Concerns env p digest host.db a) w w')
    (htoken : token ≠ []) (hd : hashOf env token = .ok digest) :
    tokenScope env w'.store.db (iso w'.store.clock) p (.str token) = .ok (some (lit "full")) := by
  obtain ⟨⟨hdb', -⟩, hmoves⟩ := (stays_keeps env legacyTokenId p digest).run_from hw hrun
  obtain ⟨row, hrow, rfl, hscope, hsel⟩ := h
  obtain ⟨row', hrow', hstay⟩ := hmoves.rows row hrow
  have hsame : Unchanged row row' := hstay (hsel w.store.clock).1 rfl
  have hlive : TokenRow.live row' (iso w'.store.clock) = true := by
    have hold := (hsel w'.store.clock).live
    unfold TokenRow.live at hold ⊢
    rw [hsame.revokedAt, hsame.graceUntil]
    exact hold
  have hp : row'.peerId = p := hsame.peerId.trans (hsel w.store.clock).1
  rw [← hp, tokenScope_row hdb' hrow' htoken (by rw [hd, hsame.tokenHash]), if_pos hlive, scopeText,
    hsame.scope]
  exact congrArg (fun scope => Except.ok (some scope)) hscope

/-- On SQLite the returned token works exactly when it suits. -/
theorem sqliteWorks_iff (legacyTokenId : Str → Str → Str) {w : World Host (Call × Drawn) Phase}
    {a : Call × Drawn}
    (hw : Reachable (callers (adminCalls env) Fresh (Other legacyTokenId)) w)
    (hclock : Monotone clock) (hnow : clock 0 = w.store.clock) :
    SqliteWorks env legacyTokenId w a clock ↔ SqliteSuits env w.store.db a := by
  have hkeep := buries_keeps env legacyTokenId
  have hstart : Reach (callers (adminCalls env) Fresh (Other legacyTokenId))
      (onAdvance fun _ _ _ _ => True) ⟨⟨w.store.db, clock 0⟩, w.calls⟩ := by
    rw [hnow, onAdvance_true]
    exact hw
  have hdb : Registered w.store.db := (hkeep.reach hstart).1
  have hafter : ∀ n, Registered (alone env a clock w.store.db n).1 ∧
      ∀ call ∈ w.calls ++ [(a, (alone env a clock w.store.db n).2)], call.2.Own env call.1 :=
    fun n => hkeep.reach (reach_alone clock hclock (fun _ => trivial) hstart n)
  obtain ⟨call, drawn⟩ := a
  constructor
  · intro hworks
    cases call with
    | addPeer p given role platform endpoint dc ack =>
      intro digest hbinds
      have hplan : plan env (.addPeer p given role platform endpoint dc ack) drawn (clock 0)
        w.store.db = .ok ⟨_, .token (givenOr given drawn)⟩ := rfl
      obtain ⟨_, db', _, -, -, -, hcommits⟩ := addPeer_passes hbinds drawn clock 1 w.store.db
      have hdone := alone_done (a := (.addPeer p given role platform endpoint dc ack, drawn)) hplan
        hcommits
      obtain ⟨digest', hbinds', hadded⟩ := addPeer_added hcommits
      cases hbinds.1.symm.trans hbinds'.1
      obtain ⟨hsel, hruns⟩ := hworks 5 p _ digest rfl (congrArg Prod.snd hdone) hbinds.1
      have hdb' := (hafter 5).1
      -- time may pass as long as it likes
      have hscope : ∀ t, clock 5 ≤ t →
          tokenScope env db' (iso t) p (.str (givenOr given drawn)) = .ok (some (lit "full")) := by
        intro t ht
        have hfull := hruns _ (.single ⟨.other ⟨_, t⟩, trivial, .tick ht, rfl⟩)
        rw [show (alone env _ clock w.store.db 5).1 = db' from congrArg Prod.fst hdone] at hfull
        exact hfull
      rw [show (alone env _ clock w.store.db 5).1 = db' from congrArg Prod.fst hdone] at hsel hdb'
      refine ⟨?_, hadded.usable (hadded.holds_of_scope hdb'.hashes hsel fun t ht => ?_)⟩
      · intro hnil
        have hfull := hscope (clock 5) le_rfl
        rw [hnil] at hfull
        cases hfull
      · obtain ⟨row, hrow, -, hdigest, hlive, hfull⟩ := tokenScope_some (hscope t ht)
        exact ⟨row, hrow, Except.ok.inj (hdigest.symm.trans hbinds.1), hlive, hfull.symm⟩
    | _ => trivial
  · intro hsuits n p token digest hprov hret hd
    suffices hholds : token ≠ [] ∧ Holds (alone env (call, drawn) clock w.store.db n).1 p digest by
      obtain ⟨htoken, hholds⟩ := hholds
      have ⟨row, hrow, _, _, hsel⟩ := hholds
      exact ⟨⟨row, hrow, hsel _⟩, fun w' hrun => hholds.run (hafter n) hrun htoken hd⟩
    cases call with
    | addPeer p' given role platform endpoint dc ack =>
      cases hprov
      have hplan : plan env (.addPeer p given role platform endpoint dc ack) drawn (clock 0)
        w.store.db = .ok ⟨_, .token (givenOr given drawn)⟩ := rfl
      obtain ⟨hreply, hcommits⟩ := returned_ok hplan hret
      cases hreply
      obtain ⟨digest', hbinds, hadded⟩ := addPeer_added hcommits
      cases hd.symm.trans hbinds.1
      have husable := hsuits digest hbinds
      exact ⟨husable.1, hadded.holds husable.2⟩
    | rotatePeerToken p' given sec =>
      cases hprov
      cases hlater : later (clock 0) sec.toNat with
      | none =>
        have hplan : plan env (.rotatePeerToken p given sec) drawn (clock 0) w.store.db =
          .error .overflow := by rw [plan, hlater]
        cases n with
        | zero => cases hret
        | succ n =>
          rw [alone_of_error (a := (.rotatePeerToken p given sec, drawn)) hplan] at hret
          cases hret
      | some graceUntil =>
        have hplan : plan env (.rotatePeerToken p given sec) drawn (clock 0) w.store.db =
          .ok ⟨rotatePeerToken env p (truthyOr given drawn) graceUntil drawn,
            .token (truthyOr given drawn)⟩ := by rw [plan, hlater]
        obtain ⟨hreply, hcommits⟩ := returned_ok hplan hret
        cases hreply
        obtain ⟨digest', hd', hholds⟩ := rotatePeerToken_holds hcommits
        cases hd.symm.trans hd'
        exact ⟨truthyOr_ne given drawn, hholds⟩
    | _ => cases hprov

/-! ## The rqlite backend -/

/-- The statements as one transaction, and the token if it is committed. -/
def sent (c : Raft.Cluster) (db : Db) (stmts : List Stmt) (token : Str) : Db × Except Exn Str :=
  match Raft.transaction c db stmts with
  | (db', .error e) => (db', .error (.runtime e.constraint))
  | (db', .ok _) => (db', .ok token)

/-- `RaftSQLStore.add_peer` and `RaftSQLStore.rotate_peer_token` -/
def raftProvision (c : Raft.Cluster) (a : Call × Drawn) (now : Instant) (db : Db) :
    Option (Db × Except Exn Str) :=
  match a.1 with
  | .addPeer p token role platform endpoint dc ack =>
    let token := givenOr token a.2
    match hashOf c.env token with
    | .error e => some (db, .error e)
    | .ok digest => some (sent c db
        (Raft.addPeer p digest a.2.tokenId role platform endpoint dc ack (iso now)) token)
  | .rotatePeerToken p token sec =>
    let token := truthyOr token a.2
    match later now sec.toNat, hashOf c.env token with
    | none, _ => some (db, .error .overflow)
    | _, .error e => some (db, .error e)
    | some graceUntil, .ok digest => some (sent c db
        (Raft.rotatePeerToken p digest a.2.tokenId (iso graceUntil) (iso now)) token)
  | _ => none

/-- The same of a cluster. -/
def RqliteWorks (c : Raft.Cluster) (db : Db) (a : Call × Drawn) (now : Instant) : Prop :=
  ∀ db' p token digest, a.1.provisioned = some p →
    raftProvision c a now db = some (db', .ok token) → hashOf c.env token = .ok digest →
      (∃ row ∈ db'.peerTokens, Selected p (iso now) row) ∧
      ∀ db'', Run (Raft.cluster c) (fun db op => ¬ OpConcerns p digest db op) db' db'' →
        ∀ t, now ≤ t →
          Raft.tokenScope c db'' (iso t) p (.str token) = .ok (some (lit "full"))

/-- The token that a call provisions a peer with on rqlite may be given to the peer. -/
def RqliteSuits (env : Env) (db : Db) (a : Call × Drawn) : Prop :=
  match a.1 with
  | .addPeer p token .. =>
    ∀ digest, hashOf env (givenOr token a.2) = .ok digest →
      Usable db p (givenOr token a.2) digest a.2.tokenId
  | _ => True

theorem execAll_hashes {stmts : List Stmt} {ids : List (Option ℕ)}
    (h : execAll c db stmts = .ok (db', ids)) (hdb : (db.peerTokens.map (·.tokenHash)).Nodup) :
    (db'.peerTokens.map (·.tokenHash)).Nodup :=
  execAll_induct (P := fun db => (db.peerTokens.map (·.tokenHash)).Nodup) hdb
    (fun _ _ _ _ _ hdb₁ hone => exec_hashes hone hdb₁) h

theorem cluster_hashes (h : Reachable (Raft.cluster c) db) :
    (db.peerTokens.map (·.tokenHash)).Nodup := by
  refine h.invariant (P := fun db => (db.peerTokens.map (·.tokenHash)).Nodup) ?_ ?_
  · intro db hinit
    have hempty : db = {} := hinit
    rw [hempty]
    exact List.nodup_nil
  · rintro db op db' hdb - ⟨ids, hexec⟩
    exact execAll_hashes hexec hdb

/-- A credential stays in the ledger until an operation on the peer or the token. -/
theorem Holds.commits (h : Holds db p digest) (hashes : (db.peerTokens.map (·.tokenHash)).Nodup)
    (hrun : Run (Raft.cluster c) (fun db op => ¬ OpConcerns p digest db op) db db') :
    Holds db' p digest ∧ (db'.peerTokens.map (·.tokenHash)).Nodup := by
  induction hrun with
  | refl => exact ⟨h, hashes⟩
  | tail _ hst ih =>
    obtain ⟨⟨row, hrow, hhash, hscope, hsel⟩, hashes'⟩ := ih
    obtain ⟨op, hother, ids, hexec⟩ := hst
    have hp : row.peerId = p := (hsel ⟨0, by decide⟩).1
    exact ⟨⟨row, execAll_spares hrow (op_not_touches hrow hp hother) hexec, hhash, hscope, hsel⟩,
      execAll_hashes hexec hashes'⟩

theorem raftAddPeer_added (c : Raft.Cluster) (p digest tokenId : Str)
    (role platform endpoint : Option Str) (dc : Str) (ack : ℤ) (db : Db) (now : Time) : ∃ db' ids,
    execAll c db (Raft.addPeer p digest tokenId role platform endpoint dc ack now) =
      .ok (db', ids) ∧ Added c db db' p digest tokenId := by
  let db₁ := Raft.upsertPeer db p digest role platform endpoint dc ack now
  obtain ⟨db₂, id, hinsert⟩ : ∃ db₂ id, exec c db₁ (.insertToken true p digest tokenId
      (lit "primary") (lit "full") now) = .ok (db₂, id) := insertToken_upsertPeer db _ _
  obtain ⟨db₃, id', hrevoke⟩ : ∃ db₃ id', exec c db₂ (.revokeOthers now p digest) =
    .ok (db₃, id') := ⟨_, _, rfl⟩
  have hupsert : exec c db (.upsertPeer p digest role platform endpoint dc ack now) =
    .ok (db₁, none) := rfl
  refine ⟨db₃, [none, id, id'], ?_, db₁, db₂, now, now, id, id', rfl, hinsert, hrevoke⟩
  simp only [Raft.addPeer, execAll, hupsert, hinsert, hrevoke]

theorem raftRotatePeerToken_holds {graceUntil now : Time} {ids : List (Option ℕ)}
    (h : execAll c db (Raft.rotatePeerToken p digest tokenId graceUntil now) = .ok (db', ids)) :
    Holds db' p digest := by
  obtain ⟨db₁, id₁, ids₁, -, h, -⟩ := Raft.execAll_cons h
  obtain ⟨db₂, id₂, ids₂, hinsert, h, -⟩ := Raft.execAll_cons h
  rcases exec_insertToken hinsert with ⟨hfalse, -⟩ | ⟨-, -, rfl⟩
  · cases hfalse
  · refine ⟨_, execAll_spares (List.mem_append_right _ (List.mem_singleton_self _)) ?_ h, rfl, rfl,
      fun _ => selected_tokenRow rfl _⟩
    intro s hs
    rw [List.mem_singleton.mp hs]
    exact not_false

theorem sent_ok {stmts : List Stmt} {t : Str} (h : sent c db stmts token = (db', .ok t)) :
    token = t ∧ ∃ ids, execAll c db stmts = .ok (db', ids) := by
  unfold sent Raft.transaction at h
  cases hexec : execAll c db stmts with
  | error e => simp [hexec] at h
  | ok r =>
    obtain ⟨db₁, ids⟩ := r
    simp only [hexec, Prod.mk.injEq, Except.ok.injEq] at h
    exact ⟨h.2, ids, by rw [h.1]⟩

/-- On rqlite the returned token works exactly when it suits. -/
theorem rqliteWorks_iff {a : Call × Drawn} {now : Instant}
    (hdb : Reachable (Raft.cluster c) db) :
    RqliteWorks c db a now ↔ RqliteSuits c.env db a := by
  have hashes := cluster_hashes hdb
  obtain ⟨call, drawn⟩ := a
  constructor
  · intro hworks
    cases call with
    | addPeer p given role platform endpoint dc ack =>
      intro digest hd
      obtain ⟨db', ids, hexec, hadded⟩ := raftAddPeer_added c p digest drawn.tokenId role
        platform endpoint dc ack db (iso now)
      have hsent : raftProvision c (.addPeer p given role platform endpoint dc ack, drawn) now db =
          some (db', .ok (givenOr given drawn)) := by
        simp only [raftProvision, hd, sent, Raft.transaction, hexec]
      obtain ⟨hsel, hruns⟩ := hworks db' p _ digest rfl hsent hd
      have hscope : ∀ t, now ≤ t → Raft.tokenScope c db' (iso t) p (.str (givenOr given drawn)) =
        .ok (some (lit "full")) := hruns db' .refl
      refine ⟨?_, hadded.usable (hadded.holds_of_scope (hadded.hashes hashes) hsel fun t ht => ?_)⟩
      · intro hnil
        have hfull := hscope now le_rfl
        rw [hnil] at hfull
        cases hfull
      · have hfull := hscope t ht
        unfold Raft.tokenScope at hfull
        split_ifs at hfull
        · cases hfull
        obtain ⟨row, hrow, hdigest, hlive, hrest⟩ := scopeOf_some hfull
        exact ⟨row, (List.mem_filter.mp hrow).1, Except.ok.inj (hdigest.symm.trans hd), hlive,
          hrest.symm⟩
    | _ => trivial
  · intro hsuits db' p token digest hprov hsent hd
    suffices hholds : (db'.peerTokens.map (·.tokenHash)).Nodup ∧ token ≠ [] ∧ Holds db' p digest by
      obtain ⟨hashes', htoken, hholds⟩ := hholds
      obtain ⟨row, hrow, _, _, hsel⟩ := id hholds
      refine ⟨⟨row, hrow, hsel _⟩, fun db'' hrun t _ => ?_⟩
      obtain ⟨hholds'', hashes''⟩ := hholds.commits hashes' hrun
      exact hholds''.raft_scope_full hashes'' htoken hd t
    cases call with
    | addPeer p' given role platform endpoint dc ack =>
      cases hprov
      obtain ⟨digest', hd'⟩ : ∃ digest', hashOf c.env (givenOr given drawn) = .ok digest' := by
        cases hgiven : hashOf c.env (givenOr given drawn) with
        | error e => simp [raftProvision, hgiven] at hsent
        | ok digest' => exact ⟨digest', rfl⟩
      simp only [raftProvision, hd', Option.some.injEq] at hsent
      obtain ⟨rfl, ids, hexec⟩ := sent_ok hsent
      cases hd.symm.trans hd'
      obtain ⟨db₁, ids₁, hexec₁, hadded⟩ := raftAddPeer_added c p digest drawn.tokenId role
        platform endpoint dc ack db (iso now)
      cases hexec.symm.trans hexec₁
      have husable := hsuits digest hd
      exact ⟨hadded.hashes hashes, husable.1, hadded.holds husable.2⟩
    | rotatePeerToken p' given sec =>
      cases hprov
      simp only [raftProvision] at hsent
      split at hsent
      · cases hsent
      · cases hsent
      next graceUntil digest' _ hd' =>
        obtain ⟨rfl, ids, hexec⟩ := sent_ok (Option.some.inj hsent)
        cases hd.symm.trans hd'
        exact ⟨execAll_hashes hexec hashes, truthyOr_ne given drawn, raftRotatePeerToken_holds hexec⟩
    | _ => cases hprov

/-! ## Both backends -/

/-- Provisioning a peer yields a working credential exactly when the token is no empty text and
either is in no row or is a valid token of the peer itself for good. -/
theorem credential_works_iff (env : Env) (legacyTokenId : Str → Str → Str) (c : Raft.Cluster)
    (a : Call × Drawn) :
    (∀ (w : World Host (Call × Drawn) Phase) (clock : ℕ → Instant),
      Reachable (callers (adminCalls env) Fresh (Other legacyTokenId)) w → Monotone clock →
      clock 0 = w.store.clock →
        (SqliteWorks env legacyTokenId w a clock ↔ SqliteSuits env w.store.db a)) ∧
    ∀ (db : Db) (now : Instant), Reachable (Raft.cluster c) db →
      (RqliteWorks c db a now ↔ RqliteSuits c.env db a) :=
  ⟨fun _ _ hw hclock hnow => sqliteWorks_iff legacyTokenId hw hclock hnow,
    fun _ _ hdb => rqliteWorks_iff hdb⟩

/-! ## A peer that is locked out -/

/-- The request of `add_peer("alice", token)`. -/
def aliceTokenOp (token tokenId : Str) : Raft.Op :=
  .addPeer (lit "alice") token tokenId none none none (lit "normal") 180 (iso noon)

/-- Alice has `two`, after `one`, and is added with `one` again: she has no valid token. -/
theorem alice_locked_out :
    (∃ w clock, Reachable (callers (adminCalls plainEnv) Fresh (Other plainTokenId)) w ∧
      Monotone clock ∧ clock 0 = w.store.clock ∧
      ¬ SqliteWorks plainEnv plainTokenId w (aliceToken (lit "one"), drawOne) clock) ∧
    ∃ db, Reachable (Raft.cluster Raft.plainCluster) db ∧
      ¬ RqliteWorks Raft.plainCluster db (aliceToken (lit "one"), drawOne) noon := by
  constructor
  · obtain ⟨calls, hw⟩ := reach_aliceTwo plainTokenId
    refine ⟨_, fun _ => noon, hw, monotone_const, rfl, fun h => ?_⟩
    obtain ⟨⟨row, hrow, -, -, hactive⟩, -⟩ := h 5 (lit "alice") (lit "one") (lit "one") rfl rfl rfl
    have hrevoked : ∀ row ∈ (alone plainEnv (aliceToken (lit "one"), drawOne) (fun _ => noon)
        aliceTwo 5).1.peerTokens, row.revokedAt = some (iso noon) :=
      List.forall_mem_cons.mpr ⟨rfl, List.forall_mem_cons.mpr ⟨rfl, nofun⟩⟩
    rw [tokenActive, hrevoked row hrow] at hactive
    cases hactive
  · refine ⟨_, .step (a := aliceTokenOp (lit "two") (lit "id-two"))
      (.step (a := aliceTokenOp (lit "one") (lit "id-one")) (.init rfl) trivial ⟨_, rfl⟩) trivial
        ⟨_, rfl⟩, fun h => ?_⟩
    obtain ⟨⟨row, hrow, -, -, hactive⟩, -⟩ := h _ (lit "alice") (lit "one") (lit "one") rfl rfl rfl
    have hrevoked : row.revokedAt = some (iso noon) := by
      rcases List.mem_cons.mp hrow with rfl | hrow
      · rfl
      rcases List.mem_cons.mp hrow with rfl | hrow
      · rfl
      cases hrow
    rw [tokenActive, hrevoked] at hactive
    cases hactive

end Admin
end ATalk
