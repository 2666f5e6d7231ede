import ATalk.Adapter.Requests
import ATalk.Admin.Tokens

/-!
# Device tokens over HTTP

`POST /device-tokens` and `POST /device-tokens/revoke`, statement by statement. A body may name its
peer, its label and its token by any value; what is written is what the store of the administration
writes.

* `deviceCalls`, `revokeCalls` : the two machines;
* `insertDevice_eq` : the insert is a part of the administration;
* `insertDevice_ok`, `revokeToken_rows` : what the two transactions write.
-/

namespace ATalk
namespace Server

open Text Python Sqlite ATalk.Core Federation Checks Transition Callers

/-! ## Checks -/

/-- `authorized(peer, {"full"})`: the token of the header alone. -/
def checkFull (cfg : ServerConfig) (db : Db) (r : Request) (now : Time) (peer : Val) :
    Except Exn Unit := do
  guardOr ((← agentScope cfg.env db now peer (.str r.bearer)) = some (lit "full"))
    (.permission (lit "full peer token required"))

/-- `x in {..}` has to hash `x`. -/
def requireHashable : Val → Except Exn Unit
  | .list _ => .error .typeError
  | .dict _ => .error .typeError
  | _ => .ok ()

/-- `x in {"legacy", "primary", "rotation"}` -/
def reservedLabel : Val → Bool
  | .str s => s ∈ [lit "legacy", lit "primary", lit "rotation"]
  | _ => false

/-- What the error of a missing key prints. -/
def keyText (env : Env) : Val → Str
  | .str s => lit "'" ++ s ++ lit "'"
  | v => env.strOf v

/-- `body.get("scope", "full")`, one of the two scopes. -/
def deviceScope (body : Dict) : Except Exn Str := do
  let scope := getDefault (lit "scope") body (.str (lit "full"))
  requireHashable scope
  match scope with
  | .str s =>
    guardOr (s ∈ [lit "full", lit "notify"]) (.value (lit "scope must be full or notify"))
    return s
  | _ => .error (.value (lit "scope must be full or notify"))

/-! ## `POST /device-tokens` -/

/-- A body, and what the call draws. -/
structure TokenCall extends Request where
  drawn : Admin.Drawn

/-- A token that is about to be added. -/
structure NewToken where
  peer : Str
  label : Val
  token : Val
  scope : Str

/-- `token or secrets.token_urlsafe(32)` -/
def givenToken (r : TokenCall) : Val :=
  if (getNone (lit "token") r.body).truthy then getNone (lit "token") r.body else .str r.drawn.token

/-- What `add_device_token` checks and reads before it writes. -/
def lookupDevice (cfg : ServerConfig) (db : Db) (r : TokenCall) (peer : Val) :
    Except Exn NewToken := do
  let label ← requireKey r.body "device_label"
  requireHashable label
  guardOr (reservedLabel label = false) (.value (lit "device_label is reserved"))
  let scope ← deviceScope r.body
  match ← textParam cfg.env peer with
  | none => .error (.key (keyText cfg.env peer))
  | some p =>
    guardOr (Admin.activePeer db p = true) (.key (keyText cfg.env peer))
    return ⟨p, label, givenToken r, scope⟩

/-- The row of a device. -/
def deviceRow (db : Db) (t : NewToken) (label : Option Str) (digest tokenId : Str) (now : Time) :
    TokenRow :=
  ⟨nextId (db.peerTokens.map (·.id)), t.peer, digest, some tokenId, label, t.scope, now, none, none⟩

/-- The transaction of `add_device_token`. -/
def insertDevice (env : Env) (t : NewToken) (tokenId : Str) (now : Time) (db : Db) :
    Except Exn Db := do
  let digest ← tokenDigest env t.token
  let label ← textParam env t.label
  guardOr (Raft.tokenTaken db digest tokenId = false)
    (.integrity "UNIQUE constraint failed: peer_tokens")
  guardOr (Raft.hasPeer db t.peer = true) (.integrity "FOREIGN KEY constraint failed")
  return Raft.insertAudit
    { db with peerTokens := db.peerTokens ++ [deviceRow db t label digest tokenId now] }
    (Raft.deviceAudit t.peer (lit "device_token_add") t.peer (lit "accepted") tokenId t.label t.scope
      now)

/-- The answer to a new token: the values of the body, and what was drawn. -/
def deviceReply (r : TokenCall) (t : NewToken) : Reply :=
  ⟨201, [(lit "peer_id", getNone (lit "peer_id") r.body), (lit "token_id", .str r.drawn.tokenId),
    (lit "device_label", t.label), (lit "scope", .str t.scope), (lit "token", t.token)]⟩

inductive DevicePhase where
  | start
  | token (peer : Val)
  | lookup (peer : Val)
  | insert (t : NewToken)
  | done (reply : Reply)

/-- `do_POST` for `/device-tokens`, one statement at a time. -/
def deviceStep (cfg : ServerConfig) (r : TokenCall) (now : Time) (db : Db) :
    DevicePhase → Db × DevicePhase
  | .start =>
    match requireKey r.body "peer_id" with
    | .error e => (db, .done (exnReply e))
    | .ok peer => (db, if authRequired db then .token peer else .lookup peer)
  | .token peer =>
    match checkFull cfg db r.toRequest now peer with
    | .error e => (db, .done (exnReply e))
    | .ok () => (db, .lookup peer)
  | .lookup peer =>
    match lookupDevice cfg db r peer with
    | .error e => (db, .done (exnReply e))
    | .ok t => (db, .insert t)
  | .insert t =>
    match insertDevice cfg.env t r.drawn.tokenId now db with
    | .error e => (db, .done (exnReply e))
    | .ok db' => (db', .done (deviceReply r t))
  | .done reply => (db, .done reply)

def deviceCalls (cfg : ServerConfig) : Machine Db TokenCall Time DevicePhase Reply where
  start _ := .start
  step := deviceStep cfg
  result
    | .done reply => some reply
    | _ => none

/-! ## `POST /device-tokens/revoke` -/

/-- `list_device_tokens` -/
def peerTokenRows (env : Env) (db : Db) (peer : Val) : Except Exn (List TokenRow) := do
  match ← textParam env peer with
  | none => return []
  | some p => return db.peerTokens.filter (·.peerId = p)

/-- `token_id in {row["token_id"] for row in rows}` -/
def namesToken (rows : List TokenRow) : Val → Bool
  | .str t => rows.any (·.tokenId = some t)
  | .none => rows.any (·.tokenId = none)
  | _ => false

/-- The check that the token is one of the peer's. -/
def checkOwner (env : Env) (db : Db) (r : Request) (peer : Val) : Except Exn Val := do
  let rows ← peerTokenRows env db peer
  let tokenId ← requireKey r.body "token_id"
  requireHashable tokenId
  guardOr (namesToken rows tokenId = true)
    (.permission (lit "token does not belong to authenticated peer"))
  return tokenId

/-- The row that `revoke_device_token` reads. -/
def findRevoked (db : Db) (tokenId : Val) : Except Exn (TokenRow × Str) :=
  match tokenId with
  | .str t =>
    match Admin.findToken db t with
    | none => .error (.key (lit "'" ++ t ++ lit "'"))
    | some row => .ok (row, t)
  | _ => .error (.key (lit "None"))

/-- The text of the peer in the audit log. -/
def actorText (env : Env) (peer : Val) : Except Exn Str := do
  return (← textParam env peer).getD []

def revokeReply (row : TokenRow) (tokenId : Str) : Reply :=
  ⟨200, [(lit "token_id", .str tokenId), (lit "peer_id", .str row.peerId),
    (lit "revoked", .bool true),
    (lit "result", .str (if row.revokedAt.getD [] ≠ [] then lit "already_revoked"
      else lit "accepted"))]⟩

inductive RevokePhase where
  | start
  | token (peer : Val)
  | list (peer : Val)
  | find (peer tokenId : Val)
  | revoke (peer : Val) (row : TokenRow) (tokenId : Str)
  | done (reply : Reply)

/-- `do_POST` for `/device-tokens/revoke`, one statement at a time. -/
def revokeStep (cfg : ServerConfig) (r : Request) (now : Time) (db : Db) :
    RevokePhase → Db × RevokePhase
  | .start =>
    match requireKey r.body "peer_id" with
    | .error e => (db, .done (exnReply e))
    | .ok peer => (db, if authRequired db then .token peer else .list peer)
  | .token peer =>
    match checkFull cfg db r now peer with
    | .error e => (db, .done (exnReply e))
    | .ok () => (db, .list peer)
  | .list peer =>
    match checkOwner cfg.env db r peer with
    | .error e => (db, .done (exnReply e))
    | .ok tokenId => (db, .find peer tokenId)
  | .find peer tokenId =>
    match findRevoked db tokenId with
    | .error e => (db, .done (exnReply e))
    | .ok (row, t) => (db, .revoke peer row t)
  | .revoke peer row t =>
    match actorText cfg.env peer with
    | .error e => (db, .done (exnReply e))
    | .ok actor =>
      match Raft.transaction (Admin.sqlite cfg.env) db (Raft.revokeDeviceToken row t actor now) with
      | (db', .error e) => (db', .done (exnReply (.integrity e.constraint)))
      | (db', .ok _) => (db', .done (revokeReply row t))
  | .done reply => (db, .done reply)

def revokeCalls (cfg : ServerConfig) : Machine Db Request Time RevokePhase Reply where
  start _ := .start
  step := revokeStep cfg
  result
    | .done reply => some reply
    | _ => none

/-! ## What they write -/

variable {env : Env} {db db' : Db} {t : NewToken} {tokenId : Str} {now : Time}

theorem insertDevice_ok (h : insertDevice env t tokenId now db = .ok db') :
    ∃ digest label, tokenDigest env t.token = .ok digest ∧ textParam env t.label = .ok label ∧
      Raft.tokenTaken db digest tokenId = false ∧ Raft.hasPeer db t.peer = true ∧
      db' = Raft.insertAudit
        { db with peerTokens := db.peerTokens ++ [deviceRow db t label digest tokenId now] }
        (Raft.deviceAudit t.peer (lit "device_token_add") t.peer (lit "accepted") tokenId t.label
          t.scope now) := by
  unfold insertDevice at h
  obtain ⟨digest, hdigest, h⟩ := bind_eq_ok.mp h
  obtain ⟨label, hlabel, h⟩ := bind_eq_ok.mp h
  obtain ⟨_, htaken, h⟩ := bind_eq_ok.mp h
  obtain ⟨_, hpeer, h⟩ := bind_eq_ok.mp h
  cases h
  exact ⟨digest, label, hdigest, hlabel, guardOr_eq_ok.mp htaken, guardOr_eq_ok.mp hpeer, rfl⟩

/-- The statements of `add_device_token`: a taken key and a missing peer are errors. -/
theorem execAll_addDeviceToken (env : Env) (db : Db) (p digest tokenId label scope : Str) (now : Time) :
    Raft.execAll (Admin.sqlite env) db (Raft.addDeviceToken p digest tokenId label scope p now) =
      if Raft.tokenTaken db digest tokenId then .error ⟨"UNIQUE constraint failed: peer_tokens"⟩
      else if Raft.hasPeer db p = false then .error ⟨"FOREIGN KEY constraint failed"⟩
      else .ok (Raft.insertAudit
        { db with peerTokens :=
            db.peerTokens ++ [Raft.tokenRow db p digest tokenId label scope now] }
        (Raft.deviceAudit p (lit "device_token_add") p (lit "accepted") tokenId (.str label) scope
          now), [some (nextId (db.peerTokens.map (·.id))), none]) := by
  simp only [Raft.addDeviceToken, Raft.execAll, Raft.exec, Raft.peerKey, Admin.sqlite, Bool.not_true,
    Bool.false_or, Raft.done]
  by_cases htaken : Raft.tokenTaken db digest tokenId = true
  · simp [htaken]
  · by_cases hmember : Raft.hasPeer db p = false
    · simp [htaken, hmember]
    · simp [htaken, hmember, Raft.tokenRow]

/-- Where the label and the token are texts the insert is a part of the administration. -/
theorem insertDevice_eq {label token : Str} {drawn : Admin.Drawn} {clock : Calendar.Instant}
    {part : Admin.Part} (hlabel : t.label = .str label) (htoken : t.token = .str token)
    (hpeer : Clean t.peer)
    (hpart : Admin.addDeviceToken env t.peer label token t.scope t.peer drawn clock = [part])
    (moment : Calendar.Instant) :
    insertDevice env t drawn.tokenId (Calendar.iso clock) db = .ok db' ↔
      Admin.commit env part moment db = (db', .ok ()) := by
  cases hpart
  have hactor : strParam t.peer = .ok () := guardOr_pos hpeer _
  unfold insertDevice Admin.commit Admin.hashOf Raft.transaction
  rw [htoken, hlabel]
  cases hdigest : tokenDigest env (.str token) with
  | error e => simp
  | ok digest =>
    by_cases hclean : Clean label
    · have hparam : strParam label = .ok () := guardOr_pos hclean _
      rw [Adapter.textParam_str hclean]
      simp only [ok_bind, hparam, hactor, pure, Except.pure, execAll_addDeviceToken]
      by_cases htaken : Raft.tokenTaken db digest drawn.tokenId = true
      · simp [htaken, guardOr]
      · by_cases hmember : Raft.hasPeer db t.peer = true
        · simp [htaken, hmember, guardOr, deviceRow, Raft.tokenRow]
        · simp [htaken, hmember, guardOr]
    · have hparam : strParam label = .error .unicodeEncode := guardOr_neg hclean _
      have hbind : textParam env (.str label) = .error .unicodeEncode := by
        have hsql : Sqlite.bind (.str label) = .error .unicodeEncode := if_neg hclean
        unfold textParam
        rw [hsql]
        rfl
      simp [hbind, hparam]

/-- A revocation changes rows of the token, and no other table but the audit log. -/
theorem revokeToken_rows (env : Env) (row : TokenRow) (t actor : Str) (now : Time) (db : Db) :
    ∃ db' ids, Raft.transaction (Admin.sqlite env) db (Raft.revokeDeviceToken row t actor now) =
        (db', .ok ids) ∧
      (db'.peerTokens = db.peerTokens ∨ db'.peerTokens = db.peerTokens.map fun r =>
        if r.tokenId = some t then { r with revokedAt := some now } else r) ∧
      db' = { db with peerTokens := db'.peerTokens, auditLog := db'.auditLog } := by
  unfold Raft.transaction Raft.revokeDeviceToken
  by_cases hrevoked : row.revokedAt.getD [] ≠ []
  · simp only [if_pos hrevoked]
    exact ⟨_, _, rfl, .inl rfl, rfl⟩
  · simp only [if_neg hrevoked]
    exact ⟨_, _, rfl, .inr rfl, rfl⟩

end Server
end ATalk
