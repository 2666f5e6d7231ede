import ATalk.Exchange.Receiver
import ATalk.Server.Routes

/-!
# What a request has shown

A request comes to act for a peer at the statement that finds a live full token of it; an event from
abroad is verified under the key of its family. What a step then writes, it writes in the name of
those.

* `Presented`, `SignedBy` : what a request has shown;
* `HttpPhase.Acts`, `httpStep_acts` : for whom it acts, and since when;
* `HttpPhase.Holds`, `httpStep_holds` : what it has found out on its way;
* `WritesAs`, `httpStep_writes` : what a step writes, and in whose name.
-/

namespace ATalk
namespace Server

open Text Python Sqlite ATalk.Core Federation Checks Transition Callers

/-! ## What a request shows -/

/-- The token is a live one of the peer, with full scope. -/
def FullToken (env : Env) (db : Db) (now : Time) (peer : Str) (token : Val) : Prop :=
  ∃ row ∈ db.peerTokens, row.peerId = peer ∧ TokenRow.live row now = true ∧
    Admin.scopeText row = lit "full" ∧ tokenDigest env token = .ok row.tokenHash

/-- The token that the full scope is asked of. -/
def HttpCall.token : HttpCall → Val
  | .events r => requestToken r
  | .ack r => requestToken r.toRequest
  -- the routes of tokens do not look at the body for one
  | .addToken r => .str r.bearer
  | .revokeToken r => .str r.bearer
  | _ => .none

/-- The statement that reads the scope. -/
def HttpPhase.Checks : HttpPhase → Prop
  | .events (.token _) => True
  | .ack .token => True
  | .addToken (.token _) => True
  | .revokeToken (.token _) => True
  -- an acknowledgement of hints asks for less than the full scope
  | _ => False

/-- An own step of a request. -/
abbrev HttpVisit := Visit Db Time HttpPhase

/-- At its check the request presented a live full token of the peer. -/
def Presented (env : Env) (c : HttpCall) (log : List HttpVisit) (peer : Str) : Prop :=
  ∃ v ∈ log, v.phase.Checks ∧ FullToken env v.before v.now peer c.token

/-- The row is that of a body which was verified under the registered key of the family that the
source of the row names. -/
def SignedBy (cfg : ServerConfig) (c : HttpCall) (row : EventRow) : Prop :=
  ∃ r fed env rec agent db seq now, c = .inbox r ∧ cfg.fed = some fed ∧
    parseEvent r.raw = .ok env ∧ lookupSigner fed env = some rec ∧
    verifyEnvelope fed rec env = .ok () ∧ row = localRow db (inboundParams env rec) seq now ∧
    IsAddress row.source agent rec.family

/-! ## What a step leaves -/

/-- None of the tables that a peer may write to has changed. -/
structure Intact (db db' : Db) : Prop where
  events : db'.events = db.events
  acks : db'.acks = db.acks
  tokens : db'.peerTokens = db.peerTokens
  outbound : db'.federationOutbound = db.federationOutbound
  receipts : db'.federationReceiptOut = db.federationReceiptOut

/-- A step of the request writes in the name of peers with `ok`, each route to tables of its own. -/
structure WritesAs (cfg : ServerConfig) (c : HttpCall) (ok : Str → Prop) (db db' : Db) : Prop where
  events : ∀ row ∈ db'.events, row ∈ db.events ∨
    (c.path = lit "/events" ∧ ok row.source) ∨ SignedBy cfg c row
  acks : ∀ row ∈ db'.acks, row ∈ db.acks ∨ (c.path = lit "/ack" ∧ ok row.agentId)
  tokens : ∀ row ∈ db'.peerTokens, row ∈ db.peerTokens ∨
    ((c.path = lit "/device-tokens" ∨ c.path = lit "/device-tokens/revoke") ∧ ok row.peerId)
  outbound : ∀ row ∈ db'.federationOutbound, row ∈ db.federationOutbound ∨
    (c.path = lit "/events" ∧ ok row.sourceLocal)
  receipts : ∀ row ∈ db'.federationReceiptOut, row ∈ db.federationReceiptOut ∨
    (c.path = lit "/ack" ∧ ok (localPart row.agent))
  intact : Intact db db' ∨ (∃ peer, ok peer) ∨ ∃ row, SignedBy cfg c row

/-- An id of a token belongs to one peer, and is not empty. -/
structure TokenIds (db : Db) : Prop where
  unique : ∀ r ∈ db.peerTokens, ∀ q ∈ db.peerTokens, ∀ t, r.tokenId = some t → q.tokenId = some t →
    r.peerId = q.peerId
  named : ∀ r ∈ db.peerTokens, r.tokenId ≠ some []

/-- Peers stay, and tokens keep their ids and their peers. -/
structure Provisions (db db' : Db) : Prop where
  peers : db.peers ≠ [] → db'.peers ≠ []
  tokens : ∀ r ∈ db.peerTokens, ∀ t, r.tokenId = some t → t ≠ [] →
    ∃ q ∈ db'.peerTokens, q.tokenId = some t ∧ q.peerId = r.peerId
  ids : TokenIds db → TokenIds db'

variable {cfg : ServerConfig} {c : HttpCall} {db db' : Db} {now : Time} {peer : Str} {env : Env}
  {ok ok' : Str → Prop} {r : Request} {log log' : List HttpVisit}

theorem Intact.refl (db : Db) : Intact db db := ⟨rfl, rfl, rfl, rfl, rfl⟩

theorem Intact.writes (h : Intact db db') : WritesAs cfg c ok db db' where
  events _ hrow := .inl (h.events ▸ hrow)
  acks _ hrow := .inl (h.acks ▸ hrow)
  tokens _ hrow := .inl (h.tokens ▸ hrow)
  outbound _ hrow := .inl (h.outbound ▸ hrow)
  receipts _ hrow := .inl (h.receipts ▸ hrow)
  intact := .inl h

theorem WritesAs.mono (h : WritesAs cfg c ok db db') (hok : ∀ peer, ok peer → ok' peer) :
    WritesAs cfg c ok' db db' where
  events _ hrow := (h.events _ hrow).imp_right fun hnew => hnew.imp_left (.imp_right (hok _))
  acks _ hrow := (h.acks _ hrow).imp_right (.imp_right (hok _))
  tokens _ hrow := (h.tokens _ hrow).imp_right (.imp_right (hok _))
  outbound _ hrow := (h.outbound _ hrow).imp_right (.imp_right (hok _))
  receipts _ hrow := (h.receipts _ hrow).imp_right (.imp_right (hok _))
  intact := by
    refine h.intact.imp_right (.imp_left ?_)
    rintro ⟨peer, hpeer⟩
    exact ⟨peer, hok peer hpeer⟩

theorem Provisions.of_eq (hpeers : db'.peers = db.peers) (htokens : db'.peerTokens = db.peerTokens) :
    Provisions db db' where
  peers h := hpeers ▸ h
  tokens r hr _ ht _ := ⟨r, htokens ▸ hr, ht, rfl⟩
  ids h := ⟨htokens ▸ h.unique, htokens ▸ h.named⟩

theorem Provisions.refl (db : Db) : Provisions db db := .of_eq rfl rfl

theorem Provisions.trans {db'' : Db} (h : Provisions db db') (h' : Provisions db' db'') :
    Provisions db db'' where
  peers hdb := h'.peers (h.peers hdb)
  tokens r hr t ht hne := by
    obtain ⟨q, hq, hqt, hqpeer⟩ := h.tokens r hr t ht hne
    obtain ⟨q', hq', hqt', hqpeer'⟩ := h'.tokens q hq t hqt hne
    exact ⟨q', hq', hqt', hqpeer'.trans hqpeer⟩
  ids hdb := h'.ids (h.ids hdb)

/-- A statement that takes the token rows one by one, and adds one under a free id at most. -/
theorem tokens_provided {f : TokenRow → TokenRow} {rows : List TokenRow}
    (hf : ∀ r, (f r).tokenId = r.tokenId ∧ (f r).peerId = r.peerId)
    (hpeers : db.peers ≠ [] → db'.peers ≠ []) (htokens : db'.peerTokens = db.peerTokens.map f ++ rows)
    (hrows : rows = [] ∨ ∃ r t, rows = [r] ∧ r.tokenId = some t ∧ t ≠ [] ∧
      ∀ q ∈ db.peerTokens, q.tokenId ≠ some t) : Provisions db db' := by
  -- an old row stays under its id, and a row is an old one or the new one
  have hold : ∀ r ∈ db.peerTokens, f r ∈ db'.peerTokens := by
    intro r hr
    rw [htokens]
    exact List.mem_append_left _ (List.mem_map_of_mem hr)
  have hcases : ∀ r ∈ db'.peerTokens, (∃ q ∈ db.peerTokens, r.tokenId = q.tokenId ∧
      r.peerId = q.peerId) ∨ ∃ t, rows = [r] ∧ r.tokenId = some t ∧ t ≠ [] ∧
      ∀ q ∈ db.peerTokens, q.tokenId ≠ some t := by
    intro r hr
    rw [htokens] at hr
    rcases List.mem_append.mp hr with hr | hr
    · obtain ⟨q, hq, rfl⟩ := List.mem_map.mp hr
      exact .inl ⟨q, hq, hf q⟩
    · rcases hrows with rfl | ⟨q, t, rfl, hnew⟩
      · cases hr
      · rw [List.mem_singleton.mp hr]
        exact .inr ⟨t, rfl, hnew⟩
  refine ⟨hpeers, fun r hr t ht _ => ⟨f r, hold r hr, (hf r).1.trans ht, (hf r).2⟩, fun hids =>
    ⟨fun r hr q hq t hrt hqt => ?_, fun r hr => ?_⟩⟩
  · rcases hcases r hr with ⟨r', hr', hrid, hrpeer⟩ | ⟨s, hrows', hrs, -, hfree⟩ <;>
      rcases hcases q hq with ⟨q', hq', hqid, hqpeer⟩ | ⟨s', hrows'', hqs, -, hfree'⟩
    · rw [hrpeer, hqpeer]
      exact hids.unique r' hr' q' hq' t (hrid.symm.trans hrt) (hqid.symm.trans hqt)
    · exact absurd (hrid.symm.trans (hrt.trans (hqt.symm.trans hqs))) (hfree' r' hr')
    · exact absurd (hqid.symm.trans (hqt.trans (hrt.symm.trans hrs))) (hfree q' hq')
    · cases hrows'.symm.trans hrows''
      rfl
  · rcases hcases r hr with ⟨q, hq, hid, -⟩ | ⟨t, -, ht, hne, -⟩
    · rw [hid]
      exact hids.named q hq
    · rw [ht]
      exact fun h => hne (Option.some.inj h)

/-- No id that is taken. -/
theorem free_of_tokenTaken {digest tokenId : Str} (h : Raft.tokenTaken db digest tokenId = false) :
    ∀ q ∈ db.peerTokens, q.tokenId ≠ some tokenId := by
  intro q hq hid
  have hany : Raft.tokenTaken db digest tokenId = true :=
    List.any_eq_true.mpr ⟨q, hq, by simp [hid]⟩
  rw [hany] at h
  cases h

theorem Presented.mono (h : Presented env c log peer) (hlog : ∀ v ∈ log, v ∈ log') :
    Presented env c log' peer := by
  obtain ⟨v, hv, hcheck⟩ := h
  exact ⟨v, hlog v hv, hcheck⟩

/-! ## The checks -/

theorem fullToken_of_scopeOf {token : Val}
    (h : scopeOf env now token (db.peerTokens.filter (·.peerId = peer)) = .ok (some (lit "full"))) :
    FullToken env db now peer token := by
  obtain ⟨row, hrow, hdigest, hlive, hscope⟩ := Admin.scopeOf_some h
  obtain ⟨hmem, hpeer⟩ := List.mem_filter.mp hrow
  exact ⟨row, hmem, of_decide_eq_true hpeer, hlive, hscope.symm, hdigest⟩

theorem fullToken_of_tokenScope {token : Val}
    (h : tokenScope env db now peer token = .ok (some (lit "full"))) :
    FullToken env db now peer token := by
  unfold tokenScope at h
  split_ifs at h
  · cases h
  · obtain ⟨_, -, hscope⟩ := bind_eq_ok.mp h
    exact fullToken_of_scopeOf hscope

theorem fullToken_of_agentScope {agent token : Val}
    (h : agentScope env db now agent token = .ok (some (lit "full"))) :
    ∃ name, textParam env agent = .ok (some name) ∧ FullToken env db now name token := by
  unfold agentScope at h
  split_ifs at h
  · cases h
  · obtain ⟨param, hparam, hscope⟩ := bind_eq_ok.mp h
    cases param with
    | none => cases hscope
    | some name => exact ⟨name, hparam, fullToken_of_scopeOf hscope⟩

theorem fullToken_of_checkFull {v : Val} (h : checkFull cfg db r now v = .ok ()) :
    ∃ name, textParam cfg.env v = .ok (some name) ∧
      FullToken cfg.env db now name (.str r.bearer) := by
  unfold checkFull at h
  obtain ⟨scope, hscope, hguard⟩ := bind_eq_ok.mp h
  rw [guardOr_eq_ok.mp hguard] at hscope
  exact fullToken_of_agentScope hscope

theorem dictGet_of_requireKey {body : Dict} {field : String} {v : Val}
    (h : requireKey body field = .ok v) : dictGet (lit field) body = some v := by
  unfold requireKey at h
  split at h
  · next w hw =>
    cases h
    exact hw
  · cases h

theorem fullToken_of_checkAgent (h : checkAgent cfg db r now = .ok ()) :
    ∃ v name, dictGet (lit "agent_id") r.body = some v ∧ textParam cfg.env v = .ok (some name) ∧
      FullToken cfg.env db now name (requestToken r) := by
  unfold checkAgent at h
  obtain ⟨v, hv, h⟩ := bind_eq_ok.mp h
  obtain ⟨scope, hscope, hguard⟩ := bind_eq_ok.mp h
  rw [guardOr_eq_ok.mp hguard] at hscope
  obtain ⟨name, hname, hfull⟩ := fullToken_of_agentScope hscope
  exact ⟨v, name, dictGet_of_requireKey hv, hname, hfull⟩

/-! ## In whose name a request acts -/

/-- The body of an acknowledgement. -/
def HttpCall.ackBody : HttpCall → Dict
  | .ack r => r.body
  | _ => []

/-- The peer that the body of an acknowledgement names. -/
def NamesAgent (env : Env) (body : Dict) (peer : Str) : Prop :=
  ∃ v, dictGet (lit "agent_id") body = some v ∧ textParam env v = .ok (some peer)

/-- In whose name a request acts once it has been checked. -/
def HttpPhase.Acts (env : Env) (c : HttpCall) (peer : Str) : HttpPhase → Prop
  | .events (.probe a) => a.source = peer
  | .events (.gate a _) => a.source = peer
  | .events (.insert a _) => a.source = peer
  | .events (.send a _ _) => a.source = peer
  | .ack .lookup => NamesAgent env c.ackBody peer
  | .ack (.write _) => NamesAgent env c.ackBody peer
  | .addToken (.lookup v) => textParam env v = .ok (some peer)
  | .addToken (.insert t) => t.peer = peer
  | .revokeToken (.list v) => textParam env v = .ok (some peer)
  | .revokeToken (.find v _) => textParam env v = .ok (some peer)
  | .revokeToken (.revoke v _ _) => textParam env v = .ok (some peer)
  | _ => False

theorem acts_eventChecked {a : EventArgs}
    (h : HttpPhase.Acts env c peer (.events (eventChecked cfg a))) : a.source = peer := by
  unfold eventChecked at h
  split at h
  · exact False.elim h
  · split at h
    · exact h
    · split_ifs at h <;> exact h

theorem eventStep_acts (hauth : authRequired db = true) {p : EventPhase}
    (h : HttpPhase.Acts cfg.env c peer (.events (eventStep cfg r now db p).2)) :
    HttpPhase.Acts cfg.env c peer (.events p) ∨
      HttpPhase.Checks (.events p) ∧ FullToken cfg.env db now peer (requestToken r) := by
  cases p with
  | start =>
    -- with peers in the ledger the token comes next
    simp only [eventStep] at h
    split at h
    · exact False.elim h
    · rw [if_pos hauth] at h
      exact False.elim h
  | token a =>
    simp only [eventStep] at h
    split at h
    · exact False.elim h
    · next scope hscope =>
      by_cases hfull : scope = some (lit "full")
      · simp only [if_pos hfull] at h
        rw [← acts_eventChecked h]
        exact .inr ⟨trivial, fullToken_of_tokenScope (hfull ▸ hscope)⟩
      · simp only [if_neg hfull] at h
        exact False.elim h
  | probe a =>
    simp only [eventStep] at h
    split at h
    · exact False.elim h
    · exact .inl h
  | gate a retry =>
    simp only [eventStep] at h
    split_ifs at h
    · exact False.elim h
    · exact .inl h
  | insert a q =>
    left
    simp only [eventStep] at h
    unfold eventInserted at h
    split at h
    · exact False.elim h
    · exact False.elim h
    · exact h
  | send a fed family =>
    simp only [eventStep] at h
    split at h <;> exact False.elim h
  | done reply => exact False.elim h

theorem ackStep_acts (hauth : authRequired db = true) {q : AckCall} {p : AckPhase}
    (h : HttpPhase.Acts cfg.env (.ack q) peer (.ack (ackStep cfg q now db p).2)) :
    HttpPhase.Acts cfg.env (.ack q) peer (.ack p) ∨
      HttpPhase.Checks (.ack p) ∧ FullToken cfg.env db now peer (requestToken q.toRequest) := by
  cases p with
  | start =>
    simp only [ackStep, if_pos hauth] at h
    exact False.elim h
  | token =>
    simp only [ackStep] at h
    split at h
    · exact False.elim h
    · next hcheck =>
      have hnames : NamesAgent cfg.env q.body peer := by
        unfold ackChecked at h
        split at h <;> exact h
      -- the check and the write read the same key of the body
      obtain ⟨v, name, hv, hname, hfull⟩ := fullToken_of_checkAgent hcheck
      obtain ⟨v', hv', hpeer⟩ := hnames
      cases hv.symm.trans hv'
      cases hname.symm.trans hpeer
      exact .inr ⟨trivial, hfull⟩
  | lookup =>
    left
    simp only [ackStep] at h
    split at h
    · exact h
    · split at h
      · exact False.elim h
      · exact h
  | write path =>
    simp only [ackStep] at h
    split at h
    · exact False.elim h
    · split at h <;> exact False.elim h
  | hint => exact False.elim h
  | done reply => exact False.elim h

theorem lookupDevice_ok {q : TokenCall} {v : Val} {t : NewToken}
    (h : lookupDevice cfg db q v = .ok t) : textParam cfg.env v = .ok (some t.peer) := by
  unfold lookupDevice at h
  obtain ⟨label, -, h⟩ := bind_eq_ok.mp h
  obtain ⟨_, -, h⟩ := bind_eq_ok.mp h
  obtain ⟨_, -, h⟩ := bind_eq_ok.mp h
  obtain ⟨scope, -, h⟩ := bind_eq_ok.mp h
  obtain ⟨param, hparam, h⟩ := bind_eq_ok.mp h
  cases param with
  | none => cases h
  | some name =>
    obtain ⟨_, -, h⟩ := bind_eq_ok.mp h
    cases h
    exact hparam

theorem deviceStep_acts (hauth : authRequired db = true) {q : TokenCall} {p : DevicePhase}
    (h : HttpPhase.Acts cfg.env c peer (.addToken (deviceStep cfg q now db p).2)) :
    HttpPhase.Acts cfg.env c peer (.addToken p) ∨
      HttpPhase.Checks (.addToken p) ∧ FullToken cfg.env db now peer (.str q.bearer) := by
  cases p with
  | start =>
    simp only [deviceStep] at h
    split at h
    · exact False.elim h
    · rw [if_pos hauth] at h
      exact False.elim h
  | token v =>
    simp only [deviceStep] at h
    split at h
    · exact False.elim h
    · next hcheck =>
      obtain ⟨name, hname, hfull⟩ := fullToken_of_checkFull hcheck
      cases hname.symm.trans h
      exact .inr ⟨trivial, hfull⟩
  | lookup v =>
    left
    simp only [deviceStep] at h
    split at h
    · exact False.elim h
    · next t ht =>
      have hpeer : t.peer = peer := h
      rw [← hpeer]
      exact lookupDevice_ok ht
  | insert t =>
    simp only [deviceStep] at h
    split at h <;> exact False.elim h
  | done reply => exact False.elim h

theorem revokeStep_acts (hauth : authRequired db = true) {p : RevokePhase}
    (h : HttpPhase.Acts cfg.env c peer (.revokeToken (revokeStep cfg r now db p).2)) :
    HttpPhase.Acts cfg.env c peer (.revokeToken p) ∨
      HttpPhase.Checks (.revokeToken p) ∧ FullToken cfg.env db now peer (.str r.bearer) := by
  cases p with
  | start =>
    simp only [revokeStep] at h
    split at h
    · exact False.elim h
    · rw [if_pos hauth] at h
      exact False.elim h
  | token v =>
    simp only [revokeStep] at h
    split at h
    · exact False.elim h
    · next hcheck =>
      obtain ⟨name, hname, hfull⟩ := fullToken_of_checkFull hcheck
      cases hname.symm.trans h
      exact .inr ⟨trivial, hfull⟩
  | list v =>
    left
    simp only [revokeStep] at h
    split at h
    · exact False.elim h
    · exact h
  | find v tokenId =>
    left
    simp only [revokeStep] at h
    split at h
    · exact False.elim h
    · exact h
  | revoke v row t =>
    simp only [revokeStep] at h
    split at h
    · exact False.elim h
    · split at h <;> exact False.elim h
  | done reply => exact False.elim h

/-- A request comes to act for a peer where it presents a live full token of it. -/
theorem httpStep_acts (hauth : authRequired db = true) {p : HttpPhase}
    (h : (httpStep cfg c now db p).2.Acts cfg.env c peer) :
    p.Acts cfg.env c peer ∨ p.Checks ∧ FullToken cfg.env db now peer c.token := by
  unfold httpStep at h
  split at h
  · exact eventStep_acts hauth h
  · exact ackStep_acts hauth h
  · split at h <;> exact False.elim h
  · split at h <;> exact False.elim h
  · exact deviceStep_acts hauth h
  · exact revokeStep_acts hauth h
  · exact False.elim h
  · exact .inl h

/-! ## What a request has found -/

/-- The token belongs to the peer that the value names. -/
def Owns (env : Env) (db : Db) (v : Val) (t : Str) : Prop :=
  t ≠ [] ∧ ∃ name, textParam env v = .ok (some name) ∧
    ∃ row ∈ db.peerTokens, row.tokenId = some t ∧ row.peerId = name

/-- What got a request to where it is. -/
def HttpPhase.Holds (cfg : ServerConfig) (c : HttpCall) (db : Db) : HttpPhase → Prop
  -- the lookup has found the agent of the body in the address of the row
  | .ack (.write (.federated inb _ agentId _ _)) =>
    dictGet (lit "agent_id") c.ackBody = some (.str agentId) ∧ agentId = localPart inb.target
  | .inbox (.receive q) =>
    ∃ r fed, c = .inbox r ∧ cfg.fed = some fed ∧ Exchange.Admitted fed r.raw q
  | .revokeToken (.find v (.str t)) => Owns cfg.env db v t
  | .revokeToken (.revoke v _ t) => Owns cfg.env db v t
  | _ => True

theorem Owns.provisions {v : Val} {t : Str} (h : Owns env db v t) (hdb : Provisions db db') :
    Owns env db' v t := by
  obtain ⟨hne, name, hname, row, hrow, ht, hpeer⟩ := h
  obtain ⟨row', hrow', ht', hpeer'⟩ := hdb.tokens row hrow t ht hne
  exact ⟨hne, name, hname, row', hrow', ht', hpeer'.trans hpeer⟩

theorem HttpPhase.Holds.provisions {p : HttpPhase} (h : p.Holds cfg c db) (hdb : Provisions db db') :
    p.Holds cfg c db' := by
  cases p with
  | revokeToken p =>
    cases p with
    | find v tokenId =>
      cases tokenId with
      | str t => exact Owns.provisions h hdb
      | _ => trivial
    | revoke v row t => exact Owns.provisions h hdb
    | _ => trivial
  | ack p =>
    cases p with
    | write path => cases path <;> exact h
    | _ => trivial
  | inbox p => cases p <;> exact h
  | _ => trivial

theorem ackStep_holds {q : AckCall} (p : AckPhase) :
    HttpPhase.Holds cfg (.ack q) db' (.ack (ackStep cfg q now db p).2) := by
  cases p with
  | start =>
    simp only [ackStep]
    split_ifs
    · trivial
    · unfold ackChecked
      split <;> trivial
  | token =>
    simp only [ackStep]
    split
    · trivial
    · unfold ackChecked
      split <;> trivial
  | lookup =>
    simp only [ackStep]
    split
    · trivial
    · next fed hfed =>
      split
      · trivial
      · next path hpath =>
        cases path with
        | localPath => trivial
        | federated inb eventId agentId ackType sigHash =>
          obtain ⟨e, t, -, hagent, -, hlookup⟩ := readAck_federated hpath
          obtain ⟨-, -, -, hlocal, -⟩ := ackLookup_federated hlookup
          exact ⟨hagent, hlocal⟩
  | write path =>
    simp only [ackStep]
    split
    · trivial
    · split <;> trivial
  | hint => trivial
  | done reply => trivial

theorem inboxStep_holds {fed : Runtime} {q : InboxCall} (hfed : cfg.fed = some fed) (p : InboxPhase) :
    HttpPhase.Holds cfg (.inbox q) db' (.inbox (inboxStep cfg.env fed q now db p).2) := by
  cases p with
  | start =>
    simp only [inboxStep, inboxChecks]
    split_ifs
    · trivial
    · split
      · trivial
      · next envelope hparse =>
        split
        · trivial
        · next p hpass =>
          exact ⟨q, fed, rfl, hfed, Exchange.admitted_of_admitInbound hparse hpass⟩
  | receive p =>
    simp only [inboxStep]
    split <;> trivial
  | classify p seen =>
    simp only [inboxStep]
    split
    · trivial
    · split_ifs <;> trivial
  | deliver rows reply =>
    cases rows with
    | nil => trivial
    | cons row rows =>
      simp only [inboxStep]
      split <;> trivial
  | _ => trivial

/-- What the check of the owner has found. -/
theorem owns_of_checkOwner (hids : TokenIds db) {v tokenId : Val}
    (h : checkOwner cfg.env db r v = .ok tokenId) :
    HttpPhase.Holds cfg c db (.revokeToken (.find v tokenId)) := by
  unfold checkOwner at h
  obtain ⟨rows, hrows, h⟩ := bind_eq_ok.mp h
  obtain ⟨x, -, h⟩ := bind_eq_ok.mp h
  obtain ⟨_, -, h⟩ := bind_eq_ok.mp h
  obtain ⟨_, hnamed, h⟩ := bind_eq_ok.mp h
  cases h
  have hnames := guardOr_eq_ok.mp hnamed
  cases tokenId with
  | str t =>
    unfold peerTokenRows at hrows
    obtain ⟨param, hparam, hrows⟩ := bind_eq_ok.mp hrows
    obtain ⟨row, hrow, ht⟩ := List.any_eq_true.mp hnames
    have htoken : row.tokenId = some t := of_decide_eq_true ht
    cases param with
    | none =>
      cases hrows
      exact absurd hrow List.not_mem_nil
    | some name =>
      cases hrows
      obtain ⟨hmem, hpeer⟩ := List.mem_filter.mp hrow
      -- `None` names the rows without an id, and no row has the empty one
      refine ⟨fun hempty => hids.named row hmem (hempty ▸ htoken), name, hparam, row, hmem, htoken,
        of_decide_eq_true hpeer⟩
  | _ => trivial

theorem revokeStep_holds (hids : TokenIds db) {p : RevokePhase}
    (hp : HttpPhase.Holds cfg c db (.revokeToken p)) :
    HttpPhase.Holds cfg c db (.revokeToken (revokeStep cfg r now db p).2) := by
  cases p with
  | start =>
    simp only [revokeStep]
    split
    · trivial
    · split_ifs <;> trivial
  | token v =>
    simp only [revokeStep]
    split <;> trivial
  | list v =>
    simp only [revokeStep]
    split
    · trivial
    · next tokenId hcheck => exact owns_of_checkOwner hids hcheck
  | find v tokenId =>
    simp only [revokeStep]
    split
    · trivial
    · next row t hfind =>
      unfold findRevoked at hfind
      split at hfind
      · split at hfind
        · cases hfind
        · cases hfind
          exact hp
      · cases hfind
  | revoke v row t =>
    simp only [revokeStep]
    split
    · trivial
    · split <;> trivial
  | done reply => trivial

theorem httpStep_holds (hids : TokenIds db) {p : HttpPhase} (hp : p.Holds cfg c db) :
    (httpStep cfg c now db p).2.Holds cfg c db := by
  unfold httpStep
  split
  · trivial
  · exact ackStep_holds _
  · split
    · next fed hfed => exact inboxStep_holds hfed _
    · trivial
  · split <;> trivial
  · trivial
  · exact revokeStep_holds hids hp
  · trivial
  · exact hp

/-! ## What a step writes -/

theorem intact_of_rejectOnly (h : RejectOnly db db') : Intact db db' ∧ Provisions db db' := by
  rcases h with rfl | ⟨row, -, rfl⟩
  · exact ⟨.refl _, .refl _⟩
  · exact ⟨⟨rfl, rfl, rfl, rfl, rfl⟩, .of_eq rfl rfl⟩

/-- An insertion rejects, or commits a row of its source. -/
theorem sqliteStep_rows (env : Env) (a : EventArgs) (now : Time) (db : Db) (p : Backends.CallPhase) :
    RejectOnly db (Backends.sqliteStep env a now db p).1 ∨ ∃ row,
      Committed env (Backends.atTime a now) db row (Backends.sqliteStep env a now db p).1 := by
  cases p with
  | start =>
    simp only [Backends.sqliteStep]
    split_ifs with hsourced
    · exact .inl (reject_cases env (Backends.atTime a now) db "missing_source_ref"
        "command requires source_ref").1
    · rcases writeEvent_cases env (Backends.atTime a now) db hsourced with ⟨p, hp, -⟩ |
        ⟨row, db', hp, hc⟩
      · rw [hp]
        exact .inl (.refl db)
      · rw [hp]
        exact .inr ⟨row, hc⟩
  | ended p => exact .inl (finishEvent_cases env (Backends.atTime a now) db p)
  | returned result => exact .inl (.refl db)

theorem eventStep_writes (cfg : ServerConfig) (r : Request) (now : Time) (db : Db) (p : EventPhase) :
    WritesAs cfg (.events r) (HttpPhase.Acts cfg.env (.events r) · (.events p)) db
        (eventStep cfg r now db p).1 ∧ Provisions db (eventStep cfg r now db p).1 := by
  have hsame : ∀ ok, WritesAs cfg (.events r) ok db db ∧ Provisions db db :=
    fun ok => ⟨(Intact.refl db).writes, .refl db⟩
  cases p with
  | start =>
    simp only [eventStep]
    split <;> exact hsame _
  | token a =>
    simp only [eventStep]
    split <;> exact hsame _
  | probe a =>
    simp only [eventStep]
    split <;> exact hsame _
  | gate a retry => exact hsame _
  | insert a q =>
    simp only [eventStep]
    rcases sqliteStep_rows cfg.env a now db q with hreject | ⟨row, hc⟩
    · obtain ⟨hintact, hprovisions⟩ := intact_of_rejectOnly hreject
      exact ⟨hintact.writes, hprovisions⟩
    · have hsource : row.source = a.source := congrArg EventRow.source hc.columns
      have hframe := hc.frame
      refine ⟨⟨fun q hq => ?_, fun q hq => .inl ?_, fun q hq => .inl ?_, fun q hq => .inl ?_,
        fun q hq => .inl ?_, .inr (.inl ⟨a.source, rfl⟩)⟩, .of_eq ?_ ?_⟩
      · rw [hc.events] at hq
        rcases List.mem_append.mp hq with hold | hnew
        · exact .inl hold
        · rw [List.mem_singleton.mp hnew]
          exact .inr (.inl ⟨rfl, hsource.symm⟩)
      · rwa [hframe] at hq
      · rwa [hframe] at hq
      · rwa [hframe] at hq
      · rwa [hframe] at hq
      · rw [hframe]
      · rw [hframe]
  | send a fed family =>
    simp only [eventStep]
    split
    · exact hsame _
    · next db' reply hsend =>
      rcases federationSend_cases hsend with rfl | ⟨s, raw, hqueued, -, hdb⟩
      · exact hsame _
      · cases hdb
        have hsource : s.source = a.source := (checkSend_ok hqueued.checks).source
        refine ⟨⟨fun _ => .inl, fun _ => .inl, fun _ => .inl, fun q hq => ?_, fun _ => .inl,
          .inr (.inl ⟨a.source, rfl⟩)⟩, .of_eq rfl rfl⟩
        rcases List.mem_append.mp hq with hold | hnew
        · exact .inl hold
        · rw [List.mem_singleton.mp hnew]
          exact .inr ⟨rfl, hsource.symm⟩
  | done reply => exact hsame _

/-- An acknowledgement changes rows of its agent only. -/
theorem upsertAck_rows (db : Db) (eventId agent : Str) (ackType : AckType) (now : Time)
    (detail : Val) : ∀ row ∈ (upsertAck db eventId agent ackType now detail).acks,
      row ∈ db.acks ∨ row.agentId = agent := by
  intro row hrow
  simp only [upsertAck] at hrow
  split_ifs at hrow
  · obtain ⟨old, hold, rfl⟩ := List.mem_map.mp hrow
    split_ifs with hkey
    · exact .inr hkey.2.1
    · exact .inl hold
  · rcases List.mem_append.mp hrow with hold | hnew
    · exact .inl hold
    · rw [List.mem_singleton.mp hnew]
      exact .inr rfl

theorem writes_of_acks {q : AckCall} {p : AckPhase} {name : Str}
    (hacts : HttpPhase.Acts cfg.env (.ack q) name (.ack p))
    (hacks : ∀ row ∈ db'.acks, row ∈ db.acks ∨ row.agentId = name)
    (hreceipts : ∀ row ∈ db'.federationReceiptOut, row ∈ db.federationReceiptOut ∨
      localPart row.agent = name)
    (hframe : db' = { db with acks := db'.acks, federationReceiptOut := db'.federationReceiptOut }) :
    WritesAs cfg (.ack q) (HttpPhase.Acts cfg.env (.ack q) · (.ack p)) db db' ∧ Provisions db db' := by
  refine ⟨⟨fun row hrow => .inl ?_, fun row hrow => ?_, fun row hrow => .inl ?_,
    fun row hrow => .inl ?_, fun row hrow => ?_, .inr (.inl ⟨name, hacts⟩)⟩, .of_eq ?_ ?_⟩
  · rwa [hframe] at hrow
  · refine (hacks row hrow).imp_right fun hname => ⟨rfl, ?_⟩
    rw [hname]
    exact hacts
  · rwa [hframe] at hrow
  · rwa [hframe] at hrow
  · refine (hreceipts row hrow).imp_right fun hname => ⟨rfl, ?_⟩
    rw [hname]
    exact hacts
  · rw [hframe]
  · rw [hframe]

theorem storeAck_writes {q : AckCall} {path : AckPath}
    (hp : HttpPhase.Holds cfg (.ack q) db (.ack (.write path)))
    (h : storeAck cfg db q.toRequest now path = .ok db') :
    WritesAs cfg (.ack q) (HttpPhase.Acts cfg.env (.ack q) · (.ack (.write path))) db db' ∧
      Provisions db db' := by
  cases path with
  | localPath =>
    obtain ⟨eventId, agent, ackType, detail, hnames, -, -, rfl⟩ := storeAck_local h
    exact writes_of_acks hnames.agent (upsertAck_rows _ _ _ _ _ _) (fun row hrow => .inl hrow) rfl
  | federated inb eventId agentId ackType sigHash =>
    obtain ⟨hbody, hlocal⟩ := hp
    simp only [storeAck] at h
    split at h
    · cases h
      exact ⟨(Intact.refl db).writes, .refl db⟩
    · next fed hfed =>
      unfold ackWrite at h
      obtain ⟨_, hclean, h⟩ := bind_eq_ok.mp h
      unfold ackWithReceiptIntent at h
      obtain ⟨db₁, hwrite, h⟩ := bind_eq_ok.mp h
      obtain ⟨_, _, hid, hname, -, rfl⟩ := writeAck_ok hwrite
      cases hid
      cases hname
      -- the text of the body is the parameter of the statement
      have hacts : HttpPhase.Acts cfg.env (.ack q) agentId
          (.ack (.write (.federated inb eventId agentId ackType sigHash))) :=
        ⟨_, hbody, Adapter.textParam_str (guardOr_eq_ok.mp hclean)⟩
      split_ifs at h
      · cases h
        exact writes_of_acks hacts (upsertAck_rows _ _ _ _ _ _) (fun row hrow => .inl hrow) rfl
      · cases h
        refine writes_of_acks hacts (upsertAck_rows _ _ _ _ _ _) (fun row hrow => ?_) rfl
        rcases List.mem_append.mp hrow with hold | hnew
        · exact .inl hold
        · rw [List.mem_singleton.mp hnew]
          exact .inr hlocal.symm

theorem intact_hints (woken : NotificationRow → Bool) (db : Db) (cursor : Option HintCursor) :
    Intact db (hintNotifications woken db cursor).1 ∧
      Provisions db (hintNotifications woken db cursor).1 := by
  have hframe := (hintPages_marks woken 50 db cursor).frame
  unfold hintNotifications
  rw [hframe]
  exact ⟨⟨rfl, rfl, rfl, rfl, rfl⟩, .of_eq rfl rfl⟩

theorem ackStep_writes {q : AckCall} {p : AckPhase} (hp : HttpPhase.Holds cfg (.ack q) db (.ack p)) :
    WritesAs cfg (.ack q) (HttpPhase.Acts cfg.env (.ack q) · (.ack p)) db (ackStep cfg q now db p).1 ∧
      Provisions db (ackStep cfg q now db p).1 := by
  have hsame : ∀ ok, WritesAs cfg (.ack q) ok db db ∧ Provisions db db :=
    fun ok => ⟨(Intact.refl db).writes, .refl db⟩
  cases p with
  | start => exact hsame _
  | token =>
    simp only [ackStep]
    split <;> exact hsame _
  | lookup =>
    simp only [ackStep]
    split
    · exact hsame _
    · split <;> exact hsame _
  | write path =>
    simp only [ackStep]
    split
    · exact hsame _
    · next db' hstore =>
      have hwrites := storeAck_writes hp hstore
      split <;> exact hwrites
  | hint =>
    obtain ⟨hintact, hprovisions⟩ := intact_hints q.woken db q.cursor
    exact ⟨hintact.writes, hprovisions⟩
  | done reply => exact hsame _

theorem inboxStep_writes {fed : Runtime} {q : InboxCall} {p : InboxPhase}
    (hfed : cfg.fed = some fed) (hp : HttpPhase.Holds cfg (.inbox q) db (.inbox p)) :
    WritesAs cfg (.inbox q) ok db (inboxStep cfg.env fed q now db p).1 ∧
      Provisions db (inboxStep cfg.env fed q now db p).1 := by
  rcases Exchange.inboxStep_effect cfg.env fed q now db p with ⟨x, rfl, hs⟩ | ⟨rows, hrows⟩ | hd
  · obtain ⟨q', fed', hcall, hfed', env, rec, hparse, hlookup, hverify, hparams, hfamily⟩ := hp
    cases hcall
    cases hfed.symm.trans hfed'
    have hadmitted : Exchange.Admitted fed q.raw x :=
      ⟨env, rec, hparse, hlookup, hverify, hparams, hfamily⟩
    obtain ⟨f, hvalid, hf⟩ := hadmitted.reads
    obtain ⟨agent, haddress⟩ := hvalid.source
    obtain ⟨seq, hevents⟩ := hs.event
    -- the stored row shows the address that the envelope was signed with
    have horigin : rec.family = f.origin := by
      rw [Exchange.lookupSigner_family hlookup, ← hf.origin, hparams]
      rfl
    have hsigned : SignedBy cfg (.inbox q) (localRow db x seq now) := by
      refine ⟨q, fed, env, rec, agent, db, seq, now, rfl, hfed, hparse, hlookup, hverify,
        by rw [hparams], ?_⟩
      rw [horigin]
      show IsAddress x.sourceAddr agent f.origin
      rw [hf.source]
      exact haddress
    have hframe := hs.frame
    refine ⟨⟨fun row hrow => ?_, fun row hrow => .inl ?_, fun row hrow => .inl ?_,
      fun row hrow => .inl ?_, fun row hrow => .inl ?_, .inr (.inr ⟨_, hsigned⟩)⟩, .of_eq ?_ ?_⟩
    · rw [hevents] at hrow
      rcases List.mem_append.mp hrow with hold | hnew
      · exact .inl hold
      · rw [List.mem_singleton.mp hnew]
        exact .inr (.inr hsigned)
    · rwa [hframe] at hrow
    · rwa [hframe] at hrow
    · rwa [hframe] at hrow
    · rwa [hframe] at hrow
    · rw [hframe]
    · rw [hframe]
  · rw [hrows]
    exact ⟨Intact.writes ⟨rfl, rfl, rfl, rfl, rfl⟩, .of_eq rfl rfl⟩
  · rw [hd.frame]
    exact ⟨Intact.writes ⟨rfl, rfl, rfl, rfl, rfl⟩, .of_eq rfl rfl⟩

theorem receiptsStep_intact (fed : Runtime) (q : ReceiptsCall) (now : Time) (db : Db)
    (p : ReceiptsPhase) : Intact db (receiptsStep fed q now db p).1 ∧
      Provisions db (receiptsStep fed q now db p).1 := by
  cases p with
  | record x =>
    simp only [receiptsStep]
    split
    · exact ⟨.refl db, .refl db⟩
    · next db' status hrecord =>
      rw [recordReceiptIn_eq] at hrecord
      split at hrecord
      · cases hrecord
        unfold mergeReceipt
        split_ifs <;> exact ⟨⟨rfl, rfl, rfl, rfl, rfl⟩, .of_eq rfl rfl⟩
      · cases hrecord
        unfold storeReceipt insertNotification mergeReceipt withOriginal
        split_ifs <;> exact ⟨⟨rfl, rfl, rfl, rfl, rfl⟩, .of_eq rfl rfl⟩
  | hint reply => exact intact_hints q.woken db q.cursor
  | _ => exact ⟨.refl db, .refl db⟩

theorem hintsStep_intact (cfg : ServerConfig) (r : Request) (now : Time) (db : Db) (p : HintsPhase) :
    Intact db (hintsStep cfg r now db p).1 ∧ Provisions db (hintsStep cfg r now db p).1 := by
  have hsame : Intact db db ∧ Provisions db db := ⟨.refl db, .refl db⟩
  cases p with
  | start =>
    simp only [hintsStep]
    split
    · exact hsame
    · split
      · exact hsame
      · split <;> exact hsame
  | token ids acker =>
    simp only [hintsStep]
    split <;> exact hsame
  | mark ids acker =>
    simp only [hintsStep]
    split
    · exact hsame
    · exact ⟨⟨rfl, rfl, rfl, rfl, rfl⟩, .of_eq rfl rfl⟩
  | done reply => exact hsame

theorem deviceStep_writes (cfg : ServerConfig) (q : TokenCall) (now : Time) (db : Db)
    (p : DevicePhase) : WritesAs cfg (.addToken q) (HttpPhase.Acts cfg.env (.addToken q) · (.addToken p))
        db (deviceStep cfg q now db p).1 ∧ Provisions db (deviceStep cfg q now db p).1 := by
  have hsame : ∀ ok, WritesAs cfg (.addToken q) ok db db ∧ Provisions db db :=
    fun ok => ⟨(Intact.refl db).writes, .refl db⟩
  cases p with
  | start =>
    simp only [deviceStep]
    split <;> exact hsame _
  | token v =>
    simp only [deviceStep]
    split <;> exact hsame _
  | lookup v =>
    simp only [deviceStep]
    split <;> exact hsame _
  | insert t =>
    simp only [deviceStep]
    split
    · exact hsame _
    · next db' hinsert =>
      obtain ⟨digest, label, -, -, htaken, -, rfl⟩ := insertDevice_ok hinsert
      refine ⟨⟨fun _ => .inl, fun _ => .inl, fun row hrow => ?_, fun _ => .inl, fun _ => .inl,
        .inr (.inl ⟨t.peer, rfl⟩)⟩, ?_⟩
      · rcases List.mem_append.mp hrow with hold | hnew
        · exact .inl hold
        · rw [List.mem_singleton.mp hnew]
          exact .inr ⟨.inl rfl, rfl⟩
      · exact tokens_provided (f := id) (fun r => ⟨rfl, rfl⟩) id
          (congrArg (· ++ _) (List.map_id _).symm)
          (.inr ⟨_, _, rfl, rfl, q.drawn.tokenId_ne, free_of_tokenTaken htaken⟩)
  | done reply => exact hsame _

theorem revokeStep_writes (hids : TokenIds db) {p : RevokePhase}
    (hp : HttpPhase.Holds cfg (.revokeToken r) db (.revokeToken p)) :
    WritesAs cfg (.revokeToken r) (HttpPhase.Acts cfg.env (.revokeToken r) · (.revokeToken p)) db
        (revokeStep cfg r now db p).1 ∧ Provisions db (revokeStep cfg r now db p).1 := by
  have hsame : ∀ ok, WritesAs cfg (.revokeToken r) ok db db ∧ Provisions db db :=
    fun ok => ⟨(Intact.refl db).writes, .refl db⟩
  cases p with
  | start =>
    simp only [revokeStep]
    split <;> exact hsame _
  | token v =>
    simp only [revokeStep]
    split <;> exact hsame _
  | list v =>
    simp only [revokeStep]
    split <;> exact hsame _
  | find v tokenId =>
    simp only [revokeStep]
    split <;> exact hsame _
  | revoke v row t =>
    obtain ⟨-, name, hname, owned, howned, ht, hpeer⟩ := hp
    simp only [revokeStep]
    split
    · exact hsame _
    · next actor hactor =>
      obtain ⟨db', ids, htxn, hrows, hframe⟩ := revokeToken_rows cfg.env row t actor now db
      rw [htxn]
      show WritesAs cfg (.revokeToken r) _ db db' ∧ Provisions db db'
      -- a row that changes has the id, and the peer of the one that was found
      have hchanged : ∃ f : TokenRow → TokenRow, db'.peerTokens = db.peerTokens.map f ∧
          ∀ x, (f x).tokenId = x.tokenId ∧ (f x).peerId = x.peerId ∧
            (f x = x ∨ x.tokenId = some t) := by
        rcases hrows with hrows | hrows
        · exact ⟨id, by rw [hrows, List.map_id], fun x => ⟨rfl, rfl, .inl rfl⟩⟩
        · refine ⟨_, hrows, fun x => ?_⟩
          split_ifs with hx
          · exact ⟨rfl, rfl, .inr hx⟩
          · exact ⟨rfl, rfl, .inl rfl⟩
      obtain ⟨f, hmap, hf⟩ := hchanged
      have hpeers : db'.peers = db.peers := by rw [hframe]
      refine ⟨⟨fun x hx => .inl ?_, fun x hx => .inl ?_, fun x hx => ?_, fun x hx => .inl ?_,
        fun x hx => .inl ?_, .inr (.inl ⟨name, hname⟩)⟩, ?_⟩
      · rwa [hframe] at hx
      · rwa [hframe] at hx
      · rw [hmap] at hx
        obtain ⟨y, hy, rfl⟩ := List.mem_map.mp hx
        obtain ⟨-, hypeer, hcases⟩ := hf y
        rcases hcases with hkept | hyt
        · rw [hkept]
          exact .inl hy
        · refine .inr ⟨.inr rfl, ?_⟩
          rw [hypeer, hids.unique y hy owned howned t hyt ht, hpeer]
          exact hname
      · rwa [hframe] at hx
      · rwa [hframe] at hx
      · exact tokens_provided (fun x => ⟨(hf x).1, (hf x).2.1⟩) (fun h => hpeers ▸ h)
          (by rw [hmap, List.append_nil]) (.inl rfl)
  | done reply => exact hsame _

/-- A step writes in the name of those the request acts for. -/
theorem httpStep_writes (hids : TokenIds db) {p : HttpPhase} (hp : p.Holds cfg c db) :
    WritesAs cfg c (p.Acts cfg.env c ·) db (httpStep cfg c now db p).1 ∧
      Provisions db (httpStep cfg c now db p).1 := by
  have hsame : ∀ ok, WritesAs cfg c ok db db ∧ Provisions db db :=
    fun ok => ⟨(Intact.refl db).writes, .refl db⟩
  unfold httpStep
  split
  · exact eventStep_writes ..
  · exact ackStep_writes hp
  · split
    · next fed hfed => exact inboxStep_writes hfed hp
    · exact hsame _
  · split
    · next fed hfed =>
      obtain ⟨hintact, hprovisions⟩ := receiptsStep_intact fed _ now db _
      exact ⟨hintact.writes, hprovisions⟩
    · exact hsame _
  · exact deviceStep_writes ..
  · exact revokeStep_writes hids hp
  · obtain ⟨hintact, hprovisions⟩ := hintsStep_intact cfg _ now db _
    exact ⟨hintact.writes, hprovisions⟩
  · exact hsame _

end Server
end ATalk
