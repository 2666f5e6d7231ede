import ATalk.Server.Attribution

/-!
# Who acknowledges a hint

The hints of an agent are acknowledged under a token of its own, of any scope, and those of the
operator under a full token of a peer.

* `Heard` : what a request has shown before it marks its hints;
* `httpStep_grows` : what a step does to the notifications;
* `httpStep_mark` : how a request comes to mark them;
* `hints_acknowledged` : the main result.
-/

namespace ATalk
namespace Server

open Text Python Sqlite ATalk.Core Federation Checks Transition Callers

/-! ## What a request shows -/

/-- The hint of the agent is acknowledged. -/
def Acked (db : Db) (intentId : Str) (agent : Option Str) : Prop :=
  ∃ row ∈ db.federationNotifications, row.intentId = intentId ∧ row.agent = agent ∧
    row.acked = true

/-- The token that a request shows for whom it acknowledges. -/
def AckerToken (env : Env) (db : Db) (now : Time) (r : Request) : Acker → Prop
  | .agent name => ∃ row ∈ db.peerTokens, row.peerId = name ∧ TokenRow.live row now = true ∧
      tokenDigest env (requestToken r) = .ok row.tokenHash
  | .operator peer => FullToken env db now peer (.str r.bearer)

/-- The request was heard: at its check it presented such a token. -/
def Heard (env : Env) (c : HttpCall) (log : List HttpVisit) (ids : List Str) (acker : Acker) : Prop :=
  ∃ r, c = .hints r ∧ ∃ v ∈ log, v.phase = .hints (.token ids acker) ∧
    AckerToken env v.before v.now r acker

/-- What a step is for the notifications. -/
def HttpPhase.act : HttpPhase → Federation.Act
  | .hints (.mark ids acker) => .acked ids acker.owner
  | _ => .other

variable {cfg : ServerConfig} {c : HttpCall} {db db' : Db} {now : Time} {env : Env} {r : Request}
  {ids : List Str} {acker : Acker} {log log' : List HttpVisit}

/-! ## What a step does -/

theorem Acked.back {act : Federation.Act} {intentId : Str} {agent : Option Str}
    (h : Acked db' intentId agent) (hgrows : Federation.Grows act db db') :
    Acked db intentId agent ∨ ∃ ids, act = .acked ids agent ∧ intentId ∈ ids := by
  obtain ⟨k, new, hrows, hflags, hnew⟩ := hgrows
  obtain ⟨row', hrow', rfl, rfl, hacked⟩ := h
  rw [hrows] at hrow'
  rcases List.mem_append.mp hrow' with hold | hfresh
  · obtain ⟨row, hrow, rfl⟩ := List.mem_map.mp hold
    rw [(hflags row).intentId, (hflags row).agent]
    rcases (hflags row).sets hacked with hbefore | hnames
    · exact .inl ⟨row, hrow, rfl, rfl, hbefore⟩
    · cases act with
      | acked ids agent =>
        obtain ⟨hid, rfl⟩ := hnames
        exact .inr ⟨ids, rfl, hid⟩
      | other => exact hnames.elim
  · -- a new notification is not acknowledged
    rw [hnew row' hfresh] at hacked
    cases hacked

theorem hintNotifications_grows (woken : NotificationRow → Bool) (db : Db)
    (cursor : Option HintCursor) : Federation.Grows .other db (hintNotifications woken db cursor).1 :=
  (hintPages_marks woken 50 db cursor).grows

theorem eventStep_grows (cfg : ServerConfig) (r : Request) (now : Time) (db : Db) (p : EventPhase) :
    Federation.Grows .other db (eventStep cfg r now db p).1 := by
  have hsame : Federation.Grows .other db db := .same _ rfl
  cases p with
  | insert a q =>
    simp only [eventStep]
    rcases sqliteStep_rows cfg.env a now db q with (hsame' | ⟨row, -, hreject⟩) | ⟨row, hc⟩
    · rw [hsame']
      exact hsame
    · rw [hreject]
      exact .same _ rfl
    · exact .same _ (by rw [hc.frame])
  | send a fed family =>
    simp only [eventStep]
    split
    · exact hsame
    · next db' reply hsend =>
      rcases federationSend_cases hsend with rfl | ⟨s, raw, -, -, hdb⟩
      · exact hsame
      · cases hdb
        exact .same _ rfl
  | start =>
    simp only [eventStep]
    split <;> exact hsame
  | token a =>
    simp only [eventStep]
    split <;> exact hsame
  | probe a =>
    simp only [eventStep]
    split <;> exact hsame
  | _ => exact hsame

theorem ackStep_grows (cfg : ServerConfig) (q : AckCall) (now : Time) (db : Db) (p : AckPhase) :
    Federation.Grows .other db (ackStep cfg q now db p).1 := by
  have hsame : Federation.Grows .other db db := .same _ rfl
  cases p with
  | write path =>
    simp only [ackStep]
    split
    · exact hsame
    · next db' hstore =>
      have hwritten : db'.federationNotifications = db.federationNotifications := by
        cases path with
        | localPath =>
          obtain ⟨_, _, _, _, -, -, -, rfl⟩ := storeAck_local hstore
          unfold upsertAck
          split_ifs <;> rfl
        | federated inb eventId agentId ackType sigHash =>
          cases hfed : cfg.fed with
          | none =>
            simp only [storeAck, hfed] at hstore
            cases hstore
            rfl
          | some fed =>
            obtain ⟨-, _, ⟨-, rfl⟩ | ⟨-, rfl⟩⟩ := storeAck_federated hfed hstore
            all_goals
              unfold upsertAck
              split_ifs <;> rfl
      split <;> exact .same _ hwritten
  | hint => exact hintNotifications_grows ..
  | lookup =>
    simp only [ackStep]
    split
    · exact hsame
    · split <;> exact hsame
  | token =>
    simp only [ackStep]
    split <;> exact hsame
  | _ => exact hsame

theorem inboxStep_grows (fed : Runtime) (q : InboxCall) (now : Time) (db : Db) (p : InboxPhase) :
    Federation.Grows .other db (inboxStep env fed q now db p).1 := by
  rcases Exchange.inboxStep_effect env fed q now db p with ⟨x, -, hs⟩ | ⟨rows, hrows⟩ | hd
  · exact .same _ (by rw [hs.frame])
  · exact .same _ (by rw [hrows])
  · exact .same _ (by rw [hd.frame])

theorem receiptsStep_grows (fed : Runtime) (q : ReceiptsCall) (now : Time) (db : Db)
    (p : ReceiptsPhase) : Federation.Grows .other db (receiptsStep fed q now db p).1 := by
  cases p with
  | record x =>
    simp only [receiptsStep]
    split
    · exact .same _ rfl
    · next db' status hrecord =>
      rw [recordReceiptIn_eq] at hrecord
      split at hrecord
      · cases hrecord
        unfold mergeReceipt
        split_ifs <;> exact .same _ rfl
      · cases hrecord
        have hmerge : (mergeReceipt (withOriginal db x now) x (originalRow db x now).id
            now).federationNotifications = db.federationNotifications := by
          unfold mergeReceipt
          split_ifs <;> rfl
        exact grows_trans (.same _ hmerge) (insertNotification_grows ..)
  | hint reply => exact hintNotifications_grows ..
  | _ => exact .same _ rfl

theorem deviceStep_grows (cfg : ServerConfig) (q : TokenCall) (now : Time) (db : Db)
    (p : DevicePhase) : Federation.Grows .other db (deviceStep cfg q now db p).1 := by
  have hsame : Federation.Grows .other db db := .same _ rfl
  cases p with
  | insert t =>
    simp only [deviceStep]
    split
    · exact hsame
    · next db' hinsert =>
      obtain ⟨digest, label, -, -, -, -, rfl⟩ := insertDevice_ok hinsert
      exact .same _ rfl
  | start =>
    simp only [deviceStep]
    split <;> exact hsame
  | token v =>
    simp only [deviceStep]
    split <;> exact hsame
  | lookup v =>
    simp only [deviceStep]
    split <;> exact hsame
  | done reply => exact hsame

theorem revokeStep_grows (cfg : ServerConfig) (r : Request) (now : Time) (db : Db)
    (p : RevokePhase) : Federation.Grows .other db (revokeStep cfg r now db p).1 := by
  have hsame : Federation.Grows .other db db := .same _ rfl
  cases p with
  | revoke v row t =>
    simp only [revokeStep]
    split
    · exact hsame
    · next actor hactor =>
      obtain ⟨db', ids, htxn, -, hframe⟩ := revokeToken_rows cfg.env row t actor now db
      rw [htxn]
      exact .same _ (by rw [hframe])
  | start =>
    simp only [revokeStep]
    split <;> exact hsame
  | token v =>
    simp only [revokeStep]
    split <;> exact hsame
  | list v =>
    simp only [revokeStep]
    split <;> exact hsame
  | find v tokenId =>
    simp only [revokeStep]
    split <;> exact hsame
  | done reply => exact hsame

theorem hintsStep_grows (cfg : ServerConfig) (r : Request) (now : Time) (db : Db) (p : HintsPhase) :
    Federation.Grows (HttpPhase.act (.hints p)) db (hintsStep cfg r now db p).1 := by
  cases p with
  | start =>
    simp only [hintsStep]
    split
    · exact .same _ rfl
    · split
      · exact .same _ rfl
      · split <;> exact .same _ rfl
  | token ids acker =>
    simp only [hintsStep]
    split <;> exact .same _ rfl
  | mark ids acker =>
    simp only [hintsStep]
    split
    · exact .same _ rfl
    · exact (ackHints_marks db ids acker.owner).grows
  | done reply => exact .same _ rfl

/-- Notifications are acknowledged by the one route, and as its request names them. -/
theorem httpStep_grows (cfg : ServerConfig) (c : HttpCall) (now : Time) (db : Db) (p : HttpPhase) :
    Federation.Grows p.act db (httpStep cfg c now db p).1 := by
  unfold httpStep
  split
  · exact eventStep_grows ..
  · exact ackStep_grows ..
  · split
    · exact inboxStep_grows ..
    · exact .same _ rfl
  · split
    · exact receiptsStep_grows ..
    · exact .same _ rfl
  · exact deviceStep_grows ..
  · exact revokeStep_grows ..
  · exact hintsStep_grows ..
  · exact .same _ rfl

/-! ## What a request has shown -/

theorem ackerToken_of_checkAcker (h : checkAcker cfg db r now acker = .ok ()) :
    AckerToken cfg.env db now r acker := by
  cases acker with
  | agent name =>
    unfold checkAcker at h
    obtain ⟨scope, hscope, hguard⟩ := bind_eq_ok.mp h
    obtain ⟨text, rfl⟩ := Option.ne_none_iff_exists'.mp (guardOr_eq_ok.mp hguard)
    unfold tokenScope at hscope
    split_ifs at hscope
    · cases hscope
    · obtain ⟨_, -, hscope⟩ := bind_eq_ok.mp hscope
      obtain ⟨row, hrow, hdigest, hlive, -⟩ := Admin.scopeOf_some hscope
      obtain ⟨hmem, hpeer⟩ := List.mem_filter.mp hrow
      exact ⟨row, hmem, of_decide_eq_true hpeer, hlive, hdigest⟩
  | operator peer =>
    obtain ⟨name, hname, hfull⟩ := fullToken_of_checkFull h
    rw [Adapter.textParam_str_eq hname] at hfull
    exact hfull

theorem Heard.mono (h : Heard env c log ids acker) (hlog : ∀ v ∈ log, v ∈ log') :
    Heard env c log' ids acker := by
  obtain ⟨r, hcall, v, hv, hheard⟩ := h
  exact ⟨r, hcall, v, hlog v hv, hheard⟩

/-- A request comes to mark its hints from its check. -/
theorem httpStep_mark (hauth : authRequired db = true) {p : HttpPhase}
    (h : (httpStep cfg c now db p).2 = .hints (.mark ids acker)) :
    p = .hints (.mark ids acker) ∨ ∃ r, c = .hints r ∧ p = .hints (.token ids acker) ∧
      AckerToken cfg.env db now r acker := by
  unfold httpStep at h
  split at h
  · cases h
  · cases h
  · split at h <;> cases h
  · split at h <;> cases h
  · cases h
  · cases h
  · next r p =>
    have hnext := HttpPhase.hints.inj h
    right
    cases p with
    | start =>
      simp only [hintsStep] at hnext
      split at hnext
      · cases hnext
      · split at hnext
        · cases hnext
        · split at hnext
          · cases hnext
          · rw [if_pos hauth] at hnext
            cases hnext
    | token ids' acker' =>
      simp only [hintsStep] at hnext
      split at hnext
      · cases hnext
      · next hcheck =>
        cases hnext
        exact ⟨r, rfl, rfl, ackerToken_of_checkAcker hcheck⟩
    | mark ids' acker' =>
      simp only [hintsStep] at hnext
      split at hnext <;> cases hnext
    | done reply => cases hnext
  · exact .inl h

/-! ## A whole run -/

/-- A request marks hints once it is heard, and acknowledged none before. -/
structure Noted (cfg : ServerConfig) (c : HttpCall) (q : HttpPhase × List HttpVisit) : Prop where
  mark : ∀ ids acker, q.1 = .hints (.mark ids acker) → Heard cfg.env c q.2 ids acker
  acks : ∀ before v rest, q.2 = before ++ v :: rest → ∀ intentId agent,
    Acked v.after intentId agent → Acked v.before intentId agent ∨
      ∃ ids acker, Heard cfg.env c before ids acker ∧ intentId ∈ ids ∧ acker.owner = agent

theorem Noted.step {q : HttpPhase × List HttpVisit} (h : Noted cfg c q) (hdb : Guarded db) :
    Noted cfg c ((httpCalls cfg).logged.step c now db q).2 := by
  have hauth : authRequired db = true := decide_eq_true hdb.peers
  refine ⟨fun ids acker hmark => ?_, fun before v rest heq intentId agent hacked => ?_⟩
  · rcases httpStep_mark hauth hmark with hold | ⟨r, hcall, hphase, htoken⟩
    · exact (h.mark ids acker hold).mono fun v hv => List.mem_append_left _ hv
    · exact ⟨r, hcall, _, List.mem_append_right _ (List.mem_singleton_self _), hphase, htoken⟩
  · rcases List.eq_nil_or_concat rest with rfl | ⟨rest', last, rfl⟩
    · obtain ⟨rfl, hlast⟩ := List.append_inj' heq rfl
      cases hlast
      rcases hacked.back (httpStep_grows cfg c now db q.1) with hold | ⟨ids, hact, hid⟩
      · exact .inl hold
      · -- the act of the step is that of its place
        right
        unfold HttpPhase.act at hact
        split at hact
        · next ids' acker hphase =>
          cases hact
          exact ⟨_, acker, h.mark _ acker hphase, hid, rfl⟩
        · cases hact
    · rw [List.concat_eq_append, ← List.cons_append, ← List.append_assoc] at heq
      exact h.acks before v rest' (List.append_inj' heq rfl).1 intentId agent hacked

theorem httpStart_ne_mark (cfg : ServerConfig) (c : HttpCall) (ids : List Str) (acker : Acker) :
    httpStart cfg c ≠ .hints (.mark ids acker) := by
  intro h
  cases c with
  | inbox r =>
    unfold httpStart at h
    split_ifs at h
  | receipts r =>
    unfold httpStart at h
    split_ifs at h
  | _ => cases h

variable {start : Db} {w : World Db HttpCall (HttpPhase × List HttpVisit)}

theorem noted_keeps (cfg : ServerConfig) {start : Db} (hstart : Guarded start) :
    (httpCalls cfg).logged.Keeps (fun db => db = start) Outside (fun _ _ _ _ => True) Guarded
      (fun db c q => q.1.Holds cfg c db ∧ Noted cfg c q) Provisions := by
  refine (http_keeps cfg hstart).logged (L := fun _ c q => Noted cfg c q) (fun _ c _ => ?_)
    (fun _ _ _ _ _ h => h) (fun _ _ _ _ _ _ _ _ => trivial)
    (fun db c now q hdb _ hq _ _ _ => hq.step hdb)
  refine ⟨fun ids acker hmark => ?_, fun before v rest h => ?_⟩
  · exact absurd hmark (httpStart_ne_mark cfg c ids acker)
  · cases before <;> cases h

/-- A notification for Alice. -/
def aliceHint : NotificationRow :=
  ⟨lit "i1", lit "send_failed", some (lit "alice"), none, [], false, false, noon⟩

/-- Her ledger with it. -/
def hintedAlice : Db := { freeAlice with federationNotifications := [aliceHint] }

theorem guarded_hintedAlice : Guarded hintedAlice :=
  ⟨guarded_freeAlice.peers, ⟨guarded_freeAlice.ids.unique, guarded_freeAlice.ids.named⟩⟩

/-- She acknowledges it, under her token. -/
def aliceHears : HttpCall := .hints
  { body := [(lit "intent_ids", .list [.str (lit "i1")]), (lit "agent", .str (lit "alice"))]
    bearer := lit "t"
    now := noon
    newId := [] }

/-- The server after her three statements. -/
def heardWorld : World Db HttpCall (HttpPhase × List HttpVisit) :=
  let s := (httpCalls serverA).logged.steps aliceHears noon 3
    (hintedAlice, httpStart serverA aliceHears, [])
  ⟨s.1, [(aliceHears, s.2)]⟩

theorem reach_heardWorld : Reachable (hosting serverA hintedAlice) heardWorld := by
  have hempty : Reachable (hosting serverA hintedAlice) ⟨hintedAlice, []⟩ := .init ⟨rfl, rfl⟩
  exact reach_steps [] noon 3 (.step (a := .call aliceHears) hempty trivial rfl) (by decide)

end Server
end ATalk
