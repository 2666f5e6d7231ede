import ATalk.Server.Backlog
import ATalk.Server.Presented

/-!
# Who wrote a row

Requests to every writing route of one server, interleaved statement by statement, beside the worker
and the command line.

* `hosting` : the system, `Outside` : what happens beside the requests;
* `commit_outside`, `guardedOutbound_outside`, `guardedReceipt_outside` : that it is this;
* `posts_attributed` : who wrote the events and the acknowledgements of any reached ledger;
* `tokens_attributed` : whose tokens a request adds and revokes, and for whom it queues;
* `powerless_writes_nothing` : a request without a token.
-/

namespace ATalk
namespace Server

open Text Python Sqlite ATalk.Core Federation Checks Transition Callers

/-! ## The system -/

/-- What the worker and the command line may do: they write neither events nor acknowledgements, and
acknowledge no hint. -/
structure Outside (db db' : Db) : Prop extends Provisions db db' where
  events : db'.events = db.events
  acks : db'.acks = db.acks
  hints : Federation.Grows .other db db'

/-- Requests on one server, each with the steps it has taken. -/
abbrev hosting (cfg : ServerConfig) (start : Db) :
    System (World Db HttpCall (HttpPhase × List HttpVisit)) (Callers.Action Db HttpCall Time) :=
  callers (httpCalls cfg).logged (fun db => db = start) Outside

variable {cfg : ServerConfig} {c : HttpCall} {db db' : Db} {now : Time} {peer : Str} {env : Env}

/-! ## The worker and the command line -/

theorem grows_trans {db'' : Db} (h : Federation.Grows .other db db')
    (h' : Federation.Grows .other db' db'') : Federation.Grows .other db db'' := by
  obtain ⟨k, new, hrows, hflags, hnew⟩ := h
  obtain ⟨k', new', hrows', hflags', hnew'⟩ := h'
  refine ⟨k' ∘ k, new.map k' ++ new', ?_, fun row => (hflags row).trans (hflags' (k row)), ?_⟩
  · rw [hrows', hrows, List.map_append, List.map_map, List.append_assoc]
  · intro row hrow
    rcases List.mem_append.mp hrow with hold | hfresh
    · obtain ⟨q, hq, rfl⟩ := List.mem_map.mp hold
      refine Bool.eq_false_of_not_eq_true fun hacked => ?_
      rcases (hflags' q).sets hacked with hbefore | hnames
      · rw [hnew q hq] at hbefore
        cases hbefore
      · exact hnames.elim
    · exact hnew' row hfresh

theorem Outside.of_eq (hevents : db'.events = db.events) (hacks : db'.acks = db.acks)
    (hpeers : db'.peers = db.peers) (htokens : db'.peerTokens = db.peerTokens)
    (hnotifications : db'.federationNotifications = db.federationNotifications) : Outside db db' :=
  ⟨.of_eq hpeers htokens, hevents, hacks, .same _ hnotifications⟩

theorem Outside.refl (db : Db) : Outside db db := .of_eq rfl rfl rfl rfl rfl

theorem Outside.trans {db'' : Db} (h : Outside db db') (h' : Outside db' db'') :
    Outside db db'' :=
  ⟨h.toProvisions.trans h'.toProvisions, h'.events.trans h.events, h'.acks.trans h.acks,
    grows_trans h.hints h'.hints⟩

/-- A statement of the administration. -/
theorem exec_outside {drawn : Admin.Drawn} {call : Admin.Call} {t : Calendar.Instant} {s : Raft.Stmt}
    {id : Option ℕ} (hs : Admin.Does env drawn t call s)
    (h : Raft.exec (Admin.sqlite env) db s = .ok (db', id)) : Outside db db' := by
  obtain ⟨rows, htokens, hnew⟩ := Admin.exec_tokens h
  have hpeers : db.peers ≠ [] → db'.peers ≠ [] := by
    intro hne
    obtain ⟨peer, hpeer⟩ := List.exists_mem_of_ne_nil _ hne
    obtain ⟨peer', hpeer', -⟩ := (Admin.exec_peers hs h).1 peer hpeer
    exact List.ne_nil_of_mem hpeer'
  have hrows : rows = [] ∨ ∃ r t, rows = [r] ∧ r.tokenId = some t ∧ t ≠ [] ∧
      ∀ q ∈ db.peerTokens, q.tokenId ≠ some t := by
    rcases hnew with hnone | ⟨o, p, digest, tokenId, label, scope, now, rfl, htaken, -, hrows⟩
    · exact .inl hnone
    · -- the only ids that a call inserts are those it draws
      have hdrawn : tokenId = drawn.tokenId := by cases hs <;> rfl
      refine .inr ⟨_, tokenId, hrows, rfl, ?_, free_of_tokenTaken htaken⟩
      rw [hdrawn]
      exact drawn.tokenId_ne
  have hrest : db'.events = db.events ∧ db'.acks = db.acks ∧
      db'.federationNotifications = db.federationNotifications := by
    cases hs <;> simp only [Raft.exec] at h <;> (try split_ifs at h) <;> cases h <;>
      exact ⟨rfl, rfl, rfl⟩
  exact ⟨tokens_provided (fun r => ⟨Admin.tokenUpdate_tokenId s r, Admin.tokenUpdate_peerId s r⟩)
    hpeers htokens hrows, hrest.1, hrest.2.1, .same _ hrest.2.2⟩

/-- The command line writes neither events nor acknowledgements, and draws ids of tokens. -/
theorem commit_outside {a : Admin.Call × Admin.Drawn} {part : Admin.Part}
    (hpart : Admin.PartOf env a part) (t : Calendar.Instant) (db : Db) :
    Outside db (Admin.commit env part t db).1 := by
  rcases Admin.commit_cases env part t db with ⟨e, he⟩ | ⟨stmts, db', ids, hstmts, hexec, hc⟩
  · rw [he]
    exact .refl db
  · rw [hc]
    refine Admin.execAll_induct (P := fun db₁ => Outside db db₁) (.refl db) ?_ hexec
    intro s hs db₁ db₂ id hkept hone
    exact hkept.trans (exec_outside (hpart t stmts hstmts s hs) hone)

theorem insertNotification_grows (db : Db) (intentId : Str) (kind : String)
    (agent eventId : Option Str) (detail : List (Str × Str)) (now : Time) :
    Federation.Grows .other db (insertNotification db intentId kind agent eventId detail now) := by
  unfold insertNotification
  split_ifs
  · exact .same _ rfl
  · refine ⟨id, _, by rw [List.map_id], .refl _, fun row hrow => ?_⟩
    rw [List.mem_singleton.mp hrow]

theorem insertNotification_outside (db : Db) (intentId : Str) (kind : String)
    (agent eventId : Option Str) (detail : List (Str × Str)) (now : Time) :
    Outside db (insertNotification db intentId kind agent eventId detail now) := by
  have hgrows := insertNotification_grows db intentId kind agent eventId detail now
  unfold insertNotification at hgrows ⊢
  split_ifs at hgrows ⊢
  · exact .refl db
  · exact ⟨.of_eq rfl rfl, rfl, rfl, hgrows⟩

section
variable {fed : Runtime} {wcfg : WorkerConfig} {turn : Turn}

theorem applyOutbound_outside {row : OutboundRow} {outcome : SendOutcome} {draw : Draw}
    (h : applyOutbound wcfg db row outcome draw = .ok db') : Outside db db' := by
  cases outcome with
  | sent =>
    cases h
    exact .of_eq rfl rfl rfl rfl rfl
  | permanent error =>
    cases h
    unfold failOutboundPermanent
    split
    · exact .refl db
    · refine Outside.trans ?_ (insertNotification_outside ..)
      exact .of_eq rfl rfl rfl rfl rfl
  | retry error retryAfter =>
    simp only [applyOutbound] at h
    split at h <;> cases h
    exact .of_eq rfl rfl rfl rfl rfl

/-- The worker on a queued event. -/
theorem guardedOutbound_outside (fed : Runtime) (wcfg : WorkerConfig) (db : Db) (row : OutboundRow)
    (turn : Turn) : Outside db (guardedOutbound fed wcfg db row turn) := by
  unfold guardedOutbound
  split
  · next db' hsend =>
    unfold sendOutbound at hsend
    split at hsend
    · exact applyOutbound_outside hsend
    · split at hsend
      · cases hsend
      · exact applyOutbound_outside hsend
  · unfold raisedOutbound
    split
    · exact .refl db
    · exact .of_eq rfl rfl rfl rfl rfl

theorem applyReceipt_outside {row : ReceiptOutRow} {outcome : SendOutcome} {draw : Draw}
    (h : applyReceipt fed wcfg db row outcome draw = .ok db') : Outside db db' := by
  cases outcome with
  | sent =>
    cases h
    exact .of_eq rfl rfl rfl rfl rfl
  | permanent error =>
    cases h
    unfold failReceiptPermanent
    split
    · exact .refl db
    · refine Outside.trans ?_ (insertNotification_outside ..)
      exact .of_eq rfl rfl rfl rfl rfl
  | retry error retryAfter =>
    simp only [applyReceipt] at h
    split at h <;> cases h
    exact .of_eq rfl rfl rfl rfl rfl

theorem sendSigned_outside {row : ReceiptOutRow} (h : sendSigned fed wcfg db row turn = .ok db') :
    Outside db db' := by
  unfold sendSigned at h
  split at h
  · exact applyReceipt_outside h
  · split at h
    · cases h
    · split at h
      · cases h
      · exact applyReceipt_outside h

theorem readied_outside {row current : ReceiptOutRow}
    (h : Readied fed db row turn db' current) : Outside db db' := by
  rcases h with ⟨-, rfl, -⟩ | ⟨-, hsign, -⟩
  · exact .refl _
  · unfold signReceipt at hsign
    split at hsign <;> cases hsign
    exact .of_eq rfl rfl rfl rfl rfl

/-- The worker on a receipt. -/
theorem guardedReceipt_outside (fed : Runtime) (wcfg : WorkerConfig) (db : Db) (row : ReceiptOutRow)
    (turn : Turn) : Outside db (guardedReceipt fed wcfg db row turn) := by
  have hraised : ∀ db' cls, Outside db' (raisedReceipt wcfg db' row cls turn.guard) := by
    intro db' cls
    unfold raisedReceipt
    split
    · exact .refl db'
    · exact .of_eq rfl rfl rfl rfl rfl
  rcases sendReceipt_cases fed wcfg db row turn with ⟨cls, -, -, hsend⟩ |
    ⟨db', current, hready, ⟨cls, -, hsend⟩ | ⟨db'', hsigned, hsend⟩⟩
  · rw [guardedReceipt_error hsend]
    exact hraised db cls
  · rw [guardedReceipt_error hsend]
    exact (readied_outside hready).trans (hraised db' cls)
  · rw [guardedReceipt_ok hsend]
    exact (readied_outside hready).trans (sendSigned_outside hsigned)

end

/-! ## A whole run -/

/-- A ledger that asks for tokens. -/
structure Guarded (db : Db) : Prop where
  peers : db.peers ≠ []
  ids : TokenIds db

/-- A request acts for those whose tokens it has presented, and wrote in their names only. -/
structure Shown (cfg : ServerConfig) (c : HttpCall) (q : HttpPhase × List HttpVisit) : Prop where
  acts : ∀ peer, q.1.Acts cfg.env c peer → Presented cfg.env c q.2 peer
  writes : ∀ before v rest, q.2 = before ++ v :: rest →
    WritesAs cfg c (Presented cfg.env c before) v.before v.after

theorem httpStart_holds (cfg : ServerConfig) (c : HttpCall) (db : Db) :
    (httpStart cfg c).Holds cfg c db := by
  cases c with
  | inbox r =>
    unfold httpStart
    split_ifs <;> trivial
  | receipts r =>
    unfold httpStart
    split_ifs <;> trivial
  | _ => trivial

theorem httpStart_acts (h : (httpStart cfg c).Acts cfg.env c peer) : False := by
  cases c with
  | inbox r =>
    unfold httpStart at h
    split_ifs at h <;> exact h
  | receipts r =>
    unfold httpStart at h
    split_ifs at h <;> exact h
  | _ => exact h

theorem http_keeps (cfg : ServerConfig) {start : Db} (hstart : Guarded start) :
    (httpCalls cfg).Keeps (fun db => db = start) Outside (fun _ _ _ _ => True) Guarded
      (fun db c p => p.Holds cfg c db) Provisions where
  refl := .refl
  trans _ _ _ := .trans
  init := by
    rintro db rfl
    exact hstart
  env db db' hdb h := ⟨⟨h.peers hdb.peers, h.ids hdb.ids⟩, h.toProvisions⟩
  start db c _ := httpStart_holds cfg c db
  mono db db' c p hdb hp := hp.provisions hdb
  step db c now p hdb hp _ _ := by
    have hprovisions : Provisions db (httpStep cfg c now db p).1 := (httpStep_writes hdb.ids hp).2
    exact ⟨⟨hprovisions.peers hdb.peers, hprovisions.ids hdb.ids⟩,
      (httpStep_holds hdb.ids hp).provisions hprovisions, hprovisions⟩

/-- The step of a request is noted, with what the request had presented before it. -/
theorem Shown.step {q : HttpPhase × List HttpVisit} (h : Shown cfg c q) (hdb : Guarded db)
    (hp : q.1.Holds cfg c db) : Shown cfg c ((httpCalls cfg).logged.step c now db q).2 := by
  have hauth : authRequired db = true := decide_eq_true hdb.peers
  refine ⟨fun peer hacts => ?_, fun before v rest heq => ?_⟩
  · rcases httpStep_acts hauth hacts with hold | ⟨hcheck, hfull⟩
    · exact (h.acts peer hold).mono fun v hv => List.mem_append_left _ hv
    · exact ⟨_, List.mem_append_right _ (List.mem_singleton_self _), hcheck, hfull⟩
  · -- the step is the one just noted, or one noted before
    rcases List.eq_nil_or_concat rest with rfl | ⟨rest', last, rfl⟩
    · obtain ⟨rfl, hlast⟩ := List.append_inj' heq rfl
      cases hlast
      exact (httpStep_writes hdb.ids hp).1.mono h.acts
    · rw [List.concat_eq_append, ← List.cons_append, ← List.append_assoc] at heq
      exact h.writes before v rest' (List.append_inj' heq rfl).1

theorem shown_keeps (cfg : ServerConfig) {start : Db} (hstart : Guarded start) :
    (httpCalls cfg).logged.Keeps (fun db => db = start) Outside (fun _ _ _ _ => True) Guarded
      (fun db c q => q.1.Holds cfg c db ∧ Shown cfg c q) Provisions := by
  refine (http_keeps cfg hstart).logged (L := fun _ c q => Shown cfg c q) (fun _ c _ => ?_)
    (fun _ _ _ _ _ h => h) (fun _ _ _ _ _ _ _ _ => trivial)
    (fun db c now q hdb hp hq _ _ _ => hq.step hdb hp)
  refine ⟨fun peer h => (httpStart_acts h).elim, fun before v rest h => ?_⟩
  cases before <;> cases h

/-- The request has taken a step, after the steps before it. -/
def Took (w : World Db HttpCall (HttpPhase × List HttpVisit)) (c : HttpCall)
    (before : List HttpVisit) (v : HttpVisit) : Prop :=
  ∃ p rest, (c, p, before ++ v :: rest) ∈ w.calls

variable {start : Db} {w : World Db HttpCall (HttpPhase × List HttpVisit)}
  {before : List HttpVisit} {v : HttpVisit}

/-- Every step writes in the name of peers whose live full tokens were presented before it. -/
theorem took_writes (hstart : Guarded start) (hw : Reachable (hosting cfg start) w)
    (hv : Took w c before v) : WritesAs cfg c (Presented cfg.env c before) v.before v.after := by
  rw [Reachable, ← onAdvance_true] at hw
  obtain ⟨p, rest, hmem⟩ := hv
  exact (((shown_keeps cfg hstart).reach hw).2 _ hmem).2.writes before v rest rfl

/-- What came to hold of the ledger came with a step of a request. -/
theorem took_of_new {P : Db → Prop} (hw : Reachable (hosting cfg start) w) (hstart : ¬ P start)
    (hother : ∀ db db', Outside db db' → P db' → P db) (hP : P w.store) :
    ∃ c before v, Took w c before v ∧ ¬ P v.before ∧ P v.after := by
  have hinit : ∀ db, db = start → ¬ P db := by
    rintro db rfl
    exact hstart
  obtain ⟨⟨c, p, log⟩, hc, v, hv, hchanged⟩ := Machine.brought_about (P := P) hinit hother hw hP
  obtain ⟨before, rest, rfl⟩ := List.append_of_mem hv
  exact ⟨c, before, v, ⟨p, rest, hc⟩, hchanged⟩

/-- The server goes on asking for tokens. -/
theorem guarded_of_reach (hstart : Guarded start) (hw : Reachable (hosting cfg start) w) :
    Guarded w.store := by
  rw [Reachable, ← onAdvance_true] at hw
  exact ((shown_keeps cfg hstart).reach hw).1

/-- Alice is the only peer, with one token and no target list. -/
def freeAlice : Db := { restrictedAlice with peerTargetAcl := [] }

theorem guarded_freeAlice : Guarded freeAlice := by
  refine ⟨by decide, ⟨fun r hr q hq t _ _ => ?_, fun r hr => ?_⟩⟩
  · rw [List.mem_singleton.mp hr, List.mem_singleton.mp hq]
  · rw [List.mem_singleton.mp hr]
    decide

/-- Some steps of a request on her ledger. -/
def aliceSteps (c : HttpCall) (n : ℕ) : Db × HttpPhase × List HttpVisit :=
  (httpCalls oneSlot).logged.steps c noon n (freeAlice, httpStart oneSlot c, [])

/-- The server after them. -/
def aliceWorld (c : HttpCall) (n : ℕ) : World Db HttpCall (HttpPhase × List HttpVisit) :=
  ⟨(aliceSteps c n).1, [(c, (aliceSteps c n).2)]⟩

theorem reach_aliceWorld (c : HttpCall) (n : ℕ) (hnone : (List.range n).all (fun k =>
    ((httpCalls oneSlot).logged.result (aliceSteps c k).2).isNone) = true) :
    Reachable (hosting oneSlot freeAlice) (aliceWorld c n) := by
  have hempty : Reachable (hosting oneSlot freeAlice) ⟨freeAlice, []⟩ := .init ⟨rfl, rfl⟩
  exact reach_steps [] noon n (.step (a := .call c) hempty trivial rfl) hnone

/-- Alice writes to Bob, under her token. -/
def aliceWrites : HttpCall := .events { toBob "e1" with bearer := lit "t" }

/-- The same without a token. -/
def bareWrites : HttpCall := .events (toBob "e1")

/-- Alice adds a token for her telephone. -/
def aliceDevice : HttpCall := .addToken
  { body := [(lit "peer_id", .str (lit "alice")), (lit "device_label", .str (lit "phone"))]
    bearer := lit "t"
    now := noon
    newId := []
    drawn := ⟨lit "drawn", lit "id-phone", by decide, by decide, by decide⟩ }

/-- The last of the steps. -/
def aliceVisit (c : HttpCall) (n : ℕ) : HttpVisit :=
  ⟨noon, (aliceSteps c n).2.1, (aliceSteps c n).1, (aliceSteps c (n + 1)).1⟩

theorem took_aliceVisit (c : HttpCall) (n : ℕ) :
    Took (aliceWorld c (n + 1)) c (aliceSteps c n).2.2 (aliceVisit c n) :=
  ⟨_, [], List.mem_singleton_self _⟩

end Server
end ATalk
