import ATalk.Server.PostEvents
import ATalk.Federation.Agreement

/-!
# The target ACL on both write paths

A peer with a target list may reach only the peers on it. The local path looks the list up inside
its transaction; the federation path does not look at it, so a request that the outbox takes
reaches its target whatever the list says.

* `confined_iff` : when a request stays inside the list of its source.
-/

namespace ATalk
namespace Server

open Text Python Sqlite ATalk.Core Federation Checks

/-- A body from a source to a target that is no command. -/
structure Asks (r : Request) (src tgt : Str) : Prop where
  source : getNone (lit "source") r.body = .str src
  target : getNone (lit "target") r.body = .str tgt
  type : getDefault (lit "type") r.body (.str (lit "message")) ≠ .str (lit "command")

/-- A row of the events or of the outbox that was not there. -/
def NewRow (db db' : Db) : Prop :=
  (∃ row ∈ db'.events, row ∉ db.events) ∨ ∃ row ∈ db'.federationOutbound, row ∉ db.federationOutbound

/-- A restricted source gets a new row only for a target on its list. -/
def Confined (cfg : ServerConfig) (db : Db) (r : Request) : Prop :=
  ∀ source target, Asks r source target → restricted db source = true →
    NewRow db (postEvents cfg db r).1 → target ≠ lit "*" ∧ listed db source target = true

/-- The request passes the checks of the handler, its target is foreign, and the outbox takes it. -/
def TakesOutbox (cfg : ServerConfig) (db : Db) (r : Request) : Prop :=
  ∃ a fed family s, checkEvent cfg db r = .ok a ∧ route cfg a.target = some (fed, family) ∧
    Queued fed db a.source a.target r.body family r.newId r.now s

/-- A restricted source asks for a target outside its list. -/
def OffList (db : Db) (r : Request) : Prop :=
  ∃ source target, Asks r source target ∧ restricted db source = true ∧
    listed db source target = false

variable {cfg : ServerConfig} {db db' : Db} {r : Request}

theorem route_ne_star {target : Str} {fed : Runtime} {family : Str}
    (h : route cfg target = some (fed, family)) : target ≠ lit "*" := by
  unfold route at h
  split at h
  · cases h
  · split_ifs at h with hstar
    exact hstar

theorem targetAclAllows_true {source target : Str} (h : targetAclAllows db source target = .ok true)
    (hacl : restricted db source = true) : target ≠ lit "*" ∧ listed db source target = true := by
  simp only [targetAclAllows, bind_eq_ok, hacl, Bool.true_eq_false, if_false] at h
  obtain ⟨_, -, h⟩ := h
  split_ifs at h with hstar
  · cases h
  · simp only [bind_eq_ok, pure_eq_ok] at h
    obtain ⟨_, -, h⟩ := h
    exact ⟨hstar, h⟩

/-- A message that the transaction allowed stands on the list of its source. -/
theorem authorize_listed {env : Env} {a : EventArgs} {authActor : Option Str}
    (h : authorize env db a = .ok (.allowed authActor)) (htype : a.type ≠ lit "command")
    (hacl : restricted db a.source = true) :
    a.target ≠ lit "*" ∧ listed db a.source a.target = true := by
  unfold authorize at h
  rw [if_neg htype, bind_eq_ok] at h
  obtain ⟨allowed, hallowed, h⟩ := h
  cases allowed with
  | false => cases h
  | true => exact targetAclAllows_true hallowed hacl

theorem RejectOnly.not_newRow (h : RejectOnly db db') : ¬ NewRow db db' := by
  unfold NewRow
  rw [h.events, h.federationOutbound]
  rintro (⟨row, h, hn⟩ | ⟨row, h, hn⟩) <;> exact hn h

/-- A request that the outbox takes leaves a row that was not there. -/
theorem newRow_stored {fed : Runtime} {s : SendRequest} {raw : Bytes} {now : Time}
    (h : findOutbound db s.eventId = none) : NewRow db (s.stored fed db raw now) := by
  refine .inr ⟨s.row fed db raw now, List.mem_append_right _ (List.mem_singleton_self _), ?_⟩
  intro hmem
  rw [findOutbound, List.find?_eq_none] at h
  exact h _ hmem (decide_eq_true rfl)

theorem postEvents_of_takesOutbox (h : TakesOutbox cfg db r) :
    NewRow db (postEvents cfg db r).1 := by
  obtain ⟨a, fed, family, s, hcheck, hroute, hq⟩ := h
  obtain ⟨raw, -, hsend⟩ := federationSend_of_queued hq
  unfold postEvents
  simp only [hcheck, hroute, hsend]
  exact newRow_stored hq.fresh

/-- A request stays inside the list of its source unless it goes off the list and the outbox
takes it. -/
theorem confined_iff (cfg : ServerConfig) (db : Db) (r : Request) :
    Confined cfg db r ↔ ¬ (OffList db r ∧ TakesOutbox cfg db r) := by
  constructor
  · rintro hconf ⟨⟨source, target, hasks, hacl, hoff⟩, htakes⟩
    have hon := (hconf source target hasks hacl (postEvents_of_takesOutbox htakes)).2
    rw [hoff] at hon
    cases hon
  · intro hnot source target hasks hacl hnew
    rcases postEvents_cases cfg db r with hr | ⟨a, row, hcheck, -, -, hc, -⟩ |
      ⟨a, fed, family, s, -, hcheck, hroute, hq, -, -⟩
    · exact absurd hnew (RejectOnly.not_newRow hr)
    all_goals
      obtain ⟨hs, ht, hty, -⟩ := checkEvent_ok hcheck
      have hsource : source = a.source := Val.str.inj (hasks.source.symm.trans hs)
      have htarget : target = a.target := Val.str.inj (hasks.target.symm.trans ht)
      subst hsource htarget
    -- the local path: the transaction looked the list up
    · have htype : a.type ≠ lit "command" := fun hcmd => hasks.type (by rw [hty, hcmd])
      exact authorize_listed hc.verdict htype hacl
    -- the federation path: the list was not looked up, so the condition has to help
    · refine ⟨route_ne_star hroute, ?_⟩
      by_contra hoff
      rw [Bool.not_eq_true] at hoff
      exact hnot ⟨⟨_, _, hasks, hacl, hoff⟩, a, fed, family, s, hcheck, hroute, hq⟩

/-! ## A restricted peer that writes abroad -/

/-- `alice` has a token and an empty target list. -/
def restrictedAlice : Db where
  peers := [⟨lit "alice", some (lit "t"), none, none, none, lit "normal", 180, noon, none⟩]
  peerTokens := [⟨1, lit "alice", lit "t", some (lit "id"), some (lit "primary"), lit "full", noon,
    none, none⟩]
  peerTargetAcl := [⟨lit "alice", noon, noon⟩]

def serverA : ServerConfig where
  env := plainEnv
  fed := some fedA
  acl := .absent
  maxInboxDepth := 500

def aliceToBob : Request where
  body := textBody (lit "hello")
  bearer := lit "t"
  now := noon
  newId := []

theorem aliceToBob_asks : Asks aliceToBob (lit "alice") (lit "bob@org-b") where
  source := rfl
  target := rfl
  type := by
    rw [show getDefault (lit "type") aliceToBob.body _ = .str (lit "message") from rfl]
    intro h
    exact absurd (Val.str.inj h) (by decide)

/-- The request passes every check and is queued. -/
theorem aliceToBob_takesOutbox : TakesOutbox serverA restrictedAlice aliceToBob :=
  ⟨eventArgs aliceToBob (lit "alice") (lit "bob@org-b") (lit "message")
      [(lit "text", .str (lit "hello"))], fedA, lit "org-b", aliceRequest (lit "hello"), rfl, rfl,
    ⟨rfl, valid_aliceRequest (by decide) (by decide), rfl, by decide⟩⟩

/-- `alice` may reach nobody, and her message to `bob@org-b` is queued. -/
theorem restricted_alice_reaches_bob : ¬ Confined serverA restrictedAlice aliceToBob := by
  intro h
  have hon := (h _ _ aliceToBob_asks (by decide)
    (postEvents_of_takesOutbox aliceToBob_takesOutbox)).2
  exact absurd hon (by decide)

end Server
end ATalk
