import ATalk.Core.InsertEvent
import ATalk.Federation.Send
import ATalk.Server

/-!
# What `POST /events` can do

The handler taken apart once: it writes nothing but a reject audit row, or it commits one event
row on the local path, or it queues one envelope for another instance.

* `checkEvent_ok` : what the checks before the routing let through;
* `postEvents_cases` : the three outcomes.
-/

namespace ATalk
namespace Server

open Text Python ATalk.Core Federation Checks

variable {cfg : ServerConfig} {db : Db} {r : Request} {a : EventArgs}

theorem requireString_ok {body : Dict} {field : String} {s : Str}
    (h : requireString body field = .ok s) : getNone (lit field) body = .str s ∧ s ≠ [] := by
  unfold requireString at h
  split at h
  · next c t hs =>
    cases h
    exact ⟨hs, List.cons_ne_nil c t⟩
  · cases h

theorem requireType_ok {body : Dict} {type : Str} (h : requireType body = .ok type) :
    getDefault (lit "type") body (.str (lit "message")) = .str type := by
  unfold requireType at h
  unfold getDefault
  split at h
  · next hn =>
    cases h
    rw [hn]
    rfl
  · next s hs =>
    cases h
    rw [hs]
    rfl
  · cases h

/-- A checked body names its source, its target and its type, and its source was authenticated. -/
theorem checkEvent_ok (h : checkEvent cfg db r = .ok a) :
    getNone (lit "source") r.body = .str a.source ∧ getNone (lit "target") r.body = .str a.target ∧
      getDefault (lit "type") r.body (.str (lit "message")) = .str a.type ∧
      a = eventArgs r a.source a.target a.type a.payload ∧
      checkToken cfg db r a.source = .ok () ∧ cfg.acl.check a.source a.target = none := by
  unfold checkEvent at h
  simp only [bind_eq_ok] at h
  obtain ⟨source, hs, target, ht, type, hty, payload, -, u, htok, h⟩ := h
  split at h
  · cases h
  · next hacl =>
    cases h
    exact ⟨(requireString_ok hs).1, (requireString_ok ht).1, requireType_ok hty, rfl, htok, hacl⟩

/-- The answer to a committed row: the row decoded, or the exception that reading it raised. -/
def rowReply (row : EventRow) : Reply :=
  match rowToEvent row with
  | .error e => exnReply e
  | .ok event => ⟨201, eventToDict event⟩

theorem exnReply_status_ne (e : Exn) : (exnReply e).status ≠ 201 := by
  cases e <;> simp [exnReply, errorReply, Exn.status]

/-- A row is answered with a 201 when it can be read. -/
theorem rowReply_status {row : EventRow} :
    (rowReply row).status = 201 ↔ ∃ seq, intOf row.seq = .ok seq := by
  unfold rowReply rowToEvent
  cases intOf row.seq with
  | error e => simp [exnReply_status_ne e]
  | ok seq => simp

/-- The backlog gate lets the body through. -/
def PassesGate (cfg : ServerConfig) (db : Db) (r : Request) (a : EventArgs) : Prop :=
  ∃ retry, isRetry cfg db (getNone (lit "event_id") r.body) = .ok retry ∧
    ¬ (a.target ≠ lit "*" ∧ retry = false ∧ cfg.maxInboxDepth ≤ backlogDepth db a.target)

theorem localEvent_of_passesGate (h : PassesGate cfg db r a) :
    localEvent cfg db r a =
      match insertEvent cfg.env a db with
      | (db', .error e) => (db', exnReply e)
      | (db', .ok event) => (db', ⟨201, eventToDict event⟩) := by
  obtain ⟨retry, hretry, hgate⟩ := h
  unfold localEvent
  rw [hretry]
  exact if_neg hgate

/-- The local path writes a reject row at most, or commits a row and answers with it. -/
theorem localEvent_cases (cfg : ServerConfig) (db : Db) (r : Request) (a : EventArgs) :
    RejectOnly db (localEvent cfg db r a).1 ∨
      ∃ row, PassesGate cfg db r a ∧ Committed cfg.env a db row (localEvent cfg db r a).1 ∧
        (localEvent cfg db r a).2 = rowReply row := by
  by_cases hgate : PassesGate cfg db r a
  · rw [localEvent_of_passesGate hgate]
    rcases insertEvent_cases cfg.env a db with ⟨hdb, -⟩ | ⟨row, hc, hres⟩
    · left
      split
      all_goals next h =>
        rw [h] at hdb
        exact hdb
    · right
      refine ⟨row, hgate, ?_⟩
      rw [rowReply, ← hres]
      split
      all_goals next h =>
        rw [h] at hc
        simp only [h]
        exact ⟨hc, trivial⟩
  · left
    unfold localEvent
    split
    · exact .refl db
    · next retry hretry =>
      rw [if_pos (not_not.mp fun hn => hgate ⟨retry, hretry, hn⟩)]
      exact .refl db

/-- The three outcomes of the handler. -/
theorem postEvents_cases (cfg : ServerConfig) (db : Db) (r : Request) :
    RejectOnly db (postEvents cfg db r).1 ∨
      (∃ a row, checkEvent cfg db r = .ok a ∧ route cfg a.target = none ∧
        PassesGate cfg db r a ∧ Committed cfg.env a db row (postEvents cfg db r).1 ∧
        (postEvents cfg db r).2 = rowReply row) ∨
      ∃ a fed family s raw, checkEvent cfg db r = .ok a ∧ route cfg a.target = some (fed, family) ∧
        Queued fed db a.source a.target r.body family r.newId r.now s ∧
        eventBytes (s.fields fed r.now) (s.sig fed r.now) = some raw ∧
        postEvents cfg db r =
          (s.stored fed db raw r.now, ⟨201, sendItem (s.row fed db raw r.now) s⟩) := by
  unfold postEvents
  cases hcheck : checkEvent cfg db r with
  | error e => exact .inl (.refl db)
  | ok a =>
    simp only
    cases hroute : route cfg a.target with
    | none =>
      rcases localEvent_cases cfg db r a with h | ⟨row, hgate, hc, hreply⟩
      · exact .inl h
      · exact .inr (.inl ⟨a, row, rfl, hroute, hgate, hc, hreply⟩)
    | some p =>
      obtain ⟨fed, family⟩ := p
      simp only
      cases hsend : federationSend fed db a.source a.target r.body family r.newId r.now with
      | error e => exact .inl (.refl db)
      | ok q =>
        obtain ⟨db', reply⟩ := q
        rcases federationSend_cases hsend with rfl | ⟨s, raw, hq, hraw, hout⟩
        · exact .inl (.refl _)
        · exact .inr (.inr ⟨a, fed, family, s, raw, rfl, hroute, hq, hraw, hout⟩)

end Server
end ATalk
