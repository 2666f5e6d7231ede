import ATalk.Backends
import ATalk.Raft.Equivalence

/-!
# Who may command

A command needs a live token of its source and a grant of its target for its operation, whose
scope stands in the payload. The stores compare with Python's `==` and turn the operation into a
text with `str`; the authority itself is a matter of JSON.

* `Val.jsonEq` : equality of JSON values;
* `Authority` : what a command needs at a moment;
* `matchingGrant_of_granted` : a store finds a grant where there is one;
* `PickedExact` : it finds none where there is none.
-/

namespace ATalk
namespace Backends

open Text Python Sqlite ATalk.Core Checks Raft

/-! ## JSON equality -/

mutual

/-- The same JSON value: numbers by value, objects as sets of members. -/
def jsonEq : Val → Val → Bool
  | .none, .none => true
  | .bool a, .bool b => a = b
  | .int i, .int j => numberEq (.fin false i) (.fin false j)
  | .int i, .float g => numberEq (.fin false i) g
  | .float f, .int j => numberEq f (.fin false j)
  | .float f, .float g => numberEq f g
  | .str s, .str t => s = t
  | .list xs, .list ys => jsonEqList xs ys
  | .dict ms, .dict ns => ms.length = ns.length && jsonEqDict ms ns
  | _, _ => false
termination_by structural x => x

def jsonEqList : List Val → List Val → Bool
  | [], [] => true
  | x :: xs, y :: ys => jsonEq x y && jsonEqList xs ys
  | _, _ => false
termination_by structural xs => xs

def jsonEqDict : List (Str × Val) → List (Str × Val) → Bool
  | [], _ => true
  | (k, x) :: ms, ns =>
    (match dictGet k ns with
    | some y => jsonEq x y
    | .none => false) && jsonEqDict ms ns
termination_by structural ms => ms

end

mutual

/-- Equal JSON values are equal in Python. -/
theorem eq_of_jsonEq (x y : Val) (h : jsonEq x y = true) : x.eq y = true := by
  cases x with
  | list xs =>
    cases y with
    | list ys => exact eqList_of_jsonEqList xs ys h
    | _ => cases h
  | dict ms =>
    cases y with
    | dict ns =>
      simp only [jsonEq, Bool.and_eq_true] at h
      simp only [Val.eq, Bool.and_eq_true]
      exact ⟨h.1, eqDict_of_jsonEqDict ms ns h.2⟩
    | _ => cases h
  | bool a =>
    cases y with
    | bool b =>
      have hab : a = b := of_decide_eq_true h
      rw [hab]
      simp [Val.eq, Val.number, numberEq]
    | _ => cases h
  | none => cases y <;> exact h
  | str s => cases y <;> exact h
  | int i => cases y <;> first | exact h | cases h
  | float f => cases y <;> first | exact h | cases h
termination_by structural x

theorem eqList_of_jsonEqList (xs ys : List Val) (h : jsonEqList xs ys = true) :
    eqList xs ys = true := by
  cases xs with
  | nil => cases ys <;> first | rfl | cases h
  | cons x xs =>
    cases ys with
    | nil => cases h
    | cons y ys =>
      simp only [jsonEqList, Bool.and_eq_true] at h
      simp only [eqList, Bool.and_eq_true]
      exact ⟨eq_of_jsonEq x y h.1, eqList_of_jsonEqList xs ys h.2⟩
termination_by structural xs

theorem eqDict_of_jsonEqDict (ms ns : List (Str × Val)) (h : jsonEqDict ms ns = true) :
    eqDict ms ns = true := by
  cases ms with
  | nil => rfl
  | cons m ms =>
    obtain ⟨k, x⟩ := m
    simp only [jsonEqDict, Bool.and_eq_true] at h
    simp only [eqDict, Bool.and_eq_true]
    refine ⟨?_, eqDict_of_jsonEqDict ms ns h.2⟩
    have hk := h.1
    cases hget : dictGet k ns with
    | none => simp [hget] at hk
    | some y =>
      simp only [hget] at hk
      exact eq_of_jsonEq x y hk
termination_by structural ms

end

/-! ## Authority -/

/-- The operation of a payload: a text that is more than spaces, trimmed. -/
def jsonOp (payload : Dict) : Option Str :=
  match dictGet (lit "op") payload with
  | some (.str s) => if strip s = [] then none else some (strip s)
  | _ => none

/-- Every entry of a scope is present in the payload with an equal value. -/
def jsonMatches (scope payload : Dict) : Bool :=
  scope.all fun (k, v) =>
    match dictGet k payload with
    | some w => jsonEq w v
    | none => false

/-- A live grant of the target to the source for the operation of the payload. -/
def Granted (db : Db) (now : Time) (source target : Str) (payload : Dict) : Prop :=
  ∃ op, jsonOp payload = some op ∧ ∃ row ∈ db.peerGrants,
    GrantRow.live row now source target op = true ∧ jsonMatches row.scope payload = true

/-- The token is a live one of the source. -/
def LiveToken (env : Env) (db : Db) (now : Time) (a : EventArgs) : Prop :=
  a.token.truthy = true ∧ ∃ digest, tokenDigest env a.token = .ok digest ∧
    hasToken db a.source digest now = true

/-- What a command needs. -/
structure Authority (env : Env) (a : EventArgs) (now : Time) (db : Db) : Prop where
  sourced : a.sourceRef.truthy = true
  token : LiveToken env db now a
  granted : Granted db now a.source a.target a.payload

/-- The grants a store would take for the command are there only where the command is granted. -/
def PickedExact (env : Env) (db : Db) (now : Time) (a : EventArgs) : Prop :=
  (commandType env a.payload ≠ [] ∧ ∃ row ∈ db.peerGrants,
    GrantRow.live row now a.source a.target (commandType env a.payload) = true ∧
      scopeMatches row.scope a.payload = true) →
    Granted db now a.source a.target a.payload

variable {c : Cluster} {env : Env} {db : Db} {a : EventArgs} {now : Time} {source target : Str}
  {payload : Dict}

theorem commandType_of_jsonOp (env : Env) {op : Str} (h : jsonOp payload = some op) :
    commandType env payload = op ∧ op ≠ [] := by
  unfold jsonOp at h
  split at h
  · next s hs =>
    split_ifs at h with hempty
    cases h
    refine ⟨?_, hempty⟩
    rw [commandType, getDefault, hs]
    rfl
  · cases h

theorem scopeMatches_of_json {scope : Dict} (h : jsonMatches scope payload = true) :
    scopeMatches scope payload = true := by
  unfold jsonMatches at h
  unfold scopeMatches
  rw [List.all_eq_true] at h ⊢
  intro kv hkv
  have hone := h kv hkv
  simp only at hone ⊢
  cases hget : dictGet kv.1 payload with
  | none => simp [hget] at hone
  | some w =>
    simp only [hget] at hone
    rw [getNone, hget]
    exact eq_of_jsonEq _ _ hone

/-- Where a command is granted a store finds a grant. -/
theorem matchingGrant_of_granted (h : Granted db now source target payload) :
    ∃ grant, matchingGrant c db now source target payload = some grant := by
  obtain ⟨op, hop, row, hrow, hlive, hscope⟩ := h
  obtain ⟨hty, hne⟩ := commandType_of_jsonOp c.env hop
  rw [← Option.isSome_iff_exists]
  unfold matchingGrant
  simp only [hty, hne, if_false]
  rw [List.isSome_find?, List.any_eq_true]
  exact ⟨row, hrow, by rw [hlive, scopeMatches_of_json hscope]; rfl⟩

/-- A grant that a store finds is one it would take. -/
theorem matchingGrant_some {grant : GrantRow}
    (h : matchingGrant c db now source target payload = some grant) :
    commandType c.env payload ≠ [] ∧ grant ∈ db.peerGrants ∧
      GrantRow.live grant now source target (commandType c.env payload) = true ∧
      scopeMatches grant.scope payload = true := by
  unfold matchingGrant at h
  simp only at h
  split_ifs at h with hempty
  have hcond := List.find?_some h
  rw [Bool.and_eq_true] at hcond
  exact ⟨hempty, List.mem_of_find?_eq_some h, hcond.1, hcond.2⟩

end Backends
end ATalk
