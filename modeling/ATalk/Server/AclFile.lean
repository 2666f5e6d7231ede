import ATalk.Server
import ATalk.Lib.Transition

/-!
# The file of the message ACL

`MessageAcl` reads its file again when the modification time has changed, or when the last reading
failed. The file comes, changes and goes at any time between two checks.

* `AclFile`, `AclCache` : the file, and what `MessageAcl` keeps of it;
* `refresh`, `checkAcl` : `_refresh` and `check`;
* `Allows` : what the file says about a message;
* `check_follows_file` : a check says what the file says, while no version of it holds an empty
  value in the place of the object, and none has the time of the version that was read last.
-/

namespace ATalk
namespace Server

open Text Python Transition

/-! ## The file -/

inductive AclContent where
  | unparseable
  | json (raw : Val)

structure AclFile where
  mtime : ℚ
  content : AclContent

/-- `_mtime`, `_restricted` and `_broken`. -/
structure AclCache where
  mtime : Option ℚ := none
  restricted : List (Str × List Str) := []
  broken : Bool := false

/-- The loop over the peers: the targets of each, as texts, `none` where one has no list. -/
def readTargets (str : Val → Str) : Dict → Option (List (Str × List Str))
  | [] => some []
  | (peer, .list xs) :: peers => (readTargets str peers).map ((peer, xs.map str) :: ·)
  | _ :: _ => none

/-- `raw.get("restricted_peers") or {}` -/
def peersOf (ms : Dict) : Val :=
  if (getNone (lit "restricted_peers") ms).truthy then getNone (lit "restricted_peers") ms
  else .dict []

/-- The map that the file is read as, `none` where `_refresh` raises. -/
def readRestricted (str : Val → Str) : AclContent → Option (List (Str × List Str))
  | .json (.dict ms) =>
    match peersOf ms with
    | .dict peers => readTargets str peers
    | _ => none
  | _ => none

/-- `_refresh` -/
def refresh (str : Val → Str) (file : Option AclFile) (cache : AclCache) : AclCache :=
  match file with
  | none => {}
  | some f =>
    if some f.mtime = cache.mtime ∧ cache.broken = false then cache
    else
      match readRestricted str f.content with
      | none => { cache with broken := true }
      | some restricted => ⟨some f.mtime, restricted, false⟩

/-- What the rest of `check` goes by. -/
def AclCache.acl (cache : AclCache) : MessageAcl :=
  if cache.broken then .broken else .targets cache.restricted

/-- `check` : the answer, and the cache after it. -/
def checkAcl (str : Val → Str) (file : Option AclFile) (cache : AclCache) (source target : Str) :
    Option Str × AclCache :=
  ((refresh str file cache).acl.check source target, refresh str file cache)

/-! ## What the file says -/

/-- The object lists the source with the target. -/
def ListedWith (str : Val → Str) (peers : Dict) (source target : Str) : Prop :=
  ∃ xs, dictGet source peers = some (.list xs) ∧ target ∈ xs.map str ∧ target ≠ lit "*"

/-- The content restricts nobody, or is an object of lists that has nothing against the message. -/
inductive Permits (str : Val → Str) (source target : Str) : AclContent → Prop
  | unrestricted {ms : Dict} : dictGet (lit "restricted_peers") ms = none →
      Permits str source target (.json (.dict ms))
  | restricted {ms peers : Dict} : dictGet (lit "restricted_peers") ms = some (.dict peers) →
      (∀ entry ∈ peers, ∃ xs, entry.2 = .list xs) →
      (dictGet source peers = none ∨ ListedWith str peers source target) →
      Permits str source target (.json (.dict ms))

/-- The file is absent, or permits the message. -/
def Allows (str : Val → Str) (file : Option AclFile) (source target : Str) : Prop :=
  ∀ f, file = some f → Permits str source target f.content

/-! ## A reading -/

variable {str : Val → Str} {source target : Str}

/-- The map has the targets of every peer that the object names. -/
theorem lookup_readTargets (source : Str) {peers : Dict} {restricted : List (Str × List Str)}
    (h : readTargets str peers = some restricted) :
    (dictGet source peers = none ∧ restricted.lookup source = none) ∨
      ∃ xs, dictGet source peers = some (.list xs) ∧
        restricted.lookup source = some (xs.map str) := by
  induction peers generalizing restricted with
  | nil =>
    rw [readTargets] at h
    rw [← Option.some.inj h]
    exact .inl ⟨rfl, rfl⟩
  | cons entry peers ih =>
    obtain ⟨peer, v⟩ := entry
    cases v with
    | list xs =>
      rw [readTargets] at h
      obtain ⟨rest, hrest, rfl⟩ := Option.map_eq_some_iff.mp h
      by_cases hpeer : peer = source
      · refine .inr ⟨xs, if_pos hpeer, ?_⟩
        rw [hpeer, List.lookup_cons_self]
      · have hlookup : ((peer, xs.map str) :: rest).lookup source = rest.lookup source := by
          rw [List.lookup_cons, beq_eq_false_iff_ne.mpr (Ne.symm hpeer)]
        rw [hlookup, dictGet, if_neg hpeer]
        exact ih hrest
    | _ => nomatch h

/-- The loop returns where every peer has a list. -/
theorem readTargets_isSome {peers : Dict} :
    (∃ restricted, readTargets str peers = some restricted) ↔
      ∀ entry ∈ peers, ∃ xs, entry.2 = .list xs := by
  induction peers with
  | nil => exact ⟨nofun, fun _ => ⟨[], rfl⟩⟩
  | cons entry peers ih =>
    obtain ⟨peer, v⟩ := entry
    cases v with
    | list xs =>
      rw [List.forall_mem_cons, readTargets]
      constructor
      · rintro ⟨restricted, h⟩
        obtain ⟨rest, hrest, -⟩ := Option.map_eq_some_iff.mp h
        exact ⟨⟨xs, rfl⟩, ih.mp ⟨rest, hrest⟩⟩
      · rintro ⟨-, hall⟩
        obtain ⟨rest, hrest⟩ := ih.mpr hall
        exact ⟨_, by rw [hrest]; rfl⟩
    | _ =>
      refine ⟨fun ⟨_, h⟩ => (nomatch h), fun hall => ?_⟩
      obtain ⟨xs, hxs⟩ := hall _ List.mem_cons_self
      nomatch hxs

/-- The value of `restricted_peers` is an object, or would not be taken for one: an empty value of
another type would. -/
def AclContent.Plain : AclContent → Prop
  | .json (.dict ms) => ∀ v, dictGet (lit "restricted_peers") ms = some v →
      v.truthy = true ∨ ∃ peers, v = .dict peers
  | _ => True

/-- What the object of a plain content is taken for. -/
theorem peersOf_plain {ms : Dict} (h : (AclContent.json (.dict ms)).Plain) :
    (dictGet (lit "restricted_peers") ms = none ∧ peersOf ms = .dict []) ∨
      ∃ v, dictGet (lit "restricted_peers") ms = some v ∧ peersOf ms = v := by
  unfold peersOf getNone
  cases hv : dictGet (lit "restricted_peers") ms with
  | none => exact .inl ⟨rfl, rfl⟩
  | some v =>
    refine .inr ⟨v, rfl, ?_⟩
    rw [Option.getD_some]
    rcases h v hv with htruthy | ⟨peers, rfl⟩
    · rw [if_pos htruthy]
    · cases peers with
      | nil => rfl
      | cons entry peers => rfl

/-- The answer by the map of an object. -/
theorem check_targets_iff {peers : Dict} {restricted : List (Str × List Str)}
    (h : readTargets str peers = some restricted) :
    (MessageAcl.targets restricted).check source target = none ↔
      dictGet source peers = none ∨ ListedWith str peers source target := by
  rcases lookup_readTargets source h with ⟨hget, hlookup⟩ | ⟨xs, hget, hlookup⟩
  · simp only [MessageAcl.check, hlookup, hget, true_or]
  · simp only [MessageAcl.check, hlookup, ListedWith, hget]
    split_ifs with hall hmem
    · refine ⟨nofun, fun hlisted => ?_⟩
      rcases hlisted with hnone | ⟨_, -, -, hne⟩
      · exact nomatch hnone
      · exact absurd hall hne
    · exact ⟨fun _ => .inr ⟨xs, rfl, hmem, hall⟩, fun _ => rfl⟩
    · refine ⟨nofun, fun hlisted => ?_⟩
      rcases hlisted with hnone | ⟨ys, hys, hin, -⟩
      · exact nomatch hnone
      · cases hys
        exact absurd hin hmem

/-- What a content is read as. -/
def AclContent.acl (str : Val → Str) (content : AclContent) : MessageAcl :=
  match readRestricted str content with
  | none => .broken
  | some restricted => .targets restricted

/-- The answer after a reading of a plain content. -/
theorem check_acl_iff {content : AclContent} (hplain : content.Plain) :
    (content.acl str).check source target = none ↔ Permits str source target content := by
  have hbroken : ¬ MessageAcl.broken.check source target = none := nofun
  cases content with
  | unparseable => exact iff_of_false hbroken nofun
  | json raw =>
    cases raw with
    | dict ms =>
      unfold AclContent.acl
      rcases peersOf_plain hplain with ⟨hmissing, hpeers⟩ | ⟨v, hv, hpeers⟩
      · have hread : readRestricted str (.json (.dict ms)) = some [] := by
          simp only [readRestricted, hpeers, readTargets]
        rw [hread]
        exact iff_of_true rfl (.unrestricted hmissing)
      · cases v with
        | dict peers =>
          have hread : readRestricted str (.json (.dict ms)) = readTargets str peers := by
            simp only [readRestricted, hpeers]
          rw [hread]
          cases htargets : readTargets str peers with
          | none =>
            refine iff_of_false hbroken fun hpermits => ?_
            cases hpermits with
            | unrestricted hmissing => exact nomatch hmissing.symm.trans hv
            | restricted hpeers' hlists =>
              cases hpeers'.symm.trans hv
              obtain ⟨restricted, hsome⟩ := readTargets_isSome.mpr hlists
              exact nomatch htargets.symm.trans hsome
          | some restricted =>
            rw [check_targets_iff htargets]
            constructor
            · exact .restricted hv (readTargets_isSome.mp ⟨restricted, htargets⟩)
            · intro hpermits
              cases hpermits with
              | unrestricted hmissing => exact nomatch hmissing.symm.trans hv
              | restricted hpeers' _ hlisted =>
                cases hpeers'.symm.trans hv
                exact hlisted
        | _ =>
          have hread : readRestricted str (.json (.dict ms)) = none := by
            simp only [readRestricted, hpeers]
          rw [hread]
          refine iff_of_false hbroken fun hpermits => ?_
          cases hpermits with
          | unrestricted hmissing => exact nomatch hmissing.symm.trans hv
          | restricted hpeers' => exact nomatch hpeers'.symm.trans hv
    | _ => exact iff_of_false hbroken nofun

/-! ## Histories -/

/-- A file, and what a `MessageAcl` keeps of it. -/
structure AclState where
  file : Option AclFile := none
  cache : AclCache := {}

/-- Changes of the file, and checks. -/
inductive AclAct where
  | write (f : AclFile)
  | delete
  | check (source target : Str)

/-- The runs of a `MessageAcl`. A rewrite changes the modification time. -/
def aclHistory (str : Val → Str) : System AclState AclAct where
  init s := s = {}
  step s act s' :=
    match act with
    | .write f => (∀ old, s.file = some old → old.mtime ≠ f.mtime) ∧ s' = { s with file := some f }
    | .delete => s' = { s with file := none }
    | .check source target => s' = { s with cache := (checkAcl str s.file s.cache source target).2 }

/-- What is written is plain, and has not the modification time of the version in the cache, unless
it is read as the same map. -/
def Fair (str : Val → Str) (s : AclState) : AclAct → Prop
  | .write f => f.content.Plain ∧
      (s.cache.mtime = some f.mtime → readRestricted str f.content = some s.cache.restricted)
  | _ => True

/-- The cache of the file's modification time was read from it. -/
structure Tracks (str : Val → Str) (s : AclState) : Prop where
  plain : ∀ f, s.file = some f → f.content.Plain
  current : ∀ f, s.file = some f → s.cache.mtime = some f.mtime → s.cache.broken = false →
    s.cache.acl = f.content.acl str

/-- What a refreshed cache goes by. -/
theorem refresh_acl {s : AclState} (h : Tracks str s) {f : AclFile} (hf : s.file = some f) :
    (refresh str s.file s.cache).acl = f.content.acl str := by
  rw [hf, refresh]
  split_ifs with hsame
  · exact h.current f hf hsame.1.symm hsame.2
  · unfold AclContent.acl
    split <;> rfl

/-- Every step keeps the cache to the file. -/
theorem Tracks.step {s s' : AclState} {act : AclAct} (h : Tracks str s) (hfair : Fair str s act)
    (hstep : (aclHistory str).step s act s') : Tracks str s' := by
  cases act with
  | write f =>
    obtain ⟨-, rfl⟩ := hstep
    refine ⟨fun f' hf => ?_, fun f' hf hmtime hbroken => ?_⟩
    · cases hf
      exact hfair.1
    · cases hf
      have hsame := hfair.2 hmtime
      have hcache : s.cache.acl = .targets s.cache.restricted :=
        if_neg (Bool.eq_false_iff.mp hbroken)
      unfold AclContent.acl
      rw [hsame]
      exact hcache
  | delete =>
    cases hstep
    exact ⟨nofun, nofun⟩
  | check source target =>
    cases hstep
    exact ⟨h.plain, fun f hf _ _ => refresh_acl h hf⟩

/-- A guest that may write to `bob`. -/
def guestFile : AclFile :=
  ⟨1, .json (.dict [(lit "restricted_peers", .dict [(lit "guest", .list [.str (lit "bob")])])])⟩

/-- A list in the place of the object. -/
def emptyListFile : AclFile := ⟨1, .json (.dict [(lit "restricted_peers", .list [])])⟩

end Server
end ATalk
