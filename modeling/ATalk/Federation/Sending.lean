import ATalk.Federation.RetryAfter

/-!
# One attempt to send

`send_envelope` posts an original to a peer and makes an outcome of what comes back. Only a 200 with
one of two bodies counts as sent; a status that repeating cannot change ends the row; everything else
is tried again.

* `Transport`, `sendEnvelope` : what comes back, and the outcome;
* `sendEnvelope_sent_iff`     : what counts as sent;
* `Reply.transport`           : the answer of a handler on its way to the sender.
-/

namespace ATalk
namespace Federation

open Text Json Python ATalk.Core Checks

/-! ## The outcome -/

/-- What becomes of a POST: the registered URL is not one to send to, the connection fails, or there
is an answer, whose headers only matter when it is an error and whose body only when it is not. -/
inductive Transport where
  | unsupported (reason : Str)
  | failed (cls : Str)
  | httpError (code : ℕ) (retryAfter : Option Str)
  | answered (code : ℕ) (raw : Bytes)
deriving DecidableEq

/-- `PERMANENT_HTTP` -/
def permanentHttp : List ℕ := [400, 401, 403, 409, 413, 422]

/-- `_MAX_RESPONSE_BYTES` -/
def maxResponseBytes : ℕ := 65536

/-- What the body of a 200 says. -/
def bodyOutcome (raw : Bytes) : SendOutcome :=
  if maxResponseBytes < raw.length then .retry (lit "oversized_200_body") none
  else
    match decode raw with
    | none => .retry (lit "unparseable_200_body") none
    | some text =>
      match parseJsonText text "response" with
      | .error _ => .retry (lit "unparseable_200_body") none
      | .ok (.obj ms) =>
        match get (lit "status") ms with
        | some (.str s) =>
          if s = lit "stored" ∨ s = lit "duplicate" then .sent
          else .retry (lit "unrecognized_200_body") none
        | _ => .retry (lit "unrecognized_200_body") none
      | .ok _ => .retry (lit "unrecognized_200_body") none

/-- `send_envelope`, after the POST. -/
def sendEnvelope (parsedate : Str → Option When) (now : Moment) : Transport → SendOutcome
  | .unsupported reason => .permanent (lit "unsupported_endpoint_url: " ++ reason)
  | .failed cls => .retry (lit "connection_error: " ++ cls) none
  | .httpError code retryAfter =>
    if 300 ≤ code ∧ code < 400 then .permanent (lit "redirect_not_followed")
    else if code = 429 then .retry (lit "http_429") (parseRetryAfter parsedate retryAfter now)
    else if code ∈ permanentHttp then .permanent (lit s!"http_{code}")
    else .retry (lit s!"http_{code}") none
  | .answered code raw =>
    if code ≠ 200 then .retry (lit s!"unexpected_status_{code}") none else bodyOutcome raw

variable {parsedate : Str → Option When} {now : Moment}

/-- A body that counts. -/
def Confirms (raw : Bytes) : Prop :=
  raw.length ≤ maxResponseBytes ∧ ∃ text ms s, decode raw = some text ∧
    parseJsonText text "response" = .ok (.obj ms) ∧ get (lit "status") ms = some (.str s) ∧
    (s = lit "stored" ∨ s = lit "duplicate")

theorem bodyOutcome_sent_iff {raw : Bytes} : bodyOutcome raw = .sent ↔ Confirms raw := by
  unfold bodyOutcome Confirms
  constructor
  · intro h
    split_ifs at h with hsize
    split at h
    · cases h
    · next text htext =>
      split at h
      · cases h
      · next ms hparse =>
        split at h
        · next s hs =>
          split_ifs at h with hword
          exact ⟨Nat.le_of_not_lt hsize, text, ms, s, htext, hparse, hs, hword⟩
        · cases h
      · cases h
  · rintro ⟨hsize, text, ms, s, htext, hparse, hs, hword⟩
    rw [if_neg (Nat.not_lt.mpr hsize)]
    simp only [htext, hparse, hs, if_pos hword]

/-- Only a 200 counts, and only with a body that says so. -/
theorem sendEnvelope_sent_iff {t : Transport} :
    sendEnvelope parsedate now t = .sent ↔ ∃ raw, t = .answered 200 raw ∧ Confirms raw := by
  constructor
  · intro h
    cases t with
    | unsupported => cases h
    | failed => cases h
    | httpError code retryAfter =>
      simp only [sendEnvelope] at h
      split_ifs at h
    | answered code raw =>
      simp only [sendEnvelope] at h
      split_ifs at h with hcode
      rw [not_not] at hcode
      subst hcode
      exact ⟨raw, rfl, bodyOutcome_sent_iff.mp h⟩
  · rintro ⟨raw, rfl, hraw⟩
    exact bodyOutcome_sent_iff.mpr hraw

/-! ## The answer of a peer -/

/-- The members after the first, as `json.dumps` separates them, and the closing brace. -/
def dumpsRest : List (Str × Str) → Str
  | [] => lit "\x7d"
  | (k, v) :: ms => lit ", " ++ dumpString k ++ lit ": " ++ dumpString v ++ dumpsRest ms

/-- `json.dumps(value, ensure_ascii=False)` of a dictionary of strings. -/
def dumpsStrings : List (Str × Str) → Str
  | [] => lit "\x7b\x7d"
  | (k, v) :: ms => lit "\x7b" ++ dumpString k ++ lit ": " ++ dumpString v ++ dumpsRest ms

/-- The members of a body that are strings; the federation handlers answer with no others. -/
def stringMembers (body : Dict) : List (Str × Str) :=
  body.filterMap fun m =>
    match m.2 with
    | .str s => some (m.1, s)
    | _ => none

/-- `send_json`, as it reaches a sender; none of these answers carries a `Retry-After`. -/
def Reply.transport (reply : Reply) : Transport :=
  if 200 ≤ reply.status ∧ reply.status < 300 then
    .answered reply.status ((encode (dumpsStrings (stringMembers reply.body))).getD [])
  else .httpError reply.status none

/-! ## What a sender reads of an answer -/

/-- The members, as they are read back. -/
def stringObj (ms : List (Str × Str)) : List (Str × Json) := ms.map fun m => (m.1, .str m.2)

/-- The text of the members of an object behind its opening brace. -/
def stringsText (k v : Str) (ms : List (Str × Str)) (r : Str) : Str :=
  dumpString k ++ (ofChar ':' :: ofChar ' ' :: (dumpString v ++ (dumpsRest ms ++ r)))

theorem dumpsStrings_cons (k v : Str) (ms : List (Str × Str)) (r : Str) :
    dumpsStrings ((k, v) :: ms) ++ r = ofChar '{' :: stringsText k v ms r := by
  simp [dumpsStrings, stringsText, lit, ofChar]

theorem dumpsRest_cons (k v : Str) (ms : List (Str × Str)) (r : Str) :
    dumpsRest ((k, v) :: ms) ++ r = ofChar ',' :: ofChar ' ' :: stringsText k v ms r := by
  simp [dumpsRest, stringsText, lit, ofChar]

/-- The scan passes over the members of an object. -/
theorem prescan_stringsText (layer : String) (ms : List (Str × Str)) (k v r : Str) :
    prescanFrom layer ⟨1, false, false⟩ (stringsText k v ms r) =
      prescanFrom layer ⟨0, false, false⟩ r := by
  induction ms generalizing k v with
  | nil =>
    rw [stringsText, prescan_dumpString, prescan_plain layer _ (by decide),
      prescan_plain layer _ (by decide), prescan_dumpString]
    exact prescan_close layer 0 (.inl rfl) r
  | cons m ms ih =>
    rw [stringsText, prescan_dumpString, prescan_plain layer _ (by decide),
      prescan_plain layer _ (by decide), prescan_dumpString, dumpsRest_cons,
      prescan_plain layer _ (by decide), prescan_plain layer _ (by decide)]
    exact ih m.1 m.2

section
variable {ε : Type} {h : Hooks ε}

theorem stringsText_head (k v : Str) (ms : List (Str × Str)) (r : Str) :
    ∃ t, stringsText k v ms r = ofChar '"' :: t :=
  ⟨_, by rw [stringsText, dumpString, List.cons_append]⟩

theorem depthMembers_stringObj (ms : List (Str × Str)) : depthMembers (stringObj ms) = 0 := by
  induction ms with
  | nil => rfl
  | cons m ms ih =>
    rw [show stringObj (m :: ms) = (m.1, .str m.2) :: stringObj ms from rfl, depthMembers, ih]
    rfl

theorem skipSpace_stringsText (k v : Str) (ms : List (Str × Str)) (r : Str) :
    skipSpace (stringsText k v ms r) = stringsText k v ms r := by
  obtain ⟨t, ht⟩ := stringsText_head k v ms r
  rw [ht]
  exact skipSpace_cons (by decide) t

theorem skipSpace_space (t : Str) : skipSpace (ofChar ' ' :: t) = skipSpace t := by
  rw [skipSpace, List.dropWhile_cons, if_pos (by decide), skipSpace]

/-- The scanner gets from a key past its value. -/
theorem scanMembers_string {k v r t : Str} {d : CodePoint} {n : ℕ} {acc : List (Str × Json)}
    (hr : skipSpace r = d :: t) :
    scanMembers h (n + 2) (dumpString k ++ (ofChar ':' :: ofChar ' ' :: (dumpString v ++ r))) acc =
      if d = ofChar '}' then (h.objectPairs (acc ++ [(k, .str v)])).map (·, t)
      else if d = ofChar ',' then scanMembers h (n + 1) (skipSpace t) (acc ++ [(k, .str v)])
      else .error h.decodeError := by
  have hvalue : scanOnce h (n + 1) (ofChar '"' :: (v.flatMap escape ++ ofChar '"' :: r)) =
      .ok (.str v, r) := by
    rw [scanOnce, if_pos rfl, scanString_printed]
  simp only [dumpString, List.cons_append, List.append_assoc, List.nil_append]
  rw [scanMembers, if_pos rfl, scanString_printed]
  simp only [skipSpace_cons (show Json.isSpace (ofChar ':') = false by decide), if_true,
    skipSpace_space, skipSpace_cons (show Json.isSpace (ofChar '"') = false by decide), hvalue, hr]

/-- The scanner reads them back. -/
theorem scanMembers_stringsText (hp : h.Faithful) (ms : List (Str × Str)) (k v r : Str) (n : ℕ)
    (acc : List (Str × Json)) (hkeys : (keys (acc ++ stringObj ((k, v) :: ms))).Nodup)
    (hn : ms.length + 2 ≤ n) : scanMembers h n (stringsText k v ms r) acc =
      .ok (.obj (acc ++ stringObj ((k, v) :: ms)), r) := by
  obtain ⟨m, rfl⟩ : ∃ m, n = m + 2 := ⟨n - 2, by omega⟩
  induction ms generalizing k v m acc with
  | nil =>
    have hclose : skipSpace (dumpsRest [] ++ r) = ofChar '}' :: r :=
      skipSpace_cons (by decide) r
    rw [stringsText, scanMembers_string hclose, if_pos rfl]
    exact congrArg _ (hp _ hkeys)
  | cons p ms ih =>
    obtain ⟨k', v'⟩ := p
    rw [List.length_cons] at hn
    obtain ⟨m, rfl⟩ : ∃ l, m = l + 1 := ⟨m - 1, by omega⟩
    have hcomma : skipSpace (dumpsRest ((k', v') :: ms) ++ r) =
        ofChar ',' :: ofChar ' ' :: stringsText k' v' ms r := by
      rw [dumpsRest_cons]
      exact skipSpace_cons (by decide) _
    rw [stringsText, scanMembers_string hcomma, if_neg (by decide), if_pos rfl, skipSpace_space,
      skipSpace_stringsText]
    have hsplit : acc ++ stringObj ((k, v) :: (k', v') :: ms) =
        (acc ++ [(k, .str v)]) ++ stringObj ((k', v') :: ms) := by
      rw [List.append_assoc]
      rfl
    rw [hsplit] at hkeys ⊢
    exact ih k' v' (acc ++ [(k, .str v)]) hkeys m (by omega)

end

theorem length_le_stringsText (k v : Str) (ms : List (Str × Str)) (r : Str) :
    ms.length + 2 ≤ (stringsText k v ms r).length := by
  induction ms generalizing k v with
  | nil =>
    simp only [stringsText, List.length_append, List.length_cons, List.length_nil]
    omega
  | cons m ms ih =>
    have := ih m.1 m.2
    rw [stringsText, dumpsRest_cons]
    simp only [List.length_append, List.length_cons] at *
    omega

/-- A dictionary of strings is read back as it was written. -/
theorem parseJsonText_dumpsStrings {layer : String} {ms : List (Str × Str)}
    (hkeys : (ms.map Prod.fst).Nodup) (hne : ms ≠ []) :
    parseJsonText (dumpsStrings ms) layer = .ok (.obj (stringObj ms)) := by
  cases ms with
  | nil => exact absurd rfl hne
  | cons m ms =>
    obtain ⟨k, v⟩ := m
    have htext : dumpsStrings ((k, v) :: ms) = ofChar '{' :: stringsText k v ms [] := by
      rw [← dumpsStrings_cons, List.append_nil]
    have hscan : depthPrescan (dumpsStrings ((k, v) :: ms)) layer = .ok () := by
      rw [depthPrescan, htext, prescan_open layer (by decide) (.inl rfl)]
      exact prescan_stringsText layer ms k v []
    have hnodup : (keys (stringObj ((k, v) :: ms))).Nodup := by
      rw [stringObj, keys, List.map_map]
      exact hkeys
    have hloads : loads hooks (dumpsStrings ((k, v) :: ms)) =
        .ok (.obj (stringObj ((k, v) :: ms))) := by
      have hmembers := scanMembers_stringsText hooks_faithful ms k v []
        (ofChar '{' :: stringsText k v ms []).length [] hnodup
        ((length_le_stringsText k v ms []).trans (Nat.le_succ _))
      have hscanned : scanOnce hooks ((ofChar '{' :: stringsText k v ms []).length + 1)
          (ofChar '{' :: stringsText k v ms []) = .ok (.obj (stringObj ((k, v) :: ms)), []) := by
        obtain ⟨t, ht⟩ := stringsText_head k v ms []
        rw [scanOnce, if_neg (by decide), if_pos rfl, skipSpace_stringsText]
        rw [ht] at hmembers ⊢
        simpa only [if_neg (show ofChar '"' ≠ ofChar '}' by decide), List.nil_append] using hmembers
      have hmark : (ofChar '{' :: stringsText k v ms []).head? ≠ some (codePoint 0xFEFF) := by
        rw [List.head?_cons, ne_eq, Option.some.injEq]
        decide
      rw [htext, loads, if_neg hmark, skipSpace_cons (by decide), hscanned]
      rfl
    have hdepth : postLoadDepthCheck layer [(.obj (stringObj ((k, v) :: ms)), 1)] = .ok () := by
      refine postLoadDepthCheck_ok layer _ fun p hp => ?_
      rw [List.mem_singleton.mp hp, depth, depthMembers_stringObj]
      exact (of_decide_eq_true rfl : 1 + (1 + 0) ≤ nestingDepthLimit + 1)
    rw [parseJsonText, hscan]
    simp only [hloads, hdepth]

/-- An answer of a handler is read by the sender as it was given. -/
theorem transport_answered {body : Dict} {raw : Bytes} {status : ℕ} (h : 200 ≤ status ∧ status < 300)
    (hraw : encode (dumpsStrings (stringMembers body)) = some raw) :
    (Reply.transport ⟨status, body⟩) = .answered status raw := by
  rw [Reply.transport, if_pos h]
  simp only [hraw, Option.getD_some]

end Federation
end ATalk
