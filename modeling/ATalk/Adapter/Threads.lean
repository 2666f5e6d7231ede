import ATalk.Adapter.Inbox

/-!
# The threads of the OpenClaw adapter

The adapter files an event under a thread key, and runs it in an OpenClaw session. The key is made of
the source and of a thread id that the sender may choose, the session of the thread id alone.

* `threadKey`, `sessionId` : `thread_key`, and the session of `process`;
* `Separated` : the events are filed apart, and run apart;
* `separated_iff` : when the events of two senders are.
-/

namespace ATalk
namespace Adapter

open Text Python ATalk.Core

/-! ## Keys and sessions -/

/-- `payload.get("thread_id") or payload.get("correlation_id")` -/
def explicitThread (event : Event) : Val :=
  if (getNone (lit "thread_id") event.payload).truthy then getNone (lit "thread_id") event.payload
  else getNone (lit "correlation_id") event.payload

/-- `OpenClawTaskStore.thread_key` -/
def threadKey (str : Val → Str) (event : Event) : Str :=
  if (explicitThread event).truthy then
    lit "thread:" ++ event.source ++ lit ":" ++ str (explicitThread event)
  else lit "source:" ++ event.source

/-- `re.sub(r"[^A-Za-z0-9_.-]", "_", text)` -/
def safeText (text : Str) : Str := text.map fun c => if isSafe c then c else ofChar '_'

/-- `str(explicit_thread or safe_source)` -/
def threadName (str : Val → Str) (event : Event) : Str :=
  if (explicitThread event).truthy then str (explicitThread event) else safeText event.source

/-- The session of `process`. -/
def sessionId (str : Val → Str) (sessionPrefix : Str) (event : Event) : Str :=
  sessionPrefix ++ lit "-" ++ safeText (threadName str event)

/-- The events are filed under different keys, and run in different sessions. -/
def Separated (str : Val → Str) (sessionPrefix : Str) (event event' : Event) : Prop :=
  threadKey str event ≠ threadKey str event' ∧
    sessionId str sessionPrefix event ≠ sessionId str sessionPrefix event'

/-! ## When two senders meet -/

/-- The text that the session is named after: the thread id, or the source without one. -/
def chosenName (str : Val → Str) (event : Event) : Str :=
  if (explicitThread event).truthy then str (explicitThread event) else event.source

/-- A code point that sanitizing makes an underscore of, or leaves as one. -/
def Blurred (c : CodePoint) : Prop := isSafe c = false ∨ c = ofChar '_'

/-- The texts differ in blurred code points only. -/
def Alike (text text' : Str) : Prop :=
  List.Forall₂ (fun c c' => c = c' ∨ Blurred c ∧ Blurred c') text text'

/-- Both senders chose a thread id, and one source goes on, behind a colon, with what the thread id
of the other begins with. -/
def Spliced (str : Val → Str) (event event' : Event) : Prop :=
  (explicitThread event).truthy = true ∧ (explicitThread event').truthy = true ∧
    ∃ middle, event.source = event'.source ++ lit ":" ++ middle ∧
      str (explicitThread event') = middle ++ lit ":" ++ str (explicitThread event)

variable {str : Val → Str} {sessionPrefix : Str} {event event' : Event}

theorem safe_eq_iff {c c' : CodePoint} :
    (if isSafe c then c else ofChar '_') = (if isSafe c' then c' else ofChar '_') ↔
      c = c' ∨ Blurred c ∧ Blurred c' := by
  unfold Blurred
  by_cases hc : isSafe c = true
  · by_cases hc' : isSafe c' = true
    · rw [if_pos hc, if_pos hc', hc, hc']
      constructor
      · exact .inl
      · rintro (heq | ⟨hl | hl, hr | hr⟩)
        · exact heq
        · nomatch hl
        · nomatch hl
        · nomatch hr
        · rw [hl, hr]
    · rw [if_pos hc, if_neg hc', hc]
      constructor
      · exact fun heq => .inr ⟨.inr heq, .inl (eq_false_of_ne_true hc')⟩
      · rintro (heq | ⟨hl | hl, -⟩)
        · exact absurd (heq ▸ hc) hc'
        · nomatch hl
        · exact hl
  · by_cases hc' : isSafe c' = true
    · rw [if_neg hc, if_pos hc', hc']
      constructor
      · exact fun heq => .inr ⟨.inl (eq_false_of_ne_true hc), .inr heq.symm⟩
      · rintro (heq | ⟨-, hr | hr⟩)
        · exact absurd (heq ▸ hc') hc
        · nomatch hr
        · exact hr.symm
    · rw [if_neg hc, if_neg hc']
      exact iff_of_true rfl
        (.inr ⟨.inl (eq_false_of_ne_true hc), .inl (eq_false_of_ne_true hc')⟩)

/-- Sanitizing makes the same of texts that differ in blurred code points only. -/
theorem safeText_eq_iff {text text' : Str} : safeText text = safeText text' ↔ Alike text text' := by
  unfold safeText Alike
  induction text generalizing text' with
  | nil =>
    cases text' with
    | nil => exact iff_of_true rfl .nil
    | cons c' text' => exact iff_of_false nofun nofun
  | cons c text ih =>
    cases text' with
    | nil => exact iff_of_false nofun nofun
    | cons c' text' => rw [List.map_cons, List.map_cons, List.cons.injEq, List.forall₂_cons,
        safe_eq_iff, ih]

theorem safeText_safeText (text : Str) : safeText (safeText text) = safeText text := by
  have hunderscore : isSafe (ofChar '_') = true := by decide
  unfold safeText
  rw [List.map_map]
  refine List.map_congr_left fun c _ => ?_
  show (if isSafe (if isSafe c then c else ofChar '_') then _ else ofChar '_') = _
  by_cases hc : isSafe c = true
  · rw [if_pos hc, if_pos hc]
  · rw [if_neg hc, if_pos hunderscore]

/-- The sessions are the same when the chosen names are alike. -/
theorem sessionId_eq_iff : sessionId str sessionPrefix event = sessionId str sessionPrefix event' ↔
    Alike (chosenName str event) (chosenName str event') := by
  have hname : ∀ event, safeText (threadName str event) = safeText (chosenName str event) := by
    intro event
    unfold threadName chosenName
    split_ifs
    · rfl
    · exact safeText_safeText event.source
  unfold sessionId
  rw [List.append_right_inj, hname, hname, safeText_eq_iff]

/-- Two pairs of texts around a colon make the same text when they are the same, or when one of the
first texts takes a part of the other's second one. -/
theorem colon_eq_iff {s s' x x' : Str} (hs : s ≠ s') :
    s ++ lit ":" ++ x = s' ++ lit ":" ++ x' ↔
      (∃ middle, s = s' ++ lit ":" ++ middle ∧ x' = middle ++ lit ":" ++ x) ∨
      ∃ middle, s' = s ++ lit ":" ++ middle ∧ x = middle ++ lit ":" ++ x' := by
  constructor
  · intro h
    rw [List.append_assoc, List.append_assoc, List.append_eq_append_iff] at h
    rcases h with ⟨rest, hs', hx⟩ | ⟨rest, hs', hx⟩
    · cases rest with
      | nil =>
        rw [List.append_nil] at hs'
        exact absurd hs'.symm hs
      | cons c middle =>
        obtain ⟨hc, hrest⟩ := List.cons.inj hx
        refine .inr ⟨middle, ?_, ?_⟩
        · rw [hs', ← hc, List.append_assoc]
          rfl
        · rw [List.append_assoc]
          exact hrest
    · cases rest with
      | nil =>
        rw [List.append_nil] at hs'
        exact absurd hs' hs
      | cons c middle =>
        obtain ⟨hc, hrest⟩ := List.cons.inj hx
        refine .inl ⟨middle, ?_, ?_⟩
        · rw [hs', ← hc, List.append_assoc]
          rfl
        · rw [List.append_assoc]
          exact hrest
  · rintro (⟨middle, rfl, rfl⟩ | ⟨middle, rfl, rfl⟩)
    · simp only [List.append_assoc]
    · simp only [List.append_assoc]

/-- The keys are the same when the sources and the thread ids are spliced. -/
theorem threadKey_eq_iff (hsource : event.source ≠ event'.source) :
    threadKey str event = threadKey str event' ↔
      Spliced str event event' ∨ Spliced str event' event := by
  have hhead : ∀ s t : Str, lit "thread:" ++ s ≠ lit "source:" ++ t := by
    intro s t h
    exact absurd (List.cons.inj h).1 (by decide)
  unfold threadKey Spliced
  by_cases he : (explicitThread event).truthy = true
  · by_cases he' : (explicitThread event').truthy = true
    · rw [if_pos he, if_pos he']
      simp only [he, he', true_and]
      rw [List.append_assoc, List.append_assoc, List.append_assoc, List.append_assoc,
        List.append_right_inj, ← List.append_assoc, ← List.append_assoc, colon_eq_iff hsource]
    · rw [if_pos he, if_neg he', List.append_assoc, List.append_assoc]
      refine iff_of_false (hhead _ _) ?_
      rintro (⟨-, h, -⟩ | ⟨h, -⟩)
      · exact he' h
      · exact he' h
  · refine iff_of_false ?_ ?_
    · rw [if_neg he]
      split_ifs
      · rw [List.append_assoc, List.append_assoc]
        exact (hhead _ _).symm
      · intro h
        exact hsource (List.append_cancel_left h)
    · rintro (⟨h, -⟩ | ⟨-, h, -⟩)
      · exact he h
      · exact he h

/-- The events of two senders are filed and run apart exactly when the names they chose differ in
what sanitizing leaves, and when neither source and thread id are spliced with those of the other. -/
theorem separated_iff (str : Val → Str) (sessionPrefix : Str) (event event' : Event)
    (hsource : event.source ≠ event'.source) :
    Separated str sessionPrefix event event' ↔
      ¬ Alike (chosenName str event) (chosenName str event') ∧
        ¬ Spliced str event event' ∧ ¬ Spliced str event' event := by
  unfold Separated
  rw [ne_eq, ne_eq, threadKey_eq_iff hsource, sessionId_eq_iff, not_or]
  exact and_comm

/-- A message of a sender with a thread id. -/
def threadEvent (source thread : String) : Event where
  id := 1
  eventId := lit "e1"
  source := lit source
  target := lit "acme"
  type := lit "message"
  seq := 1
  createdAt := lit "2026-01-01T00:00:00Z"
  storedAt := lit "2026-01-01T00:00:00Z"
  payload := [(lit "text", .str (lit "x")), (lit "thread_id", .str (lit thread))]
  requiresAck := true
  sourceRef := none
  authActor := none

/-- `str(x)` of a text. -/
def strOfText : Val → Str
  | .str s => s
  | _ => []

/-- Two senders with thread ids of their own. -/
theorem separated_iff_jobs : Separated strOfText (lit "atalk") (threadEvent "alice" "job-7")
    (threadEvent "bob" "job-8") := by
  refine (separated_iff strOfText (lit "atalk") (threadEvent "alice" "job-7")
    (threadEvent "bob" "job-8") (by decide)).mpr ⟨?_, ?_, ?_⟩
  · rw [← safeText_eq_iff]
    decide
  · rintro ⟨-, -, middle, hsource, -⟩
    exact absurd (List.cons.inj hsource).1 (by decide)
  · rintro ⟨-, -, middle, hsource, -⟩
    exact absurd (List.cons.inj hsource).1 (by decide)

/-- The same thread id takes two senders to one session. -/
theorem same_thread_id_shares_session : ¬ ∀ (str : Val → Str) (sessionPrefix : Str)
    (event event' : Event), event.source ≠ event'.source →
      Separated str sessionPrefix event event' := by
  intro h
  obtain ⟨-, hsession⟩ := h strOfText (lit "atalk") (threadEvent "alice" "job-7")
    (threadEvent "bob" "job-7") (by decide)
  exact hsession rfl

end Adapter
end ATalk
