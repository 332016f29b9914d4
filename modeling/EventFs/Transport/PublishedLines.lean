import EventFs.Transport.MemoryRuns

/-!
# The lines of a stream

A stream of the in-memory storage only grows, and only by publishing. What it holds of a
subject is what has been published to it, in the order of the calls and once for every
idempotency seed.
-/

namespace EventFs.Transport

open Library Protocol

namespace StorageCall

variable [Serde]

/-- An earlier call with this identity has been accepted. -/
def isApplied (earlier : List StorageCall) (id : EffectId) : Bool :=
  earlier.any fun call => call.effectId == some id && call.accepted

/-- The lines that a call adds to a subject, given the calls that have taken effect. -/
def addedLines (applied : EffectId → Bool) (stream subject : Str) : StorageCall → List Str
  | .publishJsonLines stream' subject' bytes seed =>
      if stream' = stream ∧ subject' = subject ∧
          validateJsonLines subject' bytes = .ok () ∧
          applied (.lines stream' subject' seed) = false then
        ((Text.fromUtf8 bytes).map Text.trimmedLines).getD []
      else []
  | _ => []

/-- The lines that all calls together have added to a subject. -/
def publishedLines (stream subject : Str) : (earlier calls : List StorageCall) → List Str
  | _, [] => []
  | earlier, call :: rest =>
      call.addedLines (isApplied earlier) stream subject ++
        publishedLines stream subject (earlier ++ [call]) rest

theorem publishedLines_append (stream subject : Str) (earlier calls later : List StorageCall) :
    publishedLines stream subject earlier (calls ++ later) =
      publishedLines stream subject earlier calls ++
        publishedLines stream subject (earlier ++ calls) later := by
  induction calls generalizing earlier with
  | nil => simp [publishedLines]
  | cons call rest ih =>
      rw [List.cons_append, publishedLines, ih, publishedLines, List.append_assoc,
        List.append_assoc]
      rfl

theorem publishedLines_concat (stream subject : Str) (calls : List StorageCall)
    (call : StorageCall) :
    publishedLines stream subject [] (calls ++ [call]) =
      publishedLines stream subject [] calls ++
        call.addedLines (isApplied calls) stream subject := by
  rw [publishedLines_append, publishedLines, publishedLines, List.append_nil, List.nil_append]

theorem isTrimmed_of_addedLines {applied : EffectId → Bool} {stream subject : Str}
    {call : StorageCall} {line : Str} (h : line ∈ call.addedLines applied stream subject) :
    Text.IsTrimmed line := by
  cases call with
  | publishJsonLines stream' subject' bytes seed =>
      rw [addedLines] at h
      split_ifs at h
      · cases hText : Text.fromUtf8 bytes with
        | none => simp [hText] at h
        | some text =>
            rw [hText] at h
            exact Text.isTrimmed_of_mem h
      · cases h
  | _ => cases h

theorem isTrimmed_of_publishedLines {stream subject line : Str} :
    ∀ {earlier calls : List StorageCall}, line ∈ publishedLines stream subject earlier calls →
      Text.IsTrimmed line := by
  intro earlier calls h
  induction calls generalizing earlier with
  | nil => cases h
  | cons call rest ih =>
      rw [publishedLines, List.mem_append] at h
      rcases h with h | h
      · exact isTrimmed_of_addedLines h
      · exact ih h

end StorageCall

namespace MemoryStorage

variable {state : MemoryStorage}

def messages (state : MemoryStorage) (stream : Str) : List StreamMessageView :=
  state.streams.getD stream []

def ofSubject (state : MemoryStorage) (stream subject : Str) : List StreamMessageView :=
  (state.messages stream).filter fun message => message.subject == subject

theorem isApplied_eq [Serde] (calls : List StorageCall) :
    StorageCall.isApplied calls = (run calls).applied :=
  funext fun id => (applied_run calls id).symm

/-! ## Appending lines -/

theorem appendLines_append (stream subject : Str) (messages : List StreamMessageView)
    (lines : List Str) :
    ∃ added, (appendLines stream subject messages lines).1 = messages ++ added ∧
      added.map (fun message => (message.subject, message.payload)) =
        lines.map fun line => (subject, Text.asBytes line) := by
  rw [appendLines]
  induction lines generalizing messages with
  | nil => exact ⟨[], by simp⟩
  | cons line rest ih =>
      obtain ⟨message, hMessage, hPair⟩ : ∃ message : StreamMessageView,
          appendLine stream subject messages line = messages ++ [message] ∧
            (message.subject, message.payload) = (subject, Text.asBytes line) := ⟨_, rfl, rfl⟩
      obtain ⟨added, hAppend, hAdded⟩ := ih (messages ++ [message])
      refine ⟨message :: added, ?_, ?_⟩
      · rw [List.foldl_cons, hMessage]
        exact hAppend.trans (List.append_assoc _ _ _)
      · rw [List.map_cons, List.map_cons, hPair, hAdded]

theorem payloads_filter {subject : Str} {added : List StreamMessageView} {lines : List Str}
    (h : added.map (fun message => (message.subject, message.payload)) =
      lines.map fun line => (subject, Text.asBytes line)) (other : Str) :
    (added.filter fun message => message.subject == other).map (·.payload) =
      if subject = other then lines.map Text.asBytes else [] := by
  induction added generalizing lines with
  | nil =>
      cases lines with
      | nil => simp
      | cons line rest => cases h
  | cons message added ih =>
      cases lines with
      | nil => cases h
      | cons line rest =>
          rw [List.map_cons, List.map_cons, List.cons.injEq, Prod.mk.injEq] at h
          obtain ⟨⟨rfl, hPayload⟩, hRest⟩ := h
          have hNext := ih hRest
          by_cases hSame : message.subject = other
          · rw [if_pos hSame] at hNext ⊢
            rw [List.filter_cons_of_pos (by simpa using hSame), List.map_cons, List.map_cons,
              hNext, hPayload]
          · rw [if_neg hSame] at hNext ⊢
            rw [List.filter_cons_of_neg (by simpa using hSame), hNext]

/-! ## One call -/

variable [Serde]

theorem messages_of_other {call : StorageCall}
    (h : ∀ stream subject bytes seed, call ≠ .publishJsonLines stream subject bytes seed)
    (stream : Str) : (handle state call).2.messages stream = state.messages stream := by
  rcases streams_handle state call with hSame | ⟨other, rfl⟩ | ⟨other, subject, bytes, seed, rfl⟩
  · rw [messages, hSame]
    rfl
  · exact streams_ensureStream state other stream
  · exact absurd rfl (h other subject bytes seed)

/-- An accepted publish appends its lines unless its seed has been applied. -/
theorem messages_publish {subject seed text : Str}
    (hValid : validateJsonLines subject (Text.asBytes text) = .ok ()) (stream other : Str) :
    (handle state (.publishJsonLines stream subject (Text.asBytes text) seed)).2.messages other =
      if stream = other ∧ state.applied (.lines stream subject seed) = false then
        (appendLines stream subject (state.messages stream) (Text.trimmedLines text)).1
      else state.messages other := by
  cases hApplied : state.applied (.lines stream subject seed) with
  | true =>
      rw [handle_of_applied rfl hApplied, if_neg]
      simp
  | false =>
      rw [applied_lines_eq, Option.isSome_eq_false_iff, Option.isNone_iff_eq_none] at hApplied
      simp only [handle, publishJsonLines, hValid, jsonLines_asBytes, hApplied, messages,
        Std.ExtTreeMap.getD_insert, Std.compare_eq_iff_eq, and_true]

theorem mem_streams_publish {stream subject seed text : Str}
    (hValid : validateJsonLines subject (Text.asBytes text) = .ok ())
    (hFresh : state.applied (.lines stream subject seed) = false) :
    stream ∈ (handle state
      (.publishJsonLines stream subject (Text.asBytes text) seed)).2.streams := by
  rw [applied_lines_eq, Option.isSome_eq_false_iff, Option.isNone_iff_eq_none] at hFresh
  simp only [handle, publishJsonLines, hValid, jsonLines_asBytes, hFresh,
    Std.ExtTreeMap.mem_insert_self]

/-- What one call adds to the streams. -/
theorem messages_handle (state : MemoryStorage) (call : StorageCall) (stream : Str) :
    ∃ added, (handle state call).2.messages stream = state.messages stream ++ added ∧
      ∀ subject, (added.filter fun message => message.subject == subject).map (·.payload) =
        (call.addedLines state.applied stream subject).map Text.asBytes := by
  by_cases hPublish : ∃ stream subject bytes seed,
    call = .publishJsonLines stream subject bytes seed
  · obtain ⟨other, subject, bytes, seed, rfl⟩ := hPublish
    by_cases hValid : validateJsonLines subject bytes = .ok ()
    · obtain ⟨lines, hLines⟩ := jsonLines_of_validateJsonLines hValid
      obtain ⟨text, rfl, -⟩ := jsonLines_eq_ok.mp hLines
      rw [messages_publish hValid]
      by_cases hFresh : other = stream ∧ state.applied (.lines other subject seed) = false
      · rw [if_pos hFresh]
        obtain ⟨rfl, hFresh⟩ := hFresh
        obtain ⟨added, hAppend, hAdded⟩ := appendLines_append other subject
          (state.messages other) (Text.trimmedLines text)
        refine ⟨added, hAppend, ?_⟩
        intro subject'
        rw [payloads_filter hAdded, StorageCall.addedLines, Text.fromUtf8_eq_some.mpr rfl]
        by_cases hSubject : subject = subject'
        · rw [if_pos hSubject, if_pos ⟨rfl, hSubject, hValid, hFresh⟩]
          rfl
        · rw [if_neg hSubject, if_neg fun h => hSubject h.2.1]
          rfl
      · rw [if_neg hFresh]
        refine ⟨[], by simp, ?_⟩
        intro subject'
        rw [StorageCall.addedLines, if_neg fun h => hFresh ⟨h.1, h.2.2.2⟩]
        rfl
    · rw [handle_of_rejected (by simpa [StorageCall.accepted] using hValid)]
      refine ⟨[], by simp, ?_⟩
      intro subject'
      rw [StorageCall.addedLines, if_neg fun h => hValid h.2.2.1]
      rfl
  · rw [messages_of_other fun stream subject bytes seed hCall =>
      hPublish ⟨stream, subject, bytes, seed, hCall⟩]
    refine ⟨[], by simp, ?_⟩
    intro subject
    cases call with
    | publishJsonLines stream' subject' bytes seed =>
        exact absurd ⟨stream', subject', bytes, seed, rfl⟩ hPublish
    | _ => rfl

/-- A stream only grows. -/
theorem messages_prefix (state : MemoryStorage) (call : StorageCall) (stream : Str) :
    state.messages stream <+: (handle state call).2.messages stream := by
  obtain ⟨added, hAppend, -⟩ := messages_handle state call stream
  exact ⟨added, hAppend.symm⟩

/-! ## Runs -/

/-- A subject holds what has been published to it. -/
theorem payloads_run (calls : List StorageCall) (stream subject : Str) :
    ((run calls).ofSubject stream subject).map (·.payload) =
      (StorageCall.publishedLines stream subject [] calls).map Text.asBytes := by
  induction calls using List.reverseRecOn with
  | nil => simp [run, new, ofSubject, messages, StorageCall.publishedLines]
  | append_singleton calls call ih =>
      obtain ⟨added, hAppend, hAdded⟩ := messages_handle (run calls) call stream
      rw [run_append, ofSubject, hAppend, List.filter_append, List.map_append, hAdded,
        StorageCall.publishedLines_concat, isApplied_eq, List.map_append, ← ih, ofSubject]

end MemoryStorage

end EventFs.Transport
