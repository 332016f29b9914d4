import EventFs.Transport.Nats.KvLog

/-!
# A KV put is stored at most once

The marker of a put is stored before the put itself. Once the put is stored, the last
message of its key is newer than the marker, whatever other clients store afterwards and
whatever is evicted. So a later attempt sees the put, or an advance of the key after the
marker, and stores nothing.
-/

namespace EventFs.Transport.Nats.Kv

open Library Protocol Program

variable {bucket key idempotencyKey : Str}

/-! ## Subjects -/

theorem subject_injective {left right : Str} (h : subject bucket left = subject bucket right) :
    left = right := by
  have hTail := List.append_cancel_left h
  exact (List.cons.inj hTail).2

theorem keyHasReservedPrefix_append (pre rest : Str) :
    keyHasReservedPrefix (pre ++ '.' :: rest) pre = true := by
  simp [keyHasReservedPrefix, Text.stripPrefix_append, Text.startsWith]

theorem writebackMarkerKey_reserved :
    isReservedKvKey (writebackMarkerKey idempotencyKey) = true := by
  simp [isReservedKvKey, writebackMarkerKey, keyHasReservedPrefix_append]

theorem appliedMarkerKey_reserved : isReservedKvKey (appliedMarkerKey idempotencyKey) = true := by
  simp [isReservedKvKey, appliedMarkerKey, keyHasReservedPrefix_append]

theorem writebackMarkerSubject_ne_subject (hKey : isReservedKvKey key = false) :
    writebackMarkerSubject bucket idempotencyKey ≠ subject bucket key := by
  intro h
  have hEqual := subject_injective h
  rw [← hEqual, writebackMarkerKey_reserved] at hKey
  cases hKey

theorem appliedMarkerSubject_ne_subject (hKey : isReservedKvKey key = false) :
    appliedMarkerSubject bucket idempotencyKey ≠ subject bucket key := by
  intro h
  have hEqual := subject_injective h
  rw [← hEqual, appliedMarkerKey_reserved] at hKey
  cases hKey

theorem markerSubjects_ne :
    writebackMarkerSubject bucket idempotencyKey ≠ appliedMarkerSubject bucket idempotencyKey := by
  intro h
  have hEqual := subject_injective h
  have hChar : some 'w' = some 'a' := congrArg (fun s : Str => s[10]?) hEqual
  exact absurd hChar (by decide)

/-! ## Evidence -/

section Specs

variable [Nuid] (config : NatsStorageConfig)

theorem spec_hasApplied : Spec (.truth : Fact bucket key idempotencyKey)
    (Ledger.hasApplied (writebackLedgerKey bucket key idempotencyKey)) fun
      | .ok true => .evidence
      | _ => .truth := by
  refine .bind (byOutcome (byAnswer (fun _ => .evidence) .truth) fun _ => .truth) ?_
    (fun _ _ _ => trivial) ?_
  · refine (Spec.lookup rfl (byAnswer (fun _ => .evidence) .truth) ?_ fun _ _ _ => trivial).weaken
      (fun _ h => h) ?_
    · intro broker message hAt hReply
      obtain ⟨hMem, hSubject, -⟩ := last_found hAt.1.wellFormed hReply
      exact hAt.1.ledger message hMem hSubject
    · intro result log h
      rcases result with _ | _ | _
      · trivial
      · trivial
      · exact h
  · intro found
    cases found with
    | none => exact .pure fun _ _ => trivial
    | some message =>
        refine .pure ?_
        intro log h
        cases Ledger.ledgerPayloadMatches (writebackLedgerKey bucket key idempotencyKey)
          message.payload with
        | true => exact h
        | false => trivial

/-- Reading a marker: `found` is what a matching last message of the subject stands for,
`missing` what its absence does. -/
theorem spec_markerSequence {markerSubject operation : Str}
    (found : Nat → Fact bucket key idempotencyKey) (missing : Fact bucket key idempotencyKey)
    (hFound : ∀ log marker, Sound bucket key idempotencyKey log → marker ∈ log →
      marker.subject = markerSubject → (found marker.sequence).holds log)
    (hOther : ∀ log marker, Sound bucket key idempotencyKey log → marker ∈ log →
      marker.subject = markerSubject →
      markerMatches marker.payload operation key idempotencyKey = false → missing.holds log)
    (hMissing : ∀ log, Sound bucket key idempotencyKey log →
      (∀ marker ∈ log, marker.subject ≠ markerSubject) → missing.holds log) :
    Spec (.truth : Fact bucket key idempotencyKey)
      (markerSequence markerSubject operation bucket key idempotencyKey) fun
      | .ok (some sequence) => found sequence
      | .ok none => missing
      | .error _ => .truth := by
  refine .bind (fun
    | .ok (some message) =>
        if markerMatches message.payload operation key idempotencyKey then found message.sequence
        else missing
    | .ok none => missing
    | .error _ => .truth) ?_ (fun _ _ h => h) ?_
  · refine (Spec.lookup rfl (fun
      | some message =>
          if markerMatches message.payload operation key idempotencyKey then
            found message.sequence
          else missing
      | none => missing) ?_ ?_).weaken (fun _ h => h) ?_
    · intro broker message hAt hReply
      obtain ⟨hMem, hSubject, -⟩ := last_found hAt.1.wellFormed hReply
      by_cases hMatches : markerMatches message.payload operation key idempotencyKey = true
      · simp only [hMatches, if_true]
        exact hFound _ message hAt.1.sound hMem hSubject
      · simp only [hMatches]
        exact hOther _ message hAt.1.sound hMem hSubject (by simpa using hMatches)
    · intro broker hAt hReply
      exact hMissing _ hAt.1.sound (last_missing hAt.1.wellFormed hReply)
    · intro result log h
      match result with
      | .ok (some _) => exact h
      | .ok none => exact h
      | .error _ => trivial
  · intro reply
    cases reply with
    | none => exact .pure fun _ h => h
    | some message =>
        by_cases hMatches : markerMatches message.payload operation key idempotencyKey = true
        · simp only [hMatches, if_true]
          exact .pure fun _ h => h
        · simp only [hMatches]
          exact .pure fun _ h => h

theorem spec_appliedMarkerSequence : Spec (.truth : Fact bucket key idempotencyKey)
    (appliedMarkerSequence bucket key idempotencyKey) fun
      | .ok (some _) => .evidence
      | _ => .truth := by
  refine (spec_markerSequence (fun _ => .evidence) .truth ?_ (fun _ _ _ _ _ _ => trivial)
    fun _ _ _ => trivial).weaken (fun _ h => h) ?_
  · intro log marker hSound hMem hSubject
    exact Or.inl (hSound.applied marker hMem hSubject)
  · intro result log h
    match result with
    | .ok (some _) => exact h
    | .ok none => trivial
    | .error _ => trivial

/-- Without a marker the put has not been stored. -/
theorem spec_applyMarkerSequence : Spec (.truth : Fact bucket key idempotencyKey)
    (applyMarkerSequence bucket key idempotencyKey) fun
      | .ok (some sequence) => .marked (some sequence)
      | .ok none => .unpublished
      | .error _ => .truth := by
  refine spec_markerSequence (fun sequence => .marked (some sequence)) .unpublished ?_ ?_ ?_
  · intro log marker _ hMem hSubject
    exact ⟨marker, hMem, hSubject, fun s hs => Option.some.inj hs⟩
  · intro log marker hSound hMem hSubject hNot
    rw [hSound.markers marker hMem hSubject] at hNot
    cases hNot
  · intro log hSound hNone hPublished
    obtain ⟨marker, hMem, hSubject⟩ := hSound.marked hPublished
    exact hNone marker hMem hSubject

theorem spec_latestAppliedRevision : Spec (.truth : Fact bucket key idempotencyKey)
    (latestAppliedRevision bucket key idempotencyKey) fun
      | .ok (some _) => .evidence
      | _ => .truth := by
  refine .bind (byOutcome (byAnswer (fun message : Message =>
    if headersContainIdempotencyKey message.headers idempotencyKey then .evidence else .truth)
    .truth) fun _ => .truth) ?_ (fun _ _ _ => trivial) ?_
  · refine (Spec.lookup rfl (byAnswer (fun message : Message =>
      if headersContainIdempotencyKey message.headers idempotencyKey then .evidence else .truth)
      .truth) ?_ fun _ _ _ => trivial).weaken (fun _ h => h) ?_
    · intro broker message hAt hReply
      obtain ⟨hMem, hSubject, -⟩ := last_found hAt.1.wellFormed hReply
      by_cases hHeader : headersContainIdempotencyKey message.headers idempotencyKey = true
      · simp only [byAnswer, hHeader, if_true]
        exact Or.inl ⟨message, hMem, by simp [carries, hSubject, hHeader]⟩
      · simp only [byAnswer, hHeader]
        trivial
    · intro result log h
      rcases result with _ | _ | _
      · trivial
      · trivial
      · exact h
  · intro reply
    cases reply with
    | none => exact .pure fun _ _ => trivial
    | some message =>
        by_cases hHeader : headersContainIdempotencyKey message.headers idempotencyKey = true
        · simp only [byOutcome, byAnswer, hHeader, if_true]
          exact .pure fun _ h => h
        · simp only [byOutcome, byAnswer, hHeader]
          exact .pure fun _ _ => trivial

/-- The put is newer than every marker, and the last message of the key is not older than
the put. -/
theorem spec_targetSequenceAfterApplyMarker : Spec (.truth : Fact bucket key idempotencyKey)
    (targetSequenceAfterApplyMarker bucket key idempotencyKey) fun
      | .ok (some _) => .evidence
      | .ok none => .unpublished
      | .error _ => .truth := by
  refine .bind _ spec_applyMarkerSequence (fun _ _ _ => trivial) ?_
  intro marker
  cases marker with
  | none => exact .pure fun _ h => h
  | some sequence =>
      refine .bind (fun
        | .ok (some message) => if sequence < message.sequence then .evidence else .unpublished
        | .ok none => .unpublished
        | .error _ => .truth) ?_ (fun _ _ h => h) ?_
      · refine (Spec.lookup rfl (fun
          | some message => if sequence < message.sequence then .evidence else .unpublished
          | none => .unpublished) ?_ ?_).weaken (fun _ h => h) ?_
        · rintro broker message ⟨hInv, marker, hMarker, hSubject, hSequence⟩ hReply
          obtain ⟨hMem, hKey, hNewest⟩ := last_found hInv.wellFormed hReply
          have hMarkerSequence := hSequence sequence rfl
          by_cases hLater : sequence < message.sequence
          · simp only [hLater, if_true]
            exact Or.inr ⟨marker, hMarker, hSubject, message, hMem, hKey, by omega⟩
          · simp only [hLater]
            rintro ⟨stored, hStored, hCarries⟩
            have hBefore := hInv.sound.before marker hMarker hSubject stored hStored hCarries
            have hStoredKey : stored.subject = subject bucket key := by
              simp only [carries, Bool.and_eq_true, beq_iff_eq] at hCarries
              exact hCarries.1
            have hNotNewer := hNewest stored hStored hStoredKey
            omega
        · rintro broker ⟨hInv, -⟩ hReply ⟨stored, hStored, hCarries⟩
          simp only [carries, Bool.and_eq_true, beq_iff_eq] at hCarries
          exact last_missing hInv.wellFormed hReply stored hStored hCarries.1
        · intro result log h
          match result with
          | .ok (some _) => exact h
          | .ok none => exact h
          | .error _ => trivial
      · intro reply
        cases reply with
        | none => exact .pure fun _ h => h
        | some message =>
            by_cases hLater : sequence < message.sequence
            · simp only [hLater, if_true]
              exact .pure fun _ h => h
            · simp only [hLater]
              exact .pure fun _ h => h

theorem spec_scanFrom (lastSequence fuel : Nat) :
    ∀ after, Spec (.unpublished : Fact bucket key idempotencyKey)
      (scanFrom (streamName bucket) (subject bucket key)
        (fun message => .ok (if headersContainIdempotencyKey message.headers idempotencyKey then
          some message.sequence else none)) lastSequence fuel after) fun
      | .ok (some _) => .evidence
      | .ok none => .unpublished
      | .error _ => .truth := by
  induction fuel with
  | zero =>
      intro after
      exact .throw fun _ _ => trivial
  | succ fuel ih =>
      intro after
      refine .attempt rfl (fun
        | .ok message =>
            if headersContainIdempotencyKey message.headers idempotencyKey then .evidence
            else .unpublished
        | .error _ => .unpublished) ?_ (fun _ _ _ h => h) ?_
      · intro broker hAt
        cases hReply : (Broker.handle broker (.next (streamName bucket) (subject bucket key)
            after)).1 with
        | error err => exact hAt.2
        | ok message =>
            obtain ⟨hMem, hSubject⟩ := next_found hAt.1.wellFormed hReply
            by_cases hHeader : headersContainIdempotencyKey message.headers idempotencyKey = true
            · simp only [hHeader, if_true]
              exact Or.inl ⟨message, hMem, by simp [carries, hSubject, hHeader]⟩
            · simp only [hHeader]
              exact hAt.2
      · intro reply
        cases reply with
        | error err =>
            by_cases hTimeout : err.isTimeout = true
            · simp only [hTimeout, if_true]
              exact .bind (fun _ => .truth) (.throw fun _ _ => trivial) (fun _ _ _ => trivial)
                fun _ => .throw fun _ _ => trivial
            · simp only [hTimeout]
              exact .throw fun _ _ => trivial
        | ok message =>
            by_cases hHeader : headersContainIdempotencyKey message.headers idempotencyKey = true
            · simp only [hHeader, if_true]
              exact .pure fun _ h => h
            · simp only [hHeader]
              by_cases hLast : lastSequence ≤ message.sequence
              · simp only [hLast, if_true]
                exact .pure fun _ h => h
              · simp only [hLast, if_false]
                exact ih message.sequence

theorem spec_historyAppliedRevision : Spec (.unpublished : Fact bucket key idempotencyKey)
    (historyAppliedRevision bucket key idempotencyKey) fun
      | .ok (some _) => .evidence
      | .ok none => .unpublished
      | .error _ => .truth := by
  refine .bind (fun _ => .unpublished) ?_ (fun _ _ _ => trivial) ?_
  · exact keeps_of_quiet (.bind (.lookup rfl) fun _ => .pure _) _
  · intro last
    cases last with
    | none => exact .pure fun _ h => h
    | some lastSequence =>
        refine .bind (fun _ => .unpublished) (keeps_of_quiet (.lookup rfl) _)
          (fun _ _ _ => trivial) ?_
        intro subscription
        cases subscription with
        | none => exact .pure fun _ h => h
        | some _ => exact spec_scanFrom lastSequence _ 0

/-- Evidence is noted; without evidence nothing changes. -/
theorem spec_noting {before missing : Fact bucket key idempotencyKey} {look : NatsM (Option Nat)}
    (h : Spec before look fun
      | .ok (some _) => .evidence
      | .ok none => missing
      | .error _ => .truth) (ledgerKey : Str) :
    Spec before (noting config ledgerKey look) fun
      | .ok (some _) => .evidence
      | .ok none => missing
      | .error _ => .truth := by
  refine .bind _ h (fun _ _ h => h) ?_
  intro found
  cases found with
  | none => exact .pure fun _ h => h
  | some sequence =>
      exact .bind (fun _ => .evidence) (spec_recordApplied config (fun _ h => h) ledgerKey)
        (fun _ _ _ => trivial) fun _ => .pure fun _ h => h

theorem Spec.missingTruth {before : Fact bucket key idempotencyKey} {look : NatsM (Option Nat)}
    (h : Spec before look fun
      | .ok (some _) => .evidence
      | _ => .truth) :
    Spec before look fun
      | .ok (some _) => .evidence
      | .ok none => .truth
      | .error _ => .truth := by
  refine h.weaken (fun _ h => h) ?_
  intro result log h
  match result with
  | .ok (some _) => exact h
  | .ok none => trivial
  | .error _ => trivial

/-- An answer that the put was applied rests on evidence; the answer that it was not is
right. -/
theorem spec_anyAppliedRevision : Spec (.truth : Fact bucket key idempotencyKey)
    (anyAppliedRevision config bucket key idempotencyKey) fun
      | .ok (some _) => .evidence
      | .ok none => .unpublished
      | .error _ => .truth := by
  refine .bind _ spec_hasApplied (fun _ _ _ => trivial) ?_
  intro applied
  cases applied with
  | true => exact .pure fun _ h => h
  | false =>
      refine .bind _ (spec_noting config spec_appliedMarkerSequence.missingTruth _)
        (fun _ _ _ => trivial) ?_
      intro byMarker
      cases byMarker with
      | some sequence => exact .pure fun _ h => h
      | none =>
          refine .bind _ (spec_noting config spec_latestAppliedRevision.missingTruth _)
            (fun _ _ _ => trivial) ?_
          intro byLatest
          cases byLatest with
          | some revision => exact .pure fun _ h => h
          | none =>
              refine .bind _ (spec_noting config spec_targetSequenceAfterApplyMarker _)
                (fun _ _ _ => trivial) ?_
              intro byTarget
              cases byTarget with
              | some sequence => exact .pure fun _ h => h
              | none => exact spec_noting config spec_historyAppliedRevision _

theorem spec_putApplied : Spec (.truth : Fact bucket key idempotencyKey)
    (putApplied config bucket key idempotencyKey) fun
      | .ok true => .evidence
      | _ => .truth := by
  refine .bind _ (spec_anyAppliedRevision config) (fun _ _ _ => trivial) ?_
  intro revision
  cases revision with
  | some revision => exact .pure fun _ h => h
  | none => exact .pure fun _ _ => trivial

/-! ## The put -/

section Fitting

omit [Nuid]

theorem not_carries_of_subject_ne {message : Message} (h : message.subject ≠ subject bucket key) :
    carries bucket key idempotencyKey message = false := by
  simp [carries, h]

theorem fits_writebackMarker (hKey : isReservedKvKey key = false) :
    Fits (writebackMarkerSubject bucket idempotencyKey) []
      (markerPayload writebackMarkerOperation key idempotencyKey)
      (.unpublished : Fact bucket key idempotencyKey)
      (.and .unpublished (.marked none)) := by
  intro log sequence _ hSound hUnpublished
  have hCarries : carries bucket key idempotencyKey
      ⟨writebackMarkerSubject bucket idempotencyKey, sequence, [],
        markerPayload writebackMarkerOperation key idempotencyKey⟩ = false :=
    not_carries_of_subject_ne (writebackMarkerSubject_ne_subject hKey)
  refine ⟨hSound.appendOther hCarries ?_ ?_, ?_, ?_⟩
  · intro _
    exact ⟨by simp [markerPayload, markerMatches], hUnpublished⟩
  · intro hSubject
    exact absurd hSubject markerSubjects_ne
  · exact fun hPublished => hUnpublished (published_of_append hCarries hPublished)
  · exact ⟨_, List.mem_append_right _ (List.mem_singleton.mpr rfl), rfl, fun s hs => by cases hs⟩

theorem fits_put (hKey : isReservedKvKey key = false) (bytes : Bytes) :
    Fits (subject bucket key) [(writebackIdempotencyHeader, idempotencyKey)] (.bytes bytes)
      (.and .unpublished (.marked none) : Fact bucket key idempotencyKey) .published := by
  rintro log sequence hNewest hSound ⟨hUnpublished, marker, hMarker, hSubject, -⟩
  have hCarries : carries bucket key idempotencyKey ⟨subject bucket key, sequence,
      [(writebackIdempotencyHeader, idempotencyKey)], .bytes bytes⟩ = true := by
    simp [carries, headersContainIdempotencyKey, Headers.get]
  refine ⟨hSound.appendPut hCarries (Ne.symm (writebackMarkerSubject_ne_subject hKey))
    hUnpublished ⟨marker, hMarker, hSubject⟩ hNewest, ?_⟩
  exact ⟨_, List.mem_append_right _ (List.mem_singleton.mpr rfl), hCarries⟩

theorem fits_appliedMarker (hKey : isReservedKvKey key = false) :
    Fits (appliedMarkerSubject bucket idempotencyKey) []
      (markerPayload appliedMarkerOperation key idempotencyKey)
      (.published : Fact bucket key idempotencyKey) .published := by
  intro log sequence _ hSound hPublished
  have hCarries : carries bucket key idempotencyKey
      ⟨appliedMarkerSubject bucket idempotencyKey, sequence, [],
        markerPayload appliedMarkerOperation key idempotencyKey⟩ = false :=
    not_carries_of_subject_ne (appliedMarkerSubject_ne_subject hKey)
  refine ⟨hSound.appendOther hCarries ?_ (fun _ => hPublished), hPublished.append _⟩
  intro hSubject
  exact absurd hSubject.symm markerSubjects_ne

end Fitting

/-- A marker that is not found is published. -/
theorem spec_ensureMarker {before after : Fact bucket key idempotencyKey}
    {found : NatsM (Option Nat)} {markerSubject operation publishId : Str}
    (hFound : Spec before found fun
      | .ok (some _) => after
      | .ok none => before
      | .error _ => .truth)
    (hFits : Fits markerSubject [] (markerPayload operation key idempotencyKey) before after) :
    Spec before (ensureMarker config found markerSubject operation publishId bucket key
      idempotencyKey) fun
      | .ok _ => after
      | .error _ => .truth := by
  refine .bind _ hFound (fun _ _ _ => trivial) ?_
  intro sequence
  cases sequence with
  | some sequence => exact .pure fun _ h => h
  | none =>
      refine .bind (fun _ => before) (keeps_of_quiet (quiet_ensureBucket config bucket) before)
        (fun _ _ _ => trivial) ?_
      intro _
      refine .bind (fun _ => before) (keeps_of_quiet (.ensureDuplicateWindow config _) before)
        (fun _ _ _ => trivial) ?_
      intro _
      exact .retryPublish publishId hFits config.retries

theorem spec_ensureApplyMarker (hKey : isReservedKvKey key = false) :
    Spec (.unpublished : Fact bucket key idempotencyKey)
      (ensureApplyMarker config bucket key idempotencyKey) fun
      | .ok _ => .and .unpublished (.marked none)
      | .error _ => .truth := by
  refine spec_ensureMarker config ?_ (fits_writebackMarker hKey)
  refine (spec_applyMarkerSequence.frame
    (keeps_of_quiet (quiet_markerSequence _ _ _ _ _)) .unpublished).weaken
    (fun _ h => ⟨trivial, h⟩) ?_
  rintro result log ⟨hAfter, hUnpublished⟩
  match result with
  | .ok (some sequence) =>
      obtain ⟨marker, hMem, hSubject, -⟩ := hAfter
      exact ⟨hUnpublished, marker, hMem, hSubject, fun s hs => by cases hs⟩
  | .ok none => exact hUnpublished
  | .error _ => trivial

theorem spec_recordAppliedMarker (hKey : isReservedKvKey key = false) :
    Spec (.published : Fact bucket key idempotencyKey)
      (recordAppliedMarker config bucket key idempotencyKey) fun
      | .ok _ => .published
      | .error _ => .truth := by
  refine spec_ensureMarker config ?_ (fits_appliedMarker hKey)
  refine (keeps_of_quiet (quiet_markerSequence _ _ _ _ _) .published).weaken (fun _ h => h) ?_
  intro result log h
  match result with
  | .ok (some _) => exact h
  | .ok none => exact h
  | .error _ => trivial

/-- The put is published only where it has not been stored, and after its marker. -/
theorem spec_putIdempotent (hKey : isReservedKvKey key = false) (bytes : Bytes) :
    Spec (.truth : Fact bucket key idempotencyKey)
      (putIdempotent config bucket key bytes idempotencyKey) fun _ => .truth := by
  refine .bind _ (spec_anyAppliedRevision config) (fun _ _ _ => trivial) ?_
  intro revision
  cases revision with
  | some revision => exact .pure fun _ _ => trivial
  | none =>
      refine .bind (fun _ => .unpublished) (keeps_of_quiet (quiet_ensureBucket config bucket) _)
        (fun _ _ _ => trivial) ?_
      intro _
      refine .bind (fun _ => .unpublished) (keeps_of_quiet (.ensureDuplicateWindow config _) _)
        (fun _ _ _ => trivial) ?_
      intro _
      refine .bind _ (spec_ensureApplyMarker config hKey) (fun _ _ _ => trivial) ?_
      intro _
      refine .bind _ (.retryPublish idempotencyKey (fits_put hKey bytes) config.retries)
        (fun _ _ _ => trivial) ?_
      intro sequence
      refine .bind _ (spec_recordAppliedMarker config hKey) (fun _ _ _ => trivial) ?_
      intro _
      refine .bind (fun _ => .published)
        (spec_recordApplied config (fun _ h => Or.inl h) _) (fun _ _ _ => trivial) ?_
      intro _
      exact .pure fun _ _ => trivial

end Specs

/-! ## Runs -/

section Runs

variable [Nuid]

/-- The calls made for one put, and what other clients do between them. Every call may
end anywhere. -/
inductive Activity (bucket key idempotencyKey : Str) : Broker → Broker → Prop
  | put {broker broker' : Broker} (config : NatsStorageConfig) (bytes : Bytes)
      (outcome : Option (TransportResult Nat))
      (hRun : Run faultyBroker (Foreign bucket key idempotencyKey)
        (putIdempotent config bucket key bytes idempotencyKey).run broker outcome broker') :
      Activity bucket key idempotencyKey broker broker'
  | look {broker broker' : Broker} (config : NatsStorageConfig)
      (outcome : Option (TransportResult Bool))
      (hRun : Run faultyBroker (Foreign bucket key idempotencyKey)
        (putApplied config bucket key idempotencyKey).run broker outcome broker') :
      Activity bucket key idempotencyKey broker broker'
  | foreign {broker broker' : Broker} (hStep : Foreign bucket key idempotencyKey broker broker') :
      Activity bucket key idempotencyKey broker broker'

/-- A broker that has not seen the put. -/
structure Untouched (bucket key idempotencyKey : Str) (broker : Broker) : Prop where
  wellFormed : broker.WellFormed
  stored : ∀ message ∈ broker.logOf (streamName bucket), Strange bucket key idempotencyKey message
  ledger : ∀ message ∈ broker.logOf Ledger.stream,
    message.subject ≠ Ledger.ledgerSubject (writebackLedgerKey bucket key idempotencyKey)

omit [Nuid] in
theorem Untouched.inv {broker : Broker} (h : Untouched bucket key idempotencyKey broker) :
    Inv bucket key idempotencyKey broker := by
  have hNone : ¬ Published bucket key idempotencyKey (broker.logOf (streamName bucket)) := by
    rintro ⟨message, hMem, hCarries⟩
    rw [(h.stored message hMem).2.2] at hCarries
    cases hCarries
  refine ⟨h.wellFormed, ⟨?_, ?_, ?_, ?_, ?_⟩, ?_⟩
  · rw [List.countP_eq_zero.mpr]
    · exact Nat.zero_le 1
    · intro message hMem hCarries
      exact hNone ⟨message, hMem, hCarries⟩
  · exact fun marker hMem hSubject => absurd hSubject (h.stored marker hMem).1
  · exact fun hPublished => absurd hPublished hNone
  · exact fun marker hMem hSubject => absurd hSubject (h.stored marker hMem).1
  · exact fun marker hMem hSubject => absurd hSubject (h.stored marker hMem).2.1
  · exact fun message hMem hSubject => absurd hSubject (h.ledger message hMem)

theorem inv_of_activity (hKey : isReservedKvKey key = false) {broker broker' : Broker}
    (h : Activity bucket key idempotencyKey broker broker')
    (hInv : Inv bucket key idempotencyKey broker) : Inv bucket key idempotencyKey broker' := by
  cases h with
  | put config bytes outcome hRun =>
      have hEnd := spec_putIdempotent config hKey bytes ⟨hInv, trivial⟩ hRun
      cases outcome with
      | none => exact hEnd
      | some result => exact hEnd.1
  | look config outcome hRun =>
      have hEnd := spec_putApplied config ⟨hInv, trivial⟩ hRun
      cases outcome with
      | none => exact hEnd
      | some result => exact hEnd.1
  | foreign hStep => exact (stable_at .truth hStep ⟨hInv, trivial⟩).1

theorem inv_of_activities (hKey : isReservedKvKey key = false) {start broker : Broker}
    (hStart : Untouched bucket key idempotencyKey start)
    (h : Relation.ReflTransGen (Activity bucket key idempotencyKey) start broker) :
    Inv bucket key idempotencyKey broker := by
  induction h with
  | refl => exact hStart.inv
  | tail _ hStep ih => exact inv_of_activity hKey hStep ih

/-- However the calls for one put are cut off and repeated, at most one message carries
its idempotency key, and the put is reported as applied only with evidence. -/
theorem put_stored_at_most_once (hKey : isReservedKvKey key = false) {start broker : Broker}
    (hStart : Untouched bucket key idempotencyKey start)
    (hRuns : Relation.ReflTransGen (Activity bucket key idempotencyKey) start broker) :
    (broker.logOf (streamName bucket)).countP (carries bucket key idempotencyKey) ≤ 1 ∧
      ∀ config broker', Run faultyBroker (Foreign bucket key idempotencyKey)
        (putApplied config bucket key idempotencyKey).run broker (some (.ok true)) broker' →
          Evidence bucket key idempotencyKey (broker'.logOf (streamName bucket)) := by
  have hInv := inv_of_activities hKey hStart hRuns
  refine ⟨hInv.sound.once, ?_⟩
  intro config broker' hRun
  exact (spec_putApplied config ⟨hInv, trivial⟩ hRun).2

end Runs

/-! A put that crashes right after its message is stored, and is made again. -/

@[reducible] def countingNuid : Nuid := ⟨fun issued => Text.decimal issued.length⟩

def emptyBroker : Broker := ⟨fun _ => none, [], [], []⟩

def putProgram : Program nats (TransportResult Nat) :=
  (putIdempotent ⟨1, 64, 2⟩ ['b'] ['k'] [1] ['x']).run

def crashedPut : Broker :=
  letI := countingNuid
  stateAfter Broker.handle 16 putProgram emptyBroker

def repeatedPut : Broker :=
  letI := countingNuid
  (eval Broker.handle putProgram crashedPut).2

theorem repeated_put_stored_once :
    (crashedPut.logOf (streamName ['b'])).countP (carries ['b'] ['k'] ['x']) = 1 ∧
      (repeatedPut.logOf (streamName ['b'])).countP (carries ['b'] ['k'] ['x']) ≤ 1 := by
  let _ := countingNuid
  have hStart : Untouched ['b'] ['k'] ['x'] emptyBroker := by
    refine ⟨?_, ?_, ?_⟩
    · intro name stream hStream
      cases hStream
    · intro message hMem
      cases hMem
    · intro message hMem
      cases hMem
  have hCrash : Activity ['b'] ['k'] ['x'] emptyBroker crashedPut :=
    .put ⟨1, 64, 2⟩ [1] none (run_stateAfter Faulty.done 16 putProgram emptyBroker)
  have hRepeat : Activity ['b'] ['k'] ['x'] crashedPut repeatedPut :=
    .put ⟨1, 64, 2⟩ [1] _ (run_eval Faulty.done putProgram crashedPut)
  exact ⟨by decide, (put_stored_at_most_once (by decide) hStart (.tail (.single hCrash) hRepeat)).1⟩

end EventFs.Transport.Nats.Kv
