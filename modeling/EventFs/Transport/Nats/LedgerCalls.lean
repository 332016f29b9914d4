import EventFs.Transport.Nats.KvLog
import EventFs.Transport.Nats.LedgerKeys
import EventFs.Transport.Nats.ObjectChunks
import EventFs.Transport.Nats.Streams

/-!
# The calls that store into the ledger

Whatever the operations of the three surfaces are answered, a call of theirs that stores into
the ledger stream is the publish of `recordApplied` for the key of the operation, or stores a
line of JSON, which is no ledger key.
-/

namespace EventFs.Transport.Nats.Ledger

open Library Protocol Program

/-- The publish by which `recordApplied` notes a key. -/
def recordCall (key : Str) : NatsCall :=
  .publish stream (ledgerSubject key) [] (.bytes (Text.asBytes key))
    ⟨some ("writeback-applied:".toList ++ hexEncode (Text.asBytes key)), none⟩

/-- No write has this payload for its key. -/
def Unlike (payload : Payload) : Prop := ∀ w : Write, payload ≠ .bytes (Text.asBytes w.ledgerKey)

/-- What the call stores into the ledger is the note of one of these keys, or no key. -/
def Notes (keys : Str → Prop) (call : NatsCall) : Prop :=
  ∀ subject headers payload options, call = .publish stream subject headers payload options →
    (∃ key, keys key ∧ call = recordCall key) ∨ Unlike payload

/-! ## Calls -/

section Calls

variable {keys : Str → Prop} {α : Type}

theorem notes_quiet {call : NatsCall} (hQuiet : call.quiet = true) : Notes keys call := by
  rintro subject headers payload options rfl
  cases hQuiet

theorem notes_purge (name subject : Str) : Notes keys (.purgeStreamSubject name subject) := by
  intro _ _ _ _ h
  cases h

theorem notes_putObject (bucket object : Str) (description : Option ObjectDescription)
    (bytes : Bytes) : Notes keys (.putObject bucket object description bytes) := by
  intro _ _ _ _ h
  cases h

theorem notes_elsewhere {name : Str} (hName : stream ≠ name) (subject : Str) (headers : Headers)
    (payload : Payload) (options : PublishOptions) :
    Notes keys (.publish name subject headers payload options) := by
  intro _ _ _ _ h
  cases h
  exact absurd rfl hName

theorem notes_unlike {payload : Payload} (h : Unlike payload) (name subject : Str)
    (headers : Headers) (options : PublishOptions) :
    Notes keys (.publish name subject headers payload options) := by
  intro _ _ _ _ hCall
  cases hCall
  exact Or.inr h

theorem notes_record {ledgerKey : Str} (h : keys ledgerKey) : Notes keys (recordCall ledgerKey) :=
  fun _ _ _ _ _ => Or.inl ⟨ledgerKey, h, rfl⟩

theorem issues_quiet {p : NatsM α} (h : IsQuiet p) : Issues (Notes keys) p :=
  h.issues fun _ => notes_quiet

/-- A publish into the stream of a bucket. -/
theorem issues_publish {name : Str} (hName : stream ≠ name) (retries : Nat) (subject : Str)
    (headers : Headers) (payload : Payload) (options : PublishOptions) :
    Issues (Notes keys) (retryPublish retries name subject headers payload options) :=
  .retryPublish (notes_quiet rfl) (notes_elsewhere hName _ _ _ _)

variable (config : NatsStorageConfig)

theorem issues_recordApplied {ledgerKey : Str} (h : keys ledgerKey) :
    Issues (Notes keys) (recordApplied config ledgerKey) :=
  .bind (issues_quiet (.ensureStream config)) fun _ =>
    .bind (.retryPublish (notes_quiet rfl) (notes_record h)) fun _ => .pure ()

/-! ### KV puts and deletes -/

section Kv

variable {bucket key idempotencyKey : Str}

theorem issues_noting {ledgerKey : Str} (h : keys ledgerKey) {evidence : NatsM (Option Nat)}
    (hQuiet : IsQuiet evidence) :
    Issues (Notes keys) (Kv.noting config ledgerKey evidence) := by
  refine .bind (issues_quiet hQuiet) ?_
  intro found
  cases found with
  | none => exact .pure _
  | some sequence => exact .bind (issues_recordApplied config h) fun _ => .pure _

theorem quiet_latestAppliedRevision :
    IsQuiet (Kv.latestAppliedRevision bucket key idempotencyKey) := by
  refine .bind (.lookup rfl) ?_
  intro found
  cases found with
  | none => exact .pure _
  | some message =>
      by_cases hHeader : Kv.headersContainIdempotencyKey message.headers idempotencyKey = true
      · simp only [hHeader, if_true]
        exact .pure _
      · simp only [hHeader]
        exact .pure _

theorem quiet_targetSequence :
    IsQuiet (Kv.targetSequenceAfterApplyMarker bucket key idempotencyKey) := by
  refine .bind (Kv.quiet_markerSequence _ _ _ _ _) ?_
  intro marker
  cases marker with
  | none => exact .pure _
  | some sequence =>
      refine .bind (.lookup rfl) ?_
      intro found
      cases found with
      | none => exact .pure _
      | some message =>
          by_cases hLater : sequence < message.sequence
          · simp only [hLater, if_true]
            exact .pure _
          · simp only [hLater]
            exact .pure _

variable (h : keys (Kv.writebackLedgerKey bucket key idempotencyKey))

include h

theorem issues_anyAppliedRevision :
    Issues (Notes keys) (Kv.anyAppliedRevision config bucket key idempotencyKey) := by
  refine .bind (issues_quiet (Objects.quiet_hasApplied _)) ?_
  intro applied
  cases applied with
  | true => exact .pure _
  | false =>
      refine .bind (issues_noting config h (Kv.quiet_markerSequence _ _ _ _ _)) ?_
      intro marker
      cases marker with
      | some sequence => exact .pure _
      | none =>
          refine .bind (issues_noting config h quiet_latestAppliedRevision) ?_
          intro latest
          cases latest with
          | some revision => exact .pure _
          | none =>
              refine .bind (issues_noting config h quiet_targetSequence) ?_
              intro target
              cases target with
              | some sequence => exact .pure _
              | none => exact issues_noting config h (.scanSubjectHistoryUntil _ _ _)

theorem issues_putApplied :
    Issues (Notes keys) (Kv.putApplied config bucket key idempotencyKey) :=
  .bind (issues_anyAppliedRevision config h) fun _ => .pure _

omit h in
theorem issues_ensureMarker {found : NatsM (Option Nat)} (hQuiet : IsQuiet found)
    (subject operation publishId : Str) :
    Issues (Notes keys)
      (Kv.ensureMarker config found subject operation publishId bucket key idempotencyKey) := by
  refine .bind (issues_quiet hQuiet) ?_
  intro marker
  cases marker with
  | some sequence => exact .pure _
  | none =>
      refine .bind (issues_quiet (Kv.quiet_ensureBucket config bucket)) fun _ => ?_
      refine .bind (issues_quiet (.ensureDuplicateWindow config _)) fun _ => ?_
      exact issues_publish Kv.ledger_ne_streamName _ _ _ _ _

theorem issues_putIdempotent (bytes : Bytes) :
    Issues (Notes keys) (Kv.putIdempotent config bucket key bytes idempotencyKey) := by
  refine .bind (issues_anyAppliedRevision config h) ?_
  intro applied
  cases applied with
  | some revision => exact .pure _
  | none =>
      refine .bind (issues_quiet (Kv.quiet_ensureBucket config bucket)) fun _ => ?_
      refine .bind (issues_quiet (.ensureDuplicateWindow config _)) fun _ => ?_
      refine .bind (issues_ensureMarker config (Kv.quiet_markerSequence _ _ _ _ _) _ _ _)
        fun _ => ?_
      refine .bind (issues_publish Kv.ledger_ne_streamName _ _ _ _ _) fun _ => ?_
      refine .bind (issues_ensureMarker config (Kv.quiet_markerSequence _ _ _ _ _) _ _ _)
        fun _ => ?_
      refine .bind ?_ fun _ => .pure _
      exact issues_recordApplied config h

omit h in
theorem quiet_get : IsQuiet (Kv.get bucket key) := by
  refine .inspect ?_ ?_
  · refine .bind (.attempt rfl) ?_
    intro reply
    cases reply with
    | ok value => exact .pure _
    | error err => exact .throw _
  · intro result
    cases result with
    | error err =>
        cases err with
        | notFound => exact .pure _
        | _ => exact .throw _
    | ok _ =>
        refine .bind (.lookup rfl) ?_
        intro found
        cases found with
        | none => exact .pure _
        | some message =>
            by_cases hPut : Kv.messageIsPut message.headers = true
            · simp only [hPut, if_true]
              exact .pure _
            · simp only [hPut]
              exact .pure _

omit h in
theorem issues_deleteRevisionOnce (revision : Nat) :
    Issues (Notes keys) (Kv.deleteRevisionOnce config bucket key revision) := by
  refine .inspect (.retryIo (.perform (notes_elsewhere Kv.ledger_ne_streamName _ _ _ _)) _) ?_
  intro result
  cases result with
  | ok _ => exact .pure _
  | error err =>
      refine .bind (issues_quiet quiet_get) ?_
      intro entry
      cases entry with
      | none => exact .pure _
      | some entry =>
          dsimp only
          split
          · exact .pure _
          · exact .throw _

omit h in
theorem issues_delete : Issues (Notes keys) (Kv.delete config bucket key) := by
  unfold Kv.delete Kv.retryPlainKvDelete
  generalize min (config.retries + 1) (2 ^ 64 - 1) = attempts
  suffices hRounds : ∀ left, Issues (Notes keys) (Kv.plainKvDeleteRounds
      (do return (← Kv.get bucket key).map (·.revision)) (Kv.deleteRevisionOnce config bucket key)
      attempts left) from hRounds attempts
  intro left
  induction left with
  | zero => exact .throw _
  | succ left ih =>
      refine .bind (.bind (issues_quiet quiet_get) fun _ => .pure _) ?_
      intro current
      cases current with
      | none => exact .throw _
      | some revision =>
          refine .bind (issues_deleteRevisionOnce config revision) ?_
          intro outcome
          cases outcome with
          | deleted => exact .pure _
          | missing => exact .throw _
          | revisionChanged =>
              by_cases hLast : left = 0
              · simp only [hLast, if_true]
                exact .throw _
              · simp only [hLast, if_false]
                exact ih

end Kv

/-! ### Object puts and deletes -/

section Objects

variable {bucket object idempotencyKey : Str}

theorem issues_purgeChunks (nuid : Str) :
    Issues (Notes keys) (Objects.purgeChunks bucket nuid) :=
  .bind (.lookup (notes_purge _ _)) fun _ => .pure _

theorem issues_purgeChunksIfKnown (nuid : Str) :
    Issues (Notes keys) (Objects.purgeChunksIfKnown bucket nuid) := by
  unfold Objects.purgeChunksIfKnown
  split
  · exact .pure _
  · exact issues_purgeChunks nuid

theorem issues_settle {ledgerKey : Str} (h : keys ledgerKey)
    (identity : Option ObjectWritebackIdentity)
    (marker : Option Objects.ObjectApplyMarker) :
    Issues (Notes keys) (Objects.settle config bucket ledgerKey identity marker) :=
  .bind (issues_purgeChunksIfKnown _) fun _ =>
    .bind (issues_recordApplied config h) fun _ => .pure _

theorem issues_objectPutApplied
    (h : keys (Objects.objectWritebackLedgerKey bucket object idempotencyKey)) :
    Issues (Notes keys) (Objects.putApplied config bucket object idempotencyKey) := by
  refine .bind (issues_quiet (Objects.quiet_applyMarker _)) ?_
  intro marker
  refine .bind (issues_quiet (Objects.quiet_hasApplied _)) ?_
  intro applied
  cases applied with
  | true => exact .bind (issues_purgeChunksIfKnown _) fun _ => .pure _
  | false =>
      refine .bind (issues_quiet (Objects.quiet_currentIdentity _)) ?_
      intro current
      cases current with
      | some identity => exact issues_settle config h _ _
      | none =>
          refine .bind (issues_quiet (.scanSubjectHistoryUntil _ _ _)) ?_
          intro past
          cases past with
          | some identity => exact issues_settle config h _ _
          | none =>
              refine .bind (issues_quiet (Objects.quiet_targetSequenceAfterApplyMarker _)) ?_
              intro target
              cases target with
              | some marker => exact issues_settle config h _ _
              | none => exact .pure _

theorem issues_objectApplyMarker (previousNuid : Option Str) :
    Issues (Notes keys) (Objects.ensureApplyMarker config bucket idempotencyKey previousNuid) := by
  refine .bind (issues_quiet (Objects.quiet_applyMarker _)) ?_
  intro marker
  cases marker with
  | some marker => exact .pure _
  | none =>
      refine .bind (issues_quiet (Objects.quiet_ensureBucket config)) fun _ => ?_
      refine .bind (issues_quiet (.ensureDuplicateWindow config _)) fun _ => ?_
      refine .bind (issues_quiet Objects.quiet_ensureMarkerSubject) fun _ => ?_
      exact issues_publish Objects.ledger_ne_objectStream _ _ _ _ _

/-- What is left of a put once the object before it is known. -/
theorem issues_objectStore
    (h : keys (Objects.objectWritebackLedgerKey bucket object idempotencyKey)) (bytes : Bytes)
    (previousNuid : Option Str) :
    Issues (Notes keys) (do
      let _ ← Objects.ensureApplyMarker config bucket idempotencyKey previousNuid
      Objects.objectStoreOrCreate config bucket
      retryIo (perform (.putObject bucket object
        (some (Objects.objectIdempotencyDescription idempotencyKey previousNuid)) bytes))
        config.retries
      Objects.purgeChunksIfKnown bucket (previousNuid.getD [])
      recordApplied config (Objects.objectWritebackLedgerKey bucket object idempotencyKey)) := by
  refine .bind (issues_objectApplyMarker config _) fun _ => ?_
  refine .bind (issues_quiet (Objects.quiet_objectStoreOrCreate config)) fun _ => ?_
  refine .bind (.retryIo (.perform (notes_putObject _ _ _ _)) _) fun _ => ?_
  refine .bind (issues_purgeChunksIfKnown _) fun _ => ?_
  exact issues_recordApplied config h

theorem issues_objectPutIdempotent
    (h : keys (Objects.objectWritebackLedgerKey bucket object idempotencyKey))
    (bytes : Bytes) :
    Issues (Notes keys) (Objects.putIdempotent config bucket object bytes idempotencyKey) := by
  refine .bind (issues_objectPutApplied config h) ?_
  intro applied
  cases applied with
  | true =>
      refine .bind ?_ fun _ => .pure _
      exact issues_recordApplied config h
  | false =>
      refine .bind (issues_quiet Objects.quiet_metadataMessage) ?_
      intro found
      exact issues_objectStore config h bytes _

theorem issues_deleteSuperseded (sequence : Nat) (nuid : Str) :
    Issues (Notes keys) (Objects.deleteSuperseded bucket object sequence nuid) := by
  refine .bind (issues_quiet Objects.quiet_metadataMessage) ?_
  intro found
  rcases found with _ | ⟨info, current⟩
  · exact .bind (issues_purgeChunksIfKnown _) fun _ => .pure _
  · cases hDeleted : info.deleted with
    | true =>
        simp only [hDeleted, if_true]
        exact .bind (issues_purgeChunks _) fun _ => .pure _
    | false =>
        simp only [hDeleted]
        by_cases hOther : current ≠ sequence ∨ (!nuid.isEmpty && info.nuid != nuid) = true
        · simp only [hOther, if_true]
          exact .bind (issues_purgeChunksIfKnown _) fun _ => .pure _
        · simp only [hOther]
          exact .pure _

theorem issues_deleteIfSequence (sequence : Nat) (nuid : Str) :
    Issues (Notes keys) (Objects.deleteIfSequence config bucket object sequence nuid) := by
  refine .bind (issues_quiet Objects.quiet_metadataMessage) ?_
  intro found
  rcases found with _ | ⟨info, current⟩
  · exact issues_purgeChunksIfKnown _
  · cases hDeleted : info.deleted with
    | true =>
        simp only [hDeleted, if_true]
        exact issues_purgeChunks _
    | false =>
        simp only [hDeleted]
        by_cases hOther : current ≠ sequence ∨ (!nuid.isEmpty && info.nuid != nuid) = true
        · simp only [hOther, if_true]
          exact issues_purgeChunksIfKnown _
        · simp only [hOther]
          refine .inspect (issues_publish Objects.ledger_ne_objectStream _ _ _ _ _) ?_
          intro result
          cases result with
          | ok _ => exact issues_purgeChunks _
          | error err =>
              refine .bind (issues_deleteSuperseded _ _) ?_
              intro superseded
              cases superseded with
              | true => exact .pure _
              | false => exact .throw _

end Objects

/-! ### JSON lines -/

section Streams

variable {name subject seed : Str}

theorem quiet_ensureStreamWithSubjects (subjects : List Str) :
    IsQuiet (ensureStreamWithSubjects config name subjects) := by
  refine .inspect (.streamInfo _) ?_
  intro info
  cases info with
  | ok _ => exact .ensureDuplicateWindow config _
  | error err =>
      cases err with
      | notFound =>
          refine .inspect (.retryIo (.perform rfl) _) ?_
          intro made
          cases made with
          | ok _ => exact .pure _
          | error err => exact .orExisting (.ensureDuplicateWindow config _) err
      | _ => exact .throw _

theorem quiet_ensureSubject : IsQuiet (Streams.ensureSubject config name subject) := by
  refine .bind (quiet_ensureStreamWithSubjects config _) fun _ => ?_
  refine .bind (.streamInfo _) ?_
  intro info
  by_cases hAny : (info.subjects.any fun candidate => subjectMatches candidate subject) = true
  · simp only [hAny, if_true]
    exact .pure _
  · simp only [hAny]
    exact .perform rfl

theorem issues_lineApplied {id : Str} (h : keys (Streams.writebackLedgerKey name subject id)) :
    Issues (Notes keys) (Streams.lineApplied config name subject id) := by
  refine .bind (issues_quiet (Objects.quiet_hasApplied _)) ?_
  intro applied
  cases applied with
  | true => exact .pure _
  | false =>
      refine .bind (issues_quiet (.scanSubjectHistoryUntil _ _ _)) ?_
      intro found
      cases found with
      | none => exact .pure _
      | some _ => exact .bind (issues_recordApplied config h) fun _ => .pure _

variable (h : ∀ index,
    keys (Streams.writebackLedgerKey name subject (Streams.messageId seed index)))

include h

theorem issues_publishLines {lines : List (Str × Nat)}
    (hLines : ∀ line ∈ lines, Unlike (.bytes (Text.asBytes line.1))) :
    Issues (Notes keys) (Streams.publishLines config name subject seed lines) := by
  induction lines with
  | nil => exact .pure _
  | cons first rest ih =>
      obtain ⟨line, index⟩ := first
      have hRest := ih fun line hMem => hLines line (List.mem_cons_of_mem _ hMem)
      refine .bind (issues_lineApplied config (h index)) ?_
      intro applied
      cases applied with
      | true => exact hRest
      | false =>
          have hLine : Unlike (.bytes (Text.asBytes line)) := hLines _ List.mem_cons_self
          refine .bind (.retryPublish (notes_quiet rfl) (notes_unlike hLine _ _ _ _)) fun _ => ?_
          refine .bind (issues_recordApplied config (h index)) fun _ => ?_
          exact .bind hRest fun _ => .pure _

theorem issues_appliedPrefix (indices : List Nat) :
    Issues (Notes keys) (Streams.appliedPrefix config name subject seed indices) := by
  induction indices with
  | nil => exact .pure _
  | cons index rest ih =>
      refine .bind (issues_lineApplied config (h index)) ?_
      intro applied
      cases applied with
      | true => exact .bind ih fun _ => .pure _
      | false => exact .pure _

theorem issues_allApplied (indices : List Nat) :
    Issues (Notes keys) (Streams.allApplied config name subject seed indices) := by
  induction indices with
  | nil => exact .pure _
  | cons index rest ih =>
      refine .bind (issues_lineApplied config (h index)) ?_
      intro applied
      cases applied with
      | true => exact ih
      | false => exact .pure _

omit h

variable [Serde] {bytes : Bytes}

/-- What is done with the lines of a payload that passes its check. -/
theorem issues_checkedLines {f : List Str → NatsM α}
    (hNext : ∀ lines, (∀ line ∈ lines, Serde.fromStr line = .ok ()) →
    Issues (Notes keys) (f lines)) :
    Issues (Notes keys) (Streams.checkedLines subject bytes >>= f) := by
  unfold Streams.checkedLines
  cases hValid : validateJsonLines subject bytes with
  | error err => exact .throw _
  | ok _ =>
      cases hLines : jsonLines subject bytes with
      | error err => exact .throw _
      | ok lines => exact hNext lines (fromStr_of_validateJsonLines hValid hLines)

theorem unlike_of_json (hJson : LiteralsOnly) {line : Str}
    (hLine : Serde.fromStr line = .ok ()) : Unlike (.bytes (Text.asBytes line)) := by
  intro w hSame
  obtain rfl : line = w.ledgerKey := Text.asBytes_injective (Payload.bytes.inj hSame)
  obtain ⟨rest, hKey | hKey | hKey⟩ := w.ledgerKey_head
  · rw [hKey] at hLine
    exact absurd (hJson 'k' rest (by decide) hLine) (by decide)
  · rw [hKey] at hLine
    exact absurd (hJson 's' rest (by decide) hLine) (by decide)
  · rw [hKey] at hLine
    exact absurd (hJson 'o' rest (by decide) hLine) (by decide)

include h

theorem issues_publishJsonLines (hJson : LiteralsOnly) :
    Issues (Notes keys) (Streams.publishJsonLines config name subject bytes seed) := by
  refine issues_checkedLines fun lines hLines => ?_
  refine .bind (issues_quiet (quiet_ensureSubject config)) fun _ => ?_
  refine issues_publishLines config h ?_
  intro line hMem
  exact unlike_of_json hJson (hLines line.1 (List.fst_mem_of_mem_zipIdx hMem))

theorem issues_publishJsonLinesApplied :
    Issues (Notes keys) (Streams.publishJsonLinesApplied config name subject bytes seed) :=
  issues_checkedLines fun _ _ => issues_allApplied config h _

theorem issues_publishJsonLinesAppliedPrefix :
    Issues (Notes keys) (Streams.publishJsonLinesAppliedPrefix config name subject bytes seed) :=
  issues_checkedLines fun _ _ => issues_appliedPrefix config h _

end Streams

end Calls

end EventFs.Transport.Nats.Ledger
