import EventFs.Transport.PublishedLines
import EventFs.Fuse.LineProgress

/-!
# Reading what has been published

The mount reads a subject from the in-memory storage through the sequence numbers in the
names of the messages. It finds the lines that have been published, each closed by a
newline, whatever blanks, carriage returns and missing newlines they were written with.
-/

namespace EventFs.Fuse

open Library Protocol Transport Program

/-! ## Messages by their numbers -/

/-- What a list of messages reads as. -/
def contentOf (messages : List StreamMessageView) : Bytes :=
  messages.foldl (fun bytes message => appendJsonLine bytes message.payload) []

/-- No stream holds more messages than a `Vec` can. -/
def VecBounded (state : MemoryStorage) : Prop := ∀ stream, (state.messages stream).length < 2 ^ 63

theorem find?_sequence {messages : List StreamMessageView}
    (hNodup : (messages.map (·.sequence)).Nodup) {message : StreamMessageView}
    (hMem : message ∈ messages) :
    (messages.find? fun other => other.sequence == message.sequence) = some message := by
  obtain ⟨front, back, rfl⟩ := List.append_of_mem hMem
  rw [List.map_append, List.map_cons, List.nodup_append] at hNodup
  rw [List.find?_append, List.find?_eq_none.mpr, List.find?_cons_of_pos (by simp)]
  · rfl
  · intro other hOther
    simpa using hNodup.2.2 _ (List.mem_map_of_mem hOther) _ List.mem_cons_self

/-- Messages whose numbers can be found in the names of their files. -/
structure Numbered (messages : List StreamMessageView) : Prop where
  nodup : (messages.map (·.sequence)).Nodup
  small : ∀ message ∈ messages, message.sequence < 2 ^ 64

section Reads

variable [Serde]

theorem numbered_run {calls : List StorageCall} (hBounded : VecBounded (MemoryStorage.run calls))
    (stream : Str) : Numbered ((MemoryStorage.run calls).messages stream) := by
  have hLength := hBounded stream
  have hCounted := MemoryStorage.sequences_run calls stream
    (by rw [List.length_map, Transport.u64Max]
        exact Nat.le_sub_one_of_lt (hLength.trans (by decide)))
  refine ⟨hCounted ▸ List.nodup_range', ?_⟩
  intro message hMem
  have hSequence := List.mem_map_of_mem (f := (·.sequence)) hMem
  rw [MemoryStorage.messages, hCounted, List.mem_range'_1, List.length_map] at hSequence
  have hLess := hSequence.2
  rw [MemoryStorage.messages] at hLength
  omega

/-! ## Running the reads -/

variable {mount : Mount} {w : World MemoryStorage} {stream subject : Str}

/-- The file of a message in the directory of its stream. -/
def messageEntry (message : StreamMessageView) : DirectoryEntry :=
  ⟨Text.decimal message.sequence ++ ".json".toList, .file⟩

theorem exec_listMessages (hStream : stream ∈ w.store.streams) (allowMissingEmpty : Bool) :
    exec faultless (listStreamMessages stream allowMissingEmpty) mount w =
      (.ok ((w.store.messages stream).map messageEntry), mount, w) := by
  rw [listStreamMessages, exec_bind, exec_liftM, run_request_reads rfl]
  simp only [MemoryStorage.handle, MemoryStorage.listStreamMessages, MemoryStorage.messages,
    Std.ExtTreeMap.getElem?_eq_some_getElem hStream, Std.ExtTreeMap.getD_eq_getD_getElem?,
    Option.getD_some]
  rfl

theorem exec_listMessages_missing (hStream : stream ∉ w.store.streams) :
    exec faultless (listStreamMessages stream true) mount w = (.ok [], mount, w) := by
  rw [listStreamMessages, exec_bind, exec_liftM, run_request_reads rfl]
  simp only [MemoryStorage.handle, MemoryStorage.listStreamMessages,
    Std.ExtTreeMap.getElem?_eq_none hStream]
  rfl

theorem exec_message (hNumbered : Numbered (w.store.messages stream))
    {message : StreamMessageView} (hMem : message ∈ w.store.messages stream) :
    exec faultless (requestIo (.streamMessage stream message.sequence)) mount w =
      (.ok message, mount, w) := by
  rw [exec_requestIo_reads rfl]
  have hFind := find?_sequence hNumbered.nodup hMem
  rw [MemoryStorage.messages] at hFind
  simp only [MemoryStorage.handle, MemoryStorage.streamMessage, hFind]
  rfl

omit [Serde] in
theorem filterMap_messageEntry {messages : List StreamMessageView}
    (hNumbered : Numbered messages) :
    (messages.map messageEntry).filterMap messageSequence = messages.map (·.sequence) := by
  rw [List.filterMap_map, ← List.filterMap_eq_map]
  refine List.filterMap_congr ?_
  intro message hMem
  exact messageSequence_decimal (hNumbered.small message hMem)

theorem exec_collectMessages (hNumbered : Numbered (w.store.messages stream)) :
    exec faultless (collectStreamSubjectSnapshot stream subject
      ((w.store.messages stream).map messageEntry)) mount w =
      (.ok (contentOf (w.store.ofSubject stream subject)), mount, w) := by
  rw [collectStreamSubjectSnapshot, filterMap_messageEntry hNumbered, List.foldlM_map]
  rw [exec_foldlM (g := fun bytes (message : StreamMessageView) =>
    if message.subject = subject then appendJsonLine bytes message.payload else bytes)]
  · rw [contentOf, MemoryStorage.ofSubject, List.foldl_filter]
    simp only [beq_iff_eq]
  · intro bytes message hMem
    rw [exec_bind, exec_message hNumbered hMem]
    rfl

/-- The subject reads as this content in every mount. A stream that does not exist is read
only where it may be missing. -/
structure Reads (state : MemoryStorage) (stream subject : Str) (content : Bytes) : Prop where
  allowMissing : ∀ mount disk,
    exec faultless (readStreamSubjectSnapshotAllowMissing stream subject) mount ⟨state, disk⟩ =
      (.ok content, mount, ⟨state, disk⟩)
  existing : stream ∈ state.streams → ∀ mount disk,
    exec faultless (readStreamSubjectSnapshot stream subject) mount ⟨state, disk⟩ =
      (.ok content, mount, ⟨state, disk⟩)

theorem reads_contentOf {state : MemoryStorage} (hNumbered : Numbered (state.messages stream))
    (subject : Str) :
    Reads state stream subject (contentOf (state.ofSubject stream subject)) where
  allowMissing mount disk := by
    rw [readStreamSubjectSnapshotAllowMissing, exec_bind]
    by_cases hStream : stream ∈ state.streams
    · rw [exec_listMessages hStream]
      exact exec_collectMessages hNumbered
    · rw [exec_listMessages_missing hStream]
      have hEmpty : state.messages stream = [] := Std.ExtTreeMap.getD_eq_fallback hStream
      have hCollect := @exec_collectMessages _ mount ⟨state, disk⟩ stream subject hNumbered
      rwa [hEmpty] at hCollect
  existing hStream mount disk := by
    rw [readStreamSubjectSnapshot, exec_bind, exec_listMessages hStream]
    exact exec_collectMessages hNumbered

/-! ## What has been published -/

omit [Serde] in
theorem contentOf_eq {messages : List StreamMessageView} {lines : List Str}
    (hPayloads : messages.map (·.payload) = lines.map Text.asBytes)
    (hTrimmed : ∀ line ∈ lines, Text.IsTrimmed line) :
    contentOf messages = Text.asBytes (Text.closeLines lines) := by
  have hFold : contentOf messages = (lines.map Text.asBytes).foldl appendJsonLine [] := by
    rw [← hPayloads, List.foldl_map]
    rfl
  rw [hFold]
  clear hFold hPayloads
  induction lines using List.reverseRecOn with
  | nil => rfl
  | append_singleton front line ih =>
      have hFront := ih fun line hMem => hTrimmed line (List.mem_append_left _ hMem)
      have hLine := canonicalLine_eq (hTrimmed line (by simp))
      rw [canonicalLine] at hLine
      rw [List.map_append, List.foldl_append, hFront, List.map_singleton, List.foldl_cons,
        List.foldl_nil, appendJsonLine_append, hLine, ← Text.asBytes_append, Text.closeLines,
        Text.closeLines, List.flatMap_append, List.flatMap_singleton]

/-- The content of a subject is its lines, each closed by a newline. -/
theorem reads_publishedLines {calls : List StorageCall}
    (hBounded : VecBounded (MemoryStorage.run calls)) (stream subject : Str) :
    Reads (MemoryStorage.run calls) stream subject
      (Text.asBytes (Text.closeLines (StorageCall.publishedLines stream subject [] calls))) := by
  have hReads := reads_contentOf (numbered_run hBounded stream) subject
  rwa [contentOf_eq (MemoryStorage.payloads_run calls stream subject)
    fun line => StorageCall.isTrimmed_of_publishedLines] at hReads

/-! ## A publish -/

/-- A publish appends to the content of its subject and leaves every other one and every
message there is. -/
structure AppendsContent (before after : MemoryStorage) (stream subject : Str)
    (content added : Bytes) : Prop where
  read : Reads before stream subject content
  appended : Reads after stream subject (content ++ added)
  stored : stream ∈ after.streams
  others : ∀ other otherSubject, (other, otherSubject) ≠ (stream, subject) →
    ∃ same, Reads before other otherSubject same ∧ Reads after other otherSubject same
  log : ∀ other, before.messages other <+: after.messages other
  elsewhere : ∀ other, other ≠ stream → after.messages other = before.messages other
  message : ∀ other sequence view, before.streamMessage other sequence = .ok view →
    after.streamMessage other sequence = .ok view

omit [Serde] in
/-- A message is found in a longer stream too. -/
theorem streamMessage_stays {before after : MemoryStorage} {view : StreamMessageView}
    {sequence : Nat} (hPrefix : before.messages stream <+: after.messages stream)
    (h : before.streamMessage stream sequence = .ok view) :
    after.streamMessage stream sequence = .ok view := by
  obtain ⟨added, hAdded⟩ := hPrefix
  rw [MemoryStorage.messages, MemoryStorage.messages] at hAdded
  rw [MemoryStorage.streamMessage] at h ⊢
  rw [← hAdded, List.find?_append]
  cases hFind : (before.streams.getD stream []).find? fun message =>
      message.sequence == sequence with
  | none =>
      rw [hFind] at h
      cases h
  | some message =>
      rw [hFind] at h
      exact h

theorem vecBounded_of_append {calls : List StorageCall} {call : StorageCall}
    (h : VecBounded (MemoryStorage.run (calls ++ [call]))) :
    VecBounded (MemoryStorage.run calls) := by
  intro stream
  have hLength := h stream
  rw [MemoryStorage.run_append] at hLength
  exact (MemoryStorage.messages_prefix _ call stream).length_le.trans_lt hLength

/-- A publish with a new seed adds its lines to the content of its subject, and a second one
with the seed adds nothing. The lines are found again in the content. -/
theorem publish_read_back {calls : List StorageCall} {stream subject seed : Str} {bytes : Bytes}
    (hValid : validateJsonLines subject bytes = .ok ())
    (hFresh : (MemoryStorage.run calls).applied (.lines stream subject seed) = false)
    (hBounded : VecBounded
      (MemoryStorage.run (calls ++ [.publishJsonLines stream subject bytes seed]))) :
    ∃ text content, bytes = Text.asBytes text ∧
      AppendsContent (MemoryStorage.run calls)
        (MemoryStorage.run (calls ++ [.publishJsonLines stream subject bytes seed]))
        stream subject content (Text.asBytes (Text.closeLines (Text.trimmedLines text))) ∧
      (∀ path, jsonLines path
          (content ++ Text.asBytes (Text.closeLines (Text.trimmedLines text))) =
        .ok (StorageCall.publishedLines stream subject []
          (calls ++ [.publishJsonLines stream subject bytes seed]))) ∧
      ∀ later again,
        (MemoryStorage.handle
          (MemoryStorage.run (calls ++ .publishJsonLines stream subject bytes seed :: later))
          (.publishJsonLines stream subject again seed)).2 =
        MemoryStorage.run (calls ++ .publishJsonLines stream subject bytes seed :: later) := by
  obtain ⟨lines, hLines⟩ := jsonLines_of_validateJsonLines hValid
  obtain ⟨text, rfl, -⟩ := jsonLines_eq_ok.mp hLines
  have hPublished : StorageCall.publishedLines stream subject []
      (calls ++ [.publishJsonLines stream subject (Text.asBytes text) seed]) =
        StorageCall.publishedLines stream subject [] calls ++ Text.trimmedLines text := by
    rw [StorageCall.publishedLines_concat, StorageCall.addedLines, MemoryStorage.isApplied_eq,
      if_pos ⟨rfl, rfl, hValid, hFresh⟩, Text.fromUtf8_eq_some.mpr rfl]
    rfl
  have hContent : Text.asBytes (Text.closeLines (StorageCall.publishedLines stream subject []
      (calls ++ [.publishJsonLines stream subject (Text.asBytes text) seed]))) =
        Text.asBytes (Text.closeLines (StorageCall.publishedLines stream subject [] calls)) ++
          Text.asBytes (Text.closeLines (Text.trimmedLines text)) := by
    rw [hPublished, Text.closeLines, List.flatMap_append, Text.asBytes_append]
    rfl
  refine ⟨text, Text.asBytes (Text.closeLines (StorageCall.publishedLines stream subject []
    calls)), rfl, ?_, ?_, ?_⟩
  · have hBefore := vecBounded_of_append hBounded
    refine ⟨reads_publishedLines hBefore stream subject,
      hContent ▸ reads_publishedLines hBounded stream subject, ?_, ?_, ?_, ?_, ?_⟩
    · rw [MemoryStorage.run_append]
      exact MemoryStorage.mem_streams_publish hValid hFresh
    · intro other otherSubject hOther
      refine ⟨_, reads_publishedLines hBefore other otherSubject, ?_⟩
      have hNone : StorageCall.addedLines (StorageCall.isApplied calls) other otherSubject
          (.publishJsonLines stream subject (Text.asBytes text) seed) = [] :=
        if_neg fun h => hOther (by rw [h.1, h.2.1])
      have hSame := reads_publishedLines hBounded other otherSubject
      rwa [StorageCall.publishedLines_concat, hNone, List.append_nil] at hSame
    · intro other
      rw [MemoryStorage.run_append]
      exact MemoryStorage.messages_prefix _ _ other
    · intro other hOther
      rw [MemoryStorage.run_append, MemoryStorage.messages_publish hValid,
        if_neg fun h => hOther h.1.symm]
    · intro other sequence view hView
      rw [MemoryStorage.run_append]
      exact streamMessage_stays (MemoryStorage.messages_prefix _ _ other) hView
  · intro path
    rw [← hContent, jsonLines_asBytes, Text.trimmedLines_closeLines
      fun line => StorageCall.isTrimmed_of_publishedLines]
  · intro later again
    refine MemoryStorage.handle_of_applied rfl ?_
    rw [MemoryStorage.applied_run, List.any_append, List.any_cons]
    simp [StorageCall.effectId, StorageCall.accepted, hValid]

end Reads

/-- Two documents between blanks, the last one not closed. -/
def blankedPayload : Bytes := Text.asBytes " null \r\n\nnull".toList

/-- What the first publish into an empty storage does, read in every mount. -/
theorem blanked_read_back :
    let _ := MemoryStorage.nullSerde
    ∃ text content, blankedPayload = Text.asBytes text ∧
      AppendsContent (MemoryStorage.run [])
        (MemoryStorage.run ([] ++ [.publishJsonLines ['s'] ['t'] blankedPayload ['1']]))
        ['s'] ['t'] content (Text.asBytes (Text.closeLines (Text.trimmedLines text))) ∧
      (∀ path, jsonLines path
          (content ++ Text.asBytes (Text.closeLines (Text.trimmedLines text))) =
        .ok (StorageCall.publishedLines ['s'] ['t'] []
          ([] ++ [.publishJsonLines ['s'] ['t'] blankedPayload ['1']]))) ∧
      ∀ later again,
        (MemoryStorage.handle
          (MemoryStorage.run ([] ++ .publishJsonLines ['s'] ['t'] blankedPayload ['1'] :: later))
          (.publishJsonLines ['s'] ['t'] again ['1'])).2 =
        MemoryStorage.run ([] ++ .publishJsonLines ['s'] ['t'] blankedPayload ['1'] :: later) := by
  let _ := MemoryStorage.nullSerde
  have hLines : jsonLines ['t'] blankedPayload = .ok ["null".toList, "null".toList] :=
    jsonLines_asBytes _ _
  have hValid : validateJsonLines ['t'] blankedPayload = .ok () := by
    rw [validateJsonLines, hLines]
    rfl
  refine publish_read_back hValid (MemoryStorage.applied_new _) ?_
  intro stream
  rw [MemoryStorage.run_append, blankedPayload, MemoryStorage.messages_publish hValid]
  split_ifs
  · decide +kernel
  · simp [MemoryStorage.run, MemoryStorage.new, MemoryStorage.messages]

end EventFs.Fuse
