import EventFs.Transport.Completion
import EventFs.Transport.PendingValue
import EventFs.Transport.Settled
import EventFs.Fuse.PublishedContent

/-!
# What the files hold

The files of a mount show values: those of keys and objects, and the lines of subjects.
Whatever buckets, revisions and records the storage keeps, its contents are a map from
values to bytes, and settling an entry of the queue is one change of this map.
-/

namespace EventFs.Fuse

open Library Protocol Transport

abbrev Files := StorageFact → Option Bytes

inductive FileChange
  | keep
  | put (fact : StorageFact) (bytes : Bytes)
  | append (fact : StorageFact) (added : Bytes)
  | remove (fact : StorageFact)
  | move (source target : StorageFact)
deriving DecidableEq, Repr

def FileChange.apply : FileChange → Files → Files
  | .keep, files => files
  | .put fact bytes, files => Function.update files fact (some bytes)
  | .append fact added, files => Function.update files fact (some ((files fact).getD [] ++ added))
  | .remove fact, files => Function.update files fact none
  | .move source target, files =>
      Function.update (Function.update files target (files source)) source none

/-- A subject reads as its lines, if it has any. -/
def contents (state : MemoryStorage) : Files
  | .streamSubject stream subject => some (contentOf (state.ofSubject stream subject))
  | .kv bucket key => state.value (.kv bucket key)
  | .object bucket name => state.value (.object bucket name)

/-- What a payload of JSON lines adds to a subject. -/
def closedLines (bytes : Bytes) : Bytes :=
  match Text.fromUtf8 bytes with
  | some text => Text.asBytes (Text.closeLines (Text.trimmedLines text))
  | none => []

theorem closedLines_asBytes (text : Str) :
    closedLines (Text.asBytes text) =
      Text.asBytes (Text.closeLines (Text.trimmedLines text)) := by
  rw [closedLines, Text.fromUtf8_eq_some.mpr rfl]

/-! ## Contents and single changes -/

theorem contentOf_append (messages added : List StreamMessageView) :
    contentOf (messages ++ added) = contentOf messages ++ contentOf added := by
  have hFrom (output : Bytes) : added.foldl (fun bytes message =>
      appendJsonLine bytes message.payload) output = output ++ contentOf added := by
    rw [contentOf]
    induction added using List.reverseRecOn with
    | nil => simp
    | append_singleton front message ih =>
        simp only [List.foldl_append, List.foldl_cons, List.foldl_nil]
        rw [appendJsonLine_append, ih, appendJsonLine_append (List.foldl _ _ _),
          List.append_assoc]
  rw [contentOf, List.foldl_append, hFrom]
  rfl

/-- The streams are the same, and so are the values of keys and objects up to one. -/
theorem contents_of_value {before after : MemoryStorage} {fact : StorageFact} {value : Option Bytes}
    (hFact : ∀ stream subject, fact ≠ .streamSubject stream subject)
    (hStreams : after.streams = before.streams)
    (hValue : ∀ other, after.value other = if fact = other then value else before.value other) :
    contents after = Function.update (contents before) fact value := by
  funext other
  rw [Function.update_apply]
  cases other with
  | streamSubject stream subject =>
      rw [if_neg (Ne.symm (hFact stream subject)), contents, contents, MemoryStorage.ofSubject,
        MemoryStorage.messages, hStreams]
      rfl
  | kv bucket key =>
      rw [contents, hValue]
      simp only [eq_comm]
      rfl
  | object bucket name =>
      rw [contents, hValue]
      simp only [eq_comm]
      rfl

theorem contents_putKvRecorded (state : MemoryStorage) (bucket key : Str) (bytes : Bytes)
    (idempotencyKey : Str) :
    contents (state.putKvRecorded bucket key bytes idempotencyKey) =
      (FileChange.put (.kv bucket key) bytes).apply (contents state) :=
  contents_of_value (by rintro _ _ ⟨⟩) rfl
    (value_putKvRecorded state bucket key bytes idempotencyKey)

theorem contents_putObjectRecorded (state : MemoryStorage) (bucket name : Str) (bytes : Bytes)
    (idempotencyKey : Str) :
    contents (state.putObjectRecorded bucket name bytes idempotencyKey) =
      (FileChange.put (.object bucket name) bytes).apply (contents state) :=
  contents_of_value (by rintro _ _ ⟨⟩) rfl
    (value_putObjectRecorded state bucket name bytes idempotencyKey)

theorem contents_kvDeleteIfRevision {state : MemoryStorage} {bucket key : Str} {expected : Nat}
    (hCurrent : ∀ stored, state.kv[(bucket, key)]? = some stored → stored.revision = expected) :
    contents (state.kvDeleteIfRevision bucket key expected).2 =
      (FileChange.remove (.kv bucket key)).apply (contents state) := by
  refine contents_of_value (by rintro _ _ ⟨⟩) ?_ (value_kvDeleteIfRevision hCurrent)
  rw [MemoryStorage.kvDeleteIfRevision]
  split
  · rfl
  · split <;> rfl

theorem contents_objectDeleteIfSequence {state : MemoryStorage} {bucket name nuid : Str}
    {expected : Nat} (hCurrent : ∀ stored, state.objects[(bucket, name)]? = some stored →
      stored.sequence = expected ∧ stored.nuid = nuid) :
    contents (state.objectDeleteIfSequence bucket name expected nuid).2 =
      (FileChange.remove (.object bucket name)).apply (contents state) := by
  refine contents_of_value (by rintro _ _ ⟨⟩) ?_ (value_objectDeleteIfSequence hCurrent)
  rw [MemoryStorage.objectDeleteIfSequence]
  split
  · rfl
  · split <;> rfl

/-- A delete that finds nothing removes nothing. -/
theorem contents_kvDelete (state : MemoryStorage) (bucket key : Str) :
    contents (state.kvDelete bucket key).2 =
      (FileChange.remove (.kv bucket key)).apply (contents state) := by
  have hDelete : (state.kvDelete bucket key).2 = (state.kvDeleteIfRevision bucket key
      ((state.kv[(bucket, key)]?.map (·.revision)).getD 0)).2 := by
    rw [MemoryStorage.kvDelete, MemoryStorage.kvDeleteIfRevision,
      Std.ExtTreeMap.contains_eq_isSome_getElem?]
    cases state.kv[(bucket, key)]? <;> simp
  rw [hDelete]
  refine contents_kvDeleteIfRevision ?_
  intro stored hStored
  rw [hStored]
  rfl

theorem contents_objectDelete (state : MemoryStorage) (bucket name : Str) :
    contents (state.objectDelete bucket name).2 =
      (FileChange.remove (.object bucket name)).apply (contents state) := by
  have hDelete : (state.objectDelete bucket name).2 = (state.objectDeleteIfSequence bucket name
      ((state.objects[(bucket, name)]?.map (·.sequence)).getD 0)
      ((state.objects[(bucket, name)]?.map (·.nuid)).getD [])).2 := by
    rw [MemoryStorage.objectDelete, MemoryStorage.objectDeleteIfSequence,
      Std.ExtTreeMap.contains_eq_isSome_getElem?]
    cases state.objects[(bucket, name)]? <;> simp [MemoryStorage.objectSuperseded]
  rw [hDelete]
  refine contents_objectDeleteIfSequence ?_
  intro stored hStored
  rw [hStored]
  exact ⟨rfl, rfl⟩

/-- Publishing appends to one subject. -/
theorem contents_publishRecorded (state : MemoryStorage) (stream subject seed text : Str) :
    contents (state.publishRecorded stream subject (Text.trimmedLines text) seed) =
      (FileChange.append (.streamSubject stream subject)
        (closedLines (Text.asBytes text))).apply (contents state) := by
  obtain ⟨added, hAppend, hAdded⟩ := MemoryStorage.appendLines_append stream subject
    (state.messages stream) (Text.trimmedLines text)
  have hMessages (other : Str) :
      (state.publishRecorded stream subject (Text.trimmedLines text) seed).messages other =
        if stream = other then state.messages stream ++ added else state.messages other := by
    rw [MemoryStorage.messages, MemoryStorage.publishRecorded]
    simp only [Std.ExtTreeMap.getD_insert, Std.compare_eq_iff_eq]
    rw [← hAppend]
    rfl
  have hContent (other : Str) :
      contentOf (added.filter fun message => message.subject == other) =
        if subject = other then closedLines (Text.asBytes text) else [] := by
    have hPayloads := MemoryStorage.payloads_filter hAdded other
    split_ifs with hSubject
    · rw [if_pos hSubject] at hPayloads
      rw [closedLines_asBytes]
      exact contentOf_eq hPayloads fun line => Text.isTrimmed_of_mem
    · rw [if_neg hSubject, List.map_eq_nil_iff] at hPayloads
      rw [hPayloads]
      rfl
  funext fact
  rw [FileChange.apply, Function.update_apply]
  cases fact with
  | kv bucket key => rfl
  | object bucket name => rfl
  | streamSubject other otherSubject =>
      simp only [StorageFact.streamSubject.injEq, contents, MemoryStorage.ofSubject, hMessages,
        Option.getD_some]
      by_cases hStream : stream = other
      · subst hStream
        rw [if_pos rfl, List.filter_append, contentOf_append, hContent]
        by_cases hSubject : subject = otherSubject
        · subst hSubject
          simp
        · simp [hSubject, Ne.symm hSubject]
      · simp [hStream, Ne.symm hStream]

/-! ## Entries of the queue -/

section Entries

variable [Serde] {state : MemoryStorage} {entry : QueueEntry}

/-- What the put of an entry changes. -/
def putChange : QueueOperation → FileChange
  | .kvPut bucket key bytes | .materializedPut bucket key bytes
  | .kvRenameComplete _ _ _ bucket key bytes => .put (.kv bucket key) bytes
  | .objectPut bucket object bytes | .objectRenameComplete _ _ _ _ bucket object bytes =>
      .put (.object bucket object) bytes
  | .publishJsonLines stream subject bytes _ =>
      .append (.streamSubject stream subject) (closedLines bytes)

theorem contents_put (hValid : entry.ValidPayload) (state : MemoryStorage) :
    contents (entry.put state) = (putChange entry.operation).apply (contents state) := by
  obtain ⟨key, operation, attempts, done⟩ := entry
  cases operation with
  | kvPut | materializedPut | kvRenameComplete => exact contents_putKvRecorded _ _ _ _ _
  | objectPut | objectRenameComplete => exact contents_putObjectRecorded _ _ _ _ _
  | publishJsonLines stream subject bytes applied =>
      obtain ⟨lines, hLines⟩ := jsonLines_of_validateJsonLines hValid
      obtain ⟨text, rfl, rfl⟩ := jsonLines_eq_ok.mp hLines
      simp only [QueueEntry.put, hLines]
      exact contents_publishRecorded state stream subject key text

/-- A put that is new and has nothing to delete is settled by making it. -/
theorem contents_settle_put (hPending : entry.done = false) (hValid : entry.ValidPayload)
    (hNew : entry.recorded state = false) (hNothing : ∀ store, entry.finish store = store) :
    contents (entry.settle state) = (putChange entry.operation).apply (contents state) := by
  rw [QueueEntry.settle_of_new hPending hNew, QueueEntry.apply, hNothing, contents_put hValid]

/-- The files that a rename moves from and to. -/
def Captured.ends : Captured → StorageFact × StorageFact
  | .kv fromBucket fromKey _ toBucket toKey => (.kv fromBucket fromKey, .kv toBucket toKey)
  | .object fromBucket fromObject _ toBucket toObject =>
      (.object fromBucket fromObject, .object toBucket toObject)

omit [Serde] in
theorem contents_source {captured : Captured} (hSource : captured.AtSource state) :
    contents state (Captured.ends captured).1 = some captured.bytes := by
  cases captured with
  | kv fromBucket fromKey value toBucket toKey =>
      have hStored : state.kv[(fromBucket, fromKey)]? = some value := hSource
      simp [Captured.ends, contents, MemoryStorage.value, hStored, Captured.bytes]
  | object fromBucket fromObject version toBucket toObject =>
      have hStored : state.objects[(fromBucket, fromObject)]? = some version := hSource
      simp [Captured.ends, contents, MemoryStorage.value, hStored, Captured.bytes]

omit [Serde] in
/-- The generation that was captured is the one at the source. -/
theorem sourceCurrent_captured {captured : Captured}
    (hOperation : entry.operation = captured.operation)
    (hSource : captured.AtSource state)
    (hEnds : (Captured.ends captured).1 ≠ (Captured.ends captured).2) :
    entry.SourceCurrent state := by
  rw [QueueEntry.SourceCurrent, hOperation]
  cases captured with
  | kv fromBucket fromKey value toBucket toKey =>
      have hStored : state.kv[(fromBucket, fromKey)]? = some value := hSource
      refine ⟨fun hSame => ?_, fun stored hFound => ?_⟩
      · obtain ⟨rfl, rfl⟩ := Prod.mk.inj hSame
        exact hEnds rfl
      · rw [← Option.some.inj (hStored.symm.trans hFound)]
  | object fromBucket fromObject version toBucket toObject =>
      have hStored : state.objects[(fromBucket, fromObject)]? = some version := hSource
      refine ⟨fun hSame => ?_, fun stored hFound => ?_⟩
      · obtain ⟨rfl, rfl⟩ := Prod.mk.inj hSame
        exact hEnds rfl
      · rw [← Option.some.inj (hStored.symm.trans hFound)]
        exact ⟨rfl, rfl⟩

/-- A rename that is new moves the file it has captured. -/
theorem contents_settle_rename {captured : Captured}
    (hOperation : entry.operation = captured.operation) (hPending : entry.done = false)
    (hNew : entry.recorded state = false) (hSource : captured.AtSource state)
    (hEnds : (Captured.ends captured).1 ≠ (Captured.ends captured).2) :
    contents (entry.settle state) =
      (FileChange.move (Captured.ends captured).1 (Captured.ends captured).2).apply
        (contents state) := by
  rw [QueueEntry.settle_of_new hPending hNew, FileChange.apply, contents_source hSource]
  obtain ⟨key, operation, attempts, done⟩ := entry
  obtain rfl : operation = captured.operation := hOperation
  cases captured with
  | kv fromBucket fromKey value toBucket toKey =>
      have hCmp : compare (toBucket, toKey) (fromBucket, fromKey) ≠ .eq := by
        rw [ne_eq, Std.compare_eq_iff_eq, Prod.mk.injEq]
        rintro ⟨rfl, rfl⟩
        exact hEnds rfl
      have hStored : state.kv[(fromBucket, fromKey)]? = some value := hSource
      refine (contents_kvDeleteIfRevision ?_).trans ?_
      · intro stored h
        have hSame : state.kv[(fromBucket, fromKey)]? = some stored := by
          simpa [QueueEntry.put, Captured.operation, MemoryStorage.putKvRecorded,
            MemoryStorage.putKv, Std.ExtTreeMap.getElem?_insert, hCmp] using h
        rw [← Option.some.inj (hStored.symm.trans hSame)]
      · exact congrArg _ (contents_putKvRecorded _ _ _ _ _)
  | object fromBucket fromObject version toBucket toObject =>
      have hCmp : compare (toBucket, toObject) (fromBucket, fromObject) ≠ .eq := by
        rw [ne_eq, Std.compare_eq_iff_eq, Prod.mk.injEq]
        rintro ⟨rfl, rfl⟩
        exact hEnds rfl
      have hStored : state.objects[(fromBucket, fromObject)]? = some version := hSource
      refine (contents_objectDeleteIfSequence ?_).trans ?_
      · intro stored h
        have hSame : state.objects[(fromBucket, fromObject)]? = some stored := by
          simpa [QueueEntry.put, Captured.operation, MemoryStorage.putObjectRecorded,
            MemoryStorage.putObject, Std.ExtTreeMap.getElem?_insert, hCmp] using h
        rw [← Option.some.inj (hStored.symm.trans hSame)]
        exact ⟨rfl, rfl⟩
      · exact congrArg _ (contents_putObjectRecorded _ _ _ _ _)

end Entries

end EventFs.Fuse
