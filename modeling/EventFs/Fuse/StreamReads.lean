import EventFs.Protocol.SubjectPaths
import EventFs.Transport.LineLog
import EventFs.Fuse.Exec
import EventFs.Fuse.Runtime

/-!
# Reading the subjects of a stream

On a log of lines a subject reads as its payloads, each closed by a newline. The mount
finds them through the sequence numbers in the names of the stream's messages.
-/

namespace EventFs.Fuse

open Library Protocol Transport Program

/-! ## The content of a subject -/

/-- What a list of lines reads as. -/
def snapshotOf (lines : List LoggedLine) : Bytes :=
  lines.foldl (fun bytes line => appendJsonLine bytes line.payload) []

theorem appendJsonLine_append (output payload : Bytes) :
    appendJsonLine output payload = output ++ appendJsonLine [] payload := by
  rw [appendJsonLine, appendJsonLine]
  split <;> simp

theorem appendJsonLine_getLast? (output payload : Bytes) :
    (appendJsonLine output payload).getLast? = some 10 := by
  rw [appendJsonLine]
  split
  · next h =>
    have hNonempty : payload ≠ [] := by
      rintro rfl
      simp at h
    rw [List.getLast?_append_of_ne_nil _ hNonempty, h]
  · rw [List.getLast?_concat]

theorem foldl_appendJsonLine (lines : List LoggedLine) (bytes : Bytes) :
    lines.foldl (fun bytes line => appendJsonLine bytes line.payload) bytes =
      bytes ++ snapshotOf lines := by
  induction lines generalizing bytes with
  | nil => simp [snapshotOf]
  | cons line rest ih =>
      rw [snapshotOf, List.foldl_cons, List.foldl_cons, ih, ih (appendJsonLine [] line.payload),
        appendJsonLine_append bytes, List.append_assoc]

theorem snapshotOf_append (lines more : List LoggedLine) :
    snapshotOf (lines ++ more) = snapshotOf lines ++ snapshotOf more := by
  rw [snapshotOf, List.foldl_append, foldl_appendJsonLine]
  rfl

theorem snapshotOf_closed (lines : List LoggedLine) :
    snapshotOf lines = [] ∨ (snapshotOf lines).getLast? = some 10 := by
  induction lines using List.reverseRecOn with
  | nil => exact Or.inl rfl
  | append_singleton front line _ =>
      right
      rw [snapshotOf, List.foldl_append]
      exact appendJsonLine_getLast? _ _

/-! ## Running the reads -/

theorem exec_foldlM {σ α β : Type} {handle : Handler io σ} {mount : Mount} {world : σ}
    {f : β → α → Runtime β} {g : β → α → β} {xs : List α}
    (h : ∀ b, ∀ a ∈ xs, exec handle (f b a) mount world = (.ok (g b a), mount, world)) (init : β) :
    exec handle (xs.foldlM f init) mount world = (.ok (xs.foldl g init), mount, world) := by
  induction xs generalizing init with
  | nil => rfl
  | cons a rest ih =>
      rw [List.foldlM_cons, exec_bind, h init a List.mem_cons_self]
      exact ih (fun b a' ha => h b a' (List.mem_cons_of_mem a ha)) (g init a)

theorem exec_foldlM_ok {σ α β : Type} {handle : Handler io σ} {mount : Mount} {world : σ}
    {f : β → α → Runtime β} {xs : List α}
    (h : ∀ b, ∀ a ∈ xs, ∃ next, exec handle (f b a) mount world = (.ok next, mount, world))
    (init : β) :
    ∃ result, exec handle (xs.foldlM f init) mount world = (.ok result, mount, world) := by
  induction xs generalizing init with
  | nil => exact ⟨init, rfl⟩
  | cons a rest ih =>
      obtain ⟨next, hNext⟩ := h init a List.mem_cons_self
      rw [List.foldlM_cons, exec_bind, hNext]
      exact ih (fun b a' hMem => h b a' (List.mem_cons_of_mem a hMem)) next

/-- The file of a subject is listed exactly if the subject is. -/
theorem any_subjectFile (subjects : List Str) (subject : Str) :
    (((Std.ExtTreeSet.ofList subjects).toList.map fun other =>
      (⟨streamSubjectFileNameFromStr other, .file⟩ : DirectoryEntry)).any
        fun entry => entry.name == streamSubjectFileNameFromStr subject) =
      subjects.contains subject := by
  rw [Bool.eq_iff_iff, List.any_map, List.any_eq_true, List.contains_iff_mem]
  constructor
  · rintro ⟨other, hOther, hName⟩
    obtain rfl := streamSubjectFileNameFromStr_injective (beq_iff_eq.mp hName)
    rwa [Std.ExtTreeSet.mem_toList, Std.ExtTreeSet.mem_ofList, List.contains_iff_mem] at hOther
  · intro hMem
    refine ⟨subject, ?_, beq_self_eq_true _⟩
    rwa [Std.ExtTreeSet.mem_toList, Std.ExtTreeSet.mem_ofList, List.contains_iff_mem]

theorem contains_map_eq {α : Type} (f : α → Str) (xs : List α) (subject : Str) :
    (xs.map f).contains subject = !(xs.filter fun x => f x == subject).isEmpty := by
  rw [Bool.eq_iff_iff, List.contains_iff_mem, List.mem_map, Bool.not_eq_true',
    List.isEmpty_eq_false_iff_exists_mem]
  constructor
  · rintro ⟨x, hMem, rfl⟩
    exact ⟨x, List.mem_filter.mpr ⟨hMem, beq_self_eq_true _⟩⟩
  · rintro ⟨x, hMem⟩
    obtain ⟨hMem, hSame⟩ := List.mem_filter.mp hMem
    exact ⟨x, hMem, beq_iff_eq.mp hSame⟩

theorem messageSequence_decimal {n : Nat} (h : n < 2 ^ 64) :
    messageSequence ⟨Text.decimal n ++ ".json".toList, .file⟩ = some n := by
  have hStrip : Text.stripSuffix ".json".toList (Text.decimal n ++ ".json".toList) =
      some (Text.decimal n) := Text.stripSuffix_eq_some.mpr rfl
  simp only [messageSequence, hStrip]
  exact Text.parseU64_decimal h

/-- The line a sequence number stands for. -/
theorem find?_of_ordered {lines : List LoggedLine} (hOrdered : LineLog.Ordered lines)
    {line : LoggedLine} (hMem : line ∈ lines) :
    (lines.find? fun other => other.sequence == line.sequence) = some line := by
  obtain ⟨front, back, rfl⟩ := List.append_of_mem hMem
  have hPairwise := (List.pairwise_append.mp hOrdered.1).2.2
  rw [List.find?_append, List.find?_eq_none.mpr, List.find?_cons_of_pos (by simp)]
  · rfl
  · intro other hOther
    have hLess := hPairwise other hOther line List.mem_cons_self
    simp only [beq_iff_eq]
    omega

theorem filterMap_messageSequence {lines : List LoggedLine} (hOrdered : LineLog.Ordered lines) :
    (lines.map fun line => (⟨Text.decimal line.sequence ++ ".json".toList, .file⟩ :
      DirectoryEntry)).filterMap messageSequence = lines.map (·.sequence) := by
  rw [List.filterMap_map, ← List.filterMap_eq_map]
  refine List.filterMap_congr ?_
  intro line hMem
  exact messageSequence_decimal (hOrdered.2 line hMem)

variable [Serde] {mount : Mount} {w : World LineLog} {stream subject : Str}

/-- The world whose backend is a log of lines. -/
abbrev logWorld : Handler io (World LineLog) := World.handle LineLog.handle

theorem run_request_log (call : StorageCall) :
    run logWorld (request call) mount w =
      ((LineLog.handle w.store call).1, mount,
        { w with store := (LineLog.handle w.store call).2 }) :=
  rfl

theorem exec_listStreamMessages :
    exec logWorld (listStreamMessages stream true) mount w =
      (.ok ((w.store.messages stream).map fun line =>
        ⟨Text.decimal line.sequence ++ ".json".toList, .file⟩), mount, w) := by
  rw [listStreamMessages, exec_bind, exec_liftM, run_request_log]
  have hReply : LineLog.handle w.store (.listStreamMessages stream) =
      (w.store.listStreamMessages stream, w.store) := rfl
  rw [hReply, LineLog.listStreamMessages, LineLog.messages, Std.ExtTreeMap.getD_eq_getD_getElem?]
  cases w.store.streams[stream]? with
  | none => simp
  | some lines => simp

theorem handle_streamMessage {log : LineLog} (hOrdered : LineLog.Ordered (log.messages stream))
    {line : LoggedLine} (hMem : line ∈ log.messages stream) :
    LineLog.handle log (.streamMessage stream line.sequence) =
      (.ok ⟨stream, line.sequence, line.subject, line.payload⟩, log) := by
  have hReply : LineLog.handle log (.streamMessage stream line.sequence) =
      (log.streamMessage stream line.sequence, log) := rfl
  rw [hReply, LineLog.streamMessage, find?_of_ordered hOrdered hMem]
  rfl

theorem exec_streamMessage (hOrdered : LineLog.Ordered (w.store.messages stream))
    {line : LoggedLine} (hMem : line ∈ w.store.messages stream) :
    exec logWorld (requestIo (.streamMessage stream line.sequence)) mount w =
      (.ok ⟨stream, line.sequence, line.subject, line.payload⟩, mount, w) := by
  rw [requestIo, exec_bind, exec_liftM, run_request_log, handle_streamMessage hOrdered hMem]
  rfl

theorem exec_collectStreamSubjectSnapshot
    (hOrdered : LineLog.Ordered (w.store.messages stream)) :
    exec logWorld (collectStreamSubjectSnapshot stream subject
      ((w.store.messages stream).map fun line =>
        ⟨Text.decimal line.sequence ++ ".json".toList, .file⟩)) mount w =
      (.ok (snapshotOf (w.store.ofSubject stream subject)), mount, w) := by
  rw [collectStreamSubjectSnapshot, filterMap_messageSequence hOrdered, List.foldlM_map]
  rw [exec_foldlM (g := fun bytes (line : LoggedLine) =>
    if line.subject = subject then appendJsonLine bytes line.payload else bytes)]
  · rw [snapshotOf, LineLog.ofSubject, List.foldl_filter]
    simp only [beq_iff_eq]
  · intro bytes line hMem
    rw [exec_bind, exec_streamMessage hOrdered hMem]
    rfl

theorem exec_readStreamSubjectSnapshotAllowMissing
    (hOrdered : LineLog.Ordered (w.store.messages stream)) :
    exec logWorld (readStreamSubjectSnapshotAllowMissing stream subject) mount w =
      (.ok (snapshotOf (w.store.ofSubject stream subject)), mount, w) := by
  rw [readStreamSubjectSnapshotAllowMissing, exec_bind, exec_listStreamMessages]
  exact exec_collectStreamSubjectSnapshot hOrdered

/-- A stream that exists is read in the same way whether or not it may be missing. -/
theorem exec_readStreamSubjectSnapshot (hStream : stream ∈ w.store.streams)
    (hOrdered : LineLog.Ordered (w.store.messages stream)) :
    exec logWorld (readStreamSubjectSnapshot stream subject) mount w =
      (.ok (snapshotOf (w.store.ofSubject stream subject)), mount, w) := by
  have hList : exec logWorld (listStreamMessages stream false) mount w =
      exec logWorld (listStreamMessages stream true) mount w := by
    rw [listStreamMessages, listStreamMessages, exec_bind, exec_bind, exec_liftM, run_request_log]
    have hReply : LineLog.handle w.store (.listStreamMessages stream) =
        (w.store.listStreamMessages stream, w.store) := rfl
    rw [hReply, LineLog.listStreamMessages, Std.ExtTreeMap.getElem?_eq_some_getElem hStream]
  rw [readStreamSubjectSnapshot, exec_bind, hList, exec_listStreamMessages]
  exact exec_collectStreamSubjectSnapshot hOrdered

end EventFs.Fuse
