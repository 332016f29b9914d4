import EventFs.Transport.LineLog
import EventFs.Transport.Writeback

/-!
# Replaying a queue of lines

A publish stores the lines of its payload that are not in the log yet, in order. So a queue
of publishes, of which the first may have been cut short, adds to every subject the lines
that are left of its entries.
-/

namespace EventFs.Transport

open Library Protocol Program

namespace LineLog

variable {log : LineLog} {stream subject key : Str}

/-! ## Storing lines -/

theorem messages_append (payload : Bytes) (id : Option LineId) (other : Str) :
    (log.append stream subject payload id).messages other =
      if other = stream then
        log.messages stream ++ [⟨nextSequence (log.messages stream), subject, payload, id⟩]
      else log.messages other := by
  simp only [append, messages, Std.ExtTreeMap.getD_insert, Std.compare_eq_iff_eq]
  by_cases hStream : stream = other
  · simp [hStream]
  · simp [hStream, Ne.symm hStream]

theorem messages_ensure (other : Str) :
    (log.ensure stream).messages other = log.messages other := by
  simp only [ensure, messages, Std.ExtTreeMap.getD_insertIfNew, Std.compare_eq_iff_eq]
  by_cases hMissing : stream = other ∧ stream ∉ log.streams
  · rw [if_pos hMissing, Std.ExtTreeMap.getD_eq_fallback (hMissing.1 ▸ hMissing.2)]
  · rw [if_neg hMissing]

theorem lineApplied_eq_of_messages {log' : LineLog}
    (h : log'.messages stream = log.messages stream) (id : LineId) :
    log'.lineApplied stream subject id = log.lineApplied stream subject id := by
  rw [lineApplied, lineApplied, ofSubject, ofSubject, h]

/-- Storing a line makes it and no other line applied. -/
theorem lineApplied_append (payload : Bytes) (id : LineId) (other what : Str) (which : LineId) :
    (log.append stream subject payload (some id)).lineApplied other what which =
      (log.lineApplied other what which ||
        decide (other = stream ∧ what = subject ∧ which = id)) := by
  by_cases hStream : other = stream
  · subst hStream
    simp only [lineApplied, ofSubject, messages_append, if_true, List.filter_append,
      List.any_append]
    congr 1
    by_cases hSubject : what = subject
    · subst hSubject
      simp only [List.filter_cons, beq_self_eq_true, if_true, List.filter_nil, List.any_cons,
        List.any_nil, Bool.or_false, true_and]
      rw [Bool.eq_iff_iff, beq_iff_eq, decide_eq_true_iff, Option.some.injEq]
      exact eq_comm
    · simp [hSubject, Ne.symm hSubject]
  · have hSame : (log.append stream subject payload (some id)).messages other =
        log.messages other := by
      rw [messages_append, if_neg hStream]
    rw [lineApplied_eq_of_messages hSame]
    simp [hStream]

/-- One line of a publish. -/
def storeLine (stream subject key : Str) (log : LineLog) (line : Str × Nat) : LineLog :=
  if log.lineApplied stream subject (key, line.2) then log
  else log.append stream subject (Text.asBytes line.1) (some (key, line.2))

theorem publishLines_fst (lines : List (Str × Nat)) :
    (log.publishLines stream subject key lines).1 =
      lines.foldl (storeLine stream subject key) log := by
  refine (List.foldl_hom Prod.fst ?_).symm
  rintro ⟨log, sequences⟩ line
  show storeLine stream subject key log line = Prod.fst (if _ then _ else _)
  rw [storeLine]
  split <;> rfl

/-- The added lines are numbered on from the others. -/
def Follows (lines added : List LoggedLine) : Prop :=
  added.map (·.sequence) = List.range' (nextSequence lines) added.length

theorem nextSequence_of_follows {lines added : List LoggedLine} (h : Follows lines added) :
    nextSequence (lines ++ added) = nextSequence lines + added.length := by
  induction added using List.reverseRecOn with
  | nil => simp
  | append_singleton front last _ =>
      have hLast : last.sequence = nextSequence lines + front.length := by
        rw [Follows, List.map_append, List.length_append, List.map_singleton, List.length_singleton,
          List.range'_concat] at h
        have hTail := (List.append_inj' h rfl).2
        simpa using hTail
      rw [← List.append_assoc, nextSequence, List.getLast?_concat]
      simp only [List.length_append, List.length_singleton]
      omega

theorem Follows.append {lines added more : List LoggedLine} (h : Follows lines added)
    (hMore : Follows (lines ++ added) more) : Follows lines (added ++ more) := by
  rw [Follows] at h hMore ⊢
  rw [List.map_append, h, hMore, nextSequence_of_follows h, List.length_append,
    ← List.range'_append_1]

theorem lt_nextSequence {lines : List LoggedLine} (h : Ordered lines) {line : LoggedLine}
    (hLine : line ∈ lines) : line.sequence < nextSequence lines := by
  induction lines using List.reverseRecOn with
  | nil => cases hLine
  | append_singleton front last _ =>
      rw [nextSequence, List.getLast?_concat]
      rcases List.mem_append.mp hLine with hFront | hLast
      · have hLess := (List.pairwise_append.mp h.1).2.2 line hFront last
          (List.mem_singleton.mpr rfl)
        show line.sequence < last.sequence + 1
        omega
      · rw [List.mem_singleton.mp hLast]
        exact Nat.lt_succ_self _

/-- Numbering on keeps a log ordered as long as there are numbers. -/
theorem Ordered.append {lines added : List LoggedLine} (h : Ordered lines)
    (hFollows : Follows lines added) (hRoom : nextSequence lines + added.length ≤ 2 ^ 64) :
    Ordered (lines ++ added) := by
  have hBounds : ∀ line ∈ added, nextSequence lines ≤ line.sequence ∧
      line.sequence < nextSequence lines + added.length := by
    intro line hLine
    have hMem : line.sequence ∈ added.map (·.sequence) := List.mem_map.mpr ⟨line, hLine, rfl⟩
    rw [hFollows, List.mem_range'_1] at hMem
    exact hMem
  refine ⟨List.pairwise_append.mpr ⟨h.1, ?_, ?_⟩, ?_⟩
  · have hSorted : (added.map (·.sequence)).Pairwise (· < ·) := by
      rw [hFollows]
      exact List.pairwise_lt_range'
    exact List.pairwise_map.mp hSorted
  · intro line hLine other hOther
    have hLow := lt_nextSequence h hLine
    have hHigh := (hBounds other hOther).1
    omega
  · intro line hLine
    rcases List.mem_append.mp hLine with hOld | hNew
    · exact h.2 line hOld
    · have hHigh := (hBounds line hNew).2
      omega

/-- What storing lines adds to a log. -/
structure Added (log log' : LineLog) (stream subject key : Str) (added : List LoggedLine)
    (lines : List (Str × Nat)) : Prop where
  here : log'.messages stream = log.messages stream ++ added
  elsewhere : ∀ other, other ≠ stream → log'.messages other = log.messages other
  subjects : ∀ line ∈ added, line.subject = subject
  payloads : added.map (·.payload) = lines.map fun line => Text.asBytes line.1
  identities : ∀ line ∈ added, ∃ index, line.id = some (key, index)
  follows : Follows (log.messages stream) added

theorem storeLines_applied {lines : List (Str × Nat)}
    (h : ∀ line ∈ lines, log.lineApplied stream subject (key, line.2) = true) :
    lines.foldl (storeLine stream subject key) log = log := by
  induction lines with
  | nil => rfl
  | cons line rest ih =>
      rw [List.foldl_cons, storeLine, if_pos (h line List.mem_cons_self)]
      exact ih fun other hOther => h other (List.mem_cons_of_mem line hOther)

/-- Lines that are not in the log are stored in order. -/
theorem storeLines_fresh {lines : List (Str × Nat)} (hDistinct : (lines.map (·.2)).Nodup)
    (h : ∀ line ∈ lines, log.lineApplied stream subject (key, line.2) = false) :
    ∃ added, Added log (lines.foldl (storeLine stream subject key) log) stream subject key added
      lines := by
  induction lines generalizing log with
  | nil =>
      refine ⟨[], ?_, fun other _ => rfl, by simp, rfl, by simp, rfl⟩
      rw [List.append_nil]
      rfl
  | cons line rest ih =>
      have hFresh := h line List.mem_cons_self
      rw [List.map_cons, List.nodup_cons] at hDistinct
      have hRest : ∀ other ∈ rest, (log.append stream subject (Text.asBytes line.1)
          (some (key, line.2))).lineApplied stream subject (key, other.2) = false := by
        intro other hOther
        have hNe : other.2 ≠ line.2 :=
          fun hEq => hDistinct.1 (hEq ▸ List.mem_map.mpr ⟨other, hOther, rfl⟩)
        rw [lineApplied_append, h other (List.mem_cons_of_mem line hOther)]
        simp [hNe]
      obtain ⟨added, hAdded⟩ := ih hDistinct.2 hRest
      rw [List.foldl_cons, storeLine, hFresh, if_neg Bool.false_ne_true]
      refine ⟨⟨nextSequence (log.messages stream), subject, Text.asBytes line.1,
        some (key, line.2)⟩ :: added, ?_, ?_, ?_, ?_, ?_, ?_⟩
      · rw [hAdded.here, messages_append, if_pos rfl, List.append_assoc]
        rfl
      · intro other hOther
        rw [hAdded.elsewhere other hOther, messages_append, if_neg hOther]
      · intro stored hStored
        rcases List.mem_cons.mp hStored with rfl | hStored
        · rfl
        · exact hAdded.subjects stored hStored
      · rw [List.map_cons, List.map_cons, hAdded.payloads]
      · intro stored hStored
        rcases List.mem_cons.mp hStored with rfl | hStored
        · exact ⟨line.2, rfl⟩
        · exact hAdded.identities stored hStored
      · have hRest := hAdded.follows
        rw [messages_append, if_pos rfl] at hRest
        have hFirst : Follows (log.messages stream) [⟨nextSequence (log.messages stream), subject,
            Text.asBytes line.1, some (key, line.2)⟩] := rfl
        exact hFirst.append hRest

/-- A publish of which the first lines are in the log stores the others. -/
theorem storeLines_prefix {lines : List Str} {published : Nat}
    (h : ∀ i < lines.length,
      log.lineApplied stream subject (key, i) = decide (i < published)) :
    ∃ added, Added log (lines.zipIdx.foldl (storeLine stream subject key) log) stream subject key
      added ((lines.drop published).zipIdx published) := by
  have hSplit : lines.zipIdx =
      (lines.take published).zipIdx ++ (lines.drop published).zipIdx published := by
    by_cases hLength : published ≤ lines.length
    · conv_lhs => rw [← List.take_append_drop published lines]
      rw [List.zipIdx_append, List.length_take, Nat.min_eq_left hLength, Nat.zero_add]
    · rw [List.take_of_length_le (by omega), List.drop_eq_nil_of_le (by omega)]
      simp
  have hApplied : (lines.take published).zipIdx.foldl (storeLine stream subject key) log = log := by
    apply storeLines_applied
    intro line hLine
    obtain ⟨-, hHigh, -⟩ := List.mem_zipIdx hLine
    rw [List.length_take] at hHigh
    rw [h line.2 (by omega), decide_eq_true (by omega)]
  rw [hSplit, List.foldl_append, hApplied]
  apply storeLines_fresh
  · rw [List.zipIdx_map_snd]
    exact List.nodup_range'
  · intro line hLine
    obtain ⟨hLow, hHigh, -⟩ := List.mem_zipIdx hLine
    rw [List.length_drop] at hHigh
    rw [h line.2 (by omega), decide_eq_false (by omega)]

end LineLog

/-! ## Entries -/

/-- A pending publish of JSON lines. -/
structure LineEntry where
  key : Str
  stream : Str
  subject : Str
  bytes : Bytes
  appliedLines : Nat
  attempts : Nat

namespace LineEntry

def entry (e : LineEntry) : QueueEntry :=
  ⟨e.key, .publishJsonLines e.stream e.subject e.bytes e.appliedLines, e.attempts, false⟩

variable [Serde]

def lines (e : LineEntry) : List Str := (jsonLines e.subject e.bytes).toOption.getD []

/-- The payload has lines, all of them valid, of which `published` are in the log; what
the entry says about that is not more. -/
structure Ready (e : LineEntry) (log : LineLog) (published : Nat) : Prop where
  valid : validateJsonLines e.subject e.bytes = .ok ()
  nonblank : e.lines ≠ []
  stored : ∀ i < e.lines.length,
    log.lineApplied e.stream e.subject (e.key, i) = decide (i < published)
  length : published ≤ e.lines.length
  noted : e.appliedLines ≤ published

variable {e : LineEntry} {log : LineLog} {published : Nat}

theorem Ready.jsonLines_eq (h : e.Ready log published) :
    jsonLines e.subject e.bytes = .ok e.lines := by
  obtain ⟨lines, hLines⟩ := jsonLines_of_validateJsonLines h.valid
  rw [LineEntry.lines, hLines]
  rfl

theorem Ready.publish (h : e.Ready log published) :
    ∃ log' added sequences, log.publishJsonLines e.stream e.subject e.bytes e.key =
        (.ok sequences, log') ∧
      log.Added log' e.stream e.subject e.key added
        ((e.lines.drop published).zipIdx published) := by
  have hStored : ∀ i < e.lines.length, (log.ensure e.stream).lineApplied e.stream e.subject
      (e.key, i) = decide (i < published) := by
    intro i hi
    rw [LineLog.lineApplied_eq_of_messages (LineLog.messages_ensure _), h.stored i hi]
  obtain ⟨added, hAdded⟩ := LineLog.storeLines_prefix hStored
  rw [← LineLog.publishLines_fst] at hAdded
  let result := (log.ensure e.stream).publishLines e.stream e.subject e.key e.lines.zipIdx
  refine ⟨result.1, added, result.2, ?_, ?_⟩
  · rw [LineLog.publishJsonLines, h.valid, h.jsonLines_eq]
  · refine ⟨?_, ?_, hAdded.subjects, hAdded.payloads, hAdded.identities, ?_⟩
    · rw [hAdded.here, LineLog.messages_ensure]
    · intro other hOther
      rw [hAdded.elsewhere other hOther, LineLog.messages_ensure]
    · have hFollows := hAdded.follows
      rw [LineLog.messages_ensure] at hFollows
      exact hFollows

theorem Ready.applied (h : e.Ready log published) :
    log.publishJsonLinesApplied e.stream e.subject e.bytes e.key =
      .ok (decide (e.lines.length ≤ published)) := by
  rw [LineLog.publishJsonLinesApplied, h.valid, h.jsonLines_eq]
  show Except.ok _ = Except.ok _
  congr 1
  rw [Bool.eq_iff_iff, List.all_eq_true, decide_eq_true_iff]
  constructor
  · intro hAll
    by_contra hLess
    have hMissing := hAll published (List.mem_range.mpr (by omega))
    rw [h.stored published (by omega)] at hMissing
    simp at hMissing
  · intro hLength i hi
    have hIndex := List.mem_range.mp hi
    rw [h.stored i hIndex]
    exact decide_eq_true (by omega)

/-- The backend reports how many lines are in the log. -/
theorem Ready.appliedPrefix (h : e.Ready log published) :
    log.publishJsonLinesAppliedPrefix e.stream e.subject e.bytes e.key = .ok published := by
  rw [LineLog.publishJsonLinesAppliedPrefix, h.valid, h.jsonLines_eq]
  show Except.ok _ = Except.ok _
  congr 1
  have hSplit : List.range e.lines.length =
      List.range published ++ (List.range (e.lines.length - published)).map (published + ·) := by
    rw [← List.range_add, Nat.add_sub_cancel' h.length]
  have hFront : ∀ i ∈ List.range published,
      log.lineApplied e.stream e.subject (e.key, i) = true := by
    intro i hi
    have hIndex := List.mem_range.mp hi
    have hLength := h.length
    rw [h.stored i (by omega), decide_eq_true hIndex]
  rw [hSplit, List.takeWhile_append_of_pos hFront, List.length_append, List.length_range]
  cases hRest : e.lines.length - published with
  | zero => rfl
  | succ rest =>
      have hMissing : log.lineApplied e.stream e.subject (e.key, published) = false := by
        rw [h.stored published (by omega), decide_eq_false (by omega)]
      rw [List.range_succ_eq_map, List.map_cons, List.takeWhile_cons_of_neg (by simp [hMissing])]
      rfl

/-- Lines of other entries do not change how much of an entry is in the log. -/
theorem Ready.of_added (h : e.Ready log published) {log' : LineLog} {stream subject key : Str}
    {added : List LoggedLine} {lines : List (Str × Nat)}
    (hAdded : log.Added log' stream subject key added lines) (hKey : e.key ≠ key) :
    e.Ready log' published := by
  refine ⟨h.valid, h.nonblank, ?_, h.length, h.noted⟩
  intro i hi
  rw [← h.stored i hi]
  by_cases hStream : e.stream = stream
  · subst hStream
    rw [LineLog.lineApplied, LineLog.ofSubject, hAdded.here, List.filter_append, List.any_append]
    have hNone : (added.filter fun line => line.subject == e.subject).any
        (fun line => line.id == some (e.key, i)) = false := by
      rw [List.any_eq_false]
      intro line hLine hId
      obtain ⟨index, hIndex⟩ := hAdded.identities line (List.mem_of_mem_filter hLine)
      rw [hIndex, beq_iff_eq, Option.some.injEq, Prod.mk.injEq] at hId
      exact hKey hId.1.symm
    rw [hNone, Bool.or_false]
    rfl
  · exact LineLog.lineApplied_eq_of_messages (hAdded.elsewhere e.stream hStream) _

end LineEntry

/-! ## Queues -/

variable [Serde]

/-- The entries have distinct keys; of the first some lines are in the log, of the others
none. -/
structure LinesReady (log : LineLog) (queue : List LineEntry) (published : Nat) : Prop where
  distinct : (queue.map (·.key)).Nodup
  head : ∀ e ∈ queue.head?, e.Ready log published
  tail : ∀ e ∈ queue.tail, e.Ready log 0

theorem LinesReady.next {log : LineLog} {e : LineEntry} {rest : List LineEntry} {published : Nat}
    (h : LinesReady log (e :: rest) published) : LinesReady log rest 0 :=
  ⟨(List.nodup_cons.mp h.distinct).2, fun other hOther =>
    h.tail other (List.mem_of_mem_head? hOther),
    fun other hOther => h.tail other (List.mem_of_mem_tail hOther)⟩

theorem LinesReady.ready {log : LineLog} {queue : List LineEntry} {published : Nat}
    (h : LinesReady log queue published) : ∀ e ∈ queue, ∃ count, e.Ready log count := by
  intro e hMem
  cases queue with
  | nil => cases hMem
  | cons first rest =>
      rcases List.mem_cons.mp hMem with rfl | hMem
      · exact ⟨published, h.head e rfl⟩
      · exact ⟨0, h.tail e hMem⟩

/-- The lines that the queue has yet to add to a subject. -/
def leftLines (stream subject : Str) : List LineEntry → Nat → List Str
  | [], _ => []
  | e :: rest, published =>
      (if e.stream = stream ∧ e.subject = subject then e.lines.drop published else []) ++
        leftLines stream subject rest 0

/-- All lines of the queue. -/
def lineCount (queue : List LineEntry) : Nat := (queue.map (·.lines.length)).sum

/-- Every stream has grown by what the queue had yet to add. -/
def Drained (log log' : LineLog) (queue : List LineEntry) (published : Nat) : Prop :=
  ∀ stream, ∃ added, log'.messages stream = log.messages stream ++ added ∧
    LineLog.Follows (log.messages stream) added ∧ added.length ≤ lineCount queue ∧
    ∀ subject, (added.filter fun line => line.subject == subject).map (·.payload) =
      (leftLines stream subject queue published).map Text.asBytes

theorem LinesReady.of_added {log log' : LineLog} {e : LineEntry} {rest : List LineEntry}
    {published : Nat} (h : LinesReady log (e :: rest) published) {added : List LoggedLine}
    {lines : List (Str × Nat)} (hAdded : log.Added log' e.stream e.subject e.key added lines) :
    LinesReady log' rest 0 := by
  have hRest : ∀ other ∈ rest, other.Ready log' 0 := by
    intro other hOther
    refine (h.tail other hOther).of_added hAdded ?_
    intro hEq
    have hDistinct := h.distinct
    rw [List.map_cons, List.nodup_cons] at hDistinct
    exact hDistinct.1 (hEq ▸ List.mem_map.mpr ⟨other, hOther, rfl⟩)
  exact ⟨(List.nodup_cons.mp h.distinct).2, fun other hOther =>
    hRest other (List.mem_of_mem_head? hOther),
    fun other hOther => hRest other (List.mem_of_mem_tail hOther)⟩

theorem Drained.of_added {log log' final : LineLog} {e : LineEntry} {rest : List LineEntry}
    {published : Nat} {added : List LoggedLine}
    (hAdded : log.Added log' e.stream e.subject e.key added
      ((e.lines.drop published).zipIdx published))
    (hRest : Drained log' final rest 0) : Drained log final (e :: rest) published := by
  intro stream
  obtain ⟨more, hMore, hFollows, hCount, hLines⟩ := hRest stream
  have hTotal : lineCount (e :: rest) = e.lines.length + lineCount rest := by
    simp [lineCount]
  have hLength : added.length = e.lines.length - published := by
    simpa using congrArg List.length hAdded.payloads
  by_cases hStream : e.stream = stream
  · subst hStream
    refine ⟨added ++ more, ?_, ?_, ?_, ?_⟩
    · rw [hMore, hAdded.here, List.append_assoc]
    · rw [hAdded.here] at hFollows
      exact hAdded.follows.append hFollows
    · rw [List.length_append]
      omega
    · intro subject
      rw [List.filter_append, List.map_append, hLines, leftLines, List.map_append]
      congr 1
      by_cases hSubject : e.subject = subject
      · rw [if_pos ⟨rfl, hSubject⟩, List.filter_eq_self.mpr, hAdded.payloads]
        · show List.map (Text.asBytes ∘ Prod.fst) _ = _
          rw [← List.map_map, List.zipIdx_map_fst]
        · intro line hLine
          rw [hAdded.subjects line hLine, hSubject, beq_self_eq_true]
      · rw [if_neg fun h => hSubject h.2, List.filter_eq_nil_iff.mpr]
        · rfl
        · intro line hLine
          rw [hAdded.subjects line hLine, beq_iff_eq]
          exact hSubject
  · refine ⟨more, ?_, ?_, ?_, ?_⟩
    · rw [hMore, hAdded.elsewhere stream (Ne.symm hStream)]
    · rw [hAdded.elsewhere stream (Ne.symm hStream)] at hFollows
      exact hFollows
    · omega
    · intro subject
      rw [hLines, leftLines, if_neg fun h => hStream h.1, List.nil_append]

theorem Drained.valid {log final : LineLog} {queue : List LineEntry} {published : Nat}
    (h : Drained log final queue published) (hValid : log.Valid)
    (hRoom : ∀ stream, LineLog.nextSequence (log.messages stream) + lineCount queue ≤ 2 ^ 64) :
    final.Valid := by
  intro stream
  obtain ⟨added, hAdded, hFollows, hCount, -⟩ := h stream
  have hStream := hRoom stream
  rw [hAdded]
  exact (hValid stream).append hFollows (by omega)

/-- Replay without faults empties the queue and adds what was left of it. -/
theorem eval_replayLines (queue : List LineEntry) : ∀ (log : LineLog) (file : List QueueEntry)
    (published : Nat), LinesReady log queue published →
    ∃ final file', eval (World.handle LineLog.handle)
        (replayEntries storeReplayExecutor (queue.map LineEntry.entry)) ⟨log, file⟩ =
        (([], .ok ()), ⟨final, file'⟩) ∧ Drained log final queue published := by
  induction queue with
  | nil =>
      intro log file published _
      refine ⟨log, file, rfl, ?_⟩
      intro stream
      exact ⟨[], by simp, rfl, Nat.le_refl 0, fun subject => rfl⟩
  | cons e rest ih =>
      intro log file published hReady
      have hHead := hReady.head e rfl
      have hApplied : eval (World.handle LineLog.handle)
          (storeReplayExecutor.isApplied e.entry).run ⟨log, file⟩ =
            (.ok (decide (e.lines.length ≤ published)), ⟨log, file⟩) := by
        rw [← hHead.applied]
        rfl
      have hNotDone : ¬ e.entry.done = true := Bool.false_ne_true
      rw [List.map_cons, replayEntries, if_neg hNotDone, eval_bind, hApplied]
      by_cases hDone : e.lines.length ≤ published
      · -- nothing is left of the entry, so it is dropped
        have hAdded : log.Added log e.stream e.subject e.key []
            ((e.lines.drop published).zipIdx published) := by
          rw [List.drop_eq_nil_of_le hDone]
          exact ⟨by simp, fun _ _ => rfl, by simp, rfl, by simp, rfl⟩
        obtain ⟨final, file', hEval, hDrained⟩ :=
          ih log (rest.map LineEntry.entry) 0 (hReady.of_added hAdded)
        refine ⟨final, file', ?_, .of_added hAdded hDrained⟩
        rw [decide_eq_true hDone]
        exact hEval
      · obtain ⟨log', added, sequences, hPublish, hAdded⟩ := hHead.publish
        obtain ⟨final, file', hEval, hDrained⟩ :=
          ih log' (rest.map LineEntry.entry) 0 (hReady.of_added hAdded)
        refine ⟨final, file', ?_, .of_added hAdded hDrained⟩
        have hExecuted : eval (World.handle LineLog.handle)
            (storeReplayExecutor.execute e.entry.attempt).run
              ⟨log, e.entry.attempt :: rest.map LineEntry.entry⟩ =
                (.ok (), ⟨log', e.entry.attempt :: rest.map LineEntry.entry⟩) := by
          have hReply : LineLog.handle log (.publishJsonLines e.stream e.subject e.bytes e.key) =
              (.ok sequences, log') := hPublish
          show eval _ (ExceptT.run (call (.publishJsonLines e.stream e.subject e.bytes e.key) >>=
            fun _ => pure ())) _ = _
          rw [ExceptT.run_bind, eval_bind, eval_call, hReply]
          rfl
        rw [decide_eq_false hDone]
        simp only [eval_bind, eval_persistEntries, hExecuted, hEval]

end EventFs.Transport
