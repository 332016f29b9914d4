import EventFs.Protocol.SubjectPaths
import EventFs.Transport.LineQueue
import EventFs.Fuse.LineProgress
import EventFs.Fuse.PendingReads

/-!
# Reading a subject with lines pending

With publishes in the queue a subject reads as what the stream holds and behind it the lines
that the queue has yet to add. That is what it reads as once the queue has been replayed,
unless the mount cannot name the paths of the subject.
-/

namespace EventFs.Fuse

open Library Protocol Transport Program

/-! ## Paths and subjects -/

section Paths

variable {path : MountPath} {parsed : JetStreamPath} {stream subject : Str}

/-- The path of a subject under `/streams`, or its alias. -/
structure ShowsSubject (path : MountPath) (parsed : JetStreamPath) (stream subject : Str) :
    Prop where
  parse : JetStreamPath.parse path.asStr = .ok parsed
  canonical : mountPathFromJetstreamPath parsed = .ok path
  target : jsonlTargetForPath parsed = some (stream, subject)

theorem subjectPath_of_shows (h : ShowsSubject path parsed stream subject) :
    SubjectPath path.components stream subject ∧ IsToken stream ∧ '\x00' ∉ subject := by
  have hParses := parse_cases h.parse
  have hTarget := h.target
  have hCanonical := h.canonical
  generalize hComponents : path.components = parts at hParses
  cases hParses with
  | @streamSubject stream' file subject' hStream hFile =>
      obtain ⟨rfl, rfl⟩ : stream' = stream ∧ subject'.asStr = subject := by
        simpa [jsonlTargetForPath] using hTarget
      rw [mountPathFromJetstreamPath,
        joinStoragePath_single (slash_notMem_fileName _) (fileName_ne_nil _)] at hCanonical
      rw [← hComponents, hCanonical]
      refine ⟨.exact stream' subject'.asStr, hStream, ?_⟩
      obtain ⟨name, -, hFile⟩ := except_bind_eq_ok.mp hFile
      obtain ⟨⟨⟩, hValid, hFile⟩ := except_bind_eq_ok.mp hFile
      cases hFile
      rw [validateSubject] at hValid
      split_ifs at hValid with hShape hChars
      intro hNul
      apply hChars
      rw [List.any_eq_true]
      exact ⟨'\x00', hNul, by decide⟩
  | @eventLog log hStream =>
      obtain ⟨rfl, rfl⟩ : log = stream ∧ "events.".toList ++ log = subject := by
        simpa [jsonlTargetForPath, MaterializedTarget.fromPath] using hTarget
      refine ⟨.events log, hStream, ?_⟩
      rw [List.mem_append, not_or]
      exact ⟨by decide, hStream.not_mem (by decide)⟩
  | @agentMailbox agent area hName hReserved hArea =>
      obtain ⟨rfl, rfl⟩ : agentsStream = stream ∧
          "agents.".toList ++ agent ++ '.' :: area.asStr = subject := by
        simpa [jsonlTargetForPath, MaterializedTarget.fromPath, agentSubject, hArea] using hTarget
      refine ⟨.mailbox agent area, ⟨by decide, List.all_eq_true.mp (by decide)⟩, ?_⟩
      rw [List.mem_append, List.mem_append, not_or, not_or]
      exact ⟨⟨by decide, hName.not_mem (by decide)⟩, by cases area <;> decide⟩
  | _ => simp [jsonlTargetForPath, MaterializedTarget.fromPath] at hTarget

/-- The overlay of a publish is seen at the paths of its subject, if these have names. -/
theorem mem_visible_iff (h : ShowsSubject path parsed stream subject) (other what : Str) :
    path ∈ storageFactVisiblePaths (.streamSubject other what) ↔
      (other = stream ∧ what = subject) ∧ ¬ HiddenMailbox stream subject := by
  obtain ⟨hPath, hStream, hNul⟩ := subjectPath_of_shows h
  rw [storageFactVisiblePaths]
  constructor
  · intro hMem
    cases hPaths : visiblePaths (.streamSubject other what) with
    | error err =>
        rw [hPaths] at hMem
        cases hMem
    | ok paths =>
        rw [hPaths] at hMem
        obtain ⟨rfl, rfl⟩ := hPath.functional (subjectPath_of_mem hPaths hMem)
        exact ⟨⟨rfl, rfl⟩, (visiblePaths_ok_iff hStream hNul).mp ⟨paths, hPaths⟩⟩
  · rintro ⟨⟨rfl, rfl⟩, hNamed⟩
    obtain ⟨paths, hPaths⟩ := (visiblePaths_ok_iff hStream hNul).mpr hNamed
    rw [hPaths]
    show path ∈ paths.map (·.path)
    have hTarget := h.target
    rw [jsonlTargetForPath.eq_def] at hTarget
    split at hTarget
    · obtain ⟨rfl, rfl⟩ : _ = other ∧ _ = what := by simpa using hTarget
      exact (mem_visiblePaths_streamSubject hPaths).mpr (Or.inl h.canonical)
    · split at hTarget
      · next hAlias =>
        obtain ⟨rfl, rfl⟩ : _ = other ∧ _ = what := by simpa using hTarget
        exact mem_visiblePaths_stream h.parse hAlias hPaths
      · cases hTarget

/-- Only the path under `/streams` shows a mailbox whose alias has no name. -/
theorem parsed_of_hidden (h : ShowsSubject path parsed stream subject)
    (hHidden : HiddenMailbox stream subject) : parsed = .streamSubject stream ⟨subject⟩ := by
  obtain ⟨rfl, agent, area, hParts, hSlash⟩ := hHidden
  obtain ⟨hSubject, hDot, hEmpty, hMailbox⟩ := agentMailboxSubjectParts_eq_some hParts
  have hParses := parse_cases h.parse
  have hTarget := h.target
  generalize path.components = parts at hParses
  cases hParses with
  | @streamSubject stream' file subject' hStream hFile =>
      obtain ⟨rfl, rfl⟩ : stream' = agentsStream ∧ subject'.asStr = subject := by
        simpa [jsonlTargetForPath] using hTarget
      rfl
  | @eventLog log hStream =>
      obtain ⟨rfl, hEq⟩ : log = agentsStream ∧ "events.".toList ++ log = subject := by
        simpa [jsonlTargetForPath, MaterializedTarget.fromPath] using hTarget
      rw [hSubject] at hEq
      simp at hEq
  | @agentMailbox agent' area' hName hReserved hArea =>
      have hEq : "agents.".toList ++ agent' ++ '.' :: area'.asStr = subject := by
        simpa [jsonlTargetForPath, MaterializedTarget.fromPath, agentSubject, hArea] using hTarget
      have hSplit := splitOn_mailbox (hName.not_mem (by decide)) area'
      have hSplit' := splitOn_mailbox hDot area
      rw [hEq, hSubject, hSplit'] at hSplit
      simp only [List.cons.injEq, true_and, and_true] at hSplit
      exact absurd (hSplit.1 ▸ hSlash) (hName.not_mem (by decide))
  | _ => simp [jsonlTargetForPath, MaterializedTarget.fromPath] at hTarget

end Paths

/-! ## Reading with the queue pending -/

section Pending

variable [Serde]

def queuedJsonl (e : LineEntry) : QueuedJsonlEntry :=
  ⟨e.key, e.stream, e.subject, e.bytes, e.appliedLines⟩

omit [Serde] in
theorem pendingEntries_lines (queue : List LineEntry) (capacity : Nat) :
    WritebackQueue.pendingEntries ⟨capacity, queue.map LineEntry.entry⟩ =
      queue.map LineEntry.entry := by
  rw [WritebackQueue.pendingEntries, List.filter_eq_self]
  intro entry hEntry
  obtain ⟨e, -, rfl⟩ := List.mem_map.mp hEntry
  rfl

omit [Serde] in
/-- Publishes neither delete anything nor show a whole value. -/
theorem overlay_lines (queue : List LineEntry) (path : MountPath) :
    QueuedOverlay.latestDeleteCovers ((queue.map LineEntry.entry).map queueEntryPendingOverlay)
        path = false ∧
      QueuedOverlay.wholeValueSnapshot ((queue.map LineEntry.entry).map queueEntryPendingOverlay)
        path = none := by
  rw [QueuedOverlay.latestDeleteCovers, QueuedOverlay.wholeValueSnapshot, ← List.map_reverse,
    ← List.map_reverse]
  generalize queue.reverse = entries
  induction entries with
  | nil => exact ⟨rfl, rfl⟩
  | cons e rest ih =>
      simp only [List.map_cons, QueuedOverlay.latestDeleteCoversIn,
        QueuedOverlay.wholeValueSnapshotIn]
      have hOverlay : queueEntryPendingOverlay e.entry = ⟨e.key,
        publishJsonlVisibleMountPaths e.stream e.subject, [],
        .jsonLines e.stream e.subject e.bytes e.appliedLines⟩ := rfl
      rw [hOverlay]
      simp only [List.any_nil, Bool.false_eq_true, if_false, ih.1, ih.2]
      constructor
      · split <;> rfl
      · split <;> rfl

omit [Serde] in
theorem jsonlEntries_lines (queue : List LineEntry) (path : MountPath) :
    QueuedOverlay.jsonlEntries ((queue.map LineEntry.entry).map queueEntryPendingOverlay) path =
      (queue.filter fun e => (publishJsonlVisibleMountPaths e.stream e.subject).any
        fun candidate => candidate == path).map queuedJsonl := by
  rw [QueuedOverlay.jsonlEntries, List.map_map, List.filterMap_map, ← List.filterMap_eq_map,
    List.filterMap_filter]
  refine List.filterMap_congr ?_
  intro e _
  show (if !(publishJsonlVisibleMountPaths e.stream e.subject).any _ then none
    else some (queuedJsonl e)) = _
  by_cases hVisible : (publishJsonlVisibleMountPaths e.stream e.subject).any
      (fun candidate => candidate == path) = true
  · simp [hVisible]
  · simp [hVisible]

/-- The lines of a pending publish that are not in the log, as they will read. -/
def missingBytes (log : LineLog) (q : QueuedJsonlEntry) : Bytes :=
  ((((jsonLines q.subject q.bytes).toOption.getD []).drop
    ((log.publishJsonLinesAppliedPrefix q.stream q.subject q.bytes q.idempotencyKey).toOption.getD
      0)).map canonicalLine).flatten

theorem missingBytes_of_ready {e : LineEntry} {log : LineLog} {published : Nat}
    (h : e.Ready log published) :
    missingBytes log (queuedJsonl e) = ((e.lines.drop published).map canonicalLine).flatten := by
  rw [missingBytes]
  show ((List.drop ((log.publishJsonLinesAppliedPrefix e.stream e.subject e.bytes
    e.key).toOption.getD 0) e.lines).map canonicalLine).flatten = _
  rw [h.appliedPrefix]
  rfl

/-- Behind what the stream holds stands what is left of the queue. -/
theorem foldl_missingBytes {log : LineLog} {stream subject : Str} {queue : List LineEntry} :
    ∀ {published : Nat}, LinesReady log queue published → ∀ base : Bytes,
      ((queue.filter fun e => decide (e.stream = stream ∧ e.subject = subject)).map
        queuedJsonl).foldl (fun bytes q => bytes ++ missingBytes log q) base =
        base ++ ((leftLines stream subject queue published).map canonicalLine).flatten := by
  induction queue with
  | nil =>
      intro published _ base
      simp [leftLines]
  | cons e rest ih =>
      intro published hReady base
      rw [leftLines]
      by_cases hTarget : e.stream = stream ∧ e.subject = subject
      · rw [List.filter_cons_of_pos (by simp [hTarget]), List.map_cons, List.foldl_cons,
          ih hReady.next, missingBytes_of_ready (hReady.head e rfl), if_pos hTarget]
        simp
      · rw [List.filter_cons_of_neg (by simpa using hTarget), ih hReady.next, if_neg hTarget,
          List.nil_append]

variable {path : MountPath} {parsed : JetStreamPath} {stream subject : Str} {log : LineLog}
  {queue : List LineEntry} {published : Nat} {mount : Mount} {file : List QueueEntry}

theorem run_durableJsonlAppliedPrefix {e : LineEntry} (h : e.Ready log published) :
    run logWorld (durableJsonlAppliedPrefix (queuedJsonl e)) mount ⟨log, file⟩ =
      (published, mount, ⟨log, file⟩) := by
  have hRequest : run logWorld (request (.publishJsonLinesAppliedPrefix (queuedJsonl e).stream
      (queuedJsonl e).subject (queuedJsonl e).bytes (queuedJsonl e).idempotencyKey)) mount
        ⟨log, file⟩ = (.ok published, mount, ⟨log, file⟩) := by
    rw [run_request_log, ← h.appliedPrefix]
    rfl
  rw [durableJsonlAppliedPrefix, run_bind, hRequest]
  rfl

theorem unappliedJsonlBytes_of_ready {e : LineEntry} (h : e.Ready log published) (label : Str) :
    unappliedJsonlBytes label (queuedJsonl e).bytes (max published (queuedJsonl e).appliedLines) =
      .ok ((e.lines.drop published).map canonicalLine).flatten := by
  have hLines := jsonlCanonicalLines_ok (jsonLines_ok_path h.jsonLines_eq : jsonLines label _ = _)
  show unappliedJsonlBytes label e.bytes (max published e.appliedLines) = _
  rw [unappliedJsonlBytes, hLines, Nat.max_eq_left h.noted, List.map_drop]
  rfl

theorem exec_queuedJsonlSnapshot (h : ShowsSubject path parsed stream subject)
    (hNamed : ¬ HiddenMailbox stream subject) (hReady : LinesReady log queue published)
    (hQueued : ∃ e ∈ queue, e.stream = stream ∧ e.subject = subject)
    (hEntries : mount.replay.queue.entries = queue.map LineEntry.entry)
    (hCache : mount.cache = LocalCache.new) (hOrdered : LineLog.Ordered (log.messages stream)) :
    exec logWorld (queuedJsonlSnapshot path parsed) mount ⟨log, file⟩ =
      (.ok (some (snapshotOf (log.ofSubject stream subject) ++
        ((leftLines stream subject queue published).map canonicalLine).flatten)), mount,
        ⟨log, file⟩) := by
  have hFacts : run logWorld pendingFacts mount ⟨log, file⟩ =
      ((queue.map LineEntry.entry).map queueEntryPendingOverlay, mount, ⟨log, file⟩) := by
    have hPending := pendingEntries_lines queue mount.replay.queue.capacity
    rw [← hEntries] at hPending
    show (mount.replay.queue.pendingEntries.map queueEntryPendingOverlay, mount, _) = _
    rw [hPending, hEntries]
    rfl
  have hPending : QueuedOverlay.jsonlEntries
      ((queue.map LineEntry.entry).map queueEntryPendingOverlay) path =
        (queue.filter fun e => decide (e.stream = stream ∧ e.subject = subject)).map
          queuedJsonl := by
    rw [jsonlEntries_lines]
    congr 1
    refine List.filter_congr ?_
    intro e _
    rw [Bool.eq_iff_iff, List.any_beq', List.contains_iff_mem, publishJsonlVisibleMountPaths,
      mem_visible_iff h, decide_eq_true_iff]
    exact and_iff_left hNamed
  have hSome : ((queue.filter fun e => decide (e.stream = stream ∧ e.subject = subject)).map
      queuedJsonl).isEmpty = false := by
    obtain ⟨e, hMem, hTarget⟩ := hQueued
    rw [List.isEmpty_eq_false_iff_exists_mem]
    exact ⟨queuedJsonl e,
      List.mem_map.mpr ⟨e, List.mem_filter.mpr ⟨hMem, by simpa using hTarget⟩, rfl⟩⟩
  have hBase : exec logWorld (queuedJsonlBase path parsed) mount ⟨log, file⟩ =
      (.ok (snapshotOf (log.ofSubject stream subject)), mount, ⟨log, file⟩) := by
    have hNone : mount.cache.get path.asStr = none := by
      rw [hCache]
      rfl
    rw [queuedJsonlBase, exec_bind, exec_get]
    simp only [hNone, h.target]
    rw [exec_bind, exec_attempt, exec_readStreamSubjectSnapshotAllowMissing hOrdered]
    rfl
  rw [queuedJsonlSnapshot, exec_bind, exec_liftM, hFacts]
  simp only [hPending, hSome, Bool.false_eq_true, if_false]
  rw [exec_bind, hBase]
  simp only
  rw [exec_bind, exec_foldlM (g := fun bytes q => bytes ++ missingBytes log q),
    foldl_missingBytes hReady]
  · rfl
  · intro bytes q hq
    obtain ⟨e, hMem, rfl⟩ := List.mem_map.mp hq
    obtain ⟨count, hCount⟩ := hReady.ready e (List.mem_of_mem_filter hMem)
    rw [exec_bind, exec_liftM, run_durableJsonlAppliedPrefix hCount]
    simp only
    rw [exec_bind, exec_liftErrno, unappliedJsonlBytes_of_ready hCount,
      missingBytes_of_ready hCount]
    rfl

end Pending

/-! ## Reading without lines pending -/

section Stored

variable [Serde] {path : MountPath} {parsed : JetStreamPath} {stream subject : Str}
  {mount : Mount} {w : World LineLog}

omit [Serde] in
theorem mem_streams_of_subject (h : w.store.ofSubject stream subject ≠ []) :
    stream ∈ w.store.streams := by
  by_contra hMissing
  apply h
  rw [LineLog.ofSubject, LineLog.messages, Std.ExtTreeMap.getD_eq_fallback hMissing]
  rfl

theorem exec_requireStream (h : stream ∈ w.store.streams) :
    exec logWorld (requireStream stream) mount w = (.ok (), mount, w) := by
  have hRequest : exec logWorld (requestIo .listStreams) mount w =
      (.ok w.store.streams.keys, mount, w) := rfl
  have hAny : (w.store.streams.keys.any fun candidate => candidate == stream) = true := by
    rw [List.any_beq', List.contains_iff_mem, Std.ExtTreeMap.mem_keys]
    exact h
  rw [requireStream, exec_bind, hRequest]
  simp only [hAny, if_true]
  rfl

theorem exec_requireStream_missing (h : stream ∉ w.store.streams) :
    exec logWorld (requireStream stream) mount w = (.error .notFound, mount, w) := by
  have hRequest : exec logWorld (requestIo .listStreams) mount w =
      (.ok w.store.streams.keys, mount, w) := rfl
  have hAny : (w.store.streams.keys.any fun candidate => candidate == stream) = false := by
    rw [Bool.eq_false_iff, ne_eq, List.any_beq', List.contains_iff_mem, Std.ExtTreeMap.mem_keys]
    exact h
  rw [requireStream, exec_bind, hRequest]
  simp only [hAny, Bool.false_eq_true, if_false]
  rfl

theorem exec_streamSubjectExists (h : stream ∈ w.store.streams) :
    exec logWorld (streamSubjectExists stream subject) mount w =
      (.ok (!(w.store.ofSubject stream subject).isEmpty), mount, w) := by
  have hRequest : exec logWorld (requestIo (.listStreamSubjects stream)) mount w =
      ((w.store.listStreamSubjects stream).mapError ioError, mount, w) := by
    rw [exec_requestIo]
    rfl
  have hMessages : w.store.streams[stream]? = some (w.store.messages stream) := by
    rw [LineLog.messages, Std.ExtTreeMap.getD_eq_getD_getElem?,
      Std.ExtTreeMap.getElem?_eq_some_getElem h]
    rfl
  rw [streamSubjectExists, exec_bind, hRequest, LineLog.listStreamSubjects, hMessages]
  refine congrArg (fun found => (Except.ok found, mount, w)) ?_
  rw [LineLog.ofSubject, ← contains_map_eq]
  exact any_subjectFile _ _

variable [Rendering]

theorem exec_readMaterializedStream (hOrdered : LineLog.Ordered (w.store.messages stream)) :
    (exec logWorld (readAction path parsed (.materializedGet (.stream stream subject))) mount w).1 =
      .ok (snapshotOf (w.store.ofSubject stream subject)) := by
  simp only [readAction, readMaterialized]
  rw [exec_bind, exec_readStreamSubjectSnapshotAllowMissing hOrdered]
  rfl

/-- A subject with lines in its stream reads as these. -/
theorem exec_readSnapshot_lines (hPath : ShowsSubject path parsed stream subject)
    (h : NothingPending mount path) (hLines : w.store.ofSubject stream subject ≠ [])
    (hOrdered : LineLog.Ordered (w.store.messages stream)) :
    (exec logWorld (readSnapshot path parsed) mount w).1 =
      .ok (snapshotOf (w.store.ofSubject stream subject)) := by
  have hStream := mem_streams_of_subject hLines
  have hTarget := hPath.target
  have hParses := parse_cases hPath.parse
  rw [exec_readSnapshot_stored h]
  generalize path.components = parts at hParses
  cases hParses with
  | @streamSubject stream' file subject' hToken hFile =>
      obtain ⟨rfl, rfl⟩ : stream' = stream ∧ subject'.asStr = subject := by
        simpa [jsonlTargetForPath] using hTarget
      have hExists : (!(w.store.ofSubject stream' subject'.asStr).isEmpty) = true := by
        simpa using hLines
      have hRead : exec logWorld (do
          readAction path (.streamSubject stream' subject')
            (← liftErrno (planOrErrno .read (.streamSubject stream' subject')))) mount w =
          (.ok (snapshotOf (w.store.ofSubject stream' subject'.asStr)), mount, w) := by
        rw [exec_bind, exec_liftErrno]
        exact exec_readStreamSubjectSnapshot hStream hOrdered
      simp only
      rw [exec_bind, exec_requireStream hStream]
      simp only
      rw [exec_bind, exec_streamSubjectExists hStream, hExists]
      exact congrArg Prod.fst hRead
  | @eventLog log hToken =>
      obtain ⟨rfl, rfl⟩ : log = stream ∧ "events.".toList ++ log = subject := by
        simpa [jsonlTargetForPath, MaterializedTarget.fromPath] using hTarget
      have hPlan : planOrErrno .read (.eventLog log) =
          .ok (.materializedGet (.stream log ("events.".toList ++ log))) := rfl
      simp only
      rw [exec_bind, exec_liftErrno, hPlan]
      exact exec_readMaterializedStream hOrdered
  | @agentMailbox agent area hName hReserved hArea =>
      obtain ⟨rfl, rfl⟩ : agentsStream = stream ∧
          "agents.".toList ++ agent ++ '.' :: area.asStr = subject := by
        simpa [jsonlTargetForPath, MaterializedTarget.fromPath, agentSubject, hArea] using hTarget
      have hPlan : planOrErrno .read (.agentMailbox agent area) =
          .ok (.materializedGet (.stream agentsStream
            ("agents.".toList ++ agent ++ '.' :: area.asStr))) := by
        simp only [planOrErrno, planOperation, planRead, MaterializedTarget.fromPath, agentSubject,
          hArea, if_true, Option.map_some]
      simp only
      rw [exec_bind, exec_liftErrno, hPlan]
      exact exec_readMaterializedStream hOrdered
  | _ => simp [jsonlTargetForPath, MaterializedTarget.fromPath] at hTarget

/-- A subject without lines has no file under `/streams`. -/
theorem exec_readSnapshot_missing (h : NothingPending mount path)
    (hLines : w.store.ofSubject stream subject = []) :
    (exec logWorld (readSnapshot path (.streamSubject stream ⟨subject⟩)) mount w).1 =
      .error .notFound := by
  rw [exec_readSnapshot_stored h]
  simp only
  by_cases hStream : stream ∈ w.store.streams
  · rw [exec_bind, exec_requireStream hStream]
    simp only
    rw [exec_bind, exec_streamSubjectExists hStream, hLines]
    rfl
  · rw [exec_bind, exec_requireStream_missing hStream]

end Stored

/-! ## Before and after replay -/

section Replayed

variable [Serde] {log : LineLog} {queue : List LineEntry} {published : Nat} {mount : Mount}
  {file : List QueueEntry}

/-- The mount and the world after the queue has been replayed. -/
def afterReplay (mount : Mount) (w : World LineLog) : Mount × World LineLog :=
  (run logWorld replayQueue mount w).2

theorem eval_replay (hReady : LinesReady log queue published) {replay : WritebackReplay}
    (hEntries : replay.queue.entries = queue.map LineEntry.entry) :
    ∃ final file', Drained log final queue published ∧
      (eval logWorld replay.replay ⟨log, file⟩).2 = ⟨final, file'⟩ ∧
      (eval logWorld replay.replay ⟨log, file⟩).1.1.queue.entries = [] := by
  obtain ⟨final, file', hEval, hDrained⟩ := eval_replayLines queue log file published hReady
  refine ⟨final, file', hDrained, ?_⟩
  rw [← hEntries] at hEval
  rw [WritebackReplay.replay, WritebackQueue.replayWithStore, WritebackQueue.replay, eval_bind,
    eval_bind, hEval]
  exact ⟨rfl, rfl⟩

theorem afterReplay_eq (mount : Mount) (w : World LineLog) :
    afterReplay mount w =
      (({ mount with replay := (eval logWorld mount.replay.replay w).1.1 } :
        Mount).applyInvalidationPlan .gap, (eval logWorld mount.replay.replay w).2) := by
  rw [afterReplay, replayQueue, run_bind, run_get, run_bind, run_stateLift, run_bind]
  rfl

theorem nothingPending_afterReplay (hReady : LinesReady log queue published)
    (hEntries : mount.replay.queue.entries = queue.map LineEntry.entry) (path : MountPath) :
    NothingPending (afterReplay mount ⟨log, file⟩).1 path := by
  obtain ⟨final, file', -, -, hEmpty⟩ := @eval_replay _ log queue published file hReady _ hEntries
  have hOverlays : (afterReplay mount ⟨log, file⟩).1.replay.pendingOverlays = [] := by
    rw [afterReplay_eq]
    show ((eval logWorld mount.replay.replay ⟨log, file⟩).1.1.queue.entries.filter _).map _ = []
    rw [hEmpty]
    rfl
  refine ⟨?_, ?_, ?_, ?_⟩
  · rw [hOverlays]
    rfl
  · rw [hOverlays]
    rfl
  · rw [hOverlays]
    rfl
  · rw [afterReplay_eq]
    apply LocalCache.get_of_entries
    exact LocalCache.applyInvalidation_of_mem ⟨_, List.mem_singleton.mpr rfl, Or.inl rfl⟩

omit [Serde] in
theorem snapshotOf_payloads {lines : List Str} : ∀ {added : List LoggedLine},
    added.map (·.payload) = lines.map Text.asBytes →
      snapshotOf added = (lines.map canonicalLine).flatten := by
  induction lines with
  | nil =>
      intro added h
      rw [List.map_nil, List.map_eq_nil_iff] at h
      rw [h]
      rfl
  | cons line rest ih =>
      intro added h
      cases added with
      | nil => cases h
      | cons first more =>
          obtain ⟨hPayload, hRest⟩ := List.cons.inj h
          have hFirst : first.payload = Text.asBytes line := hPayload
          rw [snapshotOf, List.foldl_cons, foldl_appendJsonLine, ih hRest, hFirst]
          rfl

omit [Serde] in
theorem flatten_canonicalLine {lines : List Str} (h : (lines.map canonicalLine).flatten = []) :
    lines = [] := by
  cases lines with
  | nil => rfl
  | cons line rest =>
      rw [List.map_cons, List.flatten_cons, List.append_eq_nil_iff, canonicalLine] at h
      have hLast := appendJsonLine_getLast? [] (Text.asBytes line)
      rw [h.1] at hLast
      cases hLast

theorem snapshotOf_drained {final : LineLog} (h : Drained log final queue published)
    (stream subject : Str) :
    snapshotOf (final.ofSubject stream subject) =
      snapshotOf (log.ofSubject stream subject) ++
        ((leftLines stream subject queue published).map canonicalLine).flatten := by
  obtain ⟨added, hAdded, -, -, hLines⟩ := h stream
  rw [LineLog.ofSubject, hAdded, List.filter_append, snapshotOf_append,
    snapshotOf_payloads (hLines subject)]
  rfl

/-- A subject of the queue that has no lines gets some. -/
theorem leftLines_ne_nil {stream subject : Str} (hNone : log.ofSubject stream subject = []) :
    ∀ {published : Nat}, LinesReady log queue published →
      (∃ e ∈ queue, e.stream = stream ∧ e.subject = subject) →
        leftLines stream subject queue published ≠ [] := by
  induction queue with
  | nil => simp
  | cons first rest ih =>
      rintro published hReady ⟨e, hMem, hTarget⟩ hLeft
      rw [leftLines, List.append_eq_nil_iff] at hLeft
      rcases List.mem_cons.mp hMem with rfl | hMem
      · have hHead := hReady.head e rfl
        have hLength := List.length_pos_iff.mpr hHead.nonblank
        have hStored := hHead.stored 0 hLength
        rw [hTarget.1, hTarget.2, LineLog.lineApplied, hNone] at hStored
        have hZero : ¬ 0 < published := by simpa using hStored.symm
        rw [if_pos hTarget, List.drop_eq_nil_iff] at hLeft
        omega
      · exact ih hReady.next ⟨e, hMem, hTarget⟩ hLeft.2

theorem ofSubject_drained {final : LineLog} (h : Drained log final queue published)
    (hReady : LinesReady log queue published) {stream subject : Str}
    (hQueued : ∃ e ∈ queue, e.stream = stream ∧ e.subject = subject) :
    final.ofSubject stream subject ≠ [] := by
  obtain ⟨added, hAdded, -, -, hLines⟩ := h stream
  intro hEmpty
  rw [LineLog.ofSubject, hAdded, List.filter_append, List.append_eq_nil_iff] at hEmpty
  have hLeft := leftLines_ne_nil hEmpty.1 hReady hQueued
  have hPayloads := hLines subject
  rw [hEmpty.2] at hPayloads
  exact hLeft (List.map_eq_nil_iff.mp hPayloads.symm)

variable [Rendering] {path : MountPath} {parsed : JetStreamPath} {stream subject : Str}

/-- What a path reads as. -/
def reading (path : MountPath) (mount : Mount) (w : World LineLog) : Except Errno Bytes :=
  (exec logWorld (readBytes path) mount w).1

theorem reading_eq (hParse : JetStreamPath.parse path.asStr = .ok parsed) (w : World LineLog) :
    reading path mount w = (exec logWorld (readSnapshot path parsed) mount w).1 := by
  have hWatch : exec logWorld (liftM applyPendingWatchEvents : Runtime Unit) mount w =
      (.ok (), mount, w) := by
    rw [exec_liftM, applyPendingWatchEvents, run_bind, run_request_log]
    rfl
  have hPath : parsePath path = .ok parsed := by
    rw [parsePath, hParse]
  rw [reading, readBytes, exec_bind, hWatch]
  simp only
  rw [exec_bind, exec_liftErrno, hPath]

/-- Once the queue has been replayed, a subject of it reads as what the stream held and the
lines that were left. -/
theorem reading_afterReplay (hReady : LinesReady log queue published)
    (hEntries : mount.replay.queue.entries = queue.map LineEntry.entry)
    (hValid : log.Valid)
    (hRoom : ∀ stream, LineLog.nextSequence (log.messages stream) + lineCount queue ≤ 2 ^ 64)
    (hQueued : ∃ e ∈ queue, e.stream = stream ∧ e.subject = subject)
    (hPath : ShowsSubject path parsed stream subject) :
    reading path (afterReplay mount ⟨log, file⟩).1 (afterReplay mount ⟨log, file⟩).2 =
      .ok (snapshotOf (log.ofSubject stream subject) ++
        ((leftLines stream subject queue published).map canonicalLine).flatten) := by
  obtain ⟨final, file', hDrained, hWorld, -⟩ :=
    @eval_replay _ log queue published file hReady _ hEntries
  have hAfter : (afterReplay mount ⟨log, file⟩).2 = ⟨final, file'⟩ := by
    rw [afterReplay_eq, ← hWorld]
  have hNothing := @nothingPending_afterReplay _ log queue published mount file hReady hEntries path
  rw [hAfter, reading_eq hPath.parse, exec_readSnapshot_lines hPath hNothing
    (ofSubject_drained hDrained hReady hQueued) (hDrained.valid hValid hRoom stream)]
  exact congrArg Except.ok (snapshotOf_drained hDrained stream subject)

omit [Serde] [Rendering] in
theorem pendingOverlays_eq (hEntries : mount.replay.queue.entries = queue.map LineEntry.entry) :
    mount.replay.pendingOverlays =
      (queue.map LineEntry.entry).map queueEntryPendingOverlay := by
  have hPending := pendingEntries_lines queue mount.replay.queue.capacity
  show mount.replay.queue.pendingEntries.map queueEntryPendingOverlay = _
  rw [← hEntries] at hPending ⊢
  rw [show mount.replay.queue.pendingEntries = mount.replay.queue.entries from hPending]

/-- With the queue pending it reads as the same. -/
theorem reading_named (hReady : LinesReady log queue published)
    (hEntries : mount.replay.queue.entries = queue.map LineEntry.entry)
    (hCache : mount.cache = LocalCache.new) (hOrdered : LineLog.Ordered (log.messages stream))
    (hQueued : ∃ e ∈ queue, e.stream = stream ∧ e.subject = subject)
    (hPath : ShowsSubject path parsed stream subject) (hNamed : ¬ HiddenMailbox stream subject) :
    reading path mount ⟨log, file⟩ =
      .ok (snapshotOf (log.ofSubject stream subject) ++
        ((leftLines stream subject queue published).map canonicalLine).flatten) := by
  have hFacts : run logWorld pendingFacts mount ⟨log, file⟩ =
      ((queue.map LineEntry.entry).map queueEntryPendingOverlay, mount, ⟨log, file⟩) := by
    rw [← pendingOverlays_eq hEntries]
    rfl
  obtain ⟨hDelete, hValue⟩ := overlay_lines queue path
  rw [reading_eq hPath.parse, readSnapshot, exec_bind, exec_liftM, hFacts]
  simp only [hDelete, hValue, Bool.false_eq_true, if_false]
  rw [exec_bind, exec_queuedJsonlSnapshot hPath hNamed hReady hQueued hEntries hCache hOrdered]
  rfl

/-- A mailbox that cannot be named reads as the stream holds it. -/
theorem reading_hidden (hEntries : mount.replay.queue.entries = queue.map LineEntry.entry)
    (hCache : mount.cache = LocalCache.new) (hOrdered : LineLog.Ordered (log.messages stream))
    (hPath : ShowsSubject path parsed stream subject) (hHidden : HiddenMailbox stream subject) :
    reading path mount ⟨log, file⟩ =
      if log.ofSubject stream subject = [] then .error .notFound
      else .ok (snapshotOf (log.ofSubject stream subject)) := by
  obtain ⟨hDelete, hValue⟩ := overlay_lines queue path
  have hLines : QueuedOverlay.jsonlEntries
      ((queue.map LineEntry.entry).map queueEntryPendingOverlay) path = [] := by
    rw [jsonlEntries_lines, List.map_eq_nil_iff, List.filter_eq_nil_iff]
    intro e _ hVisible
    rw [List.any_beq', List.contains_iff_mem, publishJsonlVisibleMountPaths,
      mem_visible_iff hPath] at hVisible
    exact hVisible.2 hHidden
  have hNothing : NothingPending mount path := by
    refine ⟨?_, ?_, ?_, ?_⟩
    · rw [pendingOverlays_eq hEntries, hDelete]
    · rw [pendingOverlays_eq hEntries, hValue]
    · rw [pendingOverlays_eq hEntries, hLines]
    · rw [hCache]
      rfl
  rw [reading_eq hPath.parse]
  split_ifs with hEmpty
  · rw [parsed_of_hidden hPath hHidden]
    exact exec_readSnapshot_missing hNothing hEmpty
  · exact exec_readSnapshot_lines hPath hNothing hEmpty hOrdered

/-- A subject of the queue reads the same before and after replay, at its path under
`/streams` and at its alias, exactly if the mount can name its paths or nothing is left to
be added to it. -/
theorem pending_lines_read_iff (hReady : LinesReady log queue published)
    (hEntries : mount.replay.queue.entries = queue.map LineEntry.entry)
    (hCache : mount.cache = LocalCache.new)
    (hValid : log.Valid)
    (hRoom : ∀ stream, LineLog.nextSequence (log.messages stream) + lineCount queue ≤ 2 ^ 64)
    (hQueued : ∃ e ∈ queue, e.stream = stream ∧ e.subject = subject)
    (hPath : ShowsSubject path parsed stream subject) :
    (reading path mount ⟨log, file⟩ =
        reading path (afterReplay mount ⟨log, file⟩).1 (afterReplay mount ⟨log, file⟩).2 ∧
      ∀ other otherParsed, ShowsSubject other otherParsed stream subject →
        reading other mount ⟨log, file⟩ = reading path mount ⟨log, file⟩) ↔
    (HiddenMailbox stream subject → leftLines stream subject queue published = []) := by
  have hOrdered := hValid stream
  rw [reading_afterReplay hReady hEntries hValid hRoom hQueued hPath]
  by_cases hHidden : HiddenMailbox stream subject
  · have hOther : ∀ other otherParsed, ShowsSubject other otherParsed stream subject →
        other = path := by
      intro other otherParsed hShows
      have hSame := parsed_of_hidden hShows hHidden
      have hCanonical := hShows.canonical
      rw [hSame, ← parsed_of_hidden hPath hHidden, hPath.canonical] at hCanonical
      exact (Except.ok.inj hCanonical).symm
    have hRead :=
      @reading_hidden _ log queue mount file _ path parsed stream subject hEntries hCache
      hOrdered hPath hHidden
    constructor
    · rintro ⟨hEq, -⟩ _
      rw [hRead] at hEq
      split_ifs at hEq with hEmpty
      have hSame := Except.ok.inj hEq
      rw [List.self_eq_append_right] at hSame
      exact flatten_canonicalLine hSame
    · intro hLeft
      have hSome : log.ofSubject stream subject ≠ [] :=
        fun hEmpty => leftLines_ne_nil hEmpty hReady hQueued (hLeft hHidden)
      refine ⟨?_, ?_⟩
      · rw [hRead, if_neg hSome, hLeft hHidden]
        simp
      · intro other otherParsed hShows
        rw [hOther other otherParsed hShows]
  · have hRead : ∀ other otherParsed, ShowsSubject other otherParsed stream subject → _ :=
      fun other otherParsed hShows =>
        @reading_named _ log queue published mount file _ other otherParsed stream subject hReady
          hEntries hCache hOrdered hQueued hShows hHidden
    rw [hRead path parsed hPath]
    refine ⟨fun _ h => absurd h hHidden, fun _ => ⟨rfl, hRead⟩⟩

end Replayed

/-! ## A mailbox with a name and one without -/

def oneLine (stream subject : Str) : LineEntry :=
  ⟨"key".toList, stream, subject, Text.asBytes "null\n".toList, 0, 0⟩

def oneLineMount (stream subject : Str) : Mount :=
  Mount.new ⟨8, [(oneLine stream subject).entry]⟩ [] 1

theorem oneLine_lines (stream subject : Str) :
    @LineEntry.lines literalSerde (oneLine stream subject) = ["null".toList] := by
  let _ := literalSerde
  have hLines : jsonLines subject (Text.asBytes "null\n".toList) = .ok ["null".toList] :=
    jsonLines_asBytes _ _
  show (jsonLines subject (Text.asBytes "null\n".toList)).toOption.getD [] = _
  rw [hLines]
  rfl

theorem oneLine_ready (stream subject : Str) :
    @LinesReady literalSerde LineLog.new [oneLine stream subject] 0 := by
  let _ := literalSerde
  have hLines : jsonLines subject (Text.asBytes "null\n".toList) = .ok ["null".toList] :=
    jsonLines_asBytes _ _
  refine ⟨by simp, ?_, by simp⟩
  rintro e ⟨⟩
  refine ⟨?_, ?_, ?_, Nat.zero_le _, Nat.le_refl 0⟩
  · show validateJsonLines subject (Text.asBytes "null\n".toList) = _
    rw [validateJsonLines, hLines]
    rfl
  · rw [oneLine_lines]
    simp
  · intro i _
    simp [LineLog.lineApplied, LineLog.ofSubject, LineLog.messages, LineLog.new]

theorem oneLine_room (stream subject : Str) : ∀ other,
    LineLog.nextSequence (LineLog.new.messages other) +
      @lineCount literalSerde [oneLine stream subject] ≤ 2 ^ 64 := by
  intro other
  have hEmpty : LineLog.new.messages other = [] := by simp [LineLog.messages, LineLog.new]
  have hCount : @lineCount literalSerde [oneLine stream subject] = 1 := by
    simp [lineCount, oneLine_lines]
  rw [hEmpty, hCount]
  decide

theorem new_valid : LineLog.new.Valid := by
  intro stream
  have hEmpty : LineLog.new.messages stream = [] := by simp [LineLog.messages, LineLog.new]
  rw [hEmpty]
  exact ⟨List.Pairwise.nil, by simp⟩

def inboxPath : MountPath :=
  ⟨"/agents/bob/inbox".toList, ["agents".toList, "bob".toList, "inbox".toList],
    by decide, by decide⟩

def inboxSubject : Str := "agents.bob.inbox".toList

theorem pending_inbox_read :
    @reading literalSerde plainRendering inboxPath (oneLineMount agentsStream inboxSubject)
        ⟨.new, []⟩ =
      @reading literalSerde plainRendering inboxPath
        (@afterReplay literalSerde (oneLineMount agentsStream inboxSubject) ⟨.new, []⟩).1
        (@afterReplay literalSerde (oneLineMount agentsStream inboxSubject) ⟨.new, []⟩).2 := by
  let _ := literalSerde
  let _ := plainRendering
  have hPath : ShowsSubject inboxPath (.agentMailbox "bob".toList .inbox) agentsStream
      inboxSubject := ⟨by decide, by decide, by decide⟩
  have hNamed : ¬ HiddenMailbox agentsStream inboxSubject := by
    rintro ⟨-, agent, area, hParts, hSlash⟩
    have hBob : agentMailboxSubjectParts inboxSubject = some ("bob".toList, .inbox) := by decide
    rw [hBob] at hParts
    cases hParts
    revert hSlash
    decide
  refine ((pending_lines_read_iff (oneLine_ready _ _) rfl rfl new_valid (oneLine_room _ _)
    ⟨oneLine agentsStream inboxSubject, List.mem_singleton.mpr rfl, rfl, rfl⟩ hPath).mpr ?_).1
  exact fun hHidden => absurd hHidden hNamed

/-- The subject of a mailbox whose agent is not one component of a path. -/
def slashedSubject : Str := "agents.a/b.inbox".toList

def slashedFile : Str := "__eventfs_subject_hex_6167656e74732e612f622e696e626f78.jsonl".toList

theorem slashed_components : MountPath.Valid
    ["streams".toList, agentsStream, "subjects".toList, slashedFile] := by decide +kernel

def slashedPath : MountPath := MountPath.ofValid slashed_components

theorem slashed_shows :
    ShowsSubject slashedPath (.streamSubject agentsStream ⟨slashedSubject⟩) agentsStream
      slashedSubject := by
  have hComponents : slashedPath.components =
      ["streams".toList, agentsStream, "subjects".toList, slashedFile] :=
    MountPath.components_ofValid slashed_components
  refine ⟨?_, ?_, rfl⟩
  · have hDecode : hexDecode "6167656e74732e612f622e696e626f78".toList =
        .ok (Text.asBytes slashedSubject) := by decide +kernel
    have hName : parseStreamSubjectFileName slashedFile = .ok slashedSubject := by
      have hStem : Text.stripSuffix jsonlSuffix slashedFile =
          some (encodedSubjectPrefix ++ "6167656e74732e612f622e696e626f78".toList) := by
        decide +kernel
      rw [parseStreamSubjectFileName, hStem]
      simp only [Text.stripPrefix_append]
      refine except_bind_eq_ok.mpr ⟨_, hDecode, ?_⟩
      rw [Text.fromUtf8_eq_some.mpr rfl]
    have hFile : StreamSubject.parseFileName slashedFile = .ok ⟨slashedSubject⟩ := by
      rw [StreamSubject.parseFileName, hName]
      decide +kernel
    rw [parse_asStr, hComponents]
    show (do
      validateStream agentsStream
      return JetStreamPath.streamSubject agentsStream
        (← StreamSubject.parseFileName slashedFile)) = _
    rw [hFile]
    decide +kernel
  · have hFile : streamSubjectFileNameFromStr slashedSubject = slashedFile := by decide +kernel
    rw [mountPathFromJetstreamPath,
      joinStoragePath_single (slash_notMem_fileName _) (fileName_ne_nil _), hFile, hComponents]
    rfl

/-- The line is in the queue and will be read at the path, but it is not read there yet. -/
theorem slashed_mailbox_not_read :
    let _ := literalSerde
    let _ := plainRendering
    let mount := oneLineMount agentsStream slashedSubject
    ShowsSubject slashedPath (.streamSubject agentsStream ⟨slashedSubject⟩) agentsStream
        slashedSubject ∧
      LinesReady .new [oneLine agentsStream slashedSubject] 0 ∧
      reading slashedPath mount ⟨.new, []⟩ = .error .notFound ∧
      reading slashedPath (afterReplay mount ⟨.new, []⟩).1 (afterReplay mount ⟨.new, []⟩).2 =
        .ok (Text.asBytes "null\n".toList) := by
  let _ := literalSerde
  let _ := plainRendering
  have hHidden : HiddenMailbox agentsStream slashedSubject :=
    ⟨rfl, "a/b".toList, .inbox, by decide, by decide⟩
  have hEmpty : LineLog.new.ofSubject agentsStream slashedSubject = [] := by
    simp [LineLog.ofSubject, LineLog.messages, LineLog.new]
  have hQueued : ∃ e ∈ [oneLine agentsStream slashedSubject],
      e.stream = agentsStream ∧ e.subject = slashedSubject :=
    ⟨_, List.mem_singleton.mpr rfl, rfl, rfl⟩
  have hEntries : (oneLineMount agentsStream slashedSubject).replay.queue.entries =
      [oneLine agentsStream slashedSubject].map LineEntry.entry := rfl
  have hLeft : leftLines agentsStream slashedSubject [oneLine agentsStream slashedSubject] 0 =
      ["null".toList] := by
    rw [leftLines, if_pos ⟨rfl, rfl⟩, oneLine_lines]
    rfl
  refine ⟨slashed_shows, oneLine_ready _ _, ?_, ?_⟩
  · rw [reading_hidden hEntries rfl (new_valid _) slashed_shows hHidden, if_pos hEmpty]
  · rw [reading_afterReplay (oneLine_ready _ _) hEntries new_valid (oneLine_room _ _) hQueued
      slashed_shows, hEmpty, hLeft]
    decide +kernel

end EventFs.Fuse
