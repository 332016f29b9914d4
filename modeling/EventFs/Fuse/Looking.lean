import EventFs.Fuse.Runtime

/-!
# Code that only looks

Most of the code of a mount reads the storage and fills the read cache. `Keeps` states
which calls a piece of code may issue and how the mount after it is related to the mount
before it, whatever the replies are.
-/

namespace EventFs.Fuse

open Library Protocol Transport

/-- The calls that look at the storage for a reader. The tests that replay uses to see
whether an entry has been applied are not among them: a backend may record what they find. -/
def StorageCall.observes : StorageCall → Bool
  | .kvPutApplied .. | .kvDeleteIfRevisionApplied .. | .publishJsonLinesApplied ..
  | .objectPutApplied .. | .objectDeleteIfSequenceApplied .. => false
  | call => call.reads

/-- The same calls, issued through the queue's interface. -/
def Observing : IoCall → Prop
  | .store call => StorageCall.observes call = true
  | _ => False

/-- Everything but the cached contents and the marks of stale paths is the same. -/
def OnlyCaches (mount mount' : Mount) : Prop :=
  mount' = { mount with stalePaths := mount'.stalePaths, cache := mount'.cache }

instance : Std.Refl OnlyCaches := ⟨fun _ => rfl⟩

instance : IsTrans Mount OnlyCaches where
  trans := by
    intro first second third hFirst hSecond
    rw [OnlyCaches] at hFirst hSecond ⊢
    rw [hSecond, hFirst]

/-- The queue in memory and the gate are the same. -/
def SameReplay (mount mount' : Mount) : Prop := mount'.replay = mount.replay

instance : Std.Refl SameReplay := ⟨fun _ => rfl⟩

instance : IsTrans Mount SameReplay := ⟨fun _ _ _ hFirst hSecond => hSecond.trans hFirst⟩

/-- Caching does not touch the queue. -/
theorem OnlyCaches.sameReplay {mount mount' : Mount} (h : OnlyCaches mount mount') :
    SameReplay mount mount' := by
  rw [SameReplay, h]

variable {α β : Type}

/-- However the calls are answered, the code issues only these calls and leaves a related
mount. -/
def Keeps (A : Program.Access io) (R : Mount → Mount → Prop) (p : RuntimeM α) : Prop :=
  ∀ mount, Program.Under A (fun result => R mount result.2) (p.run mount)

namespace Keeps

variable {A : Program.Access io} {R : Mount → Mount → Prop}

/-- A change of the mount by a function. -/
theorem modify {f : Mount → Mount} (h : ∀ mount, R mount (f mount)) :
    Keeps A R (modify f : RuntimeM Unit) := h

section Refl

variable [Std.Refl R]

theorem pure (a : α) : Keeps A R (Pure.pure a : RuntimeM α) := fun mount => refl_of R mount

theorem get : Keeps A R (get : RuntimeM Mount) := fun mount => refl_of R mount

theorem request {call : StorageCall} (h : A.issue (.store call)) : Keeps A R (request call) :=
  fun mount => ⟨h, fun _ _ => refl_of R mount⟩

theorem throw (errno : Errno) : Keeps A R (MonadExcept.throw errno : Runtime α).run :=
  fun mount => refl_of R mount

theorem liftErrno (result : Except Errno α) : Keeps A R (liftErrno result).run := by
  cases result with
  | ok a => exact .pure (Except.ok a)
  | error errno => exact .throw errno

/-- A pure step that may fail; what follows it may use what the step gave. -/
theorem afterErrno {result : Except Errno α} {f : α → Runtime β}
    (h : ∀ a, result = .ok a → Keeps A R (f a).run) :
    Keeps A R (Fuse.liftErrno result >>= f).run := by
  cases result with
  | ok a => exact h a rfl
  | error errno => exact .throw errno

end Refl

variable [IsTrans Mount R]

/-- One piece of code after another keeps what both keep. -/
theorem bind {p : RuntimeM α} {f : α → RuntimeM β} (hFirst : Keeps A R p)
    (hSecond : ∀ a, Keeps A R (f a)) : Keeps A R (p >>= f) := by
  intro mount
  rw [StateT.run_bind]
  refine (hFirst mount).bind ?_
  intro result hResult
  exact (hSecond result.1 result.2).weaken fun _ h => trans_of R hResult h

variable [Std.Refl R]

/-- The body of a loop keeps a relation, so the loop does. -/
theorem foldlM {f : β → α → RuntimeM β} (h : ∀ b a, Keeps A R (f b a)) (xs : List α)
    (init : β) : Keeps A R (xs.foldlM f init) := by
  induction xs generalizing init with
  | nil => exact .pure init
  | cons a rest ih =>
      rw [List.foldlM_cons]
      exact .bind (h init a) fun b => ih b

/-! ## Code that may fail -/

/-- The same where the first piece may fail. -/
theorem andThen {p : Runtime α} {f : α → Runtime β} (hFirst : Keeps A R p.run)
    (hSecond : ∀ a, Keeps A R (f a).run) : Keeps A R (p >>= f).run := by
  rw [ExceptT.run_bind]
  refine .bind hFirst ?_
  intro result
  cases result with
  | ok a => exact hSecond a
  | error errno => exact .pure (Except.error errno)

theorem lift {p : RuntimeM α} (h : Keeps A R p) :
    Keeps A R (ExceptT.lift p : Runtime α).run := by
  rw [ExceptT.run_lift, map_eq_pure_bind]
  exact .bind h fun _ => .pure _

theorem liftM {p : RuntimeM α} (h : Keeps A R p) :
    Keeps A R (liftM p : Runtime α).run := lift h

/-- Looking at the outcome of a step changes nothing. -/
theorem attempt {p : Runtime α} (h : Keeps A R p.run) : Keeps A R (attempt p).run := lift h

theorem requestIo {call : StorageCall} (h : A.issue (.store call)) :
    Keeps A R (requestIo call).run := by
  refine .andThen (.liftM (.request h)) ?_
  intro reply
  cases reply with
  | ok value => exact .pure (Except.ok value)
  | error err => exact .throw _

theorem foldlE {f : β → α → Runtime β} (h : ∀ b a, Keeps A R (f b a).run) (xs : List α)
    (init : β) : Keeps A R (xs.foldlM f init).run := by
  induction xs generalizing init with
  | nil => exact .pure (Except.ok init)
  | cons a rest ih =>
      rw [List.foldlM_cons]
      exact .andThen (h init a) fun b => ih b

omit [IsTrans Mount R] [Std.Refl R] in
theorem whenM {α : Type} {c : Prop} [Decidable c] {p q : RuntimeM α} (hThen : Keeps A R p)
    (hElse : Keeps A R q) : Keeps A R (if c then p else q) := by
  split
  · exact hThen
  · exact hElse

omit [IsTrans Mount R] [Std.Refl R] in
/-- Either branch. -/
theorem whenE {α : Type} {c : Prop} [Decidable c] {p q : Runtime α} (hThen : Keeps A R p.run)
    (hElse : Keeps A R q.run) : Keeps A R (if c then p else q).run := by
  split
  · exact hThen
  · exact hElse

end Keeps

/-! ## What the storage holds -/

/-- The observing calls may be issued. -/
def Observes (A : Program.Access io) : Prop :=
  ∀ ⦃call : StorageCall⦄, StorageCall.observes call = true → A.issue (.store call)

namespace Observes

variable {A : Program.Access io} {R : Mount → Mount → Prop} [Std.Refl R] [IsTrans Mount R]
  (look : Observes A)

include look

theorem requestIo {call : StorageCall} (hCall : StorageCall.observes call = true) :
    Keeps A R (Fuse.requestIo call).run := .requestIo (look hCall)

theorem classifyKvDynamicPath (bucket key : Str) :
    Keeps A R (classifyKvDynamicPath bucket key).run := by
  refine .andThen (look.requestIo rfl) ?_
  intro entry
  refine .whenE (.pure _) ?_
  refine .andThen (look.requestIo rfl) ?_
  intro entries
  exact .whenE (.pure _) (.pure _)

theorem objectMetadata (bucket object : Str) : Keeps A R (objectMetadata bucket object).run :=
  look.requestIo rfl

theorem classifyObjectDynamicPath (bucket object : Str) :
    Keeps A R (classifyObjectDynamicPath bucket object).run := by
  refine .andThen (look.objectMetadata bucket object) ?_
  intro metadata
  refine .whenE (.pure _) ?_
  refine .andThen (look.requestIo rfl) ?_
  intro entries
  exact .whenE (.pure _) (.pure _)

theorem kvPrefixProjectionKind (bucket key : Str) :
    Keeps A R (kvPrefixProjectionKind bucket key).run := by
  refine .andThen (look.classifyKvDynamicPath bucket key) ?_
  intro kind
  cases kind <;> exact .pure _

theorem requireKvBucket (bucket : Str) : Keeps A R (requireKvBucket bucket).run := by
  refine .andThen (look.requestIo rfl) ?_
  intro buckets
  exact .whenE (.pure _) (.throw _)

theorem requireStream (stream : Str) : Keeps A R (requireStream stream).run := by
  refine .andThen (look.requestIo rfl) ?_
  intro streams
  exact .whenE (.pure _) (.throw _)

theorem requireObjectBucket (bucket : Str) : Keeps A R (requireObjectBucket bucket).run := by
  refine .andThen (look.requestIo rfl) ?_
  intro buckets
  exact .whenE (.pure _) (.throw _)

theorem streamSubjectExists (stream subject : Str) :
    Keeps A R (streamSubjectExists stream subject).run :=
  .andThen (look.requestIo rfl) fun _ => .pure _

theorem listStreamMessages (stream : Str) (allowMissingEmpty : Bool) :
    Keeps A R (listStreamMessages stream allowMissingEmpty).run := by
  refine .andThen (.liftM (.request (look rfl))) ?_
  intro reply
  cases reply with
  | ok entries => exact .pure _
  | error err => exact .whenE (.pure _) (.throw _)

theorem collectStreamSubjectSnapshot (stream subject : Str) (entries : List DirectoryEntry) :
    Keeps A R (collectStreamSubjectSnapshot stream subject entries).run := by
  refine .foldlE ?_ _ _
  intro bytes sequence
  exact .andThen (look.requestIo rfl) fun _ => .pure _

theorem readStreamSubjectSnapshot (stream subject : Str) :
    Keeps A R (readStreamSubjectSnapshot stream subject).run :=
  .andThen (look.listStreamMessages stream false) fun entries =>
    look.collectStreamSubjectSnapshot stream subject entries

theorem readStreamSubjectSnapshotAllowMissing (stream subject : Str) :
    Keeps A R (readStreamSubjectSnapshotAllowMissing stream subject).run :=
  .andThen (look.listStreamMessages stream true) fun entries =>
    look.collectStreamSubjectSnapshot stream subject entries

theorem exactDynamicFileExists (parsed : JetStreamPath) :
    Keeps A R (exactDynamicFileExists parsed).run := by
  unfold Fuse.exactDynamicFileExists
  split
  · exact .andThen (look.requestIo rfl) fun _ => .pure _
  · exact .andThen (look.objectMetadata _ _) fun _ => .pure _
  · split
    · exact .andThen (look.requestIo rfl) fun _ => .pure _
    · exact .pure _
  · split
    · exact .andThen (look.requestIo rfl) fun _ => .pure _
    · exact .pure _
  · exact .pure _

theorem kvHistoryDirectoryEntries (bucket key : Str) :
    Keeps A R (kvHistoryDirectoryEntries bucket key).run := by
  refine .andThen (look.requestIo rfl) ?_
  intro revisions
  exact .andThen (look.requestIo rfl) fun _ => .pure _

theorem agentNames (fromKv : List Str) : Keeps A R (do
    let fromStream ← match ← Fuse.request .listAgentNames with
      | .ok names => Pure.pure names
      | .error .notFound => Pure.pure []
      | .error err => MonadExcept.throw (ioError err)
    return namesAsDirs (Std.ExtTreeSet.ofList (fromKv ++ fromStream)).toList :
      Runtime (List DirectoryEntry)).run := by
  refine .andThen (.liftM (.request (look rfl))) ?_
  intro fromStream
  dsimp only
  split
  · exact .pure _
  · exact .pure _
  · exact .throw _

theorem listAgentsRoot : Keeps A R listAgentsRoot.run := by
  refine .andThen (.liftM (.request (look rfl))) ?_
  intro fromKv
  dsimp only
  split
  · exact .andThen (.pure _) (agentNames look)
  · exact .andThen (.pure _) (agentNames look)
  · exact .andThen (.throw _) (agentNames look)

theorem listKvPrefix (bucket pre : Str) (parsed : JetStreamPath) :
    Keeps A R (listKvPrefix bucket pre parsed).run := by
  refine .andThen (.liftM (.request (look rfl))) ?_
  intro reply
  cases reply with
  | ok entries => exact .pure _
  | error err => exact .whenE (.pure _) (.throw _)

theorem durableDirectoryEntries (parsed : JetStreamPath) :
    Keeps A R (durableDirectoryEntries parsed).run := by
  refine .andThen (.liftErrno _) ?_
  intro action
  split
  · exact .pure _
  · exact .andThen (look.requestIo rfl) fun _ => .pure _
  · exact look.listKvPrefix _ _ parsed
  · exact look.kvHistoryDirectoryEntries _ _
  · exact look.requestIo rfl
  · exact .andThen (look.requestIo rfl) fun _ => .pure _
  · exact .andThen (look.requestIo rfl) fun _ => .pure _
  · exact look.listAgentsRoot
  · exact look.listStreamMessages _ false
  · exact look.requestIo rfl
  · exact .andThen (look.requestIo rfl) fun _ => .pure _
  · exact look.requestIo rfl
  · exact .pure _
  · exact .throw _

theorem readMaterialized (target : MaterializedTarget) :
    Keeps A R (readMaterialized target).run := by
  cases target with
  | stream stream subject => exact look.readStreamSubjectSnapshotAllowMissing stream subject
  | kv bucket key =>
      refine .andThen (look.requestIo rfl) ?_
      intro entry
      cases entry with
      | some entry => exact .pure _
      | none => exact .throw _

end Observes

/-! ## The mount projection -/

/-- What the code of the projection is allowed to do: issue the observing calls, forget
the stale mark of a path, apply watch events, and remember what it has read. -/
structure Looking [Serde] [Rendering] (A : Program.Access io) (R : Mount → Mount → Prop) :
    Prop where
  observe : Observes A
  stale : ∀ (mount : Mount) (path : MountPath),
    R mount { mount with stalePaths := mount.stalePaths.erase path }
  watch : Keeps A R applyPendingWatchEvents
  read : ∀ ⦃path : MountPath⦄ ⦃parsed : JetStreamPath⦄ ⦃action : JetStreamAction⦄,
    parsePath path = .ok parsed → planOrErrno .read parsed = .ok action →
      Keeps A R (readAction path parsed action).run

namespace Looking

variable [Serde] [Rendering] {A : Program.Access io} {R : Mount → Mount → Prop} [Std.Refl R]
  [IsTrans Mount R] (look : Looking A R)

include look

/-! ### The overlay on directories -/

theorem durableEntriesOf (path : MountPath) : Keeps A R (durableEntriesOf path) := by
  unfold Fuse.durableEntriesOf
  split
  · exact .pure none
  · refine .bind (look.observe.durableDirectoryEntries _) ?_
    intro result
    cases result <;> exact .pure _

theorem queuedDirectoryChildHasExactDynamicFile (path : MountPath) :
    Keeps A R (queuedDirectoryChildHasExactDynamicFile path) := by
  unfold Fuse.queuedDirectoryChildHasExactDynamicFile
  split
  · exact .pure false
  · refine .bind (look.observe.exactDynamicFileExists _) ?_
    intro result
    cases result <;> exact .pure _

section Recurse

variable {recurse : MountPath → List DirectoryEntry → List MountPath →
    RuntimeM (List DirectoryEntry)}
  (hRecurse : ∀ path entries visited, Keeps A R (recurse path entries visited))

include hRecurse

theorem childHasKnownVisibleEntries (path : MountPath) (visited : List MountPath) :
    Keeps A R (storageReader.childHasKnownVisibleEntries recurse path visited) := by
  refine .whenM (.pure false) ?_
  refine .bind (look.durableEntriesOf path) ?_
  intro entries
  exact .bind (hRecurse path _ _) fun _ => .pure _

theorem childHasVisibleEntries (path : MountPath) (visited : List MountPath) :
    Keeps A R (storageReader.childHasVisibleEntries recurse path visited) := by
  refine .whenM (.pure true) ?_
  refine .bind (look.durableEntriesOf path) ?_
  intro entries
  cases entries with
  | none => exact .pure true
  | some entries => exact .bind (hRecurse path entries _) fun _ => .pure _

theorem applyDelete (path : MountPath) (visited : List MountPath) (entries : List DirectoryEntry)
    (deleted : MountPath) :
    Keeps A R (storageReader.applyDelete recurse path visited entries deleted) := by
  unfold DirectoryReader.applyDelete
  split
  · exact .pure entries
  · split
    · exact .pure entries
    · split
      · dsimp only
        split
        · refine .bind (look.childHasKnownVisibleEntries hRecurse _ visited) ?_
          intro reveals
          exact .whenM (.pure _) (.pure _)
        · exact .bind (.pure _) fun _ => .whenM (.pure _) (.pure _)
      · refine .whenM ?_ (.pure _)
        refine .bind (look.queuedDirectoryChildHasExactDynamicFile _) ?_
        intro exactFile
        refine .whenM (.pure _) ?_
        refine .bind (look.childHasVisibleEntries hRecurse _ visited) ?_
        intro visible
        exact .whenM (.pure _) (.pure _)

theorem applyChange (path : MountPath) (visited : List MountPath) (entries : List DirectoryEntry)
    (change : QueuedOverlayChange) :
    Keeps A R (storageReader.applyChange recurse path visited entries change) := by
  refine .bind (.foldlM ?_ _ _) fun _ => .pure _
  intro entries deleted
  exact look.applyDelete hRecurse path visited entries deleted

end Recurse

theorem applyQueuedOverlayToDirectory (changes : List QueuedOverlayChange) (fuel : Nat)
    (path : MountPath) (entries : List DirectoryEntry) (visited : List MountPath) :
    Keeps A R (storageReader.applyQueuedOverlayToDirectory changes fuel path entries visited) := by
  induction fuel generalizing path entries visited with
  | zero => exact .pure entries
  | succ fuel ih =>
      refine .foldlM ?_ _ _
      intro entries change
      exact look.applyChange ih path visited entries change

omit [Serde] [Rendering] look in
theorem pendingFacts : Keeps A R pendingFacts := .bind .get fun _ => .pure _

theorem applyQueuedDeletesToDirectory (path : MountPath) (entries : List DirectoryEntry) :
    Keeps A R (applyQueuedDeletesToDirectory path entries) :=
  .bind pendingFacts fun _ => look.applyQueuedOverlayToDirectory _ _ path entries []

theorem queuedExactDeleteRevealsSyntheticDirectory (path : MountPath) (parsed : JetStreamPath) :
    Keeps A R (queuedExactDeleteRevealsSyntheticDirectory path parsed) := by
  refine .bind (.bind pendingFacts ?_) fun _ => .pure _
  intro facts
  exact look.childHasKnownVisibleEntries (look.applyQueuedOverlayToDirectory _ _) path []

theorem queuedDeletedDescendantEmptiesSyntheticDirectory (path : MountPath)
    (parsed : JetStreamPath) :
    Keeps A R (queuedDeletedDescendantEmptiesSyntheticDirectory path parsed).run := by
  refine .andThen (.liftM pendingFacts) ?_
  intro facts
  refine .whenE (.pure _) ?_
  refine .andThen (look.observe.exactDynamicFileExists parsed) ?_
  intro exactFile
  refine .andThen (.liftM (.bind pendingFacts ?_)) fun _ => .pure _
  intro facts
  exact look.childHasVisibleEntries (look.applyQueuedOverlayToDirectory _ _) path []

theorem mergeQueuedDirectoryEntries (parsed : JetStreamPath) (path : MountPath)
    (entries : Except Errno (List DirectoryEntry)) :
    Keeps A R (mergeQueuedDirectoryEntries parsed path entries).run := by
  refine .andThen (.liftM pendingFacts) ?_
  intro facts
  cases entries with
  | ok entries => exact .liftM (look.applyQueuedDeletesToDirectory path _)
  | error errno =>
      refine .whenE (.liftM ?_) (.throw _)
      exact look.applyQueuedDeletesToDirectory path _

theorem directoryEntries (path : MountPath) : Keeps A R (directoryEntries path).run := by
  refine .andThen (.liftM look.watch) ?_
  intro _
  refine .andThen (.liftErrno _) ?_
  intro parsed
  refine .andThen (.attempt (look.observe.durableDirectoryEntries parsed)) ?_
  intro entries
  exact look.mergeQueuedDirectoryEntries parsed path entries

/-! ### Content -/

theorem queuedJsonlBase (path : MountPath) (parsed : JetStreamPath) :
    Keeps A R (queuedJsonlBase path parsed).run := by
  refine .andThen (.liftM .get) ?_
  intro mount
  split
  · exact .pure _
  · split
    · exact .pure _
    · refine .andThen (.attempt (look.observe.readStreamSubjectSnapshotAllowMissing _ _)) ?_
      intro result
      cases result with
      | ok bytes => exact .pure _
      | error errno => exact .whenE (.pure _) (.throw _)

theorem durableJsonlAppliedPrefix (entry : QueuedJsonlEntry) :
    Keeps A R (durableJsonlAppliedPrefix entry) := by
  refine .bind (.request (look.observe rfl)) ?_
  intro reply
  cases reply <;> exact .pure _

theorem queuedJsonlSnapshot (path : MountPath) (parsed : JetStreamPath) :
    Keeps A R (queuedJsonlSnapshot path parsed).run := by
  refine .andThen (.liftM pendingFacts) ?_
  intro facts
  refine .whenE (.pure _) ?_
  refine .andThen (look.queuedJsonlBase path parsed) ?_
  intro base
  refine .andThen (.foldlE ?_ _ _) fun _ => .pure _
  intro bytes entry
  refine .andThen (.liftM (look.durableJsonlAppliedPrefix entry)) ?_
  intro applied
  exact .andThen (.liftErrno _) fun _ => .pure _

theorem readSnapshot {path : MountPath} {parsed : JetStreamPath}
    (hParse : parsePath path = .ok parsed) : Keeps A R (readSnapshot path parsed).run := by
  have hRead : Keeps A R (do
      Fuse.readAction path parsed (← Fuse.liftErrno (planOrErrno .read parsed)) :
        Runtime Bytes).run := .afterErrno fun _ hPlan => look.read hParse hPlan
  refine .andThen (.liftM pendingFacts) ?_
  intro facts
  refine .whenE (.throw _) ?_
  split
  · exact .pure _
  · refine .andThen (look.queuedJsonlSnapshot path parsed) ?_
    intro queued
    cases queued with
    | some bytes => exact .pure _
    | none =>
        refine .andThen (.liftM .get) ?_
        intro mount
        split
        · exact .pure _
        · split
          · refine .andThen (look.observe.requireStream _) ?_
            intro _
            refine .andThen (look.observe.streamSubjectExists _ _) ?_
            intro found
            exact .whenE (.throw _) hRead
          · exact hRead

theorem readBytes (path : MountPath) : Keeps A R (readBytes path).run := by
  refine .andThen (.liftM look.watch) ?_
  intro _
  exact .afterErrno fun _ hParse => look.readSnapshot hParse

/-! ### Kind and attributes -/

omit [Std.Refl R] [IsTrans Mount R] in
theorem clearStalePath (path : MountPath) : Keeps A R (clearStalePath path) :=
  .modify fun mount => look.stale mount path

theorem durableKind (parsed : JetStreamPath) : Keeps A R (durableKind parsed).run := by
  unfold Fuse.durableKind
  split
  iterate 9 exact .pure _
  · exact .andThen (look.observe.requireKvBucket _) fun _ => .pure _
  · exact .andThen (look.observe.requireKvBucket _) fun _ => .pure _
  · refine .andThen (look.observe.requestIo rfl) ?_
    intro revisions
    refine .whenE (.pure _) ?_
    refine .andThen (look.observe.requestIo rfl) ?_
    intro children
    exact .whenE (.throw _) (.pure _)
  iterate 3 exact .andThen (look.observe.requireStream _) fun _ => .pure _
  · refine .andThen (look.observe.requireStream _) ?_
    intro _
    refine .andThen (look.observe.streamSubjectExists _ _) ?_
    intro found
    exact .whenE (.pure _) (.throw _)
  · exact .andThen (look.observe.requireObjectBucket _) fun _ => .pure _
  iterate 4 exact .pure _
  · exact look.observe.kvPrefixProjectionKind _ _
  iterate 2
    split
    · exact look.observe.kvPrefixProjectionKind _ _
    · exact .pure _
  · refine .andThen (look.observe.classifyObjectDynamicPath _ _) ?_
    intro kind
    cases kind <;> exact .pure _
  · exact .pure _

theorem kindForParsed (path : MountPath) (parsed : JetStreamPath) :
    Keeps A R (kindForParsed path parsed).run := by
  have hDurable (mount : Mount) : Keeps A R (do
      if (mount.cache.get path.asStr).isSome then
        Fuse.clearStalePath path
        return .file
      Fuse.durableKind parsed : Runtime MountProjectionKind).run :=
    .whenE (.andThen (.liftM (look.clearStalePath path)) fun _ => .pure _)
      (look.durableKind parsed)
  refine .andThen (.liftM pendingFacts) ?_
  intro facts
  refine .whenE ?_ (.whenE ?_ (.whenE ?_ ?_))
  · refine .andThen (.liftM (look.queuedExactDeleteRevealsSyntheticDirectory path parsed)) ?_
    intro reveals
    refine .andThen (.liftM (look.clearStalePath path)) ?_
    intro _
    exact .whenE (.pure _) (.throw _)
  · exact .andThen (.liftM (look.clearStalePath path)) fun _ => .pure _
  · exact .andThen (.liftM (look.clearStalePath path)) fun _ => .pure _
  · refine .andThen (look.queuedDeletedDescendantEmptiesSyntheticDirectory path parsed) ?_
    intro emptied
    refine .whenE (.andThen (.liftM (look.clearStalePath path)) fun _ => .throw _) ?_
    refine .andThen (.liftM .get) ?_
    intro mount
    refine .whenE ?_ (hDurable mount)
    split
    · exact .pure _
    · exact hDurable mount

theorem attrMetadata {path : MountPath} {parsed : JetStreamPath}
    (hParse : parsePath path = .ok parsed) : Keeps A R (attrMetadata path parsed).run := by
  have hRead : Keeps A R (do return (← Fuse.readSnapshot path parsed).length : Runtime Nat).run :=
    .andThen (look.readSnapshot hParse) fun _ => .pure _
  refine .andThen (.liftM pendingFacts) ?_
  intro facts
  refine .whenE (.throw _) ?_
  split
  · exact .pure _
  · refine .andThen (look.queuedJsonlSnapshot path parsed) ?_
    intro queued
    cases queued with
    | some bytes => exact .pure _
    | none =>
        refine .andThen (.liftM .get) ?_
        intro mount
        split
        · exact .pure _
        · split
          · refine .andThen (look.observe.objectMetadata _ _) ?_
            intro metadata
            cases metadata with
            | some metadata => exact .pure _
            | none => exact .throw _
          · exact hRead

theorem attr (path : MountPath) : Keeps A R (attr path).run := by
  refine .andThen (.liftM look.watch) ?_
  intro _
  refine .afterErrno fun parsed hParse => ?_
  refine .andThen (look.kindForParsed path parsed) ?_
  intro kind
  cases kind with
  | directory => exact .pure _
  | file => exact .andThen (look.attrMetadata hParse) fun _ => .pure _

/-! ### Creating files -/

theorem queuedCreateTargetKind (path : MountPath) (parsed : JetStreamPath) :
    Keeps A R (queuedCreateTargetKind path parsed).run := by
  refine .andThen (.liftM pendingFacts) ?_
  intro facts
  refine .whenE ?_ (.whenE (.pure _) (.whenE (.pure _) ?_))
  · refine .andThen (.liftM (look.queuedExactDeleteRevealsSyntheticDirectory path parsed)) ?_
    intro reveals
    exact .whenE (.pure _) (.pure _)
  · refine .andThen (look.queuedDeletedDescendantEmptiesSyntheticDirectory path parsed) ?_
    intro emptied
    exact .whenE (.pure _) (.pure _)

theorem materializedKvCreateTargetKind (bucket key : Str) :
    Keeps A R (materializedKvCreateTargetKind bucket key).run := by
  refine .andThen (.attempt (look.observe.classifyKvDynamicPath bucket key)) ?_
  intro kind
  split
  · exact .pure _
  · exact .pure _
  · exact .throw _

theorem createTargetKind (path : MountPath) (parsed : JetStreamPath) (action : JetStreamAction) :
    Keeps A R (createTargetKind path parsed action).run := by
  refine .andThen (look.queuedCreateTargetKind path parsed) ?_
  intro queued
  cases queued with
  | some kind => exact .pure _
  | none =>
      dsimp only
      split
      · exact look.observe.classifyKvDynamicPath _ _
      · exact look.observe.classifyObjectDynamicPath _ _
      · exact look.materializedKvCreateTargetKind _ _
      · exact .pure _

theorem createTarget (path : MountPath) : Keeps A R (createTarget path).run := by
  refine .andThen (.liftM look.watch) ?_
  intro _
  refine .afterErrno fun parsed _ => .afterErrno fun action _ => .whenE (.throw _) ?_
  refine .andThen (look.createTargetKind path parsed action) ?_
  intro kind
  cases kind with
  | missing => exact .pure _
  | file => exact .throw _
  | directory => exact .throw _

omit [Serde] [Rendering] [IsTrans Mount R] look in
theorem writeMode (path : MountPath) : Keeps A R (writeMode path).run :=
  .afterErrno fun _ _ => .afterErrno fun _ _ => .pure _

end Looking

/-! ## What reading changes -/

section Caching

theorem onlyCaches_cache (mount : Mount) (cache : LocalCache) :
    OnlyCaches mount { mount with cache } := rfl

theorem onlyCaches_applyPathAction (mount : Mount) (action : InvalidationAction) :
    OnlyCaches mount (mount.applyPathAction action) := by
  unfold Mount.applyPathAction
  split <;> rfl

theorem onlyCaches_applyPathInvalidationPlan (mount : Mount) (plan : InvalidationPlan) :
    OnlyCaches mount (mount.applyPathInvalidationPlan plan) := by
  unfold Mount.applyPathInvalidationPlan
  induction plan generalizing mount with
  | nil => exact refl_of OnlyCaches mount
  | cons action rest ih =>
      exact trans_of OnlyCaches (onlyCaches_applyPathAction mount action) (ih _)

theorem onlyCaches_applyInvalidationPlan (mount : Mount) (plan : InvalidationPlan) :
    OnlyCaches mount (mount.applyInvalidationPlan plan) :=
  trans_of OnlyCaches (onlyCaches_applyPathInvalidationPlan mount plan) (onlyCaches_cache _ _)

theorem onlyCaches_applyWatchEvent (mount : Mount) (event : WatchEvent) :
    OnlyCaches mount (mount.applyWatchEvent event) :=
  trans_of OnlyCaches (onlyCaches_applyPathInvalidationPlan mount _) (onlyCaches_cache _ _)

theorem onlyCaches_invalidateAfterLocalMutation (mount : Mount) (path : MountPath) :
    OnlyCaches mount (mount.invalidateAfterLocalMutation path) := by
  unfold Mount.invalidateAfterLocalMutation
  split <;> exact onlyCaches_applyInvalidationPlan mount _

/-- Code that only looks keeps every relation that the cached contents and the marks of
stale paths have no part in. -/
theorem Looking.of_onlyCaches [Serde] [Rendering] {A : Program.Access io}
    {R : Mount → Mount → Prop} [Std.Refl R] [IsTrans Mount R] (hObserve : Observes A)
    (hCaches : ∀ m m', OnlyCaches m m' → R m m') : Looking A R where
  observe := hObserve
  stale mount path := hCaches _ _ rfl
  watch := by
    refine .bind (.request (hObserve rfl)) ?_
    intro reply
    cases reply with
    | error err =>
        exact .modify fun mount => hCaches _ _ (onlyCaches_applyWatchEvent mount .gap)
    | ok events =>
        refine .modify fun mount => hCaches _ _ ?_
        induction events generalizing mount with
        | nil => exact refl_of OnlyCaches mount
        | cons event rest ih =>
            exact trans_of OnlyCaches (onlyCaches_applyWatchEvent mount event) (ih _)
  read := by
    intro path parsed action _ _
    have hInsert (origin : CacheOrigin) (bytes : Bytes) :
        Keeps A R (cacheAndReturn path origin bytes).run :=
      .andThen (.liftM (.modify fun _ => hCaches _ _ rfl)) fun _ => .pure _
    unfold readAction
    split
    · refine .andThen (hObserve.requestIo rfl) ?_
      intro entry
      cases entry with
      | some entry => exact hInsert _ _
      | none => exact .throw _
    · refine .andThen (hObserve.requestIo rfl) ?_
      intro entry
      cases entry with
      | some entry => exact hInsert _ _
      | none => exact .throw _
    · refine .andThen (hObserve.requestIo rfl) ?_
      intro message
      cases Rendering.streamMessageBytes message with
      | ok bytes => exact hInsert _ _
      | error err => exact .throw _
    · refine .andThen (hObserve.requestIo rfl) ?_
      intro entry
      cases entry with
      | some entry => exact hInsert _ _
      | none => exact .throw _
    · exact .andThen (.liftM .get) fun _ => .pure _
    · exact .andThen (hObserve.readMaterialized _) fun _ => hInsert _ _
    · split
      · exact hObserve.readStreamSubjectSnapshot _ _
      · exact .pure _
    · exact .throw _

end Caching

/-! ## Around a commit -/

namespace Observes

variable {A : Program.Access io} {R : Mount → Mount → Prop} [Std.Refl R] [IsTrans Mount R]
  (look : Observes A)

include look

theorem jsonlBaseSnapshot (parsed : JetStreamPath) (action : JetStreamAction) :
    Keeps A R (jsonlBaseSnapshot parsed action) := by
  refine .whenM (.pure _) ?_
  split
  · exact .pure _
  · refine .bind (look.readStreamSubjectSnapshotAllowMissing _ _) ?_
    intro result
    cases result <;> exact .pure _

theorem failedWriteOperation [Serde] (action : JetStreamAction) (bytes : Bytes)
    (jsonlBase : Option Bytes) : Keeps A R (failedWriteOperation action bytes jsonlBase) := by
  have hLines (stream subject : Str) :
      Keeps A R (appliedJsonlLinesForQueue stream subject bytes jsonlBase) := by
    unfold appliedJsonlLinesForQueue
    split
    · exact .pure _
    · refine .bind (look.readStreamSubjectSnapshotAllowMissing _ _) ?_
      intro result
      cases result with
      | ok current => exact .pure _
      | error errno => exact .whenM (.pure _) (.pure _)
  unfold Fuse.failedWriteOperation
  split
  · exact .pure _
  · exact .pure _
  · exact .bind (hLines _ _) fun _ => .pure _
  · exact .bind (hLines _ _) fun _ => .pure _
  · exact .pure _
  · exact .pure _

theorem refreshCacheAfterWrite (hCaches : ∀ m m', OnlyCaches m m' → R m m') (path : MountPath)
    (action : JetStreamAction) (bytes : Bytes) :
    Keeps A R (refreshCacheAfterWrite path action bytes) := by
  refine .bind (.modify fun mount =>
    hCaches _ _ (onlyCaches_invalidateAfterLocalMutation mount path)) ?_
  intro _
  refine .bind ?_ ?_
  · unfold cacheEntryAfterWrite
    split
    iterate 3 exact .bind (.request (look rfl)) fun _ => .pure _
    exact .pure _
  · intro entry
    split
    · exact .modify fun _ => hCaches _ _ rfl
    · exact .pure _

end Observes

/-! ## Handles -/

section Gate

variable {A : Program.Access io} {R : Mount → Mount → Prop} [Std.Refl R] [IsTrans Mount R]

theorem Handling.ensureWritesAllowed : Keeps A R ensureWritesAllowed.run :=
  .andThen (.liftM .get) fun _ => .whenE (.pure _) (.throw _)

theorem Handling.getHandle (fh : Nat) : Keeps A R (getHandle fh) :=
  .bind .get fun _ => .pure _

end Gate

namespace Looking

variable [Serde] [Rendering] {A : Program.Access io} {R : Mount → Mount → Prop} [Std.Refl R]
  [IsTrans Mount R] (look : Looking A R)

include look

theorem initialHandleState (path : MountPath) (writable : Bool) (mode : HandleMode)
    (truncate create : Bool) :
    Keeps A R (initialHandleState path writable mode truncate create).run := by
  refine .whenE (.pure _) (.whenE ?_ (.whenE (.pure _) ?_))
  · exact .andThen (look.createTarget path) fun _ => .pure _
  · cases mode with
    | wholeValue => exact .andThen (look.readBytes path) fun _ => .pure _
    | jsonLines =>
        refine .andThen (.attempt (look.readBytes path)) ?_
        intro result
        cases result with
        | ok bytes => exact .pure _
        | error errno => exact .whenE (.pure _) (.throw _)

theorem readBytesForHandle (fh : Nat) (path : MountPath) :
    Keeps A R (readBytesForHandle fh path).run := by
  refine .andThen (.liftErrno _) ?_
  intro _
  refine .andThen (.liftM (Handling.getHandle fh)) ?_
  intro handle
  dsimp only
  split
  · exact look.readBytes path
  · split
    · exact .pure _
    · refine .andThen (.attempt (look.readBytes path)) ?_
      intro result
      cases result with
      | ok bytes => exact .pure _
      | error errno => exact .whenE (.pure _) (.andThen (.throw _) fun _ => .pure _)

theorem createdHandleAttr (fh : Nat) (path : MountPath) :
    Keeps A R (createdHandleAttr fh path).run := by
  refine .andThen (.liftM (Handling.getHandle fh)) ?_
  intro handle
  cases handle with
  | none => exact .throw _
  | some handle => exact .whenE (.throw _) (.whenE (.pure _) (look.attr path))

end Looking

/-- Code that looks and also changes the handles and the counters. -/
structure Handling [Serde] [Rendering] (A : Program.Access io) (R : Mount → Mount → Prop) : Prop
    extends Looking A R where
  counters : ∀ (mount : Mount) (handles : Std.ExtTreeMap Nat Handle) (nextFh nextCommitId : Nat),
    R mount { mount with handles, nextFh, nextCommitId }

namespace Handling

variable [Serde] [Rendering] {A : Program.Access io} {R : Mount → Mount → Prop} [Std.Refl R]
  [IsTrans Mount R] (hold : Handling A R)

include hold

theorem nextCommitSeed : Keeps A R nextCommitSeed := by
  refine .bind .get ?_
  intro mount
  exact .bind (.modify fun mount => hold.counters mount _ _ _) fun _ => .pure _

omit [Std.Refl R] [IsTrans Mount R] in
theorem setHandle (fh : Nat) (handle : Handle) : Keeps A R (setHandle fh handle) :=
  .modify fun mount => hold.counters mount _ _ _

omit [Std.Refl R] [IsTrans Mount R] in
theorem removeHandle (fh : Nat) : Keeps A R (removeHandle fh) :=
  .modify fun mount => hold.counters mount _ _ _

theorem handleAt (path : MountPath) (writable truncate create : Bool) (mode : HandleMode) :
    Keeps A R (do
      if truncate && mode == .jsonLines then
        MonadExcept.throw .readOnly
      let (buffer, baseOffset, stagedCreate) ←
        Fuse.initialHandleState path writable mode truncate create
      let commitSeed ← Fuse.nextCommitSeed
      return {
        path, buffer, writable, commitSeed, mode, baseOffset, stagedCreate
        dirty := writable && (truncate || create)
        committed := false } : Runtime Handle).run := by
  refine .whenE (.throw _) ?_
  refine .andThen (hold.initialHandleState path writable mode truncate create) ?_
  intro state
  exact .andThen (.liftM hold.nextCommitSeed) fun _ => .pure _

theorem buildHandle (path : MountPath) (writable truncate create : Bool) :
    Keeps A R (buildHandle path writable truncate create).run := by
  have hRest (mode : HandleMode) := hold.handleAt path writable truncate create mode
  cases writable with
  | false => exact .andThen (.pure _) hRest
  | true =>
      refine .andThen ensureWritesAllowed ?_
      intro _
      exact .andThen (Looking.writeMode path) hRest

theorem openHandle (path : MountPath) (writable truncate create : Bool) :
    Keeps A R (openHandle path writable truncate create).run := by
  refine .andThen (.liftM .get) ?_
  intro mount
  refine .andThen (.liftM (.modify fun mount => hold.counters mount _ _ _)) ?_
  intro _
  refine .andThen (hold.buildHandle path writable truncate create) ?_
  intro handle
  exact .andThen (.liftM (hold.setHandle _ handle)) fun _ => .pure _

theorem writableHandle (rawHandle : Nat) (path : MountPath) :
    Keeps A R (writableHandle rawHandle path).run := by
  refine .andThen (.liftM (getHandle rawHandle)) ?_
  intro handle
  refine .whenE ?_ (.pure _)
  refine .andThen (hold.buildHandle path true false false) ?_
  intro handle
  exact .andThen (.liftM (hold.setHandle rawHandle handle)) fun _ => .pure _

theorem refreshedSeed (fh : Nat) : Keeps A R (refreshedSeed fh).run := by
  refine .andThen (.liftM (getHandle fh)) ?_
  intro handle
  cases handle with
  | none => exact .throw _
  | some handle =>
      exact .whenE (.andThen (.liftM hold.nextCommitSeed) fun _ => .pure _) (.pure _)

theorem writeToHandleBuffer (fh : Nat) (offset : Int) (data : Bytes) :
    Keeps A R (writeToHandleBuffer fh offset data).run := by
  refine .whenE (.throw _) ?_
  refine .andThen (hold.refreshedSeed fh) ?_
  intro seed
  refine .andThen ensureWritesAllowed ?_
  intro _
  refine .andThen (.liftM (getHandle fh)) ?_
  intro handle
  cases handle with
  | none => exact .throw _
  | some handle =>
      refine .andThen (.liftM (hold.setHandle fh _)) ?_
      intro _
      refine .whenE (.throw _) ?_
      dsimp only
      split
      · exact .throw _
      · refine .whenE (.andThen (.liftM (hold.setHandle fh _)) fun _ => .throw _) ?_
        exact .andThen (.liftM (hold.setHandle fh _)) fun _ => .pure _

theorem truncateHandle (fh : Nat) : Keeps A R (do
    let newCommitSeed ← Fuse.refreshedSeed fh
    Fuse.ensureWritesAllowed
    match ← Fuse.getHandle fh with
    | none => MonadExcept.throw .badFile
    | some handle =>
        let handle := { handle with commitSeed := newCommitSeed.getD handle.commitSeed }
        Fuse.setHandle fh handle
        if !handle.writable then
          MonadExcept.throw .badFile
        Fuse.setHandle fh { handle with
          buffer := []
          baseOffset := 0
          dirty := handle.mode == .wholeValue
          committed := false } : Runtime Unit).run := by
  refine .andThen (hold.refreshedSeed fh) ?_
  intro seed
  refine .andThen ensureWritesAllowed ?_
  intro _
  refine .andThen (.liftM (getHandle fh)) ?_
  intro handle
  cases handle with
  | none => exact .throw _
  | some handle =>
      refine .andThen (.liftM (hold.setHandle fh _)) ?_
      intro _
      exact .whenE (.throw _) (.liftM (hold.setHandle fh _))

theorem stageTruncate (fh : Nat) : Keeps A R (stageTruncate fh).run := by
  refine .andThen (.liftM (getHandle fh)) ?_
  intro handle
  cases handle with
  | none => exact .throw _
  | some handle => exact .whenE (.throw _) (hold.truncateHandle fh)

omit [Serde] [Rendering] hold in
theorem flushHandle (fh : Nat) : Keeps A R (flushHandle fh).run := by
  refine .andThen (.liftM (getHandle fh)) ?_
  intro handle
  exact .whenE (.throw _) (.pure _)

end Handling

end EventFs.Fuse
