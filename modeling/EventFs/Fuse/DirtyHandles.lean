import EventFs.Fuse.ShutGate

/-!
# Dirty handles

Every operation leaves the handles as they are, or stores, changes and removes one of
them. A handle is dirty only while it holds a change that a commit sends.
-/

namespace EventFs.Fuse

open Library Protocol Transport Program

variable {α β : Type}

/-! ## Consistent handles -/

/-- A handle is dirty only with a change that a commit sends. -/
def Handle.Consistent (handle : Handle) : Prop := handle.dirty = true → handle.Unsent

def Mount.Consistent (mount : Mount) : Prop :=
  ∀ (fh : Nat) (handle : Handle), mount.handles[fh]? = some handle → handle.Consistent

theorem Handle.consistent_of_clean {handle : Handle} (h : handle.dirty = false) :
    handle.Consistent := by
  intro hDirty
  rw [h] at hDirty
  cases hDirty

theorem Handle.Consistent.of_eq {handle handle' : Handle} (h : handle.Consistent)
    (hWritable : handle'.writable = handle.writable) (hDirty : handle'.dirty = handle.dirty)
    (hCommitted : handle'.committed = handle.committed) : handle'.Consistent := by
  intro hDirty'
  have hUnsent := h (hDirty.symm.trans hDirty')
  exact ⟨hWritable.trans hUnsent.writable, hDirty', hCommitted.trans hUnsent.committed⟩

theorem Mount.Consistent.of_handles {mount mount' : Mount} (h : mount.Consistent)
    (hHandles : mount'.handles = mount.handles) : mount'.Consistent := by
  intro fh handle hHandle
  rw [hHandles] at hHandle
  exact h fh handle hHandle

theorem Mount.Consistent.store {mount : Mount} {handle : Handle} (h : mount.Consistent)
    (hHandle : handle.Consistent) (fh : Nat) : (mount.store fh handle).Consistent := by
  intro other found hFound
  have hInsert : (mount.handles.insert fh handle)[other]? = some found := hFound
  rw [Std.ExtTreeMap.getElem?_insert] at hInsert
  split at hInsert
  · cases hInsert
    exact hHandle
  · exact h other found hInsert

theorem Mount.Consistent.erase {mount : Mount} (h : mount.Consistent) (fh : Nat) :
    ({ mount with handles := mount.handles.erase fh } : Mount).Consistent := by
  intro other found hFound
  have hErase : (mount.handles.erase fh)[other]? = some found := hFound
  rw [Std.ExtTreeMap.getElem?_erase] at hErase
  split at hErase
  · cases hErase
  · exact h other found hErase

section Consistent

variable {τ : Type} {B : Behaviour io τ}

def consistent (mount : Mount) (_ : τ) : Prop := mount.Consistent

/-- Code that leaves the handles alone. -/
theorem consistent_of_handles {p : RuntimeM α}
    (h : ∀ ⦃mount log a mount'⦄, Logs p mount log a mount' → mount'.handles = mount.handles) :
    Leads B consistent p fun _ => consistent := by
  intro mount world a mount' world' hConsistent hRun
  obtain ⟨log, hLog⟩ := Answers.of_run hRun
  exact hConsistent.of_handles (h hLog)

theorem consistent_getHandle (fh : Nat) :
    Leads B consistent (getHandle fh) fun found mount _ =>
      mount.Consistent ∧ ∀ handle, found = some handle → handle.Consistent := by
  refine .bind (fun found mount _ => mount.Consistent ∧ found = mount)
    (.get fun mount _ h => ⟨h, rfl⟩) ?_
  intro found
  refine .pure ?_
  rintro mount _ ⟨h, rfl⟩
  exact ⟨h, h fh⟩

theorem consistent_removeHandle (fh : Nat) :
    Leads B consistent (removeHandle fh) fun _ => consistent :=
  .modify fun _ _ h => h.erase fh

end Consistent

/-! ## Looking at the ends of a rename -/

namespace Observes

variable {A : Access io} {R : Mount → Mount → Prop} [Std.Refl R] [IsTrans Mount R]
  (look : Observes A)

include look

theorem kvRenameSource (bucket key : Str) :
    Keeps A R (kvRenameSource bucket key).run := by
  refine .andThen (look.classifyKvDynamicPath bucket key) ?_
  intro kind
  cases kind with
  | missing => exact .throw _
  | directory => exact .throw _
  | file =>
      refine .andThen (look.requestIo rfl) ?_
      intro entry
      cases entry with
      | none => exact .throw _
      | some entry => exact .pure _

theorem objectRenameSource (bucket object : Str) :
    Keeps A R (objectRenameSource bucket object).run := by
  refine .andThen (look.classifyObjectDynamicPath bucket object) ?_
  intro kind
  cases kind with
  | missing => exact .throw _
  | directory => exact .throw _
  | file =>
      refine .andThen (look.requestIo rfl) ?_
      intro entry
      cases entry with
      | none => exact .throw _
      | some entry => exact .pure _

omit look [IsTrans Mount R] in
theorem ensureRenameDestination (kind : DynamicPathKind) :
    Keeps A R (ensureRenameDestination kind).run := by
  cases kind with
  | directory => exact .throw _
  | file => exact .pure _
  | missing => exact .pure _

theorem kvRenameDestination (bucket key : Str) :
    Keeps A R (ensureKvRenameDestination bucket key).run :=
  .andThen (look.classifyKvDynamicPath bucket key) ensureRenameDestination

theorem objectRenameDestination (bucket object : Str) :
    Keeps A R (ensureObjectRenameDestination bucket object).run :=
  .andThen (look.classifyObjectDynamicPath bucket object) ensureRenameDestination

end Observes

/-! ## Code that leaves the handles alone -/

/-- Any call, answered in any way. -/
def anything : Access io where
  issue _ := True
  answer _ _ := True

def KeepsHandles (mount mount' : Mount) : Prop := mount'.handles = mount.handles

instance : Std.Refl KeepsHandles := ⟨fun _ => rfl⟩

instance : IsTrans Mount KeepsHandles := ⟨fun _ _ _ hFirst hSecond => hSecond.trans hFirst⟩

theorem OnlyCaches.keepsHandles {mount mount' : Mount} (h : OnlyCaches mount mount') :
    KeepsHandles mount mount' := by
  rw [KeepsHandles, h]

theorem observes_anything : Observes anything := fun _ _ => trivial

theorem under_anything {Q : α → Prop} (p : Program io α) (h : ∀ a, Q a) : p.Under anything Q := by
  induction p with
  | ret a => exact h a
  | call c next ih => exact ⟨trivial, fun r _ => ih r⟩

theorem keepsHandles_lift (p : Program io α) :
    Keeps anything KeepsHandles (StateT.lift p : RuntimeM α) := by
  intro mount
  exact (under_anything p (Q := fun _ => True) fun _ => trivial).bind fun _ _ => rfl

theorem keepsHandles_nextCommitSeed : Keeps anything KeepsHandles nextCommitSeed :=
  .bind .get fun _ => .bind (.modify fun _ => rfl) fun _ => .pure _

theorem keepsHandles_refreshedSeed (fh : Nat) :
    Keeps anything KeepsHandles (refreshedSeed fh).run := by
  refine .andThen (.liftM (Handling.getHandle fh)) ?_
  intro handle
  cases handle with
  | none => exact .throw _
  | some handle =>
      exact .whenE (.andThen (.liftM keepsHandles_nextCommitSeed) fun _ => .pure _) (.pure _)

theorem keepsHandles_enqueueFailedWrite (failed : FailedWrite) :
    Keeps anything KeepsHandles (enqueueFailedWrite failed) := by
  refine .bind .get fun mount => .bind (keepsHandles_lift _) ?_
  intro result
  exact .bind (.modify fun _ => rfl) fun _ => .pure _

theorem keepsHandles_replayQueue : Keeps anything KeepsHandles replayQueue := by
  refine .bind .get fun mount => .bind (keepsHandles_lift _) ?_
  intro result
  refine .bind (.modify fun _ => rfl) fun _ => .modify fun mount => ?_
  exact (onlyCaches_applyInvalidationPlan mount .gap).keepsHandles

section Handled

variable [Serde] [Rendering]

theorem looking_anything : Looking anything KeepsHandles :=
  .of_onlyCaches observes_anything fun _ _ h => h.keepsHandles

omit [Serde] in
theorem keepsHandles_queueRename (fromPath toPath : MountPath) (plan : RenamePlan) :
    Keeps anything KeepsHandles (queueRename fromPath toPath plan).run := by
  have hQueued (sourceGeneration : Nat) (bytes : Bytes) (seed : Str)
      (operation : FailedWriteOperation) : Keeps anything KeepsHandles
        (queueRenameCompletion fromPath toPath sourceGeneration bytes seed operation).run := by
    refine .andThen (.liftM (keepsHandles_enqueueFailedWrite _)) ?_
    intro queued
    cases queued with
    | ok _ => exact .pure _
    | error err => exact .throw _
  cases plan with
  | kv fromBucket fromKey toBucket toKey =>
      refine .andThen (observes_anything.kvRenameSource fromBucket fromKey) fun entry => ?_
      refine .andThen (observes_anything.kvRenameDestination toBucket toKey) fun _ => ?_
      exact .andThen (.liftM keepsHandles_nextCommitSeed) fun seed => hQueued _ _ seed _
  | object fromBucket fromObject toBucket toObject =>
      refine .andThen (observes_anything.objectRenameSource fromBucket fromObject) fun object => ?_
      refine .andThen (observes_anything.objectRenameDestination toBucket toObject) fun _ => ?_
      exact .andThen (.liftM keepsHandles_nextCommitSeed) fun seed => hQueued _ _ seed _

end Handled

/-! ## Operations on handles -/

section Handling

variable [Serde] [Rendering] {τ : Type} {B : Behaviour io τ}

omit [Serde] [Rendering] in
theorem consistent_of_keeps {p : RuntimeM α} (h : Keeps anything KeepsHandles p) :
    Leads B consistent p fun _ => consistent :=
  consistent_of_handles fun _ _ _ _ hLogs => (hLogs.of_keeps h fun _ _ => trivial).2

omit [Serde] [Rendering] in
theorem consistent_after {p : Runtime α} {f : α → Runtime β}
    (h : Keeps anything KeepsHandles p.run)
    (hNext : ∀ a, Leads B consistent (f a).run fun _ => consistent) :
    Leads B consistent (p >>= f).run fun _ => consistent :=
  .andThenSame (consistent_of_keeps h) hNext

omit [Serde] [Rendering] in
theorem consistent_withHandle {fh : Nat} {f : Option Handle → Runtime α}
    (h : ∀ found, (∀ handle, found = some handle → handle.Consistent) →
      Leads B consistent (f found).run fun _ => consistent) :
    Leads B consistent (getHandle fh >>= f : Runtime α).run fun _ => consistent := by
  refine .andThen _ (.liftM (consistent_getHandle fh)) ?_
  intro found
  exact .assume (h found)

omit [Serde] [Rendering] in
theorem consistent_set {handle : Handle} (fh : Nat) (hHandle : handle.Consistent) :
    Leads B consistent (setHandle fh handle) fun _ => consistent :=
  .modify fun _ _ h => h.store hHandle fh

omit [Serde] [Rendering] in
theorem consistent_pure (a : α) :
    Leads B consistent (pure a : Runtime α).run fun _ => consistent := .pure fun _ _ h => h

omit [Serde] [Rendering] in
theorem consistent_throw (errno : Errno) :
    Leads B consistent (throw errno : Runtime α).run fun _ => consistent := .throw fun _ _ h => h

omit [Serde] [Rendering] in
theorem consistent_writeToHandleBuffer (fh : Nat) (offset : Int) (data : Bytes) :
    Leads B consistent (writeToHandleBuffer fh offset data).run fun _ => consistent := by
  refine .whenE (fun _ => consistent_throw _) fun _ => ?_
  refine consistent_after (keepsHandles_refreshedSeed fh) ?_
  intro seed
  refine consistent_after Handling.ensureWritesAllowed ?_
  intro _
  refine consistent_withHandle ?_
  intro found hFound
  cases found with
  | none => exact consistent_throw _
  | some handle =>
      have hHandle : handle.Consistent := hFound handle rfl
      refine .andThenSame (.liftM (consistent_set fh (hHandle.of_eq rfl rfl rfl))) ?_
      intro _
      refine .whenE (fun _ => consistent_throw _) fun hAllowed => ?_
      have hWritable : handle.writable = true := by simpa using hAllowed
      dsimp only
      split
      · exact consistent_throw _
      · refine .whenE (fun _ => ?_) fun _ => ?_
        · exact .andThenSame (.liftM (consistent_set fh (hHandle.of_eq rfl rfl rfl)))
            fun _ => consistent_throw _
        · refine .andThenSame (.liftM (consistent_set fh ?_)) fun _ => consistent_pure _
          exact fun _ => ⟨hWritable, rfl, rfl⟩

omit [Serde] [Rendering] in
theorem consistent_stageTruncate (fh : Nat) :
    Leads B consistent (stageTruncate fh).run fun _ => consistent := by
  refine consistent_withHandle ?_
  intro found _
  cases found with
  | none => exact consistent_throw _
  | some handle =>
      refine .whenE (fun _ => consistent_throw _) fun _ => ?_
      refine consistent_after (keepsHandles_refreshedSeed fh) ?_
      intro seed
      refine consistent_after Handling.ensureWritesAllowed ?_
      intro _
      refine consistent_withHandle ?_
      intro current hCurrent
      cases current with
      | none => exact consistent_throw _
      | some current =>
          have hHandle : current.Consistent := hCurrent current rfl
          refine .andThenSame (.liftM (consistent_set fh (hHandle.of_eq rfl rfl rfl))) ?_
          intro _
          refine .whenE (fun _ => consistent_throw _) fun hAllowed => ?_
          have hWritable : current.writable = true := by simpa using hAllowed
          exact .liftM (consistent_set fh fun hDirty => ⟨hWritable, hDirty, rfl⟩)

theorem consistent_commitMountPathWithSeed (path : MountPath) (bytes : Bytes) (commitSeed : Str) :
    Leads B consistent (commitMountPathWithSeed path bytes commitSeed).run fun _ => consistent :=
  consistent_of_handles fun _ _ _ _ h => h.of_commit.1.handles

omit [Serde] [Rendering] in
theorem consistent_afterCommit (handle : Handle) (mode : HandleMode) (bytes : Bytes) :
    (handle.afterCommit mode bytes).Consistent := by
  cases mode <;> exact Handle.consistent_of_clean rfl

theorem consistent_commitHandle (fh : Nat) :
    Leads B consistent (commitHandle fh).run fun _ => consistent := by
  refine consistent_withHandle ?_
  intro found _
  cases found with
  | none => exact consistent_pure _
  | some handle =>
      refine .whenE (fun _ => consistent_pure _) fun _ => ?_
      refine .andThenSame (consistent_commitMountPathWithSeed _ _ _) ?_
      intro _
      refine consistent_withHandle ?_
      intro current _
      cases current with
      | none => exact consistent_pure _
      | some current => exact .liftM (consistent_set fh (consistent_afterCommit _ _ _))

theorem consistent_releaseHandle (fh : Nat) :
    Leads B consistent (releaseHandle fh).run fun _ => consistent := by
  refine .andThenSame (.attempt (consistent_commitHandle fh)) ?_
  intro result
  exact .andThenSame (.liftM (consistent_removeHandle fh)) fun _ => .liftErrno fun _ _ h => h

/-- What the building of a handle gives. -/
def builds (result : Except Errno Handle) (mount : Mount) (_ : τ) : Prop :=
  mount.Consistent ∧ ∀ handle, result = .ok handle → handle.Consistent

omit [Serde] [Rendering] in
theorem builds_after {p : Runtime α} {f : α → Runtime Handle}
    (h : Keeps anything KeepsHandles p.run)
    (hNext : ∀ a, Leads B consistent (f a).run builds) :
    Leads B consistent (p >>= f).run builds := by
  refine .andThen (fun _ => consistent) ?_ hNext
  refine (consistent_of_keeps h).weaken (fun _ _ h => h) ?_
  intro result mount world hConsistent
  cases result with
  | ok a => exact hConsistent
  | error errno => exact ⟨hConsistent, fun handle hOk => by cases hOk⟩

theorem consistent_buildHandle (path : MountPath) (writable truncate create : Bool) :
    Leads B consistent (buildHandle path writable truncate create).run builds := by
  cases writable
  case' false => refine builds_after (p := pure HandleMode.wholeValue) (.pure _) fun mode => ?_
  case' true =>
    refine builds_after Handling.ensureWritesAllowed fun _ => ?_
    refine builds_after (Looking.writeMode path) fun mode => ?_
  all_goals
    refine .whenE (fun _ => .throw fun _ _ h => ⟨h, fun handle hOk => by cases hOk⟩) fun _ => ?_
    refine builds_after (looking_anything.initialHandleState path _ mode truncate create) ?_
    intro state
    refine builds_after (.liftM keepsHandles_nextCommitSeed) fun seed => ?_
    refine .pure fun mount world h => ⟨h, ?_⟩
    rintro handle ⟨⟩ hDirty
  case false => simp at hDirty
  case true => exact ⟨rfl, hDirty, rfl⟩

omit [Serde] [Rendering] in
/-- A handle that has been built is stored. -/
theorem consistent_storeBuilt {p : Runtime Handle} {f : Handle → Runtime α}
    (h : Leads B consistent p.run builds)
    (hNext : ∀ handle, handle.Consistent → Leads B consistent (f handle).run fun _ => consistent) :
    Leads B consistent (p >>= f).run fun _ => consistent := by
  refine .andThen (fun handle mount _ => mount.Consistent ∧ handle.Consistent) ?_
    fun handle => .assume (hNext handle)
  refine h.weaken (fun _ _ h => h) ?_
  intro result mount world hBuilt
  cases result with
  | ok handle => exact ⟨hBuilt.1, hBuilt.2 handle rfl⟩
  | error errno => exact hBuilt.1

theorem consistent_openHandle (path : MountPath) (writable truncate create : Bool) :
    Leads B consistent (openHandle path writable truncate create).run fun _ => consistent := by
  refine consistent_after (.liftM .get) fun mount => ?_
  refine consistent_after (.liftM (.modify fun _ => rfl)) fun _ => ?_
  refine consistent_storeBuilt (consistent_buildHandle path writable truncate create) ?_
  intro handle hHandle
  exact .andThenSame (.liftM (consistent_set _ hHandle)) fun _ => consistent_pure _

theorem consistent_writableHandle (rawHandle : Nat) (path : MountPath) :
    Leads B consistent (writableHandle rawHandle path).run fun _ => consistent := by
  refine consistent_withHandle fun found _ => ?_
  refine .whenE (fun _ => ?_) fun _ => consistent_pure _
  refine consistent_storeBuilt (consistent_buildHandle path true false false) ?_
  intro handle hHandle
  exact .andThenSame (.liftM (consistent_set _ hHandle)) fun _ => consistent_pure _

/-! ## Any operation -/

omit [Serde] [Rendering] in
theorem consistent_ignore {p : Runtime α} (h : Leads B consistent p.run fun _ => consistent) :
    Leads B consistent (ignore p).run fun _ => consistent :=
  .andThenSame h fun _ => consistent_pure _

theorem consistent_truncatePath (path : MountPath) :
    Leads B consistent (truncatePath path).run fun _ => consistent := by
  refine consistent_after
    (.andThen (Looking.writeMode path) fun _ => .whenE (.throw _) (.pure _)) fun _ => ?_
  exact consistent_after (.liftM keepsHandles_nextCommitSeed) fun seed =>
    consistent_commitMountPathWithSeed path [] seed

theorem consistent_executeMknod (path : MountPath) (mode : Nat) :
    Leads B consistent (executeMknod path mode).run fun _ => consistent := by
  refine consistent_after Handling.ensureWritesAllowed fun _ => ?_
  refine .whenE (fun _ => consistent_throw _) fun _ => ?_
  refine consistent_after (looking_anything.createTarget path) fun payload => ?_
  refine consistent_after (.liftM keepsHandles_nextCommitSeed) fun seed => ?_
  exact .andThenSame (consistent_commitMountPathWithSeed path payload seed)
    fun _ => consistent_pure _

omit [Serde] in
theorem consistent_executeRename (fromPath toPath : MountPath) (flags : Nat) :
    Leads B consistent (executeRename fromPath toPath flags).run fun _ => consistent := by
  refine consistent_after Handling.ensureWritesAllowed fun _ => ?_
  refine .whenE (fun _ => consistent_throw _) fun _ => ?_
  refine .whenE (fun _ => consistent_pure _) fun _ => ?_
  refine consistent_of_keeps (.afterErrno fun source _ => .afterErrno fun target _ =>
    .afterErrno fun action _ => ?_)
  split
  · next plan _ =>
    refine .andThen (keepsHandles_queueRename fromPath toPath plan) fun _ => ?_
    refine .andThen (.liftM keepsHandles_replayQueue) fun _ => ?_
    refine .andThen (.liftM (.modify fun mount => ?_)) fun _ => .liftM (.modify fun mount => ?_)
    · exact afterLocalUnlink (fun _ _ h => h.keepsHandles) (fun _ _ => rfl) mount fromPath
    · exact (onlyCaches_invalidateAfterLocalMutation mount toPath).keepsHandles
  · exact .throw _

theorem consistent_operation (operation : Operation) :
    Leads B consistent operation.code.run fun _ => consistent := by
  have look := looking_anything
  cases operation with
  | stat path => exact consistent_of_keeps (keeps_ignore (look.attr path))
  | read path => exact consistent_of_keeps (keeps_ignore (look.readBytes path))
  | readHandle fh path => exact consistent_of_keeps (keeps_ignore (look.readBytesForHandle fh path))
  | list path => exact consistent_of_keeps (keeps_ignore (look.directoryEntries path))
  | openFile path writable truncate create =>
      exact consistent_ignore (consistent_openHandle path writable truncate create)
  | createdHandleAttr fh path =>
      exact consistent_of_keeps (keeps_ignore (look.createdHandleAttr fh path))
  | writableHandle rawHandle path =>
      exact consistent_ignore (consistent_writableHandle rawHandle path)
  | write fh offset data => exact consistent_ignore (consistent_writeToHandleBuffer fh offset data)
  | truncateHandle fh => exact consistent_stageTruncate fh
  | truncatePath path => exact consistent_truncatePath path
  | commit fh => exact consistent_commitHandle fh
  | flush fh => exact consistent_of_keeps (Handling.flushHandle fh)
  | release fh => exact consistent_releaseHandle fh
  | discard fh => exact .liftM (consistent_removeHandle fh)
  | mkdir path => exact consistent_of_keeps (keeps_executeMkdir (fun _ => trivial) path)
  | mknod path mode => exact consistent_ignore (consistent_executeMknod path mode)
  | unlink path =>
      exact consistent_of_keeps (keeps_executeUnlink (fun _ => trivial)
        (fun _ _ h => h.keepsHandles) (fun _ _ => rfl) path)
  | rename fromPath toPath flags => exact consistent_executeRename fromPath toPath flags
  | allocateForPath path kind =>
      exact consistent_of_keeps (keeps_ignore (.liftM
        (keeps_allocateForPath look (fun _ _ => rfl) path kind)))

end Handling

end EventFs.Fuse
