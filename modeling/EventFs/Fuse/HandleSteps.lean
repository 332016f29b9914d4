import EventFs.Fuse.CommitLog

/-!
# The steps of an open handle

What opening, writing, truncating, committing and reading do to a handle whose file is
kept as a whole value. Each step either changes the handle as it should or leaves it
alone; only a commit of a dirty handle issues calls.
-/

namespace EventFs.Fuse

open Library Protocol Transport Program

variable {mount mount' : Mount} {log : Log io} {fh : Nat} {handle : Handle}

/-! ## Commit seeds -/

/-- The seed with this number. -/
def Mount.seedText (mount : Mount) (id : Nat) : Str :=
  mount.mountName ++ ':' :: Text.decimal mount.mountInstance ++ ':' :: Text.decimal id

/-- The mount after a seed was drawn, or none was. -/
def Mount.draw (mount : Mount) (draws : Bool) : Mount :=
  if draws then { mount with nextCommitId := min (mount.nextCommitId + 1) u64Max } else mount

@[simp] theorem handles_draw (mount : Mount) (draws : Bool) :
    (mount.draw draws).handles = mount.handles := by cases draws <;> rfl

@[simp] theorem replay_draw (mount : Mount) (draws : Bool) :
    (mount.draw draws).replay = mount.replay := by cases draws <;> rfl

theorem seedText_injective {id id' : Nat} (h : mount.seedText id = mount.seedText id') :
    id = id' :=
  Text.decimal_injective (List.cons.inj (List.append_cancel_left h)).2

theorem Logs.of_nextCommitSeed {seed : Str} (h : Logs nextCommitSeed mount log seed mount') :
    log = [] ∧ seed = mount.seedText mount.nextCommitId ∧ mount' = mount.draw true := by
  obtain ⟨_, _, _, _, rfl, hGet, hRest⟩ := h.of_bind
  obtain ⟨rfl, rfl, rfl⟩ := hGet.of_get
  obtain ⟨_, _, _, _, rfl, hModify, hEnd⟩ := hRest.of_bind
  obtain ⟨rfl, rfl⟩ := hModify.of_modify
  obtain ⟨rfl, rfl, rfl⟩ := hEnd.of_pure
  exact ⟨rfl, rfl, rfl⟩

/-! ## Looking up and storing -/

theorem Logs.of_getHandle_andThen {α : Type} {f : Option Handle → Runtime α}
    {result : Except Errno α}
    (h : Logs (getHandle fh >>= f : Runtime α).run mount log result mount') :
    Logs (f mount.handles[fh]?).run mount log result mount' := by
  obtain ⟨_, _, _, _, rfl, hGet, hRest⟩ := h.of_liftM_andThen
  obtain ⟨_, _, _, _, rfl, hMount, hEnd⟩ := hGet.of_bind
  obtain ⟨rfl, rfl, rfl⟩ := hMount.of_get
  obtain ⟨rfl, rfl, rfl⟩ := hEnd.of_pure
  exact hRest

/-- The mount with this handle. -/
def Mount.store (mount : Mount) (fh : Nat) (handle : Handle) : Mount :=
  { mount with handles := mount.handles.insert fh handle }

theorem Logs.of_setHandle {a : Unit} (h : Logs (setHandle fh handle) mount log a mount') :
    log = [] ∧ mount' = mount.store fh handle := h.of_modify

theorem Logs.of_setHandle_andThen {α : Type} {f : Unit → Runtime α} {result : Except Errno α}
    (h : Logs (setHandle fh handle >>= f : Runtime α).run mount log result mount') :
    Logs (f ()).run (mount.store fh handle) log result mount' := by
  obtain ⟨_, _, _, _, rfl, hSet, hRest⟩ := h.of_liftM_andThen
  obtain ⟨rfl, rfl⟩ := hSet.of_setHandle
  exact hRest

/-- The mount has this handle now, after a seed was drawn or none was. -/
structure Holds (fh : Nat) (mount mount' : Mount) (draws : Bool) (handle : Handle) : Prop where
  handle : mount'.handles[fh]? = some handle
  nextCommitId : mount'.nextCommitId = (mount.draw draws).nextCommitId
  mountName : mount'.mountName = mount.mountName
  mountInstance : mount'.mountInstance = mount.mountInstance

theorem holds_draw (hHandle : mount.handles[fh]? = some handle) (draws : Bool) :
    Holds fh mount (mount.draw draws) draws handle where
  handle := by rw [handles_draw]; exact hHandle
  nextCommitId := rfl
  mountName := by cases draws <;> rfl
  mountInstance := by cases draws <;> rfl

theorem Holds.store {draws : Bool} (h : Holds fh mount mount' draws handle) (changed : Handle) :
    Holds fh mount (mount'.store fh changed) draws changed where
  handle := Std.ExtTreeMap.getElem?_insert_self
  nextCommitId := h.nextCommitId
  mountName := h.mountName
  mountInstance := h.mountInstance

/-! ## Staging a change -/

/-- The seed under which a change of the handle will be committed. -/
def Handle.refreshed (handle : Handle) (mount : Mount) : Handle :=
  { handle with
    commitSeed := if handle.committed then mount.seedText mount.nextCommitId
      else handle.commitSeed }

theorem Logs.of_refreshedSeed (hHandle : mount.handles[fh]? = some handle)
    {result : Except Errno (Option Str)}
    (h : Logs (refreshedSeed fh).run mount log result mount') :
    log = [] ∧ mount' = mount.draw handle.committed ∧
      result =
        .ok (if handle.committed then some (mount.seedText mount.nextCommitId) else none) := by
  have hRest := h.of_getHandle_andThen
  rw [hHandle] at hRest
  cases hCommitted : handle.committed with
  | false =>
      simp only [hCommitted, Bool.false_eq_true, if_false] at hRest ⊢
      obtain ⟨rfl, rfl, rfl⟩ := hRest.of_pure
      exact ⟨rfl, rfl, rfl⟩
  | true =>
      simp only [hCommitted, if_true] at hRest ⊢
      obtain ⟨_, _, _, _, rfl, hSeed, hEnd⟩ := hRest.of_liftM_andThen
      obtain ⟨rfl, rfl, rfl⟩ := hSeed.of_nextCommitSeed
      obtain ⟨rfl, rfl, rfl⟩ := hEnd.of_pure
      exact ⟨rfl, rfl, rfl⟩

/-- What is common to the changes of a handle: the seed is drawn, the gate is asked, and
the handle is looked up again. -/
theorem Logs.of_staging {α : Type} (hHandle : mount.handles[fh]? = some handle)
    {change : Option Str → Handle → Runtime α} {result : Except Errno α}
    (h : Logs (do
      let newCommitSeed ← refreshedSeed fh
      ensureWritesAllowed
      match ← getHandle fh with
      | none => throw .badFile
      | some handle => change newCommitSeed handle : Runtime α).run mount log result mount') :
    (log = [] ∧ result = .error .readOnly ∧ mount' = mount.draw handle.committed) ∨
      Logs (change (if handle.committed then some (mount.seedText mount.nextCommitId) else none)
        handle).run (mount.draw handle.committed) log result mount' := by
  rcases h.of_andThen with ⟨errno, -, hFailed⟩ | ⟨_, _, seed, _, rfl, hSeed, hGate⟩
  · obtain ⟨-, -, hOk⟩ := hFailed.of_refreshedSeed hHandle
    cases hOk
  obtain ⟨rfl, rfl, hSeedIs⟩ := hSeed.of_refreshedSeed hHandle
  rcases hGate.of_andThen with ⟨errno, rfl, hShut⟩ | ⟨_, _, _, _, rfl, hOpen, hLookup⟩
  · obtain ⟨rfl, rfl, hResult⟩ := hShut.of_ensureWritesAllowed
    refine Or.inl ⟨rfl, ?_, rfl⟩
    split at hResult
    · cases hResult
    · rw [Except.error.inj hResult]
  obtain ⟨rfl, rfl, -⟩ := hOpen.of_ensureWritesAllowed
  have hFound := hLookup.of_getHandle_andThen
  rw [handles_draw, hHandle, Except.ok.inj hSeedIs] at hFound
  exact Or.inr hFound

theorem getD_refreshed (handle : Handle) (mount : Mount) :
    ({ handle with
      commitSeed := (if handle.committed then some (mount.seedText mount.nextCommitId)
        else none).getD handle.commitSeed } : Handle) = handle.refreshed mount := by
  rw [Handle.refreshed]
  cases handle.committed <;> rfl

/-- A step that changes a writable handle or refuses to. -/
def Staged {α : Type} (fh : Nat) (mount mount' : Mount) (draws : Bool) (handle changed : Handle)
    (value : α) (result : Except Errno α) : Prop :=
  ((∃ errno, result = .error errno) ∧ Holds fh mount mount' draws handle) ∨
    result = .ok value ∧ handle.writable = true ∧ Holds fh mount mount' draws changed

/-! ## Writing and truncating -/

@[simp] theorem refreshed_writable (handle : Handle) (mount : Mount) :
    (handle.refreshed mount).writable = handle.writable := rfl

@[simp] theorem refreshed_mode (handle : Handle) (mount : Mount) :
    (handle.refreshed mount).mode = handle.mode := rfl

theorem refreshed_of_uncommitted (h : handle.committed = false) :
    handle.refreshed mount = handle := by
  obtain ⟨path, buffer, dirty, committed, writable, seed, mode, offset, created⟩ := handle
  obtain rfl : committed = false := h
  rfl

theorem uncommitted_of_readOnly (h : handle.committed = true → handle.writable = true)
    (hReadOnly : handle.writable = false) : handle.committed = false := by
  by_contra hCommitted
  rw [h (Bool.not_eq_false _ ▸ hCommitted)] at hReadOnly
  cases hReadOnly

/-- The handle after a write at an offset of a whole value. -/
def Handle.written (handle : Handle) (mount : Mount) (offset : Nat) (data : Bytes) : Handle :=
  { handle.refreshed mount with
    buffer := overwrite (padTo (offset + data.length) (padTo offset handle.buffer)) offset data
    dirty := true
    committed := false }

def Handle.truncated (handle : Handle) (mount : Mount) : Handle :=
  { handle.refreshed mount with buffer := [], baseOffset := 0, dirty := true, committed := false }

theorem Logs.of_writeToHandleBuffer (hHandle : mount.handles[fh]? = some handle)
    (hMode : handle.mode = .wholeValue)
    (hCommitted : handle.committed = true → handle.writable = true)
    {offset : Int} {data : Bytes} (hOffset : offset < 2 ^ 63) (hData : data.length < 2 ^ 63)
    {result : Except Errno Nat}
    (h : Logs (writeToHandleBuffer fh offset data).run mount log result mount') :
    log = [] ∧
      ((offset < 0 ∧ (∃ errno, result = .error errno) ∧ mount' = mount) ∨
        0 ≤ offset ∧ Staged fh mount mount' handle.committed handle
          (handle.written mount offset.toNat data) data.length result) := by
  unfold writeToHandleBuffer at h
  by_cases hNegative : offset < 0
  · rw [if_pos hNegative] at h
    obtain ⟨rfl, rfl, rfl⟩ := h.of_throw
    exact ⟨rfl, Or.inl ⟨hNegative, ⟨_, rfl⟩, rfl⟩⟩
  rw [if_neg hNegative] at h
  have hDrawn : Holds fh mount (mount.draw handle.committed) handle.committed handle :=
    holds_draw hHandle _
  rcases Logs.of_staging hHandle h with ⟨rfl, rfl, rfl⟩ | hChange
  · exact ⟨rfl, Or.inr ⟨Int.not_lt.mp hNegative, Or.inl ⟨⟨_, rfl⟩, hDrawn⟩⟩⟩
  rw [getD_refreshed] at hChange
  have hChange := hChange.of_setHandle_andThen
  have hStored := hDrawn.store (handle.refreshed mount)
  cases hWritable : handle.writable with
  | false =>
      have hRefused : (!(handle.refreshed mount).writable) = true := by simp [hWritable]
      rw [if_pos hRefused] at hChange
      obtain ⟨rfl, rfl, rfl⟩ := hChange.of_throw
      rw [refreshed_of_uncommitted (uncommitted_of_readOnly hCommitted hWritable)] at hStored ⊢
      exact ⟨rfl, Or.inr ⟨Int.not_lt.mp hNegative, Or.inl ⟨⟨_, rfl⟩, hStored⟩⟩⟩
  | true =>
      have hStart : (handle.refreshed mount).bufferStart offset.toNat = some offset.toNat := by
        rw [Handle.bufferStart, refreshed_mode, hMode]
      have hRoom : ¬ u64Max < offset.toNat + data.length := by
        rw [u64Max]
        omega
      have hAllowed : ¬ (!(handle.refreshed mount).writable) = true := by simp [hWritable]
      rw [if_neg hAllowed] at hChange
      simp only [hStart, hRoom, if_false] at hChange
      have hSet := hChange.of_setHandle_andThen
      obtain ⟨rfl, rfl, rfl⟩ := hSet.of_pure
      exact ⟨rfl, Or.inr ⟨Int.not_lt.mp hNegative, Or.inr ⟨rfl, hWritable, hStored.store _⟩⟩⟩

theorem Logs.of_stageTruncate (hHandle : mount.handles[fh]? = some handle)
    (hMode : handle.mode = .wholeValue)
    (hCommitted : handle.committed = true → handle.writable = true) {result : Except Errno Unit}
    (h : Logs (stageTruncate fh).run mount log result mount') :
    log = [] ∧
      Staged fh mount mount' handle.committed handle (handle.truncated mount) () result := by
  have hLookup := h.of_getHandle_andThen
  have hValue : ¬ handle.mode = .jsonLines := by
    rw [hMode]
    decide
  rw [hHandle] at hLookup
  have hStages := Logs.of_else hLookup hValue
  have hDrawn : Holds fh mount (mount.draw handle.committed) handle.committed handle :=
    holds_draw hHandle _
  rcases Logs.of_staging hHandle hStages with ⟨rfl, rfl, rfl⟩ | hChange
  · exact ⟨rfl, Or.inl ⟨⟨_, rfl⟩, hDrawn⟩⟩
  rw [getD_refreshed] at hChange
  have hChange := hChange.of_setHandle_andThen
  have hStored := hDrawn.store (handle.refreshed mount)
  cases hWritable : handle.writable with
  | false =>
      have hRefused : (!(handle.refreshed mount).writable) = true := by simp [hWritable]
      rw [if_pos hRefused] at hChange
      obtain ⟨rfl, rfl, rfl⟩ := hChange.of_throw
      rw [refreshed_of_uncommitted (uncommitted_of_readOnly hCommitted hWritable)] at hStored ⊢
      exact ⟨rfl, Or.inl ⟨⟨_, rfl⟩, hStored⟩⟩
  | true =>
      have hAllowed : ¬ (!(handle.refreshed mount).writable) = true := by simp [hWritable]
      rw [if_neg hAllowed] at hChange
      obtain ⟨_, rfl, hSet⟩ := hChange.of_liftM
      obtain ⟨rfl, rfl⟩ := hSet.of_setHandle
      have hDirty : ((handle.refreshed mount).mode == HandleMode.wholeValue) = true := by
        rw [refreshed_mode, hMode]
        rfl
      refine ⟨rfl, Or.inr ⟨rfl, hWritable, ?_⟩⟩
      rw [hDirty]
      exact hStored.store (handle.truncated mount)

/-! ## Flushing, committing and reading -/

theorem Logs.of_flushHandle (hHandle : mount.handles[fh]? = some handle)
    {result : Except Errno Unit} (h : Logs (flushHandle fh).run mount log result mount') :
    log = [] ∧ result = .ok () ∧ mount' = mount := by
  have hLookup := h.of_getHandle_andThen
  rw [hHandle] at hLookup
  exact hLookup.of_pure

section Commit

variable [Serde] [Rendering]

/-- A handle without a change is not committed. -/
theorem Logs.of_commitHandle_clean (hHandle : mount.handles[fh]? = some handle)
    (hClean : handle.dirty = false) {result : Except Errno Unit}
    (h : Logs (commitHandle fh).run mount log result mount') :
    log = [] ∧ result = .ok () ∧ mount' = mount := by
  have hLookup := h.of_getHandle_andThen
  rw [hHandle] at hLookup
  have hSkip : (!handle.writable || !handle.dirty || handle.committed) = true := by simp [hClean]
  simp only [hSkip, if_true] at hLookup
  exact hLookup.of_pure

theorem Logs.of_commitHandle_dirty (hHandle : mount.handles[fh]? = some handle)
    (hMode : handle.mode = .wholeValue) (hWritable : handle.writable = true)
    (hDirty : handle.dirty = true) (hCommitted : handle.committed = false)
    {result : Except Errno Unit} (h : Logs (commitHandle fh).run mount log result mount') :
    let bytes := handleCommitBytes handle
    let key := Rendering.idempotencyKey handle.path.asStr bytes handle.commitSeed
    Sends mount.replay.queue.entries bytes key log ∧
      (result = .ok () → Arrives mount.replay.queue.entries bytes key log) ∧
      Staged fh mount mount' false handle (handle.afterCommit .wholeValue bytes) () result := by
  intro bytes key
  have hLookup := h.of_getHandle_andThen
  rw [hHandle] at hLookup
  have hGoes : (!handle.writable || !handle.dirty || handle.committed) = false := by
    simp [hWritable, hDirty, hCommitted]
  simp only [hGoes, Bool.false_eq_true, if_false] at hLookup
  have hHolds {between : Mount} (hSame : SameHandles mount between) :
      Holds fh mount between false handle :=
    ⟨hSame.handles ▸ hHandle, hSame.nextCommitId, hSame.mountName, hSame.mountInstance⟩
  rcases hLookup.of_andThen with ⟨errno, rfl, hFailed⟩ | ⟨first, second, _, _, rfl, hDone, hUpdate⟩
  · obtain ⟨hSame, hSends, -⟩ := hFailed.of_commit
    exact ⟨hSends, nofun, Or.inl ⟨⟨errno, rfl⟩, hHolds hSame⟩⟩
  · obtain ⟨hSame, hSends, hArrives⟩ := hDone.of_commit
    have hFound := hUpdate.of_getHandle_andThen
    rw [hSame.handles, hHandle] at hFound
    obtain ⟨_, rfl, hSet⟩ := hFound.of_liftM
    obtain ⟨rfl, rfl⟩ := hSet.of_setHandle
    rw [List.append_nil]
    refine ⟨hSends, fun _ => hArrives rfl, Or.inr ⟨rfl, hWritable, ?_⟩⟩
    rw [hMode]
    exact (hHolds hSame).store _

/-- A dirty handle is read from its buffer. -/
theorem Logs.of_readBytesForHandle (hHandle : mount.handles[fh]? = some handle)
    (hMode : handle.mode = .wholeValue) (hDirty : handle.dirty = true) {parsed : JetStreamPath}
    (hParsed : parsePath handle.path = .ok parsed) {result : Except Errno Bytes}
    (h : Logs (readBytesForHandle fh handle.path).run mount log result mount') :
    log = [] ∧ result = .ok handle.buffer ∧ mount' = mount := by
  rcases h.of_liftErrno_andThen with ⟨errno, hError, -⟩ | ⟨_, -, hRead⟩
  · rw [hParsed] at hError
    cases hError
  · have hLookup := hRead.of_getHandle_andThen
    have hStaged : (some handle).filter (fun staged => staged.path == handle.path && staged.dirty) =
        some handle := by simp [hDirty]
    rw [hHandle, hStaged] at hLookup
    simp only [hMode] at hLookup
    exact hLookup.of_pure

/-! ## Opening -/

theorem looking_looks : Looking looks OnlyCaches :=
  .of_onlyCaches observes_looks fun _ _ h => h

/-- The next seed is the same. -/
structure SameSeeds (mount mount' : Mount) : Prop where
  nextCommitId : mount'.nextCommitId = mount.nextCommitId
  mountName : mount'.mountName = mount.mountName
  mountInstance : mount'.mountInstance = mount.mountInstance

/-- What a new handle starts from: nothing, or what the file is read as. -/
structure InitialState (path : MountPath) (writable truncate create : Bool) (buffer : Bytes)
    (stagedCreate : Option StagedCreate) : Prop where
  empty : (writable && !truncate && !create) = false → buffer = []
  read : (writable && !truncate && !create) = true → ∃ mount log mount',
    Logs (readBytes path).run mount log (.ok buffer) mount'
  created : stagedCreate.isSome = (writable && create)

theorem Logs.of_initialHandleState {path : MountPath} {writable truncate create : Bool}
    {buffer : Bytes} {baseOffset : Nat} {stagedCreate : Option StagedCreate}
    (h : Logs (initialHandleState path writable .wholeValue truncate create).run mount log
      (.ok (buffer, baseOffset, stagedCreate)) mount') :
    OnlyCaches mount mount' ∧ InitialState path writable truncate create buffer stagedCreate := by
  unfold initialHandleState at h
  cases writable with
  | false =>
      obtain ⟨rfl, hState, rfl⟩ := h.of_pure
      cases hState
      exact ⟨refl_of OnlyCaches mount', fun _ => rfl, nofun, rfl⟩
  | true =>
      cases create with
      | true =>
          rcases h.of_andThen with ⟨errno, hError, -⟩ | ⟨_, _, payload, _, rfl, hTarget, hEnd⟩
          · cases hError
          obtain ⟨-, hCaches⟩ := hTarget.of_looks (looking_looks.createTarget path)
          obtain ⟨rfl, hState, rfl⟩ := hEnd.of_pure
          cases hState
          refine ⟨hCaches, fun _ => rfl, ?_, rfl⟩
          cases truncate <;> nofun
      | false =>
          cases truncate with
          | true =>
              obtain ⟨rfl, hState, rfl⟩ := h.of_pure
              cases hState
              exact ⟨refl_of OnlyCaches mount', fun _ => rfl, nofun, rfl⟩
          | false =>
              rcases h.of_andThen with ⟨errno, hError, -⟩ | ⟨_, _, bytes, _, rfl, hRead, hEnd⟩
              · cases hError
              obtain ⟨-, hCaches⟩ := hRead.of_looks (looking_looks.readBytes path)
              obtain ⟨rfl, hState, rfl⟩ := hEnd.of_pure
              cases hState
              exact ⟨hCaches, nofun, fun _ => ⟨_, _, _, hRead⟩, rfl⟩

/-- A handle as it is built. -/
structure Built (path : MountPath) (writable truncate create : Bool) (mount mount' : Mount)
    (handle : Handle) : Prop where
  drawn : ∃ between, OnlyCaches mount between ∧ mount' = between.draw true
  samePath : handle.path = path
  sameWritable : handle.writable = writable
  dirty : handle.dirty = (writable && (truncate || create))
  committed : handle.committed = false
  seed : handle.commitSeed = mount.seedText mount.nextCommitId
  initial : InitialState path writable truncate create handle.buffer handle.stagedCreate

theorem Logs.of_build {path : MountPath} {writable truncate create : Bool} {mode : HandleMode}
    (h : Logs (do
      if truncate && mode == .jsonLines then
        throw .readOnly
      let (buffer, baseOffset, stagedCreate) ←
        initialHandleState path writable mode truncate create
      let commitSeed ← nextCommitSeed
      return {
        path, buffer, writable, commitSeed, mode, baseOffset, stagedCreate
        dirty := writable && (truncate || create)
        committed := false } : Runtime Handle).run mount log (.ok handle) mount')
    (hMode : handle.mode = .wholeValue) :
    Built path writable truncate create mount mount' handle := by
  by_cases hTruncate : (truncate && mode == .jsonLines) = true
  · rcases (h.of_then hTruncate).of_andThen with ⟨errno, hError, -⟩ | ⟨_, _, _, _, rfl, hThrow, -⟩
    · cases hError
    · obtain ⟨-, hOk, -⟩ := hThrow.of_throw
      cases hOk
  rcases (h.of_else hTruncate).of_andThen with ⟨errno, hError, -⟩ |
    ⟨_, _, ⟨buffer, baseOffset, stagedCreate⟩, between, rfl, hInitial, hSeed⟩
  · cases hError
  obtain ⟨_, _, seed, _, rfl, hDraw, hEnd⟩ := hSeed.of_liftM_andThen
  obtain ⟨rfl, rfl, rfl⟩ := hDraw.of_nextCommitSeed
  obtain ⟨rfl, hHandle, rfl⟩ := hEnd.of_pure
  obtain rfl := Except.ok.inj hHandle
  obtain rfl : mode = .wholeValue := hMode
  obtain ⟨hCaches, hInitial⟩ := hInitial.of_initialHandleState
  have hSame := hCaches.sameHandles
  refine ⟨⟨between, hCaches, rfl⟩, rfl, rfl, rfl, rfl, ?_, hInitial⟩
  show between.seedText between.nextCommitId = mount.seedText mount.nextCommitId
  rw [Mount.seedText, hSame.mountName, hSame.mountInstance, hSame.nextCommitId]
  rfl

theorem Logs.of_buildHandle {path : MountPath} {writable truncate create : Bool}
    (h : Logs (buildHandle path writable truncate create).run mount log (.ok handle) mount')
    (hMode : handle.mode = .wholeValue) :
    Built path writable truncate create mount mount' handle ∧
      (writable = true → ∃ parsed, parsePath path = .ok parsed) := by
  cases writable with
  | false =>
      rcases Logs.of_andThen h with ⟨errno, hError, -⟩ | ⟨_, _, mode, _, rfl, hKind, hBuild⟩
      · cases hError
      obtain ⟨rfl, -, rfl⟩ := hKind.of_pure
      exact ⟨hBuild.of_build hMode, nofun⟩
  | true =>
      rcases h.of_andThen with ⟨errno, hError, -⟩ | ⟨_, _, _, _, rfl, hGate, hRest⟩
      · cases hError
      obtain ⟨rfl, rfl, -⟩ := hGate.of_ensureWritesAllowed
      rcases Logs.of_andThen hRest with ⟨errno, hError, -⟩ | ⟨_, _, mode, _, rfl, hKind, hBuild⟩
      · cases hError
      rcases hKind.of_liftErrno_andThen with ⟨errno, -, hError, -⟩ | ⟨parsed, hParsed, hPlan⟩
      · cases hError
      rcases hPlan.of_liftErrno_andThen with ⟨errno, -, hError, -⟩ | ⟨action, -, hEnd⟩
      · cases hError
      obtain ⟨rfl, -, rfl⟩ := hEnd.of_pure
      exact ⟨hBuild.of_build hMode, fun _ => ⟨parsed, hParsed⟩⟩

/-- Opening builds a handle with the next seed, and gives it a number. -/
theorem Logs.of_openHandle {path : MountPath} {writable truncate create : Bool}
    (h : Logs (openHandle path writable truncate create).run mount log (.ok fh) mount')
    (hHandle : mount'.handles[fh]? = some handle) (hMode : handle.mode = .wholeValue) :
    Holds fh mount mount' true handle ∧
      (∃ numbered between, Built path writable truncate create numbered between handle ∧
        SameSeeds mount numbered) ∧
      (writable = true → ∃ parsed, parsePath path = .ok parsed) := by
  obtain ⟨_, _, _, _, rfl, hGet, hRest⟩ := h.of_liftM_andThen
  obtain ⟨rfl, rfl, rfl⟩ := hGet.of_get
  obtain ⟨_, _, _, _, rfl, hModify, hBuild⟩ := hRest.of_liftM_andThen
  obtain ⟨rfl, rfl⟩ := hModify.of_modify
  rcases hBuild.of_andThen with ⟨errno, hError, -⟩ | ⟨_, _, built, between, rfl, hBuilt, hStore⟩
  · cases hError
  obtain ⟨rfl, hFh, rfl⟩ := hStore.of_setHandle_andThen.of_pure
  obtain rfl := Except.ok.inj hFh
  obtain rfl : built = handle :=
    Option.some.inj (Std.ExtTreeMap.getElem?_insert_self.symm.trans hHandle)
  obtain ⟨hBuilt, hParsed⟩ := hBuilt.of_buildHandle hMode
  obtain ⟨looked, hLooked, rfl⟩ := hBuilt.drawn
  have hSame := hLooked.sameHandles
  refine ⟨⟨hHandle, ?_, hSame.mountName, hSame.mountInstance⟩, ⟨_, _, hBuilt, rfl, rfl, rfl⟩,
    hParsed⟩
  exact congrArg (fun id => min (id + 1) u64Max) hSame.nextCommitId

end Commit

end EventFs.Fuse
