import EventFs.Transport.ReplayEval
import EventFs.Fuse.Projection

/-!
# Running the code of a mount

`run` and `exec` run code of the mount against a handler for its calls. The result is
the answer, the mount after it and the world after it.
-/

namespace EventFs.Fuse

open Library Protocol Transport Program

variable {σ α β : Type} (handle : Handler io σ)

def run (p : RuntimeM α) (mount : Mount) (world : σ) : α × Mount × σ :=
  ((eval handle (p.run mount) world).1.1, (eval handle (p.run mount) world).1.2,
    (eval handle (p.run mount) world).2)

def exec (p : Runtime α) (mount : Mount) (world : σ) : Except Errno α × Mount × σ :=
  run handle p.run mount world

variable {handle} {mount : Mount} {world : σ}

/-! ## Code that cannot fail -/

@[simp] theorem run_pure (a : α) :
    run handle (pure a : RuntimeM α) mount world = (a, mount, world) := rfl

@[simp] theorem run_bind (p : RuntimeM α) (f : α → RuntimeM β) :
    run handle (p >>= f) mount world =
      run handle (f (run handle p mount world).1) (run handle p mount world).2.1
        (run handle p mount world).2.2 := by
  simp only [run, StateT.run_bind, eval_bind]

@[simp] theorem run_map (p : RuntimeM α) (f : α → β) :
    run handle (f <$> p) mount world =
      (f (run handle p mount world).1, (run handle p mount world).2) := by
  rw [map_eq_pure_bind, run_bind, run_pure]

@[simp] theorem run_get : run handle (get : RuntimeM Mount) mount world = (mount, mount, world) :=
  rfl

@[simp] theorem run_modify (f : Mount → Mount) :
    run handle (modify f : RuntimeM Unit) mount world = ((), f mount, world) := rfl

@[simp] theorem run_stateLift (p : Program io α) :
    run handle (StateT.lift p : RuntimeM α) mount world =
      ((eval handle p world).1, mount, (eval handle p world).2) := by
  have hLift : (StateT.lift p : RuntimeM α).run mount = p >>= fun a => pure (a, mount) := rfl
  rw [run, hLift, eval_bind]
  rfl

@[simp] theorem run_request (call : StorageCall) :
    run handle (request call) mount world =
      ((handle world (.store call)).1, mount, (handle world (.store call)).2) := rfl

/-! ## Code that may fail -/

@[simp] theorem exec_pure (a : α) :
    exec handle (pure a : Runtime α) mount world = (.ok a, mount, world) := rfl

@[simp] theorem exec_throw (errno : Errno) :
    exec handle (throw errno : Runtime α) mount world = (.error errno, mount, world) := rfl

theorem exec_bind (p : Runtime α) (f : α → Runtime β) :
    exec handle (p >>= f) mount world =
      match exec handle p mount world with
      | (.ok a, mount, world) => exec handle (f a) mount world
      | (.error errno, mount, world) => (.error errno, mount, world) := by
  rw [exec, ExceptT.run_bind, run_bind, exec]
  generalize run handle p.run mount world = result
  obtain ⟨answer, mount', world'⟩ := result
  cases answer <;> rfl

@[simp] theorem exec_lift (p : RuntimeM α) :
    exec handle (ExceptT.lift p : Runtime α) mount world =
      (.ok (run handle p mount world).1, (run handle p mount world).2) := by
  rw [exec, ExceptT.run_lift, run_map]

@[simp] theorem exec_liftM (p : RuntimeM α) :
    exec handle (liftM p : Runtime α) mount world =
      (.ok (run handle p mount world).1, (run handle p mount world).2) := exec_lift p

@[simp] theorem exec_get :
    exec handle (get : Runtime Mount) mount world = (.ok mount, mount, world) := rfl

@[simp] theorem exec_attempt (p : Runtime α) :
    exec handle (attempt p) mount world =
      (.ok (exec handle p mount world).1, (exec handle p mount world).2) := exec_lift p.run

@[simp] theorem exec_liftErrno (result : Except Errno α) :
    exec handle (liftErrno result) mount world = (result, mount, world) := by
  cases result <;> rfl

@[simp] theorem exec_requestIo (call : StorageCall) :
    exec handle (requestIo call) mount world =
      ((handle world (.store call)).1.mapError ioError, mount, (handle world (.store call)).2) := by
  rw [requestIo, exec_bind, exec_liftM, run_request]
  cases hReply : (handle world (.store call)).1 <;> simp [Except.mapError]

/-! ## Reading with nothing pending -/

section Reading

variable [Serde] [Rendering] {path : MountPath} {parsed : JetStreamPath}

/-- The queue has nothing to say about the path, and it is not cached. -/
structure NothingPending (mount : Mount) (path : MountPath) : Prop where
  notDeleted : QueuedOverlay.latestDeleteCovers mount.replay.pendingOverlays path = false
  noValue : QueuedOverlay.wholeValueSnapshot mount.replay.pendingOverlays path = none
  noLines : QueuedOverlay.jsonlEntries mount.replay.pendingOverlays path = []
  notCached : mount.cache.get path.asStr = none

omit [Rendering] in
theorem exec_queuedJsonlSnapshot_none (h : NothingPending mount path) :
    exec handle (queuedJsonlSnapshot path parsed) mount world = (.ok none, mount, world) := by
  have hFacts : run handle pendingFacts mount world =
      (mount.replay.pendingOverlays, mount, world) := rfl
  rw [queuedJsonlSnapshot, exec_bind, exec_liftM, hFacts]
  simp only [h.noLines]
  rfl

/-- A read goes on to the storage. -/
theorem exec_readSnapshot_stored (h : NothingPending mount path) :
    exec handle (readSnapshot path parsed) mount world = exec handle (do
      if let .streamSubject stream subject := parsed then
        requireStream stream
        if !(← streamSubjectExists stream subject.asStr) then
          throw .notFound
      readAction path parsed (← liftErrno (planOrErrno .read parsed))) mount world := by
  have hFacts : run handle pendingFacts mount world =
      (mount.replay.pendingOverlays, mount, world) := rfl
  rw [readSnapshot, exec_bind, exec_liftM, hFacts]
  simp only [h.notDeleted, h.noValue, Bool.false_eq_true, if_false]
  rw [exec_bind, exec_queuedJsonlSnapshot_none h]
  simp only
  rw [exec_bind, exec_get]
  have hCache := h.notCached
  dsimp only
  generalize mount.cache.get path.asStr = entry at hCache ⊢
  subst hCache
  rfl

end Reading

/-! ## Looking at the in-memory storage -/

section Memory

variable [Serde] {w : World MemoryStorage}

theorem run_request_reads {call : StorageCall} (hReads : call.reads = true) :
    run faultless (request call) mount w = ((MemoryStorage.handle w.store call).1, mount, w) := by
  rw [run_request]
  show (_, mount, { w with store := (MemoryStorage.handle w.store call).2 }) = _
  rw [MemoryStorage.handle_reads hReads]
  rfl

theorem exec_requestIo_reads {call : StorageCall} (hReads : call.reads = true) :
    exec faultless (requestIo call) mount w =
      ((MemoryStorage.handle w.store call).1.mapError ioError, mount, w) := by
  rw [exec_requestIo]
  show (_, mount, { w with store := (MemoryStorage.handle w.store call).2 }) = _
  rw [MemoryStorage.handle_reads hReads]
  rfl

@[simp] theorem exec_kvGet (bucket key : Str) :
    exec faultless (requestIo (.kvGet bucket key)) mount w =
      (.ok w.store.kv[(bucket, key)]?, mount, w) := exec_requestIo_reads rfl

@[simp] theorem exec_objectGet (bucket name : Str) :
    exec faultless (requestIo (.objectGet bucket name)) mount w =
      (.ok w.store.objects[(bucket, name)]?, mount, w) := exec_requestIo_reads rfl

end Memory

end EventFs.Fuse
