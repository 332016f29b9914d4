import EventFs.Fuse.HandleSteps

/-!
# Behind a shut gate

While a write waits in the queue the gate is shut. An operation then only looks at the
backend, and one that would change a file is refused.
-/

namespace EventFs.Fuse

open Library Protocol Transport Program

variable {α β : Type}

/-! ## Any operation -/

/-- The operations that commit, make, remove or rename a file. -/
def Operation.Gated : Operation → Prop
  | .truncatePath _ | .commit _ | .release _ | .mkdir _ | .mknod _ _ | .unlink _
  | .rename _ _ _ => True
  | _ => False

section Ungated

variable [Serde] [Rendering] {A : Access io}
    {R : Mount → Mount → Prop} [Std.Refl R] [IsTrans Mount R]

omit [Serde] [Rendering] in
theorem keeps_ignore {p : Runtime α} (h : Keeps A R p.run) : Keeps A R (ignore p).run :=
  .andThen h fun _ => .pure _

omit [Std.Refl R] in
theorem keeps_allocateForPath (look : Looking A R)
    (hPaths : ∀ mount paths, R mount { mount with paths }) (path : MountPath) (kind : FileType) :
    Keeps A R (allocateForPath path kind) :=
  .bind (look.clearStalePath path) fun _ mount => hPaths mount _

/-- The other operations only look, and change the handles and the counters. -/
theorem keeps_ungated (hold : Handling A R)
    (hPaths : ∀ mount paths, R mount { mount with paths }) {operation : Operation}
    (hUngated : ¬ operation.Gated) : Keeps A R operation.code.run := by
  cases operation with
  | stat path => exact keeps_ignore (hold.attr path)
  | read path => exact keeps_ignore (hold.readBytes path)
  | readHandle fh path => exact keeps_ignore (hold.readBytesForHandle fh path)
  | list path => exact keeps_ignore (hold.directoryEntries path)
  | openFile path writable truncate create =>
      exact keeps_ignore (hold.openHandle path writable truncate create)
  | createdHandleAttr fh path => exact keeps_ignore (hold.createdHandleAttr fh path)
  | writableHandle rawHandle path => exact keeps_ignore (hold.writableHandle rawHandle path)
  | write fh offset data => exact keeps_ignore (hold.writeToHandleBuffer fh offset data)
  | truncateHandle fh => exact hold.stageTruncate fh
  | flush fh => exact Handling.flushHandle fh
  | discard fh => exact .liftM (hold.removeHandle fh)
  | allocateForPath path kind =>
      exact keeps_ignore (.liftM (keeps_allocateForPath hold.toLooking hPaths path kind))
  | _ => exact absurd trivial hUngated

end Ungated

/-! ## Behind a shut gate -/

/-- Only looks, and leaves the queue and the gate as they are. -/
structure Looked (mount : Mount) (log : Log io) (mount' : Mount) : Prop where
  calls : ∀ event ∈ log, Observing event.1
  replay : SameReplay mount mount'

def Failed (result : Except Errno α) : Prop := ∃ errno, result = .error errno

theorem Looked.nil (mount : Mount) : Looked mount [] mount := ⟨List.forall_mem_nil _, rfl⟩

theorem Looked.append {mount between mount' : Mount} {first second : Log io}
    (h : Looked mount first between) (h' : Looked between second mount') :
    Looked mount (first ++ second) mount' where
  calls := by
    intro event hEvent
    exact (List.mem_append.mp hEvent).elim (h.calls event) (h'.calls event)
  replay := trans_of SameReplay h.replay h'.replay

theorem Logs.looked {mount mount' : Mount} {log : Log io} {p : RuntimeM α} {a : α}
    (hKeeps : Keeps looks SameReplay p) (h : Logs p mount log a mount') : Looked mount log mount' :=
  have hEnd := h.of_keeps hKeeps fun _ _ => trivial
  ⟨hEnd.1, hEnd.2⟩

/-- The handle holds a change that a commit sends. -/
structure Handle.Unsent (handle : Handle) : Prop where
  writable : handle.writable = true
  dirty : handle.dirty = true
  committed : handle.committed = false

def Mount.Shut (mount : Mount) : Prop := mount.replay.gate.acceptingWrites = false

theorem Looked.shut {mount mount' : Mount} {log : Log io} (h : Looked mount log mount')
    (hShut : mount.Shut) : mount'.Shut := by
  have hReplay : mount'.replay = mount.replay := h.replay
  rw [Mount.Shut, hReplay]
  exact hShut

/-- Behind a shut gate the code only looks, and fails. -/
def Refuses (p : Runtime α) : Prop :=
  ∀ ⦃mount log result mount'⦄, mount.Shut → Logs p.run mount log result mount' →
    Looked mount log mount' ∧ Failed result

namespace Refuses

theorem pastGate {f : Unit → Runtime α} : Refuses (ensureWritesAllowed >>= f) := by
  intro mount log result mount' hShut h
  rw [Mount.Shut] at hShut
  rcases h.of_andThen with ⟨errno, rfl, hGate⟩ | ⟨_, _, _, _, rfl, hGate, -⟩
  · obtain ⟨rfl, rfl, -⟩ := hGate.of_ensureWritesAllowed
    exact ⟨.nil _, errno, rfl⟩
  · obtain ⟨-, -, hOk⟩ := hGate.of_ensureWritesAllowed
    simp [hShut] at hOk

theorem after {p : Runtime α} {f : α → Runtime β} (hFirst : Keeps looks SameReplay p.run)
    (hSecond : ∀ a, Refuses (f a)) : Refuses (p >>= f) := by
  intro mount log result mount' hShut h
  rcases h.of_andThen with ⟨errno, rfl, hFailed⟩ | ⟨_, _, a, _, rfl, hDone, hRest⟩
  · exact ⟨hFailed.looked hFirst, errno, rfl⟩
  · have hLooked := hDone.looked hFirst
    obtain ⟨hRestLooked, hResult⟩ := hSecond a (hLooked.shut hShut) hRest
    exact ⟨hLooked.append hRestLooked, hResult⟩

theorem first {p : Runtime α} {f : α → Runtime β} (h : Refuses p) : Refuses (p >>= f) := by
  intro mount log result mount' hShut hLogs
  rcases hLogs.of_andThen with ⟨errno, rfl, hFailed⟩ | ⟨_, _, a, _, rfl, hDone, -⟩
  · exact ⟨(h hShut hFailed).1, errno, rfl⟩
  · obtain ⟨-, errno, hOk⟩ := h hShut hDone
    cases hOk

theorem throw (errno : Errno) : Refuses (MonadExcept.throw errno : Runtime α) := by
  intro mount log result mount' hShut h
  obtain ⟨rfl, rfl, rfl⟩ := h.of_throw
  exact ⟨.nil _, errno, rfl⟩

theorem whenE {c : Prop} [Decidable c] {p q : Runtime α} (hThen : Refuses p) (hElse : Refuses q) :
    Refuses (if c then p else q) := by
  split
  · exact hThen
  · exact hElse

end Refuses

section Shut

variable [Serde] [Rendering]

theorem handling_looks : Handling looks SameReplay := handling_sameReplay observes_looks

theorem refuses_writeToHandleBuffer (fh : Nat) (offset : Int) (data : Bytes) :
    Refuses (writeToHandleBuffer fh offset data) :=
  .whenE (.throw _) (.after (handling_looks.refreshedSeed fh) fun _ => .pastGate)

theorem refuses_stageTruncate (fh : Nat) : Refuses (stageTruncate fh) := by
  refine .after (.liftM (Handling.getHandle fh)) ?_
  intro handle
  cases handle with
  | none => exact .throw _
  | some handle =>
      exact .whenE (.throw _) (.after (handling_looks.refreshedSeed fh) fun _ => .pastGate)

theorem refuses_truncatePath (path : MountPath) : Refuses (truncatePath path) := by
  refine .after (.andThen (Looking.writeMode path) fun _ => .whenE (.throw _) (.pure _)) ?_
  intro _
  exact .after (.liftM handling_looks.nextCommitSeed) fun _ => .pastGate

/-- A commit sends what a handle holds, unless there is nothing to send. -/
theorem Logs.of_commitHandle_shut {mount mount' : Mount} {fh : Nat} {log : Log io}
    {result : Except Errno Unit} (hShut : mount.Shut)
    (h : Logs (commitHandle fh).run mount log result mount') :
    Looked mount log mount' ∧
      ∀ handle, mount.handles[fh]? = some handle → handle.Unsent → Failed result := by
  have hRest := h.of_getHandle_andThen
  cases hFound : mount.handles[fh]? with
  | none =>
      rw [hFound] at hRest
      obtain ⟨rfl, rfl, rfl⟩ := hRest.of_pure
      refine ⟨.nil _, ?_⟩
      intro handle hHandle
      cases hHandle
  | some handle =>
      rw [hFound] at hRest
      dsimp only at hRest
      split at hRest
      · next hClean =>
        obtain ⟨rfl, rfl, rfl⟩ := hRest.of_pure
        refine ⟨.nil _, ?_⟩
        rintro _ ⟨⟩ hUnsent
        simp [hUnsent.writable, hUnsent.dirty, hUnsent.committed] at hClean
      · have hRefused : Refuses (commitMountPathWithSeed handle.path (handleCommitBytes handle)
            handle.commitSeed) := .pastGate
        obtain ⟨hLooked, hFailed⟩ := hRefused.first hShut hRest
        exact ⟨hLooked, fun _ _ _ => hFailed⟩

theorem Logs.of_releaseHandle_shut {mount mount' : Mount} {fh : Nat} {log : Log io}
    {result : Except Errno Unit} (hShut : mount.Shut)
    (h : Logs (releaseHandle fh).run mount log result mount') :
    Looked mount log mount' ∧
      ∀ handle, mount.handles[fh]? = some handle → handle.Unsent → Failed result := by
  obtain ⟨_, _, committed, between, rfl, hCommit, hRest⟩ := h.of_liftM_andThen
  obtain ⟨_, _, _, _, rfl, hRemove, hEnd⟩ := hRest.of_liftM_andThen
  obtain ⟨rfl, rfl⟩ := hRemove.of_modify
  obtain ⟨rfl, rfl, rfl⟩ := hEnd.of_liftErrno
  obtain ⟨hLooked, hFailed⟩ := hCommit.of_commitHandle_shut hShut
  exact ⟨hLooked.append ⟨List.forall_mem_nil _, rfl⟩, hFailed⟩

end Shut

end EventFs.Fuse
