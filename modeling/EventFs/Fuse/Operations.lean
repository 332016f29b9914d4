import EventFs.Fuse.Filesystem
import EventFs.Fuse.Looking

/-!
# Runs of a mount

The methods of `MountRuntime` and the one method of `JetStreamFuse` that changes the
inode table, as one type of operations. A run is a sequence of operations, unmounts and
mounts on one backend and one queue directory. `Leads` states what an operation leads to
however its calls are answered.
-/

namespace EventFs.Fuse

open Library Protocol Transport Program

inductive Operation
  | stat (path : MountPath)
  | read (path : MountPath)
  | readHandle (fh : Nat) (path : MountPath)
  | list (path : MountPath)
  | openFile (path : MountPath) (writable truncate create : Bool)
  | createdHandleAttr (fh : Nat) (path : MountPath)
  | writableHandle (rawHandle : Nat) (path : MountPath)
  | write (fh : Nat) (offset : Int) (data : Bytes)
  | truncateHandle (fh : Nat)
  | truncatePath (path : MountPath)
  | commit (fh : Nat)
  | flush (fh : Nat)
  | release (fh : Nat)
  | discard (fh : Nat)
  | mkdir (path : MountPath)
  | mknod (path : MountPath) (mode : Nat)
  | unlink (path : MountPath)
  | rename (fromPath toPath : MountPath) (flags : Nat)
  | allocateForPath (path : MountPath) (kind : FileType)

/-- Run a step for what it does. -/
def ignore {α : Type} (step : Runtime α) : Runtime Unit := do
  let _ ← step

def Operation.code [Serde] [Rendering] : Operation → Runtime Unit
  | .stat path => ignore (attr path)
  | .read path => ignore (readBytes path)
  | .readHandle fh path => ignore (readBytesForHandle fh path)
  | .list path => ignore (directoryEntries path)
  | .openFile path writable truncate create => ignore (openHandle path writable truncate create)
  | .createdHandleAttr fh path => ignore (Fuse.createdHandleAttr fh path)
  | .writableHandle rawHandle path => ignore (Fuse.writableHandle rawHandle path)
  | .write fh offset data => ignore (writeToHandleBuffer fh offset data)
  | .truncateHandle fh => stageTruncate fh
  | .truncatePath path => Fuse.truncatePath path
  | .commit fh => commitHandle fh
  | .flush fh => flushHandle fh
  | .release fh => releaseHandle fh
  | .discard fh => discardHandle fh
  | .mkdir path => executeMkdir path
  | .mknod path mode => ignore (executeMknod path mode)
  | .unlink path => executeUnlink path
  | .rename fromPath toPath flags => executeRename fromPath toPath flags
  | .allocateForPath path kind => ignore (Fuse.allocateForPath path kind)

/-! ## What code leads to -/

section Leads

variable {σ α β : Type} {B : Behaviour io σ}

/-- From `P`, code that returns `a` does so in `Q a`. -/
def Leads (B : Behaviour io σ) (P : Mount → σ → Prop) (p : RuntimeM α)
    (Q : α → Mount → σ → Prop) : Prop :=
  ∀ ⦃mount world a mount' world'⦄, P mount world →
    Run B Alone (p.run mount) world (some (a, mount')) world' → Q a mount' world'

namespace Leads

variable {P : Mount → σ → Prop}

theorem modify {f : Mount → Mount} {Q : Unit → Mount → σ → Prop}
    (h : ∀ mount world, P mount world → Q () (f mount) world) :
    Leads B P (modify f : RuntimeM Unit) Q := by
  intro mount world a mount' world' hP hRun
  obtain ⟨hResult, rfl⟩ := hRun.of_ret
  cases hResult
  exact h mount world' hP

theorem pure {a : α} {Q : α → Mount → σ → Prop}
    (h : ∀ mount world, P mount world → Q a mount world) :
    Leads B P (Pure.pure a : RuntimeM α) Q := by
  intro mount world b mount' world' hP hRun
  obtain ⟨hResult, rfl⟩ := hRun.of_ret
  cases hResult
  exact h _ _ hP

theorem get {Q : Mount → Mount → σ → Prop}
    (h : ∀ mount world, P mount world → Q mount mount world) :
    Leads B P (MonadState.get : RuntimeM Mount) Q := by
  intro mount world b mount' world' hP hRun
  obtain ⟨hResult, rfl⟩ := hRun.of_ret
  cases hResult
  exact h _ _ hP

theorem bind {p : RuntimeM α} {f : α → RuntimeM β} {Q : β → Mount → σ → Prop}
    (R : α → Mount → σ → Prop) (hFirst : Leads B P p R) (hSecond : ∀ a, Leads B (R a) (f a) Q) :
    Leads B P (p >>= f) Q := by
  intro mount world b mount' world' hP hRun
  rw [StateT.run_bind] at hRun
  obtain ⟨⟨a, between⟩, world'', hFirstRun, hSecondRun⟩ := hRun.bind_some
  exact hSecond a (hFirst hP hFirstRun) hSecondRun

theorem weaken {P' : Mount → σ → Prop} {p : RuntimeM α} {Q Q' : α → Mount → σ → Prop}
    (h : Leads B P p Q) (hP : ∀ mount world, P' mount world → P mount world)
    (hQ : ∀ a mount world, Q a mount world → Q' a mount world) : Leads B P' p Q' := by
  intro mount world a mount' world' hStart hRun
  exact hQ a mount' world' (h (hP mount world hStart) hRun)

/-- Nothing can be said of code that is not reached. -/
theorem absurd {p : RuntimeM α} {Q : α → Mount → σ → Prop} (h : ∀ mount world, ¬ P mount world) :
    Leads B P p Q := fun mount world _ _ _ hP => (h mount world hP).elim

/-- A part of the precondition that does not depend on the state. -/
theorem assume {φ : Prop} {p : RuntimeM α} {Q : α → Mount → σ → Prop} (h : φ → Leads B P p Q) :
    Leads B (fun mount world => P mount world ∧ φ) p Q :=
  fun _ _ _ _ _ hP hRun => h hP.2 hP.1 hRun

/-- Code that acts on the world alone. -/
theorem stateLift {p : Program io α} {Q : α → Mount → σ → Prop}
    (h : ∀ ⦃mount world a world'⦄, P mount world → Run B Alone p world (some a) world' →
      Q a mount world') : Leads B P (StateT.lift p : RuntimeM α) Q := by
  intro mount world a mount' world' hP hRun
  have hBind : Run B Alone (p >>= fun a => Pure.pure (a, mount)) world (some (a, mount')) world' :=
    hRun
  obtain ⟨b, world'', hFirst, hEnd⟩ := hBind.bind_some
  obtain ⟨hResult, rfl⟩ := hEnd.of_ret
  cases hResult
  exact h hP hFirst

theorem request {call : StorageCall} {Q : TransportResult call.Value → Mount → σ → Prop}
    (h : ∀ ⦃mount world reply world'⦄, P mount world → B world (.store call) reply world' →
      Q reply mount world') : Leads B P (request call) Q := by
  refine stateLift ?_
  intro mount world reply world' hP hRun
  obtain ⟨answer, world'', hCall, hEnd⟩ := hRun.of_call
  obtain ⟨rfl, rfl⟩ := hEnd.of_ret
  exact h hP hCall

/-- What `Keeps` says, for calls that keep the world as it is for `P`. -/
theorem of_keeps {A : σ → Access io} {R : σ → Mount → Mount → Prop} {p : RuntimeM α}
    {J : σ → σ → Prop} (h : ∀ world, Keeps (A world) (R world) p)
    (hStart : ∀ world, J world world)
    (hCall : ∀ ⦃origin c world r world'⦄, (A origin).issue c → J origin world →
      B world c r world' → J origin world' ∧ (A origin).answer c r)
    {Q : α → Mount → σ → Prop}
    (hEnd : ∀ ⦃a mount mount' world world'⦄, P mount world → R world mount mount' →
      J world world' → Q a mount' world') : Leads B P p Q := by
  intro mount world a mount' world' hP hRun
  obtain ⟨hWorld, hMount⟩ := (h world mount).run (@hCall world) (hStart world) hRun
  exact hEnd hP hMount hWorld

/-! ## Code that may fail -/

theorem andThen {p : Runtime α} {f : α → Runtime β} {Q : Except Errno β → Mount → σ → Prop}
    (R : α → Mount → σ → Prop)
    (hFirst : Leads B P p.run fun result mount world =>
      match result with
      | .ok a => R a mount world
      | .error errno => Q (.error errno) mount world)
    (hSecond : ∀ a, Leads B (R a) (f a).run Q) : Leads B P (p >>= f).run Q := by
  rw [ExceptT.run_bind]
  refine .bind _ hFirst ?_
  intro result
  cases result with
  | ok a => exact hSecond a
  | error errno => exact .pure fun _ _ h => h

/-- Both parts lead to the same, however the first one ends. -/
theorem andThenSame {p : Runtime α} {f : α → Runtime β} {Q : Mount → σ → Prop}
    (hFirst : Leads B P p.run fun _ => Q) (hSecond : ∀ a, Leads B Q (f a).run fun _ => Q) :
    Leads B P (p >>= f).run fun _ => Q := by
  refine .andThen (fun _ => Q) (hFirst.weaken (fun _ _ h => h) ?_) hSecond
  intro result mount world h
  cases result <;> exact h

theorem throw {errno : Errno} {Q : Except Errno α → Mount → σ → Prop}
    (h : ∀ mount world, P mount world → Q (.error errno) mount world) :
    Leads B P (MonadExcept.throw errno : Runtime α).run Q := .pure h

theorem whenE {c : Prop} [Decidable c] {p q : Runtime α} {Q : Except Errno α → Mount → σ → Prop}
    (hThen : c → Leads B P p.run Q) (hElse : ¬ c → Leads B P q.run Q) :
    Leads B P (if c then p else q).run Q := by
  split
  · next h => exact hThen h
  · next h => exact hElse h

theorem liftM {p : RuntimeM α} {Q : Except Errno α → Mount → σ → Prop}
    (h : Leads B P p fun a => Q (.ok a)) : Leads B P (liftM p : Runtime α).run Q := by
  show Leads B P (ExceptT.lift p : Runtime α).run Q
  rw [ExceptT.run_lift, map_eq_pure_bind]
  exact .bind _ h fun _ => .pure fun _ _ h => h

theorem liftErrno {result : Except Errno α} {Q : Except Errno α → Mount → σ → Prop}
    (h : ∀ mount world, P mount world → Q result mount world) :
    Leads B P (Fuse.liftErrno result).run Q := by
  cases result with
  | ok a => exact .pure h
  | error errno => exact .throw h

theorem attempt {p : Runtime α} {Q : Except Errno (Except Errno α) → Mount → σ → Prop}
    (h : Leads B P p.run fun result => Q (.ok result)) : Leads B P (attempt p).run Q := .liftM h

end Leads

end Leads

/-! ## Sessions -/

section Sessions

variable {σ : Type} [Serde] [Rendering]

/-- The mount, if one is there, and the world it acts on. -/
structure Session (σ : Type) where
  mount : Option Mount
  world : World σ

inductive Session.Step (B : Behaviour io (World σ)) : Session σ → Session σ → Prop
  | operate {mount mount' : Mount} {world world' : World σ} {operation : Operation}
      {result : Except Errno Unit}
      (hRun : Run B Alone (operation.code.run.run mount) world (some (result, mount')) world') :
      Session.Step B ⟨some mount, world⟩ ⟨some mount', world'⟩
  | unmount (mount : Mount) (world : World σ) : Session.Step B ⟨some mount, world⟩ ⟨none, world⟩
  | remount {mount : Mount} {world world' : World σ} {capacity mountInstance : Nat}
      {mountName : Str}
      (hRun : Run B Alone (openMount capacity mountName mountInstance).run world
        (some (.ok mount)) world') : Session.Step B ⟨none, world⟩ ⟨some mount, world'⟩
  | refused {world world' : World σ} {capacity mountInstance : Nat} {mountName : Str}
      {err : TransportError}
      (hRun : Run B Alone (openMount capacity mountName mountInstance).run world
        (some (.error err)) world') : Session.Step B ⟨none, world⟩ ⟨none, world'⟩

end Sessions

end EventFs.Fuse
