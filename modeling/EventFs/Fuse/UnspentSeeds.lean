import EventFs.Fuse.DirtyHandles

/-!
# Seeds that have not been spent

Every handle has a commit seed of its own. A write spends the seed it is sent under, and no
seed is spent that a handle still waits to be committed with or that is still to be drawn.
So whatever is committed next has a seed that has not been spent.
-/

namespace EventFs.Fuse

open Library Protocol Transport Program

variable {α β : Type}

section Seeds

variable {S : Str → Prop} {mount mount' : Mount} {seed : Str} {fh : Nat} {handle other : Handle}

/-- The seeds that have been spent are not those that may still be used. -/
structure Unspent (S : Str → Prop) (mount : Mount) : Prop where
  later : ∀ id, mount.nextCommitId ≤ id → ¬ S (mount.seedText id)
  issued : ∀ (fh : Nat) (handle : Handle), mount.handles[fh]? = some handle →
    ∃ id < mount.nextCommitId, handle.commitSeed = mount.seedText id
  uncommitted : ∀ (fh : Nat) (handle : Handle), mount.handles[fh]? = some handle →
    handle.committed = false → ¬ S handle.commitSeed
  distinct : ∀ (fh fh' : Nat) (handle handle' : Handle), fh ≠ fh' →
    mount.handles[fh]? = some handle → mount.handles[fh']? = some handle' →
      handle.commitSeed ≠ handle'.commitSeed

/-- A seed that a handle may be stored with. -/
structure Reserved (S : Str → Prop) (fh : Nat) (mount : Mount) (seed : Str) : Prop extends
    Unspent S mount where
  unspent : ¬ S seed
  number : ∃ id < mount.nextCommitId, seed = mount.seedText id
  free : ∀ (fh' : Nat) (other : Handle), fh' ≠ fh → mount.handles[fh']? = some other →
    other.commitSeed ≠ seed

/-- The seeds spent once this one is, if it is one. -/
def Spend (S : Str → Prop) (spent : Option Str) (seed : Str) : Prop := S seed ∨ spent = some seed

theorem Unspent.mono {S' : Str → Prop} (h : Unspent S mount) (hS : ∀ seed, S' seed → S seed) :
    Unspent S' mount where
  later id hId hSpent := h.later id hId (hS _ hSpent)
  issued := h.issued
  uncommitted fh handle hHandle hCommitted hSpent :=
    h.uncommitted fh handle hHandle hCommitted (hS _ hSpent)
  distinct := h.distinct

theorem unspent_spend_none : Unspent (Spend S none) mount ↔ Unspent S mount := by
  refine ⟨fun h => h.mono fun seed hSeed => Or.inl hSeed, fun h => h.mono ?_⟩
  rintro seed (hSeed | hNone)
  · exact hSeed
  · cases hNone

theorem SameHandles.refl (mount : Mount) : SameHandles mount mount := ⟨rfl, rfl, rfl, rfl⟩

instance : Std.Refl SameHandles := ⟨SameHandles.refl⟩

instance : IsTrans Mount SameHandles := ⟨fun _ _ _ hFirst hSecond => hFirst.trans hSecond⟩

theorem SameHandles.seedText (h : SameHandles mount mount') : mount'.seedText = mount.seedText :=
  funext fun id => by rw [Mount.seedText, Mount.seedText, h.mountName, h.mountInstance]

theorem Unspent.same (h : Unspent S mount) (hSame : SameHandles mount mount') :
    Unspent S mount' where
  later := by
    rw [hSame.seedText, hSame.nextCommitId]
    exact h.later
  issued := by
    rw [hSame.seedText, hSame.nextCommitId, hSame.handles]
    exact h.issued
  uncommitted := by
    rw [hSame.handles]
    exact h.uncommitted
  distinct := by
    rw [hSame.handles]
    exact h.distinct

theorem Reserved.same (h : Reserved S fh mount seed) (hSame : SameHandles mount mount') :
    Reserved S fh mount' seed where
  toUnspent := h.toUnspent.same hSame
  unspent := h.unspent
  number := by
    rw [hSame.seedText, hSame.nextCommitId]
    exact h.number
  free := by
    rw [hSame.handles]
    exact h.free

/-- Two numbers name one seed only if they are the same. -/
theorem ne_of_number {id : Nat} (hId : mount.nextCommitId ≤ id)
    (hSeed : ∃ id < mount.nextCommitId, seed = mount.seedText id) : mount.seedText id ≠ seed := by
  obtain ⟨number, hNumber, rfl⟩ := hSeed
  intro hSame
  have hEq := seedText_injective hSame
  omega

theorem Unspent.draw (h : Unspent S mount) (hRoom : mount.nextCommitId < u64Max) (fh : Nat) :
    Reserved S fh (mount.draw true) (mount.seedText mount.nextCommitId) := by
  have hNext : (mount.draw true).nextCommitId = mount.nextCommitId + 1 :=
    Nat.min_eq_left hRoom
  refine ⟨⟨?_, ?_, h.uncommitted, h.distinct⟩, h.later _ le_rfl, ?_, ?_⟩
  · intro id hId
    rw [hNext] at hId
    exact h.later id (by omega)
  · intro fh handle hHandle
    obtain ⟨id, hId, hSeed⟩ := h.issued fh handle hHandle
    exact ⟨id, by omega, hSeed⟩
  · exact ⟨mount.nextCommitId, by omega, rfl⟩
  · intro fh handle _ hHandle hSame
    exact ne_of_number le_rfl (h.issued fh handle hHandle) hSame.symm

/-- A seed that has been drawn and belongs to no handle may be spent. -/
theorem Unspent.spend (h : Unspent S mount) (hRoom : mount.nextCommitId < u64Max) :
    Unspent (Spend S (some (mount.seedText mount.nextCommitId))) (mount.draw true) := by
  have hDrawn := h.draw hRoom 0
  refine ⟨?_, hDrawn.issued, ?_, hDrawn.distinct⟩
  · rintro id hId (hSpent | hSame)
    · exact hDrawn.later id hId hSpent
    · exact ne_of_number hId hDrawn.number (Option.some.inj hSame).symm
  · rintro fh handle hHandle hCommitted (hSpent | hSame)
    · exact h.uncommitted fh handle hHandle hCommitted hSpent
    · exact ne_of_number le_rfl (h.issued fh handle hHandle) (Option.some.inj hSame)

/-- The handles after one of them has been stored. -/
theorem handles_store {fh' : Nat} {found : Handle}
    (hFound : (mount.store fh handle).handles[fh']? = some found) :
    (fh' = fh ∧ found = handle) ∨ (fh' ≠ fh ∧ mount.handles[fh']? = some found) := by
  have hInsert : (mount.handles.insert fh handle)[fh']? = some found := hFound
  rw [Std.ExtTreeMap.getElem?_insert] at hInsert
  split at hInsert
  · next hSame =>
    rw [Std.compare_eq_iff_eq] at hSame
    exact Or.inl ⟨hSame.symm, (Option.some.inj hInsert).symm⟩
  · next hOther =>
    rw [Std.compare_eq_iff_eq] at hOther
    exact Or.inr ⟨Ne.symm hOther, hInsert⟩

/-- A handle that is stored under a seed of its own, which is spent at most when the handle is
committed. -/
theorem Unspent.store (h : Unspent S mount)
    (hNumber : ∃ id < mount.nextCommitId, handle.commitSeed = mount.seedText id)
    (hUnspent : handle.committed = false → ¬ S handle.commitSeed)
    (hFree : ∀ (fh' : Nat) (other : Handle), fh' ≠ fh → mount.handles[fh']? = some other →
      other.commitSeed ≠ handle.commitSeed) : Unspent S (mount.store fh handle) where
  later := h.later
  issued := by
    intro fh' found hFound
    rcases handles_store hFound with ⟨-, rfl⟩ | ⟨-, hOld⟩
    · exact hNumber
    · exact h.issued fh' found hOld
  uncommitted := by
    intro fh' found hFound hUncommitted
    rcases handles_store hFound with ⟨-, rfl⟩ | ⟨-, hOld⟩
    · exact hUnspent hUncommitted
    · exact h.uncommitted fh' found hOld hUncommitted
  distinct := by
    intro first second handle' found hNe hFirst hSecond
    rcases handles_store hFirst with ⟨rfl, rfl⟩ | ⟨hFirstNe, hFirstOld⟩
    · rcases handles_store hSecond with ⟨rfl, -⟩ | ⟨hSecondNe, hSecondOld⟩
      · exact absurd rfl hNe
      · exact (hFree second found hSecondNe hSecondOld).symm
    · rcases handles_store hSecond with ⟨rfl, rfl⟩ | ⟨-, hSecondOld⟩
      · exact hFree first handle' hFirstNe hFirstOld
      · exact h.distinct first second handle' found hNe hFirstOld hSecondOld

theorem Reserved.store (h : Reserved S fh mount handle.commitSeed) :
    Reserved S fh (mount.store fh handle) handle.commitSeed where
  toUnspent := h.toUnspent.store h.number (fun _ => h.unspent) h.free
  unspent := h.unspent
  number := h.number
  free := by
    intro fh' found hne hFound
    rcases handles_store hFound with ⟨rfl, -⟩ | ⟨-, hOld⟩
    · exact absurd rfl hne
    · exact h.free fh' found hne hOld

theorem Unspent.reserved (h : Unspent S mount) (hHandle : mount.handles[fh]? = some handle)
    (hUncommitted : handle.committed = false) : Reserved S fh mount handle.commitSeed where
  toUnspent := h
  unspent := h.uncommitted fh handle hHandle hUncommitted
  number := h.issued fh handle hHandle
  free fh' other hne hOther := h.distinct fh' fh other handle hne hOther hHandle

/-- The handle of a seed that is spent is stored as committed. -/
theorem Unspent.commit (h : Unspent S mount) (hHandle : mount.handles[fh]? = some handle)
    (hSeed : other.commitSeed = handle.commitSeed) (hCommitted : other.committed = true) :
    Unspent (Spend S (some handle.commitSeed)) (mount.store fh other) := by
  have hNumber := h.issued fh handle hHandle
  have hFree (fh' : Nat) (found : Handle) (hne : fh' ≠ fh)
      (hFound : mount.handles[fh']? = some found) : found.commitSeed ≠ handle.commitSeed :=
    h.distinct fh' fh found handle hne hFound hHandle
  have hStored : Unspent S (mount.store fh other) := by
    refine h.store ?_ (fun hUncommitted => ?_) ?_
    · rwa [hSeed]
    · rw [hCommitted] at hUncommitted
      cases hUncommitted
    · rwa [hSeed]
  refine ⟨?_, hStored.issued, ?_, hStored.distinct⟩
  · rintro id hId (hSpent | hSame)
    · exact h.later id hId hSpent
    · exact ne_of_number hId hNumber (Option.some.inj hSame).symm
  · rintro fh' found hFound hUncommitted (hSpent | hSame)
    · exact hStored.uncommitted fh' found hFound hUncommitted hSpent
    · rcases handles_store hFound with ⟨-, rfl⟩ | ⟨hne, hOld⟩
      · rw [hCommitted] at hUncommitted
        cases hUncommitted
      · exact hFree fh' found hne hOld (Option.some.inj hSame).symm

theorem Unspent.erase (h : Unspent S mount) (fh : Nat) :
    Unspent S { mount with handles := mount.handles.erase fh } := by
  have hOld {fh' : Nat} {found : Handle} (hFound : (mount.handles.erase fh)[fh']? = some found) :
      mount.handles[fh']? = some found := by
    rw [Std.ExtTreeMap.getElem?_erase] at hFound
    split at hFound
    · cases hFound
    · exact hFound
  exact ⟨h.later, fun fh' found hFound => h.issued fh' found (hOld hFound),
    fun fh' found hFound => h.uncommitted fh' found (hOld hFound),
    fun first second handle found hNe hFirst hSecond =>
      h.distinct first second handle found hNe (hOld hFirst) (hOld hSecond)⟩

end Seeds

/-! ## Code that leaves the handles and the counter alone -/

section Same

variable {τ : Type} {B : Behaviour io τ} {S : Str → Prop} {start : Mount} {spent : Option Str}
  {fh : Nat}

def here (start mount : Mount) (_ : τ) : Prop := SameHandles start mount

def spares (S : Str → Prop) (mount : Mount) (_ : τ) : Prop := Unspent S mount

/-- There is a seed to be drawn. -/
def roomy (S : Str → Prop) (mount : Mount) (_ : τ) : Prop :=
  Unspent S mount ∧ mount.nextCommitId < u64Max

def reserved (S : Str → Prop) (fh : Nat) (seed : Str) (mount : Mount) (_ : τ) : Prop :=
  Reserved S fh mount seed

theorem kept_of_same {P : Mount → Prop} {p : RuntimeM α}
    (hP : ∀ ⦃mount mount'⦄, P mount → SameHandles mount mount' → P mount')
    (h : Keeps anything SameHandles p) :
    Leads B (fun mount _ => P mount) p fun _ mount _ => P mount := by
  intro mount world a mount' world' hMount hRun
  obtain ⟨log, hLog⟩ := Answers.of_run hRun
  exact hP hMount (Logs.of_keeps h (fun _ _ => trivial) hLog).2

theorem here_of_keeps {p : RuntimeM α} (h : Keeps anything SameHandles p) :
    Leads B (here start) p fun _ => here start :=
  kept_of_same (fun _ _ hHere hSame => hHere.trans hSame) h

theorem keepsSame_enqueueFailedWrite (failed : FailedWrite) :
    Keeps anything SameHandles (enqueueFailedWrite failed) := by
  refine .bind .get fun mount => .bind ?_ fun result => .bind (.modify fun mount => ?_) fun _ =>
    .pure _
  · intro mount
    exact (under_anything _ (Q := fun _ => True) fun _ => trivial).bind fun _ _ =>
      SameHandles.refl mount
  · exact sameHandles_replay mount _

theorem keepsSame_replayQueue : Keeps anything SameHandles replayQueue := by
  refine .bind .get fun mount => .bind ?_ fun result => .bind (.modify fun mount => ?_) fun _ =>
    .modify fun mount => ?_
  · intro mount
    exact (under_anything _ (Q := fun _ => True) fun _ => trivial).bind fun _ _ =>
      SameHandles.refl mount
  · exact sameHandles_replay mount _
  · exact (onlyCaches_applyInvalidationPlan mount .gap).sameHandles

theorem sameHandles_afterLocalUnlink (mount : Mount) (path : MountPath) :
    SameHandles mount (mount.invalidateAfterLocalUnlink path) :=
  afterLocalUnlink (fun _ _ h => h.sameHandles) (fun _ _ => ⟨rfl, rfl, rfl, rfl⟩) mount path

/-- What code that may spend this seed leaves. -/
def Spends (S : Str → Prop) (spent : Option Str) (result : Except Errno α) (mount : Mount)
    (_ : τ) : Prop :=
  match result with
  | .ok _ => Unspent (Spend S spent) mount
  | .error _ => Unspent S mount

theorem spares_ignore {p : Runtime α} {P : Mount → τ → Prop}
    (h : Leads B P p.run fun _ => spares S) : Leads B P (ignore p).run fun _ => spares S :=
  .andThenSame h fun _ => .pure fun _ _ h => h

theorem spends_none {p : Runtime α} {P : Mount → τ → Prop}
    (h : Leads B P p.run fun _ => spares S) : Leads B P p.run (Spends S none) := by
  refine h.weaken (fun _ _ h => h) ?_
  intro result mount world hSpares
  cases result with
  | ok a => exact unspent_spend_none.mpr hSpares
  | error errno => exact hSpares

theorem spends_ignore {p : Runtime α} {P : Mount → τ → Prop}
    (h : Leads B P p.run (Spends S spent)) :
    Leads B P (ignore p).run (Spends S spent) := by
  refine .andThen (fun _ mount _ => Unspent (Spend S spent) mount) (h.weaken (fun _ _ h => h) ?_)
    fun _ => .pure fun _ _ h => h
  intro result mount world hSpends
  cases result <;> exact hSpends

section FromStart

variable (hUnspent : Unspent S start)

include hUnspent

theorem spends_after {p : Runtime α} {f : α → Runtime β} (h : Keeps anything SameHandles p.run)
    (hNext : ∀ a, Leads B (here start) (f a).run (Spends S spent)) :
    Leads B (here start) (p >>= f).run (Spends S spent) := by
  refine .andThen (fun _ => here start) ?_ hNext
  refine (here_of_keeps h).weaken (fun _ _ h => h) ?_
  intro result mount world hHere
  cases result with
  | ok a => exact hHere
  | error errno => exact hUnspent.same hHere

theorem spends_throw (errno : Errno) :
    Leads B (here start) (throw errno : Runtime α).run (Spends S spent) :=
  .throw fun _ _ h => hUnspent.same h

/-- Code that spends the next seed. -/
theorem spends_afterSeed {f : Str → Runtime β} (hRoom : start.nextCommitId < u64Max)
    (hNext : Leads B (here (start.draw true)) (f (start.seedText start.nextCommitId)).run
      fun _ => here (start.draw true)) :
    Leads B (here start) (liftM nextCommitSeed >>= f : Runtime β).run
      (Spends S (some (start.seedText start.nextCommitId))) := by
  refine .andThen (fun seed mount _ => SameHandles (start.draw true) mount ∧
    seed = start.seedText start.nextCommitId) (.liftM ?_) fun seed => .assume ?_
  · intro mount world seed mount' world' hHere hRun
    obtain ⟨log, hLog⟩ := Answers.of_run hRun
    obtain ⟨-, rfl, rfl⟩ := Logs.of_nextCommitSeed hLog
    refine ⟨⟨hHere.handles, ?_, hHere.mountName, hHere.mountInstance⟩, ?_⟩
    · exact congrArg (fun id => min (id + 1) u64Max) hHere.nextCommitId
    · rw [hHere.seedText, hHere.nextCommitId]
  · rintro rfl
    refine hNext.weaken (fun _ _ h => h) ?_
    intro result mount world hHere
    cases result with
    | ok b => exact (hUnspent.spend hRoom).same hHere
    | error errno => exact (hUnspent.draw hRoom 0).toUnspent.same hHere

omit hUnspent in
theorem spends_withHandle {f : Option Handle → Runtime β}
    (hNext : Leads B (here start) (f start.handles[fh]?).run (Spends S spent)) :
    Leads B (here start) (liftM (getHandle fh) >>= f : Runtime β).run (Spends S spent) := by
  refine .andThen
    (fun found mount world => here start mount world ∧ found = start.handles[fh]?) ?_ ?_
  · refine .liftM (.bind (fun found mount world => here start mount world ∧ found = mount)
      (.get fun mount world h => ⟨h, rfl⟩) ?_)
    intro found
    refine .pure ?_
    rintro mount world ⟨hHere, rfl⟩
    exact ⟨hHere, by rw [hHere.handles]⟩
  · intro found
    refine .assume ?_
    rintro rfl
    exact hNext

end FromStart

/-! ## Changing a handle -/

/-- The handle that is changed, and its seed from now on. -/
def Refreshed (S : Str → Prop) (fh : Nat) (seed : Option Str) (mount : Mount) : Prop :=
  ∃ handle, mount.handles[fh]? = some handle ∧ Reserved S fh mount (seed.getD handle.commitSeed)

theorem Refreshed.same {seed : Option Str} {mount mount' : Mount} (h : Refreshed S fh seed mount)
    (hSame : SameHandles mount mount') : Refreshed S fh seed mount' := by
  obtain ⟨handle, hHandle, hReserved⟩ := h
  exact ⟨handle, by rw [hSame.handles, hHandle], hReserved.same hSame⟩

theorem leads_refreshedSeed :
    Leads B (roomy S) (refreshedSeed fh).run fun result mount _ =>
      match result with
      | .ok seed => Refreshed S fh seed mount
      | .error _ => Unspent S mount := by
  intro mount world result mount' world' hRoomy hRun
  obtain ⟨log, hLog⟩ := Answers.of_run hRun
  cases hHandle : mount.handles[fh]? with
  | none =>
      have hRest := Logs.of_getHandle_andThen hLog
      rw [hHandle] at hRest
      obtain ⟨-, rfl, rfl⟩ := hRest.of_throw
      exact hRoomy.1
  | some handle =>
      obtain ⟨-, rfl, rfl⟩ := Logs.of_refreshedSeed hHandle hLog
      refine ⟨handle, by rw [handles_draw, hHandle], ?_⟩
      cases hCommitted : handle.committed with
      | true => exact hRoomy.1.draw hRoomy.2 fh
      | false => exact hRoomy.1.reserved hHandle hCommitted

/-- A change draws a seed if it has to, asks the gate and looks the handle up again. -/
theorem spares_staging {change : Option Str → Option Handle → Runtime α}
    (hChange : ∀ seed handle, Leads B (reserved S fh (seed.getD handle.commitSeed))
      (change seed (some handle)).run fun _ => spares S) :
    Leads B (roomy S) (do
      let seed ← refreshedSeed fh
      ensureWritesAllowed
      change seed (← getHandle fh) : Runtime α).run fun _ => spares S := by
  refine .andThen (fun seed mount _ => Refreshed S fh seed mount) ?_ ?_
  · refine leads_refreshedSeed.weaken (fun _ _ h => h) ?_
    intro result mount world h
    cases result <;> exact h
  intro seed
  refine .andThen (fun _ mount _ => Refreshed S fh seed mount) ?_ fun _ => ?_
  · refine (kept_of_same (P := Refreshed S fh seed) (fun _ _ h hSame => h.same hSame)
      Handling.ensureWritesAllowed).weaken (fun _ _ h => h) ?_
    intro result mount world h
    obtain ⟨handle, -, hReserved⟩ := id h
    cases result with
    | ok _ => exact h
    | error errno => exact hReserved.toUnspent
  refine .andThen
    (fun found mount _ => ∃ handle, Reserved S fh mount (seed.getD handle.commitSeed) ∧
    found = some handle) (.liftM ?_) ?_
  · intro mount world found mount' world' hRefreshed hRun
    obtain ⟨handle, hHandle, hReserved⟩ := hRefreshed
    obtain ⟨hResult, rfl⟩ := hRun.of_ret
    cases hResult
    exact ⟨handle, hReserved, hHandle⟩
  · rintro found mount world a mount' world' ⟨handle, hReserved, rfl⟩ hRun
    exact hChange seed handle hReserved hRun

theorem reserved_set {seed : Str} {handle : Handle} (hSeed : handle.commitSeed = seed) :
    Leads B (reserved S fh seed) (setHandle fh handle) fun _ => reserved S fh seed := by
  subst hSeed
  exact .modify fun mount world h => Reserved.store h

theorem spares_of_reserved {seed : Str} {p : Runtime α}
    (h : Leads B (reserved S fh seed) p.run fun _ => reserved S fh seed) :
    Leads B (reserved S fh seed) p.run fun _ => spares S :=
  h.weaken (fun _ _ h => h) fun _ _ _ h => h.toUnspent

theorem spares_writeToHandleBuffer (fh : Nat) (offset : Int) (data : Bytes) :
    Leads B (roomy S) (writeToHandleBuffer fh offset data).run fun _ => spares S := by
  refine .whenE (fun _ => .throw fun _ _ h => h.1) fun _ => spares_staging ?_
  intro seed handle
  have hThrow (errno : Errno) : Leads B (reserved S fh (seed.getD handle.commitSeed))
      (throw errno : Runtime Nat).run fun _ => reserved S fh (seed.getD handle.commitSeed) :=
    .throw fun _ _ h => h
  refine spares_of_reserved (.andThenSame (.liftM (reserved_set rfl)) fun _ => ?_)
  refine .whenE (fun _ => hThrow _) fun _ => ?_
  dsimp only
  split
  · exact hThrow _
  · refine .whenE (fun _ => ?_) fun _ => ?_
    · exact .andThenSame (.liftM (reserved_set rfl)) fun _ => hThrow _
    · exact .andThenSame (.liftM (reserved_set rfl)) fun _ => .pure fun _ _ h => h

theorem spares_stageTruncate (fh : Nat) :
    Leads B (roomy S) (stageTruncate fh).run fun _ => spares S := by
  refine .andThen (fun _ => roomy S) (.liftM ?_) fun found => ?_
  · exact .bind (fun _ => roomy S) (.get fun _ _ h => h) fun _ => .pure fun _ _ h => h
  cases found with
  | none => exact .throw fun _ _ h => h.1
  | some found =>
      refine .whenE (fun _ => .throw fun _ _ h => h.1) fun _ => spares_staging ?_
      intro seed handle
      refine spares_of_reserved (.andThenSame (.liftM (reserved_set rfl)) fun _ => ?_)
      exact .whenE (fun _ => .throw fun _ _ h => h) fun _ => .liftM (reserved_set rfl)

/-! ## Opening a handle -/

section Opening

variable [Serde] [Rendering]

theorem looking_sameHandles : Looking anything SameHandles :=
  .of_onlyCaches observes_anything fun _ _ h => h.sameHandles

/-- What the building of a handle gives: it may be stored at any number. -/
def Builds (S : Str → Prop) (result : Except Errno Handle) (mount : Mount) (_ : τ) : Prop :=
  match result with
  | .ok handle => ∀ fh, Reserved S fh mount handle.commitSeed
  | .error _ => Unspent S mount

omit [Serde] [Rendering] in
theorem builds_roomy {p : Runtime α} {f : α → Runtime Handle}
    (h : Keeps anything SameHandles p.run)
    (hNext : ∀ a, Leads B (roomy S) (f a).run (Builds S)) :
    Leads B (roomy S) (p >>= f).run (Builds S) := by
  refine .andThen (fun _ => roomy S) ?_ hNext
  refine (kept_of_same (P := fun mount => Unspent S mount ∧ mount.nextCommitId < u64Max) ?_
    h).weaken (fun _ _ h => h) ?_
  · intro mount mount' hRoomy hSame
    exact ⟨hRoomy.1.same hSame, hSame.nextCommitId ▸ hRoomy.2⟩
  · intro result mount world hRoomy
    cases result with
    | ok a => exact hRoomy
    | error errno => exact hRoomy.1

theorem builds_buildHandle (path : MountPath) (writable truncate create : Bool) :
    Leads B (roomy S) (buildHandle path writable truncate create).run (Builds S) := by
  cases writable
  case' false => refine builds_roomy (p := pure HandleMode.wholeValue) (.pure _) fun mode => ?_
  case' true =>
    refine builds_roomy Handling.ensureWritesAllowed fun _ => ?_
    refine builds_roomy (Looking.writeMode path) fun mode => ?_
  all_goals
    refine .whenE (fun _ => .throw fun _ _ h => h.1) fun _ => ?_
    refine builds_roomy (looking_sameHandles.initialHandleState path _ mode truncate create) ?_
    intro state
    refine .andThen (fun seed mount _ => ∀ fh, Reserved S fh mount seed) (.liftM ?_) fun seed =>
      .pure fun mount world h => h
    intro mount world seed mount' world' hRoomy hRun
    obtain ⟨log, hLog⟩ := Answers.of_run hRun
    obtain ⟨-, rfl, rfl⟩ := Logs.of_nextCommitSeed hLog
    exact hRoomy.1.draw hRoomy.2

/-- A handle that has been built is stored. -/
theorem spares_storeBuilt {path : MountPath} {writable truncate create : Bool} (fh : Nat)
    {f : Unit → Runtime α} (hPure : ∀ u, ∃ a, f u = pure a) :
    Leads B (roomy S) (do
      let handle ← buildHandle path writable truncate create
      setHandle fh handle
      f ()).run fun _ => spares S := by
  refine .andThen (fun handle mount _ => ∀ fh, Reserved S fh mount handle.commitSeed) ?_ ?_
  · refine (builds_buildHandle path writable truncate create).weaken (fun _ _ h => h) ?_
    intro result mount world h
    cases result <;> exact h
  · intro handle
    obtain ⟨a, hPure⟩ := hPure ()
    refine .andThenSame (.liftM (.modify fun mount world h => ?_)) fun _ => ?_
    · exact ((h fh).store).toUnspent
    · rw [hPure]
      exact .pure fun _ _ h => h

theorem spares_openHandle (path : MountPath) (writable truncate create : Bool) :
    Leads B (roomy S) (openHandle path writable truncate create).run fun _ => spares S := by
  refine .andThen (fun _ => roomy S) (.liftM (.get fun _ _ h => h)) fun mount => ?_
  refine .andThen (fun _ => roomy S) (.liftM (.modify ?_)) fun _ => ?_
  · exact fun mount world h => ⟨h.1.same ⟨rfl, rfl, rfl, rfl⟩, h.2⟩
  · exact spares_storeBuilt _ fun _ => ⟨_, rfl⟩

theorem spares_writableHandle (rawHandle : Nat) (path : MountPath) :
    Leads B (roomy S) (writableHandle rawHandle path).run fun _ => spares S := by
  refine .andThen (fun _ => roomy S) (.liftM ?_) fun found => ?_
  · exact .bind (fun _ => roomy S) (.get fun _ _ h => h) fun _ => .pure fun _ _ h => h
  refine .whenE (fun _ => ?_) fun _ => .pure fun _ _ h => h.1
  exact spares_storeBuilt rawHandle fun _ => ⟨_, rfl⟩

end Opening

/-! ## Spending a seed -/

/-- A handle spends its seed while it holds a change. -/
def Handle.spends (handle : Handle) : Option Str :=
  if !handle.writable || !handle.dirty || handle.committed then none else some handle.commitSeed

/-- The seed an operation spends if it succeeds. -/
def Operation.spends (start : Mount) : Operation → Option Str
  | .commit fh | .release fh => start.handles[fh]?.bind Handle.spends
  | .truncatePath _ | .mknod _ _ => some (start.seedText start.nextCommitId)
  | .rename fromPath toPath _ =>
      if fromPath = toPath then none else some (start.seedText start.nextCommitId)
  | _ => none

section Spending

variable [Serde] [Rendering] (hUnspent : Unspent S start)

theorem keepsSame_commit (path : MountPath) (bytes : Bytes) (seed : Str) :
    Leads B (here start) (commitMountPathWithSeed path bytes seed).run fun _ => here start := by
  intro mount world result mount' world' hHere hRun
  obtain ⟨log, hLog⟩ := Answers.of_run hRun
  exact hHere.trans (Logs.of_commit hLog).1

include hUnspent

theorem spends_commitHandle (fh : Nat) :
    Leads B (here start) (commitHandle fh).run
      (Spends S (start.handles[fh]?.bind Handle.spends)) := by
  refine spends_withHandle ?_
  cases hFound : start.handles[fh]? with
  | none => exact .pure fun mount world h => unspent_spend_none.mpr (hUnspent.same h)
  | some handle =>
      rw [Option.bind_some, Handle.spends]
      refine .whenE (fun hClean => ?_) fun hGoes => ?_
      · rw [if_pos hClean]
        exact .pure fun mount world h => unspent_spend_none.mpr (hUnspent.same h)
      · rw [if_neg hGoes]
        refine .andThen (fun _ => here start) ?_ fun _ => ?_
        · refine (keepsSame_commit _ _ _).weaken (fun _ _ h => h) ?_
          intro result mount world hHere
          cases result with
          | ok _ => exact hHere
          | error errno => exact hUnspent.same hHere
        · refine spends_withHandle ?_
          rw [hFound]
          refine .liftM (.modify fun mount world hHere => ?_)
          have hHandle : mount.handles[fh]? = some handle := by rw [hHere.handles, hFound]
          refine (hUnspent.same hHere).commit hHandle ?_ ?_
          · cases handle.mode <;> rfl
          · cases handle.mode <;> rfl

theorem spends_releaseHandle (fh : Nat) :
    Leads B (here start) (releaseHandle fh).run
      (Spends S (start.handles[fh]?.bind Handle.spends)) := by
  refine .andThen (Spends S (start.handles[fh]?.bind Handle.spends))
    (.attempt (spends_commitHandle hUnspent fh)) ?_
  intro result
  refine .andThen (fun _ => Spends S (start.handles[fh]?.bind Handle.spends) result)
    (.liftM (.modify ?_)) fun _ => .liftErrno fun _ _ h => h
  intro mount world h
  cases result with
  | ok _ => exact h.erase fh
  | error errno => exact h.erase fh

omit [Serde] in
theorem spends_queueRename (hRoom : start.nextCommitId < u64Max) (fromPath toPath : MountPath)
    (plan : RenamePlan) :
    Leads B (here start) (queueRename fromPath toPath plan).run
      (Spends S (some (start.seedText start.nextCommitId))) := by
  have hQueued (sourceGeneration : Nat) (bytes : Bytes) (seed : Str)
      (operation : FailedWriteOperation) : Keeps anything SameHandles
        (queueRenameCompletion fromPath toPath sourceGeneration bytes seed operation).run := by
    refine .andThen (.liftM (keepsSame_enqueueFailedWrite _)) ?_
    intro queued
    cases queued with
    | ok _ => exact .pure _
    | error err => exact .throw _
  cases plan with
  | kv fromBucket fromKey toBucket toKey =>
      refine spends_after hUnspent (observes_anything.kvRenameSource fromBucket fromKey)
        fun entry => ?_
      refine spends_after hUnspent (observes_anything.kvRenameDestination toBucket toKey)
        fun _ => ?_
      exact spends_afterSeed hUnspent hRoom (here_of_keeps (hQueued _ _ _ _))
  | object fromBucket fromObject toBucket toObject =>
      refine spends_after hUnspent (observes_anything.objectRenameSource fromBucket fromObject)
        fun object => ?_
      refine spends_after hUnspent (observes_anything.objectRenameDestination toBucket toObject)
        fun _ => ?_
      exact spends_afterSeed hUnspent hRoom (here_of_keeps (hQueued _ _ _ _))

omit [Serde] in
theorem spends_executeRename (hRoom : start.nextCommitId < u64Max) (fromPath toPath : MountPath)
    (flags : Nat) :
    Leads B (here start) (executeRename fromPath toPath flags).run
      (Spends S ((Operation.rename fromPath toPath flags).spends start)) := by
  refine spends_after hUnspent Handling.ensureWritesAllowed fun _ => ?_
  refine .whenE (fun _ => spends_throw hUnspent _) fun _ => ?_
  rw [Operation.spends]
  refine .whenE (fun hSame => ?_) fun hne => ?_
  · rw [if_pos hSame]
    exact .pure fun mount world h => unspent_spend_none.mpr (hUnspent.same h)
  rw [if_neg hne]
  refine spends_after hUnspent (.liftErrno _) fun source => ?_
  refine spends_after hUnspent (.liftErrno _) fun target => ?_
  refine spends_after hUnspent (.liftErrno _) fun action => ?_
  split
  · next plan =>
    refine .andThen (fun _ mount _ => Unspent (Spend S (some (start.seedText start.nextCommitId)))
      mount) ?_ fun _ => ?_
    · refine (spends_queueRename hUnspent hRoom fromPath toPath plan).weaken (fun _ _ h => h) ?_
      intro result mount world h
      cases result <;> exact h
    · let spent := Unspent (Spend S (some (start.seedText start.nextCommitId)))
      refine .andThen (fun _ mount _ => spent mount) (.liftM (kept_of_same
        (fun _ _ h hSame => h.same hSame) keepsSame_replayQueue)) fun _ => ?_
      refine .andThen (fun _ mount _ => spent mount) (.liftM (.modify fun mount world h =>
        h.same (sameHandles_afterLocalUnlink mount fromPath))) fun _ => ?_
      exact .liftM (.modify fun mount world h =>
        h.same (onlyCaches_invalidateAfterLocalMutation mount toPath).sameHandles)
  · exact spends_throw hUnspent _

theorem spends_executeMknod (hRoom : start.nextCommitId < u64Max) (path : MountPath) (mode : Nat) :
    Leads B (here start) (executeMknod path mode).run
      (Spends S (some (start.seedText start.nextCommitId))) := by
  refine spends_after hUnspent Handling.ensureWritesAllowed fun _ => ?_
  refine .whenE (fun _ => spends_throw hUnspent _) fun _ => ?_
  refine spends_after hUnspent (looking_sameHandles.createTarget path) fun payload => ?_
  refine spends_afterSeed hUnspent hRoom ?_
  exact .andThenSame (keepsSame_commit path payload _) fun _ => .pure fun _ _ h => h

theorem spends_operation (hRoom : start.nextCommitId < u64Max) (operation : Operation) :
    Leads B (here start) operation.code.run (Spends S (operation.spends start)) := by
  have hStays {p : Runtime Unit} (h : Keeps anything SameHandles p.run) :
      Leads B (here start) p.run (Spends S none) := by
    refine spends_none ((here_of_keeps h).weaken (fun _ _ h => h) ?_)
    exact fun _ mount world hHere => hUnspent.same hHere
  have hSpares {p : Runtime Unit} (h : Leads B (roomy S) p.run fun _ => spares S) :
      Leads B (here start) p.run (Spends S none) := by
    refine spends_none (h.weaken (fun mount world hHere => ?_) fun _ _ _ h => h)
    exact ⟨hUnspent.same hHere, hHere.nextCommitId ▸ hRoom⟩
  have look := looking_sameHandles
  cases operation with
  | stat path => exact hStays (keeps_ignore (look.attr path))
  | read path => exact hStays (keeps_ignore (look.readBytes path))
  | readHandle fh path => exact hStays (keeps_ignore (look.readBytesForHandle fh path))
  | list path => exact hStays (keeps_ignore (look.directoryEntries path))
  | createdHandleAttr fh path => exact hStays (keeps_ignore (look.createdHandleAttr fh path))
  | flush fh => exact hStays (Handling.flushHandle fh)
  | mkdir path => exact hStays (keeps_executeMkdir (fun _ => trivial) path)
  | unlink path =>
      exact hStays (keeps_executeUnlink (fun _ => trivial) (fun _ _ h => h.sameHandles)
        (fun _ _ => ⟨rfl, rfl, rfl, rfl⟩) path)
  | allocateForPath path kind =>
      exact hStays (keeps_ignore (.liftM
        (keeps_allocateForPath look (fun _ _ => ⟨rfl, rfl, rfl, rfl⟩) path kind)))
  | commit fh => exact spends_commitHandle hUnspent fh
  | release fh => exact spends_releaseHandle hUnspent fh
  | discard fh => exact hSpares (.liftM (.modify fun mount world h => h.1.erase fh))
  | openFile path writable truncate create =>
      exact hSpares (spares_ignore (spares_openHandle path writable truncate create))
  | writableHandle rawHandle path =>
      exact hSpares (spares_ignore (spares_writableHandle rawHandle path))
  | write fh offset data =>
      exact hSpares (spares_ignore (spares_writeToHandleBuffer fh offset data))
  | truncateHandle fh => exact hSpares (spares_stageTruncate fh)
  | truncatePath path =>
      refine spends_after hUnspent
        (.andThen (Looking.writeMode path) fun _ => .whenE (.throw _) (.pure _)) fun _ => ?_
      exact spends_afterSeed hUnspent hRoom (keepsSame_commit path [] _)
  | mknod path mode => exact spends_ignore (spends_executeMknod hUnspent hRoom path mode)
  | rename fromPath toPath flags => exact spends_executeRename hUnspent hRoom fromPath toPath flags

end Spending

end Same

end EventFs.Fuse
