import EventFs.Fuse.GateRuns
import EventFs.Fuse.HandleSteps
import EventFs.Transport.CompletionLog

/-!
# Renames next to other clients

A rename reads the source, draws a seed and queues the completion under a key made from
the seed; until then it changes nothing. Other clients act between its calls. `Safely` says
where a piece of code of the mount may end or be cut off.
-/

namespace EventFs.Fuse

open Library Protocol Transport Program

variable {α β : Type}

/-! ## Code next to other clients -/

section Safely

variable [Serde] {Own : Str → Prop} {C P : World (List Made) → Prop} {mount : Mount}

/-- From `P`, code run on the mount ends in `Q`, and wherever it is cut off `C` holds. -/
def Safely (Own : Str → Prop) (C P : World (List Made) → Prop) (p : RuntimeM α) (mount : Mount)
    (Q : α → Mount → World (List Made) → Prop) : Prop :=
  Triple (Atomic shared) (Others Own) P (p.run mount) (fun result => Q result.1 result.2) C

namespace Safely

theorem of_ret {p : RuntimeM α} {a : α} {mount' : Mount} {Q : α → Mount → World (List Made) → Prop}
    (h : p.run mount = .ret (a, mount')) (hP : Rests Own C P)
    (hQ : ∀ world, P world → Q a mount' world) :
    Safely Own C P p mount Q := by
  rw [Safely, h]
  exact .ret hP.stable hQ hP.stop

theorem bind {p : RuntimeM α} {f : α → RuntimeM β} {Q : β → Mount → World (List Made) → Prop}
    (R : α → Mount → World (List Made) → Prop) (hFirst : Safely Own C P p mount R)
    (hSecond : ∀ a mount', Safely Own C (R a mount') (f a) mount' Q) :
    Safely Own C P (p >>= f) mount Q := by
  rw [Safely, StateT.run_bind]
  exact Triple.bind _ hFirst fun result => hSecond result.1 result.2

theorem weaken {P' : World (List Made) → Prop} {p : RuntimeM α}
    {Q Q' : α → Mount → World (List Made) → Prop} (h : Safely Own C P p mount Q)
    (hP : ∀ world, P' world → P world)
    (hQ : ∀ a mount' world, Q a mount' world → Q' a mount' world) :
    Safely Own C P' p mount Q' :=
  Triple.weaken h hP (fun result => hQ result.1 result.2) fun _ h => h

theorem assume {p : RuntimeM α} {φ : Prop} {Q : α → Mount → World (List Made) → Prop}
    (hφ : ∀ world, P world → φ) (h : φ → Safely Own C P p mount Q) : Safely Own C P p mount Q :=
  Triple.assume hφ h

theorem getThen {f : Mount → RuntimeM β} {Q : β → Mount → World (List Made) → Prop}
    (h : Safely Own C P (f mount) mount Q) : Safely Own C P (get >>= f) mount Q := h

/-- Code that acts on the world alone. -/
theorem stateLift {p : Program io α} {R : α → World (List Made) → Prop}
    (h : Triple (Atomic shared) (Others Own) P p R C) (hRests : ∀ a, Rests Own C (R a)) :
    Safely Own C P (StateT.lift p : RuntimeM α) mount fun a mount' world =>
      mount' = mount ∧ R a world := by
  refine Triple.bind R h ?_
  exact fun a => .ret (hRests a).stable (fun _ h => ⟨rfl, h⟩) (hRests a).stop

/-- The mount is the same before and after a step. -/
theorem sameThen {p : RuntimeM α} {f : α → RuntimeM β} {R : α → World (List Made) → Prop}
    {Q : β → Mount → World (List Made) → Prop}
    (hFirst : Safely Own C P p mount fun a mount' world => mount' = mount ∧ R a world)
    (hSecond : ∀ a, Safely Own C (R a) (f a) mount Q) : Safely Own C P (p >>= f) mount Q := by
  refine .bind _ hFirst ?_
  intro a mount'
  refine .assume (fun _ h => h.1) ?_
  rintro rfl
  exact (hSecond a).weaken (fun _ h => h.2) fun _ _ _ h => h

/-- What follows a failure is left out. -/
theorem andThen {p : Runtime α} {f : α → Runtime β}
    {Q : Except Errno β → Mount → World (List Made) → Prop}
    (R : Except Errno α → Mount → World (List Made) → Prop)
    (hFirst : Safely Own C P p.run mount R)
    (hRests : ∀ errno mount', Rests Own C (R (.error errno) mount'))
    (hError : ∀ errno mount' world, R (.error errno) mount' world → Q (.error errno) mount' world)
    (hSecond : ∀ a mount', Safely Own C (R (.ok a) mount') (f a).run mount' Q) :
    Safely Own C P (p >>= f).run mount Q := by
  rw [ExceptT.run_bind]
  refine .bind R hFirst ?_
  intro result mount'
  cases result with
  | ok a => exact hSecond a mount'
  | error errno => exact .of_ret rfl (hRests errno mount') (hError errno mount')

/-- A step that cannot fail, and what follows it. -/
theorem liftThen {p : RuntimeM α} {f : α → Runtime β}
    {Q : Except Errno β → Mount → World (List Made) → Prop}
    (R : α → Mount → World (List Made) → Prop) (hFirst : Safely Own C P p mount R)
    (hSecond : ∀ a mount', Safely Own C (R a mount') (f a).run mount' Q) :
    Safely Own C P (MonadLift.monadLift p >>= f : Runtime β).run mount Q := by
  show Safely Own C P (ExceptT.lift p >>= f : Runtime β).run mount Q
  rw [ExceptT.run_bind_lift]
  exact .bind R hFirst hSecond

/-- A pure step that may fail, and what follows it. -/
theorem errnoThen {answer : Except Errno α} {f : α → Runtime β}
    {Q : Except Errno β → Mount → World (List Made) → Prop} (hP : Rests Own C P)
    (hError : ∀ errno world, P world → Q (.error errno) mount world)
    (hOk : ∀ a, answer = .ok a → Safely Own C P (f a).run mount Q) :
    Safely Own C P (liftErrno answer >>= f).run mount Q := by
  cases answer with
  | ok a => exact hOk a rfl
  | error errno => exact .of_ret rfl hP (hError errno)

/-- Past the gate writes are accepted. -/
theorem pastGate {f : Unit → Runtime α} {Q : Except Errno α → Mount → World (List Made) → Prop}
    (hP : Rests Own C P) (hError : ∀ errno world, P world → Q (.error errno) mount world)
    (hOpen : mount.replay.gate.acceptingWrites = true → Safely Own C P (f ()).run mount Q) :
    Safely Own C P (ensureWritesAllowed >>= f).run mount Q := by
  have hRun : (ensureWritesAllowed >>= f).run.run mount =
      if mount.replay.gate.acceptingWrites then (f ()).run.run mount
      else .ret (.error .readOnly, mount) := by
    show StateT.run (ExceptT.run ((if mount.replay.gate.acceptingWrites then pure ()
      else throw .readOnly : Runtime Unit) >>= f)) mount = _
    split <;> rfl
  rw [Safely, hRun]
  split
  · next hGate => exact hOpen hGate
  · exact .ret hP.stable (hError _) hP.stop

end Safely

end Safely

/-! ## Before the completion is queued -/

/-- The mount looks, and the other clients do what they like under other keys. -/
def Looks (Own : Str → Prop) (made : Made) : Prop :=
  if made.own then made.call.reads = true else ¬ made.call.Carries Own

/-- The mount has changed nothing since these calls and this file. -/
structure Unchanged (Own : Str → Prop) (before : List Made) (file : List QueueEntry)
    (world : World (List Made)) : Prop where
  calls : Grown (Looks Own) before world.store
  file : world.file = file

section Capturing

variable [Serde] {Own : Str → Prop} {C : World (List Made) → Prop} {before : List Made}
  {file : List QueueEntry} {mount : Mount}

/-- The calls up to the capture, and those since. -/
structure CaughtAt (Own : Str → Prop) (before : List Made) (captured : Captured)
    (upTo made : List Made) : Prop where
  earlier : Grown (Looks Own) before upTo
  later : Grown (Looks Own) upTo made
  atSource : captured.AtSource (stateOf upTo)

/-- The mount has captured a value and changed nothing. -/
def Caught (Own : Str → Prop) (before : List Made) (file : List QueueEntry) (captured : Captured)
    (world : World (List Made)) : Prop :=
  Unchanged Own before file world ∧ ∃ upTo, CaughtAt Own before captured upTo world.store

omit [Serde] in
theorem reads_of_observes {call : StorageCall} (h : StorageCall.observes call = true) :
    call.reads = true := by
  cases call <;> first | rfl | cases h

omit [Serde] in
theorem looks_own {call : StorageCall} (h : call.reads = true) : Looks Own ⟨true, call⟩ := by
  rw [Looks, if_pos rfl]
  exact h

omit [Serde] in
theorem looks_other {call : StorageCall} (h : ¬ call.Carries Own) : Looks Own ⟨false, call⟩ := by
  rw [Looks, if_neg Bool.false_ne_true]
  exact h

omit [Serde] in
theorem Unchanged.append {world : World (List Made)} (h : Unchanged Own before file world)
    {other : Made} (hOther : Looks Own other) :
    Unchanged Own before file { world with store := world.store ++ [other] } :=
  ⟨h.calls.append hOther, h.file⟩

theorem Caught.append {captured : Captured} {world : World (List Made)}
    (h : Caught Own before file captured world) {other : Made} (hOther : Looks Own other) :
    Caught Own before file captured { world with store := world.store ++ [other] } := by
  obtain ⟨hIdle, upTo, hEarlier, hLater, hSource⟩ := h
  exact ⟨hIdle.append hOther, upTo, hEarlier, hLater.append hOther, hSource⟩

omit [Serde] in
/-- What every look and every call of another client keeps. -/
theorem rests_of_append {P : World (List Made) → Prop} (hC : ∀ world, P world → C world)
    (h : ∀ (world : World (List Made)) (other : Made), P world → Looks Own other →
      P { world with store := world.store ++ [other] }) : Rests Own C P where
  stable := by
    intro world world' hEnv hP
    cases hEnv with
    | call hForeign => exact h world _ hP (looks_other hForeign)
  stop := hC

/-- Code that only observes leaves the mount and what it found as they were. -/
theorem safely_observing {p : Runtime α} {P : World (List Made) → Prop}
    (h : Keeps looks Eq p.run) (hC : ∀ world, P world → C world)
    (hP : ∀ (world : World (List Made)) (other : Made), P world → Looks Own other →
      P { world with store := world.store ++ [other] }) :
    Safely Own C P p.run mount fun _ mount' world => mount' = mount ∧ P world := by
  have hAll := (h mount).all fun _ _ => trivial
  refine (Triple.all hAll (rests_of_append hC hP).stable hC ?_).weaken (fun _ h => h) ?_
    fun _ h => h
  · rintro (request | entries | _) world reply world' hIssue hWorld hCall
    · cases hCall with
      | store hStore =>
          have hLook := hP world ⟨true, request⟩ hWorld (looks_own (reads_of_observes hIssue))
          rcases hStore.inv with ⟨-, rfl⟩ | ⟨-, rfl | ⟨-, rfl⟩⟩
          · exact hLook
          · exact hWorld
          · exact hLook
    · cases hIssue
    · cases hIssue
  · exact fun result world h => ⟨h.1.symm, h.2⟩

/-- The storage has answered this, and nothing has been changed. -/
def Found (Own : Str → Prop) (before : List Made) (file : List QueueEntry) (call : StorageCall)
    (value : call.Value) (world : World (List Made)) : Prop :=
  Unchanged Own before file world ∧ ∃ upTo, Grown (Looks Own) before upTo ∧
    Grown (Looks Own) upTo world.store ∧ (MemoryStorage.handle (stateOf upTo) call).1 = .ok value

omit [Serde] in
theorem rests_unchanged (hC : ∀ world, Unchanged Own before file world → C world) :
    Rests Own C (Unchanged Own before file) :=
  rests_of_append hC fun _ _ h hOther => h.append hOther

theorem rests_found {call : StorageCall} {value : call.Value}
    (hC : ∀ world, Unchanged Own before file world → C world) :
    Rests Own C (Found Own before file call value) := by
  refine rests_of_append (fun world h => hC world h.1) ?_
  rintro world other ⟨hUnchanged, upTo, hEarlier, hLater, hAnswer⟩ hOther
  exact ⟨hUnchanged.append hOther, upTo, hEarlier, hLater.append hOther, hAnswer⟩

/-- What a look has told, if it was answered. -/
def Told (Own : Str → Prop) (before : List Made) (file : List QueueEntry) (mount : Mount)
    (call : StorageCall) (result : Except Errno call.Value) (mount' : Mount)
    (world : World (List Made)) : Prop :=
  mount' = mount ∧ match result with
    | .ok value => Found Own before file call value world
    | .error _ => Unchanged Own before file world

/-- A look tells what the storage held at some time since. -/
theorem safely_requestIo {call : StorageCall} (hReads : call.reads = true)
    (hC : ∀ world, Unchanged Own before file world → C world) :
    Safely Own C (Unchanged Own before file) (requestIo call).run mount
      (Told Own before file mount call) := by
  have hCall : Triple (Atomic shared) (Others Own) (Unchanged Own before file)
      (Transport.call call).run (fun reply world => Unchanged Own before file world ∧
        ∀ value, reply = .ok value → Found Own before file call value world) C := by
    refine triple_ownKept (rests_unchanged hC) ?_ (fun _ h => h.append (looks_own hReads)) ?_ ?_
    · intro reply world world' hEnv h value hOk
      exact (rests_found hC).stable hEnv (h value hOk)
    · intro world h value hOk
      refine ⟨h.append (looks_own hReads), world.store, h.calls, ⟨[⟨true, call⟩], rfl, ?_⟩, hOk⟩
      intro other hMem
      rw [List.mem_singleton.mp hMem]
      exact looks_own hReads
    · intro err world value hOk
      cases hOk
  have hRests (reply : TransportResult call.Value) :
      Rests Own C fun world => Unchanged Own before file world ∧
        ∀ value, reply = .ok value → Found Own before file call value world := by
    refine ⟨?_, fun world h => hC world h.1⟩
    intro world world' hEnv h
    exact ⟨(rests_unchanged hC).stable hEnv h.1,
      fun value hOk => (rests_found hC).stable hEnv (h.2 value hOk)⟩
  refine .liftThen _ (.stateLift hCall hRests) ?_
  intro reply mount'
  cases reply with
  | ok value =>
      exact .of_ret rfl (rests_same (hRests _)) fun world h => ⟨h.1, h.2.2 value rfl⟩
  | error err => exact .of_ret rfl (rests_same (hRests _)) fun world h => ⟨h.1, h.2.1⟩

/-- The mount is as it was and has captured the value it returns. -/
def Captures (Own : Str → Prop) (before : List Made) (file : List QueueEntry) (mount : Mount)
    (capture : α → Captured) (result : Except Errno α) (mount' : Mount)
    (world : World (List Made)) : Prop :=
  mount' = mount ∧ match result with
    | .ok value => Caught Own before file (capture value) world
    | .error _ => Unchanged Own before file world

theorem rests_caught {captured : Captured}
    (hC : ∀ world, Unchanged Own before file world → C world) :
    Rests Own C (Caught Own before file captured) :=
  rests_of_append (fun world h => hC world h.1) fun _ _ h hOther => h.append hOther

/-- The source may be gone when it is read. -/
def SourceRead (Own : Str → Prop) (before : List Made) (file : List QueueEntry) (mount : Mount)
    (capture : α → Captured) (result : Except Errno (Option α)) (mount' : Mount)
    (world : World (List Made)) : Prop :=
  mount' = mount ∧ match result with
    | .ok (some value) => Caught Own before file (capture value) world
    | _ => Unchanged Own before file world

/-- The source of a rename has to be a file and to be there when it is read. -/
theorem safely_renameSource {classify : Runtime DynamicPathKind} {source : Runtime (Option α)}
    {ofKind : DynamicPathKind → Runtime α} {ofValue : Option α → Runtime α}
    {capture : α → Captured} (hClassify : Keeps looks Eq classify.run)
    (hSource : Safely Own C (Unchanged Own before file) source.run mount
      (SourceRead Own before file mount capture))
    (hMissing : ofKind .missing = throw .notFound)
    (hDirectory : ofKind .directory = throw .isDirectory)
    (hFile : ofKind .file = source >>= ofValue) (hNone : ofValue none = throw .notFound)
    (hSome : ∀ value, ofValue (some value) = pure value)
    (hC : ∀ world, Unchanged Own before file world → C world) :
    Safely Own C (Unchanged Own before file) (classify >>= ofKind).run mount
      (Captures Own before file mount capture) := by
  have hRests {mount' : Mount} :
      Rests Own C fun world => mount' = mount ∧ Unchanged Own before file world :=
    rests_same (rests_unchanged hC)
  refine .andThen (fun _ mount' world => mount' = mount ∧ Unchanged Own before file world)
    (safely_observing hClassify hC fun _ _ h hOther => h.append hOther) (fun _ _ => hRests)
    (fun _ _ _ h => h) ?_
  intro kind mount'
  refine .assume (fun _ h => h.1) ?_
  rintro rfl
  cases kind with
  | missing =>
      rw [hMissing]
      exact .of_ret rfl hRests fun _ h => h
  | directory =>
      rw [hDirectory]
      exact .of_ret rfl hRests fun _ h => h
  | file =>
      rw [hFile]
      refine .andThen _ (hSource.weaken (fun _ h => h.2) fun _ _ _ h => h) (fun _ _ => hRests)
        (fun _ _ _ h => h) ?_
      intro value mount''
      cases value with
      | none =>
          rw [hNone]
          exact .of_ret rfl hRests fun _ h => h
      | some value =>
          rw [hSome]
          exact .of_ret rfl (rests_same (rests_caught hC)) fun _ h => h

theorem safely_kvRenameSource (bucket key toBucket toKey : Str)
    (hC : ∀ world, Unchanged Own before file world → C world) :
    Safely Own C (Unchanged Own before file) (kvRenameSource bucket key).run mount
      (Captures Own before file mount fun value => .kv bucket key value toBucket toKey) := by
  have hSource : Safely Own C (Unchanged Own before file) (requestIo (.kvGet bucket key)).run mount
      (SourceRead Own before file mount fun value => .kv bucket key value toBucket toKey) := by
    refine (safely_requestIo rfl hC).weaken (fun _ h => h) ?_
    rintro (errno | _ | value) mount' world ⟨rfl, hFound⟩
    · exact ⟨rfl, hFound⟩
    · exact ⟨rfl, hFound.1⟩
    · obtain ⟨hUnchanged, upTo, hEarlier, hLater, hAnswer⟩ := hFound
      exact ⟨rfl, hUnchanged, upTo, hEarlier, hLater, Except.ok.inj hAnswer⟩
  exact safely_renameSource (observes_looks.classifyKvDynamicPath bucket key) hSource
    rfl rfl rfl rfl (fun _ => rfl) hC

theorem safely_objectRenameSource (bucket object toBucket toObject : Str)
    (hC : ∀ world, Unchanged Own before file world → C world) :
    Safely Own C (Unchanged Own before file) (objectRenameSource bucket object).run mount
      (Captures Own before file mount fun version =>
        .object bucket object version toBucket toObject) := by
  have hSource : Safely Own C (Unchanged Own before file) (requestIo (.objectGet bucket object)).run
      mount (SourceRead Own before file mount fun version =>
        .object bucket object version toBucket toObject) := by
    refine (safely_requestIo rfl hC).weaken (fun _ h => h) ?_
    rintro (errno | _ | version) mount' world ⟨rfl, hFound⟩
    · exact ⟨rfl, hFound⟩
    · exact ⟨rfl, hFound.1⟩
    · obtain ⟨hUnchanged, upTo, hEarlier, hLater, hAnswer⟩ := hFound
      exact ⟨rfl, hUnchanged, upTo, hEarlier, hLater, Except.ok.inj hAnswer⟩
  exact safely_renameSource (observes_looks.classifyObjectDynamicPath bucket object) hSource
    rfl rfl rfl rfl (fun _ => rfl) hC

end Capturing

end EventFs.Fuse
