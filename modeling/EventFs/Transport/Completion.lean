import EventFs.Transport.MemoryRuns
import EventFs.Transport.ReplayCalls

/-!
# The completion of a rename

A rename is queued as a put of the captured bytes and a delete of the captured generation.
The storage is shared with other clients, so it is given by the calls that have taken
effect and who made them. While the completion waits in the queue file it may be replayed
and cut off any number of times; the file is emptied only after the put.
-/

namespace EventFs.Transport

open Library Protocol Program

/-! ## A shared storage -/

/-- A call that has taken effect, made by the mount itself or by another client. -/
structure Made where
  own : Bool
  call : StorageCall
deriving DecidableEq, Repr

def EffectId.idempotencyKey : EffectId → Str
  | .kv _ _ idempotencyKey | .lines _ _ idempotencyKey | .object _ _ idempotencyKey =>
      idempotencyKey

/-- The call is idempotent under one of these keys. -/
def StorageCall.Carries (Own : Str → Prop) (call : StorageCall) : Prop :=
  ∃ id, call.effectId = some id ∧ Own id.idempotencyKey

/-- Another client makes a call under none of these keys. -/
inductive Others (Own : Str → Prop) : World (List Made) → World (List Made) → Prop
  | call (world : World (List Made)) {call : StorageCall} (hForeign : ¬ call.Carries Own) :
      Others Own world { world with store := world.store ++ [⟨false, call⟩] }

section Shared

variable [Serde]

def stateOf (made : List Made) : MemoryStorage := MemoryStorage.run (made.map (·.call))

theorem stateOf_append (made : List Made) (own : Bool) (call : StorageCall) :
    stateOf (made ++ [⟨own, call⟩]) = (MemoryStorage.handle (stateOf made) call).2 := by
  rw [stateOf, List.map_append, List.map_singleton, MemoryStorage.run_append]
  rfl

def ownCall : Handler storage (List Made) := fun made call =>
  ((MemoryStorage.handle (stateOf made) call).1, made ++ [⟨true, call⟩])

/-- A call of the mount may be refused, or take effect without being acknowledged. -/
abbrev shared : Behaviour storage (List Made) :=
  Faulty ownCall (fun _ reply => ∃ err, reply = Except.error err) fun _ => True

end Shared

/-! ## What a rename has captured -/

inductive Captured
  | kv (fromBucket fromKey : Str) (value : KeyRevision) (toBucket toKey : Str)
  | object (fromBucket fromObject : Str) (version : ObjectVersion) (toBucket toObject : Str)
deriving DecidableEq, Repr

namespace Captured

def source : Captured → Target
  | .kv fromBucket fromKey _ _ _ => .kv fromBucket fromKey
  | .object fromBucket fromObject _ _ _ => .object fromBucket fromObject

def bytes : Captured → Bytes
  | .kv _ _ value _ _ => value.bytes
  | .object _ _ version _ _ => version.bytes

/-- The generation in which the bytes were captured. -/
def generation : Captured → Nat
  | .kv _ _ value _ _ => value.revision
  | .object _ _ version _ _ => version.sequence

/-- The bytes are there in the generation in which they were captured. -/
def AtSource (state : MemoryStorage) : Captured → Prop
  | .kv fromBucket fromKey value _ _ => state.kv[(fromBucket, fromKey)]? = some value
  | .object fromBucket fromObject version _ _ =>
      state.objects[(fromBucket, fromObject)]? = some version

/-- The bytes are there at the destination, in whatever generation. -/
def AtDestination (state : MemoryStorage) : Captured → Prop
  | .kv _ _ value toBucket toKey =>
      state.kv[(toBucket, toKey)]?.map (·.bytes) = some value.bytes
  | .object _ _ version toBucket toObject =>
      state.objects[(toBucket, toObject)]?.map (·.bytes) = some version.bytes

def put (idempotencyKey : Str) : Captured → StorageCall
  | .kv _ _ value toBucket toKey => .kvPutIdempotent toBucket toKey value.bytes idempotencyKey
  | .object _ _ version toBucket toObject =>
      .objectPutIdempotent toBucket toObject version.bytes idempotencyKey

def delete : Captured → StorageCall
  | .kv fromBucket fromKey value _ _ => .kvDeleteIfRevision fromBucket fromKey value.revision
  | .object fromBucket fromObject version _ _ =>
      .objectDeleteIfSequence fromBucket fromObject version.sequence version.nuid

def operation : Captured → QueueOperation
  | .kv fromBucket fromKey value toBucket toKey =>
      .kvRenameComplete fromBucket fromKey value.revision toBucket toKey value.bytes
  | .object fromBucket fromObject version toBucket toObject =>
      .objectRenameComplete fromBucket fromObject version.sequence version.nuid toBucket toObject
        version.bytes

def effectId (idempotencyKey : Str) : Captured → EffectId
  | .kv _ _ _ toBucket toKey => .kv toBucket toKey idempotencyKey
  | .object _ _ _ toBucket toObject => .object toBucket toObject idempotencyKey

variable (captured : Captured) (idempotencyKey : Str)

theorem effectId_put : (captured.put idempotencyKey).effectId =
    some (captured.effectId idempotencyKey) := by
  cases captured <;> rfl

theorem effectId_delete : captured.delete.effectId = none := by
  cases captured <;> rfl

theorem key_effectId : (captured.effectId idempotencyKey).idempotencyKey = idempotencyKey := by
  cases captured <;> rfl

theorem accepted_put [Serde] : (captured.put idempotencyKey).accepted = true := by
  cases captured <;> rfl

end Captured

/-! ## The calls of a completion -/

/-- The calls begin with these, and those since are of this kind. -/
def Grown (Allowed : Made → Prop) (upTo made : List Made) : Prop :=
  ∃ since, made = upTo ++ since ∧ ∀ other ∈ since, Allowed other

theorem Grown.append {Allowed : Made → Prop} {upTo made : List Made} (h : Grown Allowed upTo made)
    {other : Made} (hOther : Allowed other) : Grown Allowed upTo (made ++ [other]) := by
  obtain ⟨since, rfl, hSince⟩ := h
  refine ⟨since ++ [other], List.append_assoc _ _ _, ?_⟩
  intro last hMem
  rcases List.mem_append.mp hMem with hMem | hMem
  · exact hSince last hMem
  · rw [List.mem_singleton.mp hMem]
    exact hOther

/-- The mount looks, puts the captured bytes and deletes the captured generation; the other
clients do what they like under other keys. -/
def Completes (Own : Str → Prop) (captured : Captured) (idempotencyKey : Str) (made : Made) :
    Prop :=
  if made.own then
    made.call.reads = true ∨ made.call = captured.put idempotencyKey ∨ made.call = captured.delete
  else ¬ made.call.Carries Own

/-- The completion is the one entry of the file. -/
def Waits (captured : Captured) (idempotencyKey : Str) (file : List QueueEntry) : Prop :=
  ∃ attempts, file = [⟨idempotencyKey, captured.operation, attempts, false⟩]

/-- The captured bytes have been put by the completion. -/
def PutMade (captured : Captured) (idempotencyKey : Str) (world : World (List Made)) : Prop :=
  (⟨true, captured.put idempotencyKey⟩ : Made) ∈ world.store

structure Working (Own : Str → Prop) (captured : Captured) (idempotencyKey : Str)
    (upTo : List Made) (world : World (List Made)) : Prop where
  calls : Grown (Completes Own captured idempotencyKey) upTo world.store
  file : Waits captured idempotencyKey world.file

structure Finished (Own : Str → Prop) (captured : Captured) (idempotencyKey : Str)
    (upTo : List Made) (world : World (List Made)) : Prop where
  calls : Grown (Completes Own captured idempotencyKey) upTo world.store
  file : world.file = []
  put : PutMade captured idempotencyKey world

def Completing (Own : Str → Prop) (captured : Captured) (idempotencyKey : Str)
    (upTo : List Made) (world : World (List Made)) : Prop :=
  Working Own captured idempotencyKey upTo world ∨ Finished Own captured idempotencyKey upTo world

/-! ## Replaying a completion -/

section Runs

variable [Serde] {Own : Str → Prop} {C : World (List Made) → Prop}

/-- The other clients keep it, and a run may be cut off where it holds. -/
structure Rests (Own : Str → Prop) (C P : World (List Made) → Prop) : Prop where
  stable : Stable (Others Own) P
  stop : ∀ world, P world → C world

omit [Serde] in
theorem rests_same {P : World (List Made) → Prop} {φ : Prop} (h : Rests Own C P) :
    Rests Own C fun world => φ ∧ P world :=
  ⟨fun _ _ hEnv hP => ⟨hP.1, h.stable hEnv hP.2⟩, fun world hP => h.stop world hP.2⟩

theorem triple_ownCall {request : StorageCall} {P : World (List Made) → Prop}
    {Q : TransportResult request.Value → World (List Made) → Prop} (hP : Rests Own C P)
    (hQ : ∀ reply, Rests Own C (Q reply))
    (hDone : ∀ world, P world → Q (MemoryStorage.handle (stateOf world.store) request).1
      { world with store := world.store ++ [⟨true, request⟩] })
    (hRefused : ∀ world err, P world → Q (.error err) world)
    (hLost : ∀ world err, P world → Q (.error err)
      { world with store := world.store ++ [⟨true, request⟩] }) :
    Triple (Atomic shared) (Others Own) P (call request).run Q C := by
  refine Triple.perform hP.stable (fun reply => (hQ reply).stable) hP.stop
    (fun reply => (hQ reply).stop) ?_
  intro world reply world' hWorld hCall
  cases hCall with
  | store hStore =>
      rcases hStore.inv with ⟨rfl, rfl⟩ | ⟨⟨err, rfl⟩, rfl | ⟨-, rfl⟩⟩
      · exact hDone world hWorld
      · exact hRefused world err hWorld
      · exact hLost world err hWorld

/-- A write of the queue file takes place or leaves it as it was. -/
theorem triple_ownPersist {entries : List QueueEntry} {P : World (List Made) → Prop}
    {Q : TransportResult Unit → World (List Made) → Prop} (hP : Rests Own C P)
    (hQ : ∀ reply, Rests Own C (Q reply))
    (hDone : ∀ world, P world → Q (.ok ()) { world with file := entries })
    (hRefused : ∀ world err, P world → Q (.error err) world) :
    Triple (Atomic shared) (Others Own) P (persistEntries entries).run Q C := by
  refine Triple.perform hP.stable (fun reply => (hQ reply).stable) hP.stop
    (fun reply => (hQ reply).stop) ?_
  intro world reply world' hWorld hCall
  cases hCall with
  | persisted => exact hDone world hWorld
  | refused => exact hRefused world _ hWorld

variable {captured : Captured} {idempotencyKey : Str} {upTo : List Made}

omit [Serde] in
theorem completes_own {call : StorageCall} (h : call.reads = true ∨
    call = captured.put idempotencyKey ∨ call = captured.delete) :
    Completes Own captured idempotencyKey ⟨true, call⟩ := by
  rw [Completes, if_pos rfl]
  exact h

omit [Serde] in
theorem completes_other {call : StorageCall} (h : ¬ call.Carries Own) :
    Completes Own captured idempotencyKey ⟨false, call⟩ := by
  rw [Completes, if_neg Bool.false_ne_true]
  exact h

omit [Serde] in
theorem putMade_stable : Stable (Others Own) (PutMade captured idempotencyKey) := by
  intro world world' hEnv hPut
  cases hEnv with
  | call hForeign => exact List.mem_append_left _ hPut

omit [Serde] in
theorem rests_working :
    Rests Own (Completing Own captured idempotencyKey upTo)
      (Working Own captured idempotencyKey upTo) where
  stable := by
    intro world world' hEnv h
    cases hEnv with
    | call hForeign => exact ⟨h.calls.append (completes_other hForeign), h.file⟩
  stop _ h := Or.inl h

omit [Serde] in
theorem rests_put :
    Rests Own (Completing Own captured idempotencyKey upTo) fun world =>
      Working Own captured idempotencyKey upTo world ∧ PutMade captured idempotencyKey world where
  stable _ _ hEnv h := ⟨rests_working.stable hEnv h.1, putMade_stable hEnv h.2⟩
  stop _ h := Or.inl h.1

omit [Serde] in
theorem rests_finished :
    Rests Own (Completing Own captured idempotencyKey upTo)
      (Finished Own captured idempotencyKey upTo) where
  stable := by
    intro world world' hEnv h
    cases hEnv with
    | call hForeign =>
        exact ⟨h.calls.append (completes_other hForeign), h.file, List.mem_append_left _ h.put⟩
  stop _ h := Or.inr h

omit [Serde] in
theorem effectId_of_reads {call : StorageCall} (h : call.reads = true) : call.effectId = none := by
  cases call <;> first | rfl | cases h

/-- A call under the key of the completion is its put. -/
theorem put_mem_of_applied (hOwn : Own idempotencyKey)
    (hUnused : ∀ other ∈ upTo, ¬ other.call.Carries Own) {made : List Made}
    (h : Grown (Completes Own captured idempotencyKey) upTo made)
    (hApplied : (stateOf made).applied (captured.effectId idempotencyKey) = true) :
    (⟨true, captured.put idempotencyKey⟩ : Made) ∈ made := by
  rw [stateOf, MemoryStorage.applied_run, List.any_map, List.any_eq_true] at hApplied
  obtain ⟨⟨own, call⟩, hMem, hId⟩ := hApplied
  simp only [Function.comp_apply, Bool.and_eq_true, beq_iff_eq] at hId
  have hCarries : call.Carries Own := ⟨_, hId.1, by rwa [Captured.key_effectId]⟩
  obtain ⟨since, rfl, hSince⟩ := h
  rcases List.mem_append.mp hMem with hEarlier | hLater
  · exact absurd hCarries (hUnused _ hEarlier)
  · have hCompletes := hSince _ hLater
    cases own with
    | false =>
        rw [Completes, if_neg Bool.false_ne_true] at hCompletes
        exact absurd hCarries hCompletes
    | true =>
        rw [Completes, if_pos rfl] at hCompletes
        rcases hCompletes with hReads | rfl | rfl
        · rw [effectId_of_reads hReads] at hId
          cases hId.1
        · exact hMem
        · rw [Captured.effectId_delete] at hId
          cases hId.1

theorem applied_of_put_mem {made : List Made}
    (h : (⟨true, captured.put idempotencyKey⟩ : Made) ∈ made) :
    (stateOf made).applied (captured.effectId idempotencyKey) = true := by
  rw [stateOf, MemoryStorage.applied_run, List.any_map, List.any_eq_true]
  refine ⟨_, h, ?_⟩
  simp [Captured.effectId_put, Captured.accepted_put]

/-! ### One step of the replay -/

/-- A call that keeps what held before it, and what its answer tells. -/
theorem triple_ownKept {request : StorageCall} {P : World (List Made) → Prop}
    {F : TransportResult request.Value → World (List Made) → Prop} (hP : Rests Own C P)
    (hF : ∀ reply, Stable (Others Own) (F reply))
    (hKept : ∀ world, P world → P { world with store := world.store ++ [⟨true, request⟩] })
    (hDone : ∀ world, P world → F (MemoryStorage.handle (stateOf world.store) request).1
      { world with store := world.store ++ [⟨true, request⟩] })
    (hError : ∀ err world, F (.error err) world) :
    Triple (Atomic shared) (Others Own) P (call request).run
      (fun reply world => P world ∧ F reply world) C := by
  refine triple_ownCall hP ?_ ?_ ?_ ?_
  · intro reply
    exact ⟨fun _ _ hEnv h => ⟨hP.stable hEnv h.1, hF reply hEnv h.2⟩,
      fun world h => hP.stop world h.1⟩
  · exact fun world h => ⟨hKept world h, hDone world h⟩
  · exact fun world err h => ⟨h, hError err world⟩
  · exact fun world err h => ⟨hKept world h, hError err _⟩

omit [Serde] in
theorem Working.own {world : World (List Made)} (h : Working Own captured idempotencyKey upTo world)
    {call : StorageCall} (hCall : call.reads = true ∨ call = captured.put idempotencyKey ∨
      call = captured.delete) :
    Working Own captured idempotencyKey upTo
      { world with store := world.store ++ [⟨true, call⟩] } :=
  ⟨h.calls.append (completes_own hCall), h.file⟩

/-- Code of the executor works on the completion, and may have found or made its put. -/
def Steps (Own : Str → Prop) (captured : Captured) (idempotencyKey : Str) (upTo : List Made)
    {α : Type} (p : Transport α) (Tells : TransportResult α → Prop) : Prop :=
  Triple (Atomic shared) (Others Own) (Working Own captured idempotencyKey upTo) p.run
    (fun reply world => Working Own captured idempotencyKey upTo world ∧
      (Tells reply → PutMade captured idempotencyKey world))
    (Completing Own captured idempotencyKey upTo)

omit [Serde] in
theorem stable_tells {φ : Prop} :
    Stable (Others Own) fun world => φ → PutMade captured idempotencyKey world :=
  fun _ _ hEnv h hφ => putMade_stable hEnv (h hφ)

/-- What follows once the put is known to be there. -/
theorem triple_afterPut {request : StorageCall}
    (hCall : request.reads = true ∨ request = captured.delete) :
    Triple (Atomic shared) (Others Own)
      (fun world => Working Own captured idempotencyKey upTo world ∧
        PutMade captured idempotencyKey world) (call request).run
      (fun _ world => Working Own captured idempotencyKey upTo world ∧
        PutMade captured idempotencyKey world) (Completing Own captured idempotencyKey upTo) := by
  refine (triple_ownKept (F := fun _ _ => True) rests_put (fun _ _ _ _ h => h) ?_
    (fun _ _ => trivial) fun _ _ => trivial).weaken (fun _ h => h) (fun _ _ h => h.1) fun _ h => h
  intro world h
  exact ⟨h.1.own (hCall.imp_right Or.inr), List.mem_append_left _ h.2⟩

theorem steps_renameApplied {looked deleted : Transport Bool}
    (hLooked : Steps Own captured idempotencyKey upTo looked (· = .ok true))
    (hDeleted : Triple (Atomic shared) (Others Own)
      (fun world => Working Own captured idempotencyKey upTo world ∧
        PutMade captured idempotencyKey world) deleted.run
      (fun _ world => Working Own captured idempotencyKey upTo world ∧
        PutMade captured idempotencyKey world) (Completing Own captured idempotencyKey upTo)) :
    Steps Own captured idempotencyKey upTo (do
      let destinationApplied ← looked
      if !destinationApplied then
        return false
      deleted) (· = .ok true) := by
  refine Triple.bindExcept _ hLooked ?_ ?_ ?_ ?_
  · exact fun err _ _ hEnv h => ⟨rests_working.stable hEnv h.1, stable_tells hEnv h.2⟩
  · exact fun err world h => ⟨h.1, fun hOk => by cases hOk⟩
  · exact fun err world h => Or.inl h.1
  · intro applied
    cases applied with
    | false =>
        refine .ret ?_ (fun world h => ⟨h.1, fun hOk => by cases hOk⟩) fun world h => Or.inl h.1
        exact fun _ _ hEnv h => ⟨rests_working.stable hEnv h.1, stable_tells hEnv h.2⟩
    | true =>
        exact hDeleted.weaken (fun world h => ⟨h.1, h.2 rfl⟩) (fun _ world h => ⟨h.1, fun _ => h.2⟩)
          fun _ h => h

/-- The answer of the storage about the put of the completion. -/
theorem steps_putApplied (hOwn : Own idempotencyKey)
    (hUnused : ∀ other ∈ upTo, ¬ other.call.Carries Own) {request : StorageCall}
    (hReads : request.reads = true) {applied : TransportResult request.Value → Prop}
    (hAnswer : ∀ state : MemoryStorage, applied (MemoryStorage.handle state request).1 →
      state.applied (captured.effectId idempotencyKey) = true)
    (hError : ∀ err, ¬ applied (.error err)) :
    Steps Own captured idempotencyKey upTo (call request) applied := by
  refine triple_ownKept rests_working (fun _ => stable_tells)
    (fun world h => h.own (Or.inl hReads)) ?_ fun err world h => absurd h (hError err)
  intro world h hApplied
  exact List.mem_append_left _ (put_mem_of_applied hOwn hUnused h.calls (hAnswer _ hApplied))

theorem steps_isApplied (hOwn : Own idempotencyKey)
    (hUnused : ∀ other ∈ upTo, ¬ other.call.Carries Own) (attempts : Nat) :
    Steps Own captured idempotencyKey upTo
      (StoreReplayExecutor.isApplied ⟨idempotencyKey, captured.operation, attempts, false⟩)
      (· = .ok true) := by
  cases captured with
  | kv =>
      refine steps_renameApplied (steps_putApplied hOwn hUnused rfl ?_ ?_)
        (triple_afterPut (Or.inl rfl))
      · exact fun state hApplied => Except.ok.inj hApplied
      · exact fun err h => by cases h
  | object =>
      refine steps_renameApplied (steps_putApplied hOwn hUnused rfl ?_ ?_)
        (triple_afterPut (Or.inl rfl))
      · exact fun state hApplied => Except.ok.inj hApplied
      · exact fun err h => by cases h

theorem steps_put :
    Steps Own captured idempotencyKey upTo (call (captured.put idempotencyKey)) fun reply =>
      ∃ value, reply = .ok value := by
  refine triple_ownKept rests_working (fun _ => stable_tells)
    (fun world h => h.own (Or.inr (Or.inl rfl))) ?_ ?_
  · exact fun world h _ => List.mem_append_right _ (List.mem_singleton_self _)
  · rintro err world ⟨value, hOk⟩
    cases hOk

theorem steps_putThenDelete (captured : Captured) :
    Steps Own captured idempotencyKey upTo (do
      let _ ← call (captured.put idempotencyKey)
      call captured.delete) fun reply => ∃ value, reply = .ok value := by
  refine Triple.bindExcept _ steps_put ?_ ?_ ?_ ?_
  · exact fun err _ _ hEnv h => ⟨rests_working.stable hEnv h.1, stable_tells hEnv h.2⟩
  · intro err world h
    refine ⟨h.1, ?_⟩
    rintro ⟨value, hOk⟩
    cases hOk
  · exact fun err world h => Or.inl h.1
  · intro value
    exact (triple_afterPut (Or.inr rfl)).weaken (fun world h => ⟨h.1, h.2 ⟨value, rfl⟩⟩)
      (fun _ world h => ⟨h.1, fun _ => h.2⟩) fun _ h => h

theorem steps_execute (attempts : Nat) :
    Steps Own captured idempotencyKey upTo
      (StoreReplayExecutor.execute ⟨idempotencyKey, captured.operation, attempts, false⟩)
      fun reply => ∃ value, reply = .ok value := by
  cases captured with
  | kv fromBucket fromKey value toBucket toKey =>
      exact steps_putThenDelete (.kv fromBucket fromKey value toBucket toKey)
  | object fromBucket fromObject version toBucket toObject =>
      exact steps_putThenDelete (.object fromBucket fromObject version toBucket toObject)

/-! ### The replay -/

omit [Serde] in
theorem rests_completing :
    Rests Own (Completing Own captured idempotencyKey upTo)
      (Completing Own captured idempotencyKey upTo) where
  stable := by
    rintro world world' hEnv (h | h)
    · exact Or.inl (rests_working.stable hEnv h)
    · exact Or.inr (rests_finished.stable hEnv h)
  stop _ h := h

/-- The queue in memory holds the completion as long as the file does. -/
def Opened (Own : Str → Prop) (captured : Captured) (idempotencyKey : Str) (upTo : List Made)
    (queue : List QueueEntry) (world : World (List Made)) : Prop :=
  (Working Own captured idempotencyKey upTo world ∧ Waits captured idempotencyKey queue) ∨
    (Finished Own captured idempotencyKey upTo world ∧ queue = [])

omit [Serde] in
theorem rests_opened (queue : List QueueEntry) :
    Rests Own (Completing Own captured idempotencyKey upTo)
      (Opened Own captured idempotencyKey upTo queue) where
  stable := by
    rintro world world' hEnv (h | h)
    · exact Or.inl ⟨rests_working.stable hEnv h.1, h.2⟩
    · exact Or.inr ⟨rests_finished.stable hEnv h.1, h.2⟩
  stop _ h := h.imp (fun h => h.1) fun h => h.1

theorem triple_working_ret {attempts : Nat} {reply : TransportResult Unit} :
    Triple (Atomic shared) (Others Own) (Working Own captured idempotencyKey upTo)
      (pure ([⟨idempotencyKey, captured.operation, attempts, false⟩], reply))
      (fun result => Opened Own captured idempotencyKey upTo result.1)
      (Completing Own captured idempotencyKey upTo) :=
  .ret rests_working.stable (fun _ h => Or.inl ⟨h, attempts, rfl⟩) fun _ h => Or.inl h

/-- The file once the completion was to leave it. -/
def Dropped (Own : Str → Prop) (captured : Captured) (idempotencyKey : Str) (upTo : List Made)
    (reply : TransportResult Unit) (world : World (List Made)) : Prop :=
  match reply with
  | .ok _ => Finished Own captured idempotencyKey upTo world
  | .error _ => Working Own captured idempotencyKey upTo world

/-- After the put the completion may leave the file. -/
theorem triple_dropCompletion (attempts : Nat) :
    Triple (Atomic shared) (Others Own)
      (fun world => Working Own captured idempotencyKey upTo world ∧
        PutMade captured idempotencyKey world)
      (dropEntry storeReplayExecutor ⟨idempotencyKey, captured.operation, attempts, false⟩ [])
      (fun result => Opened Own captured idempotencyKey upTo result.1)
      (Completing Own captured idempotencyKey upTo) := by
  refine Triple.bind (Dropped Own captured idempotencyKey upTo)
    (triple_ownPersist rests_put ?_ ?_ ?_) ?_
  · intro reply
    cases reply with
    | ok _ => exact rests_finished
    | error err => exact rests_working
  · exact fun world h => ⟨h.1.calls, rfl, h.2⟩
  · exact fun world err h => h.1
  · intro reply
    cases reply with
    | ok _ =>
        exact .ret rests_finished.stable (fun _ h => Or.inr ⟨h, rfl⟩) rests_finished.stop
    | error err => exact triple_working_ret

theorem triple_noteAttempt (attempts : Nat) :
    Triple (Atomic shared) (Others Own) (Working Own captured idempotencyKey upTo)
      (persistEntries [⟨idempotencyKey, captured.operation, attempts, false⟩]).run
      (fun _ => Working Own captured idempotencyKey upTo)
      (Completing Own captured idempotencyKey upTo) := by
  refine triple_ownPersist rests_working (fun _ => rests_working) ?_ fun _ _ h => h
  exact fun world h => ⟨h.calls, attempts, rfl⟩

/-- The replay of the completion, up to the first error. -/
theorem triple_replayCompletion (hOwn : Own idempotencyKey)
    (hUnused : ∀ other ∈ upTo, ¬ other.call.Carries Own) (attempts : Nat) :
    Triple (Atomic shared) (Others Own) (Working Own captured idempotencyKey upTo)
      (replayEntries storeReplayExecutor [⟨idempotencyKey, captured.operation, attempts, false⟩])
      (fun result => Opened Own captured idempotencyKey upTo result.1)
      (Completing Own captured idempotencyKey upTo) := by
  rw [replayEntries, if_neg Bool.false_ne_true]
  refine Triple.bind _ (steps_isApplied hOwn hUnused attempts) ?_
  intro applied
  rcases applied with err | _ | _
  · exact triple_working_ret.weaken (fun _ h => h.1) (fun _ _ h => h) fun _ h => h
  · refine Triple.bind _ ((triple_noteAttempt _).weaken (fun _ h => h.1) (fun _ _ h => h)
      fun _ h => h) ?_
    intro persisted
    cases persisted with
    | error err => exact triple_working_ret
    | ok _ =>
        refine Triple.bind _ (steps_execute _) ?_
        intro executed
        cases executed with
        | ok value =>
            exact (triple_dropCompletion _).weaken (fun _ h => ⟨h.1, h.2 ⟨value, rfl⟩⟩)
              (fun _ _ h => h) fun _ h => h
        | error err =>
            -- nothing is noted in the entry of a rename
            have hRefresh : storeReplayExecutor.refreshAfterFailedExecute
                (QueueEntry.attempt ⟨idempotencyKey, captured.operation, attempts, false⟩) =
                  pure (QueueEntry.attempt ⟨idempotencyKey, captured.operation, attempts, false⟩,
                    .ok ()) := by
              cases captured <;> rfl
            dsimp only
            rw [hRefresh, pure_bind]
            refine Triple.bind _ ((triple_noteAttempt _).weaken (fun _ h => h.1) (fun _ _ h => h)
              fun _ h => h) ?_
            intro written
            cases written <;> exact triple_working_ret
  · exact (triple_dropCompletion _).weaken (fun _ h => ⟨h.1, h.2 rfl⟩) (fun _ _ h => h) fun _ h => h

/-- Whatever the queue in memory holds is replayed. -/
theorem triple_replayOpened (hOwn : Own idempotencyKey)
    (hUnused : ∀ other ∈ upTo, ¬ other.call.Carries Own) (queue : List QueueEntry) :
    Triple (Atomic shared) (Others Own) (Opened Own captured idempotencyKey upTo queue)
      (replayEntries storeReplayExecutor queue)
      (fun result => Opened Own captured idempotencyKey upTo result.1)
      (Completing Own captured idempotencyKey upTo) := by
  refine Triple.assume (φ := Waits captured idempotencyKey queue ∨ queue = [])
    (fun world h => h.imp (fun h => h.2) fun h => h.2) ?_
  rintro (⟨attempts, rfl⟩ | rfl)
  · refine (triple_replayCompletion hOwn hUnused attempts).weaken ?_ (fun _ _ h => h) fun _ h => h
    rintro world (h | h)
    · exact h.1
    · cases h.2
  · exact .ret (rests_opened []).stable (fun _ h => h) (rests_opened []).stop

/-! ### Opening the queue -/

omit [Serde] in
theorem compacted_of_waits {file : List QueueEntry}
    (h : Waits captured idempotencyKey file ∨ file = []) :
    WritebackQueue.compactCompletedEntries file = file := by
  rcases h with ⟨attempts, rfl⟩ | rfl <;> rfl

/-- What the opened queue holds, if the file could be read. -/
def OpenedAs {α : Type} (Own : Str → Prop) (captured : Captured) (idempotencyKey : Str)
    (upTo : List Made) (entries : α → List QueueEntry) (reply : TransportResult α)
    (world : World (List Made)) : Prop :=
  match reply with
  | .ok opened => Opened Own captured idempotencyKey upTo (entries opened) world
  | .error _ => Completing Own captured idempotencyKey upTo world

omit [Serde] in
theorem rests_openedAs {α : Type} (entries : α → List QueueEntry) (reply : TransportResult α) :
    Rests Own (Completing Own captured idempotencyKey upTo)
      (OpenedAs Own captured idempotencyKey upTo entries reply) := by
  cases reply with
  | ok opened => exact rests_opened _
  | error err => exact rests_completing

theorem triple_readCompletion :
    Triple (Atomic shared) (Others Own) (Completing Own captured idempotencyKey upTo)
      readEntries.run (OpenedAs Own captured idempotencyKey upTo id)
      (Completing Own captured idempotencyKey upTo) := by
  refine Triple.perform rests_completing.stable (fun reply => (rests_openedAs id reply).stable)
    (fun _ h => h) (fun reply => (rests_openedAs id reply).stop) ?_
  intro world reply world' h hCall
  cases hCall with
  | unread => exact h
  | loaded => exact h.imp (fun h => ⟨h, h.file⟩) fun h => ⟨h, h.file⟩

theorem triple_openCompletion (capacity : Nat) :
    Triple (Atomic shared) (Others Own) (Completing Own captured idempotencyKey upTo)
      (WritebackQueue.open capacity).run
      (OpenedAs Own captured idempotencyKey upTo WritebackQueue.entries)
      (Completing Own captured idempotencyKey upTo) := by
  refine Triple.bindExcept _ triple_readCompletion (fun _ => rests_completing.stable)
    (fun _ _ h => h) (fun _ _ h => h) ?_
  intro entries
  refine Triple.assume (φ := Waits captured idempotencyKey entries ∨ entries = [])
    (fun world h => h.imp (fun h => h.2) fun h => h.2) ?_
  intro hEntries
  simp only [compacted_of_waits hEntries, ne_eq, not_true_eq_false, if_false]
  exact .ret (rests_opened entries).stable (fun _ h => h) (rests_opened entries).stop

end Runs

end EventFs.Transport
