import EventFs.Transport.Completion
import EventFs.Transport.QueueEffect

/-!
# What a completion has done

The calls made since a capture tell what the completion has done: it removes the captured
generation or nothing, and the first of its puts brings the captured bytes to the
destination and the later ones change nothing.
-/

namespace EventFs.Transport

open Library Protocol Program MemoryStorage

section Log

variable [Serde] {Own : Str → Prop} {captured : Captured} {idempotencyKey : Str}
  {upTo between : List Made} {state : MemoryStorage}

/-! ## The source -/

omit [Serde] in
theorem live_of_atSource (h : captured.AtSource state) :
    (state.slot captured.source).live = some captured.generation := by
  cases captured with
  | kv fromBucket fromKey value toBucket toKey =>
      have hValue : state.kv[(fromBucket, fromKey)]? = some value := h
      simp [slot, Slot.live, Captured.source, Captured.generation, hValue]
  | object fromBucket fromObject version toBucket toObject =>
      have hVersion : state.objects[(fromBucket, fromObject)]? = some version := h
      simp [slot, Slot.live, Captured.source, Captured.generation, hVersion]

/-- The delete of a completion removes the captured generation or nothing. -/
theorem handle_delete (hCaptured : captured.AtSource (stateOf upTo)) (made : List Made) :
    (handle (stateOf made) captured.delete).2 =
      if ((stateOf made).slot captured.source).live = some captured.generation then
        (stateOf made).without captured.source
      else stateOf made := by
  cases captured with
  | kv fromBucket fromKey value toBucket toKey =>
      exact kvDeleteIfRevision_eq (stateOf made) fromBucket fromKey value.revision
  | object fromBucket fromObject version toBucket toObject =>
      exact objectDeleteIfSequence_eq (nuid_run _ fromBucket fromObject)
        (Or.inr (nuid_run _ fromBucket fromObject version hCaptured))

/-- A source that has been put or removed since the capture is left alone. -/
theorem handle_delete_of_disturbed (hCaptured : captured.AtSource (stateOf upTo))
    (hLength : (upTo ++ between).length < u64Max)
    (hDisturbed : ¬ Undisturbed captured.source (upTo.map (·.call)) (between.map (·.call))) :
    (handle (stateOf (upTo ++ between)) captured.delete).2 = stateOf (upTo ++ between) := by
  rw [handle_delete hCaptured, if_neg]
  intro hLive
  refine hDisturbed ?_
  have hCapturedLive := live_of_atSource hCaptured
  rw [List.length_append] at hLength
  have hBefore := generations_run captured.source (upTo.map (·.call)) (by
    rw [List.length_map]
    omega)
  have hAfter := generations_run captured.source ((upTo ++ between).map (·.call)) (by
    rw [List.length_map, List.length_append]
    omega)
  rw [List.map_append, effects_append, List.nil_append, Generations.applyAll, List.foldl_append,
    ← Generations.applyAll, ← Generations.applyAll] at hAfter
  have hNumber := congrArg Generations.live hBefore
  rw [show ((run (upTo.map (·.call))).generations captured.source).live = some captured.generation
    from hCapturedLive] at hNumber
  rw [← effects_eq_keep_iff, ← Generations.live_again_iff (Generations.live_le_puts hNumber.symm)
    hNumber.symm, ← congrArg Generations.live hAfter]
  rw [stateOf, List.map_append] at hLive
  exact hLive

/-! ## The destination -/

def Captured.destination : Captured → Target
  | .kv _ _ _ toBucket toKey => .kv toBucket toKey
  | .object _ _ _ toBucket toObject => .object toBucket toObject

omit [Serde] in
/-- A put under a new key takes effect. -/
theorem putsNow_put (h : state.applied (captured.effectId idempotencyKey) = false) :
    state.putsNow captured.destination (captured.put idempotencyKey) = true := by
  cases captured <;>
    simpa [putsNow, Captured.put, Captured.destination, Captured.effectId] using h

theorem atDestination_put (h : state.applied (captured.effectId idempotencyKey) = false) :
    captured.AtDestination (handle state (captured.put idempotencyKey)).2 := by
  cases captured with
  | kv fromBucket fromKey value toBucket toKey =>
      have hNew : ¬ state.kvApplied.contains (toBucket, toKey, idempotencyKey) = true := by
        rw [Bool.not_eq_true]
        exact h
      show ((state.kvPutIdempotent toBucket toKey value.bytes idempotencyKey).2.kv[
        (toBucket, toKey)]?).map (·.bytes) = some value.bytes
      rw [kvPutIdempotent_state, if_neg hNew]
      simp [putKvRecorded, putKv]
  | object fromBucket fromObject version toBucket toObject =>
      have hNew : ¬ state.objectApplied.contains (toBucket, toObject, idempotencyKey) = true := by
        rw [Bool.not_eq_true]
        exact h
      show ((state.objectPutIdempotent toBucket toObject version.bytes idempotencyKey).2.objects[
        (toBucket, toObject)]?).map (·.bytes) = some version.bytes
      rw [objectPutIdempotent_state, if_neg hNew]
      simp [putObjectRecorded, putObject]

/-! ## The whole log -/

/-- A rename that has been queued. Since the capture the mount has made no other changes
than the put and the delete of the completion. -/
structure QueuedRename (Own : Str → Prop) (captured : Captured) (idempotencyKey : Str)
    (upTo : List Made) (world : World (List Made)) : Prop where
  atSource : captured.AtSource (stateOf upTo)
  calls : Grown (Completes Own captured idempotencyKey) upTo world.store
  /-- Generations are numbered by a `u64`. -/
  source : ∀ between after, world.store = upTo ++ between ++ ⟨true, captured.delete⟩ :: after →
    (upTo ++ between).length < u64Max →
      ¬ Undisturbed captured.source (upTo.map (·.call)) (between.map (·.call)) →
        stateOf (upTo ++ between ++ [⟨true, captured.delete⟩]) = stateOf (upTo ++ between)
  first : ∀ between after,
    world.store = upTo ++ between ++ ⟨true, captured.put idempotencyKey⟩ :: after →
      ⟨true, captured.put idempotencyKey⟩ ∉ between →
        (captured.put idempotencyKey).puts ((upTo ++ between).map (·.call)) captured.destination ∧
          captured.AtDestination
            (stateOf (upTo ++ between ++ [⟨true, captured.put idempotencyKey⟩]))
  again : ∀ between after,
    world.store = upTo ++ between ++ ⟨true, captured.put idempotencyKey⟩ :: after →
      ⟨true, captured.put idempotencyKey⟩ ∈ between →
        stateOf (upTo ++ between ++ [⟨true, captured.put idempotencyKey⟩]) =
          stateOf (upTo ++ between)
  bytes : Waits captured idempotencyKey world.file ∨
    world.file = [] ∧ PutMade captured idempotencyKey world

omit [Serde] in
theorem Grown.front {Allowed : Made → Prop} {made after : List Made} {other : Made}
    (h : Grown Allowed upTo made) (hMade : made = upTo ++ between ++ other :: after) :
    Grown Allowed upTo (upTo ++ between) := by
  obtain ⟨since, rfl, hSince⟩ := h
  rw [List.append_assoc, List.append_cancel_left_eq] at hMade
  refine ⟨between, rfl, ?_⟩
  intro earlier hMem
  exact hSince earlier (by rw [hMade]; exact List.mem_append_left _ hMem)

omit [Serde] in
theorem Completing.calls {world : World (List Made)}
    (h : Completing Own captured idempotencyKey upTo world) :
    Grown (Completes Own captured idempotencyKey) upTo world.store := by
  rcases h with h | h
  · exact h.calls
  · exact h.calls

omit [Serde] in
theorem put_notMem (hOwn : Own idempotencyKey)
    (hUnused : ∀ other ∈ upTo, ¬ other.call.Carries Own) :
    (⟨true, captured.put idempotencyKey⟩ : Made) ∉ upTo := by
  intro hMem
  refine hUnused _ hMem ⟨_, captured.effectId_put idempotencyKey, ?_⟩
  rwa [Captured.key_effectId]

theorem Completing.queuedRename (hOwn : Own idempotencyKey)
    (hUnused : ∀ other ∈ upTo, ¬ other.call.Carries Own)
    (hCaptured : captured.AtSource (stateOf upTo)) {world : World (List Made)}
    (h : Completing Own captured idempotencyKey upTo world) :
    QueuedRename Own captured idempotencyKey upTo world where
  atSource := hCaptured
  calls := h.calls
  source between after hStore hLength hDisturbed := by
    rw [stateOf_append]
    exact handle_delete_of_disturbed hCaptured hLength hDisturbed
  first between after hStore hFirst := by
    have hNew : (stateOf (upTo ++ between)).applied (captured.effectId idempotencyKey) = false := by
      rw [← Bool.not_eq_true]
      intro hApplied
      rcases List.mem_append.mp (put_mem_of_applied hOwn hUnused (h.calls.front hStore) hApplied)
        with hEarlier | hLater
      · exact put_notMem hOwn hUnused hEarlier
      · exact hFirst hLater
    constructor
    · have hPuts := putsNow_put hNew
      rwa [stateOf, putsNow_run] at hPuts
    · rw [stateOf_append]
      exact atDestination_put hNew
  again between after _ hAgain := by
    rw [stateOf_append]
    exact handle_of_applied (captured.effectId_put idempotencyKey)
      (applied_of_put_mem (List.mem_append_right upTo hAgain))
  bytes := h.imp (fun h => h.file) fun h => ⟨h.file, h.put⟩

end Log

end EventFs.Transport
