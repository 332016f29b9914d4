import EventFs.Library.Generations
import EventFs.Transport.MemoryStorage

/-!
# Generations in the in-memory storage

Every value of the in-memory storage is numbered by the puts of it that have taken effect,
and deleting it does not make the storage forget the number. So a delete that is conditional
on the number of some put removes what that put wrote and nothing else.
-/

namespace EventFs.Transport

open Library Protocol

/-- What carries a generation. -/
inductive Target
  | kv (bucket key : Str)
  | object (bucket object : Str)
deriving DecidableEq, Repr

/-- What an idempotent put or publish is remembered by. -/
inductive EffectId
  | kv (bucket key idempotencyKey : Str)
  | lines (stream subject idempotencySeed : Str)
  | object (bucket object idempotencyKey : Str)
deriving DecidableEq, Repr

namespace StorageCall

def effectId : StorageCall → Option EffectId
  | .kvPutIdempotent bucket key _ idempotencyKey => some (.kv bucket key idempotencyKey)
  | .publishJsonLines stream subject _ seed => some (.lines stream subject seed)
  | .objectPutIdempotent bucket object _ idempotencyKey =>
      some (.object bucket object idempotencyKey)
  | _ => none

/-- The call is well formed. -/
def accepted [Serde] : StorageCall → Bool
  | .publishJsonLines _ subject bytes _ => decide (validateJsonLines subject bytes = .ok ())
  | _ => true

def isEarlier (earlier : List StorageCall) (id : EffectId) : Bool :=
  earlier.any fun call => call.effectId == some id

/-- A call puts a value, unless it is idempotent and an earlier one had its key. -/
def puts (earlier : List StorageCall) (target : Target) : StorageCall → Bool
  | .kvPut bucket key _ => target == .kv bucket key
  | .kvPutIdempotent bucket key _ idempotencyKey =>
      target == .kv bucket key && !isEarlier earlier (.kv bucket key idempotencyKey)
  | .objectPut bucket object _ => target == .object bucket object
  | .objectPutIdempotent bucket object _ idempotencyKey =>
      target == .object bucket object && !isEarlier earlier (.object bucket object idempotencyKey)
  | _ => false

/-- The puts of a value that take effect. -/
def effectivePuts (target : Target) : (earlier calls : List StorageCall) → Nat
  | _, [] => 0
  | earlier, call :: rest =>
      (if call.puts earlier target then 1 else 0) +
        effectivePuts target (earlier ++ [call]) rest

end StorageCall

namespace MemoryStorage

/-! ## Numbers in order -/

theorem saturatingSucc_of_lt {n : Nat} (h : n < u64Max) : saturatingSucc n = n + 1 :=
  Nat.min_eq_left h

/-- The numbers are 1, 2, 3 and so on, as far as a `u64` counts. -/
def Counted (numbers : List Nat) : Prop :=
  numbers.length ≤ u64Max → numbers = List.range' 1 numbers.length

theorem Counted.append {numbers : List Nat} (h : Counted numbers) :
    Counted (numbers ++ [match numbers.getLast? with
      | some number => saturatingSucc number
      | none => 1]) := by
  intro hLength
  rw [List.length_append, List.length_singleton] at hLength
  have hNumbers := h (Nat.le_of_succ_le hLength)
  rw [List.length_append, List.length_singleton, List.range'_concat, ← hNumbers]
  cases numbers with
  | nil => rfl
  | cons first rest =>
      have hLast : (first :: rest).getLast? = some (rest.length + 1) := by
        rw [hNumbers, List.length_cons, List.range'_concat]
        simp [Nat.add_comm]
      rw [hLast]
      simp only [List.length_cons] at hLength ⊢
      rw [saturatingSucc_of_lt (by omega)]
      simp [Nat.add_comm]

theorem counted_appendLines {stream subject : Str} {messages : List StreamMessageView}
    (h : Counted (messages.map (·.sequence))) (lines : List Str) :
    Counted ((appendLines stream subject messages lines).1.map (·.sequence)) := by
  rw [appendLines]
  induction lines generalizing messages with
  | nil => exact h
  | cons line rest ih =>
      refine ih ?_
      have hNext := h.append
      rw [List.getLast?_map] at hNext
      rw [appendLine, List.map_append]
      cases hLast : messages.getLast? <;> simpa [hLast] using hNext

/-! ## One step -/

/-- All that is stored about a value: what its puts have left and, if it is there, the
value. The history is that of a key, the generation that of an object. -/
structure Slot where
  history : List KeyRevision
  generation : Nat
  entry : Option KeyRevision
  version : Option ObjectVersion
deriving DecidableEq, Repr

namespace Slot

/-- The number of the last put, whether or not the value is still there. -/
def number (slot : Slot) : Nat :=
  match slot.history.getLast? with
  | some entry => entry.revision
  | none => slot.generation

/-- The number of the value that is there. -/
def live (slot : Slot) : Option Nat :=
  match slot.entry with
  | some entry => some entry.revision
  | none => slot.version.map (·.sequence)

def put (slot : Slot) (bytes : Bytes) : Target → Slot
  | .kv _ _ =>
      { slot with
        history := slot.history ++ [⟨saturatingSucc slot.number, bytes⟩]
        entry := some ⟨saturatingSucc slot.number, bytes⟩ }
  | .object _ _ =>
      { slot with
        generation := saturatingSucc slot.generation
        version := some ⟨saturatingSucc slot.generation,
          memoryNuid (saturatingSucc slot.generation), bytes⟩ }

def removed (slot : Slot) : Slot := { slot with entry := none, version := none }

end Slot

def slot (state : MemoryStorage) : Target → Slot
  | .kv bucket key => ⟨state.kvHistory.getD (bucket, key) [], 0, state.kv[(bucket, key)]?, none⟩
  | .object bucket object =>
      ⟨[], state.objectGenerations.getD (bucket, object) 0, none, state.objects[(bucket, object)]?⟩

def generations (state : MemoryStorage) (target : Target) : Generations :=
  ⟨(state.slot target).number, (state.slot target).live⟩

def applied (state : MemoryStorage) : EffectId → Bool
  | .kv bucket key idempotencyKey => state.kvApplied.contains (bucket, key, idempotencyKey)
  | .lines stream subject seed => state.streamApplied.contains (stream, subject, seed)
  | .object bucket object idempotencyKey =>
      state.objectApplied.contains (bucket, object, idempotencyKey)

/-- The call puts the value in this state. -/
def putsNow (state : MemoryStorage) (target : Target) : StorageCall → Bool
  | .kvPut bucket key _ => target == .kv bucket key
  | .kvPutIdempotent bucket key _ idempotencyKey =>
      target == .kv bucket key && !state.applied (.kv bucket key idempotencyKey)
  | .objectPut bucket object _ => target == .object bucket object
  | .objectPutIdempotent bucket object _ idempotencyKey =>
      target == .object bucket object && !state.applied (.object bucket object idempotencyKey)
  | _ => false

variable {state : MemoryStorage}

theorem pair_compare {a b c d : Str} : compare (a, b) (c, d) = .eq ↔ a = c ∧ b = d := by
  rw [Std.compare_eq_iff_eq, Prod.mk.injEq]

theorem slot_putKv (state : MemoryStorage) (bucket key : Str) (bytes : Bytes) (target : Target) :
    (state.putKv bucket key bytes).2.slot target =
      if target = .kv bucket key then (state.slot target).put bytes target
      else state.slot target := by
  cases target with
  | object bucket' object' => rfl
  | kv bucket' key' =>
      by_cases hSame : bucket = bucket' ∧ key = key'
      · obtain ⟨rfl, rfl⟩ := hSame
        simp only [slot, Slot.put, Slot.number, putKv, if_true]
        cases hLast : (state.kvHistory.getD (bucket, key) []).getLast? with
        | none => simp [saturatingSucc, u64Max]
        | some entry => simp
      · have hOther : Target.kv bucket' key' ≠ .kv bucket key := by
          rintro h
          cases h
          exact hSame ⟨rfl, rfl⟩
        rw [if_neg hOther]
        simp only [slot, putKv, Std.ExtTreeMap.getD_insert, Std.ExtTreeMap.getElem?_insert,
          pair_compare, if_neg hSame]

theorem slot_putObject (state : MemoryStorage) (bucket object : Str) (bytes : Bytes)
    (target : Target) :
    (state.putObject bucket object bytes).2.slot target =
      if target = .object bucket object then (state.slot target).put bytes target
      else state.slot target := by
  cases target with
  | kv bucket' key' => rfl
  | object bucket' object' =>
      by_cases hSame : bucket = bucket' ∧ object = object'
      · obtain ⟨rfl, rfl⟩ := hSame
        simp [slot, Slot.put, putObject]
      · have hOther : Target.object bucket' object' ≠ .object bucket object := by
          rintro h
          cases h
          exact hSame ⟨rfl, rfl⟩
        rw [if_neg hOther]
        simp only [slot, putObject, Std.ExtTreeMap.getD_insert, Std.ExtTreeMap.getElem?_insert,
          pair_compare, if_neg hSame]

/-- Removing a value keeps what its puts have left. -/
theorem slot_eraseKv (state : MemoryStorage) (bucket key : Str) (target : Target) :
    ({ state with kv := state.kv.erase (bucket, key) } : MemoryStorage).slot target =
      if target = .kv bucket key then (state.slot target).removed else state.slot target := by
  cases target with
  | object bucket' object' => rfl
  | kv bucket' key' =>
      by_cases hSame : bucket = bucket' ∧ key = key'
      · obtain ⟨rfl, rfl⟩ := hSame
        simp [slot, Slot.removed]
      · have hOther : Target.kv bucket' key' ≠ .kv bucket key := by
          rintro h
          cases h
          exact hSame ⟨rfl, rfl⟩
        rw [if_neg hOther]
        simp only [slot, Std.ExtTreeMap.getElem?_erase, pair_compare, if_neg hSame]

theorem slot_eraseObject (state : MemoryStorage) (bucket object : Str) (target : Target) :
    ({ state with objects := state.objects.erase (bucket, object) } : MemoryStorage).slot target =
      if target = .object bucket object then (state.slot target).removed
      else state.slot target := by
  cases target with
  | kv bucket' key' => rfl
  | object bucket' object' =>
      by_cases hSame : bucket = bucket' ∧ object = object'
      · obtain ⟨rfl, rfl⟩ := hSame
        simp [slot, Slot.removed]
      · have hOther : Target.object bucket' object' ≠ .object bucket object := by
          rintro h
          cases h
          exact hSame ⟨rfl, rfl⟩
        rw [if_neg hOther]
        simp only [slot, Std.ExtTreeMap.getElem?_erase, pair_compare, if_neg hSame]

theorem number_put (target : Target) (bytes : Bytes) :
    ((state.slot target).put bytes target).number = saturatingSucc (state.slot target).number := by
  cases target with
  | kv bucket key => simp [slot, Slot.put, Slot.number]
  | object bucket object => rfl

theorem live_put (target : Target) (bytes : Bytes) :
    ((state.slot target).put bytes target).live =
      some (saturatingSucc (state.slot target).number) := by
  cases target <;> rfl

def holds (state : MemoryStorage) : Target → Bool
  | .kv bucket key => state.kv.contains (bucket, key)
  | .object bucket object => state.objects.contains (bucket, object)

theorem holds_eq (target : Target) : state.holds target = (state.slot target).live.isSome := by
  cases target with
  | kv bucket key =>
      rw [holds, Std.ExtTreeMap.contains_eq_isSome_getElem?]
      simp only [slot, Slot.live]
      split <;> simp [*]
  | object bucket object =>
      rw [holds, Std.ExtTreeMap.contains_eq_isSome_getElem?]
      simp [slot, Slot.live]

theorem applied_kv_eq {bucket key idempotencyKey : Str} :
    state.applied (.kv bucket key idempotencyKey) =
      state.kvApplied[(bucket, key, idempotencyKey)]?.isSome :=
  Std.ExtTreeMap.contains_eq_isSome_getElem?

theorem applied_lines_eq {stream subject seed : Str} :
    state.applied (.lines stream subject seed) =
      state.streamApplied[(stream, subject, seed)]?.isSome :=
  Std.ExtTreeMap.contains_eq_isSome_getElem?

theorem triple_compare {a b c d e f : Str} :
    compare (a, b, c) (d, e, f) = .eq ↔ a = d ∧ b = e ∧ c = f := by
  rw [Std.compare_eq_iff_eq, Prod.mk.injEq, Prod.mk.injEq]

theorem beq_triple {a b c d e f : Str} :
    (compare (a, b, c) (d, e, f) == .eq) = decide (a = d ∧ b = e ∧ c = f) := by
  rw [Bool.eq_iff_iff, beq_iff_eq, decide_eq_true_eq, triple_compare]

theorem applied_new (id : EffectId) : new.applied id = false := by
  cases id <;> simp [applied, new]

theorem slot_new (target : Target) : new.slot target = ⟨[], 0, none, none⟩ := by
  cases target <;> simp [slot, new]

def without (state : MemoryStorage) : Target → MemoryStorage
  | .kv bucket key => { state with kv := state.kv.erase (bucket, key) }
  | .object bucket object => { state with objects := state.objects.erase (bucket, object) }

theorem putKv_number (state : MemoryStorage) (bucket key : Str) (bytes : Bytes) :
    ((state.putKv bucket key bytes).2.slot (.kv bucket key)).number =
      (state.putKv bucket key bytes).1 := by
  simp [slot, putKv, Slot.number]

theorem kvDeleteIfRevision_eq (state : MemoryStorage) (bucket key : Str) (revision : Nat) :
    (state.kvDeleteIfRevision bucket key revision).2 =
      if (state.slot (.kv bucket key)).live = some revision then state.without (.kv bucket key)
      else state := by
  rw [kvDeleteIfRevision]
  cases hEntry : state.kv[(bucket, key)]? with
  | none => simp [slot, Slot.live, hEntry]
  | some entry =>
      simp only [slot, Slot.live, hEntry, Option.some.injEq]
      by_cases hSame : entry.revision = revision
      · rw [if_neg (not_not.mpr hSame), if_pos hSame]
        rfl
      · rw [if_pos hSame, if_neg hSame]

theorem objectDeleteIfSequence_eq {bucket object nuid : Str} {sequence : Nat}
    (hNuids : ∀ version, (state.slot (.object bucket object)).version = some version →
      version.nuid = memoryNuid version.sequence)
    (hNuid : nuid = [] ∨ nuid = memoryNuid sequence) :
    (state.objectDeleteIfSequence bucket object sequence nuid).2 =
      if (state.slot (.object bucket object)).live = some sequence then
        state.without (.object bucket object)
      else state := by
  rw [objectDeleteIfSequence]
  cases hVersion : state.objects[(bucket, object)]? with
  | none => simp [slot, Slot.live, hVersion]
  | some version =>
      have hStored := hNuids version hVersion
      simp only [slot, Slot.live, hVersion, Option.map_some, Option.some.injEq]
      by_cases hSame : version.sequence = sequence
      · have hCurrent : objectSuperseded version sequence nuid = false := by
          rw [objectSuperseded, hStored, hSame]
          rcases hNuid with rfl | rfl <;> simp
        rw [hCurrent, if_neg Bool.false_ne_true, if_pos hSame]
        rfl
      · have hOther : objectSuperseded version sequence nuid = true := by
          simp [objectSuperseded, hSame]
        rw [hOther, if_pos rfl, if_neg hSame]

section Calls

variable [Serde]

theorem slot_publishJsonLines (stream subject : Str) (bytes : Bytes) (seed : Str)
    (target : Target) :
    (state.publishJsonLines stream subject bytes seed).2.slot target = state.slot target := by
  rw [publishJsonLines]
  split
  · rfl
  · rfl
  · split
    · rfl
    · cases target <;> rfl

/-- What may happen to a value that is not put. -/
theorem slot_of_not_put {call : StorageCall} {target : Target}
    (h : state.putsNow target call = false) :
    (handle state call).2.slot target = state.slot target ∨
      (handle state call).2.slot target = (state.slot target).removed := by
  cases call with
  | kvPutIdempotent bucket key bytes idempotencyKey =>
      rw [putsNow, applied_kv_eq] at h
      left
      simp only [handle, kvPutIdempotent]
      split
      · rfl
      · next hNone =>
        have hOther : target ≠ .kv bucket key := by simpa [hNone] using h
        exact (slot_putKv state bucket key bytes target).trans (if_neg hOther)
  | kvPut bucket key bytes =>
      have hOther : target ≠ .kv bucket key := by simpa [putsNow] using h
      exact Or.inl ((slot_putKv state bucket key bytes target).trans (if_neg hOther))
  | objectPutIdempotent bucket object bytes idempotencyKey =>
      left
      simp only [handle, objectPutIdempotent]
      split
      · rfl
      · next hNew =>
        have hOther : target ≠ .object bucket object := by
          simpa [putsNow, applied, hNew] using h
        exact (slot_putObject state bucket object bytes target).trans (if_neg hOther)
  | objectPut bucket object bytes =>
      have hOther : target ≠ .object bucket object := by simpa [putsNow] using h
      exact Or.inl ((slot_putObject state bucket object bytes target).trans (if_neg hOther))
  | kvDeleteIfRevision bucket key revision =>
      simp only [handle, kvDeleteIfRevision]
      split
      · exact Or.inl rfl
      · split_ifs
        · exact Or.inl rfl
        · rw [slot_eraseKv]
          exact (ite_eq_or_eq _ _ _).symm
  | kvDelete bucket key =>
      simp only [handle, kvDelete]
      split_ifs
      · rw [slot_eraseKv]
        exact (ite_eq_or_eq _ _ _).symm
      · exact Or.inl rfl
  | objectDeleteIfSequence bucket object sequence nuid =>
      simp only [handle, objectDeleteIfSequence]
      split
      · exact Or.inl rfl
      · split_ifs
        · exact Or.inl rfl
        · rw [slot_eraseObject]
          exact (ite_eq_or_eq _ _ _).symm
  | objectDelete bucket object =>
      simp only [handle, objectDelete]
      split_ifs
      · rw [slot_eraseObject]
        exact (ite_eq_or_eq _ _ _).symm
      · exact Or.inl rfl
  | publishJsonLines stream subject bytes seed =>
      exact Or.inl (slot_publishJsonLines stream subject bytes seed target)
  | ensureKvBucket | ensureStream | ensureObjectBucket => exact Or.inl (by cases target <;> rfl)
  | _ => exact Or.inl rfl

theorem slot_of_put {call : StorageCall} {target : Target}
    (h : state.putsNow target call = true) :
    ∃ bytes, (handle state call).2.slot target = (state.slot target).put bytes target := by
  cases call with
  | kvPutIdempotent bucket key bytes idempotencyKey =>
      rw [putsNow, applied_kv_eq, Bool.and_eq_true, beq_iff_eq, Bool.not_eq_true',
        Option.isSome_eq_false_iff, Option.isNone_iff_eq_none] at h
      simp only [handle, kvPutIdempotent, h.2]
      exact ⟨bytes, (slot_putKv state bucket key bytes target).trans (if_pos h.1)⟩
  | kvPut bucket key bytes =>
      exact ⟨bytes, (slot_putKv state bucket key bytes target).trans
        (if_pos (by simpa [putsNow] using h))⟩
  | objectPutIdempotent bucket object bytes idempotencyKey =>
      rw [putsNow, applied, Bool.and_eq_true, beq_iff_eq, Bool.not_eq_true'] at h
      simp only [handle, objectPutIdempotent, h.2, Bool.false_eq_true, if_false]
      exact ⟨bytes, (slot_putObject state bucket object bytes target).trans (if_pos h.1)⟩
  | objectPut bucket object bytes =>
      exact ⟨bytes, (slot_putObject state bucket object bytes target).trans
        (if_pos (by simpa [putsNow] using h))⟩
  | _ => cases h

theorem live_of_put {call : StorageCall} {target : Target}
    (h : state.putsNow target call = true) :
    ((handle state call).2.slot target).live =
      some ((handle state call).2.slot target).number := by
  obtain ⟨bytes, hSlot⟩ := slot_of_put h
  rw [hSlot, live_put, number_put]

/-! ## What has been applied -/

theorem applied_of_plain {call : StorageCall} (h : call.effectId = none) (id : EffectId) :
    (handle state call).2.applied id = state.applied id := by
  cases call with
  | kvPutIdempotent | objectPutIdempotent | publishJsonLines => cases h
  | kvDeleteIfRevision bucket key revision =>
      simp only [handle, kvDeleteIfRevision]
      split
      · rfl
      · split_ifs <;> cases id <;> rfl
  | objectDeleteIfSequence bucket object sequence nuid =>
      simp only [handle, objectDeleteIfSequence]
      split
      · rfl
      · split_ifs <;> cases id <;> rfl
  | kvDelete bucket key =>
      simp only [handle, kvDelete]
      split_ifs <;> cases id <;> rfl
  | objectDelete bucket object =>
      simp only [handle, objectDelete]
      split_ifs <;> cases id <;> rfl
  | _ => cases id <;> rfl

/-- A call is remembered under its identity, if it is not rejected, and nothing is forgotten. -/
theorem applied_handle (state : MemoryStorage) (call : StorageCall) (id : EffectId) :
    (handle state call).2.applied id =
      (state.applied id || (call.effectId == some id && call.accepted)) := by
  cases call with
  | kvPutIdempotent bucket key bytes idempotencyKey =>
      simp only [handle, kvPutIdempotent]
      split
      · next revision hApplied =>
        have hOld : state.applied (.kv bucket key idempotencyKey) = true := by
          rw [applied_kv_eq, hApplied]
          rfl
        by_cases hId : id = .kv bucket key idempotencyKey
        · subst hId
          rw [hOld]
          rfl
        · simp [StorageCall.effectId, Ne.symm hId]
      · cases id with
        | kv bucket' key' idempotencyKey' =>
            rw [Bool.eq_iff_iff]
            simp [applied, putKv, Std.ExtTreeMap.contains_insert, beq_triple,
              StorageCall.effectId, StorageCall.accepted, or_comm]
        | lines | object => simp [applied, putKv, StorageCall.effectId]
  | objectPutIdempotent bucket object bytes idempotencyKey =>
      simp only [handle, objectPutIdempotent]
      split_ifs with hApplied
      · by_cases hId : id = .object bucket object idempotencyKey
        · subst hId
          rw [applied, hApplied]
          rfl
        · simp [StorageCall.effectId, Ne.symm hId]
      · cases id with
        | object bucket' object' idempotencyKey' =>
            rw [Bool.eq_iff_iff]
            simp [applied, putObject, Std.ExtTreeSet.contains_insert, beq_triple,
              StorageCall.effectId, StorageCall.accepted, or_comm]
        | lines | kv => simp [applied, putObject, StorageCall.effectId]
  | publishJsonLines stream subject bytes seed =>
      simp only [handle, publishJsonLines, StorageCall.accepted]
      cases hValid : validateJsonLines subject bytes with
      | error err => simp
      | ok =>
          obtain ⟨lines, hLines⟩ := jsonLines_of_validateJsonLines hValid
          simp only [hLines]
          split
          · next sequences hApplied =>
            by_cases hId : id = .lines stream subject seed
            · subst hId
              rw [applied_lines_eq, hApplied]
              rfl
            · simp [StorageCall.effectId, Ne.symm hId]
          · cases id with
            | lines stream' subject' seed' =>
                rw [Bool.eq_iff_iff]
                simp [applied, Std.ExtTreeMap.contains_insert, beq_triple,
                  StorageCall.effectId, or_comm]
            | kv | object => simp [applied, StorageCall.effectId]
  | _ => simpa [StorageCall.effectId] using applied_of_plain rfl id

/-- A call that has been applied changes nothing. -/
theorem handle_of_applied {call : StorageCall} {id : EffectId} (hCall : call.effectId = some id)
    (h : state.applied id = true) : (handle state call).2 = state := by
  cases call with
  | kvPutIdempotent bucket key bytes idempotencyKey =>
      cases hCall
      rw [applied_kv_eq, Option.isSome_iff_exists] at h
      obtain ⟨revision, hApplied⟩ := h
      simp only [handle, kvPutIdempotent, hApplied]
  | objectPutIdempotent bucket object bytes idempotencyKey =>
      cases hCall
      simp only [handle, objectPutIdempotent]
      exact congrArg Prod.snd (if_pos h)
  | publishJsonLines stream subject bytes seed =>
      cases hCall
      rw [applied_lines_eq, Option.isSome_iff_exists] at h
      obtain ⟨sequences, hApplied⟩ := h
      simp only [handle, publishJsonLines, hApplied]
      split <;> rfl
  | _ => cases hCall

theorem handle_of_rejected {call : StorageCall} (h : call.accepted = false) :
    (handle state call).2 = state := by
  cases call with
  | publishJsonLines stream subject bytes seed =>
      rw [StorageCall.accepted, decide_eq_false_iff_not] at h
      simp only [handle, publishJsonLines]
      cases hValid : validateJsonLines subject bytes with
      | ok => exact absurd hValid h
      | error => rfl
  | _ => cases h

/-- A call that changes something is remembered. -/
theorem applied_of_changed {call : StorageCall} {id : EffectId} (hCall : call.effectId = some id)
    (h : (handle state call).2 ≠ state) : (handle state call).2.applied id = true := by
  have hAccepted : call.accepted = true := by
    by_contra hRejected
    exact h (handle_of_rejected (by simpa using hRejected))
  rw [applied_handle, hCall, hAccepted]
  simp

/-! ## Runs -/

/-- The storage after some calls, from the empty one. -/
def run (calls : List StorageCall) : MemoryStorage :=
  calls.foldl (fun (state : MemoryStorage) (call : StorageCall) => (handle state call).2) new

@[simp] theorem run_append (calls : List StorageCall) (call : StorageCall) :
    run (calls ++ [call]) = (handle (run calls) call).2 := by
  rw [run, List.foldl_append]
  rfl

/-- What holds at first and is kept by every call holds after every run. -/
theorem run_induction (P : MemoryStorage → Prop) (hNew : P new)
    (hStep : ∀ state call, P state → P (handle state call).2) (calls : List StorageCall) :
    P (run calls) := by
  induction calls using List.reverseRecOn with
  | nil => exact hNew
  | append_singleton calls call ih =>
      rw [run_append]
      exact hStep _ _ ih

theorem applied_run (calls : List StorageCall) (id : EffectId) :
    (run calls).applied id =
      calls.any fun call => call.effectId == some id && call.accepted := by
  induction calls using List.reverseRecOn with
  | nil => exact applied_new id
  | append_singleton calls call ih =>
      rw [run_append, applied_handle, ih, List.any_append]
      simp

/-- Whether a call puts a value depends on the calls before it only. -/
theorem putsNow_run (earlier : List StorageCall) (target : Target) (call : StorageCall) :
    (run earlier).putsNow target call = call.puts earlier target := by
  have hEarlier : ∀ id, (∀ call : StorageCall, call.effectId = some id → call.accepted = true) →
      (run earlier).applied id = StorageCall.isEarlier earlier id := by
    intro id hAccepted
    rw [applied_run, StorageCall.isEarlier]
    refine List.any_congr rfl fun call => ?_
    by_cases hId : call.effectId = some id
    · rw [hAccepted call hId, Bool.and_true]
    · simp [hId]
  cases call with
  | kvPutIdempotent bucket key bytes idempotencyKey =>
      rw [putsNow, StorageCall.puts, hEarlier]
      intro call hId
      cases call <;> first | rfl | cases hId
  | objectPutIdempotent bucket object bytes idempotencyKey =>
      rw [putsNow, StorageCall.puts, hEarlier]
      intro call hId
      cases call <;> first | rfl | cases hId
  | _ => rfl

theorem slot_run_induction (P : Slot → Prop) (target : Target)
    (hNew : P ⟨[], 0, none, none⟩) (hPut : ∀ slot bytes, P slot → P (slot.put bytes target))
    (hRemoved : ∀ slot, P slot → P slot.removed) (calls : List StorageCall) :
    P ((run calls).slot target) := by
  refine run_induction (fun state => P (state.slot target)) (by rwa [slot_new]) ?_ calls
  intro state call hOk
  cases hPuts : state.putsNow target call with
  | true =>
      obtain ⟨bytes, hSlot⟩ := slot_of_put hPuts
      rw [hSlot]
      exact hPut _ bytes hOk
  | false =>
      rcases slot_of_not_put hPuts with hSlot | hSlot
      · rwa [hSlot]
      · rw [hSlot]
        exact hRemoved _ hOk

/-- The revisions of a key count its puts, and its value is what the last of them has left. -/
structure HistoryOk (slot : Slot) : Prop where
  generation : slot.generation = 0
  revisions : Counted (slot.history.map (·.revision))
  current : ∀ entry, slot.entry = some entry → slot.history.getLast? = some entry

theorem historyOk_run (calls : List StorageCall) (bucket key : Str) :
    HistoryOk ((run calls).slot (.kv bucket key)) := by
  refine slot_run_induction HistoryOk (.kv bucket key) ⟨rfl, fun _ => rfl, nofun⟩ ?_ ?_ calls
  · rintro slot bytes ⟨hGeneration, hRevisions, hCurrent⟩
    refine ⟨hGeneration, ?_, fun entry hEntry => ?_⟩
    · have hNext := hRevisions.append
      rw [List.getLast?_map] at hNext
      rw [Slot.put, List.map_append]
      cases hLast : slot.history.getLast? with
      | none => simpa [hLast, Slot.number, hGeneration, saturatingSucc, u64Max] using hNext
      | some last => simpa [hLast, Slot.number] using hNext
    · cases hEntry
      exact List.getLast?_concat
  · rintro slot ⟨hGeneration, hRevisions, hCurrent⟩
    exact ⟨hGeneration, hRevisions, nofun⟩

theorem nuid_run (calls : List StorageCall) (bucket object : Str) :
    ∀ version, ((run calls).slot (.object bucket object)).version = some version →
      version.nuid = memoryNuid version.sequence := by
  refine slot_run_induction
    (fun slot => ∀ version, slot.version = some version →
      version.nuid = memoryNuid version.sequence) (.object bucket object) nofun ?_ ?_ calls
  · intro slot bytes _ version hVersion
    cases hVersion
    rfl
  · intro slot _
    exact nofun

/-- Only publishing and making a stream touch the streams. -/
theorem streams_handle (state : MemoryStorage) (call : StorageCall) :
    (handle state call).2.streams = state.streams ∨
      (∃ stream, call = .ensureStream stream) ∨
        ∃ stream subject bytes seed, call = .publishJsonLines stream subject bytes seed := by
  cases call with
  | publishJsonLines stream subject bytes seed =>
      exact Or.inr (Or.inr ⟨stream, subject, bytes, seed, rfl⟩)
  | ensureStream stream => exact Or.inr (Or.inl ⟨stream, rfl⟩)
  | kvPutIdempotent =>
      left
      simp only [handle, kvPutIdempotent]
      split <;> rfl
  | objectPutIdempotent =>
      left
      simp only [handle, objectPutIdempotent]
      split_ifs <;> rfl
  | kvDeleteIfRevision =>
      left
      simp only [handle, kvDeleteIfRevision]
      split
      · rfl
      · split_ifs <;> rfl
  | objectDeleteIfSequence =>
      left
      simp only [handle, objectDeleteIfSequence]
      split
      · rfl
      · split_ifs <;> rfl
  | kvDelete =>
      left
      simp only [handle, kvDelete]
      split_ifs <;> rfl
  | objectDelete =>
      left
      simp only [handle, objectDelete]
      split_ifs <;> rfl
  | _ => exact Or.inl rfl

omit [Serde] in
theorem streams_ensureStream (state : MemoryStorage) (other stream : Str) :
    (state.ensureStream other).2.streams.getD stream [] = state.streams.getD stream [] := by
  rw [ensureStream, Std.ExtTreeMap.getD_insertIfNew]
  split_ifs with hNew
  · rw [Std.compare_eq_iff_eq] at hNew
    rw [← hNew.1, Std.ExtTreeMap.getD_eq_fallback hNew.2]
  · rfl

theorem sequences_handle {call : StorageCall}
    (h : ∀ stream, Counted ((state.streams.getD stream []).map (·.sequence))) (stream : Str) :
    Counted (((handle state call).2.streams.getD stream []).map (·.sequence)) := by
  rcases streams_handle state call with hSame | ⟨other, rfl⟩ | ⟨other, subject, bytes, seed, rfl⟩
  · rw [hSame]
    exact h stream
  · rw [handle, streams_ensureStream]
    exact h stream
  · simp only [handle, publishJsonLines]
    split
    · exact h stream
    · exact h stream
    · split
      · exact h stream
      · simp only [Std.ExtTreeMap.getD_insert]
        split_ifs
        · exact counted_appendLines (h other) _
        · exact h stream

theorem sequences_run (calls : List StorageCall) (stream : Str) :
    Counted (((run calls).streams.getD stream []).map (·.sequence)) :=
  run_induction
    (fun state => ∀ stream, Counted ((state.streams.getD stream []).map (·.sequence)))
    (fun stream => by
      rw [show new.streams = ∅ from rfl, Std.ExtTreeMap.getD_empty]
      exact fun _ => rfl)
    (fun _ _ => sequences_handle) calls stream

/-! ## Runs as generations -/

/-- What the calls do to a value, one after the other. -/
def effects (target : Target) : (earlier calls : List StorageCall) → List Effect
  | _, [] => []
  | earlier, call :: rest =>
      (if call.puts earlier target then .put
        else if ((run (earlier ++ [call])).slot target).live.isSome then .keep
        else .remove) :: effects target (earlier ++ [call]) rest

theorem effects_append (target : Target) (earlier calls later : List StorageCall) :
    effects target earlier (calls ++ later) =
      effects target earlier calls ++ effects target (earlier ++ calls) later := by
  induction calls generalizing earlier with
  | nil => simp [effects]
  | cons call rest ih =>
      rw [List.cons_append, effects, ih, effects, List.cons_append, List.append_assoc]
      rfl

theorem effects_length (target : Target) (earlier calls : List StorageCall) :
    (effects target earlier calls).length = calls.length := by
  induction calls generalizing earlier with
  | nil => rfl
  | cons call rest ih => rw [effects, List.length_cons, ih, List.length_cons]

theorem effectivePuts_eq_count (target : Target) (earlier calls : List StorageCall) :
    StorageCall.effectivePuts target earlier calls =
      (effects target earlier calls).count .put := by
  induction calls generalizing earlier with
  | nil => rfl
  | cons call rest ih =>
      rw [StorageCall.effectivePuts, effects, ih, List.count_cons, Nat.add_comm]
      by_cases hPuts : call.puts earlier target = true
      · simp [hPuts]
      · rw [if_neg hPuts, if_neg hPuts, if_neg]
        split_ifs <;> decide

/-- One call takes a value's generations one step further. -/
theorem generations_handle (state : MemoryStorage) (call : StorageCall) (target : Target)
    (hRoom : (state.generations target).puts < u64Max) :
    (handle state call).2.generations target =
      (state.generations target).apply
        (if state.putsNow target call then .put
          else if ((handle state call).2.slot target).live.isSome then .keep
          else .remove) := by
  cases hPuts : state.putsNow target call with
  | true =>
      obtain ⟨bytes, hSlot⟩ := slot_of_put hPuts
      have hNext : saturatingSucc (state.slot target).number = (state.slot target).number + 1 :=
        saturatingSucc_of_lt hRoom
      rw [generations, hSlot, number_put, live_put, hNext]
      rfl
  | false =>
      rcases slot_of_not_put hPuts with hSlot | hSlot
      · rw [generations, hSlot, if_neg Bool.false_ne_true]
        split_ifs with hLive
        · rfl
        · rw [Option.not_isSome_iff_eq_none.mp hLive]
          rfl
      · rw [generations, hSlot]
        rfl

/-- The storage numbers its values as the abstract generations do. -/
theorem generations_run (target : Target) (calls : List StorageCall)
    (hLength : calls.length < u64Max) :
    (run calls).generations target = Generations.new.applyAll (effects target [] calls) := by
  induction calls using List.reverseRecOn with
  | nil =>
      rw [generations, show run [] = new from rfl, slot_new]
      rfl
  | append_singleton calls call ih =>
      rw [List.length_append, List.length_singleton] at hLength
      have hRun := ih (by omega)
      have hRoom : ((run calls).generations target).puts < u64Max := by
        rw [hRun, Generations.applyAll_puts]
        have hCount := List.count_le_length (a := Effect.put) (l := effects target [] calls)
        rw [effects_length] at hCount
        simp only [Generations.new]
        omega
      rw [run_append, generations_handle _ _ _ hRoom, hRun, effects_append, putsNow_run,
        ← run_append, Generations.applyAll, Generations.applyAll, List.foldl_append]
      rfl

/-- The value stays in place through the later calls. -/
def Undisturbed (target : Target) (earlier later : List StorageCall) : Prop :=
  ∀ before call rest, later = before ++ call :: rest →
    call.puts (earlier ++ before) target = false ∧
      (run (earlier ++ before ++ [call])).holds target = true

theorem effects_eq_keep_iff (target : Target) (earlier later : List StorageCall) :
    (∀ effect ∈ effects target earlier later, effect = .keep) ↔
      Undisturbed target earlier later := by
  induction later generalizing earlier with
  | nil => simp [effects, Undisturbed]
  | cons call rest ih =>
      rw [effects, List.forall_mem_cons, ih, ← holds_eq]
      constructor
      · rintro ⟨hFirst, hRest⟩ before other after hLater
        cases before with
        | nil =>
            obtain ⟨rfl, rfl⟩ := List.cons.inj hLater
            rw [List.append_nil]
            split_ifs at hFirst with hPuts hHolds
            exact ⟨by simpa using hPuts, hHolds⟩
        | cons head before =>
            obtain ⟨rfl, rfl⟩ := List.cons.inj hLater
            have hOther := hRest before other after rfl
            rw [List.append_assoc] at hOther
            exact hOther
      · intro h
        refine ⟨?_, fun before other after hRest => ?_⟩
        · obtain ⟨hPuts, hHolds⟩ := h [] call rest rfl
          rw [List.append_nil] at hPuts hHolds
          rw [hPuts, hHolds]
          rfl
        · have hOther := h (call :: before) other after (by rw [hRest]; rfl)
          rw [List.append_assoc]
          exact hOther

/-- The value of a put is live exactly if nothing has touched it since. -/
theorem live_iff_undisturbed {target : Target} {before after : List StorageCall}
    {call : StorageCall} (hLength : (before ++ call :: after).length < u64Max)
    (hPuts : call.puts before target = true) :
    ((run (before ++ call :: after)).slot target).live =
        some ((run (before ++ [call])).slot target).number ↔
      Undisturbed target (before ++ [call]) after := by
  have hSplit : before ++ call :: after = before ++ [call] ++ after := by simp
  have hPut : effects target [] (before ++ [call]) = effects target [] before ++ [.put] := by
    rw [effects_append, List.nil_append, effects, hPuts, if_pos rfl, effects]
  have hBefore : (before ++ [call]).length < u64Max := by
    rw [hSplit, List.length_append] at hLength
    omega
  have hNumber := congrArg Generations.puts (generations_run target _ hBefore)
  have hLive := congrArg Generations.live (generations_run target _ hLength)
  rw [hSplit, effects_append, hPut, List.nil_append, Generations.applyAll, List.foldl_append,
    List.foldl_append] at hLive
  rw [hPut, Generations.applyAll, List.foldl_append] at hNumber
  rw [hSplit, show ((run (before ++ [call] ++ after)).slot target).live = _ from hLive,
    show ((run (before ++ [call])).slot target).number = _ from hNumber,
    ← effects_eq_keep_iff]
  exact Generations.live_of_put_iff

/-! ## Evidence -/

/-- The revision that a put of a key has answered. -/
def returnedRevision : (call : StorageCall) → TransportResult call.Value → Option Nat
  | .kvPut .., .ok revision => some revision
  | .kvPutIdempotent .., .ok revision => some revision
  | _, _ => none

theorem returnedRevision_of_put {call : StorageCall} {bucket key : Str}
    (h : state.putsNow (.kv bucket key) call = true) :
    returnedRevision call (handle state call).1 =
      some ((handle state call).2.slot (.kv bucket key)).number := by
  cases call with
  | kvPut bucket' key' bytes =>
      simp only [putsNow, beq_iff_eq, Target.kv.injEq] at h
      obtain ⟨rfl, rfl⟩ := h
      exact congrArg some (putKv_number state bucket key bytes).symm
  | kvPutIdempotent bucket' key' bytes idempotencyKey =>
      rw [putsNow, applied_kv_eq, Bool.and_eq_true, beq_iff_eq, Bool.not_eq_true',
        Option.isSome_eq_false_iff, Option.isNone_iff_eq_none] at h
      obtain ⟨hTarget, hNew⟩ := h
      cases hTarget
      simp only [handle, kvPutIdempotent, hNew]
      exact congrArg some (putKv_number state bucket key bytes).symm
  | _ => cases h

/-- The answer of an idempotent put is kept. -/
theorem kvApplied_handle {call : StorageCall} {record : Str × Str × Str} {revision : Nat}
    (h : state.kvApplied[record]? = some revision) :
    (handle state call).2.kvApplied[record]? = some revision := by
  cases call with
  | kvPutIdempotent bucket key bytes idempotencyKey =>
      simp only [handle, kvPutIdempotent]
      split
      · exact h
      · next hNew =>
        have hOther : (bucket, key, idempotencyKey) ≠ record := by
          rintro rfl
          rw [hNew] at h
          cases h
        simp only [putKv, Std.ExtTreeMap.getElem?_insert, Std.compare_eq_iff_eq, if_neg hOther]
        exact h
  | publishJsonLines =>
      simp only [handle, publishJsonLines]
      split
      · exact h
      · exact h
      · split <;> exact h
  | objectPutIdempotent =>
      simp only [handle, objectPutIdempotent]
      split_ifs <;> exact h
  | kvDeleteIfRevision =>
      simp only [handle, kvDeleteIfRevision]
      split
      · exact h
      · split_ifs <;> exact h
  | objectDeleteIfSequence =>
      simp only [handle, objectDeleteIfSequence]
      split
      · exact h
      · split_ifs <;> exact h
  | kvDelete =>
      simp only [handle, kvDelete]
      split_ifs <;> exact h
  | objectDelete =>
      simp only [handle, objectDelete]
      split_ifs <;> exact h
  | _ => exact h

/-- An idempotent put answers what is recorded of it from then on. -/
theorem kvApplied_of_call {call : StorageCall} {bucket key idempotencyKey : Str}
    (h : call.effectId = some (.kv bucket key idempotencyKey)) :
    returnedRevision call (handle state call).1 =
      (handle state call).2.kvApplied[(bucket, key, idempotencyKey)]? := by
  cases call with
  | kvPutIdempotent bucket' key' bytes idempotencyKey' =>
      cases h
      simp only [handle, kvPutIdempotent]
      split
      · next revision hApplied => exact hApplied.symm
      · simp [putKv, returnedRevision]
  | _ => cases h

theorem kvApplied_call {call : StorageCall} {bucket key idempotencyKey : Str}
    (h : call.effectId = some (.kv bucket key idempotencyKey)) (state : MemoryStorage) :
    ∃ revision, (handle state call).2.kvApplied[(bucket, key, idempotencyKey)]? =
      some revision := by
  rw [← kvApplied_of_call h]
  cases call with
  | kvPutIdempotent bucket' key' bytes idempotencyKey' =>
      simp only [handle, kvPutIdempotent]
      split
      · exact ⟨_, rfl⟩
      · exact ⟨_, rfl⟩
  | _ => cases h

theorem kvApplied_calls {record : Str × Str × Str} {revision : Nat}
    (h : state.kvApplied[record]? = some revision) (calls : List StorageCall) :
    (calls.foldl (fun (state : MemoryStorage) (call : StorageCall) =>
      (handle state call).2) state).kvApplied[record]? = some revision := by
  induction calls generalizing state with
  | nil => exact h
  | cons call rest ih => exact ih (kvApplied_handle h)

theorem returnedRevision_of_applied {call : StorageCall} {bucket key idempotencyKey : Str}
    {revision : Nat} (h : call.effectId = some (.kv bucket key idempotencyKey))
    (hApplied : state.kvApplied[(bucket, key, idempotencyKey)]? = some revision) :
    returnedRevision call (handle state call).1 = some revision := by
  rw [kvApplied_of_call h]
  exact kvApplied_handle hApplied

/-- What the storage keeps in a run of these calls. The length of a `Vec` is a `usize`, so
that a stream never has more messages than sequences. -/
structure KeepsGenerations (calls : List StorageCall) : Prop where
  revisions : ∀ bucket key,
    ((run calls).kvHistory.getD (bucket, key) []).map (·.revision) =
      List.range' 1 ((run calls).kvHistory.getD (bucket, key) []).length
  current : ∀ bucket key entry, (run calls).kv[(bucket, key)]? = some entry →
    ((run calls).kvHistory.getD (bucket, key) []).getLast? = some entry
  sequences : ∀ (stream : Str) (messages : List StreamMessageView),
    (run calls).streams[stream]? = some messages →
    messages.length < 2 ^ 64 →
      messages.map (·.sequence) = List.range' 1 messages.length
  generation : ∀ bucket object, (run calls).objectGenerations.getD (bucket, object) 0 =
    StorageCall.effectivePuts (.object bucket object) [] calls
  fresh : ∀ bucket object (before between after : List StorageCall) (call later : StorageCall)
    version version',
    calls = before ++ call :: between ++ later :: after →
      call.puts before (.object bucket object) = true →
      later.puts (before ++ call :: between) (.object bucket object) = true →
      (run (before ++ [call])).objects[(bucket, object)]? = some version →
      (run (before ++ call :: between ++ [later])).objects[(bucket, object)]? = some version' →
        version.sequence < version'.sequence
  once : ∀ (before between after : List StorageCall) (call later : StorageCall) id,
    calls = before ++ call :: between ++ later :: after →
      call.effectId = some id → later.effectId = some id →
      (handle (run before) call).2 ≠ run before →
        (handle (run (before ++ call :: between)) later).2 = run (before ++ call :: between)
  answer : ∀ (before between after : List StorageCall) (call later : StorageCall)
    bucket key idempotencyKey,
    calls = before ++ call :: between ++ later :: after →
      call.effectId = some (.kv bucket key idempotencyKey) →
      later.effectId = some (.kv bucket key idempotencyKey) →
        returnedRevision later (handle (run (before ++ call :: between)) later).1 =
          returnedRevision call (handle (run before) call).1
  kvDelete : ∀ (before after : List StorageCall) (call : StorageCall) bucket key revision,
    calls = before ++ call :: after →
    call.puts before (.kv bucket key) = true →
    returnedRevision call (handle (run before) call).1 = some revision →
      (Undisturbed (.kv bucket key) (before ++ [call]) after →
        (run calls).holds (.kv bucket key) = true ∧
          (handle (run calls) (.kvDeleteIfRevision bucket key revision)).2 =
            (run calls).without (.kv bucket key)) ∧
      (¬ Undisturbed (.kv bucket key) (before ++ [call]) after →
        (handle (run calls) (.kvDeleteIfRevision bucket key revision)).2 = run calls)
  objectDelete : ∀ (before after : List StorageCall) (call : StorageCall)
    bucket object version nuid,
    calls = before ++ call :: after → call.puts before (.object bucket object) = true →
    (run (before ++ [call])).objects[(bucket, object)]? = some version →
    nuid = [] ∨ nuid = version.nuid →
      (Undisturbed (.object bucket object) (before ++ [call]) after →
        (run calls).holds (.object bucket object) = true ∧
          (handle (run calls) (.objectDeleteIfSequence bucket object version.sequence nuid)).2 =
            (run calls).without (.object bucket object)) ∧
      (¬ Undisturbed (.object bucket object) (before ++ [call]) after →
        (handle (run calls) (.objectDeleteIfSequence bucket object version.sequence nuid)).2 =
          run calls)

theorem history_length_le (calls : List StorageCall) (target : Target) :
    ((run calls).slot target).history.length ≤ calls.length := by
  induction calls using List.reverseRecOn with
  | nil =>
      rw [show run [] = new from rfl, slot_new]
      exact Nat.zero_le _
  | append_singleton calls call ih =>
      rw [run_append, List.length_append, List.length_singleton]
      cases hPuts : (run calls).putsNow target call with
      | true =>
          obtain ⟨bytes, hSlot⟩ := slot_of_put hPuts
          rw [hSlot]
          cases target with
          | kv => simpa [Slot.put] using ih
          | object => exact Nat.le_succ_of_le ih
      | false =>
          rcases slot_of_not_put hPuts with hSlot | hSlot
          · rw [hSlot]
            exact Nat.le_succ_of_le ih
          · rw [hSlot]
            exact Nat.le_succ_of_le ih

/-- A put gets the number of the puts before it and one more. -/
theorem live_after_put {target : Target} {before : List StorageCall} {call : StorageCall}
    (hLength : before.length < u64Max) (hPuts : call.puts before target = true) :
    ((run (before ++ [call])).slot target).live =
      some (StorageCall.effectivePuts target [] before + 1) := by
  have hNow : (run before).putsNow target call = true := by rwa [putsNow_run]
  obtain ⟨bytes, hSlot⟩ := slot_of_put hNow
  have hNumber := congrArg Generations.puts (generations_run target before hLength)
  rw [Generations.applyAll_puts, ← effectivePuts_eq_count] at hNumber
  have hBefore : ((run before).slot target).number =
      StorageCall.effectivePuts target [] before := by
    rw [show ((run before).slot target).number = _ from hNumber, Generations.new, Nat.zero_add]
  have hCount := List.count_le_length (a := Effect.put) (l := effects target [] before)
  rw [effects_length, ← effectivePuts_eq_count] at hCount
  rw [run_append, hSlot, live_put, hBefore, saturatingSucc_of_lt (by omega)]

theorem effectivePuts_lt {target : Target} {before between : List StorageCall}
    {call : StorageCall} (hPuts : call.puts before target = true) :
    StorageCall.effectivePuts target [] before <
      StorageCall.effectivePuts target [] (before ++ call :: between) := by
  rw [effectivePuts_eq_count, effectivePuts_eq_count, effects_append, List.count_append,
    List.nil_append, effects, hPuts, if_pos rfl, List.count_cons_self]
  omega

/-- A delete that is conditional on the number of a put. -/
theorem removes_iff_undisturbed {target : Target} {before after : List StorageCall}
    {call : StorageCall} (hLength : (before ++ call :: after).length < u64Max)
    (hPuts : call.puts before target = true) {next : MemoryStorage}
    (hNext : next =
      if ((run (before ++ call :: after)).slot target).live =
          some ((run (before ++ [call])).slot target).number then
        (run (before ++ call :: after)).without target
      else run (before ++ call :: after)) :
    (Undisturbed target (before ++ [call]) after →
      (run (before ++ call :: after)).holds target = true ∧
        next = (run (before ++ call :: after)).without target) ∧
    (¬ Undisturbed target (before ++ [call]) after → next = run (before ++ call :: after)) := by
  rw [← live_iff_undisturbed hLength hPuts]
  constructor
  · intro hLive
    rw [if_pos hLive] at hNext
    exact ⟨by rw [holds_eq, hLive]; rfl, hNext⟩
  · intro hLive
    rwa [if_neg hLive] at hNext

theorem keepsGenerations {calls : List StorageCall} (hLength : calls.length < 2 ^ 64 - 1) :
    KeepsGenerations calls where
  revisions bucket key := by
    have hOk := historyOk_run calls bucket key
    have hRoom := history_length_le calls (.kv bucket key)
    have hRevisions := hOk.revisions (by rw [List.length_map, u64Max]; omega)
    rwa [List.length_map] at hRevisions
  current bucket key entry hEntry := (historyOk_run calls bucket key).current entry hEntry
  sequences stream messages hMessages hRoom := by
    have hCounted := sequences_run calls stream
    rw [Std.ExtTreeMap.getD_eq_getD_getElem?, hMessages, Option.getD_some] at hCounted
    have hSequences := hCounted (by rw [List.length_map, u64Max]; omega)
    rwa [List.length_map] at hSequences
  generation bucket object := by
    have hPuts := congrArg Generations.puts (generations_run (.object bucket object) calls hLength)
    rw [Generations.applyAll_puts, ← effectivePuts_eq_count] at hPuts
    simpa [generations, slot, Slot.number, Generations.new] using hPuts
  fresh bucket object before between after call later version version' hCalls hCall hLater
      hVersion hVersion' := by
    have hBefore := hLength
    rw [hCalls, List.length_append, List.length_append, List.length_cons] at hBefore
    have hFirst := live_after_put (by rw [u64Max]; omega) hCall
    have hSecond := live_after_put (by rw [List.length_append, List.length_cons, u64Max]; omega)
      hLater
    have hLive : ∀ {calls : List StorageCall} {version : ObjectVersion},
        (run calls).objects[(bucket, object)]? = some version →
          ((run calls).slot (.object bucket object)).live = some version.sequence := by
      intro calls version hVersion
      simp only [slot, Slot.live, hVersion, Option.map_some]
    rw [hLive hVersion] at hFirst
    rw [hLive hVersion'] at hSecond
    have hMore := @effectivePuts_lt _ _ _ between _ hCall
    have hFirst := Option.some.inj hFirst
    have hSecond := Option.some.inj hSecond
    omega
  once before between after call later id hCalls hCall hLater hChanged := by
    refine handle_of_applied hLater ?_
    have hApplied := applied_of_changed hCall hChanged
    rw [applied_run, List.any_append, Bool.or_eq_true]
    rw [← run_append, applied_run, List.any_append, Bool.or_eq_true] at hApplied
    rcases hApplied with hApplied | hApplied
    · exact Or.inl hApplied
    · rw [List.any_cons, Bool.or_eq_true]
      exact Or.inr (Or.inl (by simpa using hApplied))
  answer before between after call later bucket key idempotencyKey hCalls hCall hLater := by
    obtain ⟨revision, hRecorded⟩ := kvApplied_call hCall (run before)
    rw [kvApplied_of_call hCall, hRecorded]
    refine returnedRevision_of_applied hLater ?_
    rw [← run_append] at hRecorded
    have hSplit : before ++ call :: between = before ++ [call] ++ between := by simp
    rw [hSplit, run, List.foldl_append, ← run]
    exact kvApplied_calls hRecorded between
  kvDelete before after call bucket key revision hCalls hPuts hRevision := by
    subst hCalls
    have hNow : (run before).putsNow (.kv bucket key) call = true := by rwa [putsNow_run]
    rw [returnedRevision_of_put hNow, ← run_append] at hRevision
    refine removes_iff_undisturbed hLength hPuts ?_
    rw [hRevision]
    exact kvDeleteIfRevision_eq _ bucket key revision
  objectDelete before after call bucket object version nuid hCalls hPuts hVersion hNuid := by
    subst hCalls
    refine removes_iff_undisturbed hLength hPuts ?_
    have hStored := nuid_run (before ++ [call]) bucket object version hVersion
    rw [hStored] at hNuid
    have hNumber : ((run (before ++ [call])).slot (.object bucket object)).number =
        version.sequence := by
      have hNow : (run before).putsNow (.object bucket object) call = true := by rwa [putsNow_run]
      have hLive := live_of_put hNow
      rw [← run_append] at hLive
      simpa only [slot, Slot.live, hVersion, Option.map_some, Option.some.injEq, eq_comm]
        using hLive
    rw [hNumber]
    exact objectDeleteIfSequence_eq (nuid_run _ bucket object) hNuid

end Calls

/-- Knows the one document `null`. -/
@[reducible] def nullSerde : Serde where
  fromStr s :=
    if s = "null".toList then .ok () else .error "expected value at line 1 column 1".toList
  fromSlice s :=
    if s = Text.asBytes "null".toList then .ok ()
    else .error "expected value at line 1 column 1".toList
  utf8Error _ := "invalid utf-8 sequence of 1 bytes from index 0".toList

/-- An object is deleted and put again, and a line is published twice under one key. -/
def recreated : List StorageCall :=
  [.objectPut ['b'] ['o'] [1], .objectDelete ['b'] ['o'], .objectPut ['b'] ['o'] [1],
    .publishJsonLines ['s'] ['t'] (Text.asBytes "null".toList) ['1'],
    .publishJsonLines ['s'] ['t'] (Text.asBytes "null".toList) ['1']]

theorem recreated_keepsGenerations : @KeepsGenerations nullSerde recreated :=
  letI := nullSerde
  keepsGenerations (by decide)

end MemoryStorage

end EventFs.Transport
