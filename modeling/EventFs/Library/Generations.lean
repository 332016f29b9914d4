import Mathlib

/-!
# Generations of a value

A value that is put and removed over and over, where every put is numbered by the puts
before it. Who remembers the number of a put can tell later whether the value is still the
one put then, however often it has been removed and put again.
-/

namespace EventFs.Library

/-- What a step does to a value. -/
inductive Effect
  | put
  | remove
  | keep
deriving DecidableEq, Repr

/-- The number of puts so far and the number of the live value, if there is one. -/
structure Generations where
  puts : Nat
  live : Option Nat
deriving DecidableEq, Repr

namespace Generations

def new : Generations := ⟨0, none⟩

def apply (generations : Generations) : Effect → Generations
  | .put => ⟨generations.puts + 1, some (generations.puts + 1)⟩
  | .remove => ⟨generations.puts, none⟩
  | .keep => generations

def applyAll (generations : Generations) (effects : List Effect) : Generations :=
  effects.foldl apply generations

variable {generations : Generations} {effects : List Effect} {number : Nat}

theorem applyAll_puts :
    (generations.applyAll effects).puts = generations.puts + effects.count .put := by
  induction effects generalizing generations with
  | nil => rfl
  | cons effect rest ih =>
      rw [applyAll, List.foldl_cons, ← applyAll, ih]
      cases effect with
      | put =>
          rw [List.count_cons_self]
          simp only [apply]
          omega
      | remove | keep => simp [apply]

/-- A value is superseded once it is gone and never comes back under its number. -/
def Superseded (generations : Generations) (number : Nat) : Prop :=
  number ≤ generations.puts ∧ generations.live ≠ some number

theorem superseded_apply (h : generations.Superseded number) (effect : Effect) :
    (generations.apply effect).Superseded number := by
  obtain ⟨hPuts, hLive⟩ := h
  cases effect with
  | put =>
      refine ⟨Nat.le_succ_of_le hPuts, fun hEq => ?_⟩
      have hNumber := Option.some.inj hEq
      omega
  | remove => exact ⟨hPuts, nofun⟩
  | keep => exact ⟨hPuts, hLive⟩

theorem superseded_applyAll (h : generations.Superseded number) (effects : List Effect) :
    (generations.applyAll effects).Superseded number := by
  induction effects generalizing generations with
  | nil => exact h
  | cons effect rest ih => exact ih (superseded_apply h effect)

/-- A live value is live under the same number later exactly if nothing has touched it. -/
theorem live_again_iff (hNumber : number ≤ generations.puts)
    (hLive : generations.live = some number) :
    (generations.applyAll effects).live = some number ↔ ∀ effect ∈ effects, effect = .keep := by
  induction effects with
  | nil => simpa [applyAll] using hLive
  | cons effect rest ih =>
      cases effect with
      | keep =>
          rw [List.forall_mem_cons, ← ih]
          exact (and_iff_right rfl).symm
      | put =>
          have hLater : Superseded (generations.apply .put) number := by
            refine ⟨Nat.le_succ_of_le hNumber, fun hEq => ?_⟩
            have hSame : generations.puts + 1 = number := Option.some.inj hEq
            omega
          refine iff_of_false (superseded_applyAll hLater rest).2 ?_
          simp
      | remove =>
          have hLater : Superseded (generations.apply .remove) number := ⟨hNumber, nofun⟩
          refine iff_of_false (superseded_applyAll hLater rest).2 ?_
          simp

/-- No value is live under a number that has not been given yet. -/
theorem live_le_puts (hLive : (new.applyAll effects).live = some number) :
    number ≤ (new.applyAll effects).puts := by
  induction effects using List.reverseRecOn with
  | nil => cases hLive
  | append_singleton effects effect ih =>
      rw [applyAll, List.foldl_append, ← applyAll] at hLive ⊢
      cases effect with
      | put => exact (Option.some.inj hLive).ge
      | remove => cases hLive
      | keep => exact ih hLive

/-- The value just put is live exactly if nothing has touched it since. -/
theorem live_of_put_iff :
    ((generations.apply .put).applyAll effects).live = some (generations.puts + 1) ↔
      ∀ effect ∈ effects, effect = .keep :=
  live_again_iff (Nat.le_refl _) rfl

end Generations

end EventFs.Library
