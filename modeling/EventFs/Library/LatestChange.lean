import Mathlib

/-!
# The latest change wins

A change writes one key and may remove another. Applying a list of changes to a map
from keys to values gives, at every key, what the latest change of that key left there,
or the old value where no change touched it.
-/

namespace EventFs.Library

variable {κ ν : Type} [DecidableEq κ]

/-- Write `value` at `target`, then remove `source`. -/
structure Change (κ ν : Type) where
  target : κ
  value : ν
  source : Option κ
deriving DecidableEq

namespace Change

/-- What the change leaves at a key, if it touches the key. -/
def on (change : Change κ ν) (key : κ) : Option (Option ν) :=
  if change.source = some key then some none
  else if change.target = key then some (some change.value)
  else none

def apply (change : Change κ ν) (values : κ → Option ν) : κ → Option ν :=
  fun key => (change.on key).getD (values key)

def applyAll (changes : List (Change κ ν)) (values : κ → Option ν) : κ → Option ν :=
  changes.foldl (fun values change => change.apply values) values

/-- What the latest change of a key leaves there. -/
def latest (changes : List (Change κ ν)) (key : κ) : Option (Option ν) :=
  changes.foldl (fun found change => (change.on key).or found) none

@[simp] theorem latest_nil (key : κ) : latest ([] : List (Change κ ν)) key = none := rfl

@[simp] theorem latest_concat (changes : List (Change κ ν)) (change : Change κ ν) (key : κ) :
    latest (changes ++ [change]) key = (change.on key).or (latest changes key) := by
  simp [latest]

@[simp] theorem applyAll_concat (changes : List (Change κ ν)) (change : Change κ ν)
    (values : κ → Option ν) :
    applyAll (changes ++ [change]) values = change.apply (applyAll changes values) := by
  simp [applyAll]

theorem applyAll_eq_latest (changes : List (Change κ ν)) (values : κ → Option ν) (key : κ) :
    applyAll changes values key = (latest changes key).getD (values key) := by
  induction changes using List.reverseRecOn with
  | nil => rfl
  | append_singleton changes change ih =>
      rw [applyAll_concat, latest_concat, apply, ih]
      cases change.on key <;> rfl

theorem latest_eq_none {changes : List (Change κ ν)} {key : κ} :
    latest changes key = none ↔ ∀ change ∈ changes, change.on key = none := by
  induction changes using List.reverseRecOn with
  | nil => simp
  | append_singleton changes change ih =>
      rw [latest_concat, Option.or_eq_none_iff, ih]
      simp only [List.mem_append, List.mem_singleton]
      constructor
      · rintro ⟨hLast, hRest⟩ other (hMem | rfl)
        · exact hRest other hMem
        · exact hLast
      · intro h
        exact ⟨h change (Or.inr rfl), fun other hMem => h other (Or.inl hMem)⟩

end Change

end EventFs.Library
