import Mathlib

/-!
# Changes that may be cut off

A system keeps a value that its users change. An attempt to change it is acknowledged, or
refused, or never answered because the system was lost meanwhile. Where every step treats
its attempt as a whole, the value after a run is what the acknowledged changes and some of
the unanswered ones have made of the first value, in order.
-/

namespace EventFs.Library

variable {σ ε α : Type}

/-- Steps one after another, with their labels. -/
inductive Trace (Step : σ → ε → σ → Prop) : σ → List ε → σ → Prop
  | nil (s : σ) : Trace Step s [] s
  | step {s t u : σ} {labels : List ε} {label : ε} (run : Trace Step s labels t)
      (hStep : Step t label u) : Trace Step s (labels ++ [label]) u

theorem Trace.keeps {Step : σ → ε → σ → Prop} {Inv : σ → Prop} {s t : σ} {labels : List ε}
    (hStep : ∀ ⦃s label t⦄, Inv s → Step s label t → Inv t) (hStart : Inv s)
    (run : Trace Step s labels t) : Inv t := by
  induction run with
  | nil => exact hStart
  | step _ hLast ih => exact hStep ih hLast

inductive Fate
  | acknowledged
  | refused
  | unanswered
deriving DecidableEq, Repr

structure Attempt (α : Type) where
  change : α → α
  fate : Fate

/-- What an attempt may make of a value. -/
def Attempt.Makes (attempt : Attempt α) (before after : α) : Prop :=
  match attempt.fate with
  | .acknowledged => after = attempt.change before
  | .refused => after = before
  | .unanswered => after = before ∨ after = attempt.change before

/-- The changes of the attempts that took place: each one that was acknowledged, and none
that was refused. -/
inductive TookPlace : List (Attempt α) → List (α → α) → Prop
  | nil : TookPlace [] []
  | made {attempts : List (Attempt α)} {changes : List (α → α)} {attempt : Attempt α}
      (earlier : TookPlace attempts changes) (hFate : attempt.fate ≠ .refused) :
      TookPlace (attempts ++ [attempt]) (changes ++ [attempt.change])
  | unmade {attempts : List (Attempt α)} {changes : List (α → α)} {attempt : Attempt α}
      (earlier : TookPlace attempts changes) (hFate : attempt.fate ≠ .acknowledged) :
      TookPlace (attempts ++ [attempt]) changes

/-- An attempt that makes something of a value has taken place or has not. -/
theorem Attempt.Makes.cases {attempt : Attempt α} {before after : α}
    (h : attempt.Makes before after) :
    (attempt.fate ≠ .refused ∧ after = attempt.change before) ∨
      (attempt.fate ≠ .acknowledged ∧ after = before) := by
  unfold Attempt.Makes at h
  split at h
  · next hFate => exact Or.inl ⟨by simp [hFate], h⟩
  · next hFate => exact Or.inr ⟨by simp [hFate], h⟩
  · next hFate =>
    rcases h with h | h
    · exact Or.inr ⟨by simp [hFate], h⟩
    · exact Or.inl ⟨by simp [hFate], h⟩

/-- No acknowledged change is lost, no refused one appears, and the order is kept. -/
theorem Trace.durable {Step : σ → ε → σ → Prop} {Inv : σ → Prop} {value : σ → α}
    {attempt : ε → Attempt α} {s t : σ} {labels : List ε}
    (hStep : ∀ ⦃s label t⦄, Inv s → Step s label t →
      Inv t ∧ (attempt label).Makes (value s) (value t))
    (hStart : Inv s) (run : Trace Step s labels t) :
    ∃ changes, TookPlace (labels.map attempt) changes ∧
      value t = changes.foldl (fun v change => change v) (value s) := by
  have hKeeps : ∀ ⦃s label t⦄, Inv s → Step s label t → Inv t := by
    intro s label t h hOne
    exact (hStep h hOne).1
  induction run with
  | nil => exact ⟨[], .nil, rfl⟩
  | step run hLast ih =>
      obtain ⟨changes, hTook, hValue⟩ := ih
      have hInv := run.keeps hKeeps hStart
      rw [List.map_append, List.map_singleton]
      rcases (hStep hInv hLast).2.cases with ⟨hFate, hMade⟩ | ⟨hFate, hSame⟩
      · refine ⟨_, .made hTook hFate, ?_⟩
        rw [hMade, hValue, List.foldl_append]
        rfl
      · exact ⟨changes, .unmade hTook hFate, hSame.trans hValue⟩

end EventFs.Library
