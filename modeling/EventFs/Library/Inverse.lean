import Mathlib

/-!
# Maps that read each other back

Two partial maps are inverse when each gives back what the other was asked for. They stay
so when a fresh pair enters both, and when some keys leave one of them and the values of
these keys leave the other.
-/

namespace EventFs.Library

variable {α β : Type}

/-- Each map reads back what the other holds. -/
def Inverse (forward : α → Option β) (backward : β → Option α) : Prop :=
  ∀ a b, forward a = some b ↔ backward b = some a

namespace Inverse

variable {forward forward' : α → Option β} {backward backward' : β → Option α}

theorem key_eq (h : Inverse forward backward) {a c : α} {b : β} (ha : forward a = some b)
    (hc : forward c = some b) : a = c :=
  Option.some.inj (((h a b).mp ha).symm.trans ((h c b).mp hc))

section Insert

variable [DecidableEq α] [DecidableEq β]

omit [DecidableEq β] in
theorem update_none {key a : α} {value b : β} :
    Function.update (fun _ => none) key (some value) a = some b ↔ a = key ∧ b = value := by
  rw [Function.update_apply]
  split
  · next h => simp [h, eq_comm]
  · next h => simp [h]

theorem insert (h : Inverse forward backward) {key : α} {value : β}
    (hKey : forward key = none) (hValue : backward value = none) :
    Inverse (Function.update forward key (some value))
      (Function.update backward value (some key)) := by
  intro a b
  by_cases ha : a = key
  · subst ha
    by_cases hb : b = value
    · subst hb
      simp
    · have hOther : backward b ≠ some a := by
        intro hBackward
        rw [(h a b).mpr hBackward] at hKey
        cases hKey
      simp [hb, hOther, Ne.symm hb]
  · by_cases hb : b = value
    · subst hb
      have hOther : forward a ≠ some b := by
        intro hForward
        rw [(h a b).mp hForward] at hValue
        cases hValue
      simp [ha, hOther, Ne.symm ha]
    · simpa [ha, hb] using h a b

end Insert

/-- `keep` says which keys stay. -/
theorem restrict (h : Inverse forward backward) {keep : α → Prop}
    (hForward : ∀ a b, forward' a = some b ↔ forward a = some b ∧ keep a)
    (hBackward : ∀ a b, backward' b = some a ↔
      backward b = some a ∧ ∀ c, forward c = some b → keep c) : Inverse forward' backward' := by
  intro a b
  rw [hForward, hBackward]
  constructor
  · rintro ⟨ha, hKeep⟩
    exact ⟨(h a b).mp ha, fun c hc => h.key_eq ha hc ▸ hKeep⟩
  · rintro ⟨hb, hKeep⟩
    have ha := (h a b).mpr hb
    exact ⟨ha, hKeep a ha⟩

end Inverse

end EventFs.Library
