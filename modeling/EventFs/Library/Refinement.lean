import EventFs.Library.Durable
import EventFs.Library.Program

/-!
# One system runs like another

Where every step of a system is matched by a step of another with the same label, every
run is matched by a run. What two triples say of a program holds together.
-/

namespace EventFs.Library

variable {σ τ ε : Type}

theorem Trace.simulate {Step : σ → ε → σ → Prop} {Step' : τ → ε → τ → Prop} {R : σ → τ → Prop}
    (hStep : ∀ ⦃s label t s'⦄, R s s' → Step s label t → ∃ t', Step' s' label t' ∧ R t t')
    {s t : σ} {s' : τ} {labels : List ε} (hStart : R s s') (run : Trace Step s labels t) :
    ∃ t', Trace Step' s' labels t' ∧ R t t' := by
  induction run with
  | nil => exact ⟨s', .nil s', hStart⟩
  | step _ hLast ih =>
      obtain ⟨u', hRun, hRelated⟩ := ih
      obtain ⟨t', hOne, hEnd⟩ := hStep hRelated hLast
      exact ⟨t', .step hRun hOne, hEnd⟩

namespace Program

variable {I : Interface} {α : Type} {B : Behaviour I σ} {Env Env' : σ → σ → Prop}
  {P P' C C' : σ → Prop} {Q Q' : α → σ → Prop} {p : Program I α}

/-- Where the others do less, they still do nothing else. -/
theorem Run.env_mono (hEnv : ∀ ⦃s t⦄, Env s t → Env' s t) {s t : σ} {o : Option α}
    (h : Run B Env p s o t) : Run B Env' p s o t := by
  induction h with
  | finish a s => exact .finish a s
  | stop p s => exact .stop p s
  | env hOne _ ih => exact .env (hEnv hOne) ih
  | step hCall _ ih => exact .step hCall ih

theorem Triple.alone (h : Triple B Env P p Q C) : Triple B Alone P p Q C := by
  intro s o t hP hRun
  have hAmong : Run B Env p s o t := hRun.env_mono fun _ _ hNone => hNone.elim
  exact h hP hAmong

theorem Triple.both (h : Triple B Env P p Q C) (h' : Triple B Env P' p Q' C') :
    Triple B Env (fun s => P s ∧ P' s) p (fun a s => Q a s ∧ Q' a s) fun s => C s ∧ C' s := by
  intro s o t hP hRun
  have hLeft := h hP.1 hRun
  have hRight := h' hP.2 hRun
  cases o with
  | none => exact ⟨hLeft, hRight⟩
  | some a => exact ⟨hLeft, hRight⟩

end Program

end EventFs.Library
