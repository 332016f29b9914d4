import EventFs.Library.Program

/-!
# Programs side by side

Several programs act on one state, a call at a time, in any order; each may stop at any
point, and parties that are no program act in between. Every job relies on a relation that
what the others do keeps to, and guarantees one for what it does itself (`Safe`). An
invariant that every guarantee keeps then holds in every state the programs reach together.
A run may be restricted by what follows a call: where the reply to it makes a program issue
some other call next, the state in which it was made has to permit this.
-/

namespace EventFs.Library

open Relation

namespace Program

variable {I : Interface} {α β σ : Type}

/-! ## One program among others -/

/-- The call a program issues next. -/
def first : Program I α → Option I.Call
  | .ret _ => none
  | .call c _ => some c

theorem first_bind {p : Program I α} (f : α → Program I β) {c : I.Call} (h : p.first = some c) :
    (p >>= f).first = some c := by
  cases p with
  | ret a => cases h
  | call c next => exact h

/-- In this state a call may be answered so that another one is issued next. -/
abbrev Permit (I : Interface) (σ : Type) := σ → I.Call → I.Call → Prop

/-- Whatever the others do in between, every call that the state permits keeps to `Guar`, and
a result satisfies `Q` when it is returned. -/
def Safe (B : Behaviour I σ) (V : Permit I σ) (Rely Guar : σ → σ → Prop) :
    Program I α → (α → σ → Prop) → σ → Prop
  | .ret a, Q, s => Q a s
  | .call c next, Q, s => ∀ ⦃t⦄, ReflTransGen Rely s t → ∀ ⦃r u⦄, B t c r u →
      (∀ c', (next r).first = some c' → V t c c') →
      Guar t u ∧ (next r).Safe B V Rely Guar Q u

variable {B : Behaviour I σ} {V : Permit I σ} {Rely Guar : σ → σ → Prop} {Q : α → σ → Prop}

theorem Stable.star {P : σ → Prop} (h : Stable Rely P) {s t : σ} (hStar : ReflTransGen Rely s t)
    (hP : P s) : P t := by
  induction hStar with
  | refl => exact hP
  | tail _ hStep ih => exact h hStep ih

theorem Safe.rely (hQ : ∀ a, Stable Rely (Q a)) {p : Program I α} {s t : σ} (hRely : Rely s t)
    (h : Safe B V Rely Guar p Q s) : Safe B V Rely Guar p Q t := by
  cases p with
  | ret a => exact hQ a hRely h
  | call c next =>
      exact fun u hStar r v hCall hPermits => h (ReflTransGen.head hRely hStar) hCall hPermits

theorem Safe.bind {p : Program I α} {f : α → Program I β} {R : β → σ → Prop} {s : σ}
    (h : Safe B V Rely Guar p Q s)
    (hNext : ∀ a t, Q a t → Safe B V Rely Guar (f a) R t) : Safe B V Rely Guar (p >>= f) R s := by
  induction p generalizing s with
  | ret a => exact hNext a s h
  | call c next ih =>
      intro t hStar r u hCall hPermits
      obtain ⟨hGuar, hRest⟩ := h hStar hCall fun c' hFirst => hPermits c' (first_bind f hFirst)
      exact ⟨hGuar, ih r hRest⟩

theorem Safe.weaken {p : Program I α} {R : α → σ → Prop} {s : σ}
    (h : Safe B V Rely Guar p Q s) (hQ : ∀ a t, Q a t → R a t) : Safe B V Rely Guar p R s := by
  induction p generalizing s with
  | ret a => exact hQ a s h
  | call c next ih =>
      intro t hStar r u hCall hPermits
      obtain ⟨hGuar, hRest⟩ := h hStar hCall hPermits
      exact ⟨hGuar, ih r hRest⟩

theorem Safe.both {p : Program I α} {R : α → σ → Prop} {s : σ} (hQ : Safe B V Rely Guar p Q s)
    (hR : Safe B V Rely Guar p R s) : Safe B V Rely Guar p (fun a t => Q a t ∧ R a t) s := by
  induction p generalizing s with
  | ret a => exact ⟨hQ, hR⟩
  | call c next ih =>
      intro t hStar r u hCall hPermits
      obtain ⟨hGuar, hRestQ⟩ := hQ hStar hCall hPermits
      exact ⟨hGuar, ih r hRestQ (hR hStar hCall hPermits).2⟩

theorem Safe.calls {Issue : I.Call → Prop} {P : σ → Prop} {p : Program I α} {s : σ}
    (hCalls : p.Calls Issue) (hStable : Stable Rely P) (hP : P s)
    (hKept : ∀ ⦃c t r u⦄, Issue c → P t → B t c r u → Guar t u ∧ P u) :
    Safe B V Rely Guar p (fun _ => P) s := by
  induction p generalizing s with
  | ret a => exact hP
  | call c next ih =>
      intro t hStar r u hCall _
      obtain ⟨hGuar, hAfter⟩ := hKept hCalls.1 (hStable.star hStar hP) hCall
      exact ⟨hGuar, ih r (hCalls.2 r) hAfter⟩

end Program

/-! ## Pools -/

open Program

/-- The shared state and the jobs under way, each with what is left of its program. -/
structure Pool (J : Type) (I : Interface) (σ : Type) where
  state : σ
  running : List (J × Program I Unit)

namespace Pool

variable {J : Type} {I : Interface} {σ : Type}

/-- What a job is: its program, when it may start, what its calls do and which may follow
which, and which jobs may be under way at the same time. -/
structure Rules (J : Type) (I : Interface) (σ : Type) where
  program : J → Program I Unit
  admits : J → σ → Prop
  behaviour : Behaviour I σ
  permits : J → Permit I σ
  compatible : J → J → Prop
  other : σ → σ → Prop

variable (rules : Rules J I σ)

inductive Step : Pool J I σ → Pool J I σ → Prop
  | start {s : σ} {running : List (J × Program I Unit)} (job : J) (hAdmits : rules.admits job s)
      (hCompatible : ∀ started ∈ running, rules.compatible job started.1) :
      Step ⟨s, running⟩ ⟨s, (job, rules.program job) :: running⟩
  | call {s t : σ} {front back : List (J × Program I Unit)} {job : J} {c : I.Call}
      {next : I.Reply c → Program I Unit} {r : I.Reply c}
      (hCall : rules.behaviour s c r t)
      (hPermits : ∀ c', (next r).first = some c' → rules.permits job s c c') :
      Step ⟨s, front ++ (job, .call c next) :: back⟩ ⟨t, front ++ (job, next r) :: back⟩
  | stop {s : σ} {front back : List (J × Program I Unit)} (job : J × Program I Unit) :
      Step ⟨s, front ++ job :: back⟩ ⟨s, front ++ back⟩
  | other {s t : σ} {running : List (J × Program I Unit)} (hOther : rules.other s t) :
      Step ⟨s, running⟩ ⟨t, running⟩

/-- Every pool that is reached from one without jobs. -/
def Reaches (s : σ) (pool : Pool J I σ) : Prop :=
  ReflTransGen (Step rules) ⟨s, []⟩ pool

/-- Every call of a run without faults is one that may be made. -/
def Allowed (B : Behaviour I σ) (V : Permit I σ) (handle : Handler I σ) :
    Program I Unit → σ → Prop
  | .ret _, _ => True
  | .call c next, s => B s c (handle s c).1 (handle s c).2 ∧
      (∀ c', (next (handle s c).1).first = some c' → V s c c') ∧
        Allowed B V handle (next (handle s c).1) (handle s c).2

/-- A job may run to its end alone. -/
theorem reaches_eval {handle : Handler I σ} {s : σ} (job : J) (hAdmits : rules.admits job s)
    (hAllowed : Allowed rules.behaviour (rules.permits job) handle (rules.program job) s) :
    Reaches rules s ⟨(eval handle (rules.program job) s).2, [(job, .ret ())]⟩ := by
  have hRun : ∀ (p : Program I Unit) (t : σ),
      Allowed rules.behaviour (rules.permits job) handle p t →
      ReflTransGen (Step rules) ⟨t, [(job, p)]⟩ ⟨(eval handle p t).2, [(job, .ret ())]⟩ := by
    intro p
    induction p with
    | ret a => exact fun t _ => ReflTransGen.refl
    | call c next ih =>
        rintro t ⟨hCall, hPermits, hRest⟩
        have hStep : Step rules ⟨t, [] ++ (job, .call c next) :: []⟩
            ⟨(handle t c).2, [] ++ (job, next (handle t c).1) :: []⟩ := .call hCall hPermits
        exact ReflTransGen.head hStep (ih _ _ hRest)
  refine ReflTransGen.head (Step.start job hAdmits ?_) (hRun _ _ hAllowed)
  intro started hStarted
  cases hStarted

/-! ## Invariants -/

/-- What a proof by rely and guarantee has to supply. -/
structure Discipline (rules : Rules J I σ) where
  inv : σ → Prop
  rely : J → σ → σ → Prop
  guar : J → σ → σ → Prop
  symm : ∀ ⦃left right⦄, rules.compatible left right → rules.compatible right left
  other_rely : ∀ ⦃s t⦄, rules.other s t → inv s → inv t ∧ ∀ job, rely job s t
  guar_rely : ∀ ⦃job s t⦄, guar job s t → inv s →
    inv t ∧ ∀ job', rules.compatible job job' → rely job' s t
  safe : ∀ ⦃job s⦄, inv s → rules.admits job s →
    Safe rules.behaviour (rules.permits job) (rely job) (guar job) (rules.program job)
      (fun _ _ => True) s

variable {rules}

namespace Discipline

variable (discipline : Discipline rules)

structure Holds (pool : Pool J I σ) : Prop where
  inv : discipline.inv pool.state
  apart : pool.running.Pairwise fun left right => rules.compatible left.1 right.1
  safe : ∀ job ∈ pool.running, Safe rules.behaviour (rules.permits job.1)
    (discipline.rely job.1) (discipline.guar job.1) job.2 (fun _ _ => True) pool.state

variable {discipline}

theorem safe_rely {job : J × Program I Unit} {s t : σ} (hRely : discipline.rely job.1 s t)
    (h : Safe rules.behaviour (rules.permits job.1) (discipline.rely job.1)
      (discipline.guar job.1) job.2 (fun _ _ => True) s) :
    Safe rules.behaviour (rules.permits job.1) (discipline.rely job.1) (discipline.guar job.1)
      job.2 (fun _ _ => True) t :=
  Safe.rely (fun _ _ _ _ h => h) hRely h

theorem Holds.step {pool pool' : Pool J I σ} (h : discipline.Holds pool)
    (hStep : Step rules pool pool') : discipline.Holds pool' := by
  obtain ⟨hInv, hApart, hSafe⟩ := h
  cases hStep with
  | start job hAdmits hCompatible =>
      refine ⟨hInv, List.pairwise_cons.mpr ⟨hCompatible, hApart⟩, ?_⟩
      intro started hStarted
      rcases List.mem_cons.mp hStarted with rfl | hStarted
      · exact discipline.safe hInv hAdmits
      · exact hSafe started hStarted
  | @call s t front back job c next r hCall hPermits =>
      have hJob := hSafe (job, .call c next) (by simp)
      obtain ⟨hGuar, hRest⟩ := hJob ReflTransGen.refl hCall hPermits
      obtain ⟨hInv', hRely⟩ := discipline.guar_rely hGuar hInv
      obtain ⟨hFront, hBack, hAcross⟩ := List.pairwise_append.mp hApart
      obtain ⟨hAfter, hBack⟩ := List.pairwise_cons.mp hBack
      refine ⟨hInv', ?_, ?_⟩
      · refine List.pairwise_append.mpr ⟨hFront, List.pairwise_cons.mpr ⟨hAfter, hBack⟩, ?_⟩
        intro left hLeft right hRight
        rcases List.mem_cons.mp hRight with rfl | hRight
        · exact hAcross left hLeft (job, .call c next) List.mem_cons_self
        · exact hAcross left hLeft right (List.mem_cons_of_mem _ hRight)
      · intro started hStarted
        rcases List.mem_append.mp hStarted with hStarted | hStarted
        · have hCompatible := hAcross started hStarted (job, .call c next) List.mem_cons_self
          exact safe_rely (hRely _ (discipline.symm hCompatible))
            (hSafe started (by simp [hStarted]))
        · rcases List.mem_cons.mp hStarted with rfl | hStarted
          · exact hRest
          · exact safe_rely (hRely _ (hAfter started hStarted)) (hSafe started (by simp [hStarted]))
  | @stop s front back job =>
      obtain ⟨hFront, hBack, hAcross⟩ := List.pairwise_append.mp hApart
      refine ⟨hInv, List.pairwise_append.mpr ⟨hFront, (List.pairwise_cons.mp hBack).2, ?_⟩, ?_⟩
      · intro left hLeft right hRight
        exact hAcross left hLeft right (List.mem_cons_of_mem _ hRight)
      · intro started hStarted
        refine hSafe started ?_
        rcases List.mem_append.mp hStarted with hStarted | hStarted <;> simp [hStarted]
  | other hOther =>
      obtain ⟨hInv', hRely⟩ := discipline.other_rely hOther hInv
      exact ⟨hInv', hApart, fun started hStarted =>
        safe_rely (hRely started.1) (hSafe started hStarted)⟩

variable (discipline) in
/-- The invariant holds in every state the jobs reach together. -/
theorem inv_reaches {s : σ} (hInv : discipline.inv s) {pool : Pool J I σ}
    (hReaches : Reaches rules s pool) : discipline.inv pool.state := by
  have hHolds : discipline.Holds pool := by
    induction hReaches with
    | refl =>
        refine ⟨hInv, List.Pairwise.nil, ?_⟩
        intro job hJob
        cases hJob
    | tail _ hStep ih => exact ih.step hStep
  exact hHolds.inv

end Discipline

end Pool

end EventFs.Library
