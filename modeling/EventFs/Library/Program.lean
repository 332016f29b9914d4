import Mathlib

/-!
# Programs that act through calls

A program is a finite tree: it returns, or it issues one call and continues with
the reply. Nothing here fixes what the calls do. `eval` runs a program against a
deterministic handler; `Run` runs it against a relation that may lose, refuse or
duplicate work, with steps of other parties between any two calls, and may stop
at any point. `Triple` states what holds when a run returns and what holds
wherever it stops.
-/

namespace EventFs.Library

/-- The calls a program may issue and the type of each reply. -/
structure Interface where
  Call : Type
  Reply : Call → Type

inductive Program (I : Interface) (α : Type) : Type
  | ret (result : α)
  | call (request : I.Call) (next : I.Reply request → Program I α)

namespace Program

variable {I : Interface} {α β γ σ : Type}

def bind : Program I α → (α → Program I β) → Program I β
  | .ret a, f => f a
  | .call c next, f => .call c fun r => (next r).bind f

/-- Issue one call and return its reply. -/
def perform (c : I.Call) : Program I (I.Reply c) := .call c .ret

instance : Monad (Program I) where
  pure := .ret
  bind := bind

theorem bind_ret (p : Program I α) : p.bind .ret = p := by
  induction p with
  | ret a => rfl
  | call c next ih =>
      simp only [bind]
      congr 1
      funext r
      exact ih r

theorem bind_assoc (p : Program I α) (f : α → Program I β) (g : β → Program I γ) :
    (p.bind f).bind g = p.bind fun a => (f a).bind g := by
  induction p with
  | ret a => rfl
  | call c next ih =>
      simp only [bind]
      congr 1
      funext r
      exact ih r

instance : LawfulMonad (Program I) :=
  LawfulMonad.mk' (Program I) (fun p => bind_ret p) (fun _ _ => rfl)
    (fun p f g => bind_assoc p f g)

/-- Every call the program may issue is one of these, and so is every result. -/
def All (Issue : I.Call → Prop) (Q : α → Prop) : Program I α → Prop
  | .ret a => Q a
  | .call c next => Issue c ∧ ∀ r, (next r).All Issue Q

theorem All.bind {Issue : I.Call → Prop} {Q : α → Prop} {R : β → Prop} {p : Program I α}
    {f : α → Program I β} (hFirst : p.All Issue Q) (hSecond : ∀ a, Q a → (f a).All Issue R) :
    (p >>= f).All Issue R := by
  induction p with
  | ret a => exact hSecond a hFirst
  | call c next ih => exact ⟨hFirst.1, fun r => ih r (hFirst.2 r)⟩

theorem All.weaken {Issue Issue' : I.Call → Prop} {Q Q' : α → Prop} {p : Program I α}
    (h : p.All Issue Q) (hIssue : ∀ c, Issue c → Issue' c) (hQ : ∀ a, Q a → Q' a) :
    p.All Issue' Q' := by
  induction p with
  | ret a => exact hQ a h
  | call c next ih => exact ⟨hIssue c h.1, fun r => ih r (h.2 r)⟩

/-- Every call the program may issue is one of these. -/
abbrev Calls (Issue : I.Call → Prop) (p : Program I α) : Prop := p.All Issue fun _ => True

theorem Calls.bind {Issue : I.Call → Prop} {p : Program I α} {f : α → Program I β}
    (hFirst : p.Calls Issue) (hSecond : ∀ a, (f a).Calls Issue) : (p >>= f).Calls Issue :=
  All.bind hFirst fun a _ => hSecond a

/-! ## Calls and their replies -/

/-- The calls a program may issue and how these may be answered. -/
structure Access (I : Interface) where
  issue : I.Call → Prop
  answer : (c : I.Call) → I.Reply c → Prop

/-- Every call the program issues, while it is answered in one of these ways, is one of
these, and so is every result. -/
def Under (A : Access I) (Q : α → Prop) : Program I α → Prop
  | .ret a => Q a
  | .call c next => A.issue c ∧ ∀ r, A.answer c r → (next r).Under A Q

theorem Under.bind {A : Access I} {Q : α → Prop} {R : β → Prop} {p : Program I α}
    {f : α → Program I β} (hFirst : p.Under A Q) (hSecond : ∀ a, Q a → (f a).Under A R) :
    (p >>= f).Under A R := by
  induction p with
  | ret a => exact hSecond a hFirst
  | call c next ih => exact ⟨hFirst.1, fun r hAnswer => ih r (hFirst.2 r hAnswer)⟩

theorem Under.weaken {A : Access I} {Q Q' : α → Prop} {p : Program I α} (h : p.Under A Q)
    (hQ : ∀ a, Q a → Q' a) : p.Under A Q' := by
  induction p with
  | ret a => exact hQ a h
  | call c next ih => exact ⟨h.1, fun r hAnswer => ih r (h.2 r hAnswer)⟩

theorem Under.all {A : Access I} {Q : α → Prop} {p : Program I α} (h : p.Under A Q)
    (hAnswer : ∀ c r, A.answer c r) : p.All A.issue Q := by
  induction p with
  | ret a => exact h
  | call c next ih => exact ⟨h.1, fun r => ih r (h.2 r (hAnswer c r))⟩

theorem All.under {Issue : I.Call → Prop} {Q : α → Prop} {p : Program I α} (h : p.All Issue Q) :
    p.Under ⟨Issue, fun _ _ => True⟩ Q := by
  induction p with
  | ret a => exact h
  | call c next ih => exact ⟨h.1, fun r _ => ih r (h.2 r)⟩

/-! ## Deterministic runs -/

/-- What a handler answers to a call and how it changes its own state. -/
abbrev Handler (I : Interface) (σ : Type) := σ → (c : I.Call) → I.Reply c × σ

def eval (handle : Handler I σ) : Program I α → σ → α × σ
  | .ret a, s => (a, s)
  | .call c next, s => (next (handle s c).1).eval handle (handle s c).2

@[simp] theorem eval_pure (handle : Handler I σ) (a : α) (s : σ) :
    eval handle (pure a : Program I α) s = (a, s) := rfl

@[simp] theorem eval_perform (handle : Handler I σ) (c : I.Call) (s : σ) :
    eval handle (perform c) s = handle s c := rfl

theorem eval_bind' (handle : Handler I σ) (p : Program I α) (f : α → Program I β) (s : σ) :
    eval handle (p.bind f) s = eval handle (f (eval handle p s).1) (eval handle p s).2 := by
  induction p generalizing s with
  | ret a => rfl
  | call c next ih => exact ih (handle s c).1 (handle s c).2

@[simp] theorem eval_bind (handle : Handler I σ) (p : Program I α) (f : α → Program I β) (s : σ) :
    eval handle (p >>= f) s = eval handle (f (eval handle p s).1) (eval handle p s).2 :=
  eval_bind' handle p f s

/-! ## Runs with faults, other parties and stops -/

/-- How a call may change the state and what it may answer. -/
abbrev Behaviour (I : Interface) (σ : Type) := σ → (c : I.Call) → I.Reply c → σ → Prop

/-- A handler whose calls may also fail: `refused` leaves the state alone,
`unacknowledged` takes effect and still answers with a failure. -/
inductive Faulty (handle : Handler I σ) (Failure : (c : I.Call) → I.Reply c → Prop)
    (Lossy : I.Call → Prop) : Behaviour I σ
  | done (s : σ) (c : I.Call) : Faulty handle Failure Lossy s c (handle s c).1 (handle s c).2
  | refused (s : σ) (c : I.Call) {r : I.Reply c} (hFail : Failure c r) :
      Faulty handle Failure Lossy s c r s
  | unacknowledged (s : σ) (c : I.Call) {r : I.Reply c} (hLossy : Lossy c)
      (hFail : Failure c r) : Faulty handle Failure Lossy s c r (handle s c).2

theorem Faulty.inv {handle : Handler I σ} {Failure : (c : I.Call) → I.Reply c → Prop}
    {Lossy : I.Call → Prop} {s t : σ} {c : I.Call} {r : I.Reply c}
    (h : Faulty handle Failure Lossy s c r t) :
    (r = (handle s c).1 ∧ t = (handle s c).2) ∨
      (Failure c r ∧ (t = s ∨ Lossy c ∧ t = (handle s c).2)) := by
  cases h with
  | done => exact Or.inl ⟨rfl, rfl⟩
  | refused _ _ hFail => exact Or.inr ⟨hFail, Or.inl rfl⟩
  | unacknowledged _ _ hLossy hFail => exact Or.inr ⟨hFail, Or.inr ⟨hLossy, rfl⟩⟩

/-- One run of a program. It ends with a result, or with `none` where it stopped:
a crash, or an observer looking at an intermediate state. -/
inductive Run (B : Behaviour I σ) (Env : σ → σ → Prop) :
    Program I α → σ → Option α → σ → Prop
  | finish (a : α) (s : σ) : Run B Env (.ret a) s (some a) s
  | stop (p : Program I α) (s : σ) : Run B Env p s none s
  | env {p : Program I α} {s t u : σ} {o : Option α} (hEnv : Env s t)
      (rest : Run B Env p t o u) : Run B Env p s o u
  | step {c : I.Call} {next : I.Reply c → Program I α} {s t u : σ} {r : I.Reply c}
      {o : Option α} (hCall : B s c r t) (rest : Run B Env (next r) t o u) :
      Run B Env (.call c next) s o u

/-- The state after at most `n` calls. -/
def stateAfter (handle : Handler I σ) : Nat → Program I α → σ → σ
  | n + 1, .call c next, s => stateAfter handle n (next (handle s c).1) (handle s c).2
  | _, _, s => s

section Conforming

variable {B : Behaviour I σ} {Env : σ → σ → Prop} {handle : Handler I σ}
  (hConforms : ∀ s c, B s c (handle s c).1 (handle s c).2)

include hConforms

/-- A handler that does nothing but what the calls may do gives one of the runs. -/
theorem run_eval (p : Program I α) (s : σ) :
    Run B Env p s (some (eval handle p s).1) (eval handle p s).2 := by
  induction p generalizing s with
  | ret a => exact .finish a s
  | call c next ih => exact .step (hConforms s c) (ih _ _)

theorem run_stateAfter (n : Nat) (p : Program I α) (s : σ) :
    Run B Env p s none (stateAfter handle n p s) := by
  induction n generalizing p s with
  | zero => exact .stop p s
  | succ n ih =>
      cases p with
      | ret a => exact .stop (.ret a) s
      | call c next => exact .step (hConforms s c) (ih _ _)

/-- One that stops after some calls and a step of another party. -/
theorem run_stateAfter_env {n : Nat} {p : Program I α} {s t : σ}
    (hEnv : Env (stateAfter handle n p s) t) : Run B Env p s none t := by
  induction n generalizing p s with
  | zero => exact .env hEnv (.stop p t)
  | succ n ih =>
      cases p with
      | ret a => exact .env hEnv (.stop (.ret a) t)
      | call c next => exact .step (hConforms s c) (ih hEnv)

end Conforming

/-- No other party takes a step. -/
def Alone : σ → σ → Prop := fun _ _ => False

/-- From `P`, a run that returns `a` ends in `Q a`, and one that stops does so in `C`. -/
def Triple (B : Behaviour I σ) (Env : σ → σ → Prop) (P : σ → Prop) (p : Program I α)
    (Q : α → σ → Prop) (C : σ → Prop) : Prop :=
  ∀ ⦃s o t⦄, P s → Run B Env p s o t →
    match o with
    | some a => Q a t
    | none => C t

def Stable (Env : σ → σ → Prop) (P : σ → Prop) : Prop := ∀ ⦃s t⦄, Env s t → P s → P t

theorem stable_alone (P : σ → Prop) : Stable Alone P := fun _ _ h => h.elim

variable {B : Behaviour I σ} {Env : σ → σ → Prop} {P : σ → Prop} {C : σ → Prop}

theorem Triple.ret {a : α} {Q : α → σ → Prop} (hStable : Stable Env P)
    (hQ : ∀ s, P s → Q a s) (hC : ∀ s, P s → C s) : Triple B Env P (.ret a) Q C := by
  intro s o t hP hRun
  generalize hp : (Program.ret a : Program I α) = p at hRun
  induction hRun with
  | finish b s =>
      cases hp
      exact hQ s hP
  | stop p s => exact hC s hP
  | env hEnv rest ih => exact ih (hStable hEnv hP) hp
  | step hCall rest ih => cases hp

/-- The state before a call satisfies `P` however long other parties act; the reply
and the state after it satisfy `R`, from which the rest of the program goes on. -/
theorem Triple.call {c : I.Call} {next : I.Reply c → Program I α} {Q : α → σ → Prop}
    (R : I.Reply c → σ → Prop) (hStable : Stable Env P) (hC : ∀ s, P s → C s)
    (hCall : ∀ ⦃s r t⦄, P s → B s c r t → R r t)
    (hNext : ∀ r, Triple B Env (R r) (next r) Q C) : Triple B Env P (.call c next) Q C := by
  intro s o t hP hRun
  generalize hp : (Program.call c next : Program I α) = p at hRun
  induction hRun with
  | finish b s => cases hp
  | stop p s => exact hC s hP
  | env hEnv rest ih => exact ih (hStable hEnv hP) hp
  | step hStep rest ih =>
      cases hp
      exact hNext _ (hCall hP hStep) rest

/-- What follows a call may be replaced where the replies that can occur allow it. -/
theorem Run.call_mono {c : I.Call} {next next' : I.Reply c → Program I α} {s u : σ} {o : Option α}
    (h : ∀ ⦃s r t⦄, B s c r t → Run B Env (next r) t o u → Run B Env (next' r) t o u)
    (hRun : Run B Env (.call c next) s o u) : Run B Env (.call c next') s o u := by
  generalize hp : (Program.call c next : Program I α) = p at hRun
  induction hRun with
  | finish b s => cases hp
  | stop p s => exact .stop _ s
  | env hEnv rest ih => exact .env hEnv (ih h hp)
  | step hStep rest ih =>
      cases hp
      exact .step hStep (h hStep rest)

/-- What every call keeps holds to the end, together with what holds of every result. -/
theorem Triple.all {Issue : I.Call → Prop} {Q : α → Prop} {p : Program I α}
    (hAll : p.All Issue Q) (hStable : Stable Env P) (hC : ∀ s, P s → C s)
    (hKept : ∀ ⦃c s r t⦄, Issue c → P s → B s c r t → P t) :
    Triple B Env P p (fun a s => Q a ∧ P s) C := by
  induction p with
  | ret a => exact .ret hStable (fun _ h => ⟨hAll, h⟩) hC
  | call c next ih =>
      exact .call (fun _ => P) hStable hC (fun _ _ _ hP hCall => hKept hAll.1 hP hCall)
        fun r => ih r (hAll.2 r)

/-- A program whose calls keep an invariant and are answered as they may be keeps it and
returns one of its results. -/
theorem Under.run {A : Access I} {Q : α → Prop} {J : σ → Prop} {p : Program I α} {s t : σ} {a : α}
    (h : p.Under A Q)
    (hCall : ∀ ⦃c s r t⦄, A.issue c → J s → B s c r t → J t ∧ A.answer c r) (hStart : J s)
    (hRun : Run B Alone p s (some a) t) : J t ∧ Q a := by
  induction p generalizing s with
  | ret b =>
      cases hRun with
      | finish => exact ⟨hStart, h⟩
      | env hEnv => exact hEnv.elim
  | call c next ih =>
      cases hRun with
      | env hEnv => exact hEnv.elim
      | step hStep rest =>
          obtain ⟨hNext, hAnswer⟩ := hCall h.1 hStart hStep
          exact ih _ (h.2 _ hAnswer) hNext rest

/-- A run of a sequence is a run of its first part that stops, or one that returns
followed by a run of the second. -/
theorem Run.bind_cases {p : Program I α} {f : α → Program I β} {s u : σ} {o : Option β}
    (hRun : Run B Env (p.bind f) s o u) :
    (o = none ∧ Run B Env p s none u) ∨
      ∃ a t, Run B Env p s (some a) t ∧ Run B Env (f a) t o u := by
  generalize hq : p.bind f = q at hRun
  induction hRun generalizing p with
  | finish b s =>
      cases p with
      | ret a =>
          refine Or.inr ⟨a, s, .finish a s, ?_⟩
          rw [show f a = .ret b from hq]
          exact .finish b s
      | call c next => cases hq
  | stop q s => exact Or.inl ⟨rfl, .stop p s⟩
  | env hEnv rest ih =>
      rcases ih hq with ⟨ho, hStop⟩ | ⟨a, t, hFirst, hSecond⟩
      · exact Or.inl ⟨ho, .env hEnv hStop⟩
      · exact Or.inr ⟨a, t, .env hEnv hFirst, hSecond⟩
  | @step c next s t u r o hCall rest ih =>
      cases p with
      | ret a =>
          refine Or.inr ⟨a, s, .finish a s, ?_⟩
          rw [show f a = .call c next from hq]
          exact .step hCall rest
      | call c' next' =>
          cases hq
          rcases ih rfl with ⟨ho, hStop⟩ | ⟨a, t', hFirst, hSecond⟩
          · exact Or.inl ⟨ho, .step hCall hStop⟩
          · exact Or.inr ⟨a, t', .step hCall hFirst, hSecond⟩

theorem Run.bind_some {p : Program I α} {f : α → Program I β} {s u : σ} {b : β}
    (hRun : Run B Env (p >>= f) s (some b) u) :
    ∃ a t, Run B Env p s (some a) t ∧ Run B Env (f a) t (some b) u := by
  rcases Run.bind_cases (show Run B Env (p.bind f) s (some b) u from hRun) with ⟨hStop, -⟩ | hBoth
  · cases hStop
  · exact hBoth

theorem Run.of_ret {a b : α} {s t : σ} (h : Run B Alone (.ret a) s (some b) t) :
    b = a ∧ t = s := by
  cases h with
  | finish => exact ⟨rfl, rfl⟩
  | env hEnv => exact hEnv.elim

theorem Run.of_call {c : I.Call} {next : I.Reply c → Program I α} {s u : σ} {a : α}
    (h : Run B Alone (.call c next) s (some a) u) :
    ∃ r t, B s c r t ∧ Run B Alone (next r) t (some a) u := by
  cases h with
  | env hEnv => exact hEnv.elim
  | step hCall rest => exact ⟨_, _, hCall, rest⟩

theorem Run.mono {B' : Behaviour I σ} (hB : ∀ ⦃s c r t⦄, B s c r t → B' s c r t)
    {p : Program I α} {s t : σ} {o : Option α} (h : Run B Env p s o t) : Run B' Env p s o t := by
  induction h with
  | finish a s => exact .finish a s
  | stop p s => exact .stop p s
  | env hEnv _ ih => exact .env hEnv ih
  | step hCall _ ih => exact .step (hB hCall) ih

/-- Where every call may be refused without effect, a run that was cut off leaves what a run
leaves whose remaining calls were all refused. -/
theorem Run.finish_refused (hRefuses : ∀ s c, ∃ r, B s c r s) {p : Program I α} {s t : σ}
    {o : Option α} (h : Run B Env p s o t) : ∃ a, Run B Env p s (some a) t := by
  induction h with
  | finish a s => exact ⟨a, .finish a s⟩
  | stop p s =>
      induction p with
      | ret a => exact ⟨a, .finish a s⟩
      | call c next ih =>
          obtain ⟨r, hCall⟩ := hRefuses s c
          obtain ⟨a, hRest⟩ := ih r
          exact ⟨a, .step hCall hRest⟩
  | env hEnv _ ih =>
      obtain ⟨a, hRest⟩ := ih
      exact ⟨a, .env hEnv hRest⟩
  | step hCall _ ih =>
      obtain ⟨a, hRest⟩ := ih
      exact ⟨a, .step hCall hRest⟩

theorem Triple.bind {p : Program I α} {f : α → Program I β} {Q : β → σ → Prop}
    (R : α → σ → Prop) (hFirst : Triple B Env P p R C)
    (hSecond : ∀ a, Triple B Env (R a) (f a) Q C) : Triple B Env P (p >>= f) Q C := by
  intro s o t hP hRun
  rcases Run.bind_cases (show Run B Env (p.bind f) s o t from hRun) with
    ⟨rfl, hStop⟩ | ⟨a, u, hRet, hRest⟩
  · exact hFirst hP hStop
  · exact hSecond a (hFirst hP hRet) hRest

theorem Triple.perform {c : I.Call} {Q : I.Reply c → σ → Prop} (hStable : Stable Env P)
    (hStableQ : ∀ r, Stable Env (Q r)) (hC : ∀ s, P s → C s) (hCQ : ∀ r s, Q r s → C s)
    (hCall : ∀ ⦃s r t⦄, P s → B s c r t → Q r t) : Triple B Env P (perform c) Q C :=
  .call Q hStable hC hCall fun r => .ret (hStableQ r) (fun _ h => h) (hCQ r)

theorem Triple.weaken {p : Program I α} {P' : σ → Prop} {Q Q' : α → σ → Prop} {C' : σ → Prop}
    (h : Triple B Env P p Q C) (hP : ∀ s, P' s → P s) (hQ : ∀ a s, Q a s → Q' a s)
    (hC : ∀ s, C s → C' s) : Triple B Env P' p Q' C' := by
  intro s o t hs hRun
  have hEnd := h (hP s hs) hRun
  cases o with
  | none => exact hC t hEnd
  | some a => exact hQ a t hEnd

/-- What every call a program may issue keeps, the program keeps. -/
theorem Triple.calls {Issue : I.Call → Prop} {p : Program I α} (hCalls : p.Calls Issue)
    (hStable : Stable Env P) (hC : ∀ s, P s → C s)
    (hKept : ∀ ⦃c s r t⦄, Issue c → P s → B s c r t → P t) :
    Triple B Env P p (fun _ => P) C :=
  (Triple.all hCalls hStable hC hKept).weaken (fun _ h => h) (fun _ _ h => h.2) fun _ h => h

theorem Triple.exists {ι : Type} {p : Program I α} {P : ι → σ → Prop} {Q : α → σ → Prop}
    (h : ∀ i, Triple B Env (P i) p Q C) : Triple B Env (fun s => ∃ i, P i s) p Q C := by
  rintro s o t ⟨i, hi⟩ hRun
  exact h i hi hRun

/-- A consequence of the precondition that does not depend on the state may be used in
the rest of the proof. -/
theorem Triple.assume {p : Program I α} {φ : Prop} {Q : α → σ → Prop} (hφ : ∀ s, P s → φ)
    (h : φ → Triple B Env P p Q C) : Triple B Env P p Q C := by
  intro s o t hP hRun
  exact h (hφ s hP) hP hRun

/-- Sequencing of programs that may fail: a failure ends the run. -/
theorem Triple.bindExcept {ε : Type} {p : ExceptT ε (Program I) α}
    {f : α → ExceptT ε (Program I) β} {Q : Except ε β → σ → Prop} (R : Except ε α → σ → Prop)
    (hFirst : Triple B Env P p.run R C) (hStable : ∀ e, Stable Env (R (.error e)))
    (hError : ∀ e s, R (.error e) s → Q (.error e) s) (hC : ∀ e s, R (.error e) s → C s)
    (hSecond : ∀ a, Triple B Env (R (.ok a)) (f a).run Q C) :
    Triple B Env P (p >>= f).run Q C := by
  refine Triple.bind R hFirst ?_
  intro result
  cases result with
  | ok a => exact hSecond a
  | error e => exact .ret (hStable e) (hError e) (hC e)

end Program

end EventFs.Library
