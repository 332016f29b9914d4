import EventFs.Library.Answers

/-!
# Histories

What happens in a run: the calls with their replies, and the state before and after each
of them. Other parties may act before, between and after the calls. A run that returns is
a log of the program together with a history that has this log.
-/

namespace EventFs.Library.Program

variable {I : Interface} {α σ : Type}

structure Event (I : Interface) (σ : Type) where
  call : I.Call
  reply : I.Reply call
  before : σ
  after : σ

def Event.exchange (event : Event I σ) : Σ c : I.Call, I.Reply c := ⟨event.call, event.reply⟩

inductive History (B : Behaviour I σ) (Env : σ → σ → Prop) : σ → List (Event I σ) → σ → Prop
  | done (s : σ) : History B Env s [] s
  | env {s t u : σ} {events : List (Event I σ)} (hEnv : Env s t)
      (rest : History B Env t events u) : History B Env s events u
  | step {event : Event I σ} {events : List (Event I σ)} {u : σ}
      (hCall : B event.before event.call event.reply event.after)
      (rest : History B Env event.after events u) : History B Env event.before (event :: events) u

variable {B : Behaviour I σ} {Env : σ → σ → Prop} {s t : σ} {events : List (Event I σ)}

/-- A run that returned, and what happened in it. -/
structure Ran (B : Behaviour I σ) (Env : σ → σ → Prop) (p : Program I α) (s : σ)
    (events : List (Event I σ)) (a : α) (t : σ) : Prop where
  answers : Answers p (events.map Event.exchange) a
  history : History B Env s events t

theorem Run.ran {p : Program I α} {o : Option α} {a : α} (h : Run B Env p s o t)
    (hReturns : o = some a) : ∃ events, Ran B Env p s events a t := by
  induction h with
  | finish b s =>
      obtain rfl := Option.some.inj hReturns
      exact ⟨[], .ret b, .done s⟩
  | stop p s => cases hReturns
  | env hEnv _ ih =>
      obtain ⟨events, hAnswers, hHistory⟩ := ih hReturns
      exact ⟨events, hAnswers, .env hEnv hHistory⟩
  | @step c next s t u r o hCall _ ih =>
      obtain ⟨events, hAnswers, hHistory⟩ := ih hReturns
      let event : Event I σ := ⟨c, r, s, t⟩
      have hStep : History B Env event.before (event :: events) u := .step hCall hHistory
      exact ⟨event :: events, .call r hAnswers, hStep⟩

theorem Ran.run {p : Program I α} {a : α} (h : Ran B Env p s events a t) :
    Run B Env p s (some a) t := by
  obtain ⟨hAnswers, hHistory⟩ := h
  induction hHistory generalizing p with
  | done s =>
      cases hAnswers
      exact .finish a s
  | env hEnv _ ih => exact .env hEnv (ih hAnswers)
  | step hCall _ ih =>
      cases hAnswers with
      | call r hRest => exact .step hCall (ih hRest)

/-- The runs that return are those in which something has happened. -/
theorem run_iff_ran {p : Program I α} {a : α} :
    Run B Env p s (some a) t ↔ ∃ events, Ran B Env p s events a t :=
  ⟨fun h => h.ran rfl, fun ⟨_, h⟩ => h.run⟩

namespace History

/-- One event, up to evaluation of the states around it. -/
theorem step_of_eq {event : Event I σ} (hStart : s = event.before)
    (hCall : B event.before event.call event.reply event.after)
    (rest : History B Env event.after events t) : History B Env s (event :: events) t := by
  rw [hStart]
  exact .step hCall rest

/-- What every call and the other parties keep holds at the end. -/
theorem keeps {J : σ → Prop} (h : History B Env s events t) (hStable : Stable Env J)
    (hKept : ∀ ⦃s c r t⦄, B s c r t → J s → J t) (hStart : J s) : J t := by
  induction h with
  | done s => exact hStart
  | env hEnv _ ih => exact ih (hStable hEnv hStart)
  | step hCall _ ih => exact ih (hKept hCall hStart)

/-- An event of a history, with the histories before and after it. -/
theorem split {first last : List (Event I σ)} {event : Event I σ}
    (h : History B Env s (first ++ event :: last) t) :
    History B Env s first event.before ∧ B event.before event.call event.reply event.after ∧
      History B Env event.after last t := by
  generalize hEvents : first ++ event :: last = events at h
  induction h generalizing first with
  | done s => simp at hEvents
  | env hEnv _ ih =>
      obtain ⟨hFirst, hBoth⟩ := ih hEvents
      exact ⟨.env hEnv hFirst, hBoth⟩
  | step hCall rest ih =>
      cases first with
      | nil =>
          obtain ⟨rfl, rfl⟩ := List.cons.inj hEvents
          exact ⟨.done _, hCall, rest⟩
      | cons head first =>
          obtain ⟨rfl, hRest⟩ := List.cons.inj hEvents
          obtain ⟨hFirst, hBoth⟩ := ih hRest
          exact ⟨.step hCall hFirst, hBoth⟩

end History

end EventFs.Library.Program
