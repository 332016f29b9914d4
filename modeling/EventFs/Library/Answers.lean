import EventFs.Library.Program

/-!
# Logs of calls and replies

A log lists the calls of one run of a program with the replies it got. No state is
behind the replies: any reply may follow any call.
-/

namespace EventFs.Library.Program

variable {I : Interface} {α β : Type}

abbrev Log (I : Interface) := List (Σ c : I.Call, I.Reply c)

/-- Answered as in the log, the program returns the result. -/
inductive Answers : Program I α → Log I → α → Prop
  | ret (a : α) : Answers (.ret a) [] a
  | call {c : I.Call} {next : I.Reply c → Program I α} (r : I.Reply c) {log : Log I} {a : α}
      (rest : Answers (next r) log a) : Answers (.call c next) (⟨c, r⟩ :: log) a

/-- Every reply is the one that a strategy gives to the call after the earlier calls. -/
def Follows (strategy : Log I → (c : I.Call) → I.Reply c) : Log I → Log I → Prop
  | _, [] => True
  | past, event :: rest =>
      event.2 = strategy past event.1 ∧ Follows strategy (past ++ [event]) rest

/-- Whatever decides the replies, the program returns. -/
theorem exists_answers (strategy : Log I → (c : I.Call) → I.Reply c) (p : Program I α)
    (past : Log I) : ∃ log a, Answers p log a ∧ Follows strategy past log := by
  induction p generalizing past with
  | ret a => exact ⟨[], a, .ret a, trivial⟩
  | call c next ih =>
      obtain ⟨log, a, hAnswers, hFollows⟩ := ih (strategy past c) (past ++ [⟨c, strategy past c⟩])
      exact ⟨_, a, .call _ hAnswers, rfl, hFollows⟩

namespace Answers

theorem of_pure {a b : α} {log : Log I} (h : Answers (pure a : Program I α) log b) :
    log = [] ∧ b = a := by
  cases h
  exact ⟨rfl, rfl⟩

theorem of_perform {c : I.Call} {r : I.Reply c} {log : Log I} (h : Answers (perform c) log r) :
    log = [⟨c, r⟩] := by
  cases h with
  | call _ rest =>
      cases rest
      rfl

/-- A run that returns has a log. -/
theorem of_run {σ : Type} {B : Behaviour I σ} {p : Program I α} {a : α} {s t : σ}
    (h : Run B Alone p s (some a) t) : ∃ log, Answers p log a := by
  induction p generalizing s with
  | ret b =>
      obtain ⟨rfl, -⟩ := h.of_ret
      exact ⟨[], .ret a⟩
  | call c next ih =>
      obtain ⟨r, _, -, hRest⟩ := h.of_call
      obtain ⟨log, hLog⟩ := ih r hRest
      exact ⟨_, .call r hLog⟩

/-- A program that returns, and one that issues a call, up to evaluation. -/
theorem ret_of_eq {p : Program I α} {a : α} (h : p = .ret a) : Answers p [] a := h ▸ .ret a

theorem call_of_eq {p : Program I α} {c : I.Call} {next : I.Reply c → Program I α}
    {r : I.Reply c} {log : Log I} {a : α} (h : p = .call c next) (rest : Answers (next r) log a) :
    Answers p (⟨c, r⟩ :: log) a := h ▸ .call r rest

/-- A log of a sequence is a log of its first part followed by one of the second. -/
theorem of_bind {p : Program I α} {f : α → Program I β} {log : Log I} {b : β}
    (h : Answers (p >>= f) log b) :
    ∃ first second a, log = first ++ second ∧ Answers p first a ∧ Answers (f a) second b := by
  induction p generalizing log with
  | ret a => exact ⟨[], log, a, rfl, .ret a, h⟩
  | call c next ih =>
      change Answers (.call c fun r => (next r).bind f) log b at h
      cases h with
      | call r rest =>
          obtain ⟨first, second, a, rfl, hFirst, hSecond⟩ := ih r rest
          exact ⟨_, second, a, rfl, .call r hFirst, hSecond⟩

/-- The same for programs that may fail, and for one whose failure is looked at. -/
theorem of_bindExcept {ε : Type} {p : ExceptT ε (Program I) α} {f : α → ExceptT ε (Program I) β}
    {log : Log I} {result : Except ε β} (h : Answers (p >>= f).run log result) :
    (∃ e, result = .error e ∧ Answers p.run log (.error e)) ∨
      ∃ first second a, log = first ++ second ∧ Answers p.run first (.ok a) ∧
        Answers (f a).run second result := by
  obtain ⟨first, second, outcome, rfl, hFirst, hSecond⟩ := of_bind h
  cases outcome with
  | ok a => exact Or.inr ⟨first, second, a, rfl, hFirst, hSecond⟩
  | error e =>
      obtain ⟨rfl, rfl⟩ := of_pure hSecond
      rw [List.append_nil]
      exact Or.inl ⟨e, rfl, hFirst⟩

theorem of_inspect {ε : Type} {p : ExceptT ε (Program I) α}
    {f : Except ε α → ExceptT ε (Program I) β} {log : Log I} {result : Except ε β}
    (h : Answers (ExceptT.lift p.run >>= f).run log result) :
    ∃ first second outcome, log = first ++ second ∧ Answers p.run first outcome ∧
      Answers (f outcome).run second result := by
  rw [ExceptT.run_bind_lift] at h
  exact of_bind h

/-- A program that issues only some calls, however it is answered, has only these in its
logs. -/
theorem of_under {A : Access I} {Q : α → Prop} {p : Program I α} {log : Log I} {a : α}
    (hAnswers : Answers p log a) (h : p.Under A Q) (hAnswer : ∀ c r, A.answer c r) :
    (∀ event ∈ log, A.issue event.1) ∧ Q a := by
  induction p generalizing log with
  | ret b =>
      obtain ⟨rfl, rfl⟩ := of_pure hAnswers
      exact ⟨List.forall_mem_nil _, h⟩
  | call c next ih =>
      cases hAnswers with
      | call r rest =>
          obtain ⟨hRest, hQ⟩ := ih r rest (h.2 r (hAnswer c r))
          exact ⟨List.forall_mem_cons.mpr ⟨h.1, hRest⟩, hQ⟩

theorem of_all {Issue : I.Call → Prop} {Q : α → Prop} {p : Program I α} {log : Log I} {a : α}
    (hAnswers : Answers p log a) (h : p.All Issue Q) : (∀ event ∈ log, Issue event.1) ∧ Q a :=
  hAnswers.of_under (A := ⟨Issue, fun _ _ => True⟩) h.under fun _ _ => trivial

end Answers

/-! ## How many calls -/

/-- The program never issues more than `n` calls. -/
def Within (n : Nat) (p : Program I α) : Prop := ∀ ⦃log a⦄, Answers p log a → log.length ≤ n

theorem Within.pure (n : Nat) (a : α) : Within n (pure a : Program I α) := by
  intro log b h
  obtain ⟨rfl, -⟩ := h.of_pure
  exact Nat.zero_le n

theorem Within.perform (c : I.Call) : Within 1 (perform c) := by
  intro log r h
  rw [h.of_perform]
  exact Nat.le_refl 1

theorem Within.bind {n m : Nat} {p : Program I α} {f : α → Program I β} (hFirst : Within n p)
    (hSecond : ∀ a, Within m (f a)) : Within (n + m) (p >>= f) := by
  intro log b h
  obtain ⟨first, second, a, rfl, hFirstLog, hSecondLog⟩ := h.of_bind
  rw [List.length_append]
  exact Nat.add_le_add (hFirst hFirstLog) (hSecond a hSecondLog)

theorem Within.bindExcept {ε : Type} {n m : Nat} {p : ExceptT ε (Program I) α}
    {f : α → ExceptT ε (Program I) β} (hFirst : Within n p.run)
    (hSecond : ∀ a, Within m (f a).run) : Within (n + m) (p >>= f).run := by
  refine Within.bind hFirst ?_
  intro result
  cases result with
  | ok a => exact hSecond a
  | error e => exact .pure m _

end EventFs.Library.Program
