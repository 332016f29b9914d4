import EventFs.Library.Program

/-!
# Programs that run next to each other

Threads run the programs of their jobs on one state. The next call is that of any thread,
and other parties act between the calls. A thread may start a job while the one before is
not done, as after a crash.
-/

namespace EventFs.Library.Program

variable {I : Interface} {J ι σ : Type}

/-- A job and what is left of its program. -/
structure Thread (I : Interface) (J : Type) where
  job : J
  rest : Program I Unit

variable [DecidableEq ι] {B : Behaviour I σ} {Env : σ → σ → Prop} {code : J → Program I Unit}
  {start : σ}

/-- The calls issued from the start on, the threads and the state after them. -/
inductive Interleaved (B : Behaviour I σ) (Env : σ → σ → Prop) (code : J → Program I Unit)
    (start : σ) : List (J × I.Call) → (ι → Option (Thread I J)) → σ → Prop
  | start : Interleaved B Env code start [] (fun _ => none) start
  | launch {calls : List (J × I.Call)} {threads : ι → Option (Thread I J)} {s : σ} (i : ι)
      (job : J) (h : Interleaved B Env code start calls threads s) :
      Interleaved B Env code start calls (Function.update threads i (some ⟨job, code job⟩)) s
  | call {calls : List (J × I.Call)} {threads : ι → Option (Thread I J)} {s t : σ} {i : ι}
      {job : J} {c : I.Call} {next : I.Reply c → Program I Unit} {r : I.Reply c}
      (h : Interleaved B Env code start calls threads s)
      (hThread : threads i = some ⟨job, .call c next⟩) (hCall : B s c r t) :
      Interleaved B Env code start (calls ++ [(job, c)])
        (Function.update threads i (some ⟨job, next r⟩)) t
  | env {calls : List (J × I.Call)} {threads : ι → Option (Thread I J)} {s t : σ}
      (h : Interleaved B Env code start calls threads s) (hEnv : Env s t) :
      Interleaved B Env code start calls threads t

namespace Interleaved

variable {calls : List (J × I.Call)} {threads : ι → Option (Thread I J)} {s : σ}
  {Issue : J → I.Call → Prop}

/-- What every program issues, every thread will still issue. -/
theorem rest_calls (hCode : ∀ job, (code job).Calls (Issue job))
    (h : Interleaved B Env code start calls threads s) {i : ι} {thread : Thread I J}
    (hThread : threads i = some thread) : thread.rest.Calls (Issue thread.job) := by
  induction h generalizing i thread with
  | start => cases hThread
  | launch j job _ ih =>
      rw [Function.update_apply] at hThread
      split at hThread
      · cases hThread
        exact hCode job
      · exact ih hThread
  | call _ hCaller _ ih =>
      rw [Function.update_apply] at hThread
      split at hThread
      · cases hThread
        exact (ih hCaller).2 _
      · exact ih hThread
  | env _ _ ih => exact ih hThread

/-- What holds at the start and is kept by the calls that the programs issue, and by the
other parties, holds throughout. -/
theorem invariant (hCode : ∀ job, (code job).Calls (Issue job))
    {Inv : List (J × I.Call) → σ → Prop} (hStart : Inv [] start)
    (hCall : ∀ ⦃calls s job c r t⦄, Inv calls s → Issue job c → B s c r t →
      Inv (calls ++ [(job, c)]) t)
    (hEnv : ∀ ⦃calls s t⦄, Inv calls s → Env s t → Inv calls t)
    (h : Interleaved B Env code start calls threads s) : Inv calls s := by
  induction h with
  | start => exact hStart
  | launch i job _ ih => exact ih
  | call hBefore hCaller hReply ih =>
      exact hCall ih (hBefore.rest_calls hCode hCaller).1 hReply
  | env _ hStep ih => exact hEnv ih hStep

/-- A thread may run to its end before any other takes a step. -/
theorem finish {handle : Handler I σ} (hConforms : ∀ s c, B s c (handle s c).1 (handle s c).2)
    {i : ι} {job : J} {p : Program I Unit}
    (h : Interleaved B Env code start calls threads s) (hThread : threads i = some ⟨job, p⟩) :
    ∃ more, Interleaved B Env code start (calls ++ more)
      (Function.update threads i (some ⟨job, .ret ()⟩)) (eval handle p s).2 := by
  induction p generalizing calls threads s with
  | ret a =>
      refine ⟨[], ?_⟩
      rw [List.append_nil, ← hThread, Function.update_eq_self]
      exact h
  | call c next ih =>
      have hStep := h.call hThread (hConforms s c)
      obtain ⟨more, hMore⟩ := ih _ hStep (Function.update_self i _ _)
      refine ⟨(job, c) :: more, ?_⟩
      rw [Function.update_idem, List.append_assoc] at hMore
      exact hMore

end Interleaved

end EventFs.Library.Program
