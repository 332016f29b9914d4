import EventFs.Fuse.Looking
import EventFs.Library.Answers

/-!
# The log of a piece of code

Code of a mount, run on one mount, issues calls, gets replies to them and leaves another
mount. `Logs` lists the calls with their replies. Any reply may follow any call, so what
holds of every log holds however the backend and the queue file behave.
-/

namespace EventFs.Fuse

open Library Protocol Transport Program

variable {α β : Type}

def Logs (p : RuntimeM α) (mount : Mount) (log : Log io) (a : α) (mount' : Mount) : Prop :=
  Answers (p.run mount) log (a, mount')

/-- Every call is answered with the same error. -/
def failing (err : TransportError) : (call : IoCall) → io.Reply call
  | .store _ | .persist _ | .load => .error err

namespace Logs

variable {mount mount' : Mount} {log : Log io}

/-- Code that issues no call. -/
theorem of_run {p : RuntimeM α} {a : α} (h : p.run mount = .ret (a, mount')) :
    Logs p mount [] a mount' := by
  rw [Logs, h]
  exact .ret _

/-- Where all runs are the same, this one exists. -/
theorem iff_of_forall {p : RuntimeM α} {only : Log io} {value : α} {last : Mount}
    (h : ∀ {log a mount'}, Logs p mount log a mount' → log = only ∧ a = value ∧ mount' = last)
    {a : α} : Logs p mount log a mount' ↔ log = only ∧ a = value ∧ mount' = last := by
  refine ⟨h, ?_⟩
  rintro ⟨rfl, rfl, rfl⟩
  obtain ⟨log, ⟨a, mount'⟩, hLogs, -⟩ :=
    exists_answers (fun _ => failing .notFound) (p.run mount) []
  obtain ⟨rfl, rfl, rfl⟩ := h hLogs
  exact hLogs

theorem of_pure {a b : α} (h : Logs (pure a) mount log b mount') :
    log = [] ∧ b = a ∧ mount' = mount := by
  obtain ⟨rfl, hResult⟩ := Answers.of_pure h
  obtain ⟨rfl, rfl⟩ := Prod.mk.inj hResult
  exact ⟨rfl, rfl, rfl⟩

theorem of_get {a : Mount} (h : Logs get mount log a mount') :
    log = [] ∧ a = mount ∧ mount' = mount := by
  obtain ⟨rfl, hResult⟩ := Answers.of_pure h
  obtain ⟨rfl, rfl⟩ := Prod.mk.inj hResult
  exact ⟨rfl, rfl, rfl⟩

theorem of_modify {f : Mount → Mount} {a : Unit} (h : Logs (modify f) mount log a mount') :
    log = [] ∧ mount' = f mount := by
  obtain ⟨rfl, hResult⟩ := Answers.of_pure h
  exact ⟨rfl, (Prod.mk.inj hResult).2⟩

theorem of_bind {p : RuntimeM α} {f : α → RuntimeM β} {b : β}
    (h : Logs (p >>= f) mount log b mount') :
    ∃ first second a between, log = first ++ second ∧ Logs p mount first a between ∧
      Logs (f a) between second b mount' := by
  rw [Logs, StateT.run_bind] at h
  obtain ⟨first, second, ⟨a, between⟩, rfl, hFirst, hSecond⟩ := h.of_bind
  exact ⟨first, second, a, between, rfl, hFirst, hSecond⟩

theorem of_stateLift {p : Program io α} {a : α} (h : Logs (StateT.lift p) mount log a mount') :
    Answers p log a ∧ mount' = mount := by
  have hBind : Answers (p >>= fun a => pure (a, mount)) log (a, mount') := h
  obtain ⟨first, second, b, rfl, hFirst, hEnd⟩ := hBind.of_bind
  obtain ⟨rfl, hResult⟩ := Answers.of_pure hEnd
  obtain ⟨rfl, rfl⟩ := Prod.mk.inj hResult
  rw [List.append_nil]
  exact ⟨hFirst, rfl⟩

theorem of_request {call : StorageCall} {reply : TransportResult call.Value}
    (h : Logs (request call) mount log reply mount') :
    log = [⟨.store call, reply⟩] ∧ mount' = mount := by
  obtain ⟨hAnswers, rfl⟩ := of_stateLift h
  exact ⟨Answers.of_perform hAnswers, rfl⟩

/-! ## Code that may fail -/

theorem of_andThen {p : Runtime α} {f : α → Runtime β} {result : Except Errno β}
    (h : Logs (p >>= f).run mount log result mount') :
    (∃ errno, result = .error errno ∧ Logs p.run mount log (.error errno) mount') ∨
      ∃ first second a between, log = first ++ second ∧ Logs p.run mount first (.ok a) between ∧
        Logs (f a).run between second result mount' := by
  rw [ExceptT.run_bind] at h
  obtain ⟨first, second, answer, between, rfl, hFirst, hSecond⟩ := of_bind h
  cases answer with
  | ok a => exact Or.inr ⟨first, second, a, between, rfl, hFirst, hSecond⟩
  | error errno =>
      obtain ⟨rfl, rfl, rfl⟩ := of_pure hSecond
      rw [List.append_nil]
      exact Or.inl ⟨errno, rfl, hFirst⟩

theorem of_liftM {p : RuntimeM α} {result : Except Errno α}
    (h : Logs (liftM p : Runtime α).run mount log result mount') :
    ∃ a, result = .ok a ∧ Logs p mount log a mount' := by
  have hLift : Logs (ExceptT.lift p : Runtime α).run mount log result mount' := h
  rw [ExceptT.run_lift, map_eq_pure_bind] at hLift
  obtain ⟨first, second, a, between, rfl, hFirst, hEnd⟩ := of_bind hLift
  obtain ⟨rfl, rfl, rfl⟩ := of_pure hEnd
  rw [List.append_nil]
  exact ⟨a, rfl, hFirst⟩

theorem of_throw {errno : Errno} {result : Except Errno α}
    (h : Logs (throw errno : Runtime α).run mount log result mount') :
    log = [] ∧ result = .error errno ∧ mount' = mount := of_pure h

theorem of_liftErrno {answer result : Except Errno α}
    (h : Logs (liftErrno answer).run mount log result mount') :
    log = [] ∧ result = answer ∧ mount' = mount := by
  cases answer with
  | ok a => exact of_pure h
  | error errno => exact of_throw h

theorem of_then {c : Prop} [Decidable c] {p q : Runtime α} {result : Except Errno α}
    (h : Logs (if c then p else q).run mount log result mount') (hc : c) :
    Logs p.run mount log result mount' := by rwa [if_pos hc] at h

theorem of_else {c : Prop} [Decidable c] {p q : Runtime α} {result : Except Errno α}
    (h : Logs (if c then p else q).run mount log result mount') (hc : ¬ c) :
    Logs q.run mount log result mount' := by rwa [if_neg hc] at h

/-- A step that cannot fail, and what follows it. -/
theorem of_liftM_andThen {p : RuntimeM α} {f : α → Runtime β} {result : Except Errno β}
    (h : Logs (liftM p >>= f : Runtime β).run mount log result mount') :
    ∃ first second a between, log = first ++ second ∧ Logs p mount first a between ∧
      Logs (f a).run between second result mount' := by
  rcases of_andThen h with ⟨errno, -, hFailed⟩ | ⟨first, second, a, between, rfl, hFirst, hSecond⟩
  · obtain ⟨a, hOk, -⟩ := of_liftM hFailed
    cases hOk
  · obtain ⟨b, hOk, hFirst⟩ := of_liftM hFirst
    cases hOk
    exact ⟨first, second, a, between, rfl, hFirst, hSecond⟩

/-- A storage call whose failure ends the operation. -/
theorem of_requestIo {call : StorageCall} {result : Except Errno call.Value}
    (h : Logs (requestIo call).run mount log result mount') :
    ∃ reply : TransportResult call.Value, log = [⟨.store call, reply⟩] ∧
      result = reply.mapError ioError ∧ mount' = mount := by
  obtain ⟨_, _, reply, _, rfl, hRequest, hEnd⟩ := of_liftM_andThen h
  obtain ⟨rfl, rfl⟩ := of_request hRequest
  cases reply with
  | ok value | error err =>
      obtain ⟨rfl, rfl, rfl⟩ := of_pure hEnd
      exact ⟨_, rfl, rfl, rfl⟩

/-- The same with a step behind it that cannot fail. -/
theorem of_requestIo_map {call : StorageCall} {f : call.Value → α} {result : Except Errno α}
    (h : Logs (requestIo call >>= fun value => pure (f value)).run mount log result mount') :
    ∃ reply : TransportResult call.Value, log = [⟨.store call, reply⟩] ∧
      result = (reply.map f).mapError ioError ∧ mount' = mount := by
  rcases of_andThen h with ⟨errno, rfl, hFailed⟩ | ⟨_, _, value, _, rfl, hDone, hEnd⟩
  · obtain ⟨reply, rfl, hReply, rfl⟩ := of_requestIo hFailed
    cases reply with
    | ok value => cases hReply
    | error err => exact ⟨_, rfl, congrArg _ (Except.error.inj hReply), rfl⟩
  · obtain ⟨reply, rfl, hReply, rfl⟩ := of_requestIo hDone
    obtain ⟨rfl, rfl, rfl⟩ := of_pure hEnd
    cases reply with
    | ok value =>
        cases hReply
        exact ⟨_, rfl, rfl, rfl⟩
    | error err => cases hReply

/-- A pure step that may fail, and what follows it. -/
theorem of_liftErrno_andThen {answer : Except Errno α} {f : α → Runtime β}
    {result : Except Errno β}
    (h : Logs (liftErrno answer >>= f : Runtime β).run mount log result mount') :
    (∃ errno, answer = .error errno ∧ result = .error errno ∧ log = [] ∧ mount' = mount) ∨
      ∃ a, answer = .ok a ∧ Logs (f a).run mount log result mount' := by
  rcases of_andThen h with ⟨errno, rfl, hFailed⟩ | ⟨first, second, a, between, rfl, hFirst, hSecond⟩
  · obtain ⟨rfl, hAnswer, rfl⟩ := of_liftErrno hFailed
    exact Or.inl ⟨errno, hAnswer.symm, rfl, rfl, rfl⟩
  · obtain ⟨rfl, hAnswer, rfl⟩ := of_liftErrno hFirst
    exact Or.inr ⟨a, hAnswer.symm, hSecond⟩

/-! ## Code that keeps a relation -/

theorem of_keeps {A : Access io} {R : Mount → Mount → Prop} {p : RuntimeM α} {a : α}
    (h : Keeps A R p) (hAnswer : ∀ c r, A.answer c r) (hLogs : Logs p mount log a mount') :
    (∀ event ∈ log, A.issue event.1) ∧ R mount mount' := by
  have hEnd := hLogs.of_under (h mount) hAnswer
  exact hEnd

end Logs

end EventFs.Fuse
