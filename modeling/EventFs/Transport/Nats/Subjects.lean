import EventFs.Transport.Nats.BrokerFacts
import EventFs.Transport.Nats.Streams

/-!
# Which subjects a pattern covers

A pattern covers a subject token by token: `*` stands for one token and a final `>` for one or
more. `subjectMatches` compares what stands before a final `>` as text, so that a `*` there
matches nothing; on every other pattern it agrees with the token rule. `ensureSubject` adds a
subject that such a pattern covers already.
-/

namespace EventFs.Transport.Nats

open Library Protocol

/-! ## The token rule -/

def anyToken : Str := ['*']

def restTokens : Str := ['>']

def TokenFits (want got : Str) : Prop := want = anyToken ∨ want = got

/-- The tokens of a pattern cover the tokens of a subject. -/
inductive Covers : List Str → List Str → Prop
  | nil : Covers [] []
  | token {want got : Str} {wants gots : List Str} (hFits : TokenFits want got)
      (h : Covers wants gots) : Covers (want :: wants) (got :: gots)
  | rest (got : Str) (gots : List Str) : Covers [restTokens] (got :: gots)

def tokens (subject : Str) : List Str := subject.splitOn '.'

/-- No token is empty, and `>` is only the last one. -/
structure IsPattern (pattern : Str) : Prop where
  nonempty : ∀ token ∈ tokens pattern, token ≠ []
  last : restTokens ∉ (tokens pattern).dropLast

/-- No token is empty or a wildcard. -/
def IsConcrete (subject : Str) : Prop :=
  ∀ token ∈ tokens subject, token ≠ [] ∧ token ≠ anyToken ∧ token ≠ restTokens

theorem covers_iff_forall₂ {wants gots : List Str} (h : restTokens ∉ wants) :
    Covers wants gots ↔ List.Forall₂ TokenFits wants gots := by
  constructor
  · intro hCovers
    induction hCovers with
    | nil => exact .nil
    | token hFits _ ih => exact .cons hFits (ih fun hMem => h (List.mem_cons_of_mem _ hMem))
    | rest got gots => exact absurd List.mem_cons_self h
  · intro hAll
    induction hAll with
    | nil => exact .nil
    | cons hFits _ ih => exact .token hFits (ih fun hMem => h (List.mem_cons_of_mem _ hMem))

theorem covers_rest {gots : List Str} : Covers [restTokens] gots ↔ gots ≠ [] := by
  constructor
  · intro h
    cases h with
    | token _ _ => exact List.cons_ne_nil _ _
    | rest got gots => exact List.cons_ne_nil _ _
  · intro hne
    obtain ⟨got, gots, rfl⟩ := List.exists_cons_of_ne_nil hne
    exact .rest got gots

/-- Before a final `>` the tokens are compared one by one, and something remains. -/
theorem covers_append_rest {head gots : List Str} (h : restTokens ∉ head) :
    Covers (head ++ [restTokens]) gots ↔
      ∃ front back, gots = front ++ back ∧ back ≠ [] ∧ List.Forall₂ TokenFits head front := by
  induction head generalizing gots with
  | nil =>
    rw [List.nil_append, covers_rest]
    constructor
    · intro hne
      exact ⟨[], gots, rfl, hne, .nil⟩
    · rintro ⟨front, back, rfl, hBack, hFits⟩
      simp [hBack]
  | cons want head ih =>
    rw [List.mem_cons, not_or] at h
    constructor
    · intro hCovers
      generalize hPattern : want :: head ++ [restTokens] = pattern at hCovers
      cases hCovers with
      | nil => cases hPattern
      | token hFits hRest =>
        cases hPattern
        obtain ⟨front, back, rfl, hBack, hFront⟩ := (ih h.2).mp hRest
        exact ⟨_ :: front, back, rfl, hBack, .cons hFits hFront⟩
      | rest got gots =>
        cases head <;> cases hPattern
    · rintro ⟨front, back, rfl, hBack, hFits⟩
      cases hFits with
      | cons hFits hFront => exact .token hFits ((ih h.2).mpr ⟨_, back, rfl, hBack, hFront⟩)

/-! ## Patterns as texts -/

theorem tokens_append (before after : Str) :
    tokens (before ++ '.' :: after) = tokens before ++ tokens after :=
  List.splitOn_append_cons_self ..

theorem tokens_ne_nil (subject : Str) : tokens subject ≠ [] := List.splitOn_ne_nil '.' subject

theorem intercalate_tokens (subject : Str) : ['.'].intercalate (tokens subject) = subject :=
  List.intercalate_splitOn '.'

theorem tokens_injective {subject other : Str} (h : tokens subject = tokens other) :
    subject = other := by
  rw [← intercalate_tokens subject, ← intercalate_tokens other, h]

/-- Text before a dot is tokens before further tokens. -/
theorem startsWith_iff_tokens {before subject : Str} :
    Text.startsWith (before ++ ['.']) subject = true ↔
      ∃ back, back ≠ [] ∧ tokens subject = tokens before ++ back := by
  rw [Text.startsWith, List.isPrefixOf_iff_prefix]
  constructor
  · rintro ⟨after, rfl⟩
    refine ⟨tokens after, tokens_ne_nil after, ?_⟩
    rw [List.append_assoc, List.singleton_append, tokens_append]
  · rintro ⟨back, hBack, hTokens⟩
    refine ⟨['.'].intercalate back, ?_⟩
    rw [← intercalate_tokens subject, hTokens,
      Text.intercalate_append (tokens_ne_nil before) hBack, intercalate_tokens,
      List.append_assoc, List.singleton_append]

theorem tokens_rest (before : Str) :
    tokens (before ++ ".>".toList) = tokens before ++ [restTokens] :=
  tokens_append before ['>']

/-- A pattern that is no final `>` behind other tokens has none at all, but for the bare one. -/
theorem rest_notMem {pattern : Str} (h : IsPattern pattern) (hBare : pattern ≠ ['>'])
    (hSuffix : Text.stripSuffix ".>".toList pattern = none) : restTokens ∉ tokens pattern := by
  intro hMem
  have hLast : tokens pattern = (tokens pattern).dropLast ++ [restTokens] := by
    have hSplit := List.dropLast_append_getLast (tokens_ne_nil pattern)
    rw [← hSplit, List.mem_append, List.mem_singleton] at hMem
    rw [hMem.resolve_left h.last]
    exact hSplit.symm
  by_cases hEmpty : (tokens pattern).dropLast = []
  · rw [hEmpty, List.nil_append] at hLast
    exact hBare (tokens_injective hLast)
  · have hText : pattern = ['.'].intercalate (tokens pattern).dropLast ++ ".>".toList := by
      have hJoin := Text.intercalate_append (c := '.') hEmpty (List.cons_ne_nil restTokens [])
      rw [← hLast, tokens, List.intercalate_splitOn] at hJoin
      exact hJoin.trans (by rw [List.intercalate_singleton]; rfl)
    rw [Text.stripSuffix_eq_some.mpr hText] at hSuffix
    cases hSuffix

/-! ## What `subjectMatches` answers -/

/-- The pattern has a `*` before its final `>`, and the subject fits: it is longer than what
stands before the `>`, and its first tokens fit one by one. -/
def MixedFits (pattern subject : Str) : Prop :=
  ∃ head front back, tokens pattern = head ++ [restTokens] ∧ anyToken ∈ head ∧
    tokens subject = front ++ back ∧ back ≠ [] ∧ List.Forall₂ TokenFits head front

/-- A pattern without a `*` before its last token follows the token rule. -/
theorem not_mixedFits {pattern subject : Str} (h : anyToken ∉ (tokens pattern).dropLast) :
    ¬ MixedFits pattern subject := by
  rintro ⟨head, front, back, hPattern, hAny, -⟩
  rw [hPattern, List.dropLast_concat] at h
  exact h hAny

theorem forall₂_eq_of_literal {wants gots : List Str} (h : List.Forall₂ TokenFits wants gots)
    (hLiteral : anyToken ∉ wants) : wants = gots := by
  induction h with
  | nil => rfl
  | cons hFits _ ih =>
    rw [List.mem_cons, not_or] at hLiteral
    rw [hFits.resolve_left (Ne.symm hLiteral.1), ih hLiteral.2]

theorem forall₂_refl (wants : List Str) : List.Forall₂ TokenFits wants wants :=
  List.forall₂_same.mpr fun _ _ => .inr rfl

theorem zip_all_iff_forall₂ {wants gots : List Str} :
    (wants.length == gots.length &&
      (wants.zip gots).all fun pair => pair.1 == ['*'] || pair.1 == pair.2) = true ↔
      List.Forall₂ TokenFits wants gots := by
  rw [List.forall₂_iff_zip, Bool.and_eq_true, beq_iff_eq, List.all_eq_true]
  simp only [Prod.forall, Bool.or_eq_true, beq_iff_eq]
  rfl

/-- On patterns, the function is the token rule but for what `MixedFits` describes. -/
theorem subjectMatches_iff {pattern subject : Str} (hPattern : IsPattern pattern)
    (hSubject : IsConcrete subject) :
    subjectMatches pattern subject = true ↔
      Covers (tokens pattern) (tokens subject) ∧ ¬ MixedFits pattern subject := by
  rw [subjectMatches]
  split_ifs with hEasy
  · simp only [true_iff]
    rcases hEasy with rfl | rfl
    · have hRest : restTokens ∉ tokens pattern := fun hMem => (hSubject _ hMem).2.2 rfl
      refine ⟨(covers_iff_forall₂ hRest).mpr (forall₂_refl _), ?_⟩
      rintro ⟨head, front, back, hTokens, -⟩
      exact hRest (hTokens ▸ by simp)
    · refine ⟨covers_rest.mpr (tokens_ne_nil subject), ?_⟩
      rintro ⟨head, front, back, hTokens, hAny, -⟩
      have hHead : head = [] := by
        have hLength := congrArg List.length hTokens
        rw [List.length_append] at hLength
        exact List.length_eq_zero_iff.mp (Nat.add_right_cancel hLength).symm
      rw [hHead] at hAny
      cases hAny
  · rw [not_or] at hEasy
    cases hSuffix : Text.stripSuffix ".>".toList pattern with
    | some before =>
      obtain rfl := Text.stripSuffix_eq_some.mp hSuffix
      have hTokens := tokens_rest before
      have hRest : restTokens ∉ tokens before := by
        have hLast := hPattern.last
        rwa [hTokens, List.dropLast_concat] at hLast
      simp only
      rw [startsWith_iff_tokens, hTokens, covers_append_rest hRest]
      constructor
      · rintro ⟨back, hBack, hSplit⟩
        refine ⟨⟨_, back, hSplit, hBack, forall₂_refl _⟩, ?_⟩
        rintro ⟨head, front, back', hHead, hAny, -⟩
        obtain rfl := List.append_cancel_right (hTokens.symm.trans hHead)
        exact (hSubject anyToken (hSplit ▸ List.mem_append_left _ hAny)).2.1 rfl
      · rintro ⟨⟨front, back, hSplit, hBack, hFits⟩, hMixed⟩
        have hLiteral : anyToken ∉ tokens before := fun hAny =>
          hMixed ⟨_, front, back, hTokens, hAny, hSplit, hBack, hFits⟩
        exact ⟨back, hBack, by rw [hSplit, forall₂_eq_of_literal hFits hLiteral]⟩
    | none =>
      have hRest := rest_notMem hPattern hEasy.2 hSuffix
      simp only
      rw [covers_iff_forall₂ hRest]
      refine zip_all_iff_forall₂.trans ⟨fun hFits => ⟨hFits, ?_⟩, And.left⟩
      rintro ⟨head, front, back, hTokens, -⟩
      exact hRest (hTokens ▸ by simp)

theorem MixedFits.covers {pattern subject : Str} (h : MixedFits pattern subject)
    (hPattern : IsPattern pattern) : Covers (tokens pattern) (tokens subject) := by
  obtain ⟨head, front, back, hTokens, -, hSplit, hBack, hFits⟩ := h
  have hRest : restTokens ∉ head := by
    have hLast := hPattern.last
    rwa [hTokens, List.dropLast_concat] at hLast
  rw [hTokens, covers_append_rest hRest]
  exact ⟨front, back, hSplit, hBack, hFits⟩

/-! ## Runs against the broker -/

section Runs

variable [Nuid]

/-- A program on a broker that answers every call. -/
def runOn {α : Type} (broker : Broker) (p : NatsM α) : Except TransportError α × Broker :=
  Program.eval Broker.handle p.run broker

variable {broker broker' : Broker}

@[simp] theorem runOn_pure {α : Type} (a : α) : runOn broker (pure a : NatsM α) = (.ok a, broker) :=
  rfl

theorem runOn_bind {α β : Type} {p : NatsM α} {f : α → NatsM β} {a : α}
    (h : runOn broker p = (.ok a, broker')) : runOn broker (p >>= f) = runOn broker' (f a) := by
  rw [runOn] at h ⊢
  rw [ExceptT.run_bind, Program.eval_bind, h]
  rfl

theorem runOn_lift {α : Type} {p : NatsM α} {result : Except TransportError α}
    (h : runOn broker p = (result, broker')) :
    runOn broker (ExceptT.lift p.run : NatsM (Except TransportError α)) =
      (.ok result, broker') := by
  rw [runOn] at h ⊢
  rw [ExceptT.run_lift, map_eq_pure_bind, Program.eval_bind, h]
  rfl

theorem runOn_attempt (call : NatsCall) :
    runOn broker (attempt call) =
      (.ok (Broker.handle broker call).1, (Broker.handle broker call).2) :=
  rfl

theorem runOn_perform {call : NatsCall} {value : call.Value}
    (h : Broker.handle broker call = (.ok value, broker')) :
    runOn broker (perform call) = (.ok value, broker') := by
  rw [perform, runOn_bind (runOn_attempt call), h]
  rfl

theorem runOn_retryIo {α : Type} {operation : NatsM α} {a : α} (retries : Nat)
    (h : runOn broker operation = (.ok a, broker')) :
    runOn broker (retryIo operation retries) = (.ok a, broker') := by
  cases retries with
  | zero => exact h
  | succ retries =>
    rw [retryIo, runOn_bind (runOn_lift h)]
    rfl

variable {name : Str}

theorem runOn_streamInfo {s : Stream} (h : broker.streams name = some s) :
    runOn broker (streamInfo name) = (.ok s.config, broker) := by
  rw [streamInfo, runOn_bind (runOn_attempt _)]
  simp only [Broker.handle, h]
  rfl

theorem runOn_streamInfo_none (h : broker.streams name = none) :
    runOn broker (streamInfo name) = (.error .notFound, broker) := by
  rw [streamInfo, runOn_bind (runOn_attempt _)]
  simp only [Broker.handle, h]
  rfl

theorem runOn_updateStream {s : Stream} (h : broker.streams name = some s)
    (config : StreamConfig) :
    runOn broker (perform (.updateStream name config)) =
      (.ok (), broker.setStream name { s with config }) := by
  apply runOn_perform
  simp only [Broker.handle, h]

omit [Nuid] in
theorem setStream_self (broker : Broker) (name : Str) (s : Stream) :
    (broker.setStream name s).streams name = some s := by
  rw [Broker.setStream_streams, if_pos rfl]

/-- Widening the duplicate window leaves the subjects of the stream. -/
theorem runOn_ensureDuplicateWindow {s : Stream} (h : broker.streams name = some s)
    (config : NatsStorageConfig) :
    ∃ broker' s', runOn broker (ensureDuplicateWindow config name) = (.ok (), broker') ∧
      broker'.streams name = some s' ∧ s'.config.subjects = s.config.subjects := by
  rw [ensureDuplicateWindow, runOn_bind (runOn_streamInfo h)]
  split_ifs
  · exact ⟨_, _, runOn_updateStream h _, setStream_self .., rfl⟩
  · exact ⟨broker, s, rfl, h, rfl⟩

/-- The subjects that a stream listens to, those it is made with if there is none yet. -/
def configuredSubjects (broker : Broker) (name : Str) (subjects : List Str) : List Str :=
  match broker.streams name with
  | some s => s.config.subjects
  | none => subjects

theorem runOn_ensureStreamWithSubjects (broker : Broker) (config : NatsStorageConfig)
    (name : Str) (subjects : List Str) :
    ∃ broker' s, runOn broker (ensureStreamWithSubjects config name subjects) = (.ok (), broker') ∧
      broker'.streams name = some s ∧
      s.config.subjects = configuredSubjects broker name subjects := by
  rw [ensureStreamWithSubjects, configuredSubjects]
  cases h : broker.streams name with
  | some s =>
    rw [runOn_bind (runOn_lift (runOn_streamInfo h))]
    exact runOn_ensureDuplicateWindow h config
  | none =>
    have hAdd : runOn broker (perform (.addStream name
        ⟨subjects, 0, config.streamDuplicateWindow⟩)) =
        (.ok (), broker.setStream name (.create ⟨subjects, 0, config.streamDuplicateWindow⟩)) := by
      apply runOn_perform
      simp only [Broker.handle, Broker.createStream, h]
      rfl
    rw [runOn_bind (runOn_lift (runOn_streamInfo_none h))]
    simp only
    rw [runOn_bind (runOn_lift (runOn_retryIo config.retries hAdd))]
    exact ⟨_, _, rfl, setStream_self .., rfl⟩

/-- What a stream is made with. -/
def defaultSubjects (stream : Str) : List Str :=
  [stream.map Char.toLower ++ ".>".toList, "events.".toList ++ stream]

/-- The subject is added exactly if no configured subject matches it in the code's sense. -/
theorem runOn_ensureSubject (broker : Broker) (config : NatsStorageConfig) (stream subject : Str) :
    ∃ broker' s, runOn broker (Streams.ensureSubject config stream subject) = (.ok (), broker') ∧
      broker'.streams stream = some s ∧
      s.config.subjects = configuredSubjects broker stream (defaultSubjects stream) ++
        if (configuredSubjects broker stream (defaultSubjects stream)).any
          (subjectMatches · subject) then [] else [subject] := by
  obtain ⟨broker₁, s₁, hEnsure, hStream, hSubjects⟩ :=
    runOn_ensureStreamWithSubjects broker config stream (defaultSubjects stream)
  have hEnsured : runOn broker (Streams.ensure config stream) = (.ok (), broker₁) := hEnsure
  rw [Streams.ensureSubject, runOn_bind hEnsured, runOn_bind (runOn_streamInfo hStream), hSubjects]
  split_ifs
  · exact ⟨broker₁, s₁, rfl, hStream, by rw [hSubjects, List.append_nil]⟩
  · exact ⟨_, _, runOn_updateStream hStream _, setStream_self .., rfl⟩

/-- `subjectMatches` follows the token rule exactly if the subject does not fit a pattern that
has a `*` before a final `>`. So `ensureSubject` adds exactly the subjects that are not covered,
unless such a pattern covers the subject and no other pattern does. -/
theorem subject_matching :
    (∀ pattern subject, IsPattern pattern → IsConcrete subject →
      ((subjectMatches pattern subject = true ↔ Covers (tokens pattern) (tokens subject)) ↔
        ¬ MixedFits pattern subject)) ∧
    ∀ (broker : Broker) (config : NatsStorageConfig) (stream subject : Str)
      (configured : List Str), configured = configuredSubjects broker stream
        (defaultSubjects stream) →
      (∀ candidate ∈ configured, IsPattern candidate) → IsConcrete subject →
        ∃ broker' s, runOn broker (Streams.ensureSubject config stream subject) =
          (.ok (), broker') ∧
          broker'.streams stream = some s ∧
          (s.config.subjects = configured ∨ s.config.subjects = configured ++ [subject]) ∧
          ((s.config.subjects = configured ++ [subject] ↔
              ∀ candidate ∈ configured, ¬ Covers (tokens candidate) (tokens subject)) ↔
            ((∃ candidate ∈ configured, MixedFits candidate subject) →
              ∃ candidate ∈ configured, ¬ MixedFits candidate subject ∧
                Covers (tokens candidate) (tokens subject))) := by
  constructor
  · intro pattern subject hPattern hSubject
    rw [subjectMatches_iff hPattern hSubject]
    constructor
    · intro h hMixed
      exact (h.mpr (hMixed.covers hPattern)).2 hMixed
    · intro hMixed
      exact ⟨And.left, fun hCovers => ⟨hCovers, hMixed⟩⟩
  · rintro broker config stream subject configured rfl hPatterns hSubject
    obtain ⟨broker', s, hRun, hStream, hAfter⟩ :=
      runOn_ensureSubject broker config stream subject
    generalize configuredSubjects broker stream (defaultSubjects stream) = configured
      at hPatterns hAfter ⊢
    have hAny : configured.any (subjectMatches · subject) = true ↔
        ∃ candidate ∈ configured, ¬ MixedFits candidate subject ∧
          Covers (tokens candidate) (tokens subject) := by
      rw [List.any_eq_true]
      constructor
      · rintro ⟨candidate, hMem, hMatches⟩
        obtain ⟨hCovers, hMixed⟩ := (subjectMatches_iff (hPatterns _ hMem) hSubject).mp hMatches
        exact ⟨candidate, hMem, hMixed, hCovers⟩
      · rintro ⟨candidate, hMem, hMixed, hCovers⟩
        exact ⟨candidate, hMem,
          (subjectMatches_iff (hPatterns _ hMem) hSubject).mpr ⟨hCovers, hMixed⟩⟩
    refine ⟨broker', s, hRun, hStream, ?_, ?_⟩
    · rw [hAfter]
      split_ifs
      · exact .inl (List.append_nil _)
      · exact .inr rfl
    · rw [hAfter, List.append_cancel_left_eq]
      by_cases hFound : configured.any (subjectMatches · subject) = true
      · rw [if_pos hFound]
        obtain ⟨candidate, hMem, hMixed, hCovers⟩ := hAny.mp hFound
        constructor
        · intro _ _
          exact ⟨candidate, hMem, hMixed, hCovers⟩
        · intro _
          constructor
          · intro hNil
            cases hNil
          · intro hNone
            exact absurd hCovers (hNone candidate hMem)
      · rw [if_neg hFound]
        constructor
        · rintro hAdded ⟨candidate, hMem, hMixed⟩
          exact absurd (hMixed.covers (hPatterns _ hMem)) (hAdded.mp rfl candidate hMem)
        · intro hOther
          refine ⟨fun _ candidate hMem hCovers => hFound (hAny.mpr ?_), fun _ => rfl⟩
          by_cases hMixed : MixedFits candidate subject
          · exact hOther ⟨candidate, hMem, hMixed⟩
          · exact ⟨candidate, hMem, hMixed, hCovers⟩

end Runs

/-- A new stream covers what is below its own name, so that nothing is added for it. -/
theorem own_subject_covered :
    let _ : Nuid := ⟨fun issued => Text.decimal issued.length⟩
    (subjectMatches "orders.*".toList "orders.created".toList = true ↔
      Covers (tokens "orders.*".toList) (tokens "orders.created".toList)) ∧
    ∃ broker' s, runOn ⟨fun _ => none, [], [], []⟩
        (Streams.ensureSubject ⟨1, 64, 2⟩ "ORDERS".toList "orders.created".toList) =
        (.ok (), broker') ∧
      broker'.streams "ORDERS".toList = some s ∧
      s.config.subjects = ["orders.>".toList, "events.ORDERS".toList] := by
  let _ : Nuid := ⟨fun issued => Text.decimal issued.length⟩
  have hSubject : tokens "orders.created".toList = ["orders".toList, "created".toList] := by decide
  have hStar : tokens "orders.*".toList = ["orders".toList, ['*']] := by decide
  have hRest : tokens "orders.>".toList = ["orders".toList, ['>']] := by decide
  have hEvents : tokens "events.ORDERS".toList = ["events".toList, "ORDERS".toList] := by decide
  have hPattern : IsPattern "orders.*".toList :=
    ⟨by rw [hStar]; decide, by rw [hStar]; decide⟩
  have hConcrete : IsConcrete "orders.created".toList := by
    rw [IsConcrete, hSubject]
    decide
  have hConfigured : ["orders.>".toList, "events.ORDERS".toList] =
      configuredSubjects ⟨fun _ => none, [], [], []⟩ "ORDERS".toList
        (defaultSubjects "ORDERS".toList) := by decide
  have hPatterns : ∀ candidate ∈ ["orders.>".toList, "events.ORDERS".toList],
      IsPattern candidate := by
    intro candidate hMem
    rcases List.mem_pair.mp hMem with rfl | rfl
    · exact ⟨by rw [hRest]; decide, by rw [hRest]; decide⟩
    · exact ⟨by rw [hEvents]; decide, by rw [hEvents]; decide⟩
  have hPlain : ∀ candidate ∈ ["orders.>".toList, "events.ORDERS".toList],
      ¬ MixedFits candidate "orders.created".toList := by
    intro candidate hMem
    rcases List.mem_pair.mp hMem with rfl | rfl
    · exact not_mixedFits (by rw [hRest]; decide)
    · exact not_mixedFits (by rw [hEvents]; decide)
  have hCovers : Covers (tokens "orders.>".toList) (tokens "orders.created".toList) := by
    rw [hRest, hSubject]
    exact .token (.inr rfl) (.rest _ _)
  obtain ⟨hMatches, hEnsures⟩ := subject_matching
  refine ⟨(hMatches _ _ hPattern hConcrete).mpr (not_mixedFits (by rw [hStar]; decide)), ?_⟩
  obtain ⟨broker', s, hRun, hStream, hEither, hAdded⟩ :=
    hEnsures _ ⟨1, 64, 2⟩ "ORDERS".toList _ _ hConfigured hPatterns hConcrete
  refine ⟨broker', s, hRun, hStream, hEither.resolve_right fun hNew => ?_⟩
  have hNone := (hAdded.mpr fun ⟨candidate, hMem, hMixed⟩ => absurd hMixed (hPlain _ hMem)).mp hNew
  exact hNone _ List.mem_cons_self hCovers

theorem mixed_pattern_misses :
    ¬ ((IsPattern "orders.*.>".toList ∧ IsConcrete "orders.created.eu".toList) →
      (subjectMatches "orders.*.>".toList "orders.created.eu".toList = true ↔
        Covers (tokens "orders.*.>".toList) (tokens "orders.created.eu".toList))) := by
  intro h
  have hPattern : tokens "orders.*.>".toList = ["orders".toList, ['*'], ['>']] := by decide
  have hSubject : tokens "orders.created.eu".toList =
      ["orders".toList, "created".toList, "eu".toList] := by decide
  have hWell : IsPattern "orders.*.>".toList := ⟨by rw [hPattern]; decide, by rw [hPattern]; decide⟩
  have hConcrete : IsConcrete "orders.created.eu".toList := by
    rw [IsConcrete, hSubject]
    decide
  have hCovers : Covers (tokens "orders.*.>".toList) (tokens "orders.created.eu".toList) := by
    rw [hPattern, hSubject]
    exact .token (.inr rfl) (.token (.inl rfl) (.rest _ _))
  have hMatches := (h ⟨hWell, hConcrete⟩).mpr hCovers
  revert hMatches
  decide

end EventFs.Transport.Nats
