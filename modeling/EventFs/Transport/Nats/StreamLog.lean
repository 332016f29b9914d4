import EventFs.Transport.Nats.Streams
import EventFs.Transport.Nats.Assertions
import EventFs.Transport.Nats.LedgerKeys

/-!
# A stream while lines are being published

All that matters of the broker while one payload is published is how many of its lines
the stream has stored: `Progress count` says that it has stored the first `count` of
them, in their order, and that the ledger has noted no line beyond these.
-/

namespace EventFs.Transport.Nats

open Library Protocol Program

namespace Streams

/-! ## Names -/

theorem messageId_injective {seed : Str} {i j : Nat} (h : messageId seed i = messageId seed j) :
    i = j :=
  Text.decimal_injective (List.cons.inj (List.append_cancel_left h)).2

/-- The subject under which the ledger notes a line. -/
def noteSubject (stream subject seed : Str) (index : Nat) : Str :=
  Ledger.ledgerSubject (writebackLedgerKey stream subject (messageId seed index))

theorem writebackLedgerKey_eq (stream subject id : Str) :
    writebackLedgerKey stream subject id =
      "stream|".toList ++ Text.decimal (Text.asBytes stream).length ++ ':' :: stream ++
        '|' :: Text.decimal (Text.asBytes subject).length ++ ':' :: subject ++
        '|' :: Text.decimal (Text.asBytes id).length ++ ':' :: id := by
  simp [writebackLedgerKey, scopedKey]

theorem noteSubject_injective {stream subject seed : Str} {i j : Nat}
    (h : noteSubject stream subject seed i = noteSubject stream subject seed j) : i = j := by
  have hWrite : (⟨.stream, stream, subject, messageId seed i⟩ : Ledger.Write) =
      ⟨.stream, stream, subject, messageId seed j⟩ :=
    Ledger.Write.ledgerKey_injective (Ledger.ledgerSubject_injective h)
  exact messageId_injective (congrArg Ledger.Write.idempotencyKey hWrite)

/-- A note names its subject in hexadecimal, so it is longer. -/
theorem noteSubject_ne (stream subject seed : Str) (index : Nat) :
    noteSubject stream subject seed index ≠ subject := by
  intro h
  have hLength := congrArg List.length h
  have hKey : subject.length ≤
      (writebackLedgerKey stream subject (messageId seed index)).length := by
    rw [writebackLedgerKey_eq]
    simp only [List.length_append, List.length_cons]
    omega
  have hBytes := Text.length_le_asBytes (writebackLedgerKey stream subject (messageId seed index))
  simp only [noteSubject, Ledger.ledgerSubject, List.length_append, List.length_cons,
    hexEncode_length] at hLength
  omega

variable (stream subject seed : Str)

/-! ## What is stored -/

/-- The payload and the index of a message that stores one of the first `count` lines. -/
def lineOf (count : Nat) (message : Message) : Option (Payload × Nat) :=
  if message.subject = subject then
    ((List.range count).find? fun index =>
      headersContainMessageId message.headers (messageId seed index)).map fun index =>
        (message.payload, index)
  else none

/-- The lines the stream has stored, in the order of its log. -/
def storedLines (count : Nat) (broker : Broker) : List (Payload × Nat) :=
  (broker.logOf stream).filterMap (lineOf subject seed count)

def encoded (lines : List Str) : List (Payload × Nat) :=
  lines.zipIdx.map fun (line, index) => (.bytes (Text.asBytes line), index)

/-- Nothing of the subject is evicted, and sequences start at one. -/
structure Retains (s : Stream) : Prop where
  unlimited : s.config.maxMsgsPerSubject < 1
  positive : ∀ message ∈ s.log, 0 < message.sequence
  all : s.ofSubject subject = s.log.filter fun message => message.subject == subject

variable (lines : List Str)

structure Progress (count : Nat) (broker : Broker) : Prop where
  wellFormed : broker.WellFormed
  retained : ∀ s, broker.streams stream = some s → Retains subject s
  bounded : count ≤ lines.length
  stored : storedLines stream subject seed lines.length broker = encoded (lines.take count)
  noted : ∀ index < lines.length, ∀ message ∈ broker.logOf Ledger.stream,
    message.subject = noteSubject stream subject seed index → index < count

/-- A message another client may publish into the stream of this name. -/
structure Strange (name : Str) (message : Message) : Prop where
  line : name = stream → lineOf subject seed lines.length message = none
  rollup : name = stream → message.subject = subject →
    message.headers.get natsRollup ≠ some rollupSubject
  note : name = Ledger.stream → ∀ index < lines.length,
    message.subject ≠ noteSubject stream subject seed index

/-- What other clients do: they publish, and make and configure streams. -/
inductive Foreign : Broker → Broker → Prop
  | publish {broker : Broker} {s : Stream} (name subject' : Str) (headers : Headers)
      (payload : Payload) (hStream : broker.streams name = some s)
      (hStrange : Strange stream subject seed lines name
        ⟨subject', s.lastSequence + 1, headers, payload⟩) :
      Foreign broker (broker.setStream name (s.append subject' headers payload))
  | create {broker : Broker} {name : Str} (config : StreamConfig)
      (hNone : broker.streams name = none)
      (hRetains : name = stream → config.maxMsgsPerSubject < 1) :
      Foreign broker (broker.setStream name (.create config))
  | configure {broker : Broker} {name : Str} {s : Stream} (config : StreamConfig)
      (hStream : broker.streams name = some s)
      (hRetains : name = stream → config.maxMsgsPerSubject < 1) :
      Foreign broker (broker.setStream name { s with config })

section Keeping

variable {stream subject seed lines} {count : Nat} {broker : Broker}

theorem Retains.append {s : Stream} (h : Retains subject s) {subject' : Str} {headers : Headers}
    {payload : Payload}
    (hRollup : subject' = subject → headers.get natsRollup ≠ some rollupSubject) :
    Retains subject (s.append subject' headers payload) := by
  have hKept : (s.keptBefore subject' headers).filter (fun message => message.subject == subject) =
      s.log.filter fun message => message.subject == subject := by
    rw [← h.all]
    by_cases hSubject : subject' = subject
    · have hLimit : ¬ 1 ≤ s.config.maxMsgsPerSubject := by
        have := h.unlimited
        omega
      rw [Stream.keptBefore, if_neg (hRollup hSubject), if_neg hLimit]
      rfl
    · exact s.filter_keptBefore (Ne.symm hSubject) headers
  refine ⟨h.unlimited, ?_, ?_⟩
  · intro message hMem
    rcases List.mem_append.mp hMem with hOld | hNew
    · exact h.positive message hOld
    · rw [List.mem_singleton.mp hNew]
      exact Nat.succ_pos _
  · simp only [Stream.ofSubject, Stream.append, List.filter_append, hKept]

/-- Storing one more message, which is a line of the payload, a note, or neither. -/
theorem Progress.append (h : Progress stream subject seed lines count broker) {s : Stream}
    {name subject' : Str} {headers : Headers} {payload : Payload} {count' : Nat}
    (recent : List (Str × Str × Nat)) (hStream : broker.streams name = some s)
    (hRollup : name = stream → subject' = subject → headers.get natsRollup ≠ some rollupSubject)
    (hCount : count ≤ count') (hBounded : count' ≤ lines.length)
    (hLine : name = stream → encoded (lines.take count) ++ (lineOf subject seed lines.length
        ⟨subject', s.lastSequence + 1, headers, payload⟩).toList = encoded (lines.take count'))
    (hOther : name ≠ stream → count' = count)
    (hNote : name = Ledger.stream → ∀ index < lines.length,
      subject' = noteSubject stream subject seed index → index < count') :
    Progress stream subject seed lines count'
      { broker.setStream name (s.append subject' headers payload) with recent } where
  wellFormed := h.wellFormed.setStream ((h.wellFormed _ _ hStream).append _ _ _)
  retained := by
    intro s' hs'
    have hs' : (broker.setStream name (s.append subject' headers payload)).streams stream =
      some s' := hs'
    rw [Broker.setStream_streams] at hs'
    split at hs'
    · next hName =>
      cases hs'
      exact (h.retained s (hName ▸ hStream)).append (hRollup hName.symm)
    · exact h.retained s' hs'
  bounded := hBounded
  stored := by
    show ((broker.setStream name (s.append subject' headers payload)).logOf stream).filterMap _ = _
    rw [Broker.logOf_setStream]
    split
    · next hName =>
      have hStored := h.stored
      rw [storedLines, hName, Broker.logOf_of_some hStream] at hStored
      rw [← hLine hName.symm, ← hStored]
      simp only [Stream.append, List.filterMap_append]
      congr 1
    · next hName =>
      rw [hOther (Ne.symm hName)]
      exact h.stored
  noted := by
    intro index hIndex message hMem hSubject
    have hMem : message ∈ (broker.setStream name (s.append subject' headers payload)).logOf
      Ledger.stream := hMem
    rw [Broker.logOf_setStream] at hMem
    split at hMem
    · next hName =>
      rcases List.mem_append.mp hMem with hOld | hNew
      · refine Nat.lt_of_lt_of_le (h.noted index hIndex message ?_ hSubject) hCount
        rw [hName, Broker.logOf_of_some hStream]
        exact hOld
      · rw [List.mem_singleton.mp hNew] at hSubject
        exact hNote hName.symm index hIndex hSubject
    · exact Nat.lt_of_lt_of_le (h.noted index hIndex message hMem hSubject) hCount

/-- Making or configuring a stream stores nothing. -/
theorem Progress.setStream (h : Progress stream subject seed lines count broker) {s : Stream}
    {name : Str} (hWell : s.WellFormed) (hLog : s.log = broker.logOf name)
    (hRetains : name = stream → Retains subject s) :
    Progress stream subject seed lines count (broker.setStream name s) := by
  have hSame : ∀ other, (broker.setStream name s).logOf other = broker.logOf other := by
    intro other
    rw [Broker.logOf_setStream]
    split
    · next hName => rw [hName, hLog]
    · rfl
  refine ⟨h.wellFormed.setStream hWell, ?_, h.bounded, ?_, ?_⟩
  · intro s' hs'
    rw [Broker.setStream_streams] at hs'
    split at hs'
    · next hName =>
      cases hs'
      exact hRetains hName.symm
    · exact h.retained s' hs'
  · rw [storedLines, hSame]
    exact h.stored
  · rw [hSame]
    exact h.noted

theorem Progress.create (h : Progress stream subject seed lines count broker) {name : Str}
    {config : StreamConfig} (hNone : broker.streams name = none)
    (hRetains : name = stream → config.maxMsgsPerSubject < 1) :
    Progress stream subject seed lines count (broker.setStream name (.create config)) := by
  refine h.setStream (.create config) ?_ ?_
  · rw [Broker.logOf, hNone]
    rfl
  · intro hName
    refine ⟨hRetains hName, ?_, rfl⟩
    intro message hMem
    cases hMem

theorem Progress.configure (h : Progress stream subject seed lines count broker) {name : Str}
    {s : Stream} {config : StreamConfig} (hStream : broker.streams name = some s)
    (hRetains : name = stream → config.maxMsgsPerSubject < 1) :
    Progress stream subject seed lines count (broker.setStream name { s with config }) := by
  refine h.setStream ((h.wellFormed _ _ hStream).withConfig config) ?_ ?_
  · rw [Broker.logOf_of_some hStream]
  · intro hName
    subst hName
    exact ⟨hRetains rfl, (h.retained s hStream).positive, (h.retained s hStream).all⟩

theorem Progress.foreign (h : Progress stream subject seed lines count broker) {broker' : Broker}
    (hStep : Foreign stream subject seed lines broker broker') :
    Progress stream subject seed lines count broker' := by
  cases hStep with
  | publish name subject' headers payload hStream hStrange =>
      refine h.append _ hStream hStrange.rollup (Nat.le_refl count) h.bounded ?_ (fun _ => rfl) ?_
      · intro hName
        rw [hStrange.line hName]
        exact List.append_nil _
      · exact fun hName index hIndex hSubject => absurd hSubject (hStrange.note hName index hIndex)
  | create config hNone hRetains => exact h.create hNone hRetains
  | configure config hStream hRetains => exact h.configure hStream hRetains

theorem logOf_foreign {broker' : Broker}
    (hStep : Foreign stream subject seed lines broker broker') :
    broker'.logOf stream = broker.logOf stream ∨
      ∃ message, broker'.logOf stream = broker.logOf stream ++ [message] := by
  cases hStep with
  | @publish s name subject' headers payload hStream hStrange =>
      rw [Broker.logOf_setStream]
      split
      · next hName =>
        subst hName
        rw [Broker.logOf_of_some hStream]
        exact Or.inr ⟨_, rfl⟩
      · exact Or.inl rfl
  | create config hNone hRetains => exact Or.inl (Quiet.create config hNone |>.logOf stream)
  | configure config hStream hRetains =>
      exact Or.inl (Quiet.configure config hStream |>.logOf stream)

/-- Calls that store nothing and let the stream keep what it has stored. -/
def Idle (stream : Str) : NatsCall → Prop
  | .updateStream name config | .addStream name config =>
      name = stream → config.maxMsgsPerSubject < 1
  | .createKeyValue _ _ | .publish .. | .purgeStreamSubject _ _ | .putObject .. => False
  | _ => True

theorem Idle.quiet {call : NatsCall} (h : Idle stream call) : call.quiet = true := by
  cases call <;> first | rfl | exact h.elim

theorem Progress.idle [Nuid] (h : Progress stream subject seed lines count broker)
    {call : NatsCall} (hIdle : Idle stream call) :
    Progress stream subject seed lines count (Broker.handle broker call).2 := by
  cases call with
  | updateStream name config =>
      simp only [Broker.handle]
      split
      · exact h
      · next s hStream => exact h.configure hStream hIdle
  | addStream name config =>
      simp only [Broker.handle, Broker.createStream]
      split
      · exact h
      · next hNone => exact h.create hNone hIdle
  | createObjectStore bucket =>
      simp only [Broker.handle, Broker.createStream]
      split
      · exact h
      · next hNone => exact h.create hNone fun _ => Int.zero_lt_one
  | keyValue bucket =>
      simp only [Broker.handle]
      split
      · exact h
      · split <;> exact h
  | objectStore bucket =>
      simp only [Broker.handle]
      split <;> exact h
  | streamInfo name =>
      simp only [Broker.handle]
      split <;> exact h
  | getLastMessage name last =>
      simp only [Broker.handle]
      split <;> exact h
  | beginPublish => exact ⟨h.wellFormed, h.retained, h.bounded, h.stored, h.noted⟩
  | subscribe name found =>
      simp only [Broker.handle]
      split <;> exact h
  | next name found after =>
      simp only [Broker.handle]
      split
      · exact h
      · split <;> exact h
  | createKeyValue | publish | purgeStreamSubject | putObject => exact hIdle.elim

end Keeping

/-! ## Assertions -/

/-- A fact about how many lines are stored and about the log of the stream, which grows. -/
structure Fact where
  holds : Nat → List Message → Prop
  grows : ∀ {count : Nat} {log : List Message} (message : Message), holds count log →
    holds count (log ++ [message])

/-- A fact about how many lines are stored. -/
def Fact.of (P : Nat → Prop) : Fact := ⟨fun count _ => P count, fun _ h => h⟩

def At (fact : Fact) (broker : Broker) : Prop :=
  ∃ count, Progress stream subject seed lines count broker ∧ fact.holds count (broker.logOf stream)

abbrev facts [Nuid] : Assertions Fact where
  others := Foreign stream subject seed lines
  idle := Idle stream
  Inv broker := ∃ count, Progress stream subject seed lines count broker
  At := At stream subject seed lines
  inv := fun ⟨count, h, _⟩ => ⟨count, h⟩
  stable := by
    rintro fact broker broker' hStep ⟨count, h, hFact⟩
    refine ⟨count, h.foreign hStep, ?_⟩
    rcases logOf_foreign hStep with hLog | ⟨message, hLog⟩
    · rw [hLog]
      exact hFact
    · rw [hLog]
      exact fact.grows message hFact
  kept := by
    rintro fact call broker hIdle ⟨count, h, hFact⟩
    refine ⟨count, h.idle hIdle, ?_⟩
    rw [(handle_isQuiet hIdle.quiet).logOf]
    exact hFact

theorem recent_foreign {broker broker' : Broker}
    (hStep : Foreign stream subject seed lines broker broker') :
    broker'.recent = broker.recent := by
  cases hStep <;> rfl

end Streams

end EventFs.Transport.Nats
