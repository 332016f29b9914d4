import EventFs.Transport.Nats.StreamLog
import EventFs.Transport.Nats.KvOnce
import EventFs.Transport.ReplayOnce

/-!
# Every line is published once, in order

A run that asks whether a line is applied learns how many lines are stored, so it
publishes the next one and no other. Wherever it ends, what is stored is an initial
segment of the payload, and every later answer is about that segment.
-/

namespace EventFs.Transport.Nats

open Library Protocol Program

namespace Streams

section Once

variable {stream subject seed : Str} {lines : List Str} {α : Type} [Nuid]

/-! ## Lines and messages -/

section Lines

omit [Nuid]

theorem encoded_take_succ {start : Nat} {line : Str} (h : lines[start]? = some line) :
    encoded (lines.take (start + 1)) =
      encoded (lines.take start) ++ [(.bytes (Text.asBytes line), start)] := by
  have hLength : (lines.take start).length = start := by
    obtain ⟨hStart, -⟩ := List.getElem?_eq_some_iff.mp h
    simp
    omega
  rw [encoded, encoded, List.take_add_one, h, Option.toList_some, List.zipIdx_append,
    List.map_append,
    hLength, Nat.zero_add]
  rfl

theorem mem_encoded {payload : Payload} {index : Nat} (h : (payload, index) ∈ encoded lines) :
    index < lines.length := by
  obtain ⟨⟨line, i⟩, hMem, hEq⟩ := List.mem_map.mp h
  obtain ⟨-, rfl⟩ := Prod.mk.inj hEq
  have := (List.mem_zipIdx hMem).2.1
  omega

/-- A message that carries the id of a line is that line. -/
theorem lineOf_of_header {message : Message} {index count : Nat} (hIndex : index < count)
    (hSubject : message.subject = subject)
    (hHeader : headersContainMessageId message.headers (messageId seed index) = true) :
    lineOf subject seed count message = some (message.payload, index) := by
  have hFind : ((List.range count).find? fun index =>
      headersContainMessageId message.headers (messageId seed index)) = some index := by
    rw [List.find?_range_eq_some]
    refine ⟨hHeader, List.mem_range.mpr hIndex, ?_⟩
    intro other hOther
    by_contra hBoth
    simp only [headersContainMessageId, beq_iff_eq, Bool.not_eq_true', Bool.not_eq_false]
      at hHeader hBoth
    have hSame := messageId_injective (Option.some.inj (hBoth.symm.trans hHeader))
    omega
  rw [lineOf, if_pos hSubject, hFind]
  rfl

theorem header_of_lineOf {message : Message} {payload : Payload} {index count : Nat}
    (h : lineOf subject seed count message = some (payload, index)) :
    message.subject = subject ∧
      headersContainMessageId message.headers (messageId seed index) = true := by
  rw [lineOf] at h
  split at h
  · next hSubject =>
    obtain ⟨found, hFound, hEq⟩ := Option.map_eq_some_iff.mp h
    obtain ⟨-, rfl⟩ := Prod.mk.inj hEq
    exact ⟨hSubject, by simpa using List.find?_some hFound⟩
  · cases h

variable {count : Nat} {broker : Broker}

/-- A stored line is one of those that count. -/
theorem Progress.lt_of_stored (h : Progress stream subject seed lines count broker)
    {message : Message} {index : Nat} (hIndex : index < lines.length)
    (hMem : message ∈ broker.logOf stream) (hSubject : message.subject = subject)
    (hHeader : headersContainMessageId message.headers (messageId seed index) = true) :
    index < count := by
  have hStored : (message.payload, index) ∈ storedLines stream subject seed lines.length broker :=
    List.mem_filterMap.mpr ⟨message, hMem, lineOf_of_header hIndex hSubject hHeader⟩
  rw [h.stored] at hStored
  have hLess := mem_encoded hStored
  rw [List.length_take] at hLess
  omega

theorem Progress.stored_of_lt (h : Progress stream subject seed lines count broker) {index : Nat}
    (hIndex : index < count) :
    ∃ message ∈ broker.logOf stream, message.subject = subject ∧
      headersContainMessageId message.headers (messageId seed index) = true := by
  have hBounded := h.bounded
  have hLine : (lines.take count)[index]? = some lines[index] := by
    rw [List.getElem?_take_of_lt hIndex, List.getElem?_eq_getElem]
  have hMem : (Payload.bytes (Text.asBytes lines[index]), index) ∈ encoded (lines.take count) :=
    List.mem_map.mpr ⟨(lines[index], index), List.mem_zipIdx_iff_getElem?.mpr hLine, rfl⟩
  rw [← h.stored] at hMem
  obtain ⟨message, hMessage, hLineOf⟩ := List.mem_filterMap.mp hMem
  exact ⟨message, hMessage, header_of_lineOf hLineOf⟩

theorem Progress.positive (h : Progress stream subject seed lines count broker)
    {message : Message} (hMem : message ∈ broker.logOf stream) : 0 < message.sequence := by
  cases hStream : broker.streams stream with
  | none =>
      rw [Broker.logOf, hStream] at hMem
      cases hMem
  | some s =>
      rw [Broker.logOf_of_some hStream] at hMem
      exact (h.retained s hStream).positive message hMem

end Lines

/-! ## Scanning the stream -/

/-- A scan delivers the messages of the subject one after the other. -/
theorem next_first {broker : Broker} (hWell : broker.WellFormed)
    (hRetains : ∀ s, broker.streams stream = some s → Retains subject s) {after : Nat}
    {found message : Message}
    (hReply : (Broker.handle broker (.next stream subject after)).1 = .ok found)
    (hMem : message ∈ broker.logOf stream) (hSubject : message.subject = subject)
    (hAfter : after < message.sequence) : found = message ∨ found.sequence < message.sequence := by
  simp only [Broker.handle] at hReply
  split at hReply
  · cases hReply
  · next s hStream =>
    split at hReply
    · cases hReply
    · next first hFind =>
      cases hReply
      rw [(hRetains s hStream).all] at hFind
      rw [Broker.logOf_of_some hStream] at hMem
      obtain ⟨-, front, back, hSplit, hFront⟩ := List.find?_eq_some_iff_append.mp hFind
      have hSorted := (hWell stream s hStream).sorted.filter fun message =>
        message.subject == subject
      have hMessage : message ∈ s.log.filter fun message => message.subject == subject :=
        List.mem_filter.mpr ⟨hMem, by simp [hSubject]⟩
      rw [hSplit] at hSorted hMessage
      rcases List.mem_append.mp hMessage with hBefore | hRest
      · have hNot := hFront message hBefore
        simp [hAfter] at hNot
      · rcases List.mem_cons.mp hRest with hEqual | hLater
        · exact Or.inl hEqual.symm
        · exact Or.inr
            ((List.pairwise_cons.mp (List.pairwise_append.mp hSorted).2.1).1 message hLater)

/-- A message of the stream, next to a fact about the stored lines. -/
def Fact.holding (P : Nat → Prop) (message : Message) : Fact :=
  ⟨fun count log => P count ∧ message ∈ log, fun _ h => ⟨h.1, List.mem_append_left _ h.2⟩⟩

/-- What is looked for: a message that carries the id of the line. -/
def carriesLine (seed : Str) (index : Nat) (message : Message) : TransportResult (Option Unit) :=
  .ok (if headersContainMessageId message.headers (messageId seed index) then some () else none)

/-- A message found by a scan is stored. -/
theorem spec_scanFrom_found {index : Nat} (hIndex : index < lines.length) (P : Nat → Prop)
    (lastSequence fuel after : Nat) :
    (facts stream subject seed lines).Spec (.of P)
      (scanFrom stream subject (carriesLine seed index) lastSequence fuel after) fun
      | .ok (some _) => .of fun count => P count ∧ index < count
      | _ => .of P := by
  induction fuel generalizing after with
  | zero => exact .throw fun _ h => h
  | succ fuel ih =>
      refine .attempt trivial (fun
        | .ok message =>
            if headersContainMessageId message.headers (messageId seed index) then
              .of fun count => P count ∧ index < count
            else .of P
        | .error _ => .of P) ?_ (fun _ _ _ h => h) ?_
      · rintro broker ⟨count, h, hP⟩
        cases hReply : (Broker.handle broker (.next stream subject after)).1 with
        | error err => exact ⟨count, h, hP⟩
        | ok message =>
            obtain ⟨hMem, hSubject⟩ := next_found h.wellFormed hReply
            by_cases hHeader : headersContainMessageId message.headers (messageId seed index) = true
            · simp only [hHeader, if_true]
              exact ⟨count, h, hP, h.lt_of_stored hIndex hMem hSubject hHeader⟩
            · simp only [hHeader]
              exact ⟨count, h, hP⟩
      · intro reply
        cases reply with
        | error err =>
            by_cases hTimeout : err.isTimeout = true
            · simp only [hTimeout, if_true]
              exact .bind (fun _ => .of P) (.throw fun _ h => h) (fun _ _ h => h)
                fun _ => .throw fun _ h => h
            · simp only [hTimeout]
              exact .throw fun _ h => h
        | ok message =>
            by_cases hHeader : headersContainMessageId message.headers (messageId seed index) = true
            · simp only [carriesLine, hHeader, if_true]
              exact .pure fun _ h => h
            · simp only [carriesLine, hHeader]
              by_cases hLast : lastSequence ≤ message.sequence
              · simp only [hLast, if_true]
                exact .pure fun _ h => h
              · simp only [hLast, if_false]
                exact ih message.sequence

/-- A scan does not pass a stored line. -/
theorem spec_scanFrom_stored {index : Nat} {line : Message} (P : Nat → Prop)
    (hSubject : line.subject = subject)
    (hHeader : headersContainMessageId line.headers (messageId seed index) = true)
    {lastSequence : Nat} (hLast : line.sequence ≤ lastSequence) (fuel after : Nat)
    (hAfter : after < line.sequence) :
    (facts stream subject seed lines).Spec (.holding P line)
      (scanFrom stream subject (carriesLine seed index) lastSequence fuel after) fun
      | .ok none => .of fun _ => False
      | _ => .of P := by
  induction fuel generalizing after with
  | zero => exact .throw fun _ ⟨count, h, hFact⟩ => ⟨count, h, hFact.1⟩
  | succ fuel ih =>
      refine .attempt trivial (fun
        | .ok message => .holding (fun count => P count ∧
            (message = line ∨ message.sequence < line.sequence)) line
        | .error _ => .holding P line) ?_ (fun _ _ _ h => h) ?_
      · rintro broker ⟨count, h, hP, hMem⟩
        cases hReply : (Broker.handle broker (.next stream subject after)).1 with
        | error err => exact ⟨count, h, hP, hMem⟩
        | ok message =>
            exact ⟨count, h,
              ⟨hP, next_first h.wellFormed h.retained hReply hMem hSubject hAfter⟩, hMem⟩
      · intro reply
        cases reply with
        | error err =>
            by_cases hTimeout : err.isTimeout = true
            · simp only [hTimeout, if_true]
              exact .bind (fun _ => .of P) (.throw fun _ ⟨count, h, hFact⟩ => ⟨count, h, hFact.1⟩)
                (fun _ _ h => h) fun _ => .throw fun _ h => h
            · simp only [hTimeout]
              exact .throw fun _ ⟨count, h, hFact⟩ => ⟨count, h, hFact.1⟩
        | ok message =>
            refine .assume (fun _ ⟨_, _, hFact⟩ => hFact.1.2) ?_
            intro hMessage
            by_cases hFound : headersContainMessageId message.headers (messageId seed index) = true
            · simp only [carriesLine, hFound, if_true]
              exact .pure fun _ ⟨count, h, hFact⟩ => ⟨count, h, hFact.1.1⟩
            · have hEarlier : message.sequence < line.sequence := by
                refine hMessage.resolve_left ?_
                rintro rfl
                exact hFound hHeader
              have hNotLast : ¬ lastSequence ≤ message.sequence := by omega
              simp only [carriesLine, hFound, hNotLast]
              exact (ih message.sequence hEarlier).weaken
                (fun _ ⟨count, h, hFact⟩ => ⟨count, h, hFact.1.1, hFact.2⟩) fun _ _ h => h

/-- What the answer to the question for a line says. -/
def answer (P : Nat → Prop) (index : Nat) : Bool → Fact
  | true => .of fun count => P count ∧ index < count
  | false => .of fun count => P count ∧ count ≤ index

theorem spec_scan_stored {index : Nat} {line : Message} (P : Nat → Prop)
    (hSubject : line.subject = subject)
    (hHeader : headersContainMessageId line.headers (messageId seed index) = true)
    (hFirst : 0 < line.sequence) :
    (facts stream subject seed lines).Spec (.holding P line)
      (scanSubjectHistoryUntil stream subject (carriesLine seed index)) fun
      | .ok none => .of fun _ => False
      | _ => .of P := by
  refine .bind (byOutcome (byAnswer (fun last : Nat =>
    Fact.holding (fun count => P count ∧ line.sequence ≤ last) line) (Fact.of fun _ => False))
    fun _ => Fact.of P) ?_ (fun _ _ h => h) ?_
  · refine .bind _ (.lookup trivial (byAnswer (fun last : Message =>
      Fact.holding (fun count => P count ∧ line.sequence ≤ last.sequence) line)
      (Fact.of fun _ => False)) (.of P) ?_ ?_ ?_) (fun _ _ h => h) ?_
    · rintro broker last ⟨count, h, hP, hMem⟩ hReply
      obtain ⟨-, -, hNewest⟩ := last_found h.wellFormed hReply
      exact ⟨count, h, ⟨hP, hNewest line hMem hSubject⟩, hMem⟩
    · rintro broker ⟨count, h, hP, hMem⟩ hReply
      exact absurd hSubject (last_missing h.wellFormed hReply line hMem)
    · rintro broker ⟨count, h, hFact⟩
      exact ⟨count, h, hFact.1⟩
    · intro last
      cases last with
      | none => exact .pure fun _ h => h
      | some last => exact .pure fun _ h => h
  · intro last
    cases last with
    | none => exact .pure fun _ h => h
    | some last =>
        refine .bind _ (.lookup trivial (byAnswer (fun _ =>
          Fact.holding (fun count => P count ∧ line.sequence ≤ last) line)
          (Fact.of fun _ => False)) (.of P) ?_ ?_ ?_) (fun _ _ h => h) ?_
        · exact fun _ _ h _ => h
        · rintro broker ⟨count, h, hP, hMem⟩ hReply
          simp only [Broker.handle] at hReply
          split at hReply
          · next hNone =>
            rw [Broker.logOf, hNone] at hMem
            cases hMem
          · cases hReply
        · rintro broker ⟨count, h, hFact⟩
          exact ⟨count, h, hFact.1.1⟩
        · intro found
          cases found with
          | none => exact .pure fun _ h => h
          | some _ =>
              have hLast (broker : Broker) (h : (facts stream subject seed lines).At
                  (.holding (fun count => P count ∧ line.sequence ≤ last) line) broker) :
                  line.sequence ≤ last := by
                obtain ⟨count, -, hFact⟩ := h
                exact hFact.1.2
              refine .assume hLast fun hLast => ?_
              refine (spec_scanFrom_stored P hSubject hHeader hLast _ 0 hFirst).weaken ?_
                fun _ _ h => h
              rintro broker ⟨count, h, hFact⟩
              exact ⟨count, h, hFact.1.1, hFact.2⟩

theorem spec_scan_found {index : Nat} (hIndex : index < lines.length) (P : Nat → Prop) :
    (facts stream subject seed lines).Spec (.of P)
      (scanSubjectHistoryUntil stream subject (carriesLine seed index)) fun
      | .ok (some _) => .of fun count => P count ∧ index < count
      | _ => .of P := by
  refine .bind (fun _ => .of P) ?_ (fun _ _ h => h) ?_
  · exact .bind _ (.lookup trivial (fun _ => .of P) (.of P) (fun _ _ h _ => h)
      (fun _ h _ => h) fun _ h => h) (fun _ _ h => h) fun _ => .pure fun _ h => h
  · intro last
    cases last with
    | none => exact .pure fun _ h => h
    | some last =>
        refine .bind _ (.lookup trivial (fun _ => .of P) (.of P) (fun _ _ h _ => h)
          (fun _ h _ => h) fun _ h => h) (fun _ _ h => h) ?_
        intro found
        cases found with
        | none => exact .pure fun _ h => h
        | some _ => exact spec_scanFrom_found hIndex P last _ 0

/-- A scan finds a line exactly when it is stored. -/
theorem spec_scan {index : Nat} (hIndex : index < lines.length) (P : Nat → Prop) :
    (facts stream subject seed lines).Spec (.of P)
      (scanSubjectHistoryUntil stream subject (carriesLine seed index)) fun
      | .ok found => answer P index found.isSome
      | .error _ => .of P := by
  -- either the line is not stored, or one of the messages is the line
  refine .any (fun (stored : Option { line : Message // line.subject = subject ∧
      0 < line.sequence ∧
      headersContainMessageId line.headers (messageId seed index) = true }) =>
    match stored with
    | none => .of fun count => P count ∧ count ≤ index
    | some line => .holding (fun count => P count ∧ index < count) line) ?_ ?_
  · rintro broker ⟨count, h, hP⟩
    by_cases hStored : index < count
    · obtain ⟨line, hMem, hSubject, hHeader⟩ := h.stored_of_lt hStored
      have hPositive : 0 < line.sequence := h.positive hMem
      exact ⟨some ⟨line, hSubject, hPositive, hHeader⟩, count, h, ⟨hP, hStored⟩, hMem⟩
    · exact ⟨none, count, h, hP, by omega⟩
  · intro stored
    cases stored with
    | none =>
        refine (spec_scan_found hIndex _).weaken (fun _ h => h) ?_
        rintro result broker ⟨count, h, hFact⟩
        match result with
        | .ok (some _) => exact ⟨count, h, hFact.1.1, hFact.2⟩
        | .ok none => exact ⟨count, h, hFact⟩
        | .error _ => exact ⟨count, h, hFact.1⟩
    | some line =>
        refine (spec_scan_stored _ line.2.1 line.2.2.2 line.2.2.1).weaken (fun _ h => h) ?_
        rintro result broker ⟨count, h, hFact⟩
        match result with
        | .ok (some _) => exact ⟨count, h, hFact⟩
        | .ok none => exact hFact.elim
        | .error _ => exact ⟨count, h, hFact.1⟩

/-! ## Making streams -/

/-- A fact together with something that does not depend on the broker. -/
def Fact.given (fact : Fact) (ψ : Prop) : Fact :=
  ⟨fun count log => fact.holds count log ∧ ψ, fun message h => ⟨fact.grows message h.1, h.2⟩⟩

section Ensuring

variable (config : NatsStorageConfig) (name : Str) (fact : Fact)

/-- The stream reports a configuration under which nothing is evicted. -/
theorem spec_streamInfo : (facts stream subject seed lines).Spec fact (streamInfo name) fun
    | .ok info => fact.given (name = stream → info.maxMsgsPerSubject < 1)
    | .error _ => fact := by
  refine .attempt trivial (byOutcome (fun info : StreamConfig =>
    fact.given (name = stream → info.maxMsgsPerSubject < 1)) fun _ => fact) ?_
    (fun _ _ _ h => h) ?_
  · rintro broker ⟨count, h, hFact⟩
    cases hReply : (Broker.handle broker (.streamInfo name)).1 with
    | error err => exact ⟨count, h, hFact⟩
    | ok info =>
        refine ⟨count, h, hFact, ?_⟩
        rintro rfl
        simp only [Broker.handle] at hReply
        split at hReply
        · cases hReply
        · next s hStream =>
          cases hReply
          exact (h.retained s hStream).unlimited
  · intro reply
    cases reply with
    | ok info => exact .pure fun _ h => h
    | error err => exact .throw fun _ h => h

/-- Changing a configuration that was reported. -/
theorem spec_updateStream {info new : StreamConfig}
    (hSame : new.maxMsgsPerSubject = info.maxMsgsPerSubject) :
    (facts stream subject seed lines).Spec
      (fact.given (name = stream → info.maxMsgsPerSubject < 1))
      (perform (.updateStream name new)) fun _ => fact := by
  refine .assume (fun _ ⟨_, _, hFact⟩ => hFact.2) fun hInfo => ?_
  have hIdle : Idle stream (.updateStream name new) := fun hName => hSame.symm ▸ hInfo hName
  have hUpdate : (facts stream subject seed lines).Spec fact (perform (.updateStream name new))
      fun _ => fact :=
    .perform fun broker h => (facts stream subject seed lines).kept hIdle h
  exact hUpdate.weaken (fun _ ⟨count, h, hFact⟩ => ⟨count, h, hFact.1⟩) fun _ _ h => h

theorem spec_ensureDuplicateWindow :
    (facts stream subject seed lines).Spec fact (ensureDuplicateWindow config name)
      fun _ => fact := by
  refine .bind _ (spec_streamInfo name fact) (fun _ _ h => h) ?_
  intro info
  by_cases hWindow : info.duplicateWindow < config.streamDuplicateWindow
  · simp only [hWindow, if_true]
    exact spec_updateStream name fact rfl
  · simp only [hWindow, if_false]
    exact .pure fun _ ⟨count, h, hFact⟩ => ⟨count, h, hFact.1⟩

theorem spec_addStream (subjects : List Str) :
    (facts stream subject seed lines).Spec fact (retryIo (perform (.addStream name
      ⟨subjects, 0, config.streamDuplicateWindow⟩)) config.retries) fun _ => fact := by
  have hIdle : Idle stream (.addStream name ⟨subjects, 0, config.streamDuplicateWindow⟩) :=
    fun _ => Int.zero_lt_one
  exact .retryIo (.perform fun broker h => (facts stream subject seed lines).kept hIdle h)
    config.retries

/-- What was to be made may turn out to exist already. -/
theorem spec_orExisting (err : TransportError) :
    (facts stream subject seed lines).Spec fact
      (if isAlreadyExists err then ensureDuplicateWindow config name else throw err)
      fun _ => fact := by
  by_cases hExists : isAlreadyExists err = true
  · rw [if_pos hExists]
    exact spec_ensureDuplicateWindow config name fact
  · rw [if_neg hExists]
    exact .throw fun _ h => h

theorem spec_ensureStream :
    (facts stream subject seed lines).Spec fact (Ledger.ensureStream config) fun _ => fact := by
  refine .bind _ (.lookup trivial (fun _ => fact) fact (fun _ _ h _ => h) (fun _ h _ => h)
    fun _ h => h) (fun _ _ h => h) ?_
  intro found
  cases found with
  | some info => exact spec_ensureDuplicateWindow config _ fact
  | none =>
      refine .inspect (fun _ => fact) (spec_addStream config _ fact _) ?_
      intro made
      cases made with
      | ok _ => exact .pure fun _ h => h
      | error err => exact spec_orExisting config _ fact err

theorem spec_ensureSubject :
    (facts stream subject seed lines).Spec fact (ensureSubject config stream subject)
      fun _ => fact := by
  refine .bind (fun _ => fact) ?_ (fun _ _ h => h) ?_
  · refine .inspect _ (spec_streamInfo stream fact) ?_
    intro found
    match found with
    | .ok info =>
        exact (spec_ensureDuplicateWindow config stream fact).weaken
          (fun _ ⟨count, h, hFact⟩ => ⟨count, h, hFact.1⟩) fun _ _ h => h
    | .error .notFound =>
        refine .inspect (fun _ => fact) (spec_addStream config stream fact _) ?_
        intro made
        cases made with
        | ok _ => exact .pure fun _ h => h
        | error err => exact spec_orExisting config stream fact err
    | .error (.io _) | .error (.json _) | .error (.invalid _) | .error (.protocol _)
    | .error .queueFull | .error (.queueLocked _) => exact .throw fun _ h => h
  · intro _
    refine .bind _ (spec_streamInfo stream fact) (fun _ _ h => h) ?_
    intro info
    by_cases hMatches : (info.subjects.any fun candidate => subjectMatches candidate subject) = true
    · rw [if_pos hMatches]
      exact .pure fun _ ⟨count, h, hFact⟩ => ⟨count, h, hFact.1⟩
    · rw [if_neg hMatches]
      exact spec_updateStream stream fact rfl

end Ensuring

/-! ## The ledger -/

section Ledger

variable (config : NatsStorageConfig) {index : Nat} {P : Nat → Prop}

theorem spec_hasApplied (hIndex : index < lines.length) (P : Nat → Prop) :
    (facts stream subject seed lines).Spec (.of P)
      (Ledger.hasApplied (writebackLedgerKey stream subject (messageId seed index))) fun
      | .ok true => .of fun count => P count ∧ index < count
      | _ => .of P := by
  refine .bind _ (.lookup trivial (fun
    | some _ => .of fun count => P count ∧ index < count
    | none => .of P) (.of P) ?_ (fun _ h _ => h) fun _ h => h) (fun _ _ h => h) ?_
  · rintro broker message ⟨count, h, hP⟩ hReply
    obtain ⟨hMem, hSubject, -⟩ := last_found h.wellFormed hReply
    exact ⟨count, h, hP, h.noted index hIndex message hMem hSubject⟩
  · intro found
    cases found with
    | none => exact .pure fun _ h => h
    | some message =>
        refine .pure ?_
        rintro broker ⟨count, h, hFact⟩
        cases Ledger.ledgerPayloadMatches (writebackLedgerKey stream subject (messageId seed index))
          message.payload with
        | true => exact ⟨count, h, hFact⟩
        | false => exact ⟨count, h, hFact.1⟩

/-- A stored line may be noted. -/
theorem handle_note (hStored : ∀ count, P count → index < count)
    (payload : Payload) (options : PublishOptions) {broker : Broker}
    (h : At stream subject seed lines (.of P) broker) :
    At stream subject seed lines (.of P) (Broker.handle broker (.publish Ledger.stream
      (noteSubject stream subject seed index) [] payload options)).2 := by
  show At stream subject seed lines (.of P) (broker.publish _ _ _ _ _).2
  obtain ⟨count, hProgress, hP⟩ := h
  rcases publish_cases broker Ledger.stream (noteSubject stream subject seed index) [] payload
    options with ⟨err, hEq, -⟩ | ⟨sequence, -, hEq⟩ | ⟨s, hStream, -, hEq⟩
  · rw [hEq]
    exact ⟨count, hProgress, hP⟩
  · rw [hEq]
    exact ⟨count, hProgress, hP⟩
  · rw [hEq]
    refine ⟨count, hProgress.append _ hStream ?_ (Nat.le_refl count) hProgress.bounded ?_
      (fun _ => rfl) ?_, hP⟩
    · exact fun _ hSubject => absurd hSubject (noteSubject_ne stream subject seed index)
    · intro _
      rw [lineOf, if_neg (noteSubject_ne stream subject seed index)]
      exact List.append_nil _
    · intro _ other _ hSubject
      rw [← noteSubject_injective hSubject]
      exact hStored count hP

theorem spec_recordApplied (hStored : ∀ count, P count → index < count) :
    (facts stream subject seed lines).Spec (.of P)
      (Ledger.recordApplied config (writebackLedgerKey stream subject (messageId seed index)))
      fun _ => .of P := by
  refine .bind (fun _ => .of P) (spec_ensureStream config _) (fun _ _ h => h) ?_
  intro _
  refine .bind (fun _ => .of P) ?_ (fun _ _ h => h) fun _ => .pure fun _ h => h
  have hBegin : Idle stream .beginPublish := trivial
  refine .bind (fun _ => .of P) (.perform fun broker h =>
    (facts stream subject seed lines).kept hBegin h) (fun _ _ h => h) ?_
  intro _
  exact .retryIo (.perform fun broker h => handle_note hStored _ _ h) config.retries

/-- Whether a line is applied is answered rightly. -/
theorem spec_lineApplied (hIndex : index < lines.length) (P : Nat → Prop) :
    (facts stream subject seed lines).Spec (.of P)
      (lineApplied config stream subject (messageId seed index)) fun
      | .ok applied => answer P index applied
      | .error _ => .of P := by
  refine .bind _ (spec_hasApplied hIndex P) (fun _ _ h => h) ?_
  intro applied
  cases applied with
  | true => exact .pure fun _ h => h
  | false =>
      refine .bind _ (spec_scan hIndex P) (fun _ _ h => h) ?_
      intro found
      cases found with
      | none => exact .pure fun _ h => h
      | some _ =>
          refine .bind _ (spec_recordApplied config fun _ h => h.2)
            (fun _ _ ⟨count, h, hFact⟩ => ⟨count, h, hFact.1⟩) ?_
          intro _
          exact .pure fun _ h => h

end Ledger

/-! ## The loops -/

/-- Publishing the line that comes next. -/
theorem stores_line {start : Nat} {line : Str} (hLine : lines[start]? = some line) :
    (facts stream subject seed lines).Stores stream subject [(natsMsgId, messageId seed start)]
      (.bytes (Text.asBytes line)) (.of (· = start)) (.of (· = start + 1)) := by
  rintro broker s recent ⟨count, h, hCount⟩ hStream
  obtain rfl : start = count := Eq.symm hCount
  obtain ⟨hStart, -⟩ := List.getElem?_eq_some_iff.mp hLine
  refine ⟨start + 1, h.append recent hStream ?_ (Nat.le_succ start) hStart ?_ ?_ ?_, rfl⟩
  · intro _ _ hRollup
    cases hRollup
  · intro _
    have hHeader : headersContainMessageId [(natsMsgId, messageId seed start)]
        (messageId seed start) = true := by
      simp [headersContainMessageId, Headers.get]
    have hOwn : lineOf subject seed lines.length ⟨subject, s.lastSequence + 1,
        [(natsMsgId, messageId seed start)], .bytes (Text.asBytes line)⟩ =
          some (.bytes (Text.asBytes line), start) := lineOf_of_header hStart rfl hHeader
    rw [hOwn, encoded_take_succ hLine]
    rfl
  · exact fun hName => absurd rfl hName
  · exact fun _ index _ hSubject => absurd hSubject.symm (noteSubject_ne stream subject seed index)

omit [Nuid] in
theorem drop_eq_cons {β : Type} {xs rest : List β} {x : β} {start : Nat}
    (h : xs.drop start = x :: rest) :
    xs[start]? = some x ∧ xs.drop (start + 1) = rest := by
  constructor
  · have hHead := congrArg (fun ys : List β => ys[0]?) h
    simpa using hHead
  · rw [← List.tail_drop, h]
    rfl

section Loops

variable (config : NatsStorageConfig)

theorem spec_publishLines (rest : List (Str × Nat)) (start : Nat)
    (hRest : lines.zipIdx.drop start = rest) :
    (facts stream subject seed lines).Spec (.of (start ≤ ·))
      (publishLines config stream subject seed rest) fun
      | .ok _ => .of (· = lines.length)
      | .error _ => .of fun _ => True := by
  induction rest generalizing start with
  | nil =>
      refine .pure ?_
      rintro broker ⟨count, h, hStart⟩
      have hEnd : lines.length ≤ start := by simpa using hRest
      have hStart : start ≤ count := hStart
      have hBounded := h.bounded
      exact ⟨count, h, by show count = lines.length; omega⟩
  | cons head rest ih =>
      obtain ⟨line, index⟩ := head
      obtain ⟨hHead, hTail⟩ := drop_eq_cons hRest
      rw [List.getElem?_zipIdx, Option.map_eq_some_iff] at hHead
      obtain ⟨text, hLine, hEq⟩ := hHead
      obtain ⟨rfl, rfl⟩ := Prod.mk.inj hEq
      rw [Nat.zero_add] at *
      obtain ⟨hIndex, -⟩ := List.getElem?_eq_some_iff.mp hLine
      refine .bind _ (spec_lineApplied config hIndex (start ≤ ·))
        (fun _ _ ⟨count, h, _⟩ => ⟨count, h, trivial⟩) ?_
      intro applied
      cases applied with
      | true =>
          exact (ih (start + 1) hTail).weaken (fun _ ⟨count, h, hFact⟩ => ⟨count, h, hFact.2⟩)
            fun _ _ h => h
      | false =>
          -- the lines before this one are stored and this one is not
          refine .bind _ ((Assertions.Spec.retryPublish (A := facts stream subject seed lines)
            (fun _ _ => recent_foreign stream subject seed lines) trivial _ (stores_line hLine)
            (fun _ ⟨count, h, _⟩ => ⟨count, h, trivial⟩)
            (fun _ ⟨count, h, _⟩ => ⟨count, h, trivial⟩) config.retries).weaken ?_
            fun _ _ h => h) (fun _ _ h => h) ?_
          · rintro broker ⟨count, h, hBefore, hAfter⟩
            exact ⟨count, h, Nat.le_antisymm hAfter hBefore⟩
          · intro sequence
            refine .bind _ (spec_recordApplied (P := (· = start + 1)) config ?_)
              (fun _ _ ⟨count, h, _⟩ => ⟨count, h, trivial⟩) ?_
            · rintro count rfl
              exact Nat.lt_succ_self start
            · intro _
              refine .bind _ ((ih (start + 1) hTail).weaken ?_ fun _ _ h => h) (fun _ _ h => h) ?_
              · rintro broker ⟨count, h, hCount⟩
                exact ⟨count, h, Nat.le_of_eq hCount.symm⟩
              · intro sequences
                exact .pure fun _ h => h

theorem spec_allApplied (P : Nat → Prop) (rest : List Nat) (start : Nat)
    (hRest : (List.range lines.length).drop start = rest) :
    (facts stream subject seed lines).Spec (.of fun count => P count ∧ start ≤ count)
      (allApplied config stream subject seed rest) fun
      | .ok true => .of fun count => P count ∧ count = lines.length
      | .ok false => .of fun count => P count ∧ count < lines.length
      | .error _ => .of P := by
  induction rest generalizing start with
  | nil =>
      refine .pure ?_
      rintro broker ⟨count, h, hP, hStart⟩
      have hEnd : lines.length ≤ start := by simpa using hRest
      have hBounded := h.bounded
      exact ⟨count, h, hP, by omega⟩
  | cons index rest ih =>
      obtain ⟨hHead, hTail⟩ := drop_eq_cons hRest
      obtain ⟨hRange, hEq⟩ := List.getElem?_eq_some_iff.mp hHead
      obtain rfl : start = index := by simpa using hEq
      have hIndex : start < lines.length := by simpa using hRange
      refine .bind _ (spec_lineApplied config hIndex _)
        (fun _ _ ⟨count, h, hFact⟩ => ⟨count, h, hFact.1⟩) ?_
      intro applied
      cases applied with
      | true =>
          exact (ih (start + 1) hTail).weaken
            (fun _ ⟨count, h, hFact⟩ => ⟨count, h, hFact.1.1, hFact.2⟩) fun _ _ h => h
      | false =>
          exact .pure fun _ ⟨count, h, hFact⟩ =>
            ⟨count, h, hFact.1.1, Nat.lt_of_le_of_lt hFact.2 hIndex⟩

theorem spec_appliedPrefix (P : Nat → Prop) (rest : List Nat) (start : Nat)
    (hRest : (List.range lines.length).drop start = rest) :
    (facts stream subject seed lines).Spec (.of fun count => P count ∧ start ≤ count)
      (appliedPrefix config stream subject seed rest) fun
      | .ok applied => .of fun count => P count ∧ start + applied = count
      | .error _ => .of P := by
  induction rest generalizing start with
  | nil =>
      refine .pure ?_
      rintro broker ⟨count, h, hP, hStart⟩
      have hEnd : lines.length ≤ start := by simpa using hRest
      have hBounded := h.bounded
      exact ⟨count, h, hP, by omega⟩
  | cons index rest ih =>
      obtain ⟨hHead, hTail⟩ := drop_eq_cons hRest
      obtain ⟨hRange, hEq⟩ := List.getElem?_eq_some_iff.mp hHead
      obtain rfl : start = index := by simpa using hEq
      have hIndex : start < lines.length := by simpa using hRange
      refine .bind _ (spec_lineApplied config hIndex _)
        (fun _ _ ⟨count, h, hFact⟩ => ⟨count, h, hFact.1⟩) ?_
      intro applied
      cases applied with
      | true =>
          refine .bind _ ((ih (start + 1) hTail).weaken
            (fun _ ⟨count, h, hFact⟩ => ⟨count, h, hFact.1.1, hFact.2⟩) fun _ _ h => h)
            (fun _ _ h => h) ?_
          intro more
          exact .pure fun _ ⟨count, h, hFact⟩ => ⟨count, h, hFact.1, by have := hFact.2; omega⟩
      | false =>
          exact .pure fun _ ⟨count, h, hFact⟩ =>
            ⟨count, h, hFact.1.1, by have := hFact.1.2; have := hFact.2; omega⟩

end Loops

/-! ## Runs -/

section Runs

variable [Serde] {bytes : Bytes}

omit [Nuid] in
theorem checkedLines_eq (hValid : validateJsonLines subject bytes = .ok ())
    (hLines : jsonLines subject bytes = .ok lines) : checkedLines subject bytes = pure lines := by
  simp only [checkedLines, hValid, hLines]

/-- The calls made for one payload, and what other clients do between them. Every call may
end anywhere. -/
inductive Activity (stream subject seed : Str) (bytes : Bytes) (lines : List Str) :
    Broker → Broker → Prop
  | publish {broker broker' : Broker} (config : NatsStorageConfig)
      (outcome : Option (TransportResult (List Nat)))
      (hRun : Run faultyBroker (Foreign stream subject seed lines)
        (publishJsonLines config stream subject bytes seed).run broker outcome broker') :
      Activity stream subject seed bytes lines broker broker'
  | applied {broker broker' : Broker} (config : NatsStorageConfig)
      (outcome : Option (TransportResult Bool))
      (hRun : Run faultyBroker (Foreign stream subject seed lines)
        (publishJsonLinesApplied config stream subject bytes seed).run broker outcome broker') :
      Activity stream subject seed bytes lines broker broker'
  | appliedPrefix {broker broker' : Broker} (config : NatsStorageConfig)
      (outcome : Option (TransportResult Nat))
      (hRun : Run faultyBroker (Foreign stream subject seed lines)
        (publishJsonLinesAppliedPrefix config stream subject bytes seed).run broker outcome
          broker') :
      Activity stream subject seed bytes lines broker broker'
  | foreign {broker broker' : Broker} (hStep : Foreign stream subject seed lines broker broker') :
      Activity stream subject seed bytes lines broker broker'

/-- A broker that has seen nothing of the payload. -/
structure Untouched (stream subject seed : Str) (lines : List Str) (broker : Broker) : Prop where
  wellFormed : broker.WellFormed
  retained : ∀ s, broker.streams stream = some s → Retains subject s
  stored : ∀ message ∈ broker.logOf stream, lineOf subject seed lines.length message = none
  noted : ∀ index < lines.length, ∀ message ∈ broker.logOf Ledger.stream,
    message.subject ≠ noteSubject stream subject seed index

omit [Nuid] [Serde] in
theorem Untouched.progress {broker : Broker} (h : Untouched stream subject seed lines broker) :
    Progress stream subject seed lines 0 broker := by
  refine ⟨h.wellFormed, h.retained, Nat.zero_le _, ?_, ?_⟩
  · rw [storedLines, List.filterMap_eq_nil_iff.mpr h.stored]
    rfl
  · exact fun index hIndex message hMem hSubject =>
      absurd hSubject (h.noted index hIndex message hMem)

section Programs

variable (config : NatsStorageConfig) (hValid : validateJsonLines subject bytes = .ok ())
  (hLines : jsonLines subject bytes = .ok lines)

include hValid hLines

theorem spec_publishJsonLines :
    (facts stream subject seed lines).Spec (.of fun _ => True)
      (publishJsonLines config stream subject bytes seed) fun
      | .ok _ => .of (· = lines.length)
      | .error _ => .of fun _ => True := by
  rw [publishJsonLines, checkedLines_eq hValid hLines, LawfulMonad.pure_bind]
  refine .bind (fun _ => .of fun _ => True) (spec_ensureSubject config _) (fun _ _ h => h) ?_
  intro _
  exact (spec_publishLines config lines.zipIdx 0 rfl).weaken
    (fun _ ⟨count, h, _⟩ => ⟨count, h, Nat.zero_le count⟩) fun _ _ h => h

theorem spec_publishJsonLinesApplied (P : Nat → Prop) :
    (facts stream subject seed lines).Spec (.of P)
      (publishJsonLinesApplied config stream subject bytes seed) fun
      | .ok true => .of fun count => P count ∧ count = lines.length
      | .ok false => .of fun count => P count ∧ count < lines.length
      | .error _ => .of P := by
  rw [publishJsonLinesApplied, checkedLines_eq hValid hLines, LawfulMonad.pure_bind]
  exact (spec_allApplied config P (List.range lines.length) 0 rfl).weaken
    (fun _ ⟨count, h, hP⟩ => ⟨count, h, hP, Nat.zero_le count⟩) fun _ _ h => h

theorem spec_publishJsonLinesAppliedPrefix (P : Nat → Prop) :
    (facts stream subject seed lines).Spec (.of P)
      (publishJsonLinesAppliedPrefix config stream subject bytes seed) fun
      | .ok applied => .of fun count => P count ∧ 0 + applied = count
      | .error _ => .of P := by
  rw [publishJsonLinesAppliedPrefix, checkedLines_eq hValid hLines, LawfulMonad.pure_bind]
  exact (spec_appliedPrefix config P (List.range lines.length) 0 rfl).weaken
    (fun _ ⟨count, h, hP⟩ => ⟨count, h, hP, Nat.zero_le count⟩) fun _ _ h => h

end Programs

omit [Serde] in
/-- A program that keeps the invariant leads from progress to progress. -/
theorem progress_of_spec {p : NatsM α} {after : Except TransportError α → Fact}
    (hSpec : (facts stream subject seed lines).Spec (.of fun _ => True) p after)
    {count : Nat} {broker broker' : Broker} {outcome : Option (TransportResult α)}
    (h : Progress stream subject seed lines count broker)
    (hRun : Run faultyBroker (Foreign stream subject seed lines) p.run broker outcome broker') :
    ∃ count, Progress stream subject seed lines count broker' := by
  have hEnd := hSpec ⟨count, h, trivial⟩ hRun
  cases outcome with
  | none => exact hEnd
  | some result =>
      obtain ⟨count, h, -⟩ := hEnd
      exact ⟨count, h⟩

variable (hValid : validateJsonLines subject bytes = .ok ())
  (hLines : jsonLines subject bytes = .ok lines)

include hValid hLines

theorem progress_of_activity {count : Nat} {broker broker' : Broker}
    (hStep : Activity stream subject seed bytes lines broker broker')
    (h : Progress stream subject seed lines count broker) :
    ∃ count, Progress stream subject seed lines count broker' := by
  cases hStep with
  | publish config outcome hRun =>
      exact progress_of_spec (spec_publishJsonLines config hValid hLines) h hRun
  | applied config outcome hRun =>
      exact progress_of_spec (spec_publishJsonLinesApplied config hValid hLines _) h hRun
  | appliedPrefix config outcome hRun =>
      exact progress_of_spec (spec_publishJsonLinesAppliedPrefix config hValid hLines _) h hRun
  | foreign hForeign => exact ⟨count, h.foreign hForeign⟩

theorem progress_of_activities {start broker : Broker}
    (hStart : Untouched stream subject seed lines start)
    (hRuns : Relation.ReflTransGen (Activity stream subject seed bytes lines) start broker) :
    ∃ count, Progress stream subject seed lines count broker := by
  induction hRuns with
  | refl => exact ⟨0, hStart.progress⟩
  | tail _ hStep ih =>
      obtain ⟨count, h⟩ := ih
      exact progress_of_activity hValid hLines hStep h

/-- However the calls for one payload are cut off and repeated, what the stream has stored
of it is an initial segment in order; the two questions are answered from that segment,
and a publish that returns has stored everything. -/
theorem published_lines_are_prefix {start broker : Broker}
    (hStart : Untouched stream subject seed lines start)
    (hRuns : Relation.ReflTransGen (Activity stream subject seed bytes lines) start broker) :
    ∃ count ≤ lines.length,
      storedLines stream subject seed lines.length broker = encoded (lines.take count) ∧
      (∀ config applied broker', Run faultyBroker (Foreign stream subject seed lines)
        (publishJsonLinesAppliedPrefix config stream subject bytes seed).run broker
          (some (.ok applied)) broker' → applied = count) ∧
      (∀ config applied broker', Run faultyBroker (Foreign stream subject seed lines)
        (publishJsonLinesApplied config stream subject bytes seed).run broker
          (some (.ok applied)) broker' → (applied = true ↔ count = lines.length)) ∧
      ∀ config sequences broker', Run faultyBroker (Foreign stream subject seed lines)
        (publishJsonLines config stream subject bytes seed).run broker
          (some (.ok sequences)) broker' →
          storedLines stream subject seed lines.length broker' = encoded lines := by
  obtain ⟨count, h⟩ := progress_of_activities hValid hLines hStart hRuns
  refine ⟨count, h.bounded, h.stored, ?_, ?_, ?_⟩
  · intro config applied broker' hRun
    obtain ⟨_, -, rfl, hCount⟩ :=
      spec_publishJsonLinesAppliedPrefix config hValid hLines (· = count) ⟨count, h, rfl⟩ hRun
    omega
  · intro config applied broker' hRun
    have hEnd := spec_publishJsonLinesApplied config hValid hLines (· = count) ⟨count, h, rfl⟩ hRun
    cases applied with
    | true =>
        obtain ⟨_, -, rfl, hCount⟩ := hEnd
        exact ⟨fun _ => hCount, fun _ => rfl⟩
    | false =>
        obtain ⟨_, -, rfl, hCount⟩ := hEnd
        simp [Nat.ne_of_lt hCount]
  · intro config sequences broker' hRun
    obtain ⟨_, h', rfl⟩ := spec_publishJsonLines config hValid hLines ⟨count, h, trivial⟩ hRun
    rw [h'.stored, List.take_length]

end Runs

end Once

/-! Two lines of which the first is stored when the publish crashes, and published again. -/

def ordersLines : List Str := ["null".toList, "true".toList]

def ordersBytes : Bytes := Text.asBytes "null\ntrue\n".toList

def ordersProgram : Program nats (TransportResult (List Nat)) :=
  letI := literalSerde
  (publishJsonLines ⟨1, 64, 2⟩ ['o'] "events.o".toList ordersBytes ['x']).run

def crashedPublish : Broker :=
  letI := Kv.countingNuid
  stateAfter Broker.handle 8 ordersProgram Kv.emptyBroker

def repeatedPublish : TransportResult (List Nat) × Broker :=
  letI := Kv.countingNuid
  eval Broker.handle ordersProgram crashedPublish

theorem ordersLines_valid :
    let _ := literalSerde
    jsonLines "events.o".toList ordersBytes = .ok ordersLines ∧
      validateJsonLines "events.o".toList ordersBytes = .ok () := by
  let _ := literalSerde
  have hLines : jsonLines "events.o".toList ordersBytes = .ok ordersLines := jsonLines_asBytes _ _
  refine ⟨hLines, ?_⟩
  rw [validateJsonLines, hLines]
  decide +kernel

theorem ordersProgram_eq : ordersProgram = (do
    ensureSubject ⟨1, 64, 2⟩ ['o'] "events.o".toList
    publishLines ⟨1, 64, 2⟩ ['o'] "events.o".toList ['x'] ordersLines.zipIdx : NatsM _).run := by
  let _ := literalSerde
  obtain ⟨hLines, hValid⟩ := ordersLines_valid
  rw [ordersProgram, publishJsonLines, checkedLines_eq hValid hLines, LawfulMonad.pure_bind]

theorem crashed_publish_completed :
    storedLines ['o'] "events.o".toList ['x'] 2 crashedPublish = encoded (ordersLines.take 1) ∧
      storedLines ['o'] "events.o".toList ['x'] 2 repeatedPublish.2 = encoded ordersLines := by
  let _ := Kv.countingNuid
  let _ := literalSerde
  obtain ⟨hLines, hValid⟩ := ordersLines_valid
  have hStart : Untouched ['o'] "events.o".toList ['x'] ordersLines Kv.emptyBroker := by
    refine ⟨?_, ?_, ?_, ?_⟩
    · intro name stream hStream
      cases hStream
    · intro stream hStream
      cases hStream
    · intro message hMem
      cases hMem
    · intro index _ message hMem
      cases hMem
  have hCrash : Activity ['o'] "events.o".toList ['x'] ordersBytes ordersLines Kv.emptyBroker
      crashedPublish :=
    .publish ⟨1, 64, 2⟩ none (run_stateAfter Faulty.done 8 ordersProgram Kv.emptyBroker)
  have hReturned : repeatedPublish.1 = .ok [2] := by
    rw [repeatedPublish, crashedPublish, ordersProgram_eq]
    decide +kernel
  have hRepeat : Run faultyBroker (Foreign ['o'] "events.o".toList ['x'] ordersLines)
      ordersProgram crashedPublish (some repeatedPublish.1) repeatedPublish.2 :=
    run_eval Faulty.done ordersProgram crashedPublish
  rw [hReturned] at hRepeat
  obtain ⟨count, -, -, -, -, hPublished⟩ :=
    published_lines_are_prefix hValid hLines hStart (.single hCrash)
  refine ⟨?_, hPublished ⟨1, 64, 2⟩ [2] _ hRepeat⟩
  rw [crashedPublish, ordersProgram_eq]
  decide +kernel

end Streams

end EventFs.Transport.Nats
