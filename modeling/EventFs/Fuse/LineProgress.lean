import EventFs.Fuse.GrowingStreams

/-!
# How many lines of a failed publish are stored

When a publish fails, the mount compares the subject with what it read before: lines that
have been added and that read like the lines of the payload are taken for its own. A read
that fails counts as one of an empty subject, so after it all lines of the subject are
taken for added.
-/

namespace EventFs.Fuse

open Library Protocol Transport Program

/-! ## Common prefixes -/

/-- How far two lists agree. -/
def agreeing {α : Type} [BEq α] (xs ys : List α) : Nat :=
  ((xs.zip ys).takeWhile fun (left, right) => left == right).length

theorem agreeing_le_iff {α : Type} [BEq α] [LawfulBEq α] (xs ys : List α) (n : Nat) :
    agreeing xs ys ≤ n ↔ ¬ (n < ys.length ∧ ys.take (n + 1) <+: xs) := by
  induction ys generalizing xs n with
  | nil => simp [agreeing]
  | cons y ys ih =>
      cases xs with
      | nil => simp [agreeing]
      | cons x xs =>
          by_cases hEq : x = y
          · subst hEq
            have hStep : agreeing (x :: xs) (x :: ys) = agreeing xs ys + 1 := by
              simp [agreeing]
            rw [hStep]
            cases n with
            | zero => simp
            | succ n =>
                rw [Nat.add_le_add_iff_right, ih]
                simp
          · have hNone : agreeing (x :: xs) (y :: ys) = 0 := by
              simp [agreeing, hEq]
            simp [hNone, Ne.symm hEq]

theorem agreeing_map {α β : Type} [BEq α] [LawfulBEq α] [BEq β] [LawfulBEq β] {f : α → β}
    {xs ys : List α}
    (h : ∀ x ∈ xs, ∀ y ∈ ys, f x = f y → x = y) :
    agreeing (xs.map f) (ys.map f) = agreeing xs ys := by
  induction xs generalizing ys with
  | nil => simp [agreeing]
  | cons x xs ih =>
      cases ys with
      | nil => simp [agreeing]
      | cons y ys =>
          have hRest := @ih ys fun a ha b hb =>
            h a (List.mem_cons_of_mem x ha) b (List.mem_cons_of_mem y hb)
          by_cases hEq : x = y
          · subst hEq
            simpa [agreeing] using hRest
          · have hNe : f x ≠ f y :=
              fun hf => hEq (h x List.mem_cons_self y List.mem_cons_self hf)
            simp [agreeing, hEq, hNe]

/-! ## Canonical lines -/

def canonicalLine (line : Str) : Bytes := appendJsonLine [] (Text.asBytes line)

theorem canonicalLine_eq {line : Str} (h : Text.IsTrimmed line) :
    canonicalLine line = Text.asBytes (line ++ ['\n']) := by
  have hLast : (Text.asBytes line).getLast? ≠ some 10 :=
    fun hLast => h.getLast?_ne (by decide) (Text.getLast?_asBytes.mp hLast)
  rw [canonicalLine, appendJsonLine, if_neg hLast, List.nil_append, Text.asBytes_append]
  rfl

theorem canonicalLine_inj {left right : Str} (hLeft : Text.IsTrimmed left)
    (hRight : Text.IsTrimmed right) (h : canonicalLine left = canonicalLine right) :
    left = right := by
  rw [canonicalLine_eq hLeft, canonicalLine_eq hRight] at h
  exact List.append_cancel_right (Text.asBytes_injective h)

section Progress

variable [Serde]

theorem jsonlCanonicalLines_ok {path : Str} {bytes : Bytes} {lines : List Str}
    (h : jsonLines path bytes = .ok lines) :
    jsonlCanonicalLines path bytes = .ok (lines.map canonicalLine) := by
  rw [jsonlCanonicalLines, h]
  rfl

theorem jsonlCanonicalLines_error {path : Str} {bytes : Bytes}
    (h : ∀ lines, jsonLines path bytes ≠ .ok lines) :
    ∃ errno, jsonlCanonicalLines path bytes = .error errno := by
  cases hLines : jsonLines path bytes with
  | ok lines => exact absurd hLines (h lines)
  | error err => exact ⟨err.errno, by rw [jsonlCanonicalLines, hLines]⟩

theorem isTrimmed_of_jsonLines {path : Str} {bytes : Bytes} {lines : List Str}
    (h : jsonLines path bytes = .ok lines) : ∀ line ∈ lines, Text.IsTrimmed line := by
  obtain ⟨text, -, rfl⟩ := jsonLines_eq_ok.mp h
  exact fun line => Text.isTrimmed_of_mem

/-- Lines that have been added behind a closed text. -/
theorem jsonlAppliedPrefixCount_append {path : Str} {base added pending : Bytes}
    {baseLines addedLines lines : List Str} (hClosed : base = [] ∨ base.getLast? = some 10)
    (hBase : jsonLines path base = .ok baseLines) (hAdded : jsonLines path added = .ok addedLines)
    (hPending : jsonLines path pending = .ok lines) :
    jsonlAppliedPrefixCount path base (base ++ added) pending =
      .ok (agreeing addedLines lines) := by
  have hAll : jsonLines path (base ++ added) = .ok (baseLines ++ addedLines) := by
    obtain ⟨text, rfl, rfl⟩ := jsonLines_eq_ok.mp hBase
    obtain ⟨more, rfl, rfl⟩ := jsonLines_eq_ok.mp hAdded
    have hText : text = [] ∨ text.getLast? = some '\n' := by
      refine hClosed.imp ?_ Text.getLast?_asBytes.mp
      intro hEmpty
      exact Text.asBytes_injective hEmpty
    rw [← Text.asBytes_append, jsonLines_asBytes, Text.trimmedLines_append hText]
  rw [jsonlAppliedPrefixCount, jsonlCanonicalLines_ok hBase, jsonlCanonicalLines_ok hAll,
    jsonlCanonicalLines_ok hPending]
  have hInj : ∀ x ∈ addedLines, ∀ y ∈ lines, canonicalLine x = canonicalLine y → x = y :=
    fun x hx y hy => canonicalLine_inj (isTrimmed_of_jsonLines hAdded x hx)
      (isTrimmed_of_jsonLines hPending y hy)
  change (if ((baseLines ++ addedLines).map canonicalLine).length <
        (baseLines.map canonicalLine).length ∨
      ((baseLines ++ addedLines).map canonicalLine).take (baseLines.map canonicalLine).length ≠
        baseLines.map canonicalLine then Except.ok 0
    else Except.ok (agreeing (((baseLines ++ addedLines).map canonicalLine).drop
      (baseLines.map canonicalLine).length) (lines.map canonicalLine))) = _
  rw [List.map_append, List.take_left, List.drop_left, if_neg (by simp), agreeing_map hInj]

/-- Without lines to compare no progress is found. -/
theorem jsonlAppliedPrefixCount_error {path : Str} {base current pending : Bytes}
    (h : (∀ lines, jsonLines path base ≠ .ok lines) ∨ ∀ lines, jsonLines path current ≠ .ok lines) :
    (jsonlAppliedPrefixCount path base current pending).toOption.getD 0 = 0 := by
  rw [jsonlAppliedPrefixCount]
  rcases h with h | h
  · obtain ⟨errno, hError⟩ := jsonlCanonicalLines_error h
    rw [hError]
    rfl
  · obtain ⟨errno, hError⟩ := jsonlCanonicalLines_error h
    cases jsonlCanonicalLines path base with
    | error errno => rfl
    | ok lines =>
        rw [hError]
        rfl

/-- Nor is any where there is nothing to compare with. -/
theorem jsonlAppliedPrefixCount_nil {path : Str} {base pending : Bytes} :
    (jsonlAppliedPrefixCount path base [] pending).toOption.getD 0 = 0 := by
  have hEmpty : jsonlCanonicalLines path [] = .ok [] :=
    jsonlCanonicalLines_ok (jsonLines_asBytes path [])
  rw [jsonlAppliedPrefixCount, hEmpty]
  cases jsonlCanonicalLines path base with
  | error errno => rfl
  | ok baseLines =>
      cases jsonlCanonicalLines path pending with
      | error errno => rfl
      | ok lines =>
          cases baseLines with
          | nil => rfl
          | cons line rest => rfl

/-! ## The progress of a failed publish -/

variable {mount mount' : Mount} {before after : World LineLog} {stream subject : Str}
  {parsed : JetStreamPath} {action : JetStreamAction} {log grown : LineLog} {calls : Log io}

theorem run_jsonlBaseSnapshot (hAction : actionPublishesJsonl action = true)
    (hTarget : jsonlTargetForPath parsed = some (stream, subject))
    (hOrdered : LineLog.Ordered (before.store.messages stream)) :
    run logWorld (jsonlBaseSnapshot parsed action) mount before =
      (some (snapshotOf (before.store.ofSubject stream subject)), mount, before) := by
  have hRead := @exec_readStreamSubjectSnapshotAllowMissing _ mount before stream subject hOrdered
  rw [exec] at hRead
  simp only [jsonlBaseSnapshot, hAction, hTarget, Bool.not_true, Bool.false_eq_true, if_false,
    run_bind, hRead, run_pure]

theorem run_appliedJsonlLinesForQueue {bytes base : Bytes}
    (hOrdered : LineLog.Ordered (after.store.messages stream)) :
    (run logWorld (appliedJsonlLinesForQueue stream subject bytes (some base)) mount after).1 =
      (jsonlAppliedPrefixCount subject base (snapshotOf (after.store.ofSubject stream subject))
        bytes).toOption.getD 0 := by
  have hRead := @exec_readStreamSubjectSnapshotAllowMissing _ mount after stream subject hOrdered
  rw [exec] at hRead
  simp only [appliedJsonlLinesForQueue, run_bind, hRead, run_pure]

theorem Logs.of_jsonlBaseSnapshot (hHeard : Heard stream log calls grown)
    (hOrdered : LineLog.Ordered (grown.messages stream))
    (hAction : actionPublishesJsonl action = true)
    (hTarget : jsonlTargetForPath parsed = some (stream, subject)) {base : Option Bytes}
    (h : Logs (jsonlBaseSnapshot parsed action) mount calls base mount') :
    base = some (snapshotOf (linesRead log stream subject calls)) := by
  simp only [jsonlBaseSnapshot, hAction, hTarget, Bool.not_true, Bool.false_eq_true,
    if_false] at h
  refine Logs.of_readThen (fun _ => rfl) ?_ hHeard hOrdered h
  intro errno hErrno
  simp only [hErrno, if_true]

theorem Logs.of_appliedJsonlLinesForQueue (hHeard : Heard stream log calls grown)
    (hOrdered : LineLog.Ordered (grown.messages stream)) {bytes base : Bytes} {count : Nat}
    (h : Logs (appliedJsonlLinesForQueue stream subject bytes (some base)) mount calls count
      mount') :
    count = (jsonlAppliedPrefixCount subject base
      (snapshotOf (linesRead log stream subject calls)) bytes).toOption.getD 0 := by
  refine Logs.of_readThen (f := fun current =>
    (jsonlAppliedPrefixCount subject base current bytes).toOption.getD 0)
    (fun _ => rfl) ?_ hHeard hOrdered h
  intro errno hErrno
  simp only [hErrno, if_true]

omit [Serde] in
/-- The lines of a write that are in the log. -/
def ownLines (log : LineLog) (stream subject key : Str) (count : Nat) : Nat :=
  ((List.range count).filter fun index => log.lineApplied stream subject (key, index)).length

/-- Behind the lines that were known stand, with the same texts and in the same places,
more lines of the payload than its write has stored. -/
def StandsIn (known seen : List LoggedLine) (subject : Str) (lines : List Str) (own : Nat) : Prop :=
  ∃ added, seen = known ++ added ∧
    (∃ baseLines, jsonLines subject (snapshotOf known) = .ok baseLines) ∧
    ∃ addedLines, jsonLines subject (snapshotOf added) = .ok addedLines ∧
      own < lines.length ∧ lines.take (own + 1) <+: addedLines

theorem jsonlAppliedPrefixCount_le_iff {known added : List LoggedLine} {bytes : Bytes}
    {lines : List Str} (hLines : jsonLines subject bytes = .ok lines) (own : Nat) :
    (jsonlAppliedPrefixCount subject (snapshotOf known) (snapshotOf (known ++ added))
        bytes).toOption.getD 0 ≤ own ↔
      ¬ StandsIn known (known ++ added) subject lines own := by
  have hStands : StandsIn known (known ++ added) subject lines own ↔
      (∃ baseLines, jsonLines subject (snapshotOf known) = .ok baseLines) ∧
        ∃ addedLines, jsonLines subject (snapshotOf added) = .ok addedLines ∧
          own < lines.length ∧ lines.take (own + 1) <+: addedLines := by
    simp [StandsIn]
  rw [hStands, snapshotOf_append]
  by_cases hBase : ∃ baseLines, jsonLines subject (snapshotOf known) = .ok baseLines
  · by_cases hMore : ∃ addedLines, jsonLines subject (snapshotOf added) = .ok addedLines
    · obtain ⟨baseLines, hBaseLines⟩ := hBase
      obtain ⟨addedLines, hAddedLines⟩ := hMore
      rw [jsonlAppliedPrefixCount_append (snapshotOf_closed _) hBaseLines hAddedLines hLines]
      show agreeing addedLines lines ≤ own ↔ _
      rw [agreeing_le_iff]
      simp [hBaseLines, hAddedLines]
    · have hNone : ∀ lines, jsonLines subject (snapshotOf known ++ snapshotOf added) ≠
          .ok lines := by
        intro all hAll
        obtain ⟨baseLines, hBaseLines⟩ := hBase
        obtain ⟨text, hText, -⟩ := jsonLines_eq_ok.mp hBaseLines
        obtain ⟨whole, hWhole, -⟩ := jsonLines_eq_ok.mp hAll
        rw [hText] at hWhole
        obtain ⟨more, -, hRest⟩ := Text.eq_append_of_asBytes hWhole
        exact hMore ⟨_, jsonLines_eq_ok.mpr ⟨more, hRest, rfl⟩⟩
      rw [jsonlAppliedPrefixCount_error (Or.inr hNone)]
      simp only [Nat.zero_le, true_iff]
      rintro ⟨-, addedLines, hAddedLines, -⟩
      exact hMore ⟨addedLines, hAddedLines⟩
  · have hNone : ∀ lines, jsonLines subject (snapshotOf known) ≠ .ok lines :=
      fun lines h => hBase ⟨lines, h⟩
    rw [jsonlAppliedPrefixCount_error (Or.inl hNone)]
    simp [hNone]

/-- Nothing stands behind anything where nothing was read. -/
theorem not_standsIn_nil {known : List LoggedLine} {lines : List Str} (own : Nat) :
    ¬ StandsIn known [] subject lines own := by
  rintro ⟨added, hSeen, -, addedLines, hAdded, hOwn, hTake⟩
  obtain ⟨rfl, rfl⟩ := List.append_eq_nil_iff.mp hSeen.symm
  obtain rfl : addedLines = [] := Except.ok.inj (hAdded.symm.trans (jsonLines_asBytes subject []))
  have hLength := hTake.length_le
  rw [List.length_take, List.length_nil] at hLength
  omega

/-- The progress recorded for a failed publish exceeds what it has stored exactly when
other lines stand in for its own: behind those that its base read found, which are none if
a call of that read was refused. -/
theorem appliedJsonlLines_le_iff {before during after recorded : LineLog}
    {baseCalls progressCalls : Log io} {base : Option Bytes} {count : Nat}
    {baseMount progressMount : Mount} {bytes : Bytes} {lines : List Str} (key : Str)
    (hAction : actionPublishesJsonl action = true)
    (hTarget : jsonlTargetForPath parsed = some (stream, subject))
    (hLines : jsonLines subject bytes = .ok lines)
    (hBaseHeard : Heard stream before baseCalls during)
    (hPublished : GrowsTo stream during after)
    (hProgressHeard : Heard stream after progressCalls recorded)
    (hOrdered : LineLog.Ordered (recorded.messages stream))
    (hBase : Logs (jsonlBaseSnapshot parsed action) mount baseCalls base baseMount)
    (hCount : Logs (appliedJsonlLinesForQueue stream subject bytes base) mount' progressCalls count
      progressMount) :
    count ≤ ownLines recorded stream subject key lines.length ↔
      ¬ StandsIn (linesRead before stream subject baseCalls)
        (linesRead after stream subject progressCalls) subject lines
        (ownLines recorded stream subject key lines.length) := by
  have hGrows := hPublished.trans hProgressHeard.growsTo
  rw [hBase.of_jsonlBaseSnapshot hBaseHeard (hGrows.ordered hOrdered) hAction hTarget] at hCount
  rw [hCount.of_appliedJsonlLinesForQueue hProgressHeard hOrdered]
  generalize ownLines recorded stream subject key lines.length = own
  by_cases hRefused : progressCalls.any refused = true
  · have hNone : linesRead after stream subject progressCalls = [] := if_pos hRefused
    rw [hNone]
    simp only [snapshotOf, List.foldl_nil, jsonlAppliedPrefixCount_nil, Nat.zero_le, true_iff]
    exact not_standsIn_nil own
  · obtain ⟨added, hAdded⟩ : linesRead before stream subject baseCalls <+:
        linesRead after stream subject progressCalls := by
      have hSeen : linesRead after stream subject progressCalls =
          after.ofSubject stream subject := if_neg hRefused
      rw [hSeen, linesRead]
      split
      · exact List.nil_prefix
      · exact (hBaseHeard.growsTo.trans hPublished).filter _
    rw [← hAdded]
    exact jsonlAppliedPrefixCount_le_iff hLines own

end Progress

/-! ## A line of another publisher -/

def ordersLog : JetStreamPath := .eventLog "orders".toList

def ordersPublish : JetStreamAction := .publishJsonLines "orders".toList "events.orders".toList

def ordersPayload : Bytes := Text.asBytes "null\ntrue\n".toList

def ordersMount : Mount := Mount.new ⟨8, []⟩ [] 1

def ordersBefore : World LineLog := ⟨.new, []⟩

/-- A line without an identity, as other clients publish them. -/
def foreignLine (text : Str) : LoggedLine := ⟨1, "events.orders".toList, Text.asBytes text, none⟩

def ordersAfter (text : Str) : World LineLog :=
  ⟨⟨(∅ : Std.ExtTreeMap Str (List LoggedLine)).insert "orders".toList [foreignLine text]⟩, []⟩

/-- What is recorded for a publish of two lines that stored none of them, when `text` has
been published by someone else since its base was read. -/
def ordersProgress (text : Str) : Nat :=
  letI := literalSerde
  (run logWorld (appliedJsonlLinesForQueue "orders".toList "events.orders".toList ordersPayload
    (run logWorld (jsonlBaseSnapshot ordersLog ordersPublish) ordersMount ordersBefore).1)
    ordersMount (ordersAfter text)).1

theorem messages_ordersBefore : ordersBefore.store.messages "orders".toList = [] := by
  simp [ordersBefore, LineLog.messages, LineLog.new]

theorem messages_ordersAfter (text : Str) :
    (ordersAfter text).store.messages "orders".toList = [foreignLine text] := by
  simp [ordersAfter, LineLog.messages]

theorem ordered_ordersAfter (text : Str) :
    LineLog.Ordered ((ordersAfter text).store.messages "orders".toList) := by
  rw [messages_ordersAfter]
  exact ⟨List.pairwise_singleton _ _, by simp [foreignLine]⟩

/-- The foreign line is counted although nothing of the publish is in the stream. -/
theorem foreign_line_counted :
    let _ := literalSerde
    validateJsonLines "events.orders".toList ordersPayload = .ok () ∧
      ordersProgress "null".toList = 1 ∧
      ownLines (ordersAfter "null".toList).store "orders".toList "events.orders".toList
        "key".toList 2 = 0 := by
  let _ := literalSerde
  have hLines : jsonLines "events.orders".toList ordersPayload =
      .ok ["null".toList, "true".toList] := jsonLines_asBytes _ _
  have hAdded : jsonLines "events.orders".toList (Text.asBytes "null\n".toList) =
      .ok ["null".toList] := jsonLines_asBytes _ _
  have hBase : jsonLines "events.orders".toList [] = .ok [] := jsonLines_asBytes _ []
  have hProgress : ordersProgress "null".toList = (jsonlAppliedPrefixCount "events.orders".toList []
      ([] ++ Text.asBytes "null\n".toList) ordersPayload).toOption.getD 0 := by
    have hEmpty : LineLog.Ordered (ordersBefore.store.messages "orders".toList) := by
      rw [messages_ordersBefore]
      exact ⟨List.Pairwise.nil, by simp⟩
    rw [ordersProgress, run_jsonlBaseSnapshot rfl rfl hEmpty,
      run_appliedJsonlLinesForQueue (ordered_ordersAfter _), LineLog.ofSubject, LineLog.ofSubject,
      messages_ordersBefore, messages_ordersAfter]
    rfl
  refine ⟨?_, ?_, ?_⟩
  · rw [validateJsonLines, hLines]
    decide +kernel
  · rw [hProgress, jsonlAppliedPrefixCount_append (Or.inl rfl) hBase hAdded hLines]
    decide +kernel
  · simp only [ownLines, LineLog.lineApplied, LineLog.ofSubject, messages_ordersAfter]
    decide +kernel

/-- A base read that is refused, and a progress read that finds one line. -/
def ordersRefused : Log io :=
  [⟨.store (.listStreamMessages "orders".toList),
    (.error (.io (.other "connection lost".toList)) : TransportResult (List DirectoryEntry))⟩]

def ordersListed (text : Str) : Log io :=
  [⟨.store (.listStreamMessages "orders".toList),
      (.ok [⟨"1.json".toList, .file⟩] : TransportResult (List DirectoryEntry))⟩,
    ⟨.store (.streamMessage "orders".toList 1),
      (.ok ⟨"orders".toList, 1, "events.orders".toList, Text.asBytes text⟩ :
        TransportResult StreamMessageView)⟩]

/-- With nothing published at all, a line that was there before is counted when the base
read is refused. -/
theorem old_line_counted :
    let _ := literalSerde
    ∃ base count,
      Logs (jsonlBaseSnapshot ordersLog ordersPublish) ordersMount ordersRefused base ordersMount ∧
      Logs (appliedJsonlLinesForQueue "orders".toList "events.orders".toList ordersPayload base)
        ordersMount (ordersListed "null".toList) count ordersMount ∧
      Heard "orders".toList (ordersAfter "null".toList).store ordersRefused
        (ordersAfter "null".toList).store ∧
      Heard "orders".toList (ordersAfter "null".toList).store (ordersListed "null".toList)
        (ordersAfter "null".toList).store ∧
      ownLines (ordersAfter "null".toList).store "orders".toList "events.orders".toList
        "key".toList 2 = 0 ∧ 0 < count := by
  let _ := literalSerde
  have hBase : Logs (jsonlBaseSnapshot ordersLog ordersPublish) ordersMount ordersRefused
      (some []) ordersMount :=
    .call_of_eq rfl (.ret_of_eq rfl)
  have hCount : Logs (appliedJsonlLinesForQueue "orders".toList "events.orders".toList
      ordersPayload (some [])) ordersMount (ordersListed "null".toList) _ ordersMount :=
    .call_of_eq rfl (.call_of_eq rfl (.ret_of_eq rfl))
  have hLines : jsonLines "events.orders".toList ordersPayload =
      .ok ["null".toList, "true".toList] := jsonLines_asBytes _ _
  have hOld : jsonLines "events.orders".toList (Text.asBytes "null\n".toList) =
      .ok ["null".toList] := jsonLines_asBytes _ _
  have hHeard : Heard "orders".toList (ordersAfter "null".toList).store
      (ordersListed "null".toList) (ordersAfter "null".toList).store :=
    .answered List.prefix_rfl (.answered List.prefix_rfl (.done _))
  have hSeen : linesRead (ordersAfter "null".toList).store "orders".toList "events.orders".toList
      (ordersListed "null".toList) = [foreignLine "null".toList] := by
    rw [linesRead, if_neg (by decide), LineLog.ofSubject, messages_ordersAfter]
    rfl
  have hOwn : ownLines (ordersAfter "null".toList).store "orders".toList "events.orders".toList
      "key".toList 2 = 0 := by
    simp only [ownLines, LineLog.lineApplied, LineLog.ofSubject, messages_ordersAfter]
    decide +kernel
  have hTarget : jsonlTargetForPath ordersLog =
      some ("orders".toList, "events.orders".toList) := rfl
  have hRefused : Heard "orders".toList (ordersAfter "null".toList).store ordersRefused
      (ordersAfter "null".toList).store := .refused _ List.prefix_rfl (.done _)
  refine ⟨_, _, hBase, hCount, hRefused, hHeard, hOwn, Nat.lt_of_not_le fun hNone => ?_⟩
  refine (appliedJsonlLines_le_iff "key".toList rfl hTarget hLines hRefused List.prefix_rfl hHeard
    (ordered_ordersAfter _) hBase hCount).mp (hNone.trans hOwn.ge) ?_
  rw [hSeen]
  show StandsIn _ _ _ _ (ownLines _ _ _ _ 2)
  rw [hOwn]
  exact ⟨[foreignLine "null".toList], rfl, ⟨[], jsonLines_asBytes _ []⟩, ["null".toList], hOld,
    by decide, List.prefix_rfl⟩

end EventFs.Fuse
