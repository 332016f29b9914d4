import EventFs.Transport.Writeback

/-!
# The records of the queue file

The file holds one JSON record a line. Reading it back skips blank lines, ignores a last
record that was cut short and fails on any other record that does not parse. The JSON
library is not part of the repository: `QueueSerde` is what the code uses of it.
-/

namespace EventFs.Transport

open Library

inductive JsonErrorCategory
  | io
  | syntax_
  | data
  | eof
deriving DecidableEq, Repr

structure JsonError where
  category : JsonErrorCategory
  message : Str
deriving DecidableEq, Repr

class QueueSerde where
  toString : QueueEntry → Str
  fromStr : Str → Except JsonError QueueEntry

namespace QueueFile

variable [QueueSerde]

def content (entries : List QueueEntry) : Str :=
  entries.flatMap fun entry => QueueSerde.toString entry ++ ['\n']

omit [QueueSerde] in
def isTornFinalRecord (index lineCount : Nat) (trailingNewline : Bool) (err : JsonError) : Bool :=
  index == lineCount - 1 && !trailingNewline && err.category == .eof

def readLines (lineCount : Nat) (trailingNewline : Bool) :
    Nat → List Str → TransportResult (List QueueEntry)
  | _, [] => .ok []
  | index, line :: rest =>
      if (Text.trim line).isEmpty then readLines lineCount trailingNewline (index + 1) rest
      else
        match QueueSerde.fromStr line with
        | .ok entry =>
            match readLines lineCount trailingNewline (index + 1) rest with
            | .ok entries => .ok (entry :: entries)
            | .error err => .error err
        | .error err =>
            if isTornFinalRecord index lineCount trailingNewline err then .ok []
            else .error (.json err.message)

/-- `fs::read_to_string` refuses bytes that are not UTF-8. -/
def readEntries (bytes : Bytes) : TransportResult (List QueueEntry) :=
  match Text.fromUtf8 bytes with
  | none => .error (.io (.other "stream did not contain valid UTF-8".toList))
  | some text =>
      readLines (Text.lines text).length (text.getLast? == some '\n') 0 (Text.lines text)

/-! ## Complete records -/

/-- What the JSON library does with the records of these entries. -/
structure WellFormed (entries : List QueueEntry) : Prop where
  roundTrip : ∀ entry ∈ entries, QueueSerde.fromStr (QueueSerde.toString entry) = .ok entry
  oneLine : ∀ entry ∈ entries, '\n' ∉ QueueSerde.toString entry
  braces : ∀ entry ∈ entries, ∃ body, QueueSerde.toString entry = '\x7b' :: body ++ ['\x7d']
  torn : ∀ entry ∈ entries, ∀ part, part <+: QueueSerde.toString entry → part ≠ [] →
    part ≠ QueueSerde.toString entry →
      ∃ err : JsonError, QueueSerde.fromStr part = .error err ∧ err.category = .eof

/-- The entries of a file with the places where their records end, for a file that starts
at `offset`. -/
def recordEnds : Nat → List QueueEntry → List (QueueEntry × Nat)
  | _, [] => []
  | offset, entry :: rest =>
      let size := (Text.asBytes (QueueSerde.toString entry)).length
      (entry, offset + size) :: recordEnds (offset + size + 1) rest

/-- The entries whose records lie inside the first `length` bytes. -/
def completeEntries (entries : List QueueEntry) (length : Nat) : List QueueEntry :=
  ((recordEnds 0 entries).filter fun record => record.2 ≤ length).map Prod.fst

variable {entries : List QueueEntry}

omit [QueueSerde] in
theorem asBytes_length_lt {part text : Str} (hPrefix : part <+: text) (hNe : part ≠ text) :
    (Text.asBytes part).length < (Text.asBytes text).length := by
  obtain ⟨rest, rfl⟩ := hPrefix
  cases rest with
  | nil => exact absurd (List.append_nil part).symm hNe
  | cons c rest =>
      have hSize := c.utf8Size_pos
      rw [Text.asBytes_append, List.length_append, Text.asBytes, Text.asBytes, List.flatMap_cons,
        List.length_append, String.length_utf8EncodeChar]
      omega

theorem recordEnds_append (offset : Nat) (done rest : List QueueEntry) :
    recordEnds offset (done ++ rest) =
      recordEnds offset done ++
        recordEnds (offset + (Text.asBytes (content done)).length) rest := by
  induction done generalizing offset with
  | nil => rfl
  | cons entry done ih =>
      simp only [List.cons_append, recordEnds, ih, content, List.flatMap_cons, Text.asBytes_append,
        List.length_append]
      congr 3
      have hNewline : (Text.asBytes ['\n']).length = 1 := rfl
      omega

theorem map_recordEnds (offset : Nat) (entries : List QueueEntry) :
    (recordEnds offset entries).map Prod.fst = entries := by
  induction entries generalizing offset with
  | nil => rfl
  | cons entry rest ih => simp [recordEnds, ih]

theorem recordEnds_le {offset : Nat} {record : QueueEntry × Nat}
    (h : record ∈ recordEnds offset entries) :
    offset ≤ record.2 ∧ record.2 ≤ offset + (Text.asBytes (content entries)).length := by
  induction entries generalizing offset with
  | nil => simp [recordEnds] at h
  | cons entry rest ih =>
      simp only [content, List.flatMap_cons, Text.asBytes_append, List.length_append]
      rcases List.mem_cons.mp h with rfl | hRest
      · simp only
        omega
      · have hRest := ih hRest
        have hNewline : (Text.asBytes ['\n']).length = 1 := rfl
        simp only [content] at hRest
        omega

/-- The records of the first entries are complete as soon as the file holds them all. -/
theorem completeEntries_append (done rest : List QueueEntry) (extra : Nat) :
    completeEntries (done ++ rest) ((Text.asBytes (content done)).length + extra) =
      done ++ ((recordEnds (Text.asBytes (content done)).length rest).filter fun record =>
        record.2 ≤ (Text.asBytes (content done)).length + extra).map Prod.fst := by
  have hDone : (recordEnds 0 done).filter (fun record =>
      decide (record.2 ≤ (Text.asBytes (content done)).length + extra)) = recordEnds 0 done := by
    rw [List.filter_eq_self]
    intro record hMem
    have hEnd := (recordEnds_le hMem).2
    simp only [decide_eq_true_eq]
    omega
  rw [completeEntries, recordEnds_append, List.filter_append, List.map_append, hDone,
    map_recordEnds, Nat.zero_add]

/-- Behind the complete records a file may hold a part of the next one. -/
theorem completeEntries_part {done rest : List QueueEntry} {entry : QueueEntry} {part : Str}
    (hPart : part <+: QueueSerde.toString entry) :
    completeEntries (done ++ entry :: rest)
        ((Text.asBytes (content done)).length + (Text.asBytes part).length) =
      done ++ if part = QueueSerde.toString entry then [entry] else [] := by
  rw [completeEntries_append, recordEnds]
  have hLater : (recordEnds ((Text.asBytes (content done)).length +
      (Text.asBytes (QueueSerde.toString entry)).length + 1) rest).filter (fun record =>
        decide (record.2 ≤ (Text.asBytes (content done)).length +
          (Text.asBytes part).length)) = [] := by
    rw [List.filter_eq_nil_iff]
    intro record hMem
    have hEnd := (recordEnds_le hMem).1
    obtain ⟨more, hMore⟩ := hPart
    have hLength : (Text.asBytes part).length ≤
        (Text.asBytes (QueueSerde.toString entry)).length := by
      rw [← hMore, Text.asBytes_append, List.length_append]
      omega
    simp only [decide_eq_true_eq]
    omega
  congr 1
  by_cases hWhole : part = QueueSerde.toString entry
  · rw [if_pos hWhole, hWhole]
    rw [hWhole] at hLater
    simp [hLater]
  · have hShort := asBytes_length_lt hPart hWhole
    rw [if_neg hWhole, List.filter_cons_of_neg (by simp only [decide_eq_true_eq]; omega), hLater,
      List.map_nil]

theorem completeEntries_closed {done rest : List QueueEntry}
    (hRest : ∀ entry ∈ rest, QueueSerde.toString entry ≠ []) :
    completeEntries (done ++ rest) (Text.asBytes (content done)).length = done := by
  cases rest with
  | nil =>
      have h := completeEntries_append done [] 0
      simpa [recordEnds] using h
  | cons entry rest =>
      have h := @completeEntries_part _ done rest entry [] List.nil_prefix
      simpa [Text.asBytes, (hRest entry List.mem_cons_self).symm] using h

/-! ## Reading a part of the file -/

namespace WellFormed

variable {entry : QueueEntry}

theorem nonempty (h : WellFormed entries) (hMem : entry ∈ entries) :
    QueueSerde.toString entry ≠ [] := by
  obtain ⟨body, hBody⟩ := h.braces entry hMem
  simp [hBody]

/-- A part of a record is not blank: it begins with a brace. -/
theorem trim_part (h : WellFormed entries) (hMem : entry ∈ entries) {part : Str}
    (hPart : part <+: QueueSerde.toString entry) (hNonempty : part ≠ []) :
    (Text.trim part).isEmpty = false := by
  obtain ⟨body, hBody⟩ := h.braces entry hMem
  obtain ⟨c, rest, rfl⟩ := List.exists_cons_of_ne_nil hNonempty
  obtain ⟨more, hMore⟩ := hPart
  rw [hBody, List.cons_append, List.cons_append] at hMore
  obtain rfl : c = '\x7b' := (List.cons.inj hMore).1
  have hFirst : (List.dropWhile Text.isWhitespace ('\x7b' :: rest)) = '\x7b' :: rest := rfl
  rw [Text.trim, hFirst, List.isEmpty_eq_false_iff, ne_eq, List.reverse_eq_nil_iff,
    List.dropWhile_eq_nil_iff]
  intro hAll
  have hBlank := hAll '\x7b' (by simp)
  exact absurd hBlank (by decide)

theorem sublist (h : WellFormed entries) {some_ : List QueueEntry}
    (hSome : ∀ entry ∈ some_, entry ∈ entries) : WellFormed some_ where
  roundTrip entry hMem := h.roundTrip entry (hSome entry hMem)
  oneLine entry hMem := h.oneLine entry (hSome entry hMem)
  braces entry hMem := h.braces entry (hSome entry hMem)
  torn entry hMem := h.torn entry (hSome entry hMem)

theorem lines_content (h : WellFormed entries) (tail : Str) :
    Text.lines (content entries ++ tail) =
      entries.map QueueSerde.toString ++ Text.lines tail := by
  induction entries with
  | nil => rfl
  | cons entry rest ih =>
      obtain ⟨body, hBody⟩ := h.braces entry List.mem_cons_self
      have hRest := h.sublist fun _ => List.mem_cons_of_mem entry
      have hSplit : content (entry :: rest) ++ tail =
          QueueSerde.toString entry ++ '\n' :: (content rest ++ tail) := by
        simp [content]
      have hLast : (QueueSerde.toString entry).getLast? ≠ some '\r' := by
        rw [hBody, List.getLast?_concat]
        decide
      rw [hSplit, Text.lines_cons (h.oneLine entry List.mem_cons_self) hLast, ih hRest,
        List.map_cons, List.cons_append]

end WellFormed

/-- Reading the records of the first entries, then the lines behind them. -/
theorem readLines_append {entries done : List QueueEntry} (h : WellFormed entries)
    (hDone : ∀ entry ∈ done, entry ∈ entries) (lineCount : Nat) (trailingNewline : Bool)
    (index : Nat) (tail : List Str) {more : List QueueEntry}
    (hTail : readLines lineCount trailingNewline (index + done.length) tail = .ok more) :
    readLines lineCount trailingNewline index (done.map QueueSerde.toString ++ tail) =
      .ok (done ++ more) := by
  induction done generalizing index with
  | nil => exact hTail
  | cons entry done ih =>
      have hMem := hDone entry List.mem_cons_self
      have hRest := ih (fun e he => hDone e (List.mem_cons_of_mem _ he)) (index + 1) (by
        rw [← hTail, List.length_cons]
        congr 1
        omega)
      rw [List.map_cons, List.cons_append, readLines,
        h.trim_part hMem List.prefix_rfl (h.nonempty hMem)]
      simp only [Bool.false_eq_true, if_false, h.roundTrip entry hMem, hRest]
      rfl

/-- Where the text of the file is cut: behind complete records, with or without a part of
the next one. -/
theorem prefix_content {entries : List QueueEntry} {text : Str} (h : text <+: content entries) :
    ∃ done rest, entries = done ++ rest ∧
      (text = content done ∨ ∃ entry later part, rest = entry :: later ∧ part ≠ [] ∧
        part <+: QueueSerde.toString entry ∧ text = content done ++ part) := by
  induction entries generalizing text with
  | nil =>
      obtain rfl : text = [] := List.prefix_nil.mp h
      exact ⟨[], [], rfl, Or.inl rfl⟩
  | cons entry rest ih =>
      have hSplit : content (entry :: rest) =
          (QueueSerde.toString entry ++ ['\n']) ++ content rest := rfl
      obtain ⟨more, hMore⟩ := h
      rw [hSplit] at hMore
      rcases List.append_eq_append_iff.mp hMore with ⟨behind, hFirst, -⟩ | ⟨front, rfl, hFront⟩
      · by_cases hEmpty : text = []
        · exact ⟨[], entry :: rest, rfl, Or.inl hEmpty⟩
        rcases List.append_eq_append_iff.mp hFirst with ⟨newline, rfl, hNewline⟩ | ⟨open_, hText, -⟩
        · rcases List.append_eq_singleton_iff.mp hNewline.symm with ⟨rfl, -⟩ | ⟨rfl, -⟩
          · exact ⟨[], entry :: rest, rfl,
              Or.inr ⟨entry, rest, _, rfl, hEmpty, by simp, by simp [content]⟩⟩
          · exact ⟨[entry], rest, rfl, Or.inl (by simp [content])⟩
        · exact ⟨[], entry :: rest, rfl,
            Or.inr ⟨entry, rest, text, rfl, hEmpty, ⟨open_, hText.symm⟩, by simp [content]⟩⟩
      · obtain ⟨done, later, rfl, hText⟩ := ih ⟨more, hFront.symm⟩
        refine ⟨entry :: done, later, rfl, ?_⟩
        rcases hText with rfl | ⟨next, after, part, hLater, hNonempty, hPart, rfl⟩
        · exact Or.inl rfl
        · exact Or.inr ⟨next, after, part, hLater, hNonempty, hPart, by simp [content]⟩

/-- The last line of a part of the file, when it is a part of a record. -/
theorem readLines_part {entries : List QueueEntry} (h : WellFormed entries) {entry : QueueEntry}
    (hMem : entry ∈ entries) {part : Str} (hPart : part <+: QueueSerde.toString entry)
    (hNonempty : part ≠ []) (index : Nat) :
    readLines (index + 1) false index [part] =
      .ok (if part = QueueSerde.toString entry then [entry] else []) := by
  rw [readLines, h.trim_part hMem hPart hNonempty]
  by_cases hWhole : part = QueueSerde.toString entry
  · simp [hWhole, h.roundTrip entry hMem, readLines]
  · obtain ⟨err, hErr, hEof⟩ := h.torn entry hMem part hPart hNonempty hWhole
    simp [hErr, hWhole, isTornFinalRecord, hEof]

theorem readEntries_text {entries : List QueueEntry} (h : WellFormed entries) {text : Str}
    (hText : text <+: content entries) :
    readEntries (Text.asBytes text) =
      .ok (completeEntries entries (Text.asBytes text).length) := by
  rw [readEntries, Text.fromUtf8_eq_some.mpr rfl]
  obtain ⟨done, rest, rfl, rfl | ⟨entry, later, part, rfl, hNonempty, hPart, rfl⟩⟩ :=
    prefix_content hText
  · have hDone : ∀ entry ∈ done, entry ∈ done ++ rest := fun _ => List.mem_append_left rest
    have hRest : ∀ entry ∈ rest, QueueSerde.toString entry ≠ [] :=
      fun entry hMem => h.nonempty (List.mem_append_right done hMem)
    have hLines := (h.sublist hDone).lines_content []
    rw [List.append_nil, Text.lines_nil] at hLines
    simp only [hLines]
    rw [readLines_append h hDone _ _ 0 [] rfl, completeEntries_closed hRest, List.append_nil]
  · have hDone : ∀ e ∈ done, e ∈ done ++ entry :: later := fun _ => List.mem_append_left _
    have hMem : entry ∈ done ++ entry :: later := by simp
    have hBreak : '\n' ∉ part := fun hIn => h.oneLine entry hMem (hPart.subset hIn)
    have hLines := (h.sublist hDone).lines_content part
    rw [Text.lines_open hBreak hNonempty] at hLines
    have hLast : ((content done ++ part).getLast? == some '\n') = false := by
      rw [List.getLast?_append_of_ne_nil _ hNonempty, List.getLast?_eq_getLast_of_ne_nil hNonempty]
      have hNe : part.getLast hNonempty ≠ '\n' :=
        fun hEq => hBreak (hEq ▸ List.getLast_mem hNonempty)
      simpa using hNe
    have hRead := readLines_part h hMem hPart hNonempty done.length
    have hCount : (done.map QueueSerde.toString ++ [part]).length = done.length + 1 := by simp
    have hTail : readLines (done.length + 1) false (0 + done.length) [part] =
        .ok (if part = QueueSerde.toString entry then [entry] else []) := by
      rw [Nat.zero_add]
      exact hRead
    simp only [hLines, hLast, hCount]
    rw [readLines_append h hDone _ _ 0 [part] hTail,
      Text.asBytes_append, List.length_append, completeEntries_part hPart]

theorem readEntries_content {entries : List QueueEntry} (h : WellFormed entries) :
    readEntries (Text.asBytes (content entries)) = .ok entries := by
  rw [readEntries_text h List.prefix_rfl]
  have hWhole := @completeEntries_closed _ entries [] (by simp)
  rw [List.append_nil] at hWhole
  rw [hWhole]

/-- Of a part of the file, the complete records are read exactly when the cut does not fall
inside a character. -/
theorem readEntries_prefix_iff {entries : List QueueEntry} (h : WellFormed entries) {part : Bytes}
    (hPart : part <+: Text.asBytes (content entries)) :
    readEntries part = .ok (completeEntries entries part.length) ↔
      ∃ n, part = Text.asBytes ((content entries).take n) := by
  constructor
  · intro hRead
    cases hDecode : Text.fromUtf8 part with
    | none => simp [readEntries, hDecode] at hRead
    | some text =>
        have hText := Text.fromUtf8_eq_some.mp hDecode
        obtain ⟨rest, hRest⟩ := hPart
        rw [hText] at hRest
        obtain ⟨more, hMore, -⟩ := Text.eq_append_of_asBytes hRest
        refine ⟨text.length, ?_⟩
        rw [hMore, List.take_left, hText]
  · rintro ⟨n, rfl⟩
    exact readEntries_text h (List.take_prefix n _)

end QueueFile

/-! ## One entry -/

/-- An object whose name takes two bytes. -/
def accentedPut : QueueEntry := ⟨"k".toList, .objectPut "b".toList "é".toList [], 0, false⟩

/-- The part of its record before the name, written at the epoch. -/
def accentedFront : Str :=
  ("\x7b\"idempotency_key\":\"k\",\"version\":\x7b\"created\":" ++
    "\x7b\"secs_since_epoch\":0,\"nanos_since_epoch\":0\x7d,\"modified\":" ++
    "\x7b\"secs_since_epoch\":0,\"nanos_since_epoch\":0\x7d\x7d,\"operation\":" ++
    "\x7b\"ObjectPut\":\x7b\"bucket\":\"b\",\"object\":\"").toList

def accentedBack : Str := "\",\"bytes\":[]\x7d\x7d,\"attempts\":0,\"done\":false\x7d".toList

def accentedRecord : Str := accentedFront ++ 'é' :: accentedBack

/-- The JSON library on this record. -/
@[reducible] def accentedSerde : QueueSerde where
  toString _ := accentedRecord
  fromStr text :=
    if text = accentedRecord then .ok accentedPut
    else if text <+: accentedRecord then .error ⟨.eof, "EOF while parsing".toList⟩
    else .error ⟨.syntax_, "expected value".toList⟩

theorem accentedSerde_wellFormed : @QueueFile.WellFormed accentedSerde [accentedPut] := by
  refine @QueueFile.WellFormed.mk accentedSerde _ ?_ ?_ ?_ ?_
  · intro entry hMem
    rw [List.mem_singleton.mp hMem]
    exact if_pos rfl
  · intro entry _
    show '\n' ∉ accentedRecord
    decide +kernel
  · intro entry _
    refine ⟨(accentedRecord.drop 1).dropLast, ?_⟩
    show accentedRecord = _
    decide +kernel
  · intro entry _ part hPart _ hNe
    have hPart : part <+: accentedRecord := hPart
    have hNe : part ≠ accentedRecord := hNe
    refine ⟨⟨.eof, "EOF while parsing".toList⟩, ?_, rfl⟩
    simp only [QueueSerde.fromStr, if_neg hNe, if_pos hPart]

/-- The file cut after the first byte of the name. -/
def accentedCut : Bytes := Text.asBytes accentedFront ++ [0xc3]

theorem accentedCut_prefix :
    accentedCut <+: Text.asBytes (@QueueFile.content accentedSerde [accentedPut]) := by
  have hContent : @QueueFile.content accentedSerde [accentedPut] = accentedRecord ++ ['\n'] :=
    List.append_nil _
  have hRecord : accentedRecord ++ ['\n'] =
      accentedFront ++ (['é'] ++ (accentedBack ++ ['\n'])) := List.append_assoc _ _ _
  have hChar : Text.asBytes ['é'] = [0xc3] ++ [0xa9] := by decide
  rw [hContent, hRecord, Text.asBytes_append accentedFront, Text.asBytes_append ['é'], hChar]
  exact ⟨[0xa9] ++ Text.asBytes (accentedBack ++ ['\n']), by
    simp only [accentedCut, List.append_assoc]⟩

/-- No record is complete, but the file cannot be read at all. -/
theorem accented_record_cut :
    let _ := accentedSerde
    QueueFile.WellFormed [accentedPut] ∧
      accentedCut <+: Text.asBytes (QueueFile.content [accentedPut]) ∧
      QueueFile.readEntries accentedCut ≠
        .ok (QueueFile.completeEntries [accentedPut] accentedCut.length) := by
  refine ⟨accentedSerde_wellFormed, accentedCut_prefix, ?_⟩
  have hDecode : Text.fromUtf8 accentedCut = none := by
    rw [Option.eq_none_iff_forall_ne_some]
    intro text hText
    have hChar : String.utf8EncodeChar 'é' = [0xc3] ++ [0xa9] := by decide
    have hBytes := Text.fromUtf8_eq_some.mp hText
    rw [accentedCut] at hBytes
    exact Text.asBytes_ne_of_cut hChar (by simp) (by simp) hBytes
  intro hRead
  unfold QueueFile.readEntries at hRead
  rw [hDecode] at hRead
  cases hRead

/-- The file cut inside the first word of the record. -/
theorem first_word_cut :
    let _ := accentedSerde
    let part := Text.asBytes ((QueueFile.content [accentedPut]).take 9)
    QueueFile.readEntries part = .ok (QueueFile.completeEntries [accentedPut] part.length) := by
  intro _ part
  have hPrefix : Text.asBytes ((QueueFile.content [accentedPut]).take 9) <+:
      Text.asBytes (QueueFile.content [accentedPut]) :=
    ⟨Text.asBytes ((QueueFile.content [accentedPut]).drop 9), by
      rw [← Text.asBytes_append, List.take_append_drop]⟩
  exact (QueueFile.readEntries_prefix_iff accentedSerde_wellFormed hPrefix).mpr ⟨9, rfl⟩

end EventFs.Transport
