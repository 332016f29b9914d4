import EventFs.Library.Text

/-!
# Tokens between separators

A text split at a separator has an empty token exactly if it is empty, begins or ends with
the separator, or has it twice in a row. Joining at another separator, and trimming it,
keep what is doubled.
-/

namespace EventFs.Library.Text

variable {c d : Char}

@[simp] theorem startsWith_singleton_nil : startsWith [c] [] = false := rfl

@[simp] theorem startsWith_singleton_cons (a : Char) (s : Str) :
    startsWith [c] (a :: s) = (a == c) := by
  simp [startsWith, List.isPrefixOf, Bool.beq_comm]

theorem endsWith_singleton (s : Str) : endsWith [c] s = startsWith [c] s.reverse := rfl

@[simp] theorem contains_double_nil : contains [c, c] [] = false := rfl

theorem contains_double_cons (a : Char) (s : Str) :
    contains [c, c] (a :: s) = (a == c && startsWith [c] s || contains [c, c] s) := by
  rw [contains, startsWith, startsWith, List.isPrefixOf_cons_cons, Bool.beq_comm]

theorem startsWith_append_cons {x y : Str} (hcd : d ≠ c) :
    startsWith [c] (x ++ d :: y) = startsWith [c] x := by
  cases x with
  | nil => simp [hcd]
  | cons a x => simp

/-- Nothing is doubled across another character. -/
theorem contains_double_append (x y : Str) (hcd : d ≠ c) :
    contains [c, c] (x ++ d :: y) = (contains [c, c] x || contains [c, c] y) := by
  induction x with
  | nil => simp [contains_double_cons, hcd]
  | cons a x ih =>
      rw [List.cons_append, contains_double_cons, contains_double_cons, ih,
        startsWith_append_cons hcd, Bool.or_assoc]

theorem contains_double_of_notMem {s : Str} (h : c ∉ s) : contains [c, c] s = false := by
  induction s with
  | nil => rfl
  | cons a s ih =>
      rw [List.mem_cons, not_or] at h
      rw [contains_double_cons, ih h.2, beq_false_of_ne (Ne.symm h.1)]
      rfl

theorem contains_double_intercalate (parts : List Str) (hcd : d ≠ c) :
    contains [c, c] ([d].intercalate parts) = parts.any (contains [c, c]) := by
  induction parts with
  | nil => rfl
  | cons first rest ih =>
      cases rest with
      | nil => simp
      | cons second rest =>
          rw [List.intercalate_cons_cons, List.append_assoc, List.singleton_append,
            contains_double_append _ _ hcd, ih, List.any_cons (l := second :: rest)]

theorem contains_double_dropWhile (s : Str) (hcd : d ≠ c) :
    contains [c, c] (s.dropWhile (· == d)) = contains [c, c] s := by
  induction s with
  | nil => rfl
  | cons a s ih =>
      by_cases had : a = d
      · subst had
        rw [List.dropWhile_cons_of_pos (by simp), ih, contains_double_cons, beq_false_of_ne hcd]
        rfl
      · rw [List.dropWhile_cons_of_neg (by simpa using had)]

theorem contains_double_iff {s : Str} :
    contains [c, c] s = true ↔ ∃ before after, s = before ++ c :: c :: after := by
  induction s with
  | nil => simp
  | cons a s ih =>
      rw [contains_double_cons, Bool.or_eq_true, ih, Bool.and_eq_true, beq_iff_eq]
      constructor
      · rintro (⟨rfl, hStart⟩ | ⟨before, after, rfl⟩)
        · cases s with
          | nil => simp at hStart
          | cons b s =>
              obtain rfl : b = a := by simpa using hStart
              exact ⟨[], s, rfl⟩
        · exact ⟨a :: before, after, rfl⟩
      · rintro ⟨before, after, hSplit⟩
        cases before with
        | nil =>
            obtain ⟨rfl, rfl⟩ : a = c ∧ s = c :: after := by simpa using hSplit
            exact Or.inl ⟨rfl, by simp⟩
        | cons b before =>
            obtain ⟨rfl, rfl⟩ : a = b ∧ s = before ++ c :: c :: after := by simpa using hSplit
            exact Or.inr ⟨before, after, rfl⟩

theorem contains_double_reverse (s : Str) :
    contains [c, c] s.reverse = contains [c, c] s := by
  have hMirror : ∀ {s : Str}, contains [c, c] s = true → contains [c, c] s.reverse = true := by
    intro s h
    obtain ⟨before, after, rfl⟩ := contains_double_iff.mp h
    exact contains_double_iff.mpr ⟨after.reverse, before.reverse, by simp⟩
  rw [Bool.eq_iff_iff]
  exact ⟨fun h => List.reverse_reverse s ▸ hMirror h, hMirror⟩

theorem contains_double_trimMatches (s : Str) (hcd : d ≠ c) :
    contains [c, c] (trimMatches d s) = contains [c, c] s := by
  rw [trimMatches, trimEndMatches, contains_double_reverse, contains_double_dropWhile _ hcd,
    contains_double_reverse, trimStartMatches, contains_double_dropWhile _ hcd]

theorem endsWith_cons {a : Char} {s : Str} (hne : s ≠ []) :
    endsWith [c] (a :: s) = endsWith [c] s := by
  rw [endsWith_singleton, endsWith_singleton, List.reverse_cons]
  obtain ⟨last, rest, hReverse⟩ := List.exists_cons_of_ne_nil (List.reverse_ne_nil_iff.mpr hne)
  simp [hReverse]

theorem endsWith_append {x y : Str} (hne : y ≠ []) :
    endsWith [c] (x ++ y) = endsWith [c] y := by
  induction x with
  | nil => rfl
  | cons a x ih => rw [List.cons_append, endsWith_cons (by simp [hne]), ih]

theorem endsWith_of_notMem {s : Str} (h : c ∉ s) : endsWith [c] s = false := by
  rw [endsWith_singleton]
  cases hs : s.reverse with
  | nil => rfl
  | cons a rest =>
      have hMem : a ∈ s := List.mem_reverse.mp (hs ▸ List.mem_cons_self)
      rw [startsWith_singleton_cons, beq_false_of_ne]
      rintro rfl
      exact h hMem

/-- A single separator between two texts doubles nothing. -/
theorem contains_double_join {x y : Str} (hx : endsWith [c] x = false)
    (hy : startsWith [c] y = false) :
    contains [c, c] (x ++ c :: y) = (contains [c, c] x || contains [c, c] y) := by
  induction x with
  | nil => simp [contains_double_cons, hy]
  | cons a x ih =>
      rw [List.cons_append, contains_double_cons, contains_double_cons]
      cases x with
      | nil =>
          have hac : (a == c) = false := by simpa [endsWith_singleton] using hx
          simp [hac, contains_double_cons, hy]
      | cons b x =>
          rw [ih (by rwa [endsWith_cons (by simp)] at hx), Bool.or_assoc]
          rfl

/-- The first token is empty if the text is, or begins with the separator. -/
theorem head_splitOn_ne_nil {s first : Str} {rest : List Str}
    (h : s.splitOn c = first :: rest) :
    first ≠ [] ↔ s ≠ [] ∧ startsWith [c] s = false := by
  cases s with
  | nil =>
      obtain ⟨rfl, -⟩ : [] = first ∧ [] = rest := by simpa using h
      simp
  | cons a s =>
      rw [List.splitOn_cons_eq_if_modifyHead] at h
      by_cases hac : a = c
      · rw [if_pos (by simpa using hac)] at h
        cases h
        simp [hac]
      · rw [if_neg (by simpa using hac)] at h
        obtain ⟨other, tail, hSplit⟩ := List.exists_cons_of_ne_nil (List.splitOn_ne_nil c s)
        rw [hSplit] at h
        cases h
        simp [hac]

/-- The tokens after the first are not empty if no separator ends the text or is doubled. -/
theorem forall_tail_splitOn_ne_nil {s : Str} :
    (∀ token ∈ (s.splitOn c).tail, token ≠ []) ↔
      endsWith [c] s = false ∧ contains [c, c] s = false := by
  induction s with
  | nil => simp [endsWith]
  | cons a s ih =>
      obtain ⟨first, rest, hSplit⟩ := List.exists_cons_of_ne_nil (List.splitOn_ne_nil c s)
      have hFirst := head_splitOn_ne_nil hSplit
      rw [hSplit, List.tail_cons] at ih
      rw [List.splitOn_cons_eq_if_modifyHead, contains_double_cons, hSplit]
      by_cases hac : a = c
      · rw [if_pos (by simpa using hac), List.tail_cons, List.forall_mem_cons, hFirst, ih]
        by_cases hs : s = []
        · subst hs
          simp [endsWith_singleton, hac]
        · simp [hs, hac, endsWith_cons hs, and_left_comm]
      · rw [if_neg (by simpa using hac), List.modifyHead_cons, List.tail_cons, ih]
        by_cases hs : s = []
        · subst hs
          simp [endsWith_singleton, hac]
        · simp [hac, endsWith_cons hs]

/-- Which texts have no empty token. -/
theorem forall_splitOn_ne_nil {s : Str} :
    (∀ token ∈ s.splitOn c, token ≠ []) ↔
      (s ≠ [] ∧ startsWith [c] s = false ∧ endsWith [c] s = false) ∧
        contains [c, c] s = false := by
  obtain ⟨first, rest, hSplit⟩ := List.exists_cons_of_ne_nil (List.splitOn_ne_nil c s)
  have hTail := forall_tail_splitOn_ne_nil (c := c) (s := s)
  rw [hSplit, List.tail_cons] at hTail
  rw [hSplit, List.forall_mem_cons, head_splitOn_ne_nil hSplit, hTail]
  simp only [and_assoc]

end EventFs.Library.Text
