import Mathlib.Data.Nat.Notation
import Mathlib.Data.List.Infix
import Mathlib.Data.List.Forall2

/-!
# The lines of a text that arrives in pieces

A text over an arbitrary alphabet is cut at a separator. `completeLines` are the lines that were
ended, `openLine` is what follows the last separator. Both carry the line that was open before, so
that a text can be read piece by piece (`completeLines_append`, `openLine_append`).
-/

namespace LineStream
variable {α : Type} [DecidableEq α] (nl : α)

/-- The lines that `text` completes when `line` was open before it. -/
def completeLines : List α → List α → List (List α)
  | _, [] => []
  | line, c :: text =>
    if c = nl then line :: completeLines [] text else completeLines (line ++ [c]) text

/-- The line that is open after `text` when `line` was open before it. -/
def openLine : List α → List α → List α
  | line, [] => line
  | line, c :: text => if c = nl then openLine [] text else openLine (line ++ [c]) text

/-- The complete lines that have a symbol. -/
def filledLines (line text : List α) : List (List α) :=
  (completeLines nl line text).filter (· ≠ [])

variable {nl}

theorem completeLines_append (line x y : List α) :
    completeLines nl line (x ++ y) =
      completeLines nl line x ++ completeLines nl (openLine nl line x) y := by
  induction x generalizing line with
  | nil => rfl
  | cons c x ih =>
    by_cases hc : c = nl
    · simp only [List.cons_append, completeLines, openLine, if_pos hc, ih]
    · simp only [List.cons_append, completeLines, openLine, if_neg hc, ih]

theorem openLine_append (line x y : List α) :
    openLine nl line (x ++ y) = openLine nl (openLine nl line x) y := by
  induction x generalizing line with
  | nil => rfl
  | cons c x ih =>
    by_cases hc : c = nl
    · simp only [List.cons_append, openLine, if_pos hc, ih]
    · simp only [List.cons_append, openLine, if_neg hc, ih]

theorem filledLines_append (line x y : List α) :
    filledLines nl line (x ++ y) =
      filledLines nl line x ++ filledLines nl (openLine nl line x) y := by
  rw [filledLines, completeLines_append, List.filter_append]
  rfl

theorem completeLines_of_notMem {x : List α} (hx : nl ∉ x) (line : List α) :
    completeLines nl line x = [] := by
  induction x generalizing line with
  | nil => rfl
  | cons c x ih =>
    obtain ⟨hc, hx⟩ := not_or.mp fun h => hx (List.mem_cons.mpr h)
    rw [completeLines, if_neg (Ne.symm hc), ih hx]

theorem openLine_of_notMem {x : List α} (hx : nl ∉ x) (line : List α) :
    openLine nl line x = line ++ x := by
  induction x generalizing line with
  | nil => simp [openLine]
  | cons c x ih =>
    obtain ⟨hc, hx⟩ := not_or.mp fun h => hx (List.mem_cons.mpr h)
    rw [openLine, if_neg (Ne.symm hc), ih hx, List.append_assoc, List.singleton_append]

/-- A text without an open line before it is the open line followed by the rest. -/
theorem completeLines_open {line : List α} (hline : nl ∉ line) (text : List α) :
    completeLines nl [] (line ++ text) = completeLines nl line text := by
  rw [completeLines_append, completeLines_of_notMem hline, openLine_of_notMem hline]
  rfl

theorem openLine_open {line : List α} (hline : nl ∉ line) (text : List α) :
    openLine nl [] (line ++ text) = openLine nl line text := by
  rw [openLine_append, openLine_of_notMem hline]
  rfl

theorem notMem_openLine {line : List α} (hline : nl ∉ line) (text : List α) :
    nl ∉ openLine nl line text := by
  induction text generalizing line with
  | nil => exact hline
  | cons c text ih =>
    rw [openLine]
    split
    · exact ih List.not_mem_nil
    · rename_i hc
      refine ih ?_
      rw [List.mem_append, List.mem_singleton]
      exact not_or.mpr ⟨hline, Ne.symm hc⟩

/-- The first separator ends the first line. -/
theorem completeLines_first {line x : List α} (hx : nl ∉ x) (text : List α) :
    completeLines nl line (x ++ nl :: text) = (line ++ x) :: completeLines nl [] text := by
  rw [completeLines_append, completeLines_of_notMem hx, openLine_of_notMem hx, completeLines,
    if_pos rfl, List.nil_append]

theorem openLine_first (line x text : List α) :
    openLine nl line (x ++ nl :: text) = openLine nl [] text := by
  rw [openLine_append, openLine, if_pos rfl]

theorem line_length_le {n : ℕ} {line text : List α}
    (hlines : ∀ l ∈ completeLines nl line text, l.length ≤ n)
    (hopen : (openLine nl line text).length ≤ n) : line.length ≤ n := by
  induction text generalizing line with
  | nil => exact hopen
  | cons c text ih =>
    by_cases hc : c = nl
    · rw [completeLines, if_pos hc] at hlines
      exact hlines line List.mem_cons_self
    · rw [completeLines, if_neg hc] at hlines
      rw [openLine, if_neg hc] at hopen
      have hlonger := ih hlines hopen
      rw [List.length_append] at hlonger
      omega

theorem notMem_of_filledLines {line text : List α} (hline : line ≠ [])
    (h : filledLines nl line text = []) : nl ∉ text := by
  induction text generalizing line with
  | nil => exact List.not_mem_nil
  | cons c text ih =>
    by_cases hc : c = nl
    · rw [filledLines, completeLines, if_pos hc, List.filter_cons, if_pos (by simpa using hline)] at h
      cases h
    · rw [filledLines, completeLines, if_neg hc] at h
      rw [List.mem_cons]
      exact not_or.mpr ⟨Ne.symm hc, ih (by simp) h⟩

/-- Without a filled line everything but the separators at the start is still open. -/
theorem openLine_of_filledLines {line text : List α} (h : filledLines nl line text = []) :
    openLine nl line text =
      line ++ if line = [] then text.dropWhile (· = nl) else text := by
  by_cases hline : line = []
  · subst hline
    rw [if_pos rfl, List.nil_append]
    induction text with
    | nil => rfl
    | cons c text ih =>
      by_cases hc : c = nl
      · rw [openLine, if_pos hc, List.dropWhile_cons_of_pos (by simpa using hc)]
        refine ih ?_
        simpa [filledLines, completeLines, hc] using h
      · rw [openLine, if_neg hc, List.dropWhile_cons_of_neg (by simpa using hc)]
        rw [filledLines, completeLines, if_neg hc] at h
        exact openLine_of_notMem (notMem_of_filledLines (List.cons_ne_nil c []) h) [c]
  · rw [if_neg hline]
    exact openLine_of_notMem (notMem_of_filledLines hline h) line

/-- Separators at the start of a line add only empty lines. -/
theorem filledLines_dropWhile (text : List α) :
    filledLines nl [] (text.dropWhile (· = nl)) = filledLines nl [] text := by
  induction text with
  | nil => rfl
  | cons c text ih =>
    by_cases hc : c = nl
    · rw [List.dropWhile_cons_of_pos (by simpa using hc), ih]
      simp [filledLines, completeLines, hc]
    · rw [List.dropWhile_cons_of_neg (by simpa using hc)]

theorem openLine_dropWhile (text : List α) :
    openLine nl [] (text.dropWhile (· = nl)) = openLine nl [] text := by
  induction text with
  | nil => rfl
  | cons c text ih =>
    by_cases hc : c = nl
    · rw [List.dropWhile_cons_of_pos (by simpa using hc), ih, openLine, if_pos hc]
    · rw [List.dropWhile_cons_of_neg (by simpa using hc)]

/-- An open line loses no line that has a symbol. -/
theorem filledLines_length_mono {line line' : List α} (h : line' ≠ [] → line ≠ [])
    (text : List α) :
    (filledLines nl line' text).length ≤ (filledLines nl line text).length := by
  induction text generalizing line line' with
  | nil => exact le_rfl
  | cons c text ih =>
    by_cases hc : c = nl
    · have hsame (l : List α) : (filledLines nl l (c :: text)).length =
          (if l ≠ [] then 1 else 0) + (filledLines nl [] text).length := by
        simp only [filledLines, completeLines, if_pos hc, List.filter_cons]
        by_cases hl : l = []
        · simp [hl]
        · simp [hl, Nat.add_comm]
      rw [hsame, hsame]
      by_cases hl : line' = []
      · rw [if_neg (not_not.mpr hl)]
        omega
      · rw [if_pos hl, if_pos (h hl)]
    · have hstep (l : List α) :
          filledLines nl l (c :: text) = filledLines nl (l ++ [c]) text := by
        simp only [filledLines, completeLines, if_neg hc]
      rw [hstep, hstep]
      exact ih fun _ => by simp

theorem length_completeLines (line text : List α) :
    (completeLines nl line text).length = text.count nl := by
  induction text generalizing line with
  | nil => rfl
  | cons c text ih =>
    by_cases hc : c = nl
    · rw [completeLines, if_pos hc, List.length_cons, ih, hc, List.count_cons_self]
    · rw [completeLines, if_neg hc, ih, List.count_cons_of_ne hc]

/-- A complete line is shorter than the text that contains its separator. -/
theorem length_lt_of_mem_completeLines {line text l : List α}
    (hl : l ∈ completeLines nl line text) : l.length < line.length + text.length := by
  induction text generalizing line with
  | nil => cases hl
  | cons c text ih =>
    rw [List.length_cons]
    by_cases hc : c = nl
    · rw [completeLines, if_pos hc, List.mem_cons] at hl
      rcases hl with rfl | hl
      · omega
      · have hlater := ih hl
        rw [List.length_nil] at hlater
        omega
    · rw [completeLines, if_neg hc] at hl
      have hlonger := ih hl
      rw [List.length_append, List.length_singleton] at hlonger
      omega

/-- What was lost of the open line is missing at the start of the line it becomes. -/
theorem completeLines_suffix {line line' : List α} (h : line' <:+ line) (text : List α) :
    List.Forall₂ (· <:+ ·) (completeLines nl line' text) (completeLines nl line text) := by
  induction text generalizing line line' with
  | nil => exact .nil
  | cons c text ih =>
    by_cases hc : c = nl
    · simp only [completeLines, if_pos hc]
      exact .cons h (ih (List.suffix_refl []))
    · simp only [completeLines, if_neg hc]
      obtain ⟨lost, rfl⟩ := h
      exact ih ⟨lost, (List.append_assoc lost line' [c]).symm⟩

theorem openLine_suffix {line line' : List α} (h : line' <:+ line) (text : List α) :
    openLine nl line' text <:+ openLine nl line text := by
  induction text generalizing line line' with
  | nil => exact h
  | cons c text ih =>
    by_cases hc : c = nl
    · simp only [openLine, if_pos hc]
      exact ih (List.suffix_refl [])
    · simp only [openLine, if_neg hc]
      obtain ⟨lost, rfl⟩ := h
      exact ih ⟨lost, (List.append_assoc lost line' [c]).symm⟩

/-- Without the separators at its start a text has parts of the lines it had. -/
theorem completeLines_dropWhile (line text : List α) :
    List.SublistForall₂ (· <:+: ·) (completeLines nl [] (text.dropWhile (· = nl)))
      (completeLines nl line text) := by
  induction text generalizing line with
  | nil => exact .nil
  | cons c text ih =>
    by_cases hc : c = nl
    · rw [List.dropWhile_cons_of_pos (by simpa using hc), completeLines, if_pos hc]
      exact .cons_right (ih [])
    · rw [List.dropWhile_cons_of_neg (by simpa using hc), List.sublistForall₂_iff]
      have hparts : List.Forall₂ (· <:+ ·) (completeLines nl [] (c :: text))
          (completeLines nl line (c :: text)) := completeLines_suffix List.nil_suffix (c :: text)
      exact ⟨_, hparts.imp fun _ _ h => h.isInfix, List.Sublist.refl _⟩

end LineStream
