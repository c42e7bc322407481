import LedgerBench.Text.Lines

/-!
# Texts as they are written line by line

`Text.lines` cuts a text; this module starts from lines and puts them into a text. `HasLines` says
that a text consists of some lines: a line feed stands behind each of them, or behind each but the
last. The lines that are cut from such a text are these lines again, up to two details
(`lines_of_hasLines`): a carriage return before a line feed is taken off, and an empty piece behind
the last line feed is no line. `EndsLine.lines_append` puts the lines of two texts together, and
`lines_withReturns` compares a text with the same text written with carriage returns.

The two details are all that a text loses: its lines with a line feed between them are the text
again exactly when it has no line feed at its end and no carriage return before a line feed
(`joined_lines_eq_iff`).
-/

namespace LedgerBench.Text

/-- The text of some lines with a line feed behind each. -/
def terminated (ls : List (List Char)) : List Char := ls.flatMap (· ++ ['\n'])

/-- The first line stands before the others and what follows them. -/
theorem terminated_cons_append (l : List Char) (ls : List (List Char)) (rest : List Char) :
    terminated (l :: ls) ++ rest = l ++ '\n' :: (terminated ls ++ rest) := by
  simp [terminated]

/-- The last line stands behind the others. -/
theorem terminated_concat (ls : List (List Char)) (l : List Char) :
    terminated (ls ++ [l]) = (terminated ls ++ l) ++ ['\n'] := by
  simp [terminated]

/-- The text consists of these lines; the line feed behind the last one may be missing. A carriage
return at the end of a line is a character of it here. -/
structure HasLines (text : List Char) (ls : List (List Char)) : Prop where
  /-- A line feed stands between lines only. -/
  unbroken : ∀ l ∈ ls, '\n' ∉ l
  /-- The lines are written one after the other. -/
  written : text = terminated ls ∨ text ++ ['\n'] = terminated ls

/-- Every text consists of the pieces between its line feeds. -/
theorem hasLines_splitOn (text : List Char) : HasLines text (text.splitOn '\n') := by
  suffices h : (∀ l ∈ text.splitOn '\n', '\n' ∉ l) ∧
      text ++ ['\n'] = terminated (text.splitOn '\n') from ⟨h.1, .inr h.2⟩
  induction text with
  | nil => exact ⟨by simp, rfl⟩
  | cons c text ih =>
    obtain ⟨hunbroken, hwritten⟩ := ih
    rw [List.splitOn_cons_eq_if_modifyHead]
    cases hpieces : text.splitOn '\n' with
    | nil => exact absurd hpieces (List.splitOn_ne_nil '\n' text)
    | cons piece pieces =>
      rw [hpieces] at hunbroken hwritten
      by_cases hc : c = '\n'
      · subst hc
        rw [if_pos (beq_self_eq_true _)]
        refine ⟨fun l hl => ?_, ?_⟩
        · rcases List.mem_cons.mp hl with rfl | hl
          · exact List.not_mem_nil
          · exact hunbroken l hl
        · rw [List.cons_append, hwritten]
          rfl
      · -- the character belongs to the first piece
        rw [if_neg (by simpa using hc), List.modifyHead_cons]
        refine ⟨fun l hl => ?_, ?_⟩
        · rcases List.mem_cons.mp hl with rfl | hl
          · exact List.not_mem_cons_of_ne_of_not_mem (Ne.symm hc) (hunbroken piece (.head _))
          · exact hunbroken l (.tail _ hl)
        · rw [List.cons_append, hwritten]
          rfl

/-- A text without a line feed is one line, if it is not empty. -/
theorem lines_of_not_mem {l : List Char} (h : '\n' ∉ l) :
    lines l = if l.isEmpty then [] else [l] := by
  unfold lines linesOfPieces
  rw [List.splitOn_eq_singleton h]
  rfl

/-- A line with its line feed is one line. -/
theorem lines_concat {l : List Char} (h : '\n' ∉ l) : lines (l ++ ['\n']) = [withoutReturn l] := by
  unfold lines linesOfPieces
  rw [List.splitOn_append_cons_self, List.splitOn_eq_singleton h]
  rfl

/-- Lines that are written one after the other are cut again. -/
theorem lines_terminated_append {ls : List (List Char)} (h : ∀ l ∈ ls, '\n' ∉ l)
    (rest : List Char) : lines (terminated ls ++ rest) = ls.map withoutReturn ++ lines rest := by
  induction ls with
  | nil => rfl
  | cons l ls ih =>
    have hl : '\n' ∉ l := h l List.mem_cons_self
    rw [terminated_cons_append, lines_append, lines_concat hl,
      ih fun l' hl' => h l' (List.mem_cons_of_mem _ hl')]
    rfl

/-- The lines of a text that consists of some lines are these without the returns at their ends. The
last one keeps its return if no line feed follows, and is no line if it is empty as well. -/
theorem lines_of_hasLines {text : List Char} {ls : List (List Char)} (h : HasLines text ls) :
    lines text = ls.map withoutReturn ∨
      ∃ front last, ls = front ++ [last] ∧
        lines text = front.map withoutReturn ++ if last.isEmpty then [] else [last] := by
  rcases h.written with rfl | hopen
  · left
    have hall := lines_terminated_append h.unbroken []
    rwa [List.append_nil, lines_nil, List.append_nil] at hall
  · right
    rcases ls.eq_nil_or_concat with rfl | ⟨front, last, rfl⟩
    · exact absurd hopen (List.append_ne_nil_of_right_ne_nil text (List.cons_ne_nil _ _))
    · rw [List.concat_eq_append] at h hopen ⊢
      rw [terminated_concat] at hopen
      obtain rfl := List.append_cancel_right hopen
      refine ⟨front, last, rfl, ?_⟩
      have hlast : '\n' ∉ last := h.unbroken last (List.mem_append_right front (.head _))
      rw [lines_terminated_append fun l hl => h.unbroken l (List.mem_append_left _ hl),
        lines_of_not_mem hlast]

/-! ## Ends of lines -/

/-- A text stops at the end of a line: it is empty, or a line feed stands at its end. -/
def EndsLine (text : List Char) : Prop := text = [] ∨ text.getLast? = some '\n'

/-- If a text stops at the end of a line, the lines of what follows are lines of their own. -/
theorem EndsLine.lines_append {a : List Char} (h : EndsLine a) (b : List Char) :
    lines (a ++ b) = lines a ++ lines b := by
  rcases h with rfl | hlast
  · rfl
  · obtain ⟨front, rfl⟩ := List.getLast?_eq_some_iff.mp hlast
    rw [List.append_assoc]
    exact Text.lines_append front b

/-- Every text consists of lines with line feeds and of a rest without one. -/
theorem exists_terminated_append (text : List Char) : ∃ ls rest,
    (∀ l ∈ ls, '\n' ∉ l) ∧ '\n' ∉ rest ∧ text = terminated ls ++ rest := by
  obtain ⟨hunbroken, hclosed | hopen⟩ := hasLines_splitOn text
  · exact ⟨_, [], hunbroken, List.not_mem_nil, by rw [List.append_nil]; exact hclosed⟩
  · rcases (text.splitOn '\n').eq_nil_or_concat with hnil | ⟨front, last, hcut⟩
    · exact absurd hnil (List.splitOn_ne_nil '\n' text)
    · rw [List.concat_eq_append] at hcut
      rw [hcut] at hunbroken hopen
      rw [terminated_concat] at hopen
      exact ⟨front, last, fun l hl => hunbroken l (List.mem_append_left _ hl),
        hunbroken last (List.mem_append_right front (.head _)), List.append_cancel_right hopen⟩

/-- The text with a carriage return before each line feed. -/
def withReturns (text : List Char) : List Char :=
  text.flatMap fun c => if c = '\n' then ['\r', '\n'] else [c]

/-- Other characters than line feeds stay as they are. -/
theorem withReturns_append_of_not_mem {l : List Char} (h : '\n' ∉ l) (rest : List Char) :
    withReturns (l ++ rest) = l ++ withReturns rest := by
  induction l with
  | nil => rfl
  | cons c l ih =>
    rw [List.mem_cons, not_or] at h
    have hcons : ∀ text, withReturns (c :: text) = c :: withReturns text :=
      fun text => congrArg (· ++ withReturns text) (if_neg (Ne.symm h.1))
    rw [List.cons_append, hcons, ih h.2, List.cons_append]

/-- Every line gets its carriage return, whatever follows. -/
theorem withReturns_terminated_append {ls : List (List Char)} (h : ∀ l ∈ ls, '\n' ∉ l)
    (rest : List Char) : withReturns (terminated ls ++ rest) =
      terminated (ls.map (· ++ ['\r'])) ++ withReturns rest := by
  induction ls with
  | nil => rfl
  | cons l ls ih =>
    have hl : '\n' ∉ l := h l List.mem_cons_self
    have hfeed : ∀ text, withReturns ('\n' :: text) = '\r' :: '\n' :: withReturns text :=
      fun _ => rfl
    rw [terminated_cons_append, withReturns_append_of_not_mem hl, hfeed,
      ih fun l' hl' => h l' (List.mem_cons_of_mem _ hl'), List.map_cons, terminated_cons_append]
    simp

/-- With a carriage return before each line feed the lines keep the returns that they had at their
ends, but are the same otherwise. -/
theorem lines_withReturns (text : List Char) : ∃ ls tail,
    lines text = ls.map withoutReturn ++ tail ∧ lines (withReturns text) = ls ++ tail := by
  obtain ⟨ls, rest, hls, hrest, rfl⟩ := exists_terminated_append text
  have hreturns : ∀ l ∈ ls.map (· ++ ['\r']), '\n' ∉ l := by
    intro l hl
    obtain ⟨l', hl', rfl⟩ := List.mem_map.mp hl
    simpa using hls l' hl'
  have hstrip : (ls.map (· ++ ['\r'])).map withoutReturn = ls := by
    simp [withoutReturn, Function.comp_def]
  have hopen : withReturns rest = rest := by
    have hnil : withReturns [] = [] := rfl
    have happend := withReturns_append_of_not_mem hrest []
    rwa [hnil, List.append_nil] at happend
  refine ⟨ls, lines rest, lines_terminated_append hls rest, ?_⟩
  rw [withReturns_terminated_append hls, lines_terminated_append hreturns, hstrip, hopen]

/-- The line without its return consists of characters of the line. -/
theorem mem_of_mem_withoutReturn {l : List Char} {c : Char} (h : c ∈ withoutReturn l) : c ∈ l := by
  unfold withoutReturn at h
  split at h
  · exact List.dropLast_subset l h
  · exact h

/-- The lines of a text consist of its characters. -/
theorem mem_of_mem_lines {text line : List Char} (hline : line ∈ lines text) {c : Char}
    (hc : c ∈ line) : c ∈ text := by
  obtain ⟨ls, rest, hls, hrest, rfl⟩ := exists_terminated_append text
  rw [lines_terminated_append hls, lines_of_not_mem hrest] at hline
  rcases List.mem_append.mp hline with hclosed | hopen
  · obtain ⟨l, hl, rfl⟩ := List.mem_map.mp hclosed
    have hmem : c ∈ l ++ ['\n'] := List.mem_append_left _ (mem_of_mem_withoutReturn hc)
    exact List.mem_append_left rest (List.mem_flatMap.mpr ⟨l, hl, hmem⟩)
  · split at hopen
    · cases hopen
    · exact List.mem_append_right _ (List.mem_singleton.mp hopen ▸ hc)

/-! ## Joined lines -/

/-- The text of some lines with a line feed between them. -/
def joined (ls : List (List Char)) : List Char := ['\n'].intercalate ls

/-- Its lines tell the text: no line feed stands at its end, and no carriage return stands before a
line feed. -/
structure IsToldByLines (text : List Char) : Prop where
  /-- The last line has no line feed. -/
  isOpen : text.getLast? ≠ some '\n'
  /-- No line ends in a carriage return and a line feed. -/
  noReturn : ¬ ['\r', '\n'] <:+: text

/-- A line feed stands behind all lines but the last. -/
theorem joined_concat (ls : List (List Char)) (l : List Char) :
    joined (ls ++ [l]) = terminated ls ++ l := by
  induction ls with
  | nil => simp [joined, terminated]
  | cons l' ls ih =>
    rw [terminated_cons_append, ← ih]
    cases ls <;> simp [joined]

/-- Lines are told by their joined text. -/
theorem joined_inj {ls ls' : List (List Char)} (h : ∀ l ∈ ls, '\n' ∉ l) (hne : ls ≠ [])
    (h' : ∀ l ∈ ls', '\n' ∉ l) (hne' : ls' ≠ []) : joined ls = joined ls' ↔ ls = ls' := by
  refine ⟨fun heq => ?_, congrArg joined⟩
  have hcut := congrArg (List.splitOn '\n') heq
  rwa [joined, joined, List.splitOn_intercalate '\n' h hne,
    List.splitOn_intercalate '\n' h' hne'] at hcut

/-- A line stays as it is unless a carriage return stands at its end. -/
theorem withoutReturn_eq_iff {l : List Char} : withoutReturn l = l ↔ l.getLast? ≠ some '\r' := by
  unfold withoutReturn
  split
  case isTrue hreturn =>
    obtain ⟨front, rfl⟩ := List.getLast?_eq_some_iff.mp hreturn
    simp
  case isFalse hnone => simp [hnone]

/-- A carriage return stands before the first line feed, or before one that comes later. -/
theorem return_infix_iff {l : List Char} (h : '\n' ∉ l) (text : List Char) :
    ['\r', '\n'] <:+: l ++ '\n' :: text ↔ l.getLast? = some '\r' ∨ ['\r', '\n'] <:+: text := by
  induction l with
  | nil => simp [List.infix_cons_iff]
  | cons c l ih =>
    rw [List.mem_cons, not_or] at h
    rw [List.cons_append, List.infix_cons_iff, List.cons_prefix_cons, ih h.2]
    cases l with
    | nil => simp [eq_comm]
    | cons d l =>
      have hd : '\n' ≠ d := fun heq => h.2 (heq ▸ List.mem_cons_self)
      simp [List.cons_prefix_cons, hd]

/-- No carriage return stands before a line feed exactly when the closed lines stay as they are. -/
theorem noReturn_iff {ls : List (List Char)} (h : ∀ l ∈ ls, '\n' ∉ l) {rest : List Char}
    (hrest : '\n' ∉ rest) :
    ¬ ['\r', '\n'] <:+: terminated ls ++ rest ↔ ∀ l ∈ ls, withoutReturn l = l := by
  induction ls with
  | nil =>
    have hnone : ¬ ['\r', '\n'] <:+: rest := fun hreturn =>
      hrest (hreturn.subset (List.mem_cons_of_mem _ List.mem_cons_self))
    exact iff_of_true hnone (List.forall_mem_nil _)
  | cons l ls ih =>
    obtain ⟨hl, hls⟩ := List.forall_mem_cons.mp h
    rw [terminated_cons_append, return_infix_iff hl, not_or, ih hls, List.forall_mem_cons,
      withoutReturn_eq_iff]

/-- No line feed stands at the end exactly when something is left behind the closed lines. -/
theorem isOpen_iff {ls : List (List Char)} {rest : List Char} (hrest : '\n' ∉ rest) :
    (terminated ls ++ rest).getLast? ≠ some '\n' ↔ (rest = [] → ls = []) := by
  rcases rest.eq_nil_or_concat with rfl | ⟨front, c, rfl⟩
  · rcases ls.eq_nil_or_concat with rfl | ⟨front, l, rfl⟩ <;> simp [terminated]
  · have hc : c ≠ '\n' := by
      rintro rfl
      exact hrest (by simp)
    simp [hc]

/-- The lines tell the text exactly when the closed ones stay as they are and there is an open one
behind them. -/
theorem isToldByLines_iff {ls : List (List Char)} (h : ∀ l ∈ ls, '\n' ∉ l) {rest : List Char}
    (hrest : '\n' ∉ rest) : IsToldByLines (terminated ls ++ rest) ↔
      (∀ l ∈ ls, withoutReturn l = l) ∧ (rest = [] → ls = []) := by
  rw [← noReturn_iff h hrest, ← isOpen_iff hrest]
  exact ⟨fun told => ⟨told.noReturn, told.isOpen⟩, fun told => ⟨told.2, told.1⟩⟩

/-- The lines of a text, joined again, are the text exactly when they tell it. -/
theorem joined_lines_eq_iff (text : List Char) :
    joined (lines text) = text ↔ IsToldByLines text := by
  obtain ⟨ls, rest, hls, hrest, rfl⟩ := exists_terminated_append text
  have hcut : ∀ l ∈ ls.map withoutReturn, '\n' ∉ l := by
    intro l hl
    obtain ⟨l', hl', rfl⟩ := List.mem_map.mp hl
    exact fun hmem => hls l' hl' (mem_of_mem_withoutReturn hmem)
  have hpieces : ∀ l ∈ ls ++ [rest], '\n' ∉ l :=
    List.forall_mem_append.mpr ⟨hls, List.forall_mem_singleton.mpr hrest⟩
  have hne : ls ++ [rest] ≠ [] := List.append_ne_nil_of_right_ne_nil ls (List.cons_ne_nil _ _)
  rw [isToldByLines_iff hls hrest, lines_terminated_append hls, lines_of_not_mem hrest,
    ← joined_concat]
  rcases rest with _ | ⟨c, rest⟩
  · -- the empty rest is no line, so a line is missing
    rw [List.isEmpty_nil, if_pos rfl, List.append_nil]
    rcases ls with _ | ⟨l, ls⟩
    · exact iff_of_true rfl ⟨List.forall_mem_nil _, fun _ => rfl⟩
    · rw [joined_inj hcut (by simp) hpieces hne]
      refine iff_of_false (fun heq => ?_) (fun told => absurd (told.2 rfl) (List.cons_ne_nil l ls))
      have hlength := congrArg List.length heq
      simp at hlength
  · rw [List.isEmpty_cons, if_neg Bool.false_ne_true,
      joined_inj (List.forall_mem_append.mpr ⟨hcut, List.forall_mem_singleton.mpr hrest⟩)
        (by simp) hpieces hne, List.append_cancel_right_eq]
    have hsame : ls.map withoutReturn = ls ↔ ∀ l ∈ ls, withoutReturn l = l := by
      have hmap := List.map_eq_map_iff (f := withoutReturn) (g := id) (l := ls)
      rwa [List.map_id] at hmap
    rw [hsame]
    exact (and_iff_left fun hnil => absurd hnil (List.cons_ne_nil c rest)).symm

end LedgerBench.Text
