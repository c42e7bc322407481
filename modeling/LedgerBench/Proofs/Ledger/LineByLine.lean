import LedgerBench.Proofs.Ledger.LogText
import Mathlib.Data.List.Nodup

/-!
# Logs are read line by line

What is read from a text depends on each of its lines alone (`Log.read_lineByLine`). Either every
line that is not blank is a record, and the records are the entries, each with the number of its
line; or the first line that is neither blank nor a record is the fault, whatever follows it
(`Log.ReadEnds`). So texts can be put together at the end of a line, where the numbers of the second
one go on from the first, and a carriage return before each line feed changes no number.

`Log.Written` is a line with its number, and the numbered lines of a text are these in ascending
order (`Log.mem_numberedLines`, `Log.pairwise_numberedLines`). Numbers that are moved and causes of
faults that are forgotten are operations on the result of one line; `mapM` hands them on to the
result of all lines (`mapM_mapError`, `mapM_map`).
-/

namespace LedgerBench

/-! ## Results of many items -/

section Results

variable {ε ε' α β γ : Type}

/-- The fault of a list of items is changed by changing the faults of its items. -/
theorem mapM_mapError (f : α → Except ε β) (g : ε → ε') (items : List α) :
    items.mapM (fun x => (f x).mapError g) = (items.mapM f).mapError g := by
  induction items with
  | nil => rfl
  | cons x items ih =>
    rw [List.mapM_cons, List.mapM_cons, ih]
    cases f x with
    | error e => rfl
    | ok y => cases items.mapM f <;> rfl

/-- The results of a list of items are changed by changing the results of its items. -/
theorem mapM_map (f : α → Except ε β) (g : β → γ) (items : List α) :
    items.mapM (fun x => (f x).map g) = (items.mapM f).map (List.map g) := by
  induction items with
  | nil => rfl
  | cons x items ih =>
    rw [List.mapM_cons, List.mapM_cons, ih]
    cases f x with
    | error e => rfl
    | ok y => cases items.mapM f <;> rfl

end Results

namespace Log

variable {text : String} {n : ℕ} {line : List Char} {result : Except LineFault (List Entry)}

/-! ## Lines with their numbers -/

/-- The line with this number, counted from one among all lines of the text, is not blank. -/
structure Written (text : String) (n : ℕ) (line : List Char) : Prop where
  /-- Line one is the first. -/
  one_le : 1 ≤ n
  /-- It is a line of the text. -/
  getElem? : (Text.lines text.toList)[n - 1]? = some line
  /-- It is not blank. -/
  isBlankLine : Log.isBlankLine line = false

/-- The numbered lines are those that are not blank. -/
theorem mem_numberedLines : (line, n) ∈ numberedLines text.toList ↔ Written text n line := by
  unfold numberedLines
  rw [List.mem_filter, List.mk_mem_zipIdx_iff_le_and_getElem?_sub]
  constructor
  · rintro ⟨⟨hn, hline⟩, hblank⟩
    exact ⟨hn, hline, by simpa using hblank⟩
  · rintro ⟨hn, hline, hblank⟩
    exact ⟨⟨hn, hline⟩, by simpa using hblank⟩

/-- The numbers ascend. -/
theorem pairwise_numberedLines (text : String) :
    (numberedLines text.toList).Pairwise fun x y => x.2 < y.2 := by
  have hnumbers : (((Text.lines text.toList).zipIdx 1).map Prod.snd).Pairwise (· < ·) := by
    rw [List.zipIdx_map_snd]
    exact List.pairwise_lt_range' 1
  exact (List.pairwise_map.mp hnumbers).filter _

/-! ## How reading ends -/

/-- How reading a text ends. -/
inductive ReadEnds (text : String) : Except LineFault (List Entry) → Prop where
  /-- Every line that is not blank is a record. The entries are these records with the numbers of
  their lines, in ascending order. -/
  | read {entries : List Entry}
    (valid : ∀ n line, Written text n line → ∃ r, Record.read line = .ok r)
    (mem : ∀ n r, ⟨n, r⟩ ∈ entries ↔ ∃ line, Written text n line ∧ Record.read line = .ok r)
    (ascending : entries.Pairwise fun e e' => e.line < e'.line) : ReadEnds text (.ok entries)
  /-- A line is no record, and all lines before it are blank or records. -/
  | refused {n : ℕ} {line : List Char} {cause : JsonFault} (written : Written text n line)
    (invalid : Record.read line = .error cause)
    (first : ∀ m line', Written text m line' → m < n → ∃ r, Record.read line' = .ok r) :
    ReadEnds text (.error ⟨n, cause⟩)

/-- Lines that have entries are records. -/
theorem exists_record {lines : List (List Char × ℕ)} {entries : List Entry}
    (h : List.Forall₂ (fun x entry => readLine x = .ok entry) lines entries)
    (hline : (line, n) ∈ lines) : ∃ r, Record.read line = .ok r := by
  obtain ⟨entry, -, hread⟩ := exists_of_mem_results h.flip hline
  obtain ⟨r, hr, -⟩ := readLine_eq_ok_iff.mp hread
  exact ⟨r, hr⟩

/-- Entries come from the numbered lines that are records. -/
theorem mem_entries {entries : List Entry} (h : read text = .ok entries) {entry : Entry} :
    entry ∈ entries ↔ ∃ line n, Written text n line ∧ readLine (line, n) = .ok entry := by
  have hall := mapM_eq_ok.mp h
  constructor
  · intro hentry
    obtain ⟨⟨line, n⟩, hline, hread⟩ := exists_of_mem_results hall hentry
    exact ⟨line, n, mem_numberedLines.mp hline, hread⟩
  · rintro ⟨line, n, hwritten, hread⟩
    obtain ⟨entry', hentry', hread'⟩ :=
      exists_of_mem_results hall.flip (mem_numberedLines.mpr hwritten)
    cases hread.symm.trans hread'
    exact hentry'

/-- Entries have ascending numbers. -/
theorem pairwise_entries {entries : List Entry} (h : read text = .ok entries) :
    entries.Pairwise fun e e' => e.line < e'.line := by
  have hnumbers : (numberedLines text.toList).map Prod.snd = entries.map Entry.line := by
    rw [← List.forall₂_eq_eq_eq, List.forall₂_map_left_iff, List.forall₂_map_right_iff]
    refine (mapM_eq_ok.mp h).imp fun x entry hread => ?_
    obtain ⟨r, -, rfl⟩ := readLine_eq_ok_iff.mp hread
    rfl
  have hascending := List.pairwise_map.mpr (pairwise_numberedLines text)
  rw [hnumbers] at hascending
  exact List.pairwise_map.mp hascending

/-- Reading a text ends in one of these ways. -/
theorem readEnds (text : String) : ReadEnds text (read text) := by
  cases hread : read text with
  | ok entries =>
    refine .read (fun n line hwritten => ?_) (fun n r => ?_) (pairwise_entries hread)
    · exact exists_record (mapM_eq_ok.mp hread) (mem_numberedLines.mpr hwritten)
    · rw [mem_entries hread]
      constructor
      · rintro ⟨line, n', hwritten, hline⟩
        obtain ⟨r', hr, heq⟩ := readLine_eq_ok_iff.mp hline
        cases heq
        exact ⟨line, hwritten, hr⟩
      · rintro ⟨line, hwritten, hr⟩
        exact ⟨line, n, hwritten, readLine_eq_ok_iff.mpr ⟨r, hr, rfl⟩⟩
  | error fault =>
    obtain ⟨front, ⟨line, n⟩, back, entries, hcut, hfront, hfault⟩ := mapM_eq_error.mp hread
    obtain ⟨cause, hinvalid, rfl⟩ := readLine_eq_error_iff.mp hfault
    have hascending := pairwise_numberedLines text
    have hmem : (line, n) ∈ numberedLines text.toList := by
      rw [hcut]
      exact List.mem_append_right front List.mem_cons_self
    refine .refused (mem_numberedLines.mp hmem) hinvalid fun m line' hwritten hlt => ?_
    have hmem' := mem_numberedLines.mpr hwritten
    rw [hcut] at hmem' hascending
    rcases List.mem_append.mp hmem' with hbefore | hafter
    · -- lines before the fault have been read
      exact exists_record hfront hbefore
    · -- lines from the fault on have larger numbers
      obtain ⟨hlarger, -⟩ := List.pairwise_cons.mp (List.pairwise_append.mp hascending).2.1
      rcases List.mem_cons.mp hafter with heq | hback
      · cases heq
        exact absurd hlt (lt_irrefl _)
      · exact absurd hlt (hlarger _ hback).not_gt

/-- There is one way in which reading a text ends. -/
theorem ReadEnds.unique {result' : Except LineFault (List Entry)} (h : ReadEnds text result)
    (h' : ReadEnds text result') : result = result' := by
  cases h with
  | @read entries valid mem ascending =>
    cases h' with
    | @read entries' valid' mem' ascending' =>
      -- the same entries, and only one order of them ascends
      have hirrefl : Std.Irrefl fun e e' : Entry => e.line < e'.line := ⟨fun e => lt_irrefl e.line⟩
      have hperm : entries.Perm entries' :=
        (List.perm_ext_iff_of_nodup ascending.nodup ascending'.nodup).mpr fun ⟨n, r⟩ =>
          (mem n r).trans (mem' n r).symm
      rw [hperm.eq_of_pairwise (fun e e' _ _ hlt hgt => absurd hlt hgt.not_gt) ascending ascending']
    | refused written' invalid' first' =>
      obtain ⟨r, hr⟩ := valid _ _ written'
      cases hr.symm.trans invalid'
  | @refused n line cause written invalid first =>
    cases h' with
    | read valid' mem' ascending' =>
      obtain ⟨r, hr⟩ := valid' _ _ written
      cases hr.symm.trans invalid
    | @refused n' line' cause' written' invalid' first' =>
      -- neither line comes before the other
      rcases lt_trichotomy n n' with hlt | rfl | hgt
      · obtain ⟨r, hr⟩ := first' _ _ written hlt
        cases hr.symm.trans invalid
      · cases written.getElem?.symm.trans written'.getElem?
        cases invalid.symm.trans invalid'
        rfl
      · obtain ⟨r, hr⟩ := first _ _ written' hgt
        cases hr.symm.trans invalid'

/-- A text is read to its end if all lines that are not blank are records. -/
theorem exists_read_iff : (∃ entries, read text = .ok entries) ↔
    ∀ n line, Written text n line → ∃ r, Record.read line = .ok r := by
  constructor
  · rintro ⟨entries, hread⟩
    intro n line hwritten
    exact exists_record (mapM_eq_ok.mp hread) (mem_numberedLines.mpr hwritten)
  · intro hvalid
    have hends := readEnds text
    cases hread : read text with
    | ok entries => exact ⟨entries, rfl⟩
    | error fault =>
      rw [hread] at hends
      cases hends with
      | refused written invalid first =>
        obtain ⟨r, hr⟩ := hvalid _ _ written
        cases hr.symm.trans invalid

/-! ## Texts put together -/

/-- The result of reading with the numbers of all lines moved on. -/
def movedOn (k : ℕ) (result : Except LineFault (List Entry)) : Except LineFault (List Entry) :=
  (result.mapError fun fault => ⟨fault.line + k, fault.cause⟩).map
    (List.map fun entry => ⟨entry.line + k, entry.record⟩)

/-- A line with a number that is moved on is read with this number. -/
theorem readLine_add (line : List Char) (n k : ℕ) : readLine (line, n + k) =
    ((readLine (line, n)).mapError fun fault => LineFault.mk (fault.line + k) fault.cause).map
      fun entry => ⟨entry.line + k, entry.record⟩ := by
  unfold readLine
  cases Record.read line <;> rfl

/-- Lines whose numbers are moved on are read as without, but for the numbers. -/
theorem mapM_readLine_numberedFrom (k : ℕ) (ls : List (List Char)) :
    (numberedFrom (1 + k) ls).mapM readLine = movedOn k ((numberedFrom 1 ls).mapM readLine) := by
  have hnumbered : numberedFrom (1 + k) ls = (numberedFrom 1 ls).map fun x => (x.1, x.2 + k) := by
    unfold numberedFrom
    rw [Nat.add_comm, ← List.map_snd_add_zipIdx_eq_zipIdx, List.filter_map]
    rfl
  rw [hnumbered, List.mapM_map]
  unfold movedOn
  rw [← mapM_mapError, ← mapM_map]
  exact congrArg (fun f => (numberedFrom 1 ls).mapM f) (funext fun x => readLine_add x.1 x.2 k)

/-- A text behind one that stops at the end of a line is read as if it stood alone, but for the
numbers of its lines. -/
theorem read_append {front : String} (h : Text.EndsLine front.toList) (back : String) :
    read (front ++ back) = do
      let entries ← read front
      let entries' ← movedOn (Text.lines front.toList).length (read back)
      return entries ++ entries' := by
  unfold read
  rw [String.toList_append, numberedLines_eq, h.lines_append, numberedFrom_append,
    List.mapM_append, mapM_readLine_numberedFrom]
  rfl

/-! ## Carriage returns -/

/-- A line and the line without a carriage return are read alike, or are faults of the same line. -/
theorem mapError_readLine_withoutReturn (line : List Char) (n : ℕ) :
    (readLine (Text.withoutReturn line, n)).mapError LineFault.line =
      (readLine (line, n)).mapError LineFault.line := by
  unfold readLine
  dsimp only
  cases hread : Record.read line with
  | ok r => rw [Record.read_withoutReturn.mpr hread]
  | error cause =>
    cases hread' : Record.read (Text.withoutReturn line) with
    | ok r => cases hread.symm.trans (Record.read_withoutReturn.mp hread')
    | error cause' => rfl

/-- Lines are read alike without their carriage returns, or the fault is in the same line. -/
theorem mapError_mapM_withoutReturn (n : ℕ) (ls tail : List (List Char)) :
    ((numberedFrom n (ls.map Text.withoutReturn ++ tail)).mapM readLine).mapError LineFault.line =
      ((numberedFrom n (ls ++ tail)).mapM readLine).mapError LineFault.line := by
  have hstripped : numberedFrom n (ls.map Text.withoutReturn) =
      (numberedFrom n ls).map fun x => (Text.withoutReturn x.1, x.2) := by
    unfold numberedFrom
    rw [List.zipIdx_map, List.filter_map]
    simp only [Function.comp_def, Prod.map_fst, isBlankLine_withoutReturn]
    rfl
  have halike : (fun x => (readLine (Text.withoutReturn x.1, x.2)).mapError LineFault.line) =
      fun x => (readLine x).mapError LineFault.line :=
    funext fun x => mapError_readLine_withoutReturn x.1 x.2
  rw [numberedFrom_append, numberedFrom_append, List.length_map, hstripped, ← mapM_mapError,
    ← mapM_mapError, List.mapM_append, List.mapM_append, List.mapM_map]
  unfold Function.comp
  rw [halike]

/-- With a carriage return before each line feed a text is read as without, or the fault is in the
same line. -/
theorem mapError_read_withReturns (text : String) :
    (read (.ofList (Text.withReturns text.toList))).mapError LineFault.line =
      (read text).mapError LineFault.line := by
  obtain ⟨ls, tail, hlines, hreturns⟩ := Text.lines_withReturns text.toList
  unfold read
  rw [String.toList_ofList, numberedLines_eq, numberedLines_eq, hlines, hreturns,
    mapError_mapM_withoutReturn]

/-! ## Reading -/

/-- Logs are read line by line. Reading a text ends with the records of all lines that are not
blank, exactly if each of these lines is a record by itself, or else with the first line that is
none. A text behind others that stop at the end of a line goes on with their numbers. With a
carriage return before each line feed the records and their numbers, or the number of the line that
is none, stay the same. -/
theorem read_lineByLine (text : String) {front : String} (h : Text.EndsLine front.toList)
    (back : String) :
    (∀ result, read text = result ↔ ReadEnds text result) ∧
      ((∃ entries, read text = .ok entries) ↔
        ∀ n line, Written text n line → ∃ r, Record.read line = .ok r) ∧
      (read (front ++ back) = do
        let entries ← read front
        let entries' ← movedOn (Text.lines front.toList).length (read back)
        return entries ++ entries') ∧
      (read (.ofList (Text.withReturns text.toList))).mapError LineFault.line =
        (read text).mapError LineFault.line := by
  refine ⟨fun result => ?_, exists_read_iff, read_append h back, mapError_read_withReturns text⟩
  constructor
  · rintro rfl
    exact readEnds text
  · exact (readEnds text).unique

/-- Two records after a blank line; one of them has a carriage return at its end. -/
def twoRecords : String := " \n[\"a\",\"b\"]\r\n[\"c\",\"d\",null]\n"

/-- A text behind these records that is cut off in its second line is cut off in the fifth line of
the whole, also with more carriage returns. -/
theorem read_lineByLine_twoRecords :
    Text.EndsLine twoRecords.toList ∧
      ReadEnds (twoRecords ++ "\t\n[") (.error ⟨5, .truncated⟩) ∧
        (read (.ofList (Text.withReturns (twoRecords ++ "\t\n[").toList))).mapError
          LineFault.line = .error 5 := by
  have hfront : Text.EndsLine twoRecords.toList := .inr (by decide)
  obtain ⟨hends, -, happend, hreturns⟩ :=
    read_lineByLine (twoRecords ++ "\t\n[") hfront "\t\n["
  have hread : read (twoRecords ++ "\t\n[") = .error ⟨5, .truncated⟩ := by
    rw [happend]
    rfl
  refine ⟨hfront, (hends _).mp hread, ?_⟩
  rw [hreturns, hread]
  rfl

end Log

end LedgerBench
