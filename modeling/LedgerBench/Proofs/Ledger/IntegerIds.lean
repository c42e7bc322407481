import LedgerBench.Proofs.Event.OneValue
import LedgerBench.Proofs.Ledger.LineByLine
import LedgerBench.Proofs.Time.WrittenForms

/-!
# Integers as names of transactions

Transactions are named by strings and by integers, in whatever way a client or a node writes them.
An integer that fits a word is read digit by digit, kept as an integer, and written again when it
becomes a name. So its name is the string of its digits: a log with the integer is absorbed like
the log with this string in its place, and different integers name different transactions
(`integerNames`).

One line of the log is different, and it is read as a record that differs in this name, or it is no
record on either side (`Record.read_integerText`). The other lines are the same, whatever follows
the number in its line (`Text.exists_lines_eq`). So the entries of both logs are judged alike
(`Log.read_sameOutcome`), and a session, its notices and its outcome follow from the verdicts
(`Session.replay_congr`).
-/

namespace LedgerBench

/-! ## The line of a text -/

namespace Text

/-- A carriage return at the end of a text belongs to its last part. -/
theorem withoutReturn_append {a : List Char} (hlast : a.getLast? ≠ some '\r')
    (b : List Char) : withoutReturn (a ++ b) = a ++ withoutReturn b := by
  rcases b.eq_nil_or_concat with rfl | ⟨front, c, rfl⟩
  · have hnil : withoutReturn [] = [] := rfl
    rw [hnil, List.append_nil, withoutReturn, if_neg hlast]
  · rw [List.concat_eq_append, ← List.append_assoc]
    unfold withoutReturn
    rw [List.getLast?_concat, List.getLast?_concat]
    split
    · rw [List.dropLast_concat, List.dropLast_concat]
    · rw [List.append_assoc]

/-- Without a carriage return at its end a line has the same first character, if one is left. -/
theorem head?_withoutReturn {line : List Char} {c : Char}
    (h : c ∈ (withoutReturn line).head?) : c ∈ line.head? := by
  unfold withoutReturn at h
  split at h
  · cases line with
    | nil => cases h
    | cons d line =>
      cases line with
      | nil => cases h
      | cons => exact h
  · exact h

/-- A piece of text has a character, and no white space. -/
structure Solid (piece : List Char) : Prop where
  /-- It is not empty. -/
  ne_nil : piece ≠ []
  /-- No character is white space. -/
  isBlank : ∀ c ∈ piece, Text.isBlank c = false

/-- Behind the end of a line, a piece of text without white space stands in one line with what is
before it, and with what follows it up to the next line feed. The other lines do not depend on
it. -/
theorem exists_lines_eq {before front : List Char} (hbefore : EndsLine before)
    (hfront : '\n' ∉ front) (rest : List Char) : ∃ tail after,
      (∀ c ∈ tail.head?, c ∈ rest.head?) ∧
      ∀ piece, Solid piece →
        lines (before ++ (front ++ (piece ++ rest))) =
          lines before ++ (front ++ (piece ++ tail)) :: after := by
  obtain ⟨ls, last, hls, hlast, rfl⟩ := exists_terminated_append rest
  cases ls with
  | nil =>
    -- the line is the last one, and no line feed follows
    refine ⟨last, [], fun c hc => hc, fun piece ⟨hne, hsolid⟩ => ?_⟩
    have hpiece : '\n' ∉ piece := fun h => by cases hsolid _ h
    have hline : '\n' ∉ front ++ (piece ++ last) := by simp [hfront, hpiece, hlast]
    have hempty : (front ++ (piece ++ last)).isEmpty = false := by simp [hne]
    have hnil : terminated [] = [] := rfl
    rw [hbefore.lines_append, hnil, List.nil_append, lines_of_not_mem hline, hempty]
    rfl
  | cons l ls =>
    have hl : '\n' ∉ l := hls l List.mem_cons_self
    refine ⟨withoutReturn l, lines (terminated ls ++ last), fun c hc => ?_,
      fun piece ⟨hne, hsolid⟩ => ?_⟩
    · have hhead := head?_withoutReturn hc
      rw [terminated_cons_append]
      cases l with
      | nil => cases hhead
      | cons => exact hhead
    · have hpiece : '\n' ∉ piece := fun h => by cases hsolid _ h
      have hline : '\n' ∉ front ++ (piece ++ l) := by simp [hfront, hpiece, hl]
      have hcut : front ++ (piece ++ (terminated (l :: ls) ++ last)) =
          (front ++ (piece ++ l)) ++ '\n' :: (terminated ls ++ last) := by
        rw [terminated_cons_append]
        simp
      have hreturns : withoutReturn (front ++ (piece ++ l)) =
          front ++ (piece ++ withoutReturn l) := by
        have hlast : (front ++ piece).getLast? ≠ some '\r' := by
          rw [List.getLast?_append_of_ne_nil _ hne]
          exact fun h => by cases hsolid _ (List.mem_of_getLast? h)
        rw [← List.append_assoc, withoutReturn_append hlast, List.append_assoc]
      rw [hbefore.lines_append, hcut, lines_append, lines_concat hline, hreturns]
      rfl

/-- A line with such a piece is not blank. -/
theorem Solid.isBlankLine {piece : List Char} (h : Solid piece) (front tail : List Char) :
    Log.isBlankLine (front ++ (piece ++ tail)) = false := by
  obtain ⟨c, hc⟩ := List.exists_mem_of_ne_nil _ h.ne_nil
  unfold Log.isBlankLine
  rw [List.all_eq_false]
  exact ⟨c, List.mem_append_right _ (List.mem_append_left _ hc), by simp [h.isBlank c hc]⟩

end Text

/-! ## Entries that are judged alike -/

/-- Records are judged alike by every role, and are noticed alike. -/
structure Record.Alike (r r' : Record) : Prop where
  /-- They have the same kind. -/
  kind : r.kind = r'.kind
  /-- They have the same label. -/
  label : r.label = r'.label
  /-- They are judged alike. -/
  judge : ∀ role, r.judge role = r'.judge role

/-- Records that differ in how they name a transaction are judged and noticed alike. -/
theorem Record.Differs.alike {slot : Json.Slot} {v w : Json} {id : TxId} {r r' : Record}
    (h : Differs slot v w r r') (hslot : NamesTx slot) (hv : TxId.ofJson? v = some id)
    (hw : TxId.ofJson? w = some id) : r.Alike r' := by
  have hjudge := judge_differs hslot hv hw h
  cases h
  exact ⟨rfl, rfl, hjudge⟩

/-- Entries of the same line have records that are judged alike. -/
structure Entry.Alike (e e' : Entry) : Prop where
  /-- They have the same number. -/
  line : e.line = e'.line
  /-- Their records are judged alike. -/
  record : e.record.Alike e'.record

/-- Entries that passed with the same verdict. -/
def Judged.PassAlike (p p' : Entry × Verdict) : Prop := p.1.Alike p'.1 ∧ p.2 = p'.2

namespace Judged

/-- Entries that are judged alike pass alike, and are stopped at the same line. -/
theorem ofEntries_alike (role : Role) {entries entries' : List Entry}
    (h : List.Forall₂ Entry.Alike entries entries') :
    List.Forall₂ PassAlike (ofEntries role entries).passed (ofEntries role entries').passed ∧
      (ofEntries role entries).stop = (ofEntries role entries').stop := by
  induction h with
  | nil => exact ⟨.nil, rfl⟩
  | @cons e e' entries entries' halike _ ih =>
    rw [ofEntries_cons, ofEntries_cons]
    unfold cons
    rw [halike.record.judge role]
    cases e'.record.judge role with
    | error cause => exact ⟨.nil, by rw [halike.line]⟩
    | ok verdict => exact ⟨.cons ⟨halike, rfl⟩ ih.1, ih.2⟩

variable {j j' : Judged} (h : List.Forall₂ PassAlike j.passed j'.passed)
include h

/-- They have the same verdicts. -/
theorem verdicts_alike : j.passed.map (·.2) = j'.passed.map (·.2) := by
  rw [← List.forall₂_eq_eq_eq, List.forall₂_map_left_iff, List.forall₂_map_right_iff]
  exact h.imp fun _ _ h => h.2

/-- They have the same effects. -/
theorem effects_alike : j.effects = j'.effects := by
  rw [effects_eq, effects_eq, verdicts_alike h]

/-- They are counted alike. -/
theorem tally_alike : j.tally = j'.tally := by
  have htally : ∀ j : Judged, j.tally = (j.passed.map (·.2)).foldl Tally.add {} := by
    intro j
    rw [List.foldl_map]
    rfl
  rw [htally, htally, verdicts_alike h]

/-- They are noticed alike. -/
theorem notices_alike (source : Source) : j.notices source = j'.notices source := by
  unfold notices
  generalize j.passed = passed, j'.passed = passed' at h
  induction h with
  | nil => rfl
  | @cons p p' passed passed' hpass _ ih =>
    obtain ⟨⟨hline, hkind, hlabel, -⟩, hverdict⟩ := hpass
    have hnotice : Notice.ofVerdict? source p.1 p.2 = Notice.ofVerdict? source p'.1 p'.2 := by
      rw [hverdict]
      unfold Notice.ofVerdict?
      rw [hline, hkind, hlabel]
    rw [List.filterMap_cons, List.filterMap_cons, hnotice, ih]

end Judged

/-- Streams whose entries are judged alike are replayed alike. -/
theorem Session.replay_congr (source : Source) {entries entries' : List Entry}
    (h : List.Forall₂ Entry.Alike entries entries') (s : Session) :
    s.replay ⟨source, entries⟩ = s.replay ⟨source, entries'⟩ := by
  obtain ⟨hpassed, hstop⟩ := Judged.ofEntries_alike source.role h
  unfold replay Judged.ofStream
  simp only [Judged.effects_alike hpassed, Judged.tally_alike hpassed,
    Judged.notices_alike hpassed, hstop]

/-! ## Logs -/

/-- Items with related results have related lists of results, or the same first fault. -/
theorem mapM_sameOutcome {ε α α' β β' : Type} {rel : β → β' → Prop} {f : α → Except ε β}
    {g : α' → Except ε β'} {items : List α} {items' : List α'}
    (h : List.Forall₂ (fun x y => SameOutcome rel (f x) (g y)) items items') :
    SameOutcome (List.Forall₂ rel) (items.mapM f) (items'.mapM g) := by
  induction h with
  | nil => exact .ok .nil
  | cons hxy _ ih =>
    rw [List.mapM_cons, List.mapM_cons]
    exact hxy.bind fun _ _ hhead => ih.bind fun _ _ hrest => .ok (.cons hhead hrest)

/-- A line is read as an entry of its record. -/
theorem Log.readLine_sameOutcome {line line' : List Char} (n : ℕ)
    (h : SameOutcome Record.Alike (Record.read line) (Record.read line')) :
    SameOutcome Entry.Alike (readLine (line, n)) (readLine (line', n)) := by
  unfold readLine
  rcases h.ok_or_error with ⟨r, r', hr, hr', halike⟩ | ⟨e, hr, hr'⟩ <;> rw [hr, hr']
  · exact .ok ⟨rfl, halike⟩
  · exact .error _

/-- Texts that differ in one line have entries that are judged alike if the records of this line
are. -/
theorem Log.read_sameOutcome {text text' : String} {before after : List (List Char)}
    {line line' : List Char} (htext : Text.lines text.toList = before ++ line :: after)
    (htext' : Text.lines text'.toList = before ++ line' :: after)
    (hline : isBlankLine line = false) (hline' : isBlankLine line' = false)
    (h : SameOutcome Record.Alike (Record.read line) (Record.read line')) :
    SameOutcome (List.Forall₂ Entry.Alike) (read text) (read text') := by
  have hsame : ∀ x : List Char × ℕ, SameOutcome Entry.Alike (readLine x) (readLine x) :=
    fun x => readLine_sameOutcome x.2 (.refl (fun _ => ⟨rfl, rfl, fun _ => rfl⟩) _)
  have hall : ∀ ls : List (List Char × ℕ),
      List.Forall₂ (fun x y => SameOutcome Entry.Alike (readLine x) (readLine y)) ls ls :=
    fun ls => List.forall₂_same.mpr fun x _ => hsame x
  unfold read
  rw [numberedLines_eq, numberedLines_eq, htext, htext', numberedFrom_append, numberedFrom_append,
    numberedFrom_cons_of_not_blank hline, numberedFrom_cons_of_not_blank hline']
  refine mapM_sameOutcome (List.rel_append (hall _) (.cons (readLine_sameOutcome _ h) (hall _)))

/-- Logs whose entries are judged alike are absorbed alike. -/
theorem Session.absorb_congr {source : Source} {text text' : String}
    (h : SameOutcome (List.Forall₂ Entry.Alike) (Log.read text) (Log.read text')) (s : Session) :
    s.absorb [⟨source, .ok text⟩] = s.absorb [⟨source, .ok text'⟩] := by
  unfold absorb
  rw [List.mapM_cons, List.mapM_cons, List.mapM_nil]
  unfold Input.load
  dsimp only
  rcases h.ok_or_error with ⟨entries, entries', he, he', halike⟩ | ⟨e, he, he'⟩ <;> rw [he, he']
  · -- the only stream
    have hreplay := replay_congr source halike s
    change s.replayAll [⟨source, entries⟩] = s.replayAll [⟨source, entries'⟩]
    unfold replayAll
    rw [hreplay]

/-! ## Integers and strings of digits -/

/-- The record names a transaction by this value. -/
inductive Record.Names (r : Record) (v : Json) (id : TxId) : Prop where
  /-- It is about this transaction. -/
  | txId (value : r.payload.get? "tx_id" = some v) (named : r.txId = .ok id)
  /-- The transaction is one of its list. -/
  | txIds {items : List Json} {ids : List TxId} {i : ℕ}
    (list : r.payload.get? "tx_ids" = some (.array items)) (value : items[i]? = some v)
    (named : r.txIds = .ok ids) (item : ids[i]? = some id)

/-- The name is the one that the value gives. -/
theorem Record.Names.ofJson? {r : Record} {v : Json} {id : TxId} (h : r.Names v id) :
    TxId.ofJson? v = some id := by
  cases h with
  | txId value named =>
    unfold Record.txId at named
    rw [value, Option.bind_some] at named
    split at named
    · rename_i hid
      cases named
      exact hid
    · cases named
  | @txIds items ids i list value named item =>
    unfold Record.txIds at named
    rw [list] at named
    have hall := mapM_eq_ok.mp named
    obtain ⟨hi, rfl⟩ := List.getElem?_eq_some_iff.mp value
    obtain ⟨hi', rfl⟩ := List.getElem?_eq_some_iff.mp item
    have hitem : itemTxId items[i] = .ok ids[i] := List.forall₂_iff_get.mp hall |>.2 i hi hi'
    unfold itemTxId at hitem
    split at hitem
    · rename_i hid
      cases hitem
      exact hid
    · cases hitem

/-- What an integer means as the name of a transaction. -/
structure IntegerNames (n : ℤ) : Prop where
  /-- A log with the integer where a transaction is named is absorbed like the log with the string of
  its digits in its place: into every session and from a stream of every role, with the same session,
  the same notices and the same outcome. The integer ends where it ends: no digit, decimal point or
  mark of an exponent follows. -/
  absorb : ∀ (slot : Json.Slot) (before front rest : List Char), Text.EndsLine before →
    '\n' ∉ front → Record.NameOpen slot front → (∀ c ∈ rest.head?, Json.NumberScan.Stops c) →
    ∀ (s : Session) (source : Source),
      s.absorb [⟨source, .ok (.ofList
          (before ++ (front ++ (JsonNumber.integerText n ++ rest))))⟩] =
        s.absorb [⟨source, .ok (.ofList (before ++ (front ++
          (Json.quoted (String.ofList (JsonNumber.integerText n)) ++ rest))))⟩]
  /-- A record that is read from a text with the integer has the integer there. -/
  read : ∀ (slot : Json.Slot) (front rest : List Char) (r : Record), Record.NameOpen slot front →
    (∀ c ∈ rest.head?, Json.NumberScan.Stops c) →
    Record.read (front ++ (JsonNumber.integerText n ++ rest)) = .ok r →
      slot.Holds (.number (.integer n)) r.payload
  /-- Another integer names another transaction. -/
  distinct : ∀ (m : ℤ), (JsonNumber.integer m).FitsWord → ∀ (r r' : Record) (id id' : TxId),
    r.Names (.number (.integer n)) id → r'.Names (.number (.integer m)) id' → (id = id' ↔ n = m)

/-- A minus sign or digits make up an integer. -/
theorem JsonNumber.mem_integerText {n : ℤ} {c : Char} (h : c ∈ integerText n) :
    c = '-' ∨ c.isDigit = true := by
  rw [integerText_eq, List.mem_append] at h
  rcases h with hsign | hdigit
  · split at hsign
    · exact .inl (List.mem_singleton.mp hsign)
    · cases hsign
  · exact .inr (isDigit_toDigits hdigit)

/-- An integer is written without white space. -/
theorem JsonNumber.solid_integerText (n : ℤ) : Text.Solid (integerText n) where
  ne_nil := by
    rw [integerText_eq]
    exact List.append_ne_nil_of_right_ne_nil _ Nat.toDigits_ne_nil
  isBlank := by
    intro c hc
    rcases mem_integerText hc with rfl | hdigit
    · rfl
    · exact Text.isBlank_of_isDigit hdigit

/-- Nothing in the text of an integer is escaped. -/
theorem JsonNumber.quoted_integerText (n : ℤ) :
    Json.quoted (String.ofList (integerText n)) = '"' :: (integerText n ++ ['"']) := by
  have hescape : ∀ c ∈ integerText n, Json.escape c = [c] := by
    intro c hc
    rcases mem_integerText hc with rfl | hdigit
    · rfl
    · unfold Json.escape
      split
      case h_8 =>
        rw [if_neg]
        unfold Char.isDigit at hdigit
        rw [Bool.and_eq_true, decide_eq_true_eq] at hdigit
        have hzero : 48 ≤ c.toNat := hdigit.1
        omega
      all_goals cases hdigit
  unfold Json.quoted
  rw [String.toList_ofList, List.flatMap_congr hescape, List.flatMap_singleton']

/-- So its digits in quotation marks are written without white space, too. -/
theorem JsonNumber.solid_quoted (n : ℤ) :
    Text.Solid (Json.quoted (String.ofList (integerText n))) where
  ne_nil := List.cons_ne_nil _ _
  isBlank := by
    intro c hc
    rw [quoted_integerText, List.mem_cons, List.mem_append, List.mem_singleton] at hc
    rcases hc with rfl | hc | rfl
    · rfl
    · exact (solid_integerText n).isBlank c hc
    · rfl

/-- Integers that fit a word correlate with the strings of their digits, and with no others. -/
theorem integerNames {n : ℤ} (hn : (JsonNumber.integer n).FitsWord) : IntegerNames n where
  absorb := by
    intro slot before front rest hbefore hfront hopen hrest s source
    obtain ⟨tail, after, htail, hlines⟩ := Text.exists_lines_eq hbefore hfront rest
    have hread := Record.read_integerText hopen hn fun c hc => hrest c (htail c hc)
    have hlines : ∀ piece, Text.Solid piece →
        Text.lines (String.ofList (before ++ (front ++ (piece ++ rest)))).toList =
          Text.lines before ++ (front ++ (piece ++ tail)) :: after := by
      intro piece hpiece
      rw [String.toList_ofList]
      exact hlines piece hpiece
    have hnumber := JsonNumber.solid_integerText n
    have htext := JsonNumber.solid_quoted n
    have hentries := Log.read_sameOutcome (hlines _ hnumber) (hlines _ htext)
      (hnumber.isBlankLine front tail) (htext.isBlankLine front tail)
      (hread.mono fun _ _ h => h.alike hopen.1 (TxId.ofJson?_integer n) rfl)
    exact Session.absorb_congr hentries s
  read := by
    intro slot front rest r hopen hrest hread
    have hsame := Record.read_integerText hopen hn hrest
    rw [hread] at hsame
    rcases hsame.ok_or_error with ⟨_, _, hr, -, hdiffers⟩ | ⟨_, hr, -⟩
    · cases hr
      cases hdiffers with
      | payload differs => exact differs.holds
    · cases hr
  distinct := by
    intro m _ r r' id id' h h'
    have hid := h.ofJson?
    have hid' := h'.ofJson?
    cases hid
    cases hid'
    rw [String.ofList_inj]
    exact JsonNumber.integerText_inj

/-- The least integer of a signed word names a transaction that is outdated, like the string of its
digits; the greatest one of an unsigned word names another transaction. -/
theorem integerNames_least : ∃ front r r' id id',
    Record.read (front ++ "-9223372036854775808\x7d\x7d".toList) = .ok r ∧
    Record.read (front ++ "18446744073709551615\x7d\x7d".toList) = .ok r' ∧
    r.txId = .ok id ∧ r'.txId = .ok id' ∧ id ≠ id' ∧
    ∀ (s : Session) (source : Source),
      s.absorb [⟨source, .ok (.ofList (front ++ "-9223372036854775808\x7d\x7d".toList))⟩] =
        s.absorb [⟨source, .ok (.ofList (front ++ "\"-9223372036854775808\"\x7d\x7d".toList))⟩] := by
  have hnames : IntegerNames (-9223372036854775808) := integerNames ⟨by decide, by decide⟩
  let front := "\x7b\"k\":\"event\",\"l\":\"tx_outdated\",\"v\":\x7b\"tx_id\":".toList
  have hopen : Record.NameOpen (.member "tx_id") front :=
    ⟨.txId, false, _, rfl, .member (.fields _) _ _⟩
  let record (n : ℤ) : Record :=
    ⟨"event", "tx_outdated", none, none, .object [("tx_id", .number (.integer n))]⟩
  have hid : (record (-9223372036854775808)).txId = .ok "-9223372036854775808" := rfl
  have hid' : (record 18446744073709551615).txId = .ok "18446744073709551615" := rfl
  refine ⟨front, record (-9223372036854775808), record 18446744073709551615, _, _, rfl, rfl, hid,
    hid', ?_, fun s source => ?_⟩
  · have hiff := hnames.distinct 18446744073709551615 ⟨by decide, by decide⟩ _ _ _ _
      (.txId rfl hid) (.txId rfl hid')
    exact fun heq => absurd (hiff.mp heq) (by decide)
  · have hfeed : '\n' ∉ front := by decide +kernel
    have hrest : ∀ c ∈ "\x7d\x7d".toList.head?, Json.NumberScan.Stops c := by
      rintro c ⟨⟩
      decide
    have hnumber : JsonNumber.integerText (-9223372036854775808) ++ "\x7d\x7d".toList =
        "-9223372036854775808\x7d\x7d".toList := by decide +kernel
    have htext : Json.quoted (String.ofList (JsonNumber.integerText (-9223372036854775808))) ++
        "\x7d\x7d".toList = "\"-9223372036854775808\"\x7d\x7d".toList := by decide +kernel
    rw [← hnumber, ← htext]
    exact hnames.absorb _ [] front "\x7d\x7d".toList (.inl rfl) hfeed hopen hrest s source

end LedgerBench
