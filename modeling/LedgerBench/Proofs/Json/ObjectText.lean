import LedgerBench.Json.Printer
import LedgerBench.Proofs.Json.FloatText

/-!
# Reading the text of an object

The texts of an object, indented and compact, differ in white space between their parts only. Both
are instances of one layout, with white space before each key, behind each colon and before the end
(`spacedObject`). Whatever the white space is, the object is read with the members that were
written, in their order (`read_spacedObject`), and without the white space it is the compact text
(`withoutSpace_spacedObject`).

The values of the members are given by their texts. What is asked of a text is that it is read as a
value wherever a value is wanted (`ReadsAs`), and that it has neither white space nor quotation
marks (`IsPlain`).
-/

namespace LedgerBench.Json

open Scanner (isSpace)

/-! ## Texts of values -/

/-- The text is read as a value wherever a value is wanted, and the rest from where it belongs. -/
def ReadsAs (text : List Char) (v : Json) : Prop :=
  ∀ goal frames opened rest, Goal.wantInside goal frames ≠ .nothing →
    (∀ c ∈ rest.head?, NumberScan.Stops c) →
    Scanner.readRest goal ⟨.value opened, frames⟩ (text ++ rest) =
      (Scanner.deliver goal v frames).bind fun s => Scanner.readRest goal s rest

/-- An integer that fits a word is read as itself. -/
theorem readsAs_integerText {n : Int} (h : (JsonNumber.integer n).FitsWord) :
    ReadsAs (JsonNumber.integerText n) (.number (.integer n)) :=
  fun _ _ opened _ hwanted hrest => Scanner.readRest_integerText h hwanted opened hrest

/-- The text of a double is read as a double. -/
theorem exists_readsAs_of_readsAsFloat {text : List Char} (h : ReadsAsFloat text) :
    ∃ x, ReadsAs text (.number (.float x)) := by
  obtain ⟨scan, x, htext, hvalue⟩ := h
  exact ⟨x, fun _ _ opened _ hwanted hrest =>
    Scanner.readRest_numberText htext hvalue hwanted opened hrest⟩

/-- The name of the constant is read as this constant. -/
theorem readsAs_null : ReadsAs ['n', 'u', 'l', 'l'] .null := by
  intro goal frames opened rest _ _
  have hname : Scanner.run goal ⟨.value opened, frames⟩ ['n', 'u', 'l'] =
      .ok ⟨.word ['l'] .null, frames⟩ := rfl
  have hlast : Scanner.step goal ⟨.word ['l'] .null, frames⟩ 'l' =
      Scanner.deliver goal .null frames := rfl
  rw [show ['n', 'u', 'l', 'l'] ++ rest = ['n', 'u', 'l'] ++ 'l' :: rest from rfl,
    Scanner.readRest_append hname, Scanner.readRest_cons, hlast]

/-- The text has neither white space nor quotation marks. -/
def IsPlain (text : List Char) : Prop := ∀ c ∈ text, isSpace c = false ∧ c ≠ '"'

/-- A number goes on with other characters only. -/
theorem NumberScan.plain_of_step {scan scan' : NumberScan} {c : Char}
    (h : scan.step c = .more scan') : isSpace c = false ∧ c ≠ '"' := by
  by_contra hplain
  have hcharacter : c ∈ [' ', '\n', '\t', '\r', '"'] := by
    by_contra hmem
    simp_all [isSpace]
  have hnone : ∀ c ∈ [' ', '\n', '\t', '\r', '"'],
      digit? c = none ∧ c ≠ '.' ∧ isMark c = false ∧ c ≠ '+' ∧ c ≠ '-' := by
    simp [digit?, isMark, Char.isDigit]
  obtain ⟨hdigit, hpoint, hmark, hplus, hminus⟩ := hnone c hcharacter
  cases scan <;> simp [step, hdigit, hpoint, hmark, hplus, hminus] at h

/-- So the characters that go on with a number are plain. -/
theorem NumberScan.isPlain_of_run? {scan scan' : NumberScan} {cs : List Char}
    (h : scan.run? cs = some scan') : IsPlain cs := by
  induction cs generalizing scan with
  | nil => exact List.forall_mem_nil _
  | cons c cs ih =>
    unfold run? at h
    split at h
    · exact List.forall_mem_cons.mpr ⟨plain_of_step ‹_›, ih h⟩
    · cases h

/-- The text of a number is plain. -/
theorem NumberScan.isPlain_of_ofText? {text : List Char} {scan : NumberScan}
    (h : ofText? text = some scan) : IsPlain text := by
  cases text with
  | nil => cases h
  | cons c cs =>
    obtain ⟨first, hfirst, hrest⟩ := Option.bind_eq_some_iff.mp h
    refine List.forall_mem_cons.mpr ⟨?_, isPlain_of_run? hrest⟩
    unfold start? at hfirst
    split at hfirst
    · subst c
      decide
    · obtain ⟨d, hd, -⟩ := Option.map_eq_some_iff.mp hfirst
      -- a digit goes on with any sign
      have hstep : sign.step c = .more (.whole true [d]) := by simp only [step, hd]
      exact plain_of_step hstep

/-! ## Layouts of objects -/

/-- A member with white space before its key and behind the colon. -/
def spacedMember (gap colonGap : List Char) (m : String × List Char) : List Char :=
  gap ++ (quoted m.1 ++ ':' :: (colonGap ++ m.2))

/-- An object with white space before each key, behind each colon and before its end. -/
def spacedObject (gap colonGap endGap : List Char) (members : List (String × List Char)) :
    List Char :=
  '\x7b' :: ([','].intercalate (members.map (spacedMember gap colonGap)) ++ (endGap ++ ['\x7d']))

/-- The compact text has no white space. -/
theorem compactObject_eq (members : List (String × List Char)) :
    compactObject members = spacedObject [] [] [] members := rfl

/-- In the indented text a line feed and two spaces stand before each key. -/
theorem isSpace_gap : ∀ c ∈ ['\n', ' ', ' '], isSpace c = true := by simp [isSpace]

/-- A space stands behind each colon. -/
theorem isSpace_colonGap : ∀ c ∈ [' '], isSpace c = true := by simp [isSpace]

/-- The indented text has each member in a line of its own, and a line feed before its end if there
is a member. -/
theorem exists_indentedObject_eq (members : List (String × List Char)) :
    ∃ endGap, (∀ c ∈ endGap, isSpace c = true) ∧
      indentedObject members = spacedObject ['\n', ' ', ' '] [' '] endGap members := by
  cases members with
  | nil => exact ⟨[], List.forall_mem_nil _, rfl⟩
  | cons m members => exact ⟨['\n'], by simp [isSpace], rfl⟩

/-- Members behind one another, with a comma before each of them but the first. -/
theorem intercalate_map_cons {α : Type} (f : α → List Char) (x : α) (xs : List α) :
    [','].intercalate ((x :: xs).map f) = f x ++ xs.flatMap fun y => ',' :: f y := by
  induction xs generalizing x with
  | nil => simp [List.intercalate]
  | cons y ys ih =>
    have hstep : [','].intercalate ((x :: y :: ys).map f) =
        f x ++ ([','] ++ [','].intercalate ((y :: ys).map f)) := by
      simp [List.intercalate]
    rw [hstep, ih, List.flatMap_cons]
    simp

/-! ## Reading -/

namespace Scanner

variable {goal : Goal} {below : List Frame} {done : List (String × Json)} {key : String}
  {gap colonGap endGap : List Char}

/-- White space where it does not matter is read over. -/
theorem readRest_space {s : Scanner} (hstep : ∀ c, isSpace c = true → step goal s c = .ok s)
    (hgap : ∀ c ∈ gap, isSpace c = true) (rest : List Char) :
    readRest goal s (gap ++ rest) = readRest goal s rest := by
  induction gap with
  | nil => rfl
  | cons c gap ih =>
    obtain ⟨hc, hgap⟩ := List.forall_mem_cons.mp hgap
    rw [List.cons_append, readRest_cons, hstep c hc]
    exact ih hgap

/-- A member is read into the object that is open. -/
theorem readRest_member (hgap : ∀ c ∈ gap, isSpace c = true)
    (hcolonGap : ∀ c ∈ colonGap, isSpace c = true) (opened : Bool) {m : String × List Char}
    {v : Json} (hvalue : ReadsAs m.2 v) {rest : List Char}
    (hrest : ∀ c ∈ rest.head?, NumberScan.Stops c) :
    readRest goal ⟨.key opened, .object done key :: below⟩ (spacedMember gap colonGap m ++ rest) =
      readRest goal ⟨.next, .object ((m.1, v) :: done) m.1 :: below⟩ rest := by
  have hkey : ∀ c, isSpace c = true →
      step goal ⟨.key opened, .object done key :: below⟩ c =
        .ok ⟨.key opened, .object done key :: below⟩ := fun c hc => by
    simp only [step, stepKey, if_pos hc]
  have hopen : step goal ⟨.key opened, .object done key :: below⟩ '"' =
      .ok ⟨.text true .start, .object done key :: below⟩ := rfl
  have hcolon : step goal ⟨.colon, .object done m.1 :: below⟩ ':' =
      .ok ⟨.value false, .object done m.1 :: below⟩ := rfl
  have hbegin : ∀ c, isSpace c = true →
      step goal ⟨.value false, .object done m.1 :: below⟩ c =
        .ok ⟨.value false, .object done m.1 :: below⟩ := fun c hc => by
    simp only [step, stepValue, if_pos hc]
  have hwanted : goal.wantInside (.object done m.1 :: below) ≠ .nothing := by simp [Goal.wantInside]
  have hnamed : named goal m.1 (.object done key :: below) =
      .ok ⟨.colon, .object done m.1 :: below⟩ := rfl
  -- white space, the key, the colon, white space, the value
  unfold spacedMember
  rw [List.append_assoc, readRest_space hkey hgap, List.append_assoc,
    readRest_quoted rfl hopen m.1, if_pos rfl, hnamed]
  show readRest goal ⟨.colon, .object done m.1 :: below⟩ _ = _
  rw [List.cons_append, readRest_cons, hcolon]
  show readRest goal ⟨.value false, .object done m.1 :: below⟩ _ = _
  rw [List.append_assoc, readRest_space hbegin hcolonGap, hvalue _ _ _ _ hwanted hrest]
  rfl

/-- The end of an object is read behind white space. -/
theorem readRest_endObject (hendGap : ∀ c ∈ endGap, isSpace c = true) {focus : Focus}
    (hspace : ∀ c, isSpace c = true → step .value ⟨focus, [.object done key]⟩ c =
      .ok ⟨focus, [.object done key]⟩)
    (hclose : step .value ⟨focus, [.object done key]⟩ '\x7d' =
      closeObject .value [.object done key]) :
    readRest .value ⟨focus, [.object done key]⟩ (endGap ++ ['\x7d']) =
      .ok (.value (.object done.reverse)) := by
  rw [readRest_space hspace hendGap, readRest_cons, hclose]
  rfl

/-- Neither a comma nor white space nor the end of the object belongs to a number. -/
theorem stops_head (hendGap : ∀ c ∈ endGap, isSpace c = true)
    (members : List (String × List Char)) : ∀ c ∈ ((members.flatMap fun m =>
      ',' :: spacedMember gap colonGap m) ++ (endGap ++ ['\x7d'])).head?, NumberScan.Stops c := by
  intro c hc
  cases members with
  | cons m members =>
    cases hc
    decide
  | nil =>
    cases endGap with
    | nil =>
      cases hc
      decide
    | cons c endGap =>
      cases hc
      have hspace := hendGap c List.mem_cons_self
      simp only [isSpace, Bool.or_eq_true, decide_eq_true_eq] at hspace
      rcases hspace with ((rfl | rfl) | rfl) | rfl <;> decide

/-- The members that follow, and the end of the object, are read behind the members before. -/
theorem readRest_members (hgap : ∀ c ∈ gap, isSpace c = true)
    (hcolonGap : ∀ c ∈ colonGap, isSpace c = true) (hendGap : ∀ c ∈ endGap, isSpace c = true)
    {members : List (String × List Char)} {values : List (String × Json)}
    (h : List.Forall₂ (fun m w => m.1 = w.1 ∧ ReadsAs m.2 w.2) members values) :
    readRest .value ⟨.next, [.object done key]⟩
        ((members.flatMap fun m => ',' :: spacedMember gap colonGap m) ++ (endGap ++ ['\x7d'])) =
      .ok (.value (.object (done.reverse ++ values))) := by
  induction h generalizing done key with
  | nil =>
    have hspace : ∀ c, isSpace c = true → step .value ⟨.next, [.object done key]⟩ c =
        .ok ⟨.next, [.object done key]⟩ := fun c hc => by
      simp only [step, stepNext, if_pos hc]
    rw [List.append_nil]
    exact readRest_endObject hendGap hspace rfl
  | @cons m w members values hm hrest ih =>
    obtain ⟨hkey, hvalue⟩ := hm
    have hcomma : step .value ⟨.next, [.object done key]⟩ ',' =
        .ok ⟨.key false, [.object done key]⟩ := rfl
    rw [List.flatMap_cons, List.append_assoc, List.cons_append, readRest_cons, hcomma]
    show readRest .value ⟨.key false, [.object done key]⟩ _ = _
    rw [readRest_member hgap hcolonGap false hvalue (stops_head hendGap members), ih, hkey]
    simp

end Scanner

/-- An object that is laid out with any white space is read with its members in their order. -/
theorem read_spacedObject {gap colonGap endGap : List Char} (hgap : ∀ c ∈ gap, isSpace c = true)
    (hcolonGap : ∀ c ∈ colonGap, isSpace c = true) (hendGap : ∀ c ∈ endGap, isSpace c = true)
    {members : List (String × List Char)} {values : List (String × Json)}
    (h : List.Forall₂ (fun m w => m.1 = w.1 ∧ ReadsAs m.2 w.2) members values) :
    read (spacedObject gap colonGap endGap members) = .ok (.object values) := by
  have hopen : Scanner.step .value .start '\x7b' = .ok ⟨.key true, [.object [] ""]⟩ := rfl
  have hread : Scanner.readRest .value .start (spacedObject gap colonGap endGap members) =
      .ok (.value (.object values)) := by
    unfold spacedObject
    rw [Scanner.readRest_cons, hopen]
    show Scanner.readRest .value ⟨.key true, [.object [] ""]⟩ _ = _
    -- the object may end in the place of its first key, but in that of no later one
    cases h with
    | nil =>
      have hspace : ∀ c, isSpace c = true → Scanner.step .value ⟨.key true, [.object [] ""]⟩ c =
          .ok ⟨.key true, [.object [] ""]⟩ := fun c hc => by
        simp only [Scanner.step, Scanner.stepKey, if_pos hc]
      exact Scanner.readRest_endObject hendGap hspace rfl
    | @cons m w members values hm hrest =>
      obtain ⟨hkey, hvalue⟩ := hm
      rw [intercalate_map_cons, List.append_assoc,
        Scanner.readRest_member hgap hcolonGap true hvalue (Scanner.stops_head hendGap members),
        Scanner.readRest_members hgap hcolonGap hendGap hrest,
        hkey]
      rfl
  unfold read
  rw [Scanner.readDocument_eq, hread]

/-- The compact text is read with its members. -/
theorem read_compactObject {members : List (String × List Char)} {values : List (String × Json)}
    (h : List.Forall₂ (fun m w => m.1 = w.1 ∧ ReadsAs m.2 w.2) members values) :
    read (compactObject members) = .ok (.object values) := by
  have hnone := List.forall_mem_nil fun c => isSpace c = true
  rw [compactObject_eq]
  exact read_spacedObject hnone hnone hnone h

/-- The indented text is read with its members. -/
theorem read_indentedObject {members : List (String × List Char)} {values : List (String × Json)}
    (h : List.Forall₂ (fun m w => m.1 = w.1 ∧ ReadsAs m.2 w.2) members values) :
    read (indentedObject members) = .ok (.object values) := by
  obtain ⟨endGap, hendGap, htext⟩ := exists_indentedObject_eq members
  rw [htext]
  exact read_spacedObject isSpace_gap isSpace_colonGap hendGap h

/-! ## White space -/

/-- Where a character of a JSON text stands. -/
inductive Quotation where
  /-- Outside strings. -/
  | outside
  /-- Inside a string. -/
  | inside
  /-- Inside a string, behind a backslash. -/
  | escaped
deriving DecidableEq

/-- Where the next character stands. -/
def Quotation.after : Quotation → Char → Quotation
  | outside, c => if c = '"' then inside else outside
  | inside, c => if c = '"' then outside else if c = '\\' then escaped else inside
  | escaped, _ => inside

/-- A text without the white space that stands outside strings. -/
def withoutSpaceFrom : Quotation → List Char → List Char
  | _, [] => []
  | q, c :: rest =>
    if q = .outside ∧ isSpace c = true then withoutSpaceFrom q rest
    else c :: withoutSpaceFrom (q.after c) rest

/-- A JSON text without the white space that stands outside strings. -/
def withoutSpace (text : List Char) : List Char := withoutSpaceFrom .outside text

/-- A text becomes another one without its white space, and what follows it stands at some place. -/
structure Condenses (q : Quotation) (text condensed : List Char) (q' : Quotation) : Prop where
  /-- The text without its white space. -/
  text_eq : withoutSpaceFrom q text = condensed
  /-- The place of what follows. -/
  after_eq : text.foldl Quotation.after q = q'

namespace Condenses

variable {q q' q'' : Quotation} {a b a' b' : List Char}

/-- Two texts become shorter one after the other. -/
theorem append (h : Condenses q a b q') (h' : Condenses q' a' b' q'') :
    Condenses q (a ++ a') (b ++ b') q'' := by
  obtain ⟨rfl, rfl⟩ := h
  obtain ⟨rfl, rfl⟩ := h'
  constructor
  · induction a generalizing q with
    | nil => rfl
    | cons c a ih =>
      rw [List.cons_append, withoutSpaceFrom, withoutSpaceFrom, List.foldl_cons]
      split
      · -- white space vanishes, and what follows stands where it stood
        rename_i h
        have hquote : c ≠ '"' := by
          rintro rfl
          cases h.2
        have hstay : q.after c = q := by
          rw [h.1]
          exact if_neg hquote
        rw [hstay]
        exact ih
      · exact congrArg (c :: ·) ih
  · rw [List.foldl_append]

/-- White space outside strings vanishes. -/
theorem space (h : ∀ c ∈ a, isSpace c = true) : Condenses .outside a [] .outside := by
  induction a with
  | nil => exact ⟨rfl, rfl⟩
  | cons c a ih =>
    obtain ⟨hc, ha⟩ := List.forall_mem_cons.mp h
    have hfirst : Condenses .outside [c] [] .outside := by
      have hquote : c ≠ '"' := by
        rintro rfl
        cases hc
      exact ⟨if_pos ⟨rfl, hc⟩, if_neg hquote⟩
    exact hfirst.append (ih ha)

/-- A text without white space and quotation marks remains. -/
theorem plain (h : IsPlain a) : Condenses .outside a a .outside := by
  induction a with
  | nil => exact ⟨rfl, rfl⟩
  | cons c a ih =>
    obtain ⟨⟨hc, hquote⟩, ha⟩ := List.forall_mem_cons.mp h
    have hfirst : Condenses .outside [c] [c] .outside := by
      refine ⟨if_neg ?_, if_neg hquote⟩
      rw [hc]
      simp
    exact hfirst.append (ih ha)

/-- Whatever is escaped remains. -/
theorem escape (c : Char) : Condenses .inside (Json.escape c) (Json.escape c) .inside := by
  unfold Json.escape
  split
  case h_8 hquote hslash _ _ _ _ _ =>
    -- no hexadecimal digit ends the string or the escape
    split
    · rename_i hcontrol
      have hother : ∀ n : Fin 16, hexDigit n ≠ '"' ∧ hexDigit n ≠ '\\' := by decide
      have hdigit : ∀ n, n < 16 → Condenses .inside [hexDigit n] [hexDigit n] .inside :=
        fun n hn => by
          obtain ⟨hquote, hslash⟩ := hother ⟨n, hn⟩
          exact ⟨rfl, (if_neg hquote).trans (if_neg hslash)⟩
      have hmark : Condenses .inside ['\\', 'u', '0', '0'] ['\\', 'u', '0', '0'] .inside :=
        ⟨rfl, rfl⟩
      exact hmark.append ((hdigit (c.toNat / 16) (by omega)).append
        (hdigit (c.toNat % 16) (by omega)))
    · exact ⟨rfl, (if_neg hquote).trans (if_neg hslash)⟩
  all_goals exact ⟨rfl, rfl⟩

/-- A string in quotation marks remains. -/
theorem quoted (s : String) : Condenses .outside (Json.quoted s) (Json.quoted s) .outside := by
  have hcharacters : ∀ cs : List Char, Condenses .inside (cs.flatMap Json.escape)
      (cs.flatMap Json.escape) .inside := by
    intro cs
    induction cs with
    | nil => exact ⟨rfl, rfl⟩
    | cons c cs ih => exact (escape c).append ih
  have hopen : Condenses .outside ['"'] ['"'] .inside := ⟨rfl, rfl⟩
  have hclose : Condenses .inside ['"'] ['"'] .outside := ⟨rfl, rfl⟩
  exact hopen.append ((hcharacters s.toList).append hclose)

end Condenses

/-- Without its white space, an object with values that have none is compact. -/
theorem withoutSpace_spacedObject {gap colonGap endGap : List Char}
    (hgap : ∀ c ∈ gap, isSpace c = true) (hcolonGap : ∀ c ∈ colonGap, isSpace c = true)
    (hendGap : ∀ c ∈ endGap, isSpace c = true) {members : List (String × List Char)}
    (h : ∀ m ∈ members, IsPlain m.2) :
    withoutSpace (spacedObject gap colonGap endGap members) = compactObject members := by
  have hmember : ∀ m ∈ members, Condenses .outside (spacedMember gap colonGap m) (memberText m)
      .outside := by
    intro m hm
    have hcolon : Condenses .outside [':'] [':'] .outside := ⟨rfl, rfl⟩
    exact (Condenses.space hgap).append ((Condenses.quoted m.1).append
      (hcolon.append ((Condenses.space hcolonGap).append (.plain (h m hm)))))
  have hmembers : Condenses .outside ([','].intercalate (members.map (spacedMember gap colonGap)))
      ([','].intercalate (members.map memberText)) .outside := by
    cases members with
    | nil => exact ⟨rfl, rfl⟩
    | cons m members =>
      obtain ⟨hfirst, hrest⟩ := List.forall_mem_cons.mp hmember
      rw [intercalate_map_cons, intercalate_map_cons]
      refine hfirst.append ?_
      clear h hmember hfirst
      induction members with
      | nil => exact ⟨rfl, rfl⟩
      | cons m members ih =>
        obtain ⟨hm, hrest⟩ := List.forall_mem_cons.mp hrest
        have hcomma : Condenses .outside [','] [','] .outside := ⟨rfl, rfl⟩
        exact (hcomma.append hm).append (ih hrest)
  have hopen : Condenses .outside ['\x7b'] ['\x7b'] .outside := ⟨rfl, rfl⟩
  have hclose : Condenses .outside ['\x7d'] ['\x7d'] .outside := ⟨rfl, rfl⟩
  exact (hopen.append (hmembers.append ((Condenses.space hendGap).append hclose))).text_eq

/-- Without its white space the indented text is the compact one. -/
theorem withoutSpace_indentedObject {members : List (String × List Char)}
    (h : ∀ m ∈ members, IsPlain m.2) :
    withoutSpace (indentedObject members) = compactObject members := by
  obtain ⟨endGap, hendGap, htext⟩ := exists_indentedObject_eq members
  rw [htext]
  exact withoutSpace_spacedObject isSpace_gap isSpace_colonGap hendGap h

end LedgerBench.Json
