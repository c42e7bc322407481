import LedgerBench.Proofs.Json.NumberText

/-!
# One value in a form

A form has fields of any kind, and what stands deep in such a field does not direct the reading. So
if a value is read at some place there, and another value at the same place of another text, then
the texts are read alike from there on: both fail for the same reason, or both are read as forms
that differ at this place alone (`Scanner.readRest_deliver`).

The place is a `Slot` of the field: the value of a member, or an item of a list that is the value of
a member. The states of the scanner on both texts differ in one frame (`FramesDiffer`), which is the
innermost one that is open at the place. When this frame is closed, its value goes into the next
one, and the difference with it: from the list into the object, into the field, and then into the
document. Whatever is opened and closed meanwhile is the same on both sides.
-/

namespace LedgerBench

/-- Two results are related if both are values that are related, or the same fault. -/
inductive SameOutcome {ε α β : Type} (rel : α → β → Prop) : Except ε α → Except ε β → Prop where
  /-- Both are values. -/
  | ok {a : α} {b : β} (h : rel a b) : SameOutcome rel (.ok a) (.ok b)
  /-- Both are the same fault. -/
  | error (e : ε) : SameOutcome rel (.error e) (.error e)

/-- Of two results that are related both are values, or both are faults. -/
theorem SameOutcome.ok_or_error {ε α β : Type} {rel : α → β → Prop} {x : Except ε α}
    {y : Except ε β} (h : SameOutcome rel x y) :
    (∃ a b, x = .ok a ∧ y = .ok b ∧ rel a b) ∨ ∃ e, x = .error e ∧ y = .error e := by
  cases h with
  | ok h => exact .inl ⟨_, _, rfl, rfl, h⟩
  | error e => exact .inr ⟨e, rfl, rfl⟩

/-- Results are also related in every way that follows. -/
theorem SameOutcome.mono {ε α β : Type} {rel rel' : α → β → Prop} {x : Except ε α}
    {y : Except ε β} (h : SameOutcome rel x y) (hrel : ∀ a b, rel a b → rel' a b) :
    SameOutcome rel' x y := by
  cases h with
  | ok h => exact .ok (hrel _ _ h)
  | error e => exact .error e

/-- Related results go on to related results. -/
theorem SameOutcome.bind {ε α β γ δ : Type} {rel : α → β → Prop} {rel' : γ → δ → Prop}
    {x : Except ε α} {y : Except ε β} (h : SameOutcome rel x y) {f : α → Except ε γ}
    {g : β → Except ε δ} (hrel : ∀ a b, rel a b → SameOutcome rel' (f a) (g b)) :
    SameOutcome rel' (x.bind f) (y.bind g) := by
  cases h with
  | ok h => exact hrel _ _ h
  | error e => exact .error e

/-- Two values that are related pass the same check, or both fail. -/
theorem SameOutcome.ite {ε α β : Type} {rel : α → β → Prop} {check : Prop} [Decidable check]
    {a : α} {b : β} (h : rel a b) {e : ε} :
    SameOutcome rel (if check then .ok a else .error e) (if check then .ok b else .error e) := by
  split
  · exact .ok h
  · exact .error e

/-- A result is related to itself if its value is. -/
theorem SameOutcome.refl {ε α : Type} {rel : α → α → Prop} (h : ∀ a, rel a a) (x : Except ε α) :
    SameOutcome rel x x := by
  cases x with
  | ok a => exact .ok (h a)
  | error e => exact .error e

namespace Json

/-! ## Places -/

/-- A place in an object. -/
inductive Slot where
  /-- The value of a member with this key. -/
  | member (key : String)
  /-- An item of the list that is the value of a member with this key. -/
  | item (key : String)

namespace Slot

/-- The key of the member. -/
def key : Slot → String
  | member key | item key => key

/-- The values of two members differ at a place: one has `v` there, and the other has `w`. -/
inductive MemberDiffers (v w : Json) : Slot → Json → Json → Prop where
  /-- They are these values. -/
  | member (key : String) : MemberDiffers v w (.member key) v w
  /-- They are lists that differ in one item. -/
  | item (key : String) (before after : List Json) :
    MemberDiffers v w (.item key) (.array (before ++ v :: after)) (.array (before ++ w :: after))

/-- Two objects differ at a place: one has `v` there, and the other has `w`. -/
inductive Differs (slot : Slot) (v w : Json) : Json → Json → Prop where
  /-- They differ in the value of one member. -/
  | object {x y : Json} (member : MemberDiffers v w slot x y)
    (before after : List (String × Json)) :
    Differs slot v w (.object (before ++ (slot.key, x) :: after))
      (.object (before ++ (slot.key, y) :: after))

end Slot

/-- The field of a form is being read, and nothing is open but the form. -/
inductive FieldOpen (place : Nat) : List Frame → Prop where
  /-- The form is written as an object. -/
  | fields (filled : List (Option Json)) : FieldOpen place [.fields filled (some place)]
  /-- The form is written as an array. -/
  | fieldArray {filled : List Json} (h : filled.length = place) :
    FieldOpen place [.fieldArray filled]

/-- The scanner stands at a place in the field of a form. -/
inductive SlotOpen (place : Nat) : Slot → List Frame → Prop where
  /-- The value of the member comes next. -/
  | member {base : List Frame} (h : FieldOpen place base) (key : String)
    (members : List (String × Json)) : SlotOpen place (.member key) (.object members key :: base)
  /-- An item of its list comes next. -/
  | item {base : List Frame} (h : FieldOpen place base) (key : String)
    (members : List (String × Json)) (items : List Json) :
    SlotOpen place (.item key) (.array items :: .object members key :: base)

/-- Every form that is open has the field. -/
def FieldFits (place : Nat) (frames : List Frame) : Prop :=
  ∀ filled next, Frame.fields filled next ∈ frames → place < filled.length

/-- An array or an object is open in a value, and is no form. -/
inductive Frame.IsValue : Frame → Prop where
  /-- An array. -/
  | array (items : List Json) : IsValue (.array items)
  /-- An object. -/
  | object (members : List (String × Json)) (key : String) : IsValue (.object members key)
  /-- An array that is skipped. -/
  | skippedArray : IsValue .skippedArray
  /-- An object that is skipped. -/
  | skippedObject : IsValue .skippedObject

section Differ

variable (place : Nat) (slot : Slot) (v w : Json)

/-- What is open on two sides is the same but for a value that has been read: `v` on one side, and
`w` on the other. -/
inductive FramesDiffer : List Frame → List Frame → Prop where
  /-- The list that has the value is open. -/
  | array {base : List Frame} (h : FieldOpen place base) (hfits : FieldFits place base)
    {key : String} (hslot : slot = .item key) (members : List (String × Json))
    (after before : List Json) :
    FramesDiffer (.array (after ++ v :: before) :: .object members key :: base)
      (.array (after ++ w :: before) :: .object members key :: base)
  /-- The object is open, and the member has been read. -/
  | object {base : List Frame} (h : FieldOpen place base) (hfits : FieldFits place base)
    {x y : Json} (member : slot.MemberDiffers v w x y) (after before : List (String × Json))
    (next : String) :
    FramesDiffer (.object (after ++ (slot.key, x) :: before) next :: base)
      (.object (after ++ (slot.key, y) :: before) next :: base)
  /-- The form is open, and the field has been read. -/
  | fields {x y : Json} (differs : slot.Differs v w x y) {filled : List (Option Json)}
    (hlt : place < filled.length) {next : Option Nat} (hne : next ≠ some place) :
    FramesDiffer [.fields (filled.set place (some x)) next]
      [.fields (filled.set place (some y)) next]
  /-- The same for a form in array notation. -/
  | fieldArray {x y : Json} (differs : slot.Differs v w x y) (after : List Json)
    {before : List Json} (hlength : before.length = place) :
    FramesDiffer [.fieldArray (after ++ x :: before)] [.fieldArray (after ++ y :: before)]
  /-- Something else is open inside. -/
  | inside {frame : Frame} (hvalue : frame.IsValue) {frames frames' : List Frame}
    (h : FramesDiffer frames frames') : FramesDiffer (frame :: frames) (frame :: frames')

/-- Two documents are forms whose fields differ at the place. -/
inductive DocumentDiffers : Document → Document → Prop where
  /-- They differ in one field. -/
  | form {x y : Json} (differs : slot.Differs v w x y) {fields : List (Option Json)}
    (hlt : place < fields.length) :
    DocumentDiffers (.form (fields.set place (some x))) (.form (fields.set place (some y)))

/-- Two states of the scanner differ in the value that has been read. -/
inductive ScannerDiffers : Scanner → Scanner → Prop where
  /-- The form is still open. -/
  | reading {focus : Focus} (hfocus : ∀ d, focus ≠ .done d) {frames frames' : List Frame}
    (h : FramesDiffer place slot v w frames frames') :
    ScannerDiffers ⟨focus, frames⟩ ⟨focus, frames'⟩
  /-- The text is complete. -/
  | done {d d' : Document} (h : DocumentDiffers place slot v w d d') (frames : List Frame) :
    ScannerDiffers ⟨.done d, frames⟩ ⟨.done d', frames⟩

end Differ

namespace Scanner

variable {goal : Goal} {place : Nat} {slot : Slot} {v w : Json} {frames frames' : List Frame}

/-! ## The fields of a form -/

section FieldFits

variable {s s' : Scanner} {c : Char}

/-- Every form that is open has the field exactly if the innermost frame does and the others do. -/
theorem fieldFits_cons {frame : Frame} : FieldFits place (frame :: frames) ↔
    (∀ filled next, frame = .fields filled next → place < filled.length) ∧
      FieldFits place frames := by
  simp only [FieldFits, List.mem_cons, or_imp, forall_and, eq_comm]

/-- A value that goes where it belongs leaves the fields of a form. -/
theorem fieldFits_deliver {z : Json} (hfits : FieldFits place frames)
    (h : deliver goal z frames = .ok s') : FieldFits place s'.frames := by
  unfold deliver at h
  unfold FieldFits at *
  grind

/-- After a form nothing is open. -/
theorem fieldFits_closeForm {filled : List (Option Json)} (h : closeForm goal filled = .ok s') :
    FieldFits place s'.frames := by
  unfold closeForm at h
  unfold FieldFits at *
  grind

/-- The end of an array leaves the fields of a form. -/
theorem fieldFits_closeArray (hfits : FieldFits place frames)
    (h : closeArray goal frames = .ok s') : FieldFits place s'.frames := by
  unfold closeArray at h
  grind [fieldFits_cons, fieldFits_deliver, fieldFits_closeForm]

/-- So does the end of an object. -/
theorem fieldFits_closeObject (hfits : FieldFits place frames)
    (h : closeObject goal frames = .ok s') : FieldFits place s'.frames := by
  unfold closeObject at h
  grind [fieldFits_cons, fieldFits_deliver, fieldFits_closeForm]

/-- A character after a value leaves the fields of a form. -/
theorem fieldFits_stepNext (hfits : FieldFits place s.frames)
    (h : stepNext goal s c = .ok s') : FieldFits place s'.frames := by
  unfold stepNext comma at h
  grind [fieldFits_closeArray, fieldFits_closeObject]

/-- So does the end of a number. -/
theorem fieldFits_endNumber {scan : NumberScan} (hfits : FieldFits place frames)
    (h : endNumber goal frames scan = .ok s') : FieldFits place s'.frames := by
  unfold endNumber at h
  grind [fieldFits_deliver]

/-- A form begins with all its fields, and no character takes one away. -/
theorem fieldFits_step (hplace : place < goal.fields.length) (hfits : FieldFits place s.frames)
    (h : step goal s c = .ok s') : FieldFits place s'.frames := by
  obtain ⟨focus, frames⟩ := s
  unfold step at h
  cases focus with
  | value opened =>
    unfold stepValue openArray openObject at h
    grind [fieldFits_cons, fieldFits_closeArray]
  | key opened =>
    unfold stepKey at h
    grind [fieldFits_closeObject]
  | colon => grind
  | next => exact fieldFits_stepNext hfits h
  | done result => exact fieldFits_stepNext hfits h
  | word rest v =>
    unfold stepWord at h
    grind [fieldFits_deliver]
  | text isKey scan =>
    unfold named at h
    grind [fieldFits_cons, fieldFits_deliver]
  | number scan =>
    dsimp only at h
    split at h
    · cases h
      exact hfits
    · cases h
    · obtain ⟨ended, hended, hnext⟩ := bind_eq_ok.mp h
      exact fieldFits_stepNext (fieldFits_endNumber hfits hended) hnext

/-- In all states that are reached an open form has all its fields. -/
theorem fieldFits_run {text : List Char} (hplace : place < goal.fields.length)
    (hfits : FieldFits place s.frames) (h : run goal s text = .ok s') :
    FieldFits place s'.frames :=
  run_preserves (fun _ _ _ hfits hstep => fieldFits_step hplace hfits hstep) hfits h

end FieldFits

/-! ## Values -/

/-- A value that is the same on both sides goes where it belongs. -/
theorem deliver_differ (h : FramesDiffer place slot v w frames frames') (z : Json) :
    SameOutcome (ScannerDiffers place slot v w) (deliver goal z frames)
      (deliver goal z frames') := by
  cases h with
  | array hbase hfits hslot members after before =>
    exact .ok (.reading (by simp) (.array hbase hfits hslot members (z :: after) before))
  | object hbase hfits member after before next =>
    exact .ok (.reading (by simp) (.object hbase hfits member ((next, z) :: after) before next))
  | @fields x y differs filled hlt next hne =>
    cases next with
    | none => exact .ok (.reading (by simp) (.fields differs hlt hne))
    | some q =>
      -- another field is filled
      have hq : place ≠ q := fun heq => hne (congrArg some heq.symm)
      simp only [deliver, List.set_comm _ _ hq]
      refine .ite (.reading (by simp) (.fields differs ?_ (by simp)))
      rwa [List.length_set]
  | @fieldArray x y differs after before hlength =>
    have hsame : (after ++ x :: before).length = (after ++ y :: before).length := by simp
    simp only [deliver, hsame]
    exact .ite (.reading (by simp) (.fieldArray differs (z :: after) hlength))
  | @inside frame hvalue _ _ h =>
    cases frame with
    | fields filled next => cases hvalue
    | fieldArray filled => cases hvalue
    | _ => exact .ok (.reading (by simp) (.inside (by constructor) h))

/-- Objects that differ go into the field. -/
theorem deliver_object_differ (hwant : goal.wantField place = .anything) {base : List Frame}
    (hbase : FieldOpen place base) (hfits : FieldFits place base) {x y : Json}
    (h : slot.Differs v w x y) :
    SameOutcome (ScannerDiffers place slot v w) (deliver goal x base) (deliver goal y base) := by
  cases hbase with
  | fields filled =>
    simp only [deliver, hwant]
    exact .ok (.reading (by simp) (.fields h (hfits _ _ List.mem_cons_self) (by simp)))
  | fieldArray hlength =>
    simp only [deliver, hlength, hwant]
    exact .ok (.reading (by simp) (.fieldArray h [] hlength))

/-- The values go to the place. -/
theorem deliver_slot_differ (hslot : SlotOpen place slot frames) (hfits : FieldFits place frames) :
    SameOutcome (ScannerDiffers place slot v w) (deliver goal v frames)
      (deliver goal w frames) := by
  cases hslot with
  | member hbase key members =>
    have hfits : FieldFits place _ := fun filled next h => hfits filled next (.tail _ h)
    exact .ok (.reading (by simp) (.object hbase hfits (.member key) [] members key))
  | item hbase key members items =>
    have hfits : FieldFits place _ := fun filled next h => hfits filled next (.tail _ (.tail _ h))
    exact .ok (.reading (by simp) (.array hbase hfits rfl members [] items))

/-! ## The end of arrays and objects -/

/-- A form is complete on both sides or on neither. -/
theorem closeForm_differ {x y : Json} (h : slot.Differs v w x y) {filled : List (Option Json)}
    (hlt : place < filled.length) :
    SameOutcome (ScannerDiffers place slot v w) (closeForm goal (filled.set place (some x)))
      (closeForm goal (filled.set place (some y))) := by
  -- it only matters which fields are there
  have hcheck : ∀ filled : List (Option Json),
      ((goal.fields.zip filled).all fun f => !f.1.isText || f.2.isSome) =
        ((goal.fields.zip (filled.map Option.isSome)).all fun f => !f.1.isText || f.2) := by
    intro filled
    rw [List.zip_map_right, List.all_map]
    rfl
  simp only [closeForm, hcheck, List.map_set, Option.isSome_some]
  exact .ite (.done (.form h hlt) [])

/-- An array is closed on both sides. -/
theorem closeArray_differ (h : FramesDiffer place slot v w frames frames') :
    SameOutcome (ScannerDiffers place slot v w) (closeArray goal frames)
      (closeArray goal frames') := by
  cases h with
  | @array base hbase hfits key hslot members after before =>
    -- the list becomes the value of its member
    subst hslot
    have hitems : ∀ z : Json,
        (after ++ z :: before).reverse = before.reverse ++ z :: after.reverse := fun z => by simp
    simp only [closeArray, hitems]
    exact .ok (.reading (by simp)
      (.object hbase hfits (.item key before.reverse after.reverse) [] members key))
  | object => exact .error _
  | fields => exact .error _
  | @fieldArray x y differs after before hlength =>
    have hfields : ∀ z : Json, (after ++ z :: before).reverse.map some ++
        List.replicate (goal.fields.length - (after ++ z :: before).length) none =
          (before.reverse.map some ++ none :: (after.reverse.map some ++
            List.replicate (goal.fields.length - (after.length + before.length + 1)) none)).set
              place (some z) := by
      intro z
      have hplace : (before.reverse.map some).length = place := by simpa using hlength
      rw [List.set_append_right _ _ (Nat.le_of_eq hplace), hplace, Nat.sub_self, List.set_cons_zero]
      simp [Nat.add_assoc]
    simp only [closeArray, hfields]
    refine closeForm_differ differs ?_
    simp only [List.length_append, List.length_map, List.length_reverse, List.length_cons]
    omega
  | @inside frame hvalue _ _ h =>
    cases frame with
    | array items => exact deliver_differ h _
    | skippedArray => exact deliver_differ h _
    | fieldArray filled => cases hvalue
    | _ => exact .error _

/-- An object is closed on both sides. -/
theorem closeObject_differ (hwant : goal.wantField place = .anything)
    (h : FramesDiffer place slot v w frames frames') :
    SameOutcome (ScannerDiffers place slot v w) (closeObject goal frames)
      (closeObject goal frames') := by
  cases h with
  | array => exact .error _
  | @object base hbase hfits x y member after before next =>
    have hmembers : ∀ z : Json, (after ++ (slot.key, z) :: before).reverse =
        before.reverse ++ (slot.key, z) :: after.reverse := fun z => by simp
    simp only [closeObject, hmembers]
    exact deliver_object_differ hwant hbase hfits (.object member _ _)
  | fields differs hlt => exact closeForm_differ differs hlt
  | fieldArray => exact .error _
  | @inside frame hvalue _ _ h =>
    cases frame with
    | object members key => exact deliver_differ h _
    | skippedObject => exact deliver_differ h _
    | fields filled next => cases hvalue
    | _ => exact .error _

/-! ## The beginning of arrays and objects -/

/-- The same kind of value is wanted on both sides. -/
theorem wantInside_differ (h : FramesDiffer place slot v w frames frames') :
    goal.wantInside frames = goal.wantInside frames' := by
  cases h with
  | array => rfl
  | object => rfl
  | @fields x y differs filled hlt next hne => cases next <;> rfl
  | @fieldArray x y differs after before hlength =>
    have hsame : (after ++ x :: before).length = (after ++ y :: before).length := by simp
    simp only [Goal.wantInside, hsame]
  | @inside frame hvalue _ _ h =>
    cases frame with
    | fields filled next => cases hvalue
    | _ => rfl

/-- No form begins inside a field. -/
theorem wantInside_ne_form (h : FramesDiffer place slot v w frames frames') :
    goal.wantInside frames ≠ .form := by
  have hfield : ∀ q, goal.wantField q ≠ .form := by
    intro q
    unfold Goal.wantField
    split
    · split <;> simp
    · simp
  cases h with
  | array => simp [Goal.wantInside]
  | object => simp [Goal.wantInside]
  | @fields x y differs filled hlt next hne =>
    cases next with
    | none => simp [Goal.wantInside]
    | some q => exact hfield q
  | fieldArray => exact hfield _
  | @inside frame hvalue _ _ h =>
    cases frame with
    | fields filled next => cases hvalue
    | fieldArray filled => cases hvalue
    | _ => simp [Goal.wantInside]

/-- As many arrays and objects are open on both sides. -/
theorem length_differ (h : FramesDiffer place slot v w frames frames') :
    frames.length = frames'.length := by
  induction h with
  | inside _ h ih => rw [List.length_cons, List.length_cons, ih]
  | _ => rfl

/-- An array is opened on both sides. -/
theorem openArray_differ (h : FramesDiffer place slot v w frames frames') :
    SameOutcome (ScannerDiffers place slot v w) (openArray goal frames)
      (openArray goal frames') := by
  have hform : goal.wantInside frames ≠ .form := wantInside_ne_form h
  unfold openArray
  rw [← wantInside_differ h, ← length_differ h]
  cases hwant : goal.wantInside frames with
  | anything => exact .ite (.reading (by simp) (.inside (by constructor) h))
  | nothing => exact .ok (.reading (by simp) (.inside (by constructor) h))
  | string => exact .error _
  | form => exact absurd hwant hform

/-- An object is opened on both sides. -/
theorem openObject_differ (h : FramesDiffer place slot v w frames frames') :
    SameOutcome (ScannerDiffers place slot v w) (openObject goal frames)
      (openObject goal frames') := by
  have hform : goal.wantInside frames ≠ .form := wantInside_ne_form h
  unfold openObject
  rw [← wantInside_differ h, ← length_differ h]
  cases hwant : goal.wantInside frames with
  | anything => exact .ite (.reading (by simp) (.inside (by constructor) h))
  | nothing => exact .ok (.reading (by simp) (.inside (by constructor) h))
  | string => exact .error _
  | form => exact absurd hwant hform

/-- A comma is read on both sides. -/
theorem comma_differ (h : FramesDiffer place slot v w frames frames') :
    SameOutcome (ScannerDiffers place slot v w) (comma goal frames) (comma goal frames') := by
  cases h with
  | array hbase hfits hslot => exact .ok (.reading (by simp) (.array hbase hfits hslot _ _ _))
  | object hbase hfits member => exact .ok (.reading (by simp) (.object hbase hfits member _ _ _))
  | fields differs hlt hne => exact .ok (.reading (by simp) (.fields differs hlt hne))
  | @fieldArray x y differs after before hlength =>
    have hsame : (after ++ x :: before).length = (after ++ y :: before).length := by simp
    simp only [comma, hsame]
    exact .ite (.reading (by simp) (.fieldArray differs _ hlength))
  | @inside frame hvalue _ _ h =>
    cases frame with
    | fieldArray filled => cases hvalue
    | fields filled next => cases hvalue
    | _ => exact .ok (.reading (by simp) (.inside (by constructor) h))

/-- A key is read on both sides. -/
theorem named_differ (h : FramesDiffer place slot v w frames frames') (key : String) :
    SameOutcome (ScannerDiffers place slot v w) (named goal key frames)
      (named goal key frames') := by
  cases h with
  | array => exact .error _
  | object hbase hfits member => exact .ok (.reading (by simp) (.object hbase hfits member _ _ _))
  | fieldArray => exact .error _
  | @fields x y differs filled hlt next hne =>
    unfold named
    dsimp only
    cases goal.fields.findIdx? fun f => f.name == key with
    | none => exact .ok (.reading (by simp) (.fields differs hlt (by simp)))
    | some q =>
      by_cases hq : place = q
      · -- the field has been read on both sides
        subst hq
        simp only [List.getElem?_set_self hlt, Option.join_some, Option.isSome_some, if_true]
        exact .error _
      · simp only [List.getElem?_set_ne hq]
        split
        · exact .error _
        · have hne : ¬ some q = some place := fun heq => hq (Option.some.inj heq).symm
          exact .ok (.reading (by simp) (.fields differs hlt hne))
  | @inside frame hvalue _ _ h =>
    cases frame with
    | object members next => exact .ok (.reading (by simp) (.inside (by constructor) h))
    | skippedObject => exact .ok (.reading (by simp) (.inside (by constructor) h))
    | fields filled next => cases hvalue
    | _ => exact .error _

/-! ## Characters -/

/-- A number ends on both sides. -/
theorem endNumber_differ (goal : Goal) (h : FramesDiffer place slot v w frames frames')
    (scan : NumberScan) :
    SameOutcome (ScannerDiffers place slot v w) (endNumber goal frames scan)
      (endNumber goal frames' scan) := by
  unfold endNumber
  rw [wantInside_differ h]
  split
  · exact deliver_differ h _
  · split
    · exact deliver_differ h _
    · exact .error _

/-- A character follows a value on both sides. -/
theorem stepNext_differ (hwant : goal.wantField place = .anything) {s s' : Scanner}
    (h : ScannerDiffers place slot v w s s') (c : Char) :
    SameOutcome (ScannerDiffers place slot v w) (stepNext goal s c) (stepNext goal s' c) := by
  unfold stepNext
  split
  · exact .ok h
  cases h with
  | done h frames => exact .error _
  | @reading focus hfocus _ _ h =>
    cases focus with
    | next =>
      dsimp only
      split
      · exact comma_differ h
      · split
        · exact closeArray_differ h
        · split
          · exact closeObject_differ hwant h
          · exact .error _
    | _ => exact .error _

/-- A value begins on both sides. -/
theorem stepValue_differ (h : FramesDiffer place slot v w frames frames') (opened : Bool)
    (c : Char) : SameOutcome (ScannerDiffers place slot v w) (stepValue goal opened frames c)
      (stepValue goal opened frames' c) := by
  unfold stepValue
  split
  · exact .ok (.reading (by simp) h)
  split
  · exact .ok (.reading (by simp) h)
  split
  · exact openArray_differ h
  split
  · exact openObject_differ h
  split
  · exact closeArray_differ h
  split
  · exact .ok (.reading (by simp) h)
  split
  · exact .ok (.reading (by simp) h)
  · exact .error _

/-- A key begins on both sides. -/
theorem stepKey_differ (hwant : goal.wantField place = .anything)
    (h : FramesDiffer place slot v w frames frames') (opened : Bool) (c : Char) :
    SameOutcome (ScannerDiffers place slot v w) (stepKey goal opened frames c)
      (stepKey goal opened frames' c) := by
  unfold stepKey
  split
  · exact .ok (.reading (by simp) h)
  split
  · exact .ok (.reading (by simp) h)
  split
  · exact closeObject_differ hwant h
  · exact .error _

/-- The value of a string is wanted on both sides or on neither. -/
theorem textWanted_differ (h : FramesDiffer place slot v w frames frames') (isKey : Bool) :
    textWanted goal isKey frames = textWanted goal isKey frames' := by
  cases isKey with
  | false =>
    unfold textWanted
    simp only [wantInside_differ h]
  | true =>
    cases h with
    | @inside frame _ _ _ h => cases frame <;> rfl
    | _ => rfl

/-- A character is read on both sides. -/
theorem step_differ (hwant : goal.wantField place = .anything) {s s' : Scanner}
    (h : ScannerDiffers place slot v w s s') (c : Char) :
    SameOutcome (ScannerDiffers place slot v w) (step goal s c) (step goal s' c) := by
  have hnext := fun {s s'} (h : ScannerDiffers place slot v w s s') => stepNext_differ hwant h c
  cases h with
  | done h frames => exact hnext (.done h frames)
  | @reading focus hfocus _ _ h =>
    unfold step
    cases focus with
    | value opened => exact stepValue_differ h opened c
    | key opened => exact stepKey_differ hwant h opened c
    | colon =>
      dsimp only
      split
      · exact .ok (.reading (by simp) h)
      · exact .ite (.reading (by simp) h)
    | next => exact hnext (.reading (by simp) h)
    | word rest v =>
      unfold stepWord
      cases rest with
      | nil => exact .error _
      | cons first rest =>
        cases rest with
        | nil =>
          dsimp only
          split
          · exact deliver_differ h _
          · exact .error _
        | cons second rest => exact .ite (.reading (by simp) h)
    | number scan =>
      dsimp only
      split
      · exact .ok (.reading (by simp) h)
      · exact .error _
      · -- the character belongs to what follows the number
        exact (endNumber_differ goal h scan).bind fun _ _ h => hnext h
    | text isKey scan =>
      dsimp only
      rw [textWanted_differ h]
      split
      · exact .ok (.reading (by simp) h)
      · exact .error _
      · split
        · exact named_differ h _
        · exact deliver_differ h _
    | done result => exact absurd rfl (hfocus result)

/-- A text is read on both sides. -/
theorem run_differ (hwant : goal.wantField place = .anything) {s s' : Scanner}
    (h : ScannerDiffers place slot v w s s') (text : List Char) :
    SameOutcome (ScannerDiffers place slot v w) (run goal s text) (run goal s' text) := by
  induction text generalizing s s' with
  | nil => exact .ok h
  | cons c text ih =>
    have hstep := step_differ hwant h c
    unfold run
    rcases hstep.ok_or_error with ⟨next, next', hs, hs', h⟩ | ⟨e, hs, hs'⟩ <;> rw [hs, hs']
    · exact ih h
    · exact .error e

/-- A text is complete on both sides, or on neither. -/
theorem finish_differ {s s' : Scanner} (h : ScannerDiffers place slot v w s s') :
    SameOutcome (DocumentDiffers place slot v w) (s.finish goal) (s'.finish goal) := by
  cases h with
  | done h => exact .ok h
  | @reading focus hfocus _ _ h =>
    cases focus with
    | done d => exact absurd rfl (hfocus d)
    | number scan =>
      -- the number ends with the text
      have hend := endNumber_differ goal h scan
      simp only [finish, wantInside_differ h]
      split
      · exact .error _
      · rcases hend.ok_or_error with ⟨s, s', hs, hs', h⟩ | ⟨e, hs, hs'⟩ <;> rw [hs, hs']
        · cases h with
          | done h => exact .ok h
          | @reading focus hfocus _ _ h =>
            cases focus with
            | done d => exact absurd rfl (hfocus d)
            | _ => exact .error _
        · exact .error e
    | _ => exact .error _

/-- Whichever value has been read at a place, the rest of the text is read alike. -/
theorem readRest_deliver (hwant : goal.wantField place = .anything)
    (hslot : SlotOpen place slot frames) (hfits : FieldFits place frames) (v w : Json)
    (rest : List Char) : SameOutcome (DocumentDiffers place slot v w)
      ((deliver goal v frames).bind fun s => readRest goal s rest)
      ((deliver goal w frames).bind fun s => readRest goal s rest) :=
  (deliver_slot_differ hslot hfits).bind fun _ _ h =>
    (run_differ hwant h rest).bind fun _ _ h => finish_differ h

end Scanner

end Json

end LedgerBench
