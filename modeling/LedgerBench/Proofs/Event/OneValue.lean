import LedgerBench.Proofs.Event.Tells
import LedgerBench.Proofs.Json.OnePlace
import LedgerBench.Proofs.Json.QuotedText

/-!
# Records that differ in one value

A record names a transaction in its payload, by the member `tx_id` or by an item of the list
`tx_ids` (`Record.NamesTx`). An integer and the string of its digits give the same name, since the
name of a number is its text (`TxId.ofJson?_integer`). So records that differ in this way are judged
alike by every role (`Record.judge_differs`), and records that are read from two such texts differ
in this way, or neither text is a record (`Record.read_sameOutcome`).
-/

namespace LedgerBench

open Json (Slot SlotOpen)

/-! ## Names -/

/-- The name that an integer gives is the string of its digits. -/
theorem TxId.ofJson?_integer (n : Int) :
    ofJson? (.number (.integer n)) = some (String.ofList (JsonNumber.integerText n)) := rfl

namespace Json

variable {slot : Slot} {v w p q : Json}

/-- Objects that differ at a place have the same value for a key, or values that differ at the place
if the key is the one of the place. -/
theorem Slot.Differs.get? (h : slot.Differs v w p q) (key : String) :
    p.get? key = q.get? key ∨ key = slot.key ∧
      ∃ x y, slot.MemberDiffers v w x y ∧ p.get? key = some x ∧ q.get? key = some y := by
  cases h with
  | @object x y member before after =>
    have hget : ∀ z : Json, (Json.object (before ++ (slot.key, z) :: after)).get? key =
        ((after.reverse.find? fun m => m.1 == key).or
          (((slot.key, z) :: before.reverse).find? fun m => m.1 == key)).map (·.2) := by
      intro z
      have hreverse : (before ++ (slot.key, z) :: after).reverse =
          after.reverse ++ (slot.key, z) :: before.reverse := by simp
      simp only [Json.get?, hreverse, List.find?_append]
    rw [hget, hget]
    cases after.reverse.find? fun m => m.1 == key with
    | some m => exact .inl rfl
    | none =>
      by_cases hkey : slot.key = key
      · refine .inr ⟨hkey.symm, x, y, member, ?_, ?_⟩ <;>
          rw [List.find?_cons_of_pos (by simpa using hkey)] <;> rfl
      · left
        rw [List.find?_cons_of_neg (by simpa using hkey),
          List.find?_cons_of_neg (by simpa using hkey)]

/-- An object has a value at a place. -/
def Slot.Holds (slot : Slot) (v p : Json) : Prop := slot.Differs v v p p

/-- Of objects that differ at a place, the first one has its value there. -/
theorem Slot.Differs.holds (h : slot.Differs v w p q) : slot.Holds v p := by
  cases h with
  | object member =>
    cases member with
    | member => exact .object (.member _) _ _
    | item => exact .object (.item _ _ _) _ _

end Json

namespace Record

/-! ## Records -/

/-- Two records differ in a value of their payloads: one has `v` there, and the other has `w`. -/
inductive Differs (slot : Slot) (v w : Json) : Record → Record → Prop where
  /-- All other fields are the same. -/
  | payload {x y : Json} (differs : slot.Differs v w x y) (r : Record) :
    Differs slot v w { r with payload := x } { r with payload := y }

/-- A place of a payload where a transaction is named. -/
inductive NamesTx : Slot → Prop where
  /-- The transaction that a record is about. -/
  | txId : NamesTx (.member "tx_id")
  /-- A transaction of a block. -/
  | txIds : NamesTx (.item "tx_ids")

section Judge

variable {slot : Slot} {v w : Json} {id : TxId} {x y : Json} (r : Record)

/-- The records name the same transaction. -/
theorem txId_differs (hslot : NamesTx slot) (hv : TxId.ofJson? v = some id)
    (hw : TxId.ofJson? w = some id) (h : slot.Differs v w x y) :
    txId { r with payload := x } = txId { r with payload := y } := by
  unfold txId
  rcases h.get? "tx_id" with heq | ⟨hkey, x', y', member, hx, hy⟩
  · rw [heq]
  · cases hslot with
    | txIds => exact absurd hkey (by decide)
    | txId =>
      cases member with
      | member =>
        simp only [hx, hy, Option.bind_some, hv, hw]

/-- They list the same transactions. -/
theorem txIds_differs (hslot : NamesTx slot) (hv : TxId.ofJson? v = some id)
    (hw : TxId.ofJson? w = some id) (h : slot.Differs v w x y) :
    txIds { r with payload := x } = txIds { r with payload := y } := by
  unfold txIds
  rcases h.get? "tx_ids" with heq | ⟨hkey, x', y', member, hx, hy⟩
  · rw [heq]
  · cases hslot with
    | txId => exact absurd hkey (by decide)
    | txIds =>
      cases member with
      | item _ before after =>
        have hitem : itemTxId v = itemTxId w := by simp only [itemTxId, hv, hw]
        simp only [hx, hy, List.mapM_append, List.mapM_cons, hitem]

/-- Other values of the payload are the same. -/
theorem get?_differs (hslot : NamesTx slot) (h : slot.Differs v w x y) {key : String}
    (hkey : key ≠ "tx_id" ∧ key ≠ "tx_ids") : x.get? key = y.get? key := by
  rcases h.get? key with heq | ⟨heq, -⟩
  · exact heq
  · cases hslot with
    | txId => exact absurd heq hkey.1
    | txIds => exact absurd heq hkey.2

/-- Records that differ in how they name a transaction are judged alike. -/
theorem judge_differs (hslot : NamesTx slot) (hv : TxId.ofJson? v = some id)
    (hw : TxId.ofJson? w = some id) {r r' : Record} (h : Differs slot v w r r') (role : Role) :
    r.judge role = r'.judge role := by
  cases h with
  | @payload x y differs r =>
    have htxId := txId_differs r hslot hv hw differs
    have htxIds := txIds_differs r hslot hv hw differs
    have hheight : height { r with payload := x } = height { r with payload := y } := by
      simp only [height, get?_differs hslot differs (by decide : "height" ≠ "tx_id" ∧ _)]
    have hrate : rate? { r with payload := x } = rate? { r with payload := y } := by
      simp only [rate?, get?_differs hslot differs (by decide : "rate" ≠ "tx_id" ∧ _)]
    have hinstant : instant { r with payload := x } = instant { r with payload := y } := rfl
    have hmicros : micros { r with payload := x } = micros { r with payload := y } := rfl
    have heffect : ∀ occurrence, effect { r with payload := x } role occurrence =
        effect { r with payload := y } role occurrence := by
      intro occurrence
      unfold effect
      rw [htxId, htxIds, hheight, hrate, hinstant, hmicros]
    unfold judge
    simp only [heffect]

end Judge

/-! ## Texts -/

/-- The place of the payload among the fields of a record. -/
def payloadPlace : Nat := 4

/-- A value of any kind is wanted for the payload. -/
theorem wantField_payload : Json.Goal.wantField (.form form) payloadPlace = .anything := rfl

/-- The beginning of a record up to a value that names a transaction. -/
def NameOpen (slot : Slot) (front : List Char) : Prop :=
  NamesTx slot ∧ ∃ opened frames,
    Json.Scanner.run (.form form) .start front = .ok ⟨.value opened, frames⟩ ∧
      SlotOpen payloadPlace slot frames

variable {slot : Slot} {v w : Json}

/-- Records have five fields. -/
theorem ofFields_of_length_ne {fields : List (Option Json)} (h : fields.length ≠ 5) :
    ofFields fields = none := by
  unfold ofFields
  split
  · exact absurd rfl h
  · rfl

/-- Documents that differ at a place of the payload are records that do so, or both are none. -/
theorem read_sameOutcome {text text' : List Char}
    (h : SameOutcome (Json.DocumentDiffers payloadPlace slot v w)
      (Json.readDocument (.form form) text) (Json.readDocument (.form form) text')) :
    SameOutcome (Differs slot v w) (read text) (read text') := by
  unfold read
  rcases h.ok_or_error with ⟨_, _, hd, hd', hdiffers⟩ | ⟨e, hd, hd'⟩ <;> rw [hd, hd']
  · cases hdiffers with
    | @form x y differs fields hlt =>
      by_cases hlength : fields.length = 5
      · rcases fields with _ | ⟨a, _ | ⟨b, _ | ⟨c, _ | ⟨d, _ | ⟨e, _ | ⟨f, more⟩⟩⟩⟩⟩⟩
        case pos.cons.cons.cons.cons.cons.nil =>
          -- kind and label are strings on both sides, or they are not
          rcases a with _ | (_ | _ | _ | kind | _ | _)
          case some.text =>
            rcases b with _ | (_ | _ | _ | label | _ | _)
            case some.text => exact .ok (.payload differs ⟨kind, label, present c, present d, x⟩)
            all_goals exact .error _
          all_goals exact .error _
        all_goals simp at hlength
      · have hnone : ∀ z, ofFields (fields.set payloadPlace (some z)) = none :=
          fun z => ofFields_of_length_ne (by rwa [List.length_set])
        simp only [hnone]
        exact .error _
  · exact .error e

/-- Behind the beginning of a record up to a name, the text of an integer and the string of its
digits are read as records that differ in this name, or neither text is a record. -/
theorem read_integerText {front rest : List Char} (hfront : NameOpen slot front) {n : Int}
    (hn : (JsonNumber.integer n).FitsWord) (hrest : ∀ c ∈ rest.head?, Json.NumberScan.Stops c) :
    SameOutcome (Differs slot (.number (.integer n))
        (.text (String.ofList (JsonNumber.integerText n))))
      (read (front ++ (JsonNumber.integerText n ++ rest)))
      (read (front ++ (Json.quoted (String.ofList (JsonNumber.integerText n)) ++ rest))) := by
  obtain ⟨-, opened, frames, hrun, hslot⟩ := hfront
  have hfits : Json.FieldFits payloadPlace frames :=
    Json.Scanner.fieldFits_run (by decide) (fun _ _ h => by cases h) hrun
  have hanything : Json.Goal.wantInside (.form form) frames = .anything := by
    cases hslot <;> rfl
  have hwanted : Json.Scanner.textWanted (.form form) false frames = true := by
    simp [Json.Scanner.textWanted, hanything]
  have hvalue : Json.Goal.wantInside (.form form) frames ≠ .nothing := by simp [hanything]
  have hopen : Json.Scanner.step (.form form) ⟨.value opened, frames⟩ '"' =
      .ok ⟨.text false .start, frames⟩ := rfl
  refine read_sameOutcome ?_
  rw [Json.Scanner.readDocument_eq, Json.Scanner.readDocument_eq,
    Json.Scanner.readRest_append hrun, Json.Scanner.readRest_append hrun,
    Json.Scanner.readRest_integerText hn hvalue opened hrest,
    Json.Scanner.readRest_quoted hwanted hopen]
  exact Json.Scanner.readRest_deliver wantField_payload hslot hfits _ _ rest

end Record

end LedgerBench
