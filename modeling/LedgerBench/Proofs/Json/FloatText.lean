import LedgerBench.Proofs.Double.Finite
import LedgerBench.Proofs.Double.PowersOfTen
import LedgerBench.Proofs.Json.NumberText

/-!
# Reading the text of a double

The text of a finite double is read as a double (`readsAsFloat_floatText`). It has a decimal point
or an exponent, so it is no integer, and it is not too large: what is gathered in the word is a
front part of the digits that were written (`JsonNumber.exists_gather`), so it is scaled to at most
the decimal that was written.

A positional text has at most sixteen digits before the point and at least one behind it, so that
its word is always divided by a power of ten. In the text with an exponent the digits are the ones
of the shortest decimal (`readsAsFloat_scientificText`).
-/

namespace LedgerBench

namespace JsonNumber

/-! ## Numbers that are scaled -/

/-- What is gathered in a word is a front part of the digits. -/
theorem exists_gather (n : ℕ) (ds : List ℕ) :
    ∃ t ≤ ds.length, gather n ds = (valueAfter n (ds.take t), t) := by
  induction ds generalizing n with
  | nil => exact ⟨0, Nat.le_refl 0, rfl⟩
  | cons d ds ih =>
    unfold gather
    split
    · obtain ⟨t, ht, hgather⟩ := ih (10 * n + d)
      refine ⟨t + 1, Nat.succ_le_succ ht, ?_⟩
      rw [hgather]
      rfl
    · exact ⟨0, Nat.zero_le _, rfl⟩

/-- A number with decimal places and a short whole part is read as a double. -/
theorem exists_ofWritten_places (negative : Bool) {whole : List ℕ} {d : ℕ}
    (hwhole : valueAfter 0 whole < 10 ^ 16) (hd : d < 10) (places : List ℕ) :
    ∃ x, ofWritten ⟨negative, whole, some (d :: places), none⟩ = some (.float x) := by
  have hword : valueAfter 0 whole < 2 ^ 64 := hwhole.trans (by norm_num)
  -- at least one place goes into the word, which is then divided by a power of ten
  obtain ⟨word, placed, hgather, hplaced⟩ : ∃ word placed,
      gather (valueAfter 0 whole) (d :: places) = (word, placed) ∧ 0 < placed := by
    have hfits : 10 * valueAfter 0 whole + d < Nat.pow 2 64 := by
      show _ < 2 ^ 64
      omega
    rw [gather, if_pos hfits]
    exact ⟨_, _, rfl, Nat.succ_pos _⟩
  obtain ⟨x, hx⟩ := Option.isSome_iff_exists.mp
    (isSome_scale_of_neg (Float.ofNat word) (by omega : -(placed : ℤ) < 0))
  refine ⟨if negative then -x else x, ?_⟩
  have hexponent : ((whole.length - whole.length : ℕ) : ℤ) - placed + 0 = -placed := by omega
  unfold ofWritten
  simp only [gather_of_lt hword, Option.isNone_some, Bool.and_false, Bool.false_and,
    Bool.false_eq_true, if_false, Option.getD_some, Option.getD_none, hgather, hexponent, hx,
    Option.map_some]

/-- A number with an exponent is read as a double if it is not larger than the largest double is
written as. -/
theorem exists_ofWritten_exponent (negative : Bool) {d : ℕ} (places : Option (List ℕ)) {e : ℤ}
    (hd : d < 10) (hword : valueAfter d (places.getD []) ≤ 10 ^ 17)
    (hvalue : (valueAfter d (places.getD []) : ℚ) * 10 ^ (e - (places.getD []).length) ≤
      Decimal.largest.value) :
    ∃ x, ofWritten ⟨negative, [d], places, some e⟩ = some (.float x) := by
  have hfirst : gather 0 [d] = (d, 1) := by
    have hfits : 10 * 0 + d < Nat.pow 2 64 := lt_of_lt_of_le (by omega) (by norm_num : 10 ≤ 2 ^ 64)
    rw [gather, if_pos hfits, Nat.mul_zero, Nat.zero_add]
    rfl
  generalize hds : places.getD [] = ds at hword hvalue
  obtain ⟨placed, hplaced, hgather⟩ := exists_gather d ds
  -- the digits that are left out would make the number larger
  have hfront : valueAfter d (ds.take placed) * 10 ^ (ds.length - placed) ≤ valueAfter d ds := by
    have hrest := mul_pow_le_valueAfter (valueAfter d (ds.take placed)) (ds.drop placed)
    rwa [← valueAfter_append, List.take_append_drop, List.length_drop] at hrest
  have hsmall : valueAfter d (ds.take placed) ≤ 10 ^ 17 :=
    (Nat.le_mul_of_pos_right _ (by positivity)).trans (hfront.trans hword)
  have hscaled : (valueAfter d (ds.take placed) : ℚ) * 10 ^ (e - placed) ≤ Decimal.largest.value :=
    calc (valueAfter d (ds.take placed) : ℚ) * 10 ^ (e - placed)
        = (valueAfter d (ds.take placed) * 10 ^ (ds.length - placed) : ℕ) *
            10 ^ (e - ds.length) := by
          have hsplit : e - placed = (ds.length - placed : ℕ) + (e - ds.length) := by omega
          rw [hsplit, zpow_add₀ (by norm_num), zpow_natCast]
          push_cast
          ring
      _ ≤ (valueAfter d ds : ℕ) * 10 ^ (e - ds.length) := by
          gcongr
      _ ≤ Decimal.largest.value := hvalue
  obtain ⟨x, hx⟩ := Option.isSome_iff_exists.mp (isSome_scale hsmall hscaled)
  refine ⟨if negative then -x else x, ?_⟩
  have hexponent : (([d].length - 1 : ℕ) : ℤ) - placed + e = e - placed := by
    rw [List.length_singleton]
    omega
  unfold ofWritten
  simp only [hfirst, Option.isNone_some, Bool.and_false, Bool.false_and,
    Bool.false_eq_true, if_false, Option.getD_some, hds, hgather, hexponent, hx, Option.map_some]

end JsonNumber

/-! ## The scan of places and exponents -/

namespace Json.NumberScan

variable {negative below : Bool} {front ds : List ℕ} {back : Option (List ℕ)} {c : Char}
  {cs : List Char}

/-- Digits go on with decimal places. -/
theorem run?_places (hdigits : ∀ c ∈ cs, c.isDigit = true) :
    (places negative front ds).run? cs =
      some (.places negative front ((digitValues cs).reverse ++ ds)) := by
  induction cs generalizing ds with
  | nil => rfl
  | cons c cs ih =>
    obtain ⟨hc, hcs⟩ := List.forall_mem_cons.mp hdigits
    have hstep : (places negative front ds).step c =
        .more (.places negative front ((c.toNat - '0'.toNat) :: ds)) := by
      simp only [step, digit?_of_isDigit hc]
    rw [run?_cons hstep, ih hcs]
    simp [digitValues]

/-- A decimal point and digits go on with a whole part. -/
theorem run?_point (hdigits : ∀ c ∈ cs, c.isDigit = true) (hne : cs ≠ []) :
    (whole negative front).run? ('.' :: cs) =
      some (.places negative front (digitValues cs).reverse) := by
  obtain ⟨c, cs, rfl⟩ := List.exists_cons_of_ne_nil hne
  obtain ⟨hc, hcs⟩ := List.forall_mem_cons.mp hdigits
  have hpoint : (whole negative front).step '.' = .more (.point negative front) := rfl
  have hfirst : (point negative front).step c =
      .more (.places negative front [c.toNat - '0'.toNat]) := by
    simp only [step, digit?_of_isDigit hc]
  rw [run?_cons hpoint, run?_cons hfirst, run?_places hcs]
  simp [digitValues]

/-- Digits go on with an exponent. -/
theorem run?_exponent {value : ℕ} (hdigits : ∀ c ∈ cs, c.isDigit = true) :
    (exponent negative front back below value).run? cs =
      some (.exponent negative front back below (valueAfter value (digitValues cs))) := by
  induction cs generalizing value with
  | nil => rfl
  | cons c cs ih =>
    obtain ⟨hc, hcs⟩ := List.forall_mem_cons.mp hdigits
    have hstep : (exponent negative front back below value).step c =
        .more (.exponent negative front back below (10 * value + (c.toNat - '0'.toNat))) := by
      simp only [step, digit?_of_isDigit hc]
    rw [run?_cons hstep, ih hcs]
    rfl

/-- A sign and digits behind the mark of an exponent give its value. -/
theorem run?_mark (hdigits : ∀ c ∈ cs, c.isDigit = true) (hne : cs ≠ []) :
    (mark negative front back).run? ((if below then '-' else '+') :: cs) =
      some (.exponent negative front back below (valueAfter 0 (digitValues cs))) := by
  obtain ⟨c, cs, rfl⟩ := List.exists_cons_of_ne_nil hne
  obtain ⟨hc, hcs⟩ := List.forall_mem_cons.mp hdigits
  have hsign : (mark negative front back).step (if below then '-' else '+') =
      .more (.markSign negative front back below) := by
    cases below <;> rfl
  have hfirst : (markSign negative front back below).step c =
      .more (.exponent negative front back below (c.toNat - '0'.toNat)) := by
    simp only [step, digit?_of_isDigit hc]
  rw [run?_cons hsign, run?_cons hfirst, run?_exponent hcs]
  simp [digitValues, valueAfter]

end Json.NumberScan

/-! ## Texts of doubles -/

open Json (NumberScan)

/-- The text is the text of a number, which is read as a double. -/
def ReadsAsFloat (text : List Char) : Prop :=
  ∃ scan x, NumberScan.ofText? text = some scan ∧
    scan.written?.bind JsonNumber.ofWritten = some (.float x)

/-- A sign, a whole part of at most sixteen digits and decimal places are read as a double. -/
theorem readsAsFloat_positional (negative : Bool) {c : Char} {cs places : List Char}
    (hwhole : ∀ c' ∈ c :: cs, c'.isDigit = true) (hzero : c.toNat - '0'.toNat = 0 → cs = [])
    (hlength : (c :: cs).length ≤ 16) (hplaces : ∀ c ∈ places, c.isDigit = true)
    (hne : places ≠ []) :
    ReadsAsFloat ((if negative then ['-'] else []) ++ (c :: cs ++ '.' :: places)) := by
  obtain ⟨hc, hcs⟩ := List.forall_mem_cons.mp hwhole
  have hscan := (NumberScan.ofText?_signed negative hc hcs hzero ('.' :: places)).trans
    (NumberScan.run?_point hplaces hne)
  have hword : valueAfter 0 (digitValues (c :: cs)) < 10 ^ 16 := by
    refine lt_of_lt_of_le (valueAfter_lt 0 (lt_of_mem_digitValues hwhole)) ?_
    rw [zero_add, one_mul, digitValues, List.length_map]
    exact Nat.pow_le_pow_right (by norm_num) hlength
  obtain ⟨p, ps, rfl⟩ := List.exists_cons_of_ne_nil hne
  obtain ⟨x, hx⟩ := JsonNumber.exists_ofWritten_places negative hword
    (digitValue_lt (List.forall_mem_cons.mp hplaces).1) (digitValues ps)
  refine ⟨_, x, hscan, ?_⟩
  rw [NumberScan.written?, Option.bind_some, List.reverse_reverse, List.reverse_reverse]
  exact hx

/-- A sign, one digit, perhaps decimal places, and an exponent are read as a double, if the number
is not larger than the largest double is written as. -/
theorem readsAsFloat_exponent (negative : Bool) {c : Char} {cs : List Char} {e : ℤ}
    (hdigits : ∀ c' ∈ c :: cs, c'.isDigit = true)
    (hword : valueAfter 0 (digitValues (c :: cs)) ≤ 10 ^ 17)
    (hvalue : (valueAfter 0 (digitValues (c :: cs)) : ℚ) * 10 ^ (e - cs.length) ≤
      Decimal.largest.value) :
    ReadsAsFloat ((if negative then ['-'] else []) ++ ([c] ++
      ((if cs = [] then [] else '.' :: cs) ++
        'e' :: (if e < 0 then '-' else '+') :: Nat.toDigits 10 e.natAbs))) := by
  obtain ⟨hc, hcs⟩ := List.forall_mem_cons.mp hdigits
  have hfirst : valueAfter 0 (digitValues (c :: cs)) =
      valueAfter (c.toNat - '0'.toNat) (digitValues cs) := by
    simp [digitValues, valueAfter]
  have hexponent : (if decide (e < 0) = true then -(e.natAbs : ℤ) else e.natAbs) = e := by
    split <;> rename_i h <;> rw [decide_eq_true_eq] at h <;> omega
  -- the mark is read after the digit, or after the places
  have hmark : ∀ back, (NumberScan.mark negative [c.toNat - '0'.toNat] back).run?
      ((if e < 0 then '-' else '+') :: Nat.toDigits 10 e.natAbs) =
        some (.exponent negative [c.toNat - '0'.toNat] back (decide (e < 0)) e.natAbs) := by
    intro back
    have hrun : (NumberScan.mark negative [c.toNat - '0'.toNat] back).run?
        ((if decide (e < 0) then '-' else '+') :: Nat.toDigits 10 e.natAbs) = _ :=
      NumberScan.run?_mark (fun _ hc' => isDigit_toDigits hc') Nat.toDigits_ne_nil
    rw [valueAfter_toDigits] at hrun
    simpa only [decide_eq_true_eq] using hrun
  rw [hfirst] at hword hvalue
  unfold ReadsAsFloat
  rw [NumberScan.ofText?_signed negative hc (by simp) (by simp)]
  by_cases hnone : cs = []
  · subst hnone
    obtain ⟨x, hx⟩ :=
      JsonNumber.exists_ofWritten_exponent negative none (digitValue_lt hc) hword hvalue
    refine ⟨_, x, hmark none, ?_⟩
    rw [NumberScan.written?, hexponent]
    exact hx
  · have hplaces : (NumberScan.whole negative (digitValues [c]).reverse).run? ('.' :: cs) = _ :=
      NumberScan.run?_point hcs hnone
    have hscan := hmark (some (digitValues cs).reverse)
    obtain ⟨x, hx⟩ := JsonNumber.exists_ofWritten_exponent negative (some (digitValues cs))
      (digitValue_lt hc) hword (by simpa [digitValues] using hvalue)
    refine ⟨_, x, Eq.trans ?_ hscan, ?_⟩
    · rw [if_neg hnone, NumberScan.run?_append, hplaces]
      rfl
    · rw [NumberScan.written?, hexponent, Option.map_some, List.reverse_reverse]
      exact hx

/-- The text of a decimal that is not larger than the largest double is written as is read as a
double, also behind a minus sign. -/
theorem readsAsFloat_scientificText (negative : Bool) {s : Decimal.Scientific}
    (hpos : 0 < s.coefficient) (hword : s.coefficient ≤ 10 ^ 17)
    (hvalue : s.value ≤ Decimal.largest.value) :
    ReadsAsFloat ((if negative then ['-'] else []) ++ JsonNumber.scientificText s) := by
  obtain ⟨c, cs, hdigits, -, hzero⟩ := exists_toDigits hpos
  have hall : ∀ c' ∈ c :: cs, c'.isDigit = true := fun c' hc' => isDigit_toDigits (hdigits ▸ hc')
  have hrest : ∀ c' ∈ cs, c'.isDigit = true := fun c' hc' => hall c' (List.mem_cons_of_mem c hc')
  have hcoefficient : valueAfter 0 (digitValues (c :: cs)) = s.coefficient := by
    rw [← hdigits, valueAfter_toDigits]
  have hzeros : ∀ n, ∀ c' ∈ List.replicate n '0', c'.isDigit = true := fun n c' hc' => by
    rw [List.eq_of_mem_replicate hc']
    rfl
  unfold JsonNumber.scientificText
  rw [hdigits]
  dsimp only
  generalize hlead : s.exponent + ((c :: cs).length : ℤ) - 1 = lead
  by_cases hrange : 0 ≤ lead ∧ lead ≤ 15
  · -- the digits before the point are filled up with zeros
    have hlength : (cs.take lead.toNat ++
        List.replicate (lead.toNat + 1 - (c :: cs).length) '0').length ≤ 15 := by
      rw [List.length_append, List.length_take, List.length_replicate, List.length_cons]
      omega
    rw [if_pos hrange, List.take_succ_cons, List.cons_append, List.drop_succ_cons]
    refine readsAsFloat_positional negative ?_ (fun h => absurd h hzero) (Nat.succ_le_succ hlength)
      ?_ ?_
    · have htake : ∀ c' ∈ cs.take lead.toNat, c'.isDigit = true := fun c' hc' =>
        hrest c' (List.mem_of_mem_take hc')
      exact List.forall_mem_cons.mpr ⟨hall c List.mem_cons_self,
        List.forall_mem_append.mpr ⟨htake, hzeros _⟩⟩
    · split
      · exact List.forall_mem_singleton.mpr rfl
      · exact fun c' hc' => hrest c' (List.mem_of_mem_drop hc')
    · split
      · exact List.cons_ne_nil _ _
      · rename_i hplaces
        rwa [List.isEmpty_iff] at hplaces
  rw [if_neg hrange]
  by_cases hbelow : -5 ≤ lead ∧ lead < 0
  · -- zeros stand between the point and the digits
    rw [if_pos hbelow]
    exact readsAsFloat_positional negative (List.forall_mem_singleton.mpr rfl) (fun _ => rfl)
      (by simp) (List.forall_mem_append.mpr ⟨hzeros _, hall⟩) (by simp)
  · have hexponent : lead - cs.length = s.exponent := by
      rw [← hlead, List.length_cons]
      omega
    rw [Decimal.Scientific.value, ← hcoefficient, ← hexponent] at hvalue
    rw [← hcoefficient] at hword
    have hone : (c :: cs).length = 1 ↔ cs = [] := by simp
    have hreads := readsAsFloat_exponent negative hall hword hvalue
    simpa only [if_neg hbelow, hone, List.take_succ_cons, List.take_zero, List.drop_succ_cons,
      List.drop_zero, List.append_assoc] using hreads

/-! ## Doubles -/

/-- The text of a finite double is read as a double. -/
theorem readsAsFloat_floatText {x : Float} (h : x.isFinite = true) :
    ReadsAsFloat (JsonNumber.floatText x) := by
  obtain ⟨negative, m, e, hparts, hm, he⟩ := exists_ofFloat_eq_finite h
  unfold JsonNumber.floatText
  rw [hparts]
  dsimp only
  by_cases hzero : m = 0
  · rw [if_pos hzero]
    exact readsAsFloat_positional negative (List.forall_mem_singleton.mpr rfl) (fun _ => rfl)
      (by simp) (List.forall_mem_singleton.mpr rfl) (by simp)
  · have hpos : 0 < m := Nat.pos_of_ne_zero hzero
    have hshortest := Decimal.shortest_readsBack hpos hm e
    rw [if_neg hzero]
    exact readsAsFloat_scientificText negative hshortest.pos hshortest.coefficient_le
      (Decimal.value_shortest_le hpos hm he)

/-- What is not finite is written as `null`. -/
theorem floatText_of_not_isFinite {x : Float} (h : x.isFinite = false) :
    JsonNumber.floatText x = ['n', 'u', 'l', 'l'] := by
  unfold JsonNumber.floatText
  rcases ofFloat_of_not_isFinite h with hnan | ⟨negative, hinfinite⟩
  · rw [hnan]
  · rw [hinfinite]

end LedgerBench
