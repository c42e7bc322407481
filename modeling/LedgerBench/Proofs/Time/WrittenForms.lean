import LedgerBench.Proofs.Time.Range

/-!
# What both forms of a timestamp write

A date and a time of day with all their digits can be written in both forms: the plain form ends
there, and the zoned form goes on with the offset from universal time. Both mean the same instant,
up to the offset, and both refuse the same digits (`read_sameInstant`).

`DateTimeText` holds the digits that both forms share, and `Writes` says which instant they mean.
Each group of digits is a number for the readers of both forms, since the plain form's readers take
no more digits than there are (`number_append`, `shortNumber_append`, `year_append`). So each form
reads the digits, checks the bounds, and ends in the same date and time of day (`readPlain_iff`,
`readZoned_iff`). That the other form is refused takes no more than a look at what follows the
digits: the plain form cannot go on, and the zoned form cannot end.
-/

namespace LedgerBench

/-- No digit is white space. -/
theorem Text.isBlank_of_isDigit {c : Char} (h : c.isDigit = true) : isBlank c = false := by
  unfold Char.isDigit at h
  rw [Bool.and_eq_true, decide_eq_true_eq, decide_eq_true_eq] at h
  have hzero : 48 ≤ c.toNat := h.1
  have hnine : c.toNat ≤ 57 := h.2
  unfold isBlank
  simp
  omega

/-- A date exists if its month and its day do. -/
theorem Date.isValid_iff (d : Date) : d.isValid = true ↔
    1 ≤ d.month ∧ d.month ≤ 12 ∧ 1 ≤ d.day ∧ d.day ≤ daysInMonth d.year d.month := by
  simp only [Date.isValid, Bool.and_eq_true, decide_eq_true_eq, and_assoc]

namespace Timestamp

/-! ## Groups of digits -/

/-- A group of `n` decimal digits. -/
structure DigitGroup (n : ℕ) where
  /-- The digits. -/
  chars : List Char
  /-- There are `n` of them. -/
  length_eq : chars.length = n
  /-- They are digits. -/
  isDigit : ∀ c ∈ chars, c.isDigit = true

namespace DigitGroup

variable {n : ℕ}

/-- The number that the digits write. -/
def value (digits : DigitGroup n) : ℕ := valueOf digits.chars

/-- A group of `n` digits writes a number of `n` digits. -/
theorem value_lt (digits : DigitGroup n) : digits.value < 10 ^ n := by
  have hlt := foldl_digits_lt digits.isDigit 0
  rwa [Nat.zero_add, Nat.one_mul, digits.length_eq] at hlt

/-- A group of digits that is not empty has a first digit. -/
theorem exists_cons (digits : DigitGroup n) (hpos : 0 < n) :
    ∃ c cs, digits.chars = c :: cs ∧ c.isDigit = true := by
  obtain ⟨c, cs, hchars⟩ := List.exists_cons_of_length_pos (digits.length_eq ▸ hpos)
  exact ⟨c, cs, hchars, digits.isDigit c (hchars ▸ List.mem_cons_self)⟩

end DigitGroup

section Readers

variable {n least low high : ℕ} (digits : DigitGroup n) (rest : List Char)

/-- A group of digits is read as its number if as many digits are taken. -/
theorem number_append (hleast : least ≤ n) (hsize : n ≤ 18) :
    number least (some n) (digits.chars ++ rest) = .ok (digits.value, rest) := by
  have htaken : ((digits.chars ++ rest).take n).takeWhile Char.isDigit = digits.chars := by
    rw [List.take_left' digits.length_eq]
    exact List.takeWhile_eq_self_iff.mpr digits.isDigit
  have hword : ¬ valueOf digits.chars ≥ Nat.pow 2 63 := by
    have hpower : 10 ^ n ≤ 10 ^ 18 := Nat.pow_le_pow_right (by norm_num) hsize
    have hlt : valueOf digits.chars < 10 ^ n := digits.value_lt
    norm_num at hpower ⊢
    omega
  unfold number
  dsimp only
  rw [htaken, if_neg (by rw [digits.length_eq]; omega), if_neg hword, List.drop_left]
  rfl

/-- No white space stands before a group of digits. -/
theorem dropWhile_isBlank_append (hpos : 0 < n) :
    (digits.chars ++ rest).dropWhile Text.isBlank = digits.chars ++ rest := by
  obtain ⟨c, cs, hchars, hdigit⟩ := digits.exists_cons hpos
  have hblank : Text.isBlank c = false := Text.isBlank_of_isDigit hdigit
  rw [hchars, List.cons_append, List.dropWhile_cons_of_neg (Bool.eq_false_iff.mp hblank)]

/-- No sign stands before a group of digits. -/
theorem append_ne_cons (hpos : 0 < n) {sign : Char} (hsign : sign.isDigit = false)
    (s : List Char) : digits.chars ++ rest ≠ sign :: s := by
  obtain ⟨c, cs, hchars, hdigit⟩ := digits.exists_cons hpos
  rw [hchars, List.cons_append]
  rintro ⟨⟩
  cases hdigit.symm.trans hsign

/-- The plain form reads two digits as their number. -/
theorem shortNumber_append (digits : DigitGroup 2) :
    shortNumber (digits.chars ++ rest) = .ok (digits.value, rest) := by
  unfold shortNumber
  rw [dropWhile_isBlank_append digits rest (by norm_num)]
  exact number_append digits rest (by norm_num) (by norm_num)

/-- The plain form reads four digits as a year. -/
theorem year_append (digits : DigitGroup 4) :
    year (digits.chars ++ rest) = .ok ((digits.value : ℤ), rest) := by
  have hvalue := digits.value_lt
  have hnumber : number 1 (some 4) (digits.chars ++ rest) = .ok (digits.value, rest) :=
    number_append digits rest (by norm_num) (by norm_num)
  -- the bounds of a word are kept out of the reduction of the reader
  obtain ⟨check, hcheck⟩ : ∃ check : ℤ → List Char → Except TimestampFault (ℤ × List Char),
      check = fun year rest => if -2147483648 ≤ year ∧ year < 2147483648 then pure (year, rest)
        else throw .outOfRange := ⟨_, rfl⟩
  have hword : -2147483648 ≤ (digits.value : ℤ) ∧ (digits.value : ℤ) < 2147483648 := by omega
  have hpass : check digits.value rest = .ok ((digits.value : ℤ), rest) := by
    rw [hcheck]
    exact if_pos hword
  unfold year
  rw [← hcheck, dropWhile_isBlank_append digits rest (by norm_num)]
  split
  · rename_i heq
    exact absurd heq (append_ne_cons digits rest (by norm_num) rfl _)
  · rename_i heq
    exact absurd heq (append_ne_cons digits rest (by norm_num) rfl _)
  · rw [hnumber]
    exact hpass

/-- The zoned form reads two digits as their number. -/
theorem twoDigits_append (digits : DigitGroup 2) :
    twoDigits (digits.chars ++ rest) = .ok (digits.value, rest) :=
  number_append digits rest (by norm_num) (by norm_num)

end Readers

/-! ## Steps of a reader -/

section Steps

variable {α β : Type} {s rest : List Char} {v : α} {b : β}

/-- What has been read is passed on with the rest. -/
theorem bind_of_ok {reader : Reader α} {next : α × List Char → Except TimestampFault β}
    (h : reader s = .ok (v, rest)) : (reader s >>= next) = next (v, rest) := by
  rw [h]
  rfl

/-- The character that is asked for is passed over. -/
theorem literal_bind (c : Char) (next : Unit × List Char → Except TimestampFault β) :
    (literal c (c :: rest) >>= next) = next ((), rest) :=
  bind_of_ok (if_pos rfl)

/-- A number has to lie within its bounds for the rest to be read. -/
theorem bounded_bind_iff {low high n : ℕ} {reader : Reader ℕ}
    {next : ℕ × List Char → Except TimestampFault β} (h : reader s = .ok (n, rest)) :
    (bounded low high reader s >>= next) = .ok b ↔
      (low ≤ n ∧ n ≤ high) ∧ next (n, rest) = .ok b := by
  unfold bounded
  rw [h]
  dsimp only
  by_cases hbounds : low ≤ n ∧ n ≤ high
  · rw [if_pos (by simpa using hbounds)]
    exact (and_iff_right hbounds).symm
  · rw [if_neg (by simpa using hbounds)]
    refine iff_of_false (fun hfault => ?_) fun h => hbounds h.1
    cases hfault

end Steps

/-! ## Instants -/

/-- Second 60 is the second 59 with a second of nanoseconds more. -/
theorem clock_eq {hour minute second nanos : ℕ} (hsecond : second ≤ 60) :
    clock hour minute second nanos = (((3600 * hour + 60 * minute + min second 59 : ℕ) : ℤ),
      (if second = 60 then 1000000000 else 0) + nanos) := by
  unfold clock
  dsimp only
  rcases hsecond.lt_or_eq with hlt | rfl
  · rw [if_neg hlt.ne, min_eq_left (Nat.le_of_lt_succ hlt)]
    push_cast
    rfl
  · rfl

/-- Within the bounds of years every date makes an instant. -/
theorem instantAt_eq_ok_iff {date : Date} {time : ℤ × ℕ} {t : Instant}
    (hfirst : -262143 ≤ date.year) (hlast : date.year ≤ 262142) : instantAt date time = .ok t ↔
      date.isValid = true ∧ t = ⟨86400 * date.dayNumber + time.1, time.2⟩ := by
  unfold instantAt
  rw [decide_eq_true hfirst, decide_eq_true hlast, Bool.and_true, Bool.and_true]
  by_cases hdate : date.isValid = true
  · rw [if_pos hdate, Except.ok.injEq, eq_comm]
    exact (and_iff_right hdate).symm
  · rw [if_neg hdate]
    refine iff_of_false (fun hfault => ?_) fun h => hdate h.1
    cases hfault

/-! ## The text -/

/-- The digits of a date and a time of day. -/
structure DateTimeText where
  /-- The year. -/
  year : DigitGroup 4
  /-- The month. -/
  month : DigitGroup 2
  /-- The day of the month. -/
  day : DigitGroup 2
  /-- The hour. -/
  hour : DigitGroup 2
  /-- The minute. -/
  minute : DigitGroup 2
  /-- The second. -/
  second : DigitGroup 2
  /-- How many digits there are after a decimal point; without any there is no point. -/
  places : ℕ
  /-- The digits after the decimal point. -/
  fraction : DigitGroup places

namespace DateTimeText

/-- The fraction of a second with its decimal point. -/
def fractionChars (s : DateTimeText) : List Char :=
  if s.places = 0 then [] else '.' :: s.fraction.chars

/-- The characters of the text, with some behind them. -/
def charsBefore (s : DateTimeText) (rest : List Char) : List Char :=
  s.year.chars ++ '-' :: (s.month.chars ++ '-' :: (s.day.chars ++ 'T' :: (s.hour.chars ++
    ':' :: (s.minute.chars ++ ':' :: (s.second.chars ++ (s.fractionChars ++ rest))))))

/-- The text `YYYY-MM-DDTHH:MM:SS` with the fraction of a second. -/
def text (s : DateTimeText) : String := .ofList (s.charsBefore [])

/-- The date. -/
def date (s : DateTimeText) : Date := ⟨s.year.value, s.month.value, s.day.value⟩

/-- The text means this instant in universal time: there is such a date, the time of day is in
range, and second 60 is the second 59 with a second of nanoseconds more. -/
structure Writes (s : DateTimeText) (t : Instant) : Prop where
  /-- There is such a date. -/
  date : s.date.isValid = true
  /-- There is such an hour. -/
  hour : s.hour.value ≤ 23
  /-- There is such a minute. -/
  minute : s.minute.value ≤ 59
  /-- There is such a second, which may be a leap second. -/
  second : s.second.value ≤ 60
  /-- The seconds of the days before and of the time of day. -/
  seconds : t.seconds = 86400 * s.date.dayNumber +
    (3600 * s.hour.value + 60 * s.minute.value + min s.second.value 59 : ℕ)
  /-- The digits after the point, to the ninth, and the leap second. -/
  nanos : t.nanos = (if s.second.value = 60 then 1000000000 else 0) + nanosOf s.fraction.chars

variable (s : DateTimeText) {t : Instant} {rest : List Char}

/-- Four digits write a year from zero to 9999. -/
theorem date_year_bounds : 0 ≤ s.date.year ∧ s.date.year < 10000 :=
  ⟨Int.natCast_nonneg _, Int.ofNat_lt.mpr s.year.value_lt⟩

/-- The digits mean an instant if their numbers are in range and make it. -/
theorem writes_iff : s.Writes t ↔
    (1 ≤ s.month.value ∧ s.month.value ≤ 12) ∧ (1 ≤ s.day.value ∧ s.day.value ≤ 31) ∧
      (0 ≤ s.hour.value ∧ s.hour.value ≤ 23) ∧ (0 ≤ s.minute.value ∧ s.minute.value ≤ 59) ∧
        (0 ≤ s.second.value ∧ s.second.value ≤ 60) ∧
          instantAt s.date (clock s.hour.value s.minute.value s.second.value
            (nanosOf s.fraction.chars)) = .ok t := by
  obtain ⟨hfirst, hlast⟩ := s.date_year_bounds
  rw [instantAt_eq_ok_iff (by linarith) (by linarith)]
  constructor
  · rintro ⟨hdate, hhour, hminute, hsecond, hseconds, hnanos⟩
    -- the month and the day of a date are in range
    obtain ⟨hfirst, hlast, hday, hday'⟩ := (Date.isValid_iff s.date).mp hdate
    have hlength := hday'.trans (daysInMonth_le _ _)
    refine ⟨⟨hfirst, hlast⟩, ⟨hday, hlength⟩, ⟨Nat.zero_le _, hhour⟩, ⟨Nat.zero_le _, hminute⟩,
      ⟨Nat.zero_le _, hsecond⟩, hdate, ?_⟩
    rw [clock_eq hsecond]
    dsimp only
    rw [← hseconds, ← hnanos]
  · rintro ⟨-, -, ⟨-, hhour⟩, ⟨-, hminute⟩, ⟨-, hsecond⟩, hdate, rfl⟩
    rw [clock_eq hsecond]
    exact ⟨hdate, hhour, hminute, hsecond, rfl, rfl⟩

/-- What may follow the digits without being taken for one of them or for a decimal point. -/
def Stops (rest : List Char) : Prop := ∀ c ∈ rest.head?, c.isDigit = false ∧ c ≠ '.'

/-- A character that is neither a digit nor a point stops the digits. -/
theorem stops_cons {c : Char} (hdigit : c.isDigit = false) (hpoint : c ≠ '.') :
    Stops (c :: rest) := by
  intro c' hc'
  cases hc'
  exact ⟨hdigit, hpoint⟩

/-- The fraction of a second is read to its end. -/
theorem fraction_append (hrest : Stops rest) :
    Timestamp.fraction (s.fractionChars ++ rest) = .ok (nanosOf s.fraction.chars, rest) := by
  unfold fractionChars
  by_cases hplaces : s.places = 0
  · -- no point, and none follows
    have hnone : s.fraction.chars = [] :=
      List.length_eq_zero_iff.mp (s.fraction.length_eq.trans hplaces)
    rw [if_pos hplaces, List.nil_append, hnone]
    cases rest with
    | nil => rfl
    | cons c rest =>
      have hpoint : c ≠ '.' := (hrest c rfl).2
      unfold Timestamp.fraction
      split
      · rename_i heq
        exact absurd (List.cons.inj heq).1 hpoint
      · rfl
  · have hdigits : (s.fraction.chars ++ rest).takeWhile Char.isDigit = s.fraction.chars := by
      rw [List.takeWhile_append_of_pos s.fraction.isDigit]
      cases rest with
      | nil => exact List.append_nil _
      | cons c rest =>
        have hdigit : c.isDigit = false := (hrest c rfl).1
        rw [List.takeWhile_cons_of_neg (by rw [hdigit]; simp), List.append_nil]
    obtain ⟨c, cs, hchars, -⟩ := s.fraction.exists_cons (Nat.pos_of_ne_zero hplaces)
    rw [if_neg hplaces, List.cons_append, Timestamp.fraction, hdigits, hchars]
    simp only [List.drop_left]

/-- The plain form of the digits means their instant, and nothing may follow them. -/
theorem readPlain_iff (hrest : Stops rest) :
    readPlain (s.charsBefore rest) = .ok t ↔ rest = [] ∧ s.Writes t := by
  unfold readPlain charsBefore
  rw [bind_of_ok (year_append _ _)]
  simp only [literal_bind, bounded_bind_iff (shortNumber_append _ _),
    bind_of_ok (s.fraction_append hrest)]
  rw [writes_iff]
  cases rest with
  | nil => exact (and_iff_right rfl).symm
  | cons c rest =>
    -- whatever follows the digits ends the reading in a fault
    refine iff_of_false ?_ fun h => List.cons_ne_nil c rest h.1
    rintro ⟨-, -, -, -, -, h⟩
    cases h

/-- The zoned form of the digits means their instant less the offset, which has to be all that
follows them. -/
theorem readZoned_iff (hrest : Stops rest) : readZoned (s.charsBefore rest) = .ok t ↔
    ∃ offset' t₀, offset rest = .ok (offset', []) ∧ s.Writes t₀ ∧
      t = ⟨t₀.seconds - offset', t₀.nanos⟩ := by
  have hgap : ∀ after, dateTimeGap ('T' :: after) = .ok ((), after) := fun _ => rfl
  unfold readZoned charsBefore
  rw [bind_of_ok (number_append _ _ le_rfl (by norm_num))]
  simp only [literal_bind, bounded_bind_iff (twoDigits_append _ _), bind_of_ok (hgap _),
    bind_of_ok (s.fraction_append hrest)]
  constructor
  · rintro ⟨hmonth, hday, hhour, hminute, hsecond, h⟩
    -- behind the digits come the offset and the end, and then the instant is made
    obtain ⟨⟨offset', after⟩, hoffset, h⟩ := bind_eq_ok.mp h
    obtain ⟨_, hended, h⟩ := bind_eq_ok.mp h
    obtain ⟨t₀, hinstant, h⟩ := bind_eq_ok.mp h
    cases h
    cases after with
    | nil =>
      exact ⟨offset', t₀, hoffset,
        s.writes_iff.mpr ⟨hmonth, hday, hhour, hminute, hsecond, hinstant⟩, rfl⟩
    | cons c after => cases hended
  · rintro ⟨offset', t₀, hoffset, hwrites, rfl⟩
    obtain ⟨hmonth, hday, hhour, hminute, hsecond, hinstant⟩ := s.writes_iff.mp hwrites
    refine ⟨hmonth, hday, hhour, hminute, hsecond, ?_⟩
    rw [bind_of_ok hoffset]
    exact bind_eq_ok.mpr ⟨(), rfl, bind_eq_ok.mpr ⟨t₀, hinstant, rfl⟩⟩

/-- Characters behind the text. -/
theorem text_append (rest : String) : (s.text ++ rest).toList = s.charsBefore rest.toList := by
  simp [text, charsBefore]

/-- A text with nothing behind it is read in the plain form. -/
theorem read_text_iff : read s.text = .ok t ↔ s.Writes t := by
  have hstops : Stops [] := by
    intro c hc
    cases hc
  have htext : s.text.toList = s.charsBefore [] := String.toList_ofList
  unfold read
  rw [htext]
  cases hzoned : readZoned (s.charsBefore []) with
  | ok t' =>
    -- the offset is missing
    obtain ⟨_, _, hoffset, -⟩ := (s.readZoned_iff hstops).mp hzoned
    cases hoffset
  | error fault => exact (s.readPlain_iff hstops).trans (and_iff_right rfl)

/-- A text with an offset behind it is read in the zoned form. -/
theorem read_append_iff (rest : String) {offset' : ℤ} (hstops : Stops rest.toList)
    (hoffset : offset rest.toList = .ok (offset', [])) : read (s.text ++ rest) = .ok t ↔
      ∃ t₀, read s.text = .ok t₀ ∧ t = ⟨t₀.seconds - offset', t₀.nanos⟩ := by
  have hzoned : readZoned (s.charsBefore rest.toList) = .ok t ↔
      ∃ t₀, read s.text = .ok t₀ ∧ t = ⟨t₀.seconds - offset', t₀.nanos⟩ := by
    rw [s.readZoned_iff hstops]
    constructor
    · rintro ⟨_, t₀, hoffset', hwrites, rfl⟩
      cases hoffset.symm.trans hoffset'
      exact ⟨t₀, s.read_text_iff.mpr hwrites, rfl⟩
    · rintro ⟨t₀, hread, rfl⟩
      exact ⟨_, t₀, hoffset, s.read_text_iff.mp hread, rfl⟩
  rw [← hzoned]
  unfold read
  rw [text_append]
  cases hread : readZoned (s.charsBefore rest.toList) with
  | ok t' => rfl
  | error fault =>
    -- the plain form cannot go on with the offset
    refine iff_of_false (fun hplain => ?_) fun h => by cases h
    obtain ⟨hnil, -⟩ := (s.readPlain_iff hstops).mp hplain
    rw [hnil] at hoffset
    cases hoffset

end DateTimeText

/-! ## Offsets -/

/-- The digits of an offset from universal time that is less than a day. -/
structure OffsetText where
  /-- The hours. -/
  hours : DigitGroup 2
  /-- The minutes. -/
  minutes : DigitGroup 2
  /-- There are fewer than 24 hours. -/
  hours_lt : hours.value < 24
  /-- There are fewer than 60 minutes. -/
  minutes_lt : minutes.value < 60

namespace OffsetText

variable (o : OffsetText)

/-- The characters `hh:mm`. -/
def chars : List Char := o.hours.chars ++ ':' :: o.minutes.chars

/-- The text `hh:mm`. -/
def text : String := .ofList o.chars

/-- The minutes of the offset, those of its hours included. -/
def totalMinutes : ℕ := o.hours.value * 60 + o.minutes.value

/-- The offset is read in seconds. -/
theorem offsetSeconds_chars : offsetSeconds o.chars = .ok (60 * o.totalMinutes, []) := by
  have hminutes := twoDigits_append [] o.minutes
  rw [List.append_nil] at hminutes
  unfold offsetSeconds chars
  rw [bounded_bind_iff (twoDigits_append _ _)]
  refine ⟨⟨Nat.zero_le _, Nat.le_of_lt_succ o.hours_lt⟩, ?_⟩
  dsimp only
  rw [literal_bind]
  dsimp only
  rw [bounded_bind_iff hminutes]
  refine ⟨⟨Nat.zero_le _, Nat.le_of_lt_succ o.minutes_lt⟩, ?_⟩
  have hseconds : 60 * o.totalMinutes = 3600 * o.hours.value + 60 * o.minutes.value := by
    unfold totalMinutes
    omega
  rw [hseconds]
  rfl

/-- The characters of an offset with its sign. -/
theorem toList_signed (sign : String) : (sign ++ o.text).toList = sign.toList ++ o.chars := by
  rw [String.toList_append]
  exact congrArg _ String.toList_ofList

/-- East of universal time the offset is positive. -/
theorem offset_east : offset ("+" ++ o.text).toList = .ok ((60 * o.totalMinutes : ℕ), []) := by
  rw [toList_signed]
  exact bind_of_ok o.offsetSeconds_chars

/-- West of universal time the offset is negative. -/
theorem offset_west :
    offset ("-" ++ o.text).toList = .ok (-((60 * o.totalMinutes : ℕ) : ℤ), []) := by
  rw [toList_signed]
  exact bind_of_ok o.offsetSeconds_chars

end OffsetText

/-- Both forms of a text mean the same instant. Without an offset the text means the instant that
its digits write, and it means the same with a `Z`. With an offset of some minutes it means the
instant that is earlier, or later for a negative offset, by these minutes; and the nanoseconds,
which tell a leap second, stay as they are. Each form refuses what the other refuses. -/
theorem read_sameInstant (s : DateTimeText) (o : OffsetText) (t : Instant) :
    (read s.text = .ok t ↔ s.Writes t) ∧
      (read (s.text ++ "Z") = .ok t ↔ read s.text = .ok t) ∧
      (read (s.text ++ ("+" ++ o.text)) = .ok t ↔
        ∃ t₀, read s.text = .ok t₀ ∧ t = ⟨t₀.seconds - 60 * o.totalMinutes, t₀.nanos⟩) ∧
      (read (s.text ++ ("-" ++ o.text)) = .ok t ↔
        ∃ t₀, read s.text = .ok t₀ ∧ t = ⟨t₀.seconds + 60 * o.totalMinutes, t₀.nanos⟩) := by
  have hzulu : DateTimeText.Stops "Z".toList := DateTimeText.stops_cons rfl (by decide)
  have heast : DateTimeText.Stops ("+" ++ o.text).toList := by
    rw [o.toList_signed]
    exact DateTimeText.stops_cons rfl (by decide)
  have hwest : DateTimeText.Stops ("-" ++ o.text).toList := by
    rw [o.toList_signed]
    exact DateTimeText.stops_cons rfl (by decide)
  refine ⟨s.read_text_iff, ?_, ?_, ?_⟩
  · rw [s.read_append_iff "Z" hzulu rfl]
    constructor
    · rintro ⟨t₀, hread, rfl⟩
      rwa [sub_zero]
    · intro hread
      exact ⟨t, hread, by rw [sub_zero]⟩
  · rw [s.read_append_iff _ heast o.offset_east]
    push_cast
    rfl
  · rw [s.read_append_iff _ hwest o.offset_west]
    push_cast
    simp only [sub_neg_eq_add]

/-- A leap second at the end of February, written a minute west of universal time, lies in March. -/
example : read "2015-02-28T23:59:60.1234567899-00:01" = .ok ⟨1425168059, 1123456789⟩ ∧
    read "2015-03-01T00:00:59.1234567899" = .ok ⟨1425168059, 123456789⟩ := by
  decide +kernel

end Timestamp

end LedgerBench
