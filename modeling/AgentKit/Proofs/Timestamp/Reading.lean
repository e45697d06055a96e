/-
# Reading points in time back

A point in time of the years 0 to 9999 is read back from its text. Every number is written
with as many digits as are read for it, so the digits end where the number ends; the year is
one of them only if it has four digits and no sign.
-/

import AgentKit.Proofs.Number.Digits
import AgentKit.Timestamp.Reading

namespace AgentKit.Timestamp

open Number

variable {c : Char} {cs rest : List Char} {width value : Nat}

/-! ## Numbers -/

/-- A number has exactly as many digits as are asked for, if they are enough. -/
theorem padded_spec (filled : 0 < width) (small : value < Nat.pow 10 width) :
    (padded width value).toList.length = width ∧ (padded width value).toList.all isDigit ∧
      digitsValue (padded width value).toList = value := by
  have short : (Nat.toDigits 10 value).length ≤ width :=
    (Nat.length_toDigits_le_iff (by decide) filled).mpr small
  rw [padded, String.toList_ofList, digitsValue_toDigits]
  refine ⟨?_, ?_, rfl⟩
  · rw [List.length_append, List.length_replicate]
    omega
  · rw [List.all_eq_true]
    intro c member
    rcases List.mem_append.mp member with zero | digit
    · rw [(List.mem_replicate.mp zero).2]
      rfl
    · exact isDigit_of_mem_toDigits digit

theorem trimStart_of_solid (solid : Text.isBlank c = false) (rest : List Char) :
    Text.trimStart (c :: rest) = c :: rest := by
  rw [Text.trimStart, List.dropWhile_cons, solid]
  rfl

/-- A number that was written with some width is read with that width. -/
theorem readNumber_padded (filled : 0 < width) (small : value < Nat.pow 10 width)
    (rest : List Char) :
    readNumber width ((padded width value).toList ++ rest) = some (value, rest) := by
  obtain ⟨length, digits, means⟩ := padded_spec filled small
  obtain ⟨c, others, shape⟩ : ∃ c others, (padded width value).toList = c :: others :=
    List.exists_cons_of_length_pos (by omega)
  have first : Text.isBlank c = false :=
    not_isBlank_of_isDigit (List.all_eq_true.mp digits c (by simp [shape]))
  have taken : (((padded width value).toList ++ rest).take width).takeWhile isDigit =
      (padded width value).toList := by
    rw [List.take_left' length, List.takeWhile_eq_self_iff.mpr (List.all_eq_true.mp digits)]
  have trimmed : Text.trimStart ((padded width value).toList ++ rest) =
      (padded width value).toList ++ rest := by
    rw [shape]
    exact trimStart_of_solid first _
  rw [readNumber, trimmed]
  simp only [taken, means, List.drop_left]
  simp [shape]

theorem readMark_self (solid : Text.isBlank c = false) (rest : List Char) :
    readMark c (c :: rest) = some rest := by
  rw [readMark, trimStart_of_solid solid]
  simp

/-! ## Fractions -/

theorem readFraction_padded (filled : 0 < width) (within : width ≤ 9)
    (small : value < Nat.pow 10 width) (other : ∀ c ∈ rest.head?, isDigit c = false) :
    readFraction ('.' :: ((padded width value).toList ++ rest)) =
      some (value * Nat.pow 10 (9 - width), rest) := by
  obtain ⟨length, digits, means⟩ := padded_spec filled small
  obtain ⟨c, others, shape⟩ : ∃ c others, (padded width value).toList = c :: others :=
    List.exists_cons_of_length_pos (by omega)
  have stops : rest.dropWhile isDigit = rest := by
    cases rest with
    | nil => rfl
    | cons c rest => rw [List.dropWhile_cons, other c rfl]; rfl
  simp only [readFraction, takeWhile_digits digits other (length ▸ within), means, length,
    List.drop_left' length, stops]
  simp [shape]

/-- A fraction is read back from as many digits as leave nothing of it. -/
theorem readFraction_group {unit nanosecond : Nat} (filled : 0 < width) (within : width ≤ 9)
    (scale : Nat.pow 10 (9 - width) = unit) (small : nanosecond < Nat.pow 10 width * unit)
    (whole : nanosecond % unit = 0) (rest : List Char) :
    readFraction ('.' :: ((padded width (nanosecond / unit)).toList ++ 'Z' :: rest)) =
      some (nanosecond, 'Z' :: rest) := by
  have other : ∀ c ∈ ('Z' :: rest).head?, isDigit c = false := by
    intro c begins
    rw [← Option.some.inj begins]
    rfl
  have exact : nanosecond / unit * Nat.pow 10 (9 - width) = nanosecond := by
    rw [scale]
    exact Nat.div_mul_cancel (Nat.dvd_of_mod_eq_zero whole)
  rw [readFraction_padded filled within (Nat.div_lt_of_lt_mul (Nat.mul_comm unit _ ▸ small)) other,
    exact]

/-- Any number of nanoseconds of a second is read back. -/
theorem readFraction_fractionText {nanosecond : Nat} (small : nanosecond < 1000000000)
    (rest : List Char) :
    readFraction ((fractionText nanosecond).toList ++ 'Z' :: rest) =
      some (nanosecond, 'Z' :: rest) := by
  have mark (digits : String) : ("." ++ digits).toList = '.' :: digits.toList :=
    String.toList_append
  unfold fractionText
  split
  · next zero =>
    rw [zero]
    rfl
  · split
    · next whole =>
      rw [mark, List.cons_append]
      exact readFraction_group (by decide) (by decide) rfl small whole rest
    · split
      · next whole =>
        rw [mark, List.cons_append]
        exact readFraction_group (by decide) (by decide) rfl small whole rest
      · have group := @readFraction_group 9 1 nanosecond (by decide) (by decide) rfl small
          (Nat.mod_one _) rest
        rw [Nat.div_one] at group
        rw [mark, List.cons_append]
        exact group

/-! ## Points in time -/

/-- A point in time of the years 0 to 9999. -/
structure IsProper (time : Timestamp) : Prop where
  date : time.date.isValid
  year : 0 ≤ time.date.year ∧ time.date.year ≤ 9999
  hour : time.hour ≤ 23
  minute : time.minute ≤ 59
  second : time.second ≤ 60
  nanosecond : time.nanosecond < 1000000000

variable {time : Timestamp}

theorem readYear_yearText {year : Int} (range : 0 ≤ year ∧ year ≤ 9999) (rest : List Char) :
    readYear ((yearText year).toList ++ rest) = some (year, rest) := by
  have written : yearText year = padded 4 year.natAbs := by
    rw [yearText, if_neg (by omega), if_neg (by omega)]
  have small : year.natAbs < Nat.pow 10 4 := by
    rw [show Nat.pow 10 4 = 10000 from rfl]
    omega
  obtain ⟨length, digits, -⟩ := padded_spec (by decide) small
  obtain ⟨c, others, shape⟩ : ∃ c others, (padded 4 year.natAbs).toList = c :: others :=
    List.exists_cons_of_length_pos (by omega)
  have digit : isDigit c := List.all_eq_true.mp digits c (by simp [shape])
  have reads := readNumber_padded (by decide) small rest
  have same : (year.natAbs : Int) = year := by omega
  rw [written]
  rw [shape, List.cons_append] at reads ⊢
  rw [readYear, trimStart_of_solid (not_isBlank_of_isDigit digit)]
  split
  · next begins =>
    rw [(List.cons.inj begins).1] at digit
    exact absurd digit (by decide)
  · next begins =>
    rw [(List.cons.inj begins).1] at digit
    exact absurd digit (by decide)
  · simp [reads, same]

theorem daysInMonth_le (year : Int) (month : Nat) : Calendar.daysInMonth year month ≤ 31 := by
  unfold Calendar.daysInMonth
  split
  · split <;> decide
  all_goals decide

theorem readDate_dateText {date : Calendar.Date} (valid : date.isValid)
    (range : 0 ≤ date.year ∧ date.year ≤ 9999) (rest : List Char) :
    readDate ((dateText date).toList ++ rest) = some (date, rest) := by
  have shape : (dateText date).toList ++ rest = (yearText date.year).toList ++
      '-' :: ((padded 2 date.month).toList ++ '-' :: ((padded 2 date.day).toList ++ rest)) := by
    simp [dateText]
  have checked : date.checked = some date := if_pos valid
  have days := daysInMonth_le date.year date.month
  simp only [Calendar.Date.isValid, Bool.and_eq_true, decide_eq_true_eq] at valid
  have two : Nat.pow 10 2 = 100 := rfl
  have month : date.month < Nat.pow 10 2 := by omega
  have day : date.day < Nat.pow 10 2 := by omega
  rw [shape, readDate, readYear_yearText range]
  simp only [bind, Option.bind, readMark_self (show Text.isBlank '-' = false from rfl),
    readNumber_padded Nat.two_pos month, readNumber_padded Nat.two_pos day, checked]

/-- In universal time nothing is carried over to another day. -/
theorem ofLocal_proper (proper : time.IsProper) :
    ofLocal time.date time.hour time.minute time.second time.nanosecond 0 = some time := by
  obtain ⟨-, -, hour, minute, second, -⟩ := proper
  have known : ¬ (time.hour > 23 ∨ time.minute > 59 ∨ time.second > 60 ∨
      (0 : Int).natAbs ≥ minutesOfDay.toNat) := by
    rw [show minutesOfDay.toNat = 1440 from rfl]
    omega
  have carried : carryDay time.date (time.hour * 60 + time.minute - 0) =
      some (time.date, ((time.hour * 60 + time.minute : Nat) : Int)) := by
    rw [carryDay, minutesOfDay, if_neg (by omega), if_neg (by omega)]
    simp
  have hours : (time.hour * 60 + time.minute) / 60 = time.hour := by omega
  have minutes : (time.hour * 60 + time.minute) % 60 = time.minute := by omega
  simp only [ofLocal]
  rw [if_neg (by simpa [or_assoc] using known), carried]
  simp only [bind, Option.bind, Int.toNat_natCast, hours, minutes]

/-- A point in time of the years 0 to 9999 is read back from its text. -/
theorem ofText?_toText (proper : time.IsProper) : ofText? time.toText = some time := by
  have shape : time.toText.toList = (dateText time.date).toList ++
      'T' :: ((padded 2 time.hour).toList ++ ':' :: ((padded 2 time.minute).toList ++
        ':' :: ((padded 2 time.second).toList ++
          ((fractionText time.nanosecond).toList ++ 'Z' :: [])))) := by
    simp [toText, clockText]
  have hour : time.hour < Nat.pow 10 2 := Nat.lt_of_le_of_lt proper.hour (by decide)
  have minute : time.minute < Nat.pow 10 2 := Nat.lt_of_le_of_lt proper.minute (by decide)
  have second : time.second < Nat.pow 10 2 := Nat.lt_of_le_of_lt proper.second (by decide)
  have zone : readZone (Text.trimStart ['Z']) = some (0, []) := by decide
  rw [ofText?, shape, readDate_dateText proper.date proper.year]
  simp only [bind, Option.bind, readMark_self (show Text.isBlank ':' = false from rfl),
    readNumber_padded Nat.two_pos hour, readNumber_padded Nat.two_pos minute,
    readNumber_padded Nat.two_pos second, readFraction_fractionText proper.nanosecond, zone]
  exact ofLocal_proper proper

end AgentKit.Timestamp
