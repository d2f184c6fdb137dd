import VisualNovel.Calendar.Reading
import VisualNovel.Proofs.Text.Numerals

/-!
Stored moments. The stored form of a moment of the civil calendar, with a clock that is set in
whole minutes, is read as the same moment.
-/
namespace VisualNovel.Calendar

open Text

theorem takeDigits_padded {width n : Nat} (h : n < 10 ^ width) (hwidth : 0 < width)
    (rest : List Char) :
    takeDigits width ((padded width n).toList ++ rest) = some (n, rest) := by
  have hlength := length_padded h hwidth
  have hspells := spells_padded width n
  have hall : (padded width n).toList.all isAsciiDigit = true := List.all_eq_true.mpr hspells.plain
  unfold takeDigits
  rw [List.take_left' hlength, List.drop_left' hlength]
  simp [hlength, hall, hspells.value]

theorem Date.text_toList (d : Date) :
    d.text.toList = (padded 4 d.year).toList ++ ('-' :: ((padded 2 d.month).toList ++
      ('-' :: (padded 2 d.day).toList))) := by
  simp [Date.text]

theorem TimeOfDay.toSeconds_toList (t : TimeOfDay) :
    t.toSeconds.toList = (padded 2 t.hour).toList ++ (':' :: ((padded 2 t.minute).toList ++
      (':' :: (padded 2 t.second).toList))) := by
  simp [TimeOfDay.toSeconds]

theorem daysInMonth_le (year month : Nat) : daysInMonth year month ≤ 31 := by
  unfold daysInMonth
  split
  · split <;> omega
  · split <;> omega

theorem takeDate_text {d : Date} (h : d.isValid = true) (rest : List Char) :
    takeDate (d.text.toList ++ rest) = some (d, rest) := by
  have hmonth := daysInMonth_le d.year d.month
  have hbounds := h
  simp only [Date.isValid, Bool.and_eq_true, decide_eq_true_eq] at hbounds
  simp only [Date.text_toList, takeDate, List.append_assoc, List.cons_append]
  rw [takeDigits_padded (by omega) (by omega)]
  simp only [Option.bind_eq_bind, Option.bind_some, skipChar, beq_self_eq_true, if_true]
  rw [takeDigits_padded (by omega) (by omega)]
  simp only [Option.bind_some, beq_self_eq_true, if_true]
  rw [takeDigits_padded (by omega) (by omega)]
  simp only [Option.bind_some, h, if_true]

/-- What follows the time of day in a stored moment goes on with neither digits nor a fraction. -/
def EndsTime (rest : List Char) : Prop :=
  ∀ c ∈ rest.head?, isAsciiDigit c = false ∧ c ≠ '.' ∧ c ≠ ','

theorem microseconds_padded {n : Nat} (h : n < 1000000) :
    microseconds (padded 6 n).toList = n := by
  have hlength : (padded 6 n).toList.length = 6 := length_padded h (by omega)
  unfold microseconds
  rw [List.take_of_length_le (by omega), hlength]
  simpa using (spells_padded 6 n).value

theorem takeTime_seconds {t : TimeOfDay} (h : t.isValid = true) (hwhole : t.microsecond = 0)
    {rest : List Char} (hrest : EndsTime rest) :
    takeTime (t.toSeconds.toList ++ rest) = some (t, rest) := by
  have hbounds := h
  simp only [TimeOfDay.isValid, Bool.and_eq_true, decide_eq_true_eq] at hbounds
  have htime : (⟨t.hour, t.minute, t.second, 0⟩ : TimeOfDay) = t := by rw [← hwhole]
  simp only [TimeOfDay.toSeconds_toList, takeTime, List.append_assoc, List.cons_append]
  rw [takeDigits_padded (by omega) (by omega)]
  simp only [Option.bind_eq_bind, Option.bind_some, skipChar, beq_self_eq_true, if_true]
  rw [takeDigits_padded (by omega) (by omega)]
  simp only [Option.bind_some]
  rw [takeDigits_padded (by omega) (by omega)]
  cases rest with
  | nil => simp [htime, h]
  | cons c more =>
    obtain ⟨-, hpoint, hcomma⟩ := hrest c rfl
    simp [hpoint, hcomma, htime, h]

theorem takeTime_fraction {t : TimeOfDay} (h : t.isValid = true) {rest : List Char}
    (hrest : EndsTime rest) :
    takeTime (t.toSeconds.toList ++ '.' :: ((padded 6 t.microsecond).toList ++ rest)) =
      some (t, rest) := by
  have hbounds := h
  simp only [TimeOfDay.isValid, Bool.and_eq_true, decide_eq_true_eq] at hbounds
  have hplain := (spells_padded 6 t.microsecond).plain
  have hlength : (padded 6 t.microsecond).toList.length = 6 := length_padded (by omega) (by omega)
  have hne : (padded 6 t.microsecond).toList ≠ [] := by
    intro hnil
    rw [hnil] at hlength
    cases hlength
  have hdigit : ∀ c ∈ rest.head?, isAsciiDigit c = false := fun c hc => (hrest c hc).1
  simp only [TimeOfDay.toSeconds_toList, takeTime, List.append_assoc, List.cons_append]
  rw [takeDigits_padded (by omega) (by omega)]
  simp only [Option.bind_eq_bind, Option.bind_some, skipChar, beq_self_eq_true, if_true]
  rw [takeDigits_padded (by omega) (by omega)]
  simp only [Option.bind_some]
  rw [takeDigits_padded (by omega) (by omega)]
  simp only [Option.bind_some, beq_self_eq_true, Bool.true_or, if_true,
    takeWhile_digits hplain hdigit, dropWhile_digits hplain hdigit, List.isEmpty_iff, hne, if_false,
    microseconds_padded hbounds.2]
  rw [if_pos h]

theorem takeTime_text {t : TimeOfDay} (h : t.isValid = true) {rest : List Char}
    (hrest : EndsTime rest) : takeTime (t.text.toList ++ rest) = some (t, rest) := by
  unfold TimeOfDay.text
  by_cases hmicro : t.microsecond = 0
  · simpa [hmicro] using takeTime_seconds h hmicro hrest
  · simpa [hmicro] using takeTime_fraction h hrest

/-- A clock set in whole minutes, less than a day away from universal time. -/
def InMinutes : Option Int → Prop
  | none => True
  | some seconds => seconds % 60 = 0 ∧ seconds.natAbs < 86400

/-- The end of a stored moment. -/
def zoneText : Option Int → String
  | none => ""
  | some 0 => "Z"
  | some seconds => offsetText seconds

theorem Moment.stored_toList (m : Moment) :
    m.stored.toList = m.date.text.toList ++ ('T' :: (m.time.text.toList ++
      (zoneText m.offset).toList)) := by
  have hstored : m.stored = m.date.text ++ "T" ++ m.time.text ++ zoneText m.offset := rfl
  simp [hstored]

theorem zoneText_some {seconds : Int} (h : seconds ≠ 0) :
    zoneText (some seconds) = offsetText seconds := by
  unfold zoneText
  split
  · next heq => cases heq
  · next heq => exact absurd (Option.some.inj heq) h
  · next heq => rw [Option.some.inj heq]

theorem offsetText_toList {seconds : Int} (h : seconds % 60 = 0) :
    (offsetText seconds).toList = (if seconds < 0 then '-' else '+') ::
      ((padded 2 (seconds.natAbs / 3600)).toList ++
        (':' :: (padded 2 (seconds.natAbs / 60 % 60)).toList)) := by
  have hminutes : seconds.natAbs % 60 = 0 := by omega
  unfold offsetText
  by_cases hneg : seconds < 0 <;> simp [hneg, hminutes]

theorem offset?_offsetText {seconds : Int} (h : InMinutes (some seconds)) :
    offset? (offsetText seconds).toList = some (some seconds) := by
  obtain ⟨hwhole, hday⟩ := h
  have hminutes := takeDigits_padded (show seconds.natAbs / 60 % 60 < 10 ^ 2 by omega)
    (by decide) []
  rw [List.append_nil] at hminutes
  have hhours := takeDigits_padded (show seconds.natAbs / 3600 < 10 ^ 2 by omega) (by decide)
    (':' :: (padded 2 (seconds.natAbs / 60 % 60)).toList)
  have hsum : (seconds.natAbs / 3600 * 60 + seconds.natAbs / 60 % 60) * 60 = seconds.natAbs := by
    omega
  rw [offsetText_toList hwhole]
  generalize hmagnitude : seconds.natAbs = magnitude at *
  by_cases hneg : seconds < 0
  · simp [offset?, hneg, hhours, hminutes]
    omega
  · simp [offset?, hneg, hhours, hminutes]
    omega

theorem endsTime_zoneText (offset : Option Int) : EndsTime (zoneText offset).toList := by
  unfold zoneText
  split
  · simp [EndsTime]
  · simp [EndsTime]
    decide
  · next seconds _ =>
    intro c hc
    have hsign : c = '-' ∨ c = '+' := by
      unfold offsetText at hc
      by_cases hneg : seconds < 0
      · simp [hneg] at hc
        exact .inl hc.symm
      · simp [hneg] at hc
        exact .inr hc.symm
    rcases hsign with rfl | rfl <;> decide

theorem offset?_zoneText {offset : Option Int} (h : InMinutes offset) :
    offset? (zoneText offset).toList = some offset := by
  cases offset with
  | none => rfl
  | some seconds =>
    by_cases hzero : seconds = 0
    · rw [hzero]
      rfl
    · rw [zoneText_some hzero]
      exact offset?_offsetText h

/-- A moment of the civil calendar whose clock is set in whole minutes. -/
structure Moment.Civil (m : Moment) : Prop where
  date : m.date.isValid = true
  time : m.time.isValid = true
  offset : InMinutes m.offset

/-- The stored form of the moment stands for it. -/
def Moment.ReadsBack (m : Moment) : Prop := Moment.read? m.stored = some m

theorem Moment.Civil.readsBack {m : Moment} (h : m.Civil) : m.ReadsBack := by
  have hread : Moment.ofText? m.stored.toList = some m := by
    rw [stored_toList, Moment.ofText?, takeDate_text h.date]
    simp only [Option.bind_eq_bind, Option.bind_some]
    rw [if_pos (show separatesTime 'T' = true from rfl),
      takeTime_text h.time (endsTime_zoneText m.offset), Option.bind_some,
      offset?_zoneText h.offset, Option.bind_some]
  rw [ReadsBack, Moment.read?, hread]
  rfl

end VisualNovel.Calendar
