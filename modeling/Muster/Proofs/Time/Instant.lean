import Muster.Proofs.Text.Run
import Muster.Proofs.Time.Calendar
import Muster.Time.Reader

-- Instants are read back from their texts, years of any sign and length included and leap seconds that end a minute.
namespace Muster

namespace Text

theorem isDigit_of_mem_padded {width n : Nat} {c : Char} (h : c ∈ padded width (decimal n)) :
    c.isDigit = true := by
  rcases List.mem_append.mp h with h | h
  · rw [(List.mem_replicate.mp h).2]
    decide
  · exact isDigit_of_mem_decimal h

theorem ofDigitChars_zeros (k init : Nat) :
    Nat.ofDigitChars 10 (List.replicate k '0') init = init * 10 ^ k := by
  induction k generalizing init with
  | zero => simp [Nat.ofDigitChars]
  | succ k ih =>
    rw [List.replicate_succ, Nat.ofDigitChars_cons, ih, Nat.pow_succ]
    simp only [Nat.sub_self, Nat.add_zero]
    rw [Nat.mul_comm 10 init, Nat.mul_assoc, Nat.mul_comm 10]

theorem ofDigitChars_padded (width n : Nat) : Nat.ofDigitChars 10 (padded width (decimal n)) 0 = n := by
  rw [padded, Nat.ofDigitChars_append, ofDigitChars_zeros, Nat.zero_mul, ofDigitChars_decimal]

theorem length_padded {width n : Nat} (hwidth : 0 < width) (h : n < 10 ^ width) :
    (padded width (decimal n)).length = width := by
  have hlen := length_decimal_le hwidth h
  rw [padded, List.length_append, List.length_replicate]
  omega

theorem le_length_padded (width n : Nat) : width ≤ (padded width (decimal n)).length := by
  rw [padded, List.length_append, List.length_replicate]
  omega

theorem isBlank_of_isDigit {c : Char} (h : c.isDigit = true) : isBlank c = false := by
  simp only [Char.isDigit, Bool.and_eq_true, decide_eq_true_eq, ge_iff_le, UInt32.le_iff_toNat_le] at h
  have hlow : 48 ≤ c.toNat := h.1
  have hhigh : c.toNat ≤ 57 := h.2
  simp only [isBlank, Bool.or_eq_false_iff, Bool.and_eq_false_iff, decide_eq_false_iff_not, beq_eq_false_iff_ne]
  omega

theorem skipBlanks_of_stops {text : List Char} (h : Stops isBlank text) : skipBlanks text = text := h.dropWhile

theorem skipBlanks_cons {c : Char} (h : isBlank c = false) (rest : List Char) :
    skipBlanks (c :: rest) = c :: rest := skipBlanks_of_stops (stops_cons h rest)

theorem skipBlanks_run {run : List Char} (hne : run ≠ []) (hrun : ∀ c ∈ run, c.isDigit = true) (rest : List Char) :
    skipBlanks (run ++ rest) = run ++ rest := by
  cases run with
  | nil => exact absurd rfl hne
  | cons c run => exact skipBlanks_cons (isBlank_of_isDigit (hrun c List.mem_cons_self)) _

end Text

namespace Instant

open Muster.Net (after? after?_cons)
open Muster.Text

theorem takeNumber?_run {least most : Nat} {run rest : List Char} (hrun : ∀ c ∈ run, c.isDigit = true)
    (hleast : least ≤ run.length) (hmost : run.length ≤ most)
    (hstop : run.length = most ∨ Stops Char.isDigit rest) :
    takeNumber? least most (run ++ rest) = some (Nat.ofDigitChars 10 run 0, rest) := by
  have htake : (run ++ rest).take most = run ++ rest.take (most - run.length) := by
    rw [List.take_append, List.take_of_length_le hmost]
  have hstop' : Stops Char.isDigit (rest.take (most - run.length)) := by
    rcases hstop with hlen | hstop
    · rw [hlen, Nat.sub_self, List.take_zero]
      exact stops_nil _
    · intro c hc
      rw [List.head?_take] at hc
      split at hc
      · cases hc
      · exact hstop c hc
  rw [takeNumber?, htake, takeWhile_run hrun hstop', List.drop_left, if_neg (Nat.not_lt.mpr hleast)]

theorem takeShort?_twoDigits {n : Nat} (h : n < 100) (rest : List Char) :
    takeShort? (twoDigits n ++ rest) = some (n, rest) := by
  have hlen : (twoDigits n).length = 2 := length_padded (by decide) h
  have hrun : ∀ c ∈ twoDigits n, c.isDigit = true := fun _ => isDigit_of_mem_padded
  have hne : twoDigits n ≠ [] := List.ne_nil_of_length_eq_add_one hlen
  rw [takeShort?, skipBlanks_run hne hrun, takeNumber?_run hrun (by omega) (by omega) (Or.inl hlen), twoDigits,
    ofDigitChars_padded]

theorem takeYear?_signed {sign : Char} (hsign : sign = '+' ∨ sign = '-') (n : Nat) {rest : List Char}
    (h : Stops Char.isDigit rest) :
    takeYear? (skipBlanks (sign :: padded 4 (decimal n) ++ rest)) =
      some (if sign = '+' then Int.ofNat n else -Int.ofNat n, rest) := by
  have hrun : ∀ c ∈ padded 4 (decimal n), c.isDigit = true := fun _ => isDigit_of_mem_padded
  have hlen := le_length_padded 4 n
  have hread : takeNumber? 1 (padded 4 (decimal n) ++ rest).length (padded 4 (decimal n) ++ rest) = some (n, rest) := by
    rw [takeNumber?_run hrun (by omega) (by rw [List.length_append]; omega) (Or.inr h), ofDigitChars_padded]
  rcases hsign with rfl | rfl
  · rw [List.cons_append, skipBlanks_cons (by decide), takeYear?, hread]
    rfl
  · rw [List.cons_append, skipBlanks_cons (by decide), takeYear?, hread]
    rfl

theorem takeYear?_yearText (year : Int) {rest : List Char} (h : Stops Char.isDigit rest) :
    takeYear? (skipBlanks (yearText year ++ rest)) = some (year, rest) := by
  rw [yearText]
  split
  · next hyear =>
    obtain ⟨n, rfl⟩ := Int.eq_ofNat_of_zero_le hyear.1
    have hlen : (padded 4 (decimal n)).length = 4 := length_padded (by decide) (by omega)
    have hrun : ∀ c ∈ padded 4 (decimal n), c.isDigit = true := fun _ => isDigit_of_mem_padded
    have hne : padded 4 (decimal n) ≠ [] := List.ne_nil_of_length_eq_add_one hlen
    have hread : takeNumber? 1 4 (padded 4 (decimal n) ++ rest) = some (n, rest) := by
      rw [takeNumber?_run hrun (by omega) (by omega) (Or.inl hlen), ofDigitChars_padded]
    rw [Int.toNat_natCast, skipBlanks_run hne hrun, takeYear?, hread]
    · rfl
    · exact run_ne_cons (by decide) hne hrun rest
    · exact run_ne_cons (by decide) hne hrun rest
  · next hyear =>
    rw [takeYear?_signed (by split <;> simp) _ h]
    by_cases hsign : 0 ≤ year
    · rw [if_pos hsign, if_pos rfl, Int.ofNat_eq_natCast, Int.natAbs_of_nonneg hsign]
    · rw [if_neg hsign, if_neg (by decide), Int.ofNat_eq_natCast, Int.ofNat_natAbs_of_nonpos (by omega), Int.neg_neg]

theorem takeFraction?_padded {width value : Nat} (hwidth : 0 < width) (hnine : width ≤ 9)
    (h : value < 10 ^ width) {rest : List Char} (hrest : Stops Char.isDigit rest) :
    takeFraction? ('.' :: padded width (decimal value) ++ rest) = some (value * 10 ^ (9 - width), rest) := by
  have hlen : (padded width (decimal value)).length = width := length_padded hwidth h
  have hrun : ∀ c ∈ padded width (decimal value), c.isDigit = true := fun _ => isDigit_of_mem_padded
  have hne : (padded width (decimal value)).isEmpty = false := by
    rw [List.isEmpty_eq_false_iff, ← List.length_pos_iff, hlen]
    exact hwidth
  rw [List.cons_append, takeFraction?]
  simp only [takeWhile_run hrun hrest, hne, Bool.false_eq_true, if_false,
    List.take_of_length_le (Nat.le_trans (Nat.le_of_eq hlen) hnine), List.rightpad, Nat.ofDigitChars_append,
    ofDigitChars_padded, ofDigitChars_zeros, hlen, List.drop_left' hlen]

theorem takeFraction?_subsecondText {nanos : Nat} (h : nanos < 1000000000) {rest : List Char}
    (hdigit : Stops Char.isDigit rest) (hpoint : Stops (· == '.') rest) :
    takeFraction? (subsecondText nanos ++ rest) = some (nanos, rest) := by
  rw [subsecondText]
  split
  · next hzero =>
    rw [beq_iff_eq.mp hzero, List.nil_append, takeFraction?]
    rintro tail rfl
    exact absurd (hpoint '.' rfl) (by decide)
  · split
    · next hmillis =>
      have := beq_iff_eq.mp hmillis
      rw [takeFraction?_padded (by decide) (by decide) (by omega) hdigit]
      rw [show nanos / 1000000 * 10 ^ (9 - 3) = nanos by omega]
    · split
      · next hmicros =>
        have := beq_iff_eq.mp hmicros
        rw [takeFraction?_padded (by decide) (by decide) (by omega) hdigit]
        rw [show nanos / 1000 * 10 ^ (9 - 6) = nanos by omega]
      · rw [takeFraction?_padded (by decide) (by decide) (by omega) hdigit]
        rw [show nanos * 10 ^ (9 - 9) = nanos by omega]

-- The reading of a clock that an instant is written as.
def reading (instant : Instant) : Reading where
  date := instant.date
  hour := instant.secondOfDay / 3600
  minute := instant.secondOfDay / 60 % 60
  second := instant.secondOfDay % 60 + if 1000000000 ≤ instant.nanos then 1 else 0
  nanos := instant.nanos - if 1000000000 ≤ instant.nanos then 1000000000 else 0
  eastSeconds := 0

theorem text_eq (instant : Instant) :
    instant.text.toList = yearText instant.reading.date.year ++ ('-' :: (twoDigits instant.reading.date.month ++
      ('-' :: (twoDigits instant.reading.date.day ++ ('T' :: (twoDigits instant.reading.hour ++
      (':' :: (twoDigits instant.reading.minute ++ (':' :: (twoDigits instant.reading.second ++
      (subsecondText instant.reading.nanos ++ ['Z']))))))))))) := by
  rw [text, String.toList_ofList]
  by_cases h : 1000000000 ≤ instant.nanos <;> simp [reading, h]

theorem date_isValid (instant : Instant) : instant.date.isValid = true := by
  have hfirst := instant.first_le
  have hlast := instant.lt_last
  exact Date.isValid_ofDayNumber (by omega) (by omega)

-- What is read back from the text of an instant: a leap second that ends no minute is the second after it.
def reread (instant : Instant) : Instant :=
  if h : instant.Legible then instant
  else {
    second := instant.second + 1
    nanos := instant.nanos - 1000000000
    nanos_lt := Nat.lt_of_le_of_lt (Nat.sub_le _ _) instant.nanos_lt
    first_le := Int.le_trans instant.first_le (by omega)
    lt_last := by
      have hlast := instant.lt_last
      have hminute : instant.second % 60 ≠ 59 := fun hends => h fun _ => hends
      omega }

theorem reread_of_legible {instant : Instant} (h : instant.Legible) : instant.reread = instant := dif_pos h

theorem reread_eq_self_iff {instant : Instant} : instant.reread = instant ↔ instant.Legible := by
  refine ⟨fun h => ?_, reread_of_legible⟩
  by_contra hlost
  have hsecond := congrArg second h
  rw [reread, dif_neg hlost] at hsecond
  change instant.second + 1 = instant.second at hsecond
  omega

-- A leap second in the middle of a minute.
def strayLeap : Instant := { epoch with nanos := 1333333333, nanos_lt := by decide }

-- The fields of the reading lie in their ranges and come to the second and the nanoseconds that are read back.
theorem reading_spec (instant : Instant) :
    (instant.reading.hour ≤ 23 ∧ instant.reading.minute ≤ 59 ∧ instant.reading.second ≤ 60) ∧
      instant.reading.date.dayNumber * 86400 + (instant.reading.hour * 3600 + instant.reading.minute * 60 +
        min instant.reading.second 59 : Nat) = instant.reread.second ∧
      instant.reading.nanos < 1000000000 ∧
      (if instant.reading.second = 60 then 1000000000 + instant.reading.nanos else instant.reading.nanos) =
        instant.reread.nanos := by
  have hday : instant.reading.date.dayNumber = instant.second / 86400 := Date.dayNumber_ofDayNumber _
  have hclock : (instant.secondOfDay : Int) = instant.second % 86400 :=
    Int.toNat_of_nonneg (Int.emod_nonneg instant.second (by decide))
  have hnanos := instant.nanos_lt
  rw [hday]
  by_cases h : 1000000000 ≤ instant.nanos
  · by_cases hminute : instant.second % 60 = 59
    · simp only [reading, if_pos h, reread_of_legible fun _ => hminute]
      refine ⟨by omega, by omega, by omega, ?_⟩
      rw [if_pos (by omega)]
      omega
    · have hlost : ¬instant.Legible := fun hends => hminute (hends h)
      simp only [reading, if_pos h, reread, dif_neg hlost]
      refine ⟨by omega, by omega, by omega, ?_⟩
      rw [if_neg (by omega)]
  · simp only [reading, if_neg h, reread_of_legible fun hleap => absurd hleap h]
    refine ⟨by omega, by omega, by omega, ?_⟩
    rw [if_neg (by omega), Nat.sub_zero]

theorem legible_reread (instant : Instant) : instant.reread.Legible := by
  by_cases h : instant.Legible
  · rwa [reread_of_legible h]
  · have hnanos := instant.nanos_lt
    rw [reread, dif_neg h]
    intro hleap
    change 1000000000 ≤ instant.nanos - 1000000000 at hleap
    omega

theorem instant?_reading (instant : Instant) : instant.reading.instant? = some instant.reread := by
  obtain ⟨⟨hhour, hminute, hsecond⟩, hwall, -, hnanos⟩ := instant.reading_spec
  have hvalid : instant.reading.date.isValid = true := instant.date_isValid
  have heast : instant.reading.eastSeconds = 0 := rfl
  rw [Reading.instant?, if_pos (by simp only [hvalid, hhour, hminute, hsecond, heast]; decide)]
  simp only [heast, Int.sub_zero, hwall, hnanos]
  exact ofParts?_self instant.legible_reread

theorem legible_of_instant? {reading : Reading} {instant : Instant} (h : reading.instant? = some instant) :
    instant.Legible := by
  unfold Reading.instant? at h
  split at h
  · exact legible_of_ofParts? h
  · cases h

theorem lenientReading?_text (instant : Instant) :
    lenientReading? instant.text.toList = some instant.reading := by
  obtain ⟨⟨hhour, hminute, hsecond⟩, -, hnanos, -⟩ := instant.reading_spec
  obtain ⟨-, ⟨-, hmonth⟩, -, hday⟩ := (Date.isValid_iff instant.reading.date).mp instant.date_isValid
  have hday' := Nat.le_trans hday (Date.daysInMonth_le _ _)
  have hdash : ∀ rest, skipBlanks ('-' :: rest) = '-' :: rest := skipBlanks_cons (by decide)
  have hcolon : ∀ rest, skipBlanks (':' :: rest) = ':' :: rest := skipBlanks_cons (by decide)
  have hseparator : ∀ rest, takeSeparator? ('T' :: rest) = some rest := fun _ => rfl
  have hzone : takeZone? (skipBlanks ['Z']) = some (0, []) := by decide
  rw [text_eq, lenientReading?]
  simp only [takeYear?_yearText _ (stops_cons (show Char.isDigit '-' = false by decide) _), hdash, hcolon,
    hseparator, after?_cons, takeShort?_twoDigits (show instant.reading.date.month < 100 by omega),
    takeShort?_twoDigits (show instant.reading.date.day < 100 by omega),
    takeShort?_twoDigits (show instant.reading.hour < 100 by omega),
    takeShort?_twoDigits (show instant.reading.minute < 100 by omega),
    takeShort?_twoDigits (show instant.reading.second < 100 by omega),
    takeFraction?_subsecondText hnanos (stops_cons (show Char.isDigit 'Z' = false by decide) _)
      (stops_cons (by decide) _),
    hzone, Option.bind_eq_bind, Option.bind_some]
  rfl

theorem ofLenientText?_text (instant : Instant) : ofLenientText? instant.text = some instant.reread := by
  rw [ofLenientText?, lenientReading?_text, Option.bind_some, instant?_reading]

end Instant
end Muster
