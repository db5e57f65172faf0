import Muster.Proofs.Time.Instant

-- The strict reader takes the texts of the years that four digits can name, and no other text of an instant.
namespace Muster.Instant

open Muster.Net (after? after?_cons)
open Muster.Text

def FourDigit (instant : Instant) : Prop := 0 ≤ instant.date.year ∧ instant.date.year ≤ 9999

instance (instant : Instant) : Decidable instant.FourDigit := inferInstanceAs (Decidable (_ ∧ _))

theorem takeNumber?_padded {width n : Nat} (hwidth : 0 < width) (h : n < 10 ^ width) (rest : List Char) :
    takeNumber? width width (padded width (decimal n) ++ rest) = some (n, rest) := by
  have hlen : (padded width (decimal n)).length = width := length_padded hwidth h
  have hrun : ∀ c ∈ padded width (decimal n), c.isDigit = true := fun _ => isDigit_of_mem_padded
  rw [takeNumber?_run hrun (Nat.le_of_eq hlen.symm) (Nat.le_of_eq hlen) (Or.inl hlen), ofDigitChars_padded]

theorem takeNumber?_twoDigits {n : Nat} (h : n < 100) (rest : List Char) :
    takeNumber? 2 2 (twoDigits n ++ rest) = some (n, rest) := takeNumber?_padded (by decide) h rest

theorem takeNumber?_yearText {year : Int} (h : 0 ≤ year ∧ year ≤ 9999) (rest : List Char) :
    takeNumber? 4 4 (yearText year ++ rest) = some (year.toNat, rest) := by
  rw [yearText, if_pos h]
  exact takeNumber?_padded (by decide) (by omega) rest

-- Any other year has a sign in front.
theorem takeNumber?_yearText_eq_none {year : Int} (h : ¬(0 ≤ year ∧ year ≤ 9999)) (rest : List Char) :
    takeNumber? 4 4 (yearText year ++ rest) = none := by
  have hsign : (if 0 ≤ year then '+' else '-').isDigit = false := by split <;> decide
  rw [yearText, if_neg h, List.cons_append, takeNumber?, List.take_succ_cons,
    List.takeWhile_cons_of_neg (by rw [hsign]; decide)]
  rfl

theorem strictReading?_text {instant : Instant} (h : instant.FourDigit) :
    strictReading? instant.text.toList = some instant.reading := by
  obtain ⟨⟨hhour, hminute, hsecond⟩, -, hnanos, -⟩ := instant.reading_spec
  obtain ⟨-, ⟨-, hmonth⟩, -, hday⟩ := (Date.isValid_iff instant.reading.date).mp instant.date_isValid
  have hday' := Nat.le_trans hday (Date.daysInMonth_le _ _)
  have hyear : 0 ≤ instant.reading.date.year ∧ instant.reading.date.year ≤ 9999 := h
  have hseparator : ∀ rest, takeSeparator? ('T' :: rest) = some rest := fun _ => rfl
  have hoffset : takeOffset? (after? ':') ['Z'] = some (0, []) := by decide
  rw [text_eq, strictReading?]
  simp only [takeNumber?_yearText hyear, hseparator, after?_cons,
    takeNumber?_twoDigits (show instant.reading.date.month < 100 by omega),
    takeNumber?_twoDigits (show instant.reading.date.day < 100 by omega),
    takeNumber?_twoDigits (show instant.reading.hour < 100 by omega),
    takeNumber?_twoDigits (show instant.reading.minute < 100 by omega),
    takeNumber?_twoDigits (show instant.reading.second < 100 by omega),
    takeFraction?_subsecondText hnanos (stops_cons (show Char.isDigit 'Z' = false by decide) _)
      (stops_cons (by decide) _),
    hoffset, Option.bind_eq_bind, Option.bind_some, Int.toNat_of_nonneg hyear.1]
  rfl

theorem ofText?_text (instant : Instant) :
    ofText? instant.text = if instant.FourDigit then some instant.reread else none := by
  split
  · next h => rw [ofText?, strictReading?_text h, Option.bind_some, instant?_reading]
  · next h =>
    have hyear : ¬(0 ≤ instant.reading.date.year ∧ instant.reading.date.year ≤ 9999) := h
    rw [ofText?, text_eq, strictReading?, takeNumber?_yearText_eq_none hyear]
    rfl

theorem legible_of_ofText? {text : String} {instant : Instant} (h : ofText? text = some instant) : instant.Legible := by
  obtain ⟨reading, -, hreading⟩ := Option.bind_eq_some_iff.mp h
  exact legible_of_instant? hreading

end Muster.Instant
