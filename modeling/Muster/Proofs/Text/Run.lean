import Mathlib.Algebra.Group.Nat.Defs
import Muster.Net.Reader

-- Runs of characters at the front of a text, and the numerals that readers take from there.
namespace Muster.Text

variable {run rest : List Char} {p : Char → Bool}

-- The text does not go on with a character of a class.
def Stops (p : Char → Bool) (rest : List Char) : Prop := ∀ c ∈ rest.head?, p c = false

theorem stops_nil (p : Char → Bool) : Stops p [] := by
  intro c h
  cases h

theorem stops_cons {c : Char} (h : p c = false) (rest : List Char) : Stops p (c :: rest) := by
  intro d hd
  obtain rfl : c = d := by simpa using hd
  exact h

theorem Stops.mono {q : Char → Bool} (h : Stops p rest) (hsub : ∀ c, q c = true → p c = true) :
    Stops q rest := by
  intro c hc
  cases hq : q c with
  | false => rfl
  | true => exact absurd (hsub c hq) (by simp [h c hc])

theorem Stops.takeWhile (h : Stops p rest) : rest.takeWhile p = [] := by
  cases rest with
  | nil => rfl
  | cons c rest => exact List.takeWhile_cons_of_neg (by simp [h c rfl])

theorem Stops.dropWhile (h : Stops p rest) : rest.dropWhile p = rest := by
  cases rest with
  | nil => rfl
  | cons c rest => exact List.dropWhile_cons_of_neg (by simp [h c rfl])

theorem takeWhile_run (hrun : ∀ c ∈ run, p c = true) (hrest : Stops p rest) :
    (run ++ rest).takeWhile p = run := by
  rw [List.takeWhile_append_of_pos hrun, hrest.takeWhile, List.append_nil]

theorem dropWhile_run (hrun : ∀ c ∈ run, p c = true) (hrest : Stops p rest) :
    (run ++ rest).dropWhile p = rest := by
  rw [List.dropWhile_append_of_pos hrun, hrest.dropWhile]

theorem run_ne_cons {c : Char} (hc : p c = false) (hne : run ≠ []) (hrun : ∀ d ∈ run, p d = true)
    (rest tail : List Char) : run ++ rest ≠ c :: tail := by
  cases run with
  | nil => exact absurd rfl hne
  | cons d run =>
    intro h
    have hd := hrun d List.mem_cons_self
    rw [(List.cons.inj h).1, hc] at hd
    cases hd

-- What is left of a run and a rest begins inside the run or with the rest.
theorem stops_dropWhile_run {q : Char → Bool} (hrun : ∀ c ∈ run, p c = false) (hrest : Stops p rest)
    (hstop : Stops q rest) : Stops p ((run ++ rest).dropWhile q) := by
  induction run with
  | nil => rwa [List.nil_append, hstop.dropWhile]
  | cons c run ih =>
    rw [List.cons_append]
    cases hc : q c with
    | true =>
      rw [List.dropWhile_cons_of_pos hc]
      exact ih fun d hd => hrun d (List.mem_cons_of_mem _ hd)
    | false =>
      rw [List.dropWhile_cons_of_neg (by simp [hc])]
      exact stops_cons (hrun c List.mem_cons_self) _

theorem isHexDigit_of_isDigit {c : Char} (h : c.isDigit = true) : isHexDigit c = true := by
  simp only [Char.isDigit, Bool.and_eq_true, decide_eq_true_eq] at h
  have hbounds : '0' ≤ c ∧ c ≤ '9' := h
  simp [isHexDigit, hexValue?, hbounds]

theorem isHexDigit_digitChar {n : Nat} (h : n < 16) : isHexDigit n.digitChar = true := by
  simp [isHexDigit, hexValue?_digitChar h]

theorem isHexDigit_of_mem_hexadecimal {n : Nat} {c : Char} (h : c ∈ hexadecimal n) :
    isHexDigit c = true := by
  induction n using Nat.strongRecOn with
  | ind n ih =>
    by_cases hn : n < 16
    · rw [hexadecimal, Nat.toDigits_of_lt_base hn, List.mem_singleton] at h
      exact h ▸ isHexDigit_digitChar hn
    · rw [hexadecimal, Nat.toDigits_of_base_le (by decide) (by omega), List.mem_append,
        List.mem_singleton] at h
      rcases h with h | h
      · exact ih (n / 16) (by omega) h
      · exact h ▸ isHexDigit_digitChar (Nat.mod_lt n (by decide))

theorem length_decimal_le {n k : Nat} (hk : 0 < k) (h : n < 10 ^ k) : (decimal n).length ≤ k :=
  (Nat.length_toDigits_le_iff (by decide) hk).mpr h

theorem length_hexadecimal_le {n k : Nat} (hk : 0 < k) (h : n < 16 ^ k) : (hexadecimal n).length ≤ k :=
  (Nat.length_toDigits_le_iff (by decide) hk).mpr h

theorem ofDigitChars_decimal (n : Nat) : Nat.ofDigitChars 10 (decimal n) 0 = n :=
  Nat.ofDigitChars_ten_toDigits

-- A numeral has no sign in front.
theorem decimal_ne_cons {c : Char} (h : c.isDigit = false) (n : Nat) (rest : List Char) :
    decimal n ≠ c :: rest := by
  have hne := run_ne_cons h (decimal_ne_nil n) (fun _ => isDigit_of_mem_decimal) [] rest
  rwa [List.append_nil] at hne

-- A numeral begins with a zero only if it is the zero.
theorem head?_decimal_ne_zero {n : Nat} (h : 0 < n) : (decimal n).head? ≠ some '0' := by
  induction n using Nat.strongRecOn with
  | ind n ih =>
    by_cases hn : n < 10
    · simp only [decimal, Nat.toDigits_of_lt_base hn, List.head?_cons, ne_eq, Option.some.injEq,
        Nat.digitChar_eq_zero]
      omega
    · have hfront := ih (n / 10) (by omega) (by omega)
      obtain ⟨c, digits, hdigits⟩ := List.exists_cons_of_ne_nil (decimal_ne_nil (n / 10))
      have hsplit : decimal n = decimal (n / 10) ++ [(n % 10).digitChar] :=
        Nat.toDigits_of_base_le (by decide) (by omega)
      rw [hsplit, hdigits, List.cons_append, List.head?_cons]
      rwa [hdigits, List.head?_cons] at hfront

end Muster.Text

namespace Muster.Net

open Muster.Text

theorem after?_cons (mark : Char) (rest : List Char) : after? mark (mark :: rest) = some rest := if_pos rfl

theorem after?_of_stops {mark : Char} {rest : List Char} (h : Stops (· == mark) rest) :
    after? mark rest = none := by
  cases rest with
  | nil => rfl
  | cons c rest => exact if_neg (by simpa using h c rfl)

end Muster.Net
