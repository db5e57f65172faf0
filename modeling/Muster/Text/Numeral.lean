namespace Muster.Text

def decimal (n : Nat) : List Char := Nat.toDigits 10 n

def hexadecimal (n : Nat) : List Char := Nat.toDigits 16 n

-- Zeros on the left, up to `width` characters; a longer numeral stays as it is.
def padded (width : Nat) (numeral : List Char) : List Char :=
  List.replicate (width - numeral.length) '0' ++ numeral

def signedDecimal : Int → List Char
  | .ofNat n => decimal n
  | .negSucc n => '-' :: decimal (n + 1)

-- One or more decimal digits and nothing else.
def readDecimal? (text : List Char) : Option Nat :=
  if text.isEmpty || !text.all Char.isDigit then none else some (Nat.ofDigitChars 10 text 0)

def hexValue? (c : Char) : Option Nat :=
  if '0' ≤ c ∧ c ≤ '9' then some (c.toNat - 48)
  else if 'a' ≤ c ∧ c ≤ 'f' then some (c.toNat - 87)
  else if 'A' ≤ c ∧ c ≤ 'F' then some (c.toNat - 55)
  else none

def isHexDigit (c : Char) : Bool := (hexValue? c).isSome

def hexNumber (digits : List Char) : Nat :=
  digits.foldl (fun value c => 16 * value + (hexValue? c).getD 0) 0

-- A port in a row key: decimal digits, a plus sign in front allowed.
def readUInt16? (text : List Char) : Option UInt16 := do
  let value ← readDecimal? (match text with | '+' :: digits => digits | digits => digits)
  if value < UInt16.size then some (UInt16.ofNat value) else none

-- A generation in a row key: decimal digits, a sign in front allowed.
def readInt32? (text : List Char) : Option Int32 := do
  let value ← match text with
    | '+' :: digits => (readDecimal? digits).map Int.ofNat
    | '-' :: digits => (readDecimal? digits).map fun n => -Int.ofNat n
    | digits => (readDecimal? digits).map Int.ofNat
  if Int32.minValue.toInt ≤ value ∧ value ≤ Int32.maxValue.toInt then some (Int32.ofInt value) else none

-- Sixteen lower-case hexadecimal digits.
def wordText (word : UInt64) : List Char := padded 16 (hexadecimal word.toNat)

theorem decimal_ne_nil (n : Nat) : decimal n ≠ [] := Nat.toDigits_ne_nil

theorem isDigit_of_mem_decimal {n : Nat} {c : Char} (h : c ∈ decimal n) : c.isDigit = true :=
  Nat.isDigit_of_mem_toDigits (by decide) (by decide) h

theorem readDecimal?_decimal (n : Nat) : readDecimal? (decimal n) = some n := by
  have hdigits : ∀ c ∈ Nat.toDigits 10 n, c.isDigit = true := fun _ => isDigit_of_mem_decimal
  simpa [readDecimal?, decimal, Nat.ofDigitChars_ten_toDigits] using hdigits

theorem hexValue?_digitChar {n : Nat} (h : n < 16) : hexValue? n.digitChar = some n := by
  have hall : ∀ k : Fin 16, hexValue? k.val.digitChar = some k.val := by decide
  exact hall ⟨n, h⟩

theorem hexNumber_append (front back : List Char) :
    hexNumber (front ++ back) =
      back.foldl (fun value c => 16 * value + (hexValue? c).getD 0) (hexNumber front) := by
  simp [hexNumber]

theorem hexNumber_hexadecimal (n : Nat) : hexNumber (hexadecimal n) = n := by
  induction n using Nat.strongRecOn with
  | ind n ih =>
    by_cases h : n < 16
    · simp [hexadecimal, Nat.toDigits_of_lt_base h, hexNumber, hexValue?_digitChar h]
    · have hlast := hexValue?_digitChar (Nat.mod_lt n (show 0 < 16 by decide))
      have hfront := ih (n / 16) (by omega)
      rw [hexadecimal, Nat.toDigits_of_base_le (by decide) (by omega), hexNumber_append]
      rw [hexadecimal] at hfront
      simp only [List.foldl_cons, List.foldl_nil, hlast, Option.getD_some, hfront]
      omega

theorem hexNumber_padded (width : Nat) (numeral : List Char) :
    hexNumber (padded width numeral) = hexNumber numeral := by
  rw [padded, hexNumber_append]
  have hzeros : ∀ k, hexNumber (List.replicate k '0') = 0 := by
    intro k
    induction k with
    | zero => rfl
    | succ k ih => rw [List.replicate_succ', hexNumber_append, ih]; rfl
  rw [hzeros]
  rfl

theorem hexNumber_wordText (word : UInt64) : hexNumber (wordText word) = word.toNat := by
  rw [wordText, hexNumber_padded, hexNumber_hexadecimal]

theorem wordText_injective {a b : UInt64} (h : wordText a = wordText b) : a = b := by
  apply UInt64.toNat_inj.mp
  rw [← hexNumber_wordText, h, hexNumber_wordText]

theorem length_wordText (word : UInt64) : (wordText word).length = 16 := by
  have hlen : (hexadecimal word.toNat).length ≤ 16 :=
    (Nat.length_toDigits_le_iff (by decide) (by decide)).mpr word.toNat_lt
  simp only [wordText, padded, List.length_append, List.length_replicate]
  omega

end Muster.Text
