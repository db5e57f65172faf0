import Muster.Json.Printer
import Muster.Proofs.Json.Tokens
import Muster.Proofs.Text.Run

-- What is printed is scanned into the tokens of the value, in any layout that adds only spaces.
namespace Muster.Json

open Muster.Text

-- The bytes of a text are decoded from any character of it on.
theorem decode_utf8Encode (front rest : List Char) :
    decode (front ++ rest).utf8Encode front.utf8Encode.size = rest.map some := by
  induction rest generalizing front with
  | nil =>
    rw [List.append_nil, decode, if_neg (Nat.lt_irrefl _)]
    rfl
  | cons c rest ih =>
    have hchar : (front ++ c :: rest).utf8Encode.utf8DecodeChar? front.utf8Encode.size = some c := by
      rw [ByteArray.utf8DecodeChar?_eq_utf8DecodeChar?_extract, List.utf8Encode_append,
        ByteArray.extract_append_eq_right rfl ByteArray.size_append, List.utf8DecodeChar?_utf8Encode_cons]
    have hsize : (front ++ [c]).utf8Encode.size = front.utf8Encode.size + c.utf8Size := by
      rw [List.utf8Encode_append, ByteArray.size_append, List.utf8Encode_singleton, List.size_toByteArray,
        String.length_utf8EncodeChar]
    have hrest := ih (front ++ [c])
    rw [List.append_assoc, List.singleton_append, hsize] at hrest
    have hlt := ByteArray.lt_size_of_isSome_utf8DecodeChar? (Option.isSome_of_eq_some hchar)
    rw [decode, if_pos hlt, hchar]
    exact congrArg (some c :: ·) hrest

theorem decode_toUTF8 (text : String) : decode text.toUTF8 0 = text.toList.map some := by
  have htext := decode_utf8Encode [] text.toList
  rwa [List.nil_append, String.utf8Encode_toList] at htext

theorem isSpace_cases {c : Char} (h : isSpace c = true) : c = ' ' ∨ c = '\n' ∨ c = '\t' ∨ c = '\r' := by
  simpa [isSpace, or_assoc] using h

-- From one mode to another a piece of text gives some tokens, whatever follows.
def Reads (mode : Mode) (text : List Char) (tokens : List Token) (next : Mode) : Prop :=
  ∀ rest : List Char, scan mode ((text ++ rest).map some) = (scan next (rest.map some)).map (tokens ++ ·)

namespace Reads

variable {mode next last : Mode} {c : Char} {text text' : List Char} {tokens tokens' : List Token}

theorem nil (mode : Mode) : Reads mode [] [] mode := by
  intro rest
  simp

theorem step (h : mode.step? c = some (tokens, next)) : Reads mode [c] tokens next := by
  intro rest
  rw [List.cons_append, List.nil_append, List.map_cons, scan, Mode.take?, h]
  rfl

theorem append (h : Reads mode text tokens next) (h' : Reads next text' tokens' last) :
    Reads mode (text ++ text') (tokens ++ tokens') last := by
  intro rest
  rw [List.append_assoc, h, h', Option.map_map]
  congr 1
  funext more
  exact (List.append_assoc tokens tokens' more).symm

theorem cons (h : mode.step? c = some (tokens, next)) (h' : Reads next text' tokens' last) :
    Reads mode (c :: text') (tokens ++ tokens') last := (step h).append h'

theorem skip (c : Char) (h : mode.step? c = some ([], next)) (h' : Reads next text tokens last) :
    Reads mode (c :: text) tokens last := cons h h'

theorem emit (c : Char) {token : Token} (h : mode.step? c = some ([token], next))
    (h' : Reads next text tokens last) : Reads mode (c :: text) (token :: tokens) last := cons h h'

theorem spaces (h : ∀ c ∈ text, isSpace c = true) : Reads .between text [] .between := by
  induction text with
  | nil => exact nil _
  | cons c text ih =>
    have hstep : Mode.between.step? c = some ([], .between) := by
      rcases isSpace_cases (h c List.mem_cons_self) with rfl | rfl | rfl | rfl <;> rfl
    exact skip c hstep (ih fun d hd => h d (List.mem_cons_of_mem _ hd))

end Reads

theorem Piece.text?_unit {value : Nat} (h : value < 0xD800) (more : List Piece) :
    Piece.text? (.unit value :: more) = (Piece.text? more).map (Char.ofNat value :: ·) := by
  have hfree : ¬(0xD800 ≤ value ∧ value ≤ 0xDFFF) := by omega
  have hhigh : ∀ low, ¬(0xD800 ≤ value ∧ value ≤ 0xDBFF ∧ 0xDC00 ≤ low ∧ low ≤ 0xDFFF) := by omega
  match more with
  | [] => simp only [Piece.text?, if_neg hfree]
  | .char _ :: _ => simp only [Piece.text?, if_neg hfree]
  | .stray :: _ => simp only [Piece.text?, if_neg hfree]
  | .unit low :: more => rw [Piece.text?, if_neg (hhigh low), if_neg hfree]

theorem reads_named {name c : Char} (hname : name ≠ 'u') (h : escaped? name = some c) (pieces : List Piece) :
    Reads (.text pieces) ['\\', name] [] (.text (.char c :: pieces)) := by
  refine .skip '\\' rfl (.step ?_)
  simp [Mode.step?, hname, h]

-- A control character is written with two zeros and its two digits.
theorem reads_control {n : Nat} (h : n < 0x20) (pieces : List Piece) :
    Reads (.text pieces) (['\\', 'u'] ++ padded 4 (hexadecimal n)) [] (.text (.unit n :: pieces)) := by
  have hdigits : ∀ n < 0x20,
      padded 4 (hexadecimal n) = ['0', '0', Nat.digitChar (n / 16), Nat.digitChar (n % 16)] := by decide
  rw [hdigits n h]
  have hlow : Reads (.unit pieces 1 (n / 16)) [(n % 16).digitChar] [] (.text (.unit n :: pieces)) := by
    refine .step ?_
    simp only [Mode.step?, hexValue?_digitChar (show n % 16 < 16 by omega), Option.map_some]
    rw [if_pos (by decide), show 16 * (n / 16) + n % 16 = n by omega]
  refine .skip '\\' rfl (.skip 'u' rfl (.skip '0' rfl (.skip '0' rfl (.skip _ ?_ hlow))))
  simp [Mode.step?, hexValue?_digitChar (show n / 16 < 16 by omega)]

-- Each character of a text comes back from its escape, as itself or as a unit.
theorem exists_piece (c : Char) (pieces : List Piece) :
    ∃ piece, Reads (.text pieces) (escape c) [] (.text (piece :: pieces)) ∧
      ∀ more, Piece.text? (piece :: more) = (Piece.text? more).map (c :: ·) := by
  unfold escape
  split
  · exact ⟨_, reads_named (by decide) rfl pieces, fun _ => rfl⟩
  · exact ⟨_, reads_named (by decide) rfl pieces, fun _ => rfl⟩
  · exact ⟨_, reads_named (by decide) rfl pieces, fun _ => rfl⟩
  · exact ⟨_, reads_named (by decide) rfl pieces, fun _ => rfl⟩
  · exact ⟨_, reads_named (by decide) rfl pieces, fun _ => rfl⟩
  · exact ⟨_, reads_named (by decide) rfl pieces, fun _ => rfl⟩
  · exact ⟨_, reads_named (by decide) rfl pieces, fun _ => rfl⟩
  · next hquote hslash _ _ _ _ _ =>
    split
    · next hlow =>
      refine ⟨.unit c.toNat, reads_control hlow pieces, fun more => ?_⟩
      rw [Piece.text?_unit (by omega), Char.ofNat_toNat]
    · next hhigh =>
      refine ⟨.char c, .step ?_, fun _ => rfl⟩
      simp only [Mode.step?]
      rw [if_neg (by simpa using hquote), if_neg (by simpa using hslash), if_neg hhigh]

theorem exists_pieces (text : List Char) (before : List Piece) :
    ∃ pieces, Reads (.text before) (text.flatMap escape) [] (.text (pieces.reverse ++ before)) ∧
      Piece.text? pieces = some text := by
  induction text generalizing before with
  | nil => exact ⟨[], .nil _, rfl⟩
  | cons c text ih =>
    obtain ⟨piece, hread, hpiece⟩ := exists_piece c before
    obtain ⟨pieces, hreads, hpieces⟩ := ih (piece :: before)
    refine ⟨piece :: pieces, ?_, ?_⟩
    · rw [List.flatMap_cons, List.reverse_cons, List.append_assoc]
      exact hread.append hreads
    · rw [hpiece, hpieces, Option.map_some]

theorem reads_quoted (text : String) : Reads .between (quoted text) [.text (some text)] .between := by
  obtain ⟨pieces, hreads, hpieces⟩ := exists_pieces text.toList []
  rw [List.append_nil] at hreads
  have hclose : (Mode.text pieces.reverse).step? '"' = some ([.text (some text)], .between) := by
    simp [Mode.step?, hpieces]
  exact .skip '"' rfl (hreads.append (.step hclose))

-- The text goes on with nothing that could belong to a number.
def Ends (rest : List Char) : Prop :=
  Stops (fun c => c.isDigit || c == '.' || c == 'e' || c == 'E') rest

-- Before such a text, a piece of text gives some tokens.
def Spells (text : List Char) (tokens : List Token) : Prop :=
  ∀ rest, Ends rest → scan .between ((text ++ rest).map some) = (scan .between (rest.map some)).map (tokens ++ ·)

theorem Reads.spells {text : List Char} {tokens : List Token} (h : Reads .between text tokens .between) :
    Spells text tokens := fun rest _ => h rest

-- The stage at which the numeral of a number has been read.
def stageOf (n : Nat) : Stage := if n = 0 then .zero else .whole

theorem reads_decimal (start : Mode) (negative : Bool)
    (hfirst : ∀ digit < 10, start.step? digit.digitChar = some ([], .number (stageOf digit) negative digit))
    (n : Nat) : Reads start (decimal n) [] (.number (stageOf n) negative n) := by
  induction n using Nat.strongRecOn with
  | ind n ih =>
    by_cases hn : n < 10
    · rw [decimal, Nat.toDigits_of_lt_base hn]
      exact .step (hfirst n hn)
    · have hfront := ih (n / 10) (by omega)
      have hdigit : n % 10 < 10 := Nat.mod_lt n (by decide)
      have hlast : (Mode.number .whole negative (n / 10)).step? (n % 10).digitChar =
          some ([], .number .whole negative n) := by
        have hvalue := Nat.toNat_digitChar_sub_48_of_lt_ten hdigit
        simp [Mode.step?, Stage.next?, Nat.isDigit_digitChar, hdigit, hvalue]
        omega
      rw [stageOf, if_neg (by omega)] at hfront ⊢
      rw [decimal, Nat.toDigits_of_base_le (by decide) (by omega)]
      exact hfront.append (.step hlast)

theorem scan_number {stage : Stage} (hstage : stage = .zero ∨ stage = .whole) (negative : Bool) (magnitude : Nat)
    {rest : List Char} (h : Ends rest) :
    scan (.number stage negative magnitude) (rest.map some) =
      (scan .between (rest.map some)).map ([numberToken stage negative magnitude] ++ ·) := by
  cases rest with
  | nil => rcases hstage with rfl | rfl <;> rfl
  | cons c rest =>
    have hc := h c rfl
    simp only [Bool.or_eq_false_iff, beq_eq_false_iff_ne] at hc
    have hstep : (Mode.number stage negative magnitude).step? c = (Mode.begin? c).map fun begun =>
        (numberToken stage negative magnitude :: begun.1, begun.2) := by
      rcases hstage with rfl | rfl <;> simp [Mode.step?, Stage.next?, Stage.isComplete, hc]
    rw [List.map_cons, scan, scan, Mode.take?, Mode.take?, hstep, Mode.step?]
    cases Mode.begin? c with
    | none => rfl
    | some begun => simp [Option.map_map, Function.comp_def]

theorem numberToken_stageOf {negative : Bool} {n : Nat} (h : negative = true → n ≠ 0) :
    numberToken (stageOf n) negative n = .number (some (if negative then -(n : Int) else n)) := by
  have hzero : (negative && n == 0) = false := by
    cases negative with
    | false => rfl
    | true => simpa using h rfl
  unfold stageOf
  split
  all_goals simp [numberToken, hzero]

theorem stageOf_cases (n : Nat) : stageOf n = .zero ∨ stageOf n = .whole := by
  unfold stageOf
  split
  · exact Or.inl rfl
  · exact Or.inr rfl

theorem spells_signedDecimal (value : Int) : Spells (signedDecimal value) [.number (some value)] := by
  intro rest hrest
  cases value with
  | ofNat n =>
    have hreads := reads_decimal .between false (by decide) n
    rw [signedDecimal, hreads, scan_number (stageOf_cases n) _ _ hrest, numberToken_stageOf Bool.noConfusion]
    simp [Function.comp_def]
  | negSucc n =>
    have hreads : Reads .between ('-' :: decimal (n + 1)) [] (.number (stageOf (n + 1)) true (n + 1)) :=
      .skip '-' rfl (reads_decimal (.number .sign true 0) true (by decide) (n + 1))
    have hnonzero : true = true → n + 1 ≠ 0 := fun _ => Nat.succ_ne_zero n
    rw [signedDecimal, hreads, scan_number (stageOf_cases (n + 1)) _ _ hrest, numberToken_stageOf hnonzero]
    simp [Int.negSucc_eq, Function.comp_def]

end Muster.Json
