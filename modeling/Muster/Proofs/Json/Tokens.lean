import Muster.Json.Value

-- The tokens of a value, from which it is read back with fuel for two steps a token.
namespace Muster.Json

mutual

def Value.tokens : Value → List Token
  | .null => [.null]
  | .bool value => [.bool value]
  | .number value => [.number value]
  | .text value => [.text value]
  | .list [] => [.openBracket, .closeBracket]
  | .list (item :: items) => .openBracket :: item.tokens ++ itemTokens items
  | .object [] => [.openBrace, .closeBrace]
  | .object ((name, value) :: fields) =>
    .openBrace :: .text name :: .colon :: value.tokens ++ fieldTokens fields

-- What comes behind the first item of a list, up to its end.
def itemTokens : List Value → List Token
  | [] => [.closeBracket]
  | item :: items => .comma :: item.tokens ++ itemTokens items

def fieldTokens : List (Option String × Value) → List Token
  | [] => [.closeBrace]
  | (name, value) :: fields => .comma :: .text name :: .colon :: value.tokens ++ fieldTokens fields

end

-- No value begins with the end of a list.
theorem Value.tokens_ne_closeBracket (value : Value) (rest tail : List Token) :
    value.tokens ++ rest ≠ .closeBracket :: tail := by
  intro h
  cases value with
  | list items => cases items <;> simp [Value.tokens] at h
  | object fields => cases fields <;> simp [Value.tokens] at h
  | _ => simp [Value.tokens] at h

theorem Value.length_tokens_pos (value : Value) : 0 < value.tokens.length := by
  cases value with
  | list items => cases items <;> simp [Value.tokens]
  | object fields => cases fields <;> simp [Value.tokens]
  | _ => simp [Value.tokens]

mutual

theorem takeValue?_tokens : ∀ (fuel : Nat) (value : Value) (rest : List Token),
    2 * value.tokens.length ≤ fuel → takeValue? fuel (value.tokens ++ rest) = some (value, rest)
  | 0, value, _, hfuel => by
    have := value.length_tokens_pos
    omega
  | _ + 1, .null, _, _ => rfl
  | _ + 1, .bool _, _, _ => rfl
  | _ + 1, .number _, _, _ => rfl
  | _ + 1, .text _, _, _ => rfl
  | _ + 1, .list [], _, _ => rfl
  | fuel + 1, .list (item :: items), rest, hfuel => by
    simp only [Value.tokens, List.cons_append, List.append_assoc, List.length_cons, List.length_append] at hfuel ⊢
    rw [takeValue?, takeItems?_tokens fuel item items rest (by omega)]
    · rfl
    · intro tail h
      exact item.tokens_ne_closeBracket _ _ h
  | _ + 1, .object [], _, _ => rfl
  | fuel + 1, .object ((name, value) :: fields), rest, hfuel => by
    simp only [Value.tokens, List.cons_append, List.append_assoc, List.length_cons, List.length_append] at hfuel ⊢
    rw [takeValue?, takeFields?_tokens fuel name value fields rest (by omega)]
    · rfl
    · intro tail h
      cases h

theorem takeItems?_tokens : ∀ (fuel : Nat) (item : Value) (items : List Value) (rest : List Token),
    2 * (item.tokens.length + (itemTokens items).length) ≤ fuel →
      takeItems? fuel (item.tokens ++ (itemTokens items ++ rest)) = some (item :: items, rest)
  | 0, item, _, _, hfuel => by
    have := item.length_tokens_pos
    omega
  | fuel + 1, item, [], rest, hfuel => by
    simp only [itemTokens, List.length_cons, List.length_nil] at hfuel
    rw [takeItems?, takeValue?_tokens fuel item _ (by omega)]
    rfl
  | fuel + 1, item, next :: items, rest, hfuel => by
    simp only [itemTokens, List.cons_append, List.append_assoc, List.length_cons, List.length_append] at hfuel ⊢
    rw [takeItems?, takeValue?_tokens fuel item _ (by omega)]
    dsimp only
    rw [takeItems?_tokens fuel next items rest (by omega)]
    rfl

theorem takeFields?_tokens : ∀ (fuel : Nat) (name : Option String) (value : Value)
    (fields : List (Option String × Value)) (rest : List Token),
    2 * (value.tokens.length + (fieldTokens fields).length) ≤ fuel →
      takeFields? fuel (.text name :: .colon :: (value.tokens ++ (fieldTokens fields ++ rest))) =
        some ((name, value) :: fields, rest)
  | 0, _, value, _, _, hfuel => by
    have := value.length_tokens_pos
    omega
  | fuel + 1, name, value, [], rest, hfuel => by
    simp only [fieldTokens, List.length_cons, List.length_nil] at hfuel
    rw [takeFields?, takeValue?_tokens fuel value _ (by omega)]
    rfl
  | fuel + 1, name, value, (next, value') :: fields, rest, hfuel => by
    simp only [fieldTokens, List.cons_append, List.append_assoc, List.length_cons, List.length_append] at hfuel ⊢
    rw [takeFields?, takeValue?_tokens fuel value _ (by omega)]
    dsimp only
    rw [takeFields?_tokens fuel next value' fields rest (by omega)]
    rfl

end

theorem Value.ofTokens?_tokens (value : Value) : Value.ofTokens? value.tokens = some value := by
  have hread := takeValue?_tokens (2 * value.tokens.length + 1) value [] (Nat.le_succ _)
  rw [List.append_nil] at hread
  rw [Value.ofTokens?, hread]

end Muster.Json
