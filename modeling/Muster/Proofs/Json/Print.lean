import Muster.Proofs.Json.Scan

-- A printed value is read back, whatever spaces a layout puts between its parts.
namespace Muster.Json

open Muster.Text

-- The values that can be written as they are: their numbers are integers, their strings are texts.
inductive Value.Whole : Value → Prop where
  | null : Whole .null
  | bool (value : Bool) : Whole (.bool value)
  | int (value : Int) : Whole (.int value)
  | string (value : String) : Whole (.string value)
  | list {items : List Value} (h : ∀ item ∈ items, Whole item) : Whole (.list items)
  | record {fields : List (String × Value)} (h : ∀ field ∈ fields, Whole field.2) : Whole (.record fields)

structure Layout.Neutral (layout : Layout) : Prop where
  newline : ∀ depth, ∀ c ∈ layout.newline depth, isSpace c = true
  colon : Reads .between layout.colon [.colon] .between

theorem Layout.compact_neutral : Layout.compact.Neutral where
  newline := by simp [Layout.compact]
  colon := .step rfl

theorem Layout.pretty_neutral : Layout.pretty.Neutral where
  newline := by
    intro depth c hc
    rcases List.mem_cons.mp hc with rfl | hc
    · rfl
    · rw [List.eq_of_mem_replicate hc]
      rfl
  colon := .emit ':' rfl (.step rfl)

theorem ends_cons {c : Char} (h : (c.isDigit || c == '.' || c == 'e' || c == 'E') = false) (rest : List Char) :
    Ends (c :: rest) := stops_cons h rest

theorem ends_spaces {spaces rest : List Char} (h : ∀ c ∈ spaces, isSpace c = true) (hrest : Ends rest) :
    Ends (spaces ++ rest) := by
  cases spaces with
  | nil => exact hrest
  | cons c spaces =>
    rcases isSpace_cases (h c List.mem_cons_self) with rfl | rfl | rfl | rfl
    all_goals exact ends_cons rfl _

-- A piece of text that gives some tokens and ends any number in front of it.
structure Closes (text : List Char) (tokens : List Token) : Prop where
  reads : Reads .between text tokens .between
  ends : ∀ rest, Ends (text ++ rest)

theorem Spells.followed {text after : List Char} {tokens tokens' : List Token} (h : Spells text tokens)
    (hafter : Closes after tokens') : Reads .between (text ++ after) (tokens ++ tokens') .between := by
  intro rest
  rw [List.append_assoc, h _ (hafter.ends rest), hafter.reads, Option.map_map]
  simp [Function.comp_def]

variable {layout : Layout} {inner : Nat}

theorem closes_newline (hlayout : layout.Neutral) (outer : Nat) {c : Char} {token : Token}
    (hstep : Mode.between.step? c = some ([token], .between))
    (hc : (c.isDigit || c == '.' || c == 'e' || c == 'E') = false) :
    Closes (layout.newline outer ++ [c]) [token] where
  reads := (Reads.spaces (hlayout.newline outer)).append (.step hstep)
  ends rest := by
    rw [List.append_assoc]
    exact ends_spaces (hlayout.newline outer) (ends_cons hc rest)

theorem closes_comma {text : List Char} {tokens : List Token} (h : Reads .between text tokens .between) :
    Closes (',' :: text) (.comma :: tokens) :=
  ⟨.emit ',' rfl h, fun _ => ends_cons rfl _⟩

-- What follows an item: the other items and the end of the list.
theorem closes_items (hlayout : layout.Neutral) (outer : Nat) {items : List Value}
    (h : ∀ item ∈ items, Spells (item.print layout inner) item.tokens) :
    Closes (Value.printItems layout inner items ++ (layout.newline outer ++ [']'])) (itemTokens items) := by
  induction items with
  | nil => exact closes_newline hlayout outer rfl rfl
  | cons item items ih =>
    have hitem := (h item List.mem_cons_self).followed (ih fun item hitem => h item (List.mem_cons_of_mem _ hitem))
    have hspaced := (Reads.spaces (hlayout.newline inner)).append hitem
    simp only [Value.printItems, itemTokens, List.cons_append, List.append_assoc, List.nil_append] at hspaced ⊢
    exact closes_comma hspaced

theorem reads_name (hlayout : layout.Neutral) (name : String) {text : List Char} {tokens : List Token}
    (h : Reads .between text tokens .between) :
    Reads .between (quoted name ++ (layout.colon ++ text)) (.text (some name) :: .colon :: tokens) .between :=
  (reads_quoted name).append (hlayout.colon.append h)

def named (fields : List (String × Value)) : List (Option String × Value) :=
  fields.map fun (name, value) => (some name, value)

theorem closes_fields (hlayout : layout.Neutral) (outer : Nat) {fields : List (String × Value)}
    (h : ∀ field ∈ fields, Spells (field.2.print layout inner) field.2.tokens) :
    Closes (Value.printFields layout inner (named fields) ++ (layout.newline outer ++ ['\x7d']))
      (fieldTokens (named fields)) := by
  induction fields with
  | nil => exact closes_newline hlayout outer rfl rfl
  | cons field fields ih =>
    have hvalue := (h field List.mem_cons_self).followed
      (ih fun field hfield => h field (List.mem_cons_of_mem _ hfield))
    have hspaced := (Reads.spaces (hlayout.newline inner)).append (reads_name hlayout field.1 hvalue)
    simp only [named, List.map_cons, Value.printFields, fieldTokens, Option.getD_some, List.cons_append,
      List.append_assoc, List.nil_append] at hspaced ⊢
    exact closes_comma hspaced

theorem Value.Whole.spells (hlayout : layout.Neutral) {value : Value} (h : value.Whole) (depth : Nat) :
    Spells (value.print layout depth) value.tokens := by
  induction h generalizing depth with
  | null => exact Reads.spells (.skip 'n' rfl (.skip 'u' rfl (.skip 'l' rfl (.step rfl))))
  | bool value =>
    cases value with
    | true => exact Reads.spells (.skip 't' rfl (.skip 'r' rfl (.skip 'u' rfl (.step rfl))))
    | false => exact Reads.spells (.skip 'f' rfl (.skip 'a' rfl (.skip 'l' rfl (.skip 's' rfl (.step rfl)))))
  | int value => exact spells_signedDecimal value
  | string value => exact (reads_quoted value).spells
  | @list items _ ih =>
    cases items with
    | nil => exact Reads.spells (.emit '[' rfl (.step rfl))
    | cons item items =>
      have hitem := (ih item List.mem_cons_self (depth + 1)).followed
        (closes_items hlayout depth fun item hitem => ih item (List.mem_cons_of_mem _ hitem) (depth + 1))
      have hspaced := (Reads.spaces (hlayout.newline (depth + 1))).append hitem
      simp only [Value.print, Value.tokens, List.cons_append, List.append_assoc, List.nil_append] at hspaced ⊢
      exact Reads.spells (.emit '[' rfl hspaced)
  | @record fields _ ih =>
    cases fields with
    | nil => exact Reads.spells (.emit '\x7b' rfl (.step rfl))
    | cons field fields =>
      have hvalue := (ih field List.mem_cons_self (depth + 1)).followed
        (closes_fields hlayout depth fun field hfield => ih field (List.mem_cons_of_mem _ hfield) (depth + 1))
      have hspaced := (Reads.spaces (hlayout.newline (depth + 1))).append (reads_name hlayout field.1 hvalue)
      simp only [Value.record, List.map_cons, Value.print, Value.tokens, Option.getD_some, List.cons_append,
        List.append_assoc, List.nil_append] at hspaced ⊢
      exact Reads.spells (.emit '\x7b' rfl hspaced)

theorem Value.Whole.ofText?_print (hlayout : layout.Neutral) {value : Value} (h : value.Whole) :
    Value.ofText? (.ofList (value.print layout 0)) = some value := by
  have hscan : scan .between ((value.print layout 0).map some) = some value.tokens := by
    simpa [scan, Mode.finish?] using h.spells hlayout 0 [] (stops_nil _)
  rw [Value.ofText?, tokens?, String.toList_ofList, hscan]
  exact value.ofTokens?_tokens

theorem Value.Whole.ofText?_compact {value : Value} (h : value.Whole) : Value.ofText? value.compact = some value :=
  h.ofText?_print Layout.compact_neutral

theorem Value.Whole.ofText?_pretty {value : Value} (h : value.Whole) : Value.ofText? value.pretty = some value :=
  h.ofText?_print Layout.pretty_neutral

end Muster.Json
