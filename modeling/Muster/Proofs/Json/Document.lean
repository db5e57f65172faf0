import Muster.Json.Deployment
import Muster.Proofs.Json.Print
import Muster.Proofs.Json.Reread

-- Everything a table is made of is read back from what it is written as, apart from what its texts leave out.
namespace Muster.Json

variable {α : Type} {write : α → Value} {read : Value → Option α} {keep : α → α}

-- What is written can be printed, and is read back as what it keeps.
structure Codes (write : α → Value) (read : Value → Option α) (keep : α → α) : Prop where
  whole : ∀ a, (write a).Whole
  reads : ∀ a, read (write a) = some (keep a)

theorem mapM_map {β : Type} {write : α → β} {read : β → Option α} (h : ∀ a, read (write a) = some (keep a))
    (as : List α) : (as.map write).mapM read = some (as.map keep) := by
  induction as with
  | nil => rfl
  | cons a as ih =>
    rw [List.map_cons, List.mapM_cons, h, ih]
    rfl

namespace Value

theorem fields?_record (names : List String) {fields : List (String × Value)} (hnames : fields.map Prod.fst = names)
    (hnodup : names.Nodup) : (record fields).fields? names = some fields := by
  have hknown : ∀ field ∈ fields, names.contains field.1 = true := by
    intro field hfield
    rw [List.contains_iff_mem, ← hnames]
    exact List.mem_map_of_mem hfield
  rw [← hnames] at hnodup
  have hnamed : (fields.map fun field => (some field.1, field.2)).mapM
      (fun field : Option String × Value => field.1.map fun name => (name, field.2)) = some (fields.map id) := by
    refine mapM_map ?_ fields
    exact fun _ => rfl
  refine (congrArg (fun named => Option.bind named _) hnamed).trans ?_
  rw [List.map_id, Option.bind_some]
  simp only [List.filter_eq_self.mpr hknown]
  exact if_pos hnodup

theorem int?_int {least most value : Int} (hleast : least ≤ value) (hmost : value ≤ most) :
    (Value.int value).int? least most = some value := if_pos ⟨hleast, hmost⟩

end Value

-- A record is read field by field, each found at the place it was written to.
section Field

variable {β : Type} {fields : List (String × Value)} {name : String} {a default : α} {rest : α → Option β}
  {b : Option β}

theorem Codes.required (h : Codes write read keep) (hnodup : (fields.map Prod.fst).Nodup) (i : Nat)
    (hi : fields[i]? = some (name, write a)) (hrest : rest (keep a) = b) :
    (required fields name read >>= rest) = b := by
  rw [Json.required, lookup_of_nodup hnodup (List.mem_of_getElem? hi), Option.bind_some, h.reads]
  exact hrest

theorem Codes.defaulted (h : Codes write read keep) (hnodup : (fields.map Prod.fst).Nodup) (i : Nat)
    (hi : fields[i]? = some (name, write a)) (hrest : rest (keep a) = b) :
    (defaulted fields name default read >>= rest) = b := by
  rw [Json.defaulted, lookup_of_nodup hnodup (List.mem_of_getElem? hi)]
  exact (congrArg (· >>= rest) (h.reads a)).trans hrest

end Field

-- Whole numbers of a type with a largest one.
theorem codes_word {toNat : α → Nat} {ofNat : Nat → α} {most : Int} (hmost : ∀ a, (toNat a : Int) ≤ most)
    (hof : ∀ a, ofNat (toNat a) = a) :
    Codes (fun a => .int (toNat a)) (fun value => (value.int? 0 most).map fun n => ofNat n.toNat) id where
  whole a := .int _
  reads a := by
    rw [Value.int?_int (Int.natCast_nonneg _) (hmost a), Option.map_some, Int.toNat_natCast, hof, id]

theorem codes_signed {toInt : α → Int} {ofInt : Int → α} {least most : Int}
    (hrange : ∀ a, least ≤ toInt a ∧ toInt a ≤ most) (hof : ∀ a, ofInt (toInt a) = a) :
    Codes (fun a => .int (toInt a)) (fun value => (value.int? least most).map ofInt) id where
  whole a := .int _
  reads a := by rw [Value.int?_int (hrange a).1 (hrange a).2, Option.map_some, hof, id]

theorem codes_uint16 : Codes (fun n : UInt16 => .int n.toNat) Value.uint16? id :=
  codes_word (fun n => Int.ofNat_le.mpr (Nat.le_of_lt_succ n.toNat_lt)) fun _ => UInt16.ofNat_toNat

theorem codes_uint32 : Codes (fun n : UInt32 => .int n.toNat) Value.uint32? id :=
  codes_word (fun n => Int.ofNat_le.mpr (Nat.le_of_lt_succ n.toNat_lt)) fun _ => UInt32.ofNat_toNat

theorem codes_uint64 : Codes (fun n : UInt64 => .int n.toNat) Value.uint64? id :=
  codes_word (fun n => Int.ofNat_le.mpr (Nat.le_of_lt_succ n.toNat_lt)) fun _ => UInt64.ofNat_toNat

theorem codes_int32 : Codes (fun n : Int32 => .int n.toInt) Value.int32? id :=
  codes_signed (fun n => ⟨n.minValue_le_toInt, n.toInt_le⟩) Int32.ofInt_toInt

theorem codes_int64 : Codes (fun n : Int64 => .int n.toInt) Value.int64? id :=
  codes_signed (fun n => ⟨n.minValue_le_toInt, n.toInt_le⟩) Int64.ofInt_toInt

theorem codes_text : Codes .string Value.text? id := ⟨.string, fun _ => rfl⟩

theorem codes_bool : Codes .bool Value.bool? id := ⟨.bool, fun _ => rfl⟩

theorem Codes.list (h : Codes write read keep) :
    Codes (fun as => .list (as.map write)) (Value.list? read) (List.map keep) where
  whole as := by
    refine .list fun item hitem => ?_
    obtain ⟨a, -, rfl⟩ := List.mem_map.mp hitem
    exact h.whole a
  reads as := mapM_map h.reads as

-- A missing value is told from the others, as none of those is read from a null.
theorem Codes.orNull (h : Codes write read id) (hnull : read .null = none) :
    Codes (Value.optional write) (Value.orNull? read) id where
  whole a := by
    cases a with
    | none => exact .null
    | some a => exact h.whole a
  reads a := by
    cases a with
    | none => rfl
    | some a =>
      have hread := h.reads a
      have hsome : ∀ value, value ≠ .null → Value.orNull? read value = (read value).map some := by
        intro value hvalue
        cases value <;> first | rfl | exact absurd rfl hvalue
      have hne : write a ≠ .null := by
        intro hwrite
        rw [hwrite, hnull] at hread
        cases hread
      rw [Value.optional, hsome _ hne, hread]
      rfl

end Muster.Json

namespace Muster

open Muster.Json

theorem Instant.codes : Codes toJson ofJson? reread where
  whole instant := .string _
  reads instant := by
    rw [ofJson?, toJson, codes_text.reads, Option.bind_some, id, ofLenientText?_text]

theorem Status.codes : Codes toJson ofJson? id := ⟨fun _ => .string _, ofName?_name⟩

theorem Etag.codes : Codes toJson ofJson? id := ⟨fun _ => .string _, fun _ => rfl⟩

theorem codes_endpoint :
    Codes (fun endpoint => .string (.ofList endpoint.text)) Silo.endpointOfJson? Net.Endpoint.reread where
  whole endpoint := .string _
  reads endpoint := by
    rw [Silo.endpointOfJson?, codes_text.reads, Option.bind_some, id, String.toList_ofList, endpoint.ofText?_text]

theorem Silo.codes : Codes toJson ofJson? reread where
  whole silo := by
    refine .record ?_
    simp only [List.forall_mem_cons]
    exact ⟨.string _, .int _, by simp⟩
  reads silo := by
    have hnodup : fieldNames.Nodup := by decide
    rw [ofJson?, toJson, Value.fields?_record fieldNames rfl hnodup, Option.bind_eq_bind, Option.bind_some]
    refine codes_endpoint.required hnodup 0 rfl ?_
    refine codes_int32.required hnodup 1 rfl ?_
    rfl

theorem Suspicion.codes : Codes toJson ofJson? reread where
  whole suspicion := by
    refine .record ?_
    simp only [List.forall_mem_cons]
    exact ⟨Silo.codes.whole _, Instant.codes.whole _, by simp⟩
  reads suspicion := by
    have hnodup : fieldNames.Nodup := by decide
    rw [ofJson?, toJson, Value.fields?_record fieldNames rfl hnodup, Option.bind_eq_bind, Option.bind_some]
    refine Silo.codes.required hnodup 0 rfl ?_
    refine Instant.codes.required hnodup 1 rfl ?_
    rfl

theorem Entry.codes : Codes toJson ofJson? reread where
  whole entry := by
    refine .record ?_
    simp only [List.forall_mem_cons]
    exact ⟨Silo.codes.whole _, codes_text.whole _, Status.codes.whole _, (codes_uint16.orNull rfl).whole _,
      codes_bool.whole _, codes_text.whole _, codes_text.whole _, codes_uint32.whole _, codes_uint32.whole _,
      Instant.codes.whole _, Instant.codes.whole _, Suspicion.codes.list.whole _, by simp⟩
  reads entry := by
    have hnodup : fieldNames.Nodup := by decide
    rw [ofJson?, toJson, Value.fields?_record fieldNames rfl hnodup, Option.bind_eq_bind, Option.bind_some]
    refine Silo.codes.required hnodup 0 rfl ?_
    refine codes_text.required hnodup 1 rfl ?_
    refine Status.codes.required hnodup 2 rfl ?_
    refine (codes_uint16.orNull rfl).defaulted hnodup 3 rfl ?_
    refine codes_bool.required hnodup 4 rfl ?_
    refine codes_text.required hnodup 5 rfl ?_
    refine codes_text.required hnodup 6 rfl ?_
    refine codes_uint32.required hnodup 7 rfl ?_
    refine codes_uint32.required hnodup 8 rfl ?_
    refine Instant.codes.required hnodup 9 rfl ?_
    refine Instant.codes.required hnodup 10 rfl ?_
    refine Suspicion.codes.list.required hnodup 11 rfl ?_
    rfl

theorem Version.codes : Codes toJson ofJson? id where
  whole version := by
    refine .record ?_
    simp only [List.forall_mem_cons]
    exact ⟨codes_int64.whole _, codes_text.whole _, by simp⟩
  reads version := by
    have hnodup : fieldNames.Nodup := by decide
    rw [ofJson?, toJson, Value.fields?_record fieldNames rfl hnodup, Option.bind_eq_bind, Option.bind_some]
    refine codes_int64.required hnodup 0 rfl ?_
    refine codes_text.required hnodup 1 rfl ?_
    rfl

theorem Row.codes : Codes toJson ofJson? reread where
  whole row := by
    refine .record ?_
    simp only [List.forall_mem_cons]
    exact ⟨Entry.codes.whole _, Etag.codes.whole _, by simp⟩
  reads row := by
    have hnodup : fieldNames.Nodup := by decide
    rw [ofJson?, toJson, Value.fields?_record fieldNames rfl hnodup, Option.bind_eq_bind, Option.bind_some]
    refine Entry.codes.required hnodup 0 rfl ?_
    refine Etag.codes.required hnodup 1 rfl ?_
    rfl

namespace Rows

-- A row whose key is larger than all others stands last.
theorem place_last {key : String} (row : Row) {rows : List (String × Row)} (h : ∀ pair ∈ rows, pair.1 < key) :
    place key row rows = rows ++ [(key, row)] := by
  induction rows with
  | nil => rfl
  | cons head rest ih =>
    obtain ⟨k, r⟩ := head
    have hk : k < key := h (k, r) List.mem_cons_self
    have hrest := ih fun pair hpair => h pair (List.mem_cons_of_mem _ hpair)
    rw [place, if_neg (String.lt_asymm hk), if_pos hk, hrest, List.cons_append]

theorem toList_foldl_insert (more : List (String × Row)) (rows : Rows)
    (h : (rows.toList ++ more).Pairwise fun a b => a.1 < b.1) :
    (more.foldl (fun rows (key, row) => rows.insert key row) rows).toList = rows.toList ++ more := by
  induction more generalizing rows with
  | nil => simp
  | cons pair more ih =>
    obtain ⟨-, -, hcross⟩ := List.pairwise_append.mp h
    have hlast : (rows.insert pair.1 pair.2).toList = rows.toList ++ [pair] :=
      place_last pair.2 fun a ha => hcross a ha pair List.mem_cons_self
    rw [List.append_cons, ← hlast] at h ⊢
    exact ih _ h

theorem ofList_toList (rows : Rows) : ofList rows.toList = rows := by
  have hlist : (ofList rows.toList).toList = rows.toList := toList_foldl_insert rows.toList empty rows.sorted
  cases rows
  exact Rows.mk.injEq .. ▸ hlist

theorem codes : Codes toJson ofJson? reread where
  whole rows := by
    refine .record fun field hfield => ?_
    obtain ⟨⟨key, row⟩, -, rfl⟩ := List.mem_map.mp hfield
    exact Row.codes.whole row
  reads rows := by
    have hfields : ((rows.toList.map fun (key, row) => (some key, row.toJson)).mapM rowOfField?) =
        some rows.reread.toList := by
      refine mapM_map (fun (key, row) => ?_) rows.toList
      rw [rowOfField?, Row.codes.reads]
      rfl
    rw [toJson, Value.record, List.map_map, ofJson?]
    exact (congrArg (Option.map ofList) hfields).trans (congrArg some rows.reread.ofList_toList)

end Rows

namespace Deployment

theorem codes : Codes toJson ofJson? reread where
  whole table := by
    refine .record ?_
    simp only [List.forall_mem_cons]
    exact ⟨codes_text.whole _, (Version.codes.orNull rfl).whole _, Rows.codes.whole _, codes_uint64.whole _,
      codes_uint64.whole _, by simp⟩
  reads table := by
    have hnodup : fieldNames.Nodup := by decide
    rw [ofJson?, toJson, Value.fields?_record fieldNames rfl hnodup, Option.bind_eq_bind, Option.bind_some]
    refine codes_text.required hnodup 0 rfl ?_
    refine (Version.codes.orNull rfl).defaulted hnodup 1 rfl ?_
    refine Rows.codes.required hnodup 2 rfl ?_
    refine codes_uint64.defaulted hnodup 3 rfl ?_
    refine codes_uint64.required hnodup 4 rfl ?_
    rfl

theorem ofDocument?_document (table : Deployment) : ofDocument? table.document = some table.reread := by
  rw [ofDocument?, document, (codes.whole table).ofText?_pretty, Option.bind_some, codes.reads]

theorem ofDocument?_compact (table : Deployment) : ofDocument? table.toJson.compact = some table.reread := by
  rw [ofDocument?, (codes.whole table).ofText?_compact, Option.bind_some, codes.reads]

theorem ofBytes?_toUTF8 (text : String) : ofBytes? text.toUTF8 = ofDocument? text := by
  rw [ofBytes?, Value.ofBytes?, decode_toUTF8]
  rfl

theorem ofBytes?_document (table : Deployment) : ofBytes? table.document.toUTF8 = some table.reread := by
  rw [ofBytes?_toUTF8, ofDocument?_document]

-- Everything of a table that has a text comes back from a document, be it laid out over lines or in one. The table
-- itself comes back if its texts leave nothing of it out.
theorem document_round_trip (table : Deployment) :
    ofDocument? table.document = some table.reread ∧ ofDocument? table.toJson.compact = some table.reread ∧
    (table.reread = table ↔ table.Legible) :=
  ⟨table.ofDocument?_document, table.ofDocument?_compact, reread_eq_self_iff⟩

-- A silo that has started in a leap second in the middle of a minute. It comes back as started a second later.
theorem document_loses_stray_leap :
    let entry : Entry := .fresh (.onLoopback 11111 7) "node" .strayLeap
    let table := (new "orders").commit entry ⟨0, ""⟩
    (∀ key row, table.rows.get? key = some row → row.entry.silo.endpoint.flow = 0) ∧
    ofDocument? table.document ≠ some table ∧ ofDocument? table.toJson.compact ≠ some table := by
  intro entry table
  have hrow : table.rows.get? entry.silo.rowKey = some ⟨entry, ⟨(new "orders").token 1⟩⟩ :=
    (get?_commit _ _ _ _).trans (if_pos rfl)
  have hlost : table.reread ≠ table := fun h => absurd (reread_eq_self_iff.mp h _ _ hrow) (by decide)
  refine ⟨?_, fun h => hlost (Option.some.inj ?_), fun h => hlost (Option.some.inj ?_)⟩
  · intro key row hget
    rw [get?_commit] at hget
    split at hget
    · obtain rfl := Option.some.inj hget
      rfl
    · cases hget
  · exact (table.ofDocument?_document).symm.trans h
  · exact (table.ofDocument?_compact).symm.trans h

end Deployment
end Muster
