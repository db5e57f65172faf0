import Mathlib.Data.List.Forall2
import Muster.Proofs.Json.Reread
import Muster.Proofs.Time.Strict
import Muster.Registry.Record

-- What is laid out in columns is read back from there, unless a silo names a link or a flow, or a suspicion is of a
-- time that its column has no text for.
namespace Muster

open Muster.Text

namespace Silo

theorem bar_not_mem_rowKey (silo : Silo) : '|' ∉ silo.rowKey.toList := by
  have hgeneration : '|' ∉ signedDecimal silo.generation.toInt := by
    cases silo.generation.toInt with
    | ofNat n => exact Net.not_mem_decimal (by decide) n
    | negSucc n => simp [signedDecimal, Net.not_mem_decimal]
  simp [rowKey, Net.not_mem_text, Net.not_mem_decimal, hgeneration, Net.isAddressChar, isHexDigit, hexValue?]

theorem rowKey_ne_empty (silo : Silo) : silo.rowKey ≠ "" := fun h => by
  have hread := ofRowKey_rowKey silo
  rw [h] at hread
  cases hread

end Silo

namespace Instant

theorem bar_not_mem_padded (width n : Nat) : '|' ∉ padded width (decimal n) := fun h =>
  absurd (isDigit_of_mem_padded h) (by decide)

theorem bar_not_mem_text (instant : Instant) : '|' ∉ instant.text.toList := by
  have hyear : ∀ year, '|' ∉ yearText year := by
    intro year
    unfold yearText
    split
    · exact bar_not_mem_padded _ _
    · split <;> simp [bar_not_mem_padded]
  have hsubsecond : ∀ nanos, '|' ∉ subsecondText nanos := by
    intro nanos
    unfold subsecondText
    repeat' split
    all_goals simp [bar_not_mem_padded]
  simp [text_eq, hyear, hsubsecond, twoDigits, bar_not_mem_padded]

theorem text_ne_empty (instant : Instant) : instant.text ≠ "" := fun h => by
  have htext := instant.text_eq
  simp [h] at htext

end Instant

namespace Record

theorem partsOf_eq_splitOn (text : List Char) : partsOf text = text.splitOn '|' := by
  induction text with
  | nil => rfl
  | cons c rest ih =>
    rw [partsOf, ih, List.splitOn_cons_eq_if_modifyHead]
    by_cases hc : c = '|'
    · simp [hc]
    · cases hparts : rest.splitOn '|' with
      | nil => exact absurd hparts (List.splitOn_ne_nil _ _)
      | cons part parts => simp [hc]

theorem splitColumn_joinColumn {values : List String} (hbar : ∀ value ∈ values, '|' ∉ value.toList)
    (hempty : ∀ value ∈ values, value ≠ "") : splitColumn (joinColumn values) = values := by
  by_cases hvalues : values = []
  · rw [hvalues]
    rfl
  have hparts : partsOf (joinColumn values).toList = values.map String.toList := by
    rw [joinColumn, String.toList_ofList, partsOf_eq_splitOn, List.splitOn_intercalate _ _ (by simpa using hvalues)]
    simpa using hbar
  have hcolumn : (joinColumn values).isEmpty = false := by
    cases hcolumn : (joinColumn values).isEmpty with
    | false => rfl
    | true =>
      rw [String.isEmpty_iff.mp hcolumn] at hparts
      have hmem : [] ∈ values.map String.toList := hparts ▸ List.mem_singleton_self _
      obtain ⟨value, hvalue, hnil⟩ := List.mem_map.mp hmem
      exact absurd (String.toList_eq_nil_iff.mp hnil) (hempty value hvalue)
  rw [splitColumn, hcolumn, if_neg Bool.false_ne_true, hparts, List.map_map]
  simp [Function.comp_def]

variable {deployment : String} {entry : Entry} {version : Option Int64}

theorem silo_ofEntry : (ofEntry deployment entry version).silo =
    .ok ⟨.ofIp entry.silo.ip entry.silo.port, entry.silo.generation⟩ := by
  have hkey : (Silo.mk (.ofIp entry.silo.ip entry.silo.port) entry.silo.generation).rowKey = entry.silo.rowKey :=
    (Silo.rowKey_eq_iff _ _).mpr ⟨Net.Endpoint.ip_ofIp _ _, Net.Endpoint.port_ofIp _ _, rfl⟩
  simp only [Record.silo, ofEntry, String.toList_ofList, Net.Ip.ofText?_text, hkey, if_true]

-- A suspicion that its columns can hold.
def Writable (suspicion : Suspicion) : Prop :=
  suspicion.voter.Bare ∧ suspicion.time.FourDigit ∧ suspicion.time.Legible

theorem suspicionOf_text (suspicion : Suspicion) :
    suspicionOf suspicion.voter.rowKey suspicion.time.text = .ok suspicion ↔ Writable suspicion := by
  obtain ⟨voter, time⟩ := suspicion
  rw [suspicionOf, Silo.ofRowKey_rowKey, Instant.ofText?_text]
  by_cases htime : time.FourDigit
  · simp [htime, Writable, Silo.ofIp_eq_self_iff, Instant.reread_eq_self_iff]
  · simp [htime, Writable]

theorem suspicions_ofEntry : (ofEntry deployment entry version).suspicions =
    entry.suspicions.mapM fun suspicion => suspicionOf suspicion.voter.rowKey suspicion.time.text := by
  have hvoters : splitColumn (ofEntry deployment entry version).voters =
      entry.suspicions.map fun suspicion => suspicion.voter.rowKey :=
    splitColumn_joinColumn (by simp [Silo.bar_not_mem_rowKey]) (by simp [Silo.rowKey_ne_empty])
  have htimes : splitColumn (ofEntry deployment entry version).voteTimes =
      entry.suspicions.map fun suspicion => suspicion.time.text :=
    splitColumn_joinColumn (by simp [Instant.bar_not_mem_text]) (by simp [Instant.text_ne_empty])
  simp only [suspicions, hvoters, htimes, List.length_map, if_true, List.zip_map', List.mapM_map, Function.comp_def]

theorem mapM_eq_ok_iff {ε α β : Type} {read : α → Except ε β} {values : List α} {found : List β} :
    values.mapM read = .ok found ↔ List.Forall₂ (fun value other => read value = .ok other) values found := by
  induction values generalizing found with
  | nil => cases found <;> simp [pure, Except.pure]
  | cons value rest ih =>
    rw [List.mapM_cons]
    cases hvalue : read value with
    | error error => cases found <;> simp [hvalue, bind, Except.bind]
    | ok first =>
      cases hrest : rest.mapM read with
      | error error => cases found <;> simp [hvalue, hrest, ← ih, bind, Except.bind]
      | ok others => cases found <;> simp [hvalue, hrest, ← ih, bind, Except.bind, pure, Except.pure]

theorem filter_ne_zero_iff {port : Option UInt16} : port.filter (· != 0) = port ↔ port ≠ some 0 := by
  cases port with
  | none => simp
  | some port => by_cases h : port = 0 <;> simp [h]

-- What an entry has to be like to come back from the columns.
theorem entry_ofEntry_iff : (ofEntry deployment entry version).entry = .ok entry ↔
    entry.silo.Bare ∧ entry.gatewayPort ≠ some 0 ∧ ∀ suspicion ∈ entry.suspicions, Writable suspicion := by
  have hstatus : Status.ofName (ofEntry deployment entry version).status = .ok entry.status := by
    simp [ofEntry, Status.ofName, Status.ofName?_name]
  have hsuspicions : (ofEntry deployment entry version).suspicions = .ok entry.suspicions ↔
      ∀ suspicion ∈ entry.suspicions, Writable suspicion := by
    rw [suspicions_ofEntry, mapM_eq_ok_iff, List.forall₂_same]
    exact forall₂_congr fun suspicion _ => suspicionOf_text suspicion
  rw [← hsuspicions, ← filter_ne_zero_iff, ← Silo.ofIp_eq_self_iff, Record.entry, silo_ofEntry, hstatus]
  cases (ofEntry deployment entry version).suspicions with
  | error error => simp [bind, Except.bind, Except.mapError]
  | ok suspicions =>
    obtain ⟨silo, host, status, gatewayPort, isPrimary, role, instanceName, updateZone, faultZone, startTime, aliveTime,
      votes⟩ := entry
    simp [bind, Except.bind, Except.mapError, ofEntry]

end Record

-- What the constructor and the builders make.
inductive Entry.Made : Entry → Prop where
  | fresh (silo : Silo) (host : String) (startTime : Instant) : Made (.fresh silo host startTime)
  | withStatus {entry : Entry} (h : Made entry) (status : Status) : Made (entry.withStatus status)
  | withGatewayPort {entry : Entry} (h : Made entry) (port : Option UInt16) : Made (entry.withGatewayPort port)
  | withPrimary {entry : Entry} (h : Made entry) (isPrimary : Bool) : Made (entry.withPrimary isPrimary)
  | withRole {entry : Entry} (h : Made entry) (role : String) : Made (entry.withRole role)
  | withInstanceName {entry : Entry} (h : Made entry) (name : String) : Made (entry.withInstanceName name)
  | withZones {entry : Entry} (h : Made entry) (update fault : UInt32) : Made (entry.withZones update fault)
  | withAliveTime {entry : Entry} (h : Made entry) (time : Instant) : Made (entry.withAliveTime time)
  | withSuspicion {entry : Entry} (h : Made entry) (suspicion : Suspicion) : Made (entry.withSuspicion suspicion)

-- Nothing but the builder of the port touches the port.
theorem Entry.Made.gatewayPort_ne_zero {entry : Entry} (h : entry.Made) : entry.gatewayPort ≠ some 0 := by
  induction h with
  | fresh => nofun
  | withGatewayPort _ port => exact fun hport => by simp [Entry.withGatewayPort, Option.filter_eq_some_iff] at hport
  | _ => assumption

namespace Record

variable {record : Record} {entry : Entry} {silo : Silo}

-- Columns lose nothing of an entry, as long as they can hold its suspicions.
theorem entry_of_ofEntry (deployment : String) (version : Option Int64) (hmade : entry.Made)
    (hsilo : entry.silo.Bare) (hvoters : ∀ suspicion ∈ entry.suspicions, suspicion.voter.Bare)
    (htimes : ∀ suspicion ∈ entry.suspicions, suspicion.time.FourDigit ∧ suspicion.time.Legible) :
    (ofEntry deployment entry version).entry = .ok entry :=
  entry_ofEntry_iff.mpr ⟨hsilo, hmade.gatewayPort_ne_zero, fun suspicion hmem =>
    ⟨hvoters suspicion hmem, htimes suspicion hmem⟩⟩

-- A silo that its neighbour has suspected twice in a leap second, and another one years later.
def suspected : Entry :=
  let neighbour : Silo := ⟨.v6 ⟨[0x2001, 0xdb8, 0, 0, 0, 0, 0, 1], rfl⟩ 11112 0 0, -5⟩
  let leap : Suspicion := ⟨neighbour, (Instant.ofText? "2016-12-31T23:59:60.5Z").getD .epoch⟩
  let late : Suspicion := ⟨.onLoopback 11113 1, (Instant.ofText? "2024-05-17T08:30:00Z").getD .epoch⟩
  ((((Entry.fresh (.onLoopback 11111 7) "node" .epoch).withGatewayPort (some 30000)).withSuspicion leap).withSuspicion
    leap).withSuspicion late

theorem entry_of_ofEntry_suspected :
    suspected.Made ∧ suspected.silo.Bare ∧
    (∀ suspicion ∈ suspected.suspicions, suspicion.voter.Bare) ∧
    (∀ suspicion ∈ suspected.suspicions, suspicion.time.FourDigit ∧ suspicion.time.Legible) ∧
    (ofEntry "orders" suspected (some 3)).voteTimes =
      "2016-12-31T23:59:60.500Z|2016-12-31T23:59:60.500Z|2024-05-17T08:30:00Z" ∧
    (ofEntry "orders" suspected (some 3)).entry = .ok suspected := by
  have hmade : suspected.Made :=
    ((((Entry.Made.fresh ..).withGatewayPort _).withSuspicion _).withSuspicion _).withSuspicion _
  have hsilo : suspected.silo.Bare := by decide
  have hvoters : ∀ suspicion ∈ suspected.suspicions, suspicion.voter.Bare := by decide
  have htimes : ∀ suspicion ∈ suspected.suspicions, suspicion.time.FourDigit ∧ suspicion.time.Legible := by
    decide +kernel
  exact ⟨hmade, hsilo, hvoters, htimes, by decide +kernel,
    entry_of_ofEntry "orders" (some 3) hmade hsilo hvoters htimes⟩

-- Two entries with endpoints that name no link and with times of four-digit years: the columns lose the flow of the
-- one, and the suspicion of the other comes back a second later.
theorem columns_lose_flow_and_stray_leap :
    let flowing : Entry := .fresh (.linkLocal 1 0) "node" .epoch
    let stray : Entry := (Entry.fresh (.onLoopback 11111 7) "node" .epoch).withSuspicion
      ⟨.onLoopback 11113 1, .strayLeap⟩
    flowing.Made ∧ flowing.silo.endpoint.scope = 0 ∧ flowing.suspicions = [] ∧
    (ofEntry "orders" flowing none).entry = .ok (.fresh (.linkLocal 0 0) "node" .epoch) ∧
    (ofEntry "orders" flowing none).entry ≠ .ok flowing ∧
    stray.Made ∧ stray.silo.endpoint.scope = 0 ∧
    (∀ suspicion ∈ stray.suspicions, suspicion.voter.endpoint.scope = 0 ∧ suspicion.time.FourDigit) ∧
    (ofEntry "orders" stray none).voteTimes = "1970-01-01T00:00:01.333333333Z" ∧
    (ofEntry "orders" stray none).entry ≠ .ok stray := by
  refine ⟨.fresh .., ?_, ?_, ?_, ?_, .withSuspicion (.fresh ..) _, ?_⟩
  all_goals decide +kernel

theorem silo_cases (h : record.silo = .ok silo) :
    ∃ ip, silo = ⟨.ofIp ip record.port, record.generation⟩ ∧ silo.rowKey = record.rowKey := by
  unfold Record.silo at h
  split at h
  · cases h
  · next ip _ =>
    dsimp only at h
    split at h
    · next hkey =>
      obtain rfl := Except.ok.inj h
      exact ⟨ip, rfl, hkey⟩
    · cases h

theorem bare_of_silo (h : record.silo = .ok silo) : silo.Bare := by
  obtain ⟨ip, rfl, -⟩ := silo_cases h
  exact Net.Endpoint.bare_ofIp _ _

theorem rowKey_of_silo (h : record.silo = .ok silo) : silo.rowKey = record.rowKey := by
  obtain ⟨-, -, hkey⟩ := silo_cases h
  exact hkey

theorem exists_of_bind {ε α β : Type} {result : Except ε α} {next : α → Except ε β} {value : β}
    (h : (result >>= next) = .ok value) : ∃ middle, result = .ok middle ∧ next middle = .ok value := by
  cases result with
  | error error => cases h
  | ok middle => exact ⟨middle, rfl, h⟩

theorem entry_cases (h : record.entry = .ok entry) : record.silo = .ok entry.silo ∧
    record.suspicions = .ok entry.suspicions ∧ entry.gatewayPort = record.gatewayPort.filter (· != 0) ∧
    entry.startTime = record.startTime ∧ entry.aliveTime = record.aliveTime := by
  unfold Record.entry at h
  obtain ⟨silo, hsilo, h⟩ := exists_of_bind h
  obtain ⟨status, -, h⟩ := exists_of_bind h
  obtain ⟨suspicions, hsuspicions, h⟩ := exists_of_bind h
  rw [hsilo, hsuspicions, ← Except.ok.inj h]
  exact ⟨rfl, rfl, rfl, rfl, rfl⟩

theorem suspicionOf_cases {voter time : String} {suspicion : Suspicion} (h : suspicionOf voter time = .ok suspicion) :
    suspicion.voter.Bare ∧ suspicion.time.Legible := by
  unfold suspicionOf at h
  split at h
  · cases h
  · next hvoter =>
    split at h
    · cases h
    · next htime =>
      rw [← Except.ok.inj h]
      exact ⟨Silo.bare_of_ofRowKey hvoter, Instant.legible_of_ofText? htime⟩

theorem suspicions_cases {suspicions : List Suspicion} (h : record.suspicions = .ok suspicions) :
    ∀ suspicion ∈ suspicions, suspicion.voter.Bare ∧ suspicion.time.Legible := by
  unfold Record.suspicions at h
  dsimp only at h
  split at h
  · rw [mapM_eq_ok_iff] at h
    generalize (splitColumn record.voters).zip _ = columns at h
    induction h with
    | nil => exact List.forall_mem_nil _
    | cons hfirst _ ih => exact List.forall_mem_cons.mpr ⟨suspicionOf_cases hfirst, ih⟩
  · cases h

-- What comes from texts alone comes back from a text. The other two times are for whoever makes the record.
def Legible (record : Record) : Prop := record.startTime.Legible ∧ record.aliveTime.Legible

instance (record : Record) : Decidable record.Legible := inferInstanceAs (Decidable (_ ∧ _))

theorem legible_of_entry (h : record.entry = .ok entry) (hrecord : record.Legible) : entry.Legible := by
  obtain ⟨hsilo, hsuspicions, -, hstart, halive⟩ := entry_cases h
  refine ⟨(bare_of_silo hsilo).legible, hstart ▸ hrecord.1, halive ▸ hrecord.2, fun suspicion hmem => ?_⟩
  obtain ⟨hvoter, htime⟩ := suspicions_cases hsuspicions suspicion hmem
  exact ⟨hvoter.legible, htime⟩

-- What has been read from columns fits them again, apart from suspicions of a year that has no text there.
theorem entry_ofEntry_of_entry (h : record.entry = .ok entry) (deployment : String) (version : Option Int64) :
    (ofEntry deployment entry version).entry = .ok entry ↔
      ∀ suspicion ∈ entry.suspicions, suspicion.time.FourDigit := by
  obtain ⟨hsilo, hsuspicions, hport, -⟩ := entry_cases h
  have hne : entry.gatewayPort ≠ some 0 := by
    rw [hport]
    exact fun hzero => by simp [Option.filter_eq_some_iff] at hzero
  rw [entry_ofEntry_iff]
  constructor
  · rintro ⟨-, -, hwritable⟩ suspicion hmem
    exact (hwritable suspicion hmem).2.1
  · exact fun htimes => ⟨bare_of_silo hsilo, hne, fun suspicion hmem =>
      have hread := suspicions_cases hsuspicions suspicion hmem
      ⟨hread.1, htimes suspicion hmem, hread.2⟩⟩

end Record
end Muster
