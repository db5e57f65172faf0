import Muster.Proofs.Grain.Upkeep
import Muster.Table.Rows

-- The directory as a cabinet: a drawer for every grain that has activations, and none that is empty. It does what the
-- directory does that keeps all activations in one list.
namespace Muster

structure Cabinet where
  sequence : UInt64
  drawers : List (Grain × List Activation)
  outage : Option String

namespace Cabinet
open Directory (Request Reply)

def empty : Cabinet := ⟨0, [], none⟩

-- Which drawer comes first does not matter: one that is filled anew goes to the end.
def drop (grain : Grain) (drawers : List (Grain × List Activation)) : List (Grain × List Activation) :=
  drawers.filter (·.1 != grain)

def put (grain : Grain) (listed : List Activation) (drawers : List (Grain × List Activation)) :
    List (Grain × List Activation) := drop grain drawers ++ [(grain, listed)]

-- Keeps in every drawer what is wanted, and drops the drawers that have become empty.
def sweep (wanted : Activation → Bool) (drawers : List (Grain × List Activation)) : List (Grain × List Activation) :=
  (drawers.map fun drawer => (drawer.1, drawer.2.filter wanted)).filter fun drawer => !drawer.2.isEmpty

def record (cabinet : Cabinet) (grain : Grain) (silo : Silo) : Activation × Cabinet :=
  let sequence := cabinet.sequence + 1
  let activation : Activation := ⟨grain, silo, sequence⟩
  let listed := (cabinet.drawers.lookup grain).getD []
  (activation, { cabinet with sequence, drawers := put grain (listed ++ [activation]) cabinet.drawers })

def register (cabinet : Cabinet) (grain : Grain) (silo : Silo) : Except RegistrationError Activation × Cabinet :=
  match cabinet.outage with
  | some reason => (.error (.directory (.unavailable reason)), cabinet)
  | none =>
    match (cabinet.drawers.lookup grain).bind List.head? with
    | some existing => (.error (.alreadyRegistered existing), cabinet)
    | none =>
      let sequence := cabinet.sequence + 1
      let activation : Activation := ⟨grain, silo, sequence⟩
      (.ok activation, { cabinet with sequence, drawers := put grain [activation] cabinet.drawers })

def unregister (cabinet : Cabinet) (activation : Activation) : Bool × Cabinet :=
  match cabinet.drawers.lookup activation.grain with
  | none => (false, cabinet)
  | some listed =>
    let left := listed.filter (· != activation)
    let drawers :=
      if left.isEmpty then drop activation.grain cabinet.drawers else put activation.grain left cabinet.drawers
    (left.length != listed.length, { cabinet with drawers })

def removeSilo (cabinet : Cabinet) (silo : Silo) : List Activation × Cabinet :=
  (cabinet.drawers.flatMap fun drawer => drawer.2.filter (·.silo == silo),
    { cabinet with drawers := sweep (·.silo != silo) cabinet.drawers })

def lookup (cabinet : Cabinet) (grain : Grain) : Except DirectoryError (List Activation) :=
  match cabinet.outage with
  | some reason => .error (.unavailable reason)
  | none => .ok ((cabinet.drawers.lookup grain).getD [])

def answer (cabinet : Cabinet) : Request → Reply × Cabinet
  | .register grain silo => (cabinet.register grain silo).map .registered id
  | .record grain silo => (cabinet.record grain silo).map .recorded id
  | .unregister activation => (cabinet.unregister activation).map .unregistered id
  | .removeSilo silo => (cabinet.removeSilo silo).map .removed id
  | .weather outage => (.noted, { cabinet with outage })
  | .lookup grain => (.found (cabinet.lookup grain), cabinet)

def replies (cabinet : Cabinet) (requests : List Request) : List Reply := (Request.serve answer requests cabinet).1

def after (cabinet : Cabinet) (requests : List Request) : Cabinet := (Request.serve answer requests cabinet).2

-- Every grain with activations has a drawer of its own with just these, and there are no other drawers.
structure Sorted (drawers : List (Grain × List Activation)) (listing : Grain → List Activation) : Prop where
  nodup : (drawers.map Prod.fst).Nodup
  mem_iff : ∀ grain listed, (grain, listed) ∈ drawers ↔ listed ≠ [] ∧ listed = listing grain

variable {drawers : List (Grain × List Activation)} {listing left : Grain → List Activation} {grain : Grain}
  {listed : List Activation}

namespace Sorted

theorem lookup_of_nil (h : Sorted drawers listing) (hnone : listing grain = []) : drawers.lookup grain = none := by
  refine List.lookup_eq_none_iff.mpr fun drawer hdrawer => bne_iff_ne.mpr fun hgrain => ?_
  obtain ⟨hfull, hlisted⟩ := (h.mem_iff drawer.1 drawer.2).mp hdrawer
  exact hfull (by rw [hlisted, ← hgrain, hnone])

theorem lookup_of_ne_nil (h : Sorted drawers listing) (hsome : listing grain ≠ []) :
    drawers.lookup grain = some (listing grain) :=
  lookup_of_nodup h.nodup ((h.mem_iff _ _).mpr ⟨hsome, rfl⟩)

theorem lookup_getD (h : Sorted drawers listing) (grain : Grain) : (drawers.lookup grain).getD [] = listing grain := by
  by_cases hnone : listing grain = []
  · rw [h.lookup_of_nil hnone, hnone]
    rfl
  · rw [h.lookup_of_ne_nil hnone]
    rfl

theorem head?_lookup (h : Sorted drawers listing) (grain : Grain) :
    (drawers.lookup grain).bind List.head? = (listing grain).head? := by
  rw [← h.lookup_getD]
  cases drawers.lookup grain <;> rfl

theorem mem_keys (h : Sorted drawers listing) : grain ∈ drawers.map Prod.fst ↔ listing grain ≠ [] := by
  constructor
  · intro hgrain
    obtain ⟨⟨_, listed⟩, hdrawer, rfl⟩ := List.mem_map.mp hgrain
    obtain ⟨hfull, hlisted⟩ := (h.mem_iff _ listed).mp hdrawer
    exact hlisted ▸ hfull
  · exact fun hfull => List.mem_map.mpr ⟨_, (h.mem_iff grain _).mpr ⟨hfull, rfl⟩, rfl⟩

theorem drop (h : Sorted drawers listing) (hnone : left grain = [])
    (hothers : ∀ other ≠ grain, left other = listing other) : Sorted (drop grain drawers) left where
  nodup := (List.filter_sublist.map _).nodup h.nodup
  mem_iff other listed := by
    rw [Cabinet.drop, List.mem_filter, h.mem_iff, bne_iff_ne]
    by_cases hother : other = grain
    · rw [hother, hnone]
      exact ⟨fun hmem => absurd rfl hmem.2, fun hmem => absurd hmem.2 hmem.1⟩
    · rw [hothers other hother]
      exact and_iff_left hother

theorem put (h : Sorted drawers listing) (hsome : left grain ≠ [])
    (hothers : ∀ other ≠ grain, left other = listing other) : Sorted (put grain (left grain) drawers) left := by
  -- The drawer is taken out before the new one is put in.
  have hout : Sorted (Cabinet.drop grain drawers) (Function.update left grain []) :=
    h.drop (Function.update_self ..) fun other hother => (Function.update_of_ne hother ..).trans (hothers other hother)
  refine ⟨?_, fun other listed => ?_⟩
  · rw [Cabinet.put, List.map_append]
    refine hout.nodup.append (List.nodup_singleton _) (List.disjoint_singleton.mpr fun hgrain => ?_)
    exact hout.mem_keys.mp hgrain (Function.update_self ..)
  · rw [Cabinet.put, List.mem_append, hout.mem_iff, List.mem_singleton, Prod.mk.injEq]
    by_cases hother : other = grain
    · rw [hother, Function.update_self]
      refine ⟨?_, fun hmem => Or.inr ⟨rfl, hmem.2⟩⟩
      rintro (hmem | hmem)
      · exact absurd hmem.2 hmem.1
      · exact ⟨hmem.2 ▸ hsome, hmem.2⟩
    · rw [Function.update_of_ne hother]
      exact or_iff_left fun hmem => hother hmem.1

theorem sweep (h : Sorted drawers listing) (wanted : Activation → Bool) :
    Sorted (sweep wanted drawers) fun grain => (listing grain).filter wanted where
  nodup := by
    refine (List.filter_sublist.map _).nodup ?_
    rw [List.map_map]
    exact h.nodup
  mem_iff grain listed := by
    simp only [Cabinet.sweep, List.mem_filter, List.mem_map, Bool.not_eq_true', List.isEmpty_eq_false_iff]
    constructor
    · rintro ⟨⟨⟨other, held⟩, hdrawer, hswept⟩, hfull⟩
      obtain ⟨rfl, rfl⟩ := Prod.mk.inj hswept
      exact ⟨hfull, by rw [((h.mem_iff _ _).mp hdrawer).2]⟩
    · rintro ⟨hfull, rfl⟩
      have hheld : listing grain ≠ [] := fun hnone => hfull (by rw [hnone, List.filter_nil])
      exact ⟨⟨(grain, listing grain), (h.mem_iff _ _).mpr ⟨hheld, rfl⟩, rfl⟩, hfull⟩

end Sorted

-- What is taken out of the drawers of one grain lies in the order in which it lay there.
theorem filter_flatMap (hnodup : (drawers.map Prod.fst).Nodup)
    (hgrain : ∀ drawer ∈ drawers, ∀ activation ∈ drawer.2, activation.grain = drawer.1) (wanted : Activation → Bool)
    (grain : Grain) :
    (drawers.flatMap fun drawer => drawer.2.filter wanted).filter (·.grain == grain) =
      ((drawers.lookup grain).getD []).filter wanted := by
  induction drawers with
  | nil => rfl
  | cons drawer rest ih =>
    obtain ⟨key, listed⟩ := drawer
    obtain ⟨hkey, hnodup⟩ := List.nodup_cons.mp hnodup
    have hrest := ih hnodup fun drawer hdrawer => hgrain drawer (List.mem_cons_of_mem _ hdrawer)
    have hhead : ∀ activation ∈ listed.filter wanted, activation.grain = key := fun activation hmem =>
      hgrain (key, listed) List.mem_cons_self activation (List.mem_of_mem_filter hmem)
    rw [List.flatMap_cons, List.filter_append, hrest]
    by_cases hfound : grain = key
    · have hall : (listed.filter wanted).filter (·.grain == grain) = listed.filter wanted :=
        List.filter_eq_self.mpr fun activation hmem => by rw [hhead activation hmem, hfound, beq_self_eq_true]
      have hnone : rest.lookup grain = none := by
        refine List.lookup_eq_none_iff.mpr fun drawer hdrawer => bne_iff_ne.mpr fun hsame => ?_
        exact hkey (List.mem_map.mpr ⟨drawer, hdrawer, hsame.symm.trans hfound⟩)
      rw [hall, hnone, hfound, List.lookup_cons_self]
      exact List.append_nil _
    · have hno : (listed.filter wanted).filter (·.grain == grain) = [] :=
        List.filter_eq_nil_iff.mpr fun activation hmem => by
          rw [hhead activation hmem, beq_iff_eq]
          exact fun hsame => hfound hsame.symm
      rw [hno, List.lookup_cons, beq_eq_false_iff_ne.mpr hfound]
      rfl

theorem nodup_eraseDups {α : Type} [BEq α] [LawfulBEq α] : ∀ list : List α, list.eraseDups.Nodup
  | [] => List.nodup_nil
  | head :: rest => by
    rw [List.eraseDups_cons, List.nodup_cons, List.mem_eraseDups]
    refine ⟨fun hmem => ?_, nodup_eraseDups (rest.filter fun other => !other == head)⟩
    simpa using List.of_mem_filter hmem
termination_by list => list.length
decreasing_by exact Nat.lt_succ_of_le (List.length_filter_le _ _)

-- The cabinet holds what the directory holds.
structure Files (cabinet : Cabinet) (directory : Directory) : Prop where
  sequence : cabinet.sequence = directory.sequence
  outage : cabinet.outage = directory.outage
  sorted : Sorted cabinet.drawers directory.activationsOf

theorem files_empty : empty.Files Directory.empty where
  sequence := rfl
  outage := rfl
  sorted := ⟨List.nodup_nil, fun _ _ => ⟨fun h => absurd h List.not_mem_nil, fun h => absurd h.2 h.1⟩⟩

-- Two replies say the same, but for the order in which the activations of different grains are removed.
inductive Agrees : Reply → Reply → Prop where
  | same {reply other : Reply} (h : reply = other) : Agrees reply other
  | removed {taken gone : List Activation}
      (h : ∀ grain, taken.filter (·.grain == grain) = gone.filter (·.grain == grain)) :
      Agrees (.removed taken) (.removed gone)

variable {cabinet : Cabinet} {directory : Directory}

namespace Files

theorem grain_eq (h : cabinet.Files directory) {drawer : Grain × List Activation} (hdrawer : drawer ∈ cabinet.drawers)
    {activation : Activation} (hmem : activation ∈ drawer.2) : activation.grain = drawer.1 := by
  rw [((h.sorted.mem_iff _ _).mp hdrawer).2] at hmem
  exact (Directory.mem_activationsOf.mp hmem).2

theorem record (h : cabinet.Files directory) (grain : Grain) (silo : Silo) :
    (cabinet.record grain silo).1 = (directory.record grain silo).1 ∧
      (cabinet.record grain silo).2.Files (directory.record grain silo).2 := by
  have hnew : (cabinet.record grain silo).1 = (directory.record grain silo).1 := by
    simp only [Cabinet.record, Directory.record, h.sequence]
  have hleft := directory.activationsOf_record grain silo
  have hgrain : (directory.record grain silo).2.activationsOf grain =
      directory.activationsOf grain ++ [(directory.record grain silo).1] := by rw [hleft, if_pos rfl]
  refine ⟨hnew, congrArg (· + 1) h.sequence, h.outage, ?_⟩
  have hfull : (directory.record grain silo).2.activationsOf grain ≠ [] := by
    rw [hgrain]
    exact List.append_ne_nil_of_right_ne_nil _ (List.cons_ne_nil _ _)
  have hput := h.sorted.put hfull fun other hother => by rw [hleft, if_neg hother.symm, List.append_nil]
  rw [hgrain, ← hnew, ← h.sorted.lookup_getD] at hput
  exact hput

-- Where there is no drawer, a registration comes to the same as a note.
theorem register (h : cabinet.Files directory) (grain : Grain) (silo : Silo) :
    Agrees (cabinet.answer (.register grain silo)).1 (directory.answer (.register grain silo)).1 ∧
      (cabinet.answer (.register grain silo)).2.Files (directory.answer (.register grain silo)).2 := by
  cases hup : directory.outage with
  | some reason =>
    simp only [Cabinet.answer, Cabinet.register, Directory.answer, Directory.register, Directory.available, h.outage,
      hup]
    exact ⟨.same rfl, h⟩
  | none =>
    cases hfound : (directory.activationsOf grain).head? with
    | some existing =>
      simp only [Cabinet.answer, Cabinet.register, Directory.answer, Directory.register, Directory.available, h.outage,
        hup, h.sorted.head?_lookup, hfound]
      exact ⟨.same rfl, h⟩
    | none =>
      have hfree := List.head?_eq_none_iff.mp hfound
      obtain ⟨hnew, hfiles⟩ := h.record grain silo
      simp only [Cabinet.answer, Cabinet.register, h.outage, hup, h.sorted.head?_lookup, hfound, Directory.answer,
        Directory.register_of_free hup hfree]
      simp only [Cabinet.record, h.sorted.lookup_of_nil hfree, Option.getD_none, List.nil_append, h.outage,
        hup] at hnew hfiles
      refine ⟨?_, hfiles⟩
      rw [← hnew]
      exact .same rfl

theorem unregister (h : cabinet.Files directory) (activation : Activation) :
    (cabinet.unregister activation).1 = (directory.unregister activation).1 ∧
      (cabinet.unregister activation).2.Files (directory.unregister activation).2 := by
  have hleft := directory.activationsOf_unregister activation
  have hothers : ∀ other ≠ activation.grain,
      (directory.unregister activation).2.activationsOf other = directory.activationsOf other := fun other hother => by
    refine (hleft other).trans (List.filter_bne_eq_self_of_not_mem fun hheld => ?_)
    exact hother (Directory.mem_activationsOf.mp hheld).2.symm
  have hmem : activation ∈ directory.activationsOf activation.grain ↔ activation ∈ directory.activations :=
    Directory.mem_activationsOf.trans (and_iff_left rfl)
  by_cases hnone : directory.activationsOf activation.grain = []
  · have habsent : activation ∉ directory.activations := fun hheld => by
      rw [← hmem, hnone] at hheld
      exact List.not_mem_nil hheld
    simp only [Cabinet.unregister, h.sorted.lookup_of_nil hnone, Directory.unregister_of_absent habsent]
    exact ⟨trivial, h⟩
  · simp only [Cabinet.unregister, h.sorted.lookup_of_ne_nil hnone]
    refine ⟨Bool.eq_iff_iff.mpr ?_, h.sequence, h.outage, ?_⟩
    · rw [bne_iff_ne, Ne, List.length_filter_eq_length_iff, Directory.unregister, List.contains_iff_mem, ← hmem]
      simp
    · rw [← hleft]
      split
      · next hempty => exact h.sorted.drop (List.isEmpty_iff.mp hempty) hothers
      · next hfull => exact h.sorted.put (mt List.isEmpty_iff.mpr hfull) hothers

theorem removeSilo (h : cabinet.Files directory) (silo : Silo) :
    (∀ grain, (cabinet.removeSilo silo).1.filter (·.grain == grain) =
      (directory.removeSilo silo).1.filter (·.grain == grain)) ∧
      (cabinet.removeSilo silo).2.Files (directory.removeSilo silo).2 := by
  refine ⟨fun grain => ?_, h.sequence, h.outage, ?_⟩
  · have hown : ∀ drawer ∈ cabinet.drawers, ∀ activation ∈ drawer.2, activation.grain = drawer.1 :=
      fun _ hdrawer _ hmem => h.grain_eq hdrawer hmem
    refine (filter_flatMap h.sorted.nodup hown _ grain).trans ?_
    rw [h.sorted.lookup_getD, Directory.removeSilo, List.partition_eq_filter_filter]
    simp only [Directory.activationsOf, List.filter_filter, Bool.and_comm]
  · have hleft : (directory.removeSilo silo).2.activationsOf =
        fun grain => (directory.activationsOf grain).filter (·.silo != silo) :=
      funext (directory.activationsOf_removeSilo silo)
    rw [hleft]
    exact h.sorted.sweep _

theorem lookup (h : cabinet.Files directory) (grain : Grain) : cabinet.lookup grain = directory.lookup grain := by
  simp only [Cabinet.lookup, Directory.lookup, Directory.available, h.outage, h.sorted.lookup_getD]
  cases directory.outage <;> rfl

-- One request: the replies agree, and what is held stays the same.
theorem answer (h : cabinet.Files directory) (request : Request) :
    Agrees (cabinet.answer request).1 (directory.answer request).1 ∧
      (cabinet.answer request).2.Files (directory.answer request).2 := by
  cases request with
  | register grain silo => exact h.register grain silo
  | record grain silo =>
    obtain ⟨hnew, hfiles⟩ := h.record grain silo
    exact ⟨.same (congrArg Reply.recorded hnew), hfiles⟩
  | unregister activation =>
    obtain ⟨hpresent, hfiles⟩ := h.unregister activation
    exact ⟨.same (congrArg Reply.unregistered hpresent), hfiles⟩
  | removeSilo silo =>
    obtain ⟨htaken, hfiles⟩ := h.removeSilo silo
    exact ⟨.removed htaken, hfiles⟩
  | weather outage => exact ⟨.same rfl, h.sequence, rfl, h.sorted⟩
  | lookup grain => exact ⟨.same (congrArg Reply.found (h.lookup grain)), h⟩

-- All requests of a run, one after the other.
theorem serve (h : cabinet.Files directory) (requests : List Request) :
    List.Forall₂ Agrees (cabinet.replies requests) (directory.replies requests) ∧
      (cabinet.after requests).Files (directory.after requests) := by
  induction requests generalizing cabinet directory with
  | nil => exact ⟨.nil, h⟩
  | cons request rest ih =>
    obtain ⟨hagrees, hfiles⟩ := h.answer request
    obtain ⟨hrest, hleft⟩ := ih hfiles
    exact ⟨.cons hagrees hrest, hleft⟩

theorem mem_keys_iff (h : cabinet.Files directory) (grain : Grain) :
    grain ∈ cabinet.drawers.map Prod.fst ↔
      ∃ existing, ({ directory with outage := none }).lookup grain = .ok existing ∧ existing ≠ [] := by
  have hfound : ({ directory with outage := none }).lookup grain = .ok (directory.activationsOf grain) :=
    Directory.lookup_of_up rfl grain
  rw [h.sorted.mem_keys, hfound]
  exact ⟨fun hfull => ⟨_, rfl, hfull⟩, fun ⟨existing, hexisting, hfull⟩ => Except.ok.inj hexisting ▸ hfull⟩

-- The directory counts as many grains as there are drawers.
theorem length_drawers (h : cabinet.Files directory) : cabinet.drawers.length = directory.size := by
  have hkeys : (cabinet.drawers.map Prod.fst).Perm (directory.activations.map Activation.grain).eraseDups := by
    refine (List.perm_ext_iff_of_nodup h.sorted.nodup (nodup_eraseDups _)).mpr fun grain => ?_
    rw [h.sorted.mem_keys, List.mem_eraseDups, List.mem_map, Ne, List.eq_nil_iff_forall_not_mem, not_forall]
    simp only [Directory.mem_activationsOf, not_not]
  rw [← List.length_map (f := Prod.fst), hkeys.length_eq]
  rfl

end Files

theorem lookup_congr {others : List (Grain × List Activation)} (h : Sorted drawers listing)
    (hothers : Sorted others listing) (grain : Grain) : drawers.lookup grain = others.lookup grain := by
  by_cases hnone : listing grain = []
  · rw [h.lookup_of_nil hnone, hothers.lookup_of_nil hnone]
  · rw [h.lookup_of_ne_nil hnone, hothers.lookup_of_ne_nil hnone]

theorem perm_of_filter_eq {taken gone : List Activation}
    (h : ∀ grain, taken.filter (·.grain == grain) = gone.filter (·.grain == grain)) : taken.Perm gone := by
  refine List.perm_iff_count.mpr fun activation => ?_
  have hcount : ∀ activations : List Activation,
      (activations.filter (·.grain == activation.grain)).count activation = activations.count activation :=
    fun activations => List.count_filter (beq_self_eq_true _)
  rw [← hcount taken, ← hcount gone, h]

end Cabinet

open Cabinet (Agrees) in
open Directory (empty) in
-- A run of requests on a directory that starts empty and hands out fewer activations than there are numbers.
theorem Directory.activations_are_kept_by_grain {requests : List Directory.Request}
    (hfew : (empty.issued requests).length < UInt64.size) :
    let directory := empty.after requests
    let cabinet := Cabinet.empty.after requests
    -- No two activations are given the same number.
    ((empty.issued requests).map Activation.id).Nodup ∧
    -- Activations can be kept in drawers, one for each grain that has any.
    List.Forall₂ Agrees (Cabinet.empty.replies requests) (empty.replies requests) ∧
    (∀ grain listed, (grain, listed) ∈ cabinet.drawers ↔ listed ≠ [] ∧ listed = directory.activationsOf grain) ∧
    (∀ drawer ∈ cabinet.drawers, ∀ activation ∈ drawer.2, activation.grain = drawer.1) ∧
    -- The size counts the grains for which something is found outside an outage.
    (cabinet.drawers.length = directory.size ∧ (cabinet.drawers.map Prod.fst).Nodup ∧
      ∀ grain, grain ∈ cabinet.drawers.map Prod.fst ↔
        ∃ existing, ({ directory with outage := none }).lookup grain = .ok existing ∧ existing ≠ []) ∧
    -- One activation is ended, and the others stay in their order.
    (∀ activation,
      ((directory.unregister activation).1 = true ↔ activation ∈ directory.activationsOf activation.grain) ∧
      (directory.unregister activation).2 =
        { directory with activations := directory.activations.erase activation } ∧
      ∀ grain, (directory.unregister activation).2.activationsOf grain =
        (directory.activationsOf grain).erase activation) ∧
    -- What has been removed is not matched by anything that comes later.
    (∀ earlier request later, requests = earlier ++ request :: later →
      ∀ activation ∈ (empty.after earlier).activations,
        activation ∉ (empty.after (earlier ++ [request])).activations →
        (∀ other ∈ (empty.after (earlier ++ [request])).issued later, other.id ≠ activation.id) ∧
          directory.unregister activation = (false, directory)) ∧
    -- A silo is cleared at once or activation by activation.
    ∀ silo order, order.Perm (directory.activations.filter (·.silo == silo)) →
      empty.after (requests ++ order.map .unregister) = empty.after (requests ++ [.removeSilo silo]) ∧
      (∀ grain, (Cabinet.empty.after (requests ++ order.map .unregister)).drawers.lookup grain =
        (Cabinet.empty.after (requests ++ [.removeSilo silo])).drawers.lookup grain) ∧
      (directory.removeSilo silo).1.Perm order ∧ (cabinet.removeSilo silo).1.Perm order := by
  intro directory cabinet
  have hfew := Nat.le_of_lt hfew
  have hnodup : directory.activations.Nodup := nodup_held hfew
  have hfiles (requests : List Request) : (Cabinet.empty.after requests).Files (empty.after requests) :=
    (Cabinet.files_empty.serve requests).2
  have hsorted := (hfiles requests).sorted
  refine ⟨nodup_ids hfew, (Cabinet.files_empty.serve requests).1, hsorted.mem_iff,
    fun _ hdrawer _ hmem => (hfiles requests).grain_eq hdrawer hmem,
    ⟨(hfiles requests).length_drawers, hsorted.nodup, (hfiles requests).mem_keys_iff⟩, fun activation => ?_, ?_, ?_⟩
  · refine ⟨?_, ?_, activationsOf_unregister_eq_erase hnodup activation⟩
    · rw [unregister, List.contains_iff_mem, mem_activationsOf, and_iff_left rfl]
    · rw [unregister_eq_erase hnodup]
  · rintro earlier request later hrequests activation hheld hgone
    have hsplit : requests = earlier ++ [request] ++ later := by
      rw [hrequests, List.append_assoc, List.singleton_append]
    have hknown : activation ∈ empty.issued (earlier ++ [request]) := by
      rw [issued_append]
      exact List.mem_append_left _ ((held_after empty earlier).subset hheld)
    rw [hsplit] at hfew
    obtain ⟨hothers, habsent⟩ := gone_after hfew hknown hgone
    rw [← hsplit] at habsent
    exact ⟨hothers, unregister_of_absent habsent⟩
  · intro silo order horder
    have hsame : empty.after (requests ++ order.map .unregister) = empty.after (requests ++ [.removeSilo silo]) := by
      rw [after_append, after_append]
      exact after_unregister_of_perm horder
    have htaken : (directory.removeSilo silo).1 = directory.activations.filter (·.silo == silo) := by
      rw [removeSilo, List.partition_eq_filter_filter]
    have hcabinet : (cabinet.removeSilo silo).1.Perm (directory.removeSilo silo).1 :=
      Cabinet.perm_of_filter_eq ((hfiles requests).removeSilo silo).1
    rw [← htaken] at horder
    exact ⟨hsame, Cabinet.lookup_congr (hsame ▸ (hfiles _).sorted) (hfiles _).sorted, horder.symm,
      hcabinet.trans horder.symm⟩

open Directory (empty) in
-- A grain with a second activation that an outage did not stop. The first one ends and one more comes to its silo.
theorem Directory.activations_are_kept_by_grain_shared :
    let first : Silo := .onLoopback 11111 1
    let second : Silo := .onLoopback 11112 1
    let player : Grain := ⟨"player", "7"⟩
    let lobby : Grain := ⟨"lobby", "1"⟩
    let opened : List Directory.Request := [.register player first, .weather (some "partition"), .register lobby first,
      .record player second, .weather none, .register lobby second]
    let requests := opened ++ [.unregister ⟨player, first, 1⟩, .record player first]
    (empty.issued requests).length < UInt64.size ∧
    empty.issued requests = [⟨player, first, 1⟩, ⟨player, second, 2⟩, ⟨lobby, second, 3⟩, ⟨player, first, 4⟩] ∧
    ((empty.issued requests).map Activation.id).Nodup ∧
    (empty.after requests).activationsOf player = [⟨player, second, 2⟩, ⟨player, first, 4⟩] ∧
    (Cabinet.empty.after requests).drawers.length = 2 ∧ (empty.after requests).size = 2 ∧
    (empty.after requests).unregister ⟨player, first, 1⟩ = (false, empty.after requests) ∧
    empty.after (requests ++ [.unregister ⟨lobby, second, 3⟩, .unregister ⟨player, second, 2⟩]) =
      empty.after (requests ++ [.removeSilo second]) ∧
    ((Cabinet.empty.after requests).removeSilo second).1.Perm [⟨lobby, second, 3⟩, ⟨player, second, 2⟩] := by
  intro first second player lobby opened requests
  have hissued : empty.issued requests =
      [⟨player, first, 1⟩, ⟨player, second, 2⟩, ⟨lobby, second, 3⟩, ⟨player, first, 4⟩] := by decide
  have hfew : (empty.issued requests).length < UInt64.size := by
    rw [hissued]
    decide
  have hsize : (empty.after requests).size = 2 := by decide
  have horder : [⟨lobby, second, 3⟩, ⟨player, second, 2⟩].Perm
      ((empty.after requests).activations.filter (·.silo == second)) := by decide
  obtain ⟨hids, -, -, -, ⟨hlength, -⟩, -, hgone, hcleared⟩ := activations_are_kept_by_grain hfew
  obtain ⟨hsame, -, -, htaken⟩ := hcleared second _ horder
  have habsent := (hgone opened (.unregister ⟨player, first, 1⟩) [.record player first] rfl ⟨player, first, 1⟩
    (by decide) (by decide)).2
  exact ⟨hfew, hissued, hids, by decide, hlength.trans hsize, hsize, habsent, hsame, htaken⟩

end Muster
