import Mathlib.Data.List.Nodup
import Muster.Proofs.Placement.Directory

-- A directory that is asked for one thing after another: which activations it hands out, and which of them it holds.
namespace Muster.Directory

-- What a directory can be asked for. The weather is whether there is an outage.
inductive Request where
  | register (grain : Grain) (silo : Silo)
  | record (grain : Grain) (silo : Silo)
  | unregister (activation : Activation)
  | removeSilo (silo : Silo)
  | weather (outage : Option String)
  | lookup (grain : Grain)
deriving DecidableEq

inductive Reply where
  | registered (result : Except RegistrationError Activation)
  | recorded (activation : Activation)
  | unregistered (present : Bool)
  | removed (activations : List Activation)
  | noted
  | found (result : Except DirectoryError (List Activation))

-- The activation that has come into being with the reply.
def Reply.new? : Reply → Option Activation
  | registered (.ok activation) => some activation
  | recorded activation => some activation
  | _ => none

def answer (directory : Directory) : Request → Reply × Directory
  | .register grain silo =>
    match directory.register grain silo with
    | .error error => (.registered (.error error), directory)
    | .ok (activation, next) => (.registered (.ok activation), next)
  | .record grain silo => ((directory.record grain silo).map .recorded id)
  | .unregister activation => ((directory.unregister activation).map .unregistered id)
  | .removeSilo silo => ((directory.removeSilo silo).map .removed id)
  | .weather outage => (.noted, { directory with outage })
  | .lookup grain => (.found (directory.lookup grain), directory)

-- Requests one after the other: the replies, and what is left in the end.
def Request.serve {σ : Type} (answer : σ → Request → Reply × σ) : List Request → σ → List Reply × σ
  | [], state => ([], state)
  | request :: rest, state =>
    ((answer state request).1 :: (serve answer rest (answer state request).2).1,
      (serve answer rest (answer state request).2).2)

def replies (directory : Directory) (requests : List Request) : List Reply :=
  (Request.serve answer requests directory).1

def after (directory : Directory) (requests : List Request) : Directory := (Request.serve answer requests directory).2

-- The activations that are handed out, in order.
def issued (directory : Directory) (requests : List Request) : List Activation :=
  (directory.replies requests).filterMap Reply.new?

variable {directory : Directory}

theorem mem_activationsOf {grain : Grain} {activation : Activation} :
    activation ∈ directory.activationsOf grain ↔ activation ∈ directory.activations ∧ activation.grain = grain := by
  rw [activationsOf, List.mem_filter, beq_iff_eq]

theorem unregister_of_absent {activation : Activation} (habsent : activation ∉ directory.activations) :
    directory.unregister activation = (false, directory) := by
  rw [unregister, List.filter_bne_eq_self_of_not_mem habsent,
    Bool.eq_false_iff.mpr (mt List.contains_iff_mem.mp habsent)]

theorem after_cons (directory : Directory) (request : Request) (rest : List Request) :
    directory.after (request :: rest) = (directory.answer request).2.after rest := rfl

theorem issued_cons (directory : Directory) (request : Request) (rest : List Request) :
    directory.issued (request :: rest) =
      (directory.answer request).1.new?.toList ++ (directory.answer request).2.issued rest := by
  show List.filterMap Reply.new? (_ :: _) = _
  rw [List.filterMap_cons]
  cases (directory.answer request).1.new? <;> rfl

theorem after_append (directory : Directory) (earlier later : List Request) :
    directory.after (earlier ++ later) = (directory.after earlier).after later := by
  induction earlier generalizing directory with
  | nil => rfl
  | cons request rest ih => exact ih (directory.answer request).2

theorem issued_append (directory : Directory) (earlier later : List Request) :
    directory.issued (earlier ++ later) = directory.issued earlier ++ (directory.after earlier).issued later := by
  induction earlier generalizing directory with
  | nil => rfl
  | cons request rest ih => rw [List.cons_append, issued_cons, issued_cons, after_cons, ih, List.append_assoc]

-- What a request can do: hand out an activation with the next number, or drop some of those that are held.
inductive Turn (directory : Directory) (reply : Reply) (next : Directory) : Prop where
  | issues (activation : Activation) (new : reply.new? = some activation)
      (id_eq : activation.id = directory.sequence + 1) (sequence_eq : next.sequence = directory.sequence + 1)
      (held : next.activations = directory.activations ++ [activation])
  | sheds (new : reply.new? = none) (sequence_eq : next.sequence = directory.sequence)
      (held : next.activations.Sublist directory.activations)

theorem answer_turn (directory : Directory) (request : Request) :
    directory.Turn (directory.answer request).1 (directory.answer request).2 := by
  cases request with
  | register grain silo =>
    cases hregister : directory.register grain silo with
    | error error =>
      simp only [answer, hregister]
      exact .sheds rfl rfl (List.Sublist.refl _)
    | ok taken =>
      obtain ⟨activation, next⟩ := taken
      obtain ⟨hup, hfree, -⟩ := of_register_ok hregister
      rw [register_of_free hup hfree] at hregister
      obtain ⟨rfl, rfl⟩ := Prod.mk.inj (Except.ok.inj hregister)
      simp only [answer, register_of_free hup hfree]
      exact .issues _ rfl rfl rfl rfl
  | record grain silo => exact .issues _ rfl rfl rfl rfl
  | unregister activation => exact .sheds rfl rfl List.filter_sublist
  | removeSilo silo =>
    refine .sheds rfl rfl ?_
    simp only [answer, Prod.map, removeSilo, List.partition_eq_filter_filter]
    exact List.filter_sublist
  | weather outage => exact .sheds rfl rfl (List.Sublist.refl _)
  | lookup grain => exact .sheds rfl rfl (List.Sublist.refl _)

-- What is held has been held before or has been handed out since, and stands in that order.
theorem held_after (directory : Directory) (requests : List Request) :
    (directory.after requests).activations.Sublist (directory.activations ++ directory.issued requests) := by
  induction requests generalizing directory with
  | nil => exact List.sublist_append_left _ _
  | cons request rest ih =>
    have hrest := ih (directory.answer request).2
    rw [after_cons, issued_cons]
    cases directory.answer_turn request with
    | issues activation hnew hid hsequence hheld =>
      rw [hheld, List.append_assoc] at hrest
      rw [hnew]
      exact hrest
    | sheds hnew hsequence hheld =>
      rw [hnew]
      exact hrest.trans (hheld.append_right _)

-- The numbers of the activations are those that follow the number used last.
theorem ids_issued (directory : Directory) (requests : List Request) :
    (directory.issued requests).map Activation.id =
      (List.range (directory.issued requests).length).map fun k => directory.sequence + 1 + UInt64.ofNat k := by
  induction requests generalizing directory with
  | nil => rfl
  | cons request rest ih =>
    have hrest := ih (directory.answer request).2
    rw [issued_cons]
    cases directory.answer_turn request with
    | issues activation hnew hid hsequence hheld =>
      have hshift : ∀ k, directory.sequence + 1 + 1 + UInt64.ofNat k = directory.sequence + 1 + UInt64.ofNat (k + 1) :=
        fun k => by rw [UInt64.ofNat_add, UInt64.add_assoc, UInt64.add_comm 1]; rfl
      simp only [hsequence, hshift] at hrest
      rw [hnew, Option.toList_some, List.singleton_append, List.map_cons, hrest, List.length_cons,
        List.range_succ_eq_map, List.map_cons, List.map_map, hid]
      congr 1
      exact (UInt64.add_zero _).symm
    | sheds hnew hsequence hheld =>
      rw [hsequence] at hrest
      rw [hnew]
      exact hrest

-- As long as the numbers do not run out, none is given twice.
theorem nodup_ids {requests : List Request} (hfew : (directory.issued requests).length ≤ UInt64.size) :
    ((directory.issued requests).map Activation.id).Nodup := by
  rw [ids_issued, List.nodup_iff_pairwise_ne, List.pairwise_map]
  refine List.pairwise_lt_range.imp_of_mem fun {j k} hj hk hlt heq => ?_
  have hj := List.mem_range.mp hj
  have hk := List.mem_range.mp hk
  have hsize : UInt64.size = 2 ^ 64 := rfl
  have hnumber := congrArg UInt64.toNat heq
  simp only [UInt64.toNat_add, UInt64.toNat_ofNat'] at hnumber
  omega

theorem nodup_held {requests : List Request} (hfew : (empty.issued requests).length ≤ UInt64.size) :
    (empty.after requests).activations.Nodup :=
  (held_after empty requests).nodup (List.Nodup.of_map Activation.id (nodup_ids hfew))

theorem unregister_eq_erase (hnodup : directory.activations.Nodup) (activation : Activation) :
    directory.unregister activation =
      (directory.activations.contains activation,
        { directory with activations := directory.activations.erase activation }) := by
  rw [unregister, hnodup.erase_eq_filter]

theorem activationsOf_unregister_eq_erase (hnodup : directory.activations.Nodup) (activation : Activation)
    (grain : Grain) :
    (directory.unregister activation).2.activationsOf grain = (directory.activationsOf grain).erase activation := by
  have hlisted : (directory.activationsOf grain).Nodup := hnodup.filter _
  rw [activationsOf_unregister, hlisted.erase_eq_filter]

-- An activation that is not held any more never comes back: those that come into being have other numbers.
theorem gone_after {earlier later : List Request}
    (hfew : (empty.issued (earlier ++ later)).length ≤ UInt64.size) {activation : Activation}
    (hknown : activation ∈ empty.issued earlier) (hgone : activation ∉ (empty.after earlier).activations) :
    (∀ other ∈ (empty.after earlier).issued later, other.id ≠ activation.id) ∧
      activation ∉ (empty.after (earlier ++ later)).activations := by
  have hothers : ∀ other ∈ (empty.after earlier).issued later, other.id ≠ activation.id := by
    have hnodup := nodup_ids hfew
    rw [issued_append, List.map_append, List.nodup_append] at hnodup
    exact fun other hother =>
      (hnodup.2.2 _ (List.mem_map_of_mem hknown) _ (List.mem_map_of_mem hother)).symm
  refine ⟨hothers, fun hheld => ?_⟩
  rw [after_append] at hheld
  rcases List.mem_append.mp ((held_after _ later).subset hheld) with hheld | hissued
  · exact hgone hheld
  · exact hothers _ hissued rfl

-- What is left once activations have been unregistered one by one.
theorem after_unregister (directory : Directory) (order : List Activation) :
    directory.after (order.map .unregister) =
      { directory with activations := directory.activations.filter (· ∉ order) } := by
  induction order generalizing directory with
  | nil => simp [after, Request.serve]
  | cons activation rest ih =>
    have hrest := ih (directory.unregister activation).2
    rw [List.map_cons, after_cons]
    refine hrest.trans ?_
    simp only [unregister, List.filter_filter]
    congr 1
    refine List.filter_congr fun other _ => ?_
    by_cases hother : other = activation <;> simp [hother]

-- To end all activations of a silo at once or one by one comes to the same.
theorem after_unregister_of_perm {silo : Silo} {order : List Activation}
    (h : order.Perm (directory.activations.filter (·.silo == silo))) :
    directory.after (order.map .unregister) = directory.after [.removeSilo silo] := by
  have hsilo : directory.after [.removeSilo silo] = (directory.removeSilo silo).2 := rfl
  rw [after_unregister, hsilo, removeSilo, List.partition_eq_filter_filter]
  congr 1
  refine List.filter_congr fun activation hheld => Bool.eq_iff_iff.mpr ?_
  simp [h.mem_iff, hheld]

end Muster.Directory
