import Muster.Grain.Directory

-- What calls on a directory make of the activations of a grain.
namespace Muster
namespace Directory

variable {directory : Directory} {grain : Grain} {activation : Activation}

theorem activationsOf_record (directory : Directory) (noted : Grain) (silo : Silo) (grain : Grain) :
    (directory.record noted silo).2.activationsOf grain =
      directory.activationsOf grain ++ if noted = grain then [(directory.record noted silo).1] else [] := by
  by_cases hgrain : noted = grain <;> simp [record, activationsOf, List.filter_append, hgrain]

theorem activationsOf_unregister (directory : Directory) (activation : Activation) (grain : Grain) :
    (directory.unregister activation).2.activationsOf grain =
      (directory.activationsOf grain).filter (· != activation) := by
  simp only [unregister, activationsOf, List.filter_filter, Bool.and_comm]

theorem activationsOf_removeSilo (directory : Directory) (silo : Silo) (grain : Grain) :
    (directory.removeSilo silo).2.activationsOf grain =
      (directory.activationsOf grain).filter (·.silo != silo) := by
  simp only [removeSilo, activationsOf, List.partition_eq_filter_filter, List.filter_filter]
  exact List.filter_congr fun activation _ => Bool.and_comm _ _

theorem available_of_up (hup : directory.outage = none) : directory.available = .ok () := by
  rw [available, hup]

theorem register_of_free (hup : directory.outage = none) (hfree : directory.activationsOf grain = []) (silo : Silo) :
    directory.register grain silo = .ok (directory.record grain silo) := by
  simp only [register, available_of_up hup, hfree, List.head?_nil]

theorem register_of_taken (hup : directory.outage = none) (htaken : directory.activationsOf grain = [activation])
    (silo : Silo) : directory.register grain silo = .error (.alreadyRegistered activation) := by
  simp only [register, available_of_up hup, htaken, List.head?_cons]

-- A registration succeeds only where nobody is registered, and not in an outage.
theorem of_register_ok {silo : Silo} {left : Directory}
    (h : directory.register grain silo = .ok (activation, left)) :
    directory.outage = none ∧ directory.activationsOf grain = [] ∧ ∀ other,
      left.activationsOf other = directory.activationsOf other ++ if grain = other then [activation] else [] := by
  cases hup : directory.outage with
  | some reason => simp [register, available, hup] at h
  | none =>
    cases hfound : directory.activationsOf grain with
    | nil =>
      rw [register_of_free hup hfound] at h
      have hrecord := Except.ok.inj h
      refine ⟨rfl, rfl, fun other => ?_⟩
      have hleft := directory.activationsOf_record grain silo other
      rwa [hrecord] at hleft
    | cons existing rest => simp [register, available_of_up hup, hfound] at h

theorem lookup_of_up (hup : directory.outage = none) (grain : Grain) :
    directory.lookup grain = .ok (directory.activationsOf grain) := by
  rw [lookup, available_of_up hup]
  rfl

theorem activationsOf_of_lookup {existing : List Activation} (h : directory.lookup grain = .ok existing) :
    existing = directory.activationsOf grain := by
  cases hup : directory.outage with
  | some reason => simp [lookup, available, hup, bind, Except.bind] at h
  | none =>
    rw [lookup_of_up hup] at h
    exact (Except.ok.inj h).symm

end Directory

end Muster
