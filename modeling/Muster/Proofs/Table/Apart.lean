import Muster.Proofs.Table.Backends
import Muster.Proofs.Table.Twins

-- Deployments that share a store or a folder do not get in each other's way. What the handles of one are
-- answered does not depend on the calls of the others, but for those that delete it.
namespace Muster

-- A call through a handle of the deployment, or one that deletes it.
def Request.concerns (request : Request) (deployment : String) : Bool :=
  request.deployment == deployment || request.call == .delete deployment

theorem Request.not_concerns {request : Request} {deployment : String} (h : request.concerns deployment = false) :
    deployment ≠ request.deployment ∧ request.call ≠ .delete deployment := by
  rw [concerns, Bool.or_eq_false_iff, beq_eq_false_iff_ne, beq_eq_false_iff_ne] at h
  exact ⟨h.1.symm, h.2⟩

theorem Request.concerns_cases {request : Request} {deployment : String} (h : request.concerns deployment) :
    request.deployment = deployment ∨ request.call = .delete deployment := by
  rwa [concerns, Bool.or_eq_true, beq_iff_eq, beq_iff_eq] at h

namespace Store

variable {s t store : Store} {deployment : String}

theorem perform_of_outage {reason : String} (clock : Clock) (deployment : String) (drawn : UInt64) (call : Call)
    (h : store.outage = some reason) :
    (perform clock deployment drawn call store).value = .error (.unavailable reason) ∧
      (perform clock deployment drawn call store).state = store := by
  obtain ⟨tables, outage, latency⟩ := store
  obtain rfl : outage = some reason := h
  by_cases hlatency : latency.isZero <;>
    simp [perform, bind, Work.get, Work.sleep, Course.bind, pure, Course.value, Course.state, hlatency]

theorem find?_put_establish (store : Store) (deployment : String) (drawn : UInt64) :
    (store.put ((store.table deployment).establish drawn).2).find? deployment =
      some ((store.table deployment).establish drawn).2 := by
  have hid := (Deployment.id_establish (store.table deployment) drawn).trans (store.id_table deployment)
  have hput := store.find?_put ((store.table deployment).establish drawn).2
  rwa [hid] at hput

-- The answer to a deployment goes by its table alone.
theorem answer_of_find? (h : s.find? deployment = t.find? deployment) (drawn : UInt64) (call : Call) :
    (s.answer deployment drawn call).1 = (t.answer deployment drawn call).1 ∧
      (s.answer deployment drawn call).2.find? deployment = (t.answer deployment drawn call).2.find? deployment := by
  have htable : s.table deployment = t.table deployment := by rw [Store.table, h, Store.table]
  have hwrite : ∀ {α : Type} (change : Deployment → Except Fault (α × Deployment)),
      change (.new deployment) = .error (.notInitialized deployment) →
      (∀ table value next, change table = .ok (value, next) → next.id = table.id) →
      (s.write deployment change).1 = (t.write deployment change).1 ∧
        (s.write deployment change).2.find? deployment = (t.write deployment change).2.find? deployment := by
    intro α change hnew hid
    obtain ⟨hs, -, hs'⟩ := s.write_spec hnew hid
    obtain ⟨ht, -, ht'⟩ := t.write_spec hnew hid
    rw [hs, hs', ht, ht', htable, h]
    exact ⟨rfl, rfl⟩
  cases call with
  | establish create =>
    cases create with
    | false => exact ⟨by rw [answer, htable]; rfl, h⟩
    | true =>
      refine ⟨rfl, (find?_put_establish s deployment drawn).trans ?_⟩
      rw [htable]
      exact (find?_put_establish t deployment drawn).symm
  | delete other =>
    refine ⟨rfl, ?_⟩
    simp only [answer, find?_remove, h]
  | readRow silo => exact ⟨congrArg (fun table => table.readRow silo) htable, h⟩
  | readAll => exact ⟨congrArg Deployment.readAll htable, h⟩
  | insertRow entry expected => exact hwrite _ rfl fun _ _ _ => Deployment.id_of_insertRow
  | updateRow entry etag expected => exact hwrite _ rfl fun _ _ _ => Deployment.id_of_updateRow
  | mergeAlive entry => exact hwrite _ rfl fun _ _ _ => Deployment.id_of_map_mergeAlive

-- A call for another deployment leaves the table alone.
theorem find?_answer_of_ne (store : Store) {other : String} (hother : deployment ≠ other) (drawn : UInt64)
    {call : Call} (hcall : call ≠ .delete deployment) :
    (store.answer other drawn call).2.find? deployment = store.find? deployment := by
  cases call with
  | establish create =>
    cases create with
    | false => rfl
    | true => exact (store.follows_establish other drawn).others deployment hother
  | delete removed =>
    have hremoved : deployment ≠ removed := fun heq => hcall (heq ▸ rfl)
    exact (find?_remove ..).trans (if_neg hremoved)
  | readRow silo => rfl
  | readAll => rfl
  | insertRow entry expected =>
    exact (store.write_spec rfl fun _ _ _ => Deployment.id_of_insertRow).2.1 deployment hother
  | updateRow entry etag expected =>
    exact (store.write_spec rfl fun _ _ _ => Deployment.id_of_updateRow).2.1 deployment hother
  | mergeAlive entry =>
    exact (store.write_spec rfl fun _ _ _ => Deployment.id_of_map_mergeAlive).2.1 deployment hother

-- A store that is down keeps its tables to itself.
theorem perform_cases (clock : Clock) (store : Store) (deployment : String) (drawn : UInt64) (call : Call) :
    (∃ reason, store.outage = some reason ∧
      (perform clock deployment drawn call store).value = .error (.unavailable reason) ∧
      (perform clock deployment drawn call store).state = store) ∨
    (store.outage = none ∧
      (perform clock deployment drawn call store).value = (store.answer deployment drawn call).1 ∧
      (perform clock deployment drawn call store).state = (store.answer deployment drawn call).2) := by
  cases houtage : store.outage with
  | none => exact Or.inr ⟨rfl, perform_eq clock deployment drawn call houtage⟩
  | some reason => exact Or.inl ⟨reason, rfl, perform_of_outage clock deployment drawn call houtage⟩

theorem perform_alike (clock : Clock) (h : s.find? deployment = t.find? deployment) (houtage : s.outage = t.outage)
    {other : String} {drawn : UInt64} {call : Call}
    (hanswer : (s.answer other drawn call).1 = (t.answer other drawn call).1 ∧
      (s.answer other drawn call).2.find? deployment = (t.answer other drawn call).2.find? deployment) :
    (perform clock other drawn call s).value = (perform clock other drawn call t).value ∧
    (perform clock other drawn call s).state.find? deployment =
      (perform clock other drawn call t).state.find? deployment ∧
    (perform clock other drawn call s).state.outage = (perform clock other drawn call t).state.outage := by
  obtain ⟨reason, hs, hvalue, hstate⟩ | ⟨hs, hvalue, hstate⟩ := perform_cases clock s other drawn call
  · obtain ⟨hvalue', hstate'⟩ := perform_of_outage clock other drawn call (houtage ▸ hs)
    rw [hvalue, hvalue', hstate, hstate']
    exact ⟨rfl, h, houtage⟩
  · obtain ⟨hvalue', hstate'⟩ := perform_eq clock other drawn call (houtage ▸ hs)
    rw [hvalue, hvalue', hstate, hstate', outage_answer, outage_answer]
    exact ⟨hanswer.1, hanswer.2, houtage⟩

theorem find?_perform_of_ne (clock : Clock) (store : Store) {other : String} (hother : deployment ≠ other)
    (drawn : UInt64) {call : Call} (hcall : call ≠ .delete deployment) :
    (perform clock other drawn call store).state.find? deployment = store.find? deployment ∧
    (perform clock other drawn call store).state.outage = store.outage := by
  obtain ⟨reason, -, -, hstate⟩ | ⟨-, -, hstate⟩ := perform_cases clock store other drawn call
  · rw [hstate]
    exact ⟨rfl, rfl⟩
  · rw [hstate]
    exact ⟨find?_answer_of_ne store hother drawn hcall, outage_answer store other drawn call⟩

end Store

-- Of the replies to the requests, those to the ones that concern the deployment.
def repliesConcerning (deployment : String) (requests : List Request) (replies : List Reply) : List Reply :=
  ((requests.zip replies).filter fun (request, _) => request.concerns deployment).map Prod.snd

theorem repliesConcerning_cons (deployment : String) (request : Request) (requests : List Request) (reply : Reply)
    (replies : List Reply) : repliesConcerning deployment (request :: requests) (reply :: replies) =
      if request.concerns deployment then reply :: repliesConcerning deployment requests replies
      else repliesConcerning deployment requests replies := by
  by_cases h : request.concerns deployment <;> simp [repliesConcerning, h]

-- Two stores with one table for the deployment, both up or both down for one reason.
theorem Store.replies_concerning {s t : Store} {deployment : String} (h : s.find? deployment = t.find? deployment)
    (houtage : s.outage = t.outage) (clock : Clock) (requests : List Request) :
    repliesConcerning deployment requests (replies clock requests s) =
      replies clock (requests.filter (·.concerns deployment)) t := by
  induction requests generalizing s t with
  | nil => rfl
  | cons request requests ih =>
    obtain ⟨other, drawn, call⟩ := request
    rw [replies, repliesConcerning_cons]
    cases hconcerns : Request.concerns ⟨other, drawn, call⟩ deployment with
    | false =>
      obtain ⟨hother, hcall⟩ := Request.not_concerns hconcerns
      obtain ⟨hfind, hup⟩ := find?_perform_of_ne clock s hother drawn hcall
      rw [if_neg Bool.false_ne_true, List.filter_cons_of_neg (by simp [hconcerns])]
      exact ih (hfind.trans h) (hup.trans houtage)
    | true =>
      have hanswer : (s.answer other drawn call).1 = (t.answer other drawn call).1 ∧
          (s.answer other drawn call).2.find? deployment = (t.answer other drawn call).2.find? deployment := by
        obtain rfl | rfl := Request.concerns_cases hconcerns
        · exact answer_of_find? h drawn call
        · exact ⟨rfl, by simp only [answer, find?_remove, h]⟩
      obtain ⟨hvalue, hfind, hup⟩ := perform_alike clock h houtage hanswer
      rw [if_pos rfl, List.filter_cons_of_pos (by simp [hconcerns]), replies, hvalue, ih hfind hup]

namespace Files

-- The folder is there, or no file is in it once it is made.
def Tidy (files : Files) (folder : String) : Prop := files.isThere (.ofText folder) = true ∨ files.Bare folder

theorem twins_refl {files : Files} {folder : String} (h : files.Tidy folder) (deployment : String) :
    Twins files files folder deployment where
  made := id
  folders _ := Iff.rfl
  document _ _ := rfl
  isThere := id
  missing hgone hmade place bytes hopens := by
    obtain hthere | hbare := h
    · rw [hthere] at hgone
      cases hgone
    · exact hbare place _ bytes (hopens.reach (fits_of_makeFolders (Prod.ext rfl hmade)))

end Files

theorem FileTable.replies_concerning {f g : Files} {folder deployment : String}
    (h : Files.Twins f g folder deployment) (requests : List Request)
    (hsound : ∀ reply ∈ replies folder requests f, reply.isIo = false) :
    repliesConcerning deployment requests (replies folder requests f) =
      replies folder (requests.filter (·.concerns deployment)) g := by
  induction requests generalizing f g with
  | nil => rfl
  | cons request requests ih =>
    obtain ⟨other, drawn, call⟩ := request
    obtain ⟨value, left, hwork⟩ : ∃ value left, answer ⟨folder, other⟩ drawn call f = (value, left) := ⟨_, _, rfl⟩
    simp only [replies, hwork, List.forall_mem_cons] at hsound
    obtain ⟨hvalue, hrest⟩ := hsound
    have hvalue := Reply.isIo_eq_false_iff.mp hvalue
    simp only [replies, hwork]
    rw [repliesConcerning_cons]
    cases hconcerns : Request.concerns ⟨other, drawn, call⟩ deployment with
    | false =>
      obtain ⟨hother, hcall⟩ := Request.not_concerns hconcerns
      rw [if_neg Bool.false_ne_true, List.filter_cons_of_neg (by simp [hconcerns])]
      exact ih (act_leaves ⟨folder, other⟩ h hother drawn hcall value left hwork hvalue) hrest
    | true =>
      have hechoes : Disk.Echoes (act ⟨folder, other⟩ drawn call) f g
          fun f' g' => Files.Twins f' g' folder deployment := by
        obtain rfl | rfl := Request.concerns_cases hconcerns
        · exact act_echoes ⟨folder, other⟩ h drawn call
        · exact delete_echoes ⟨folder, other⟩ h deployment
      obtain ⟨g', hother, htwins⟩ := hechoes value left hwork hvalue
      have hother : answer ⟨folder, other⟩ drawn call g = (value, g') := hother
      rw [if_pos rfl, List.filter_cons_of_pos (by simp [hconcerns]), replies, hother, ih htwins hrest]

-- What a deployment is answered, in a store or in a folder, is the same with the calls that concern other
-- deployments and without them. Each call brings the incarnation that a table would get its stamp with.
theorem deployments_stay_apart (deployment : String) (requests : List Request) :
    (∀ (clock : Clock) (store : Store),
      repliesConcerning deployment requests (Store.replies clock requests store) =
        Store.replies clock (requests.filter (·.concerns deployment)) store) ∧
    (∀ (folder : String) (files : Files), files.Tidy folder →
      (∀ reply ∈ FileTable.replies folder requests files, reply.isIo = false) →
      repliesConcerning deployment requests (FileTable.replies folder requests files) =
        FileTable.replies folder (requests.filter (·.concerns deployment)) files) :=
  ⟨fun clock _ => Store.replies_concerning rfl rfl clock requests,
    fun _ _ htidy => FileTable.replies_concerning (Files.twins_refl htidy deployment) requests⟩

theorem deployments_stay_apart_shared :
    Files.empty.Tidy "data" ∧
    (∀ reply ∈ FileTable.replies "data" sharedFolder Files.empty, reply.isIo = false) ∧
    repliesConcerning "b" sharedFolder (FileTable.replies "data" sharedFolder Files.empty) =
      FileTable.replies "data" (sharedFolder.filter (·.concerns "b")) Files.empty ∧
    sharedFolder.length = 6 ∧ (sharedFolder.filter (·.concerns "b")).length = 2 := by
  have hbare := Files.bare_empty "data"
  have hsound : ∀ reply ∈ FileTable.replies "data" sharedFolder Files.empty, reply.isIo = false :=
    isIo_eq_false (by decide +kernel)
  exact ⟨Or.inr hbare, hsound,
    (deployments_stay_apart "b" sharedFolder).2 "data" Files.empty (Or.inr hbare) hsound, rfl, by decide⟩

end Muster
