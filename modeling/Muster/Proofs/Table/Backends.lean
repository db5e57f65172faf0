import Muster.Proofs.Table.Mirror

-- Tables kept in files and tables kept in memory give the same answers, call by call.
namespace Muster

-- A call through a handle of some deployment, and the incarnation that is drawn if a table gets its stamp.
structure Request where
  deployment : String
  drawn : UInt64
  call : Call

structure Reply where
  call : Call
  answer : call.Answer

-- The files have failed.
def Reply.isIo : Reply → Bool
  | ⟨_, .error (.io _)⟩ => true
  | _ => false

theorem Reply.isIo_eq_false_iff {call : Call} {answer : call.Answer} :
    Reply.isIo ⟨call, answer⟩ = false ↔ Disk.Sound answer := by
  refine ⟨fun h => ?_, fun h => ?_⟩
  · rintro fault rfl
    cases h
  · cases answer with
    | ok value => rfl
    | error fault =>
      cases fault with
      | io fault => exact absurd rfl (h fault)
      | _ => rfl

namespace FileTable

-- The replies to calls made one after the other through handles that share a folder.
def replies (folder : String) : List Request → Files → List Reply
  | [], _ => []
  | request :: requests, files =>
    let (answer, left) := answer ⟨folder, request.deployment⟩ request.drawn request.call files
    ⟨request.call, answer⟩ :: replies folder requests left

end FileTable

namespace Store

-- The replies to calls made one after the other through handles that share a store.
def replies (clock : Clock) : List Request → Store → List Reply
  | [], _ => []
  | request :: requests, store =>
    let course := perform clock request.deployment request.drawn request.call store
    ⟨request.call, course.value⟩ :: replies clock requests course.state

variable {store : Store}

theorem outage_write (store : Store) (deployment : String) (change : Deployment → Except Fault (α × Deployment)) :
    (store.write deployment change).2.outage = store.outage := by
  unfold write
  split
  · rfl
  · split <;> rfl

theorem outage_answer (store : Store) (deployment : String) (drawn : UInt64) (call : Call) :
    (store.answer deployment drawn call).2.outage = store.outage := by
  cases call with
  | establish create => cases create <;> rfl
  | insertRow entry expected => exact outage_write store deployment _
  | updateRow entry etag expected => exact outage_write store deployment _
  | mergeAlive entry => exact outage_write store deployment _
  | _ => rfl

theorem perform_eq (clock : Clock) (deployment : String) (drawn : UInt64) (call : Call) (h : store.outage = none) :
    (perform clock deployment drawn call store).value = (store.answer deployment drawn call).1 ∧
      (perform clock deployment drawn call store).state = (store.answer deployment drawn call).2 := by
  obtain ⟨tables, outage, latency⟩ := store
  obtain rfl : outage = none := h
  by_cases hlatency : latency.isZero <;>
    simp [perform, bind, Work.get, Work.sleep, Work.act, Course.bind, pure, Course.value, Course.state, hlatency]

end Store

theorem replies_eq {files : Files} {folder : String} {store : Store} (h : Mirrors files folder store)
    (hup : store.outage = none) (clock : Clock) (requests : List Request)
    (hlegible : ∀ request ∈ requests, request.call.Legible)
    (hnone : ∀ reply ∈ FileTable.replies folder requests files, reply.isIo = false) :
    FileTable.replies folder requests files = Store.replies clock requests store := by
  induction requests generalizing files store with
  | nil => rfl
  | cons request requests ih =>
    obtain ⟨hcall, hcalls⟩ := List.forall_mem_cons.mp hlegible
    obtain ⟨hvalue, hstate⟩ := Store.perform_eq clock request.deployment request.drawn request.call hup
    simp only [FileTable.replies, Store.replies, List.forall_mem_cons, hvalue, hstate] at hnone ⊢
    obtain ⟨htakes, fault, left, hact⟩ | ⟨left, hact, hmirrors, -⟩ :=
      FileTable.act_agrees h request.deployment request.drawn request.call hcall
    · have hanswer : FileTable.answer ⟨folder, request.deployment⟩ request.drawn request.call files =
          (.error (.io fault), left) := hact
      rw [hanswer] at hnone
      cases hnone.1
    · have hanswer : FileTable.answer ⟨folder, request.deployment⟩ request.drawn request.call files = (_, left) := hact
      rw [hanswer] at hnone ⊢
      rw [ih hmirrors ((Store.outage_answer ..).trans hup) hcalls hnone.2]

theorem isIo_eq_false {files : Files} {folder : String} {requests : List Request}
    (htakes : ∀ request ∈ requests, files.Takes folder (FileTable.target request.deployment request.call)) :
    ∀ reply ∈ FileTable.replies folder requests files, reply.isIo = false := by
  induction requests generalizing files with
  | nil => exact List.forall_mem_nil _
  | cons request requests ih =>
    obtain ⟨hfirst, hrest⟩ := List.forall_mem_cons.mp htakes
    obtain ⟨hrefused, -⟩ | ⟨value, left, hact, hsound, -, hkept⟩ :=
      FileTable.act_managed ⟨folder, request.deployment⟩ request.drawn request.call files
    · exact absurd hfirst hrefused
    · have hanswer : FileTable.answer ⟨folder, request.deployment⟩ request.drawn request.call files = (value, left) :=
        hact
      simp only [FileTable.replies, hanswer, List.forall_mem_cons]
      exact ⟨Reply.isIo_eq_false_iff.mpr hsound, ih fun other hother => hkept _ (hrest other hother)⟩

-- Once the folder is made, no file is in it.
def Files.Bare (files : Files) (folder : String) : Prop :=
  ∀ place name bytes, (files.made folder).reach (.ofText folder) = .ok place →
    (files.made folder).node? (place ++ [name]) ≠ some (.file bytes)

-- Where there are no files, a new folder can hold folders at most.
theorem Files.bare_empty (folder : String) : Files.empty.Bare folder := by
  intro place name bytes _ hfile
  have hempty := ((Files.empty.folds_makeFolders (.ofText folder)).files _ _).mp hfile
  simp [Files.node?, Files.empty] at hempty

theorem mirrors_of_bare {files : Files} {folder : String} (h : files.Bare folder) (latency : Span) :
    Mirrors files folder { Store.empty with latency } where
  legible := Store.legible_empty latency
  missing _ _ := rfl
  shows place hmade hopens deployment := by
    have hreach := hopens.reach (Files.fits_of_makeFolders (Prod.ext rfl hmade))
    cases hnode : (files.made folder).node? (place ++ [FileName.document deployment]) with
    | none => exact Or.inr rfl
    | some node =>
      cases node with
      | folder => exact Or.inl rfl
      | file bytes => exact absurd hnode (h place _ bytes hreach)

-- As long as no call meets a fault of the files, the files answer as the memory does to calls that write what comes
-- back from a text. No call meets a fault if the files take what the deployments need.
theorem files_reply_as_memory (folder : String) (files : Files) (hbare : files.Bare folder) (clock : Clock)
    (latency : Span) (requests : List Request) :
    ((∀ request ∈ requests, request.call.Legible) →
      (∀ reply ∈ FileTable.replies folder requests files, reply.isIo = false) →
      FileTable.replies folder requests files = Store.replies clock requests { Store.empty with latency }) ∧
    ((∀ request ∈ requests, files.Takes folder (FileTable.target request.deployment request.call)) →
      ∀ reply ∈ FileTable.replies folder requests files, reply.isIo = false) :=
  ⟨replies_eq (mirrors_of_bare hbare latency) rfl clock requests, isIo_eq_false⟩

-- Two deployments in one folder, of which one deletes the other.
def sharedFolder : List Request :=
  let entry := Entry.fresh (.onLoopback 11111 1) "a" .epoch
  [⟨"a", 7, .establish true⟩, ⟨"b", 8, .establish false⟩, ⟨"a", 9, .insertRow entry ⟨0, Deployment.tokenOf 7 1⟩⟩,
    ⟨"a", 9, .readRow entry.silo⟩, ⟨"b", 9, .delete "a"⟩, ⟨"a", 9, .readAll⟩]

theorem files_reply_as_memory_shared :
    Files.empty.Bare "data" ∧
    (∀ request ∈ sharedFolder, request.call.Legible) ∧
    (∀ request ∈ sharedFolder, Files.empty.Takes "data" (FileTable.target request.deployment request.call)) ∧
    (∀ reply ∈ FileTable.replies "data" sharedFolder Files.empty, reply.isIo = false) ∧
    FileTable.replies "data" sharedFolder Files.empty = Store.replies .millis sharedFolder Store.empty := by
  have htakes : ∀ request ∈ sharedFolder,
      Files.empty.Takes "data" (FileTable.target request.deployment request.call) := by decide +kernel
  have hlegible : ∀ request ∈ sharedFolder, request.call.Legible := by decide
  obtain ⟨hsame, hnone⟩ :=
    files_reply_as_memory "data" Files.empty (Files.bare_empty "data") .millis .zero sharedFolder
  exact ⟨Files.bare_empty "data", hlegible, htakes, hnone htakes, hsame hlegible (hnone htakes)⟩

end Muster
