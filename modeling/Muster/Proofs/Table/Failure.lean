import Muster.Proofs.Table.Mirror
import Muster.Rig.Handle

-- A call that fails changes nothing: no table of a store, however its deadlines cut it off, and no
-- document in a folder.
namespace Muster

-- The call comes to a fault, or to a no.
def Call.fails : (call : Call) → call.Answer → Bool
  | _, .error _ => true
  | .establish _, .ok established => !established
  | .insertRow _ _, .ok won => !won
  | .updateRow _ _ _, .ok won => !won
  | _, .ok _ => false

theorem Call.fails_error (call : Call) (fault : Fault) : call.fails (.error fault) = true := by
  cases call <;> rfl

namespace Course

variable {σ τ α : Type} {same : σ → Prop} {same' : τ → Prop} {failed : α → Prop}

-- The state is the same still wherever the work falls asleep, and at the end if the work fails.
def Spares (same : σ → Prop) (failed : α → Prop) : Course σ α → Prop
  | done value state => failed value → same state
  | sleep _ state rest => same state ∧ rest.Spares same failed

theorem Spares.state {course : Course σ α} (h : course.Spares same failed) (hfailed : failed course.value) :
    same course.state := by
  induction course with
  | done value state => exact h hfailed
  | sleep ticks state rest ih => exact ih h.2 hfailed

-- A deadline cuts the work off where it is asleep.
theorem Spares.within {course : Course σ α} (h : course.Spares same failed) (limit : Nat) (late : α) :
    (course.within limit late).Spares same failed := by
  induction course generalizing limit with
  | done value state => exact h
  | sleep ticks state rest ih =>
    unfold Course.within
    split
    · exact ⟨h.1, ih h.2 _⟩
    · exact ⟨h.1, fun _ => h.1⟩

theorem Spares.mapState {course : Course σ α} (h : course.Spares same failed) {f : σ → τ}
    (hsame : ∀ state, same state → same' (f state)) : (course.mapState f).Spares same' failed := by
  induction course with
  | done value state => exact fun hfailed => hsame state (h hfailed)
  | sleep ticks state rest ih => exact ⟨hsame state h.1, ih h.2⟩

end Course

namespace Store

variable {store : Store}

-- Every deployment has the table it had, and the store lists the same ones.
structure SameTables (left store : Store) : Prop where
  find : ∀ deployment, left.find? deployment = store.find? deployment
  listed : left.tables.map Deployment.id = store.tables.map Deployment.id

theorem SameTables.refl (store : Store) : store.SameTables store := ⟨fun _ => rfl, rfl⟩

theorem sameTables_put {deployment : String} {table : Deployment} (h : store.find? deployment = some table) :
    (store.put table).SameTables store := by
  have hid := id_of_find? h
  refine ⟨fun other => ?_, ?_⟩
  · by_cases hother : other = table.id
    · rw [hother, find?_put, hid, h]
    · exact find?_put_of_ne store hother
  · have hany : store.tables.any (fun other => other.id == table.id) = true := by
      rw [List.any_eq_true]
      exact ⟨table, List.mem_of_find?_eq_some h, beq_self_eq_true _⟩
    simp only [put, hany, if_true, List.map_map]
    refine List.map_congr_left fun other _ => ?_
    simp only [Function.comp_apply]
    split
    · next hother => exact (beq_iff_eq.mp hother).symm
    · rfl

theorem sameTables_write {deployment : String} {change : Deployment → Except Fault (Bool × Deployment)}
    (hlost : ∀ table next, change table = .ok (false, next) → next = table)
    (h : (store.write deployment change).1 ≠ .ok true) : (store.write deployment change).2.SameTables store := by
  unfold write at h ⊢
  cases hfind : store.find? deployment with
  | none => exact .refl store
  | some table =>
    simp only [hfind] at h ⊢
    cases hchange : change table with
    | error fault => exact .refl store
    | ok result =>
      obtain ⟨won, next⟩ := result
      cases won with
      | true => exact absurd (by rw [hchange]) h
      | false =>
        rw [hlost _ _ hchange]
        exact sameTables_put hfind

theorem write_of_error {α : Type} {deployment : String} {change : Deployment → Except Fault (α × Deployment)}
    {fault : Fault} (h : (store.write deployment change).1 = .error fault) :
    (store.write deployment change).2 = store := by
  unfold write at h ⊢
  cases hfind : store.find? deployment with
  | none => rfl
  | some table =>
    simp only [hfind] at h ⊢
    cases hchange : change table with
    | error fault => rfl
    | ok result => simp [hchange] at h

theorem sameTables_answer {deployment : String} {drawn : UInt64} {call : Call}
    (h : call.fails (store.answer deployment drawn call).1 = true) :
    (store.answer deployment drawn call).2.SameTables store := by
  cases call with
  | establish create =>
    cases create with
    | false => exact .refl store
    | true => cases h
  | delete other => cases h
  | readRow silo => exact .refl store
  | readAll => exact .refl store
  | insertRow entry expected =>
    refine sameTables_write (fun _ _ => Deployment.eq_of_lost_insertRow) fun hwon => ?_
    rw [answer, hwon] at h
    cases h
  | updateRow entry etag expected =>
    refine sameTables_write (fun _ _ => Deployment.eq_of_lost_updateRow) fun hwon => ?_
    rw [answer, hwon] at h
    cases h
  | mergeAlive entry =>
    cases hvalue : (store.answer deployment drawn (.mergeAlive entry)).1 with
    | error fault =>
      rw [answer, write_of_error hvalue]
      exact .refl store
    | ok value =>
      rw [hvalue] at h
      cases h

theorem perform_spares (clock : Clock) (deployment : String) (drawn : UInt64) (call : Call) (store : Store) :
    (perform clock deployment drawn call store).Spares (·.SameTables store) (call.fails · = true) := by
  obtain ⟨tables, outage, latency⟩ := store
  have hsame := SameTables.refl ⟨tables, outage, latency⟩
  have hanswer : call.fails (answer deployment drawn call ⟨tables, outage, latency⟩).1 = true →
      (answer deployment drawn call ⟨tables, outage, latency⟩).2.SameTables ⟨tables, outage, latency⟩ :=
    sameTables_answer
  by_cases hlatency : latency.isZero <;> cases outage <;>
    simp [perform, bind, Work.get, Work.sleep, Work.act, Course.bind, pure, Course.Spares, hlatency, hsame] <;>
    exact hanswer

end Store

namespace Handle

-- The table is kept in memory, and nobody contests it.
def inMemory : Handle → Bool
  | memory _ _ => true
  | deadline inner _ => inner.inMemory
  | files _ => false
  | contested _ _ => false

theorem perform_spares {handle : Handle} (h : handle.inMemory = true) (hour : Hour) (drawn : UInt64) (call : Call)
    (rig : Rig) : (handle.perform hour drawn call rig).Spares
      (fun left => ∀ n, (left.store n).SameTables (rig.store n)) (call.fails · = true) := by
  induction handle with
  | memory number deployment =>
    refine (Store.perform_spares hour.clock deployment drawn call (rig.store number)).mapState fun store hsame n => ?_
    by_cases hn : n = number
    · subst hn
      by_cases hput : n < rig.stores.length
      · simpa [Rig.store, hput] using hsame
      · simpa [Rig.store, hput] using Store.SameTables.refl _
    · simpa [Rig.store, List.getElem?_set, Ne.symm hn] using Store.SameTables.refl _
  | deadline inner limit ih => exact (ih h).within _ _
  | files table => cases h
  | contested inner script => cases h

end Handle

namespace Files

-- Folders stay, and so do the documents of the deployments that are spared, byte for byte. None of theirs
-- comes into being either.
structure Spares (files left : Files) (spared : String → Prop) : Prop where
  keeps : files.Keeps left
  documents : ∀ place deployment bytes, spared deployment →
    (left.node? (place ++ [FileName.document deployment]) = some (.file bytes) ↔
      files.node? (place ++ [FileName.document deployment]) = some (.file bytes))

variable {files middle left : Files} {spared other : String → Prop}

theorem Spares.refl (files : Files) (spared : String → Prop) : files.Spares files spared :=
  ⟨.refl files, fun _ _ _ _ => Iff.rfl⟩

theorem Spares.trans (h : files.Spares middle spared) (h' : middle.Spares left spared) : files.Spares left spared :=
  ⟨h.keeps.trans h'.keeps, fun place deployment bytes hspared =>
    (h'.documents place deployment bytes hspared).trans (h.documents place deployment bytes hspared)⟩

theorem Spares.mono (h : files.Spares left spared) (hother : ∀ deployment, other deployment → spared deployment) :
    files.Spares left other :=
  ⟨h.keeps, fun place deployment bytes hspared => h.documents place deployment bytes (hother deployment hspared)⟩

theorem Folds.spares (h : files.Folds left) (spared : String → Prop) : files.Spares left spared :=
  ⟨h.keeps, fun place _ bytes _ => h.files (place ++ [_]) bytes⟩

theorem Alters.spares {places : List Place} (h : files.Alters left places)
    (hplaces : ∀ place deployment, spared deployment → place ++ [FileName.document deployment] ∉ places) :
    files.Spares left spared :=
  ⟨h.keeps, fun place deployment _ hspared => by rw [h.elsewhere _ (hplaces place deployment hspared)]⟩

theorem Locked.spares {folder deployment : String} {place : Place} (h : files.Locked left folder deployment place)
    (spared : String → Prop) : files.Spares left spared := by
  refine ((files.folds_makeFolders _).spares spared).trans (h.alters.spares fun place' other _ hmem => ?_)
  rw [List.mem_singleton] at hmem
  exact FileName.lock_ne_document _ _ (Place.concat_injective hmem).symm

theorem Worked.spares {folder deployment : String} {place : Place} (h : files.Worked left folder deployment place) :
    files.Spares left (· ≠ deployment) := by
  refine ((files.folds_makeFolders _).spares _).trans (h.alters.spares fun place' other hother hmem => ?_)
  simp only [List.mem_cons, List.not_mem_nil, or_false] at hmem
  obtain hlock | hdraft | hdocument := hmem
  · exact FileName.lock_ne_document _ _ (Place.concat_injective hlock).symm
  · exact FileName.draft_ne_document _ _ (Place.concat_injective hdraft).symm
  · exact hother (FileName.document_injective (Place.concat_injective hdocument))

theorem read_eq_ok {path : Path} {bytes : ByteArray} : files.read path = .ok bytes ↔
    ∃ place, files.reach path = .ok place ∧ files.node? place = some (.file bytes) := by
  unfold read find
  cases files.reach path with
  | error fault => simp [bind, Except.bind]
  | ok place =>
    cases hnode : files.node? place with
    | none => simp [bind, Except.bind, hnode]
    | some node => cases node <;> simp [bind, Except.bind, hnode]

-- What could be read from a document that has been spared can be read from it still.
theorem Spares.read (h : files.Spares left spared) {folder deployment : String} {bytes : ByteArray}
    (hread : files.read (.inside folder (FileName.document deployment)) = .ok bytes) (hspared : spared deployment) :
    left.read (.inside folder (FileName.document deployment)) = .ok bytes := by
  obtain ⟨place, hreach, hnode⟩ := read_eq_ok.mp hread
  obtain ⟨around, -, rfl⟩ := opens_of_reach (FileName.plain_document deployment) hreach
  exact read_eq_ok.mpr ⟨_, h.keeps.reach hreach, (h.documents around deployment bytes hspared).mpr hnode⟩

end Files

namespace FileTable

variable {α : Type}

open Files (Spares)

theorem lock_spares (table : FileTable) (deployment : String) (files : Files) :
    (∃ fault left, (table.lock deployment).on files = (.error fault, left) ∧ ∀ spared, files.Spares left spared) ∨
    ∃ place locked, (table.lock deployment).on files = (.ok (), locked) ∧ (∀ spared, files.Spares locked spared) ∧
      files.Locked locked table.folder deployment place := by
  obtain ⟨-, fault, hlock⟩ | ⟨-, place, locked, hlock, hlocked⟩ := table.lock_spec deployment files
  · exact Or.inl ⟨.io fault, _, hlock, (files.folds_makeFolders _).spares⟩
  · exact Or.inr ⟨place, locked, hlock, hlocked.spares, hlocked⟩

-- A reading leaves all documents alone.
theorem read_spares (table : FileTable) (look : Deployment → Except Fault α) (files : Files) :
    ∃ value left, (table.read look).on files = (value, left) ∧ ∀ spared, files.Spares left spared := by
  obtain ⟨fault, left, hlock, hspares⟩ | ⟨place, locked, hlock, hspares, -⟩ :=
    table.lock_spares table.deployment files
  · exact ⟨.error fault, left, by simp only [read, Disk.on_bind, hlock], hspares⟩
  simp only [read, Disk.on_bind, hlock, on_load, Disk.on_ofExcept]
  cases table.loaded (locked.read (.inside table.folder (FileName.document table.deployment))) with
  | error fault => exact ⟨.error fault, locked, rfl, hspares⟩
  | ok stored => exact ⟨look stored, locked, rfl, hspares⟩

-- A write that wins writes one document, and no other write writes any.
theorem write_spares (table : FileTable) (change : Deployment → Except Fault (Bool × Deployment)) (files : Files) :
    ∃ value left, (table.write change).on files = (value, left) ∧
      files.Spares left fun deployment => value ≠ .ok true ∨ deployment ≠ table.deployment := by
  obtain ⟨fault, left, hlock, hspares⟩ | ⟨place, locked, hlock, hspares, hlocked⟩ :=
    table.lock_spares table.deployment files
  · exact ⟨.error fault, left, by simp only [write, Disk.on_bind, hlock], hspares _⟩
  simp only [write, Disk.on_bind, hlock, on_load, Disk.on_ofExcept]
  cases table.loaded (locked.read (.inside table.folder (FileName.document table.deployment))) with
  | error fault => exact ⟨.error fault, locked, rfl, hspares _⟩
  | ok stored =>
    dsimp only
    cases change stored with
    | error fault => exact ⟨.error fault, locked, rfl, hspares _⟩
    | ok result =>
      obtain ⟨won, next⟩ := result
      cases won with
      | false => exact ⟨.ok false, locked, rfl, hspares _⟩
      | true =>
        simp only [if_true, Disk.on_bind]
        obtain ⟨-, fault, left, hsave, hdraft⟩ | ⟨-, saved, hsave, halters, -⟩ := save_spec hlocked.settled next
        · refine ⟨.error (.io fault), left, by rw [hsave], (hspares _).trans (hdraft.spares fun _ _ _ hmem => ?_)⟩
          rw [List.mem_singleton] at hmem
          exact FileName.draft_ne_document _ _ (Place.concat_injective hmem).symm
        · refine ⟨.ok true, saved, by rw [hsave]; rfl, ?_⟩
          refine (hlocked.worked.alters_more halters).spares.mono fun deployment hdeployment => ?_
          exact hdeployment.resolve_left fun hne => hne rfl

theorem delete_spares (table : FileTable) (deployment : String) (files : Files) :
    ∃ value left, (table.delete deployment).on files = (value, left) ∧
      files.Spares left fun other => value ≠ .ok () ∨ other ≠ deployment := by
  obtain ⟨-, hdelete⟩ | ⟨-, ⟨-, fault, left, hdelete, hleft⟩ | ⟨-, place, left, hdelete, hworked, -⟩⟩ :=
    table.delete_spec deployment files
  · exact ⟨_, _, hdelete, .refl files _⟩
  · refine ⟨_, _, hdelete, ?_⟩
    obtain rfl | ⟨place, hlocked⟩ := hleft
    · exact (files.folds_makeFolders _).spares _
    · exact hlocked.spares _
  · exact ⟨_, _, hdelete, hworked.spares.mono fun other hother => hother.resolve_left fun hne => hne rfl⟩

-- To go on to an answer that is no failure, whatever the write comes to.
theorem write_then_spares {β : Type} (table : FileTable) (change : Deployment → Except Fault (Bool × Deployment))
    (answer : β) {failed : Except Fault β → Prop} (hanswer : ¬failed (.ok answer)) (files : Files) :
    ∃ value left, (table.write change >>= fun _ => pure answer).on files = (value, left) ∧
      files.Spares left fun deployment => failed value ∨ deployment ≠ table.deployment := by
  obtain ⟨value, left, hwrite, hspares⟩ := table.write_spares change files
  rw [Disk.on_bind, hwrite]
  cases value with
  | error fault => exact ⟨.error fault, left, rfl, hspares.mono fun _ _ => Or.inl nofun⟩
  | ok won => exact ⟨.ok answer, left, rfl, hspares.mono fun _ hother => Or.inr (hother.resolve_left hanswer)⟩

-- A call leaves alone the documents of other deployments, and if it fails its own as well.
theorem act_spares (table : FileTable) (drawn : UInt64) (call : Call) (files : Files) :
    ∃ value left, (table.act drawn call).on files = (value, left) ∧
      files.Spares left fun other => call.fails value = true ∨ other ≠ target table.deployment call := by
  have hread : ∀ (call : Call) (look : Deployment → Except Fault call.Result),
      ∃ value left, (table.read look).on files = (value, left) ∧
        files.Spares left fun other => call.fails value = true ∨ other ≠ target table.deployment call := by
    intro call look
    obtain ⟨value, left, hread, hspares⟩ := table.read_spares look files
    exact ⟨value, left, hread, hspares _⟩
  cases call with
  | establish create =>
    cases create with
    | false => exact hread (.establish false) _
    | true => exact table.write_then_spares _ true nofun files
  | delete other =>
    obtain ⟨value, left, hdelete, hspares⟩ := table.delete_spares other files
    refine ⟨value, left, hdelete, hspares.mono fun deployment hdeployment => hdeployment.imp_left ?_⟩
    rintro hfails rfl
    cases hfails
  | readRow silo => exact hread (.readRow silo) _
  | readAll => exact hread .readAll _
  | insertRow entry expected =>
    obtain ⟨value, left, hwrite, hspares⟩ := table.write_spares (fun stored => stored.insertRow entry expected) files
    refine ⟨value, left, hwrite, hspares.mono fun deployment hdeployment => hdeployment.imp_left ?_⟩
    rintro hfails rfl
    cases hfails
  | updateRow entry etag expected =>
    obtain ⟨value, left, hwrite, hspares⟩ :=
      table.write_spares (fun stored => stored.updateRow entry etag expected) files
    refine ⟨value, left, hwrite, hspares.mono fun deployment hdeployment => hdeployment.imp_left ?_⟩
    rintro hfails rfl
    cases hfails
  | mergeAlive entry => exact table.write_then_spares _ () nofun files

-- No table of the deployment can be read from the bytes.
def Unfit (deployment : String) (bytes : ByteArray) : Prop :=
  ∀ stored, Deployment.ofBytes? bytes = some stored → stored.id ≠ deployment

theorem loaded_of_unfit {table : FileTable} {bytes : ByteArray} (h : Unfit table.deployment bytes) :
    ∃ corruption, table.loaded (.ok bytes) = .error (.corrupted corruption) := by
  cases hbytes : Deployment.ofBytes? bytes with
  | none => exact ⟨.unreadable, by simp only [loaded, hbytes]⟩
  | some stored => exact ⟨.foreign _ _, by simp only [loaded, hbytes, if_neg (h stored hbytes)]; rfl⟩

section
variable (table : FileTable) {files : Files} {bytes : ByteArray}
  (hread : files.read (.inside table.folder (FileName.document table.deployment)) = .ok bytes)
  (hunfit : Unfit table.deployment bytes)
include hread hunfit

-- Whatever one wants with the table, it comes to a fault.
theorem lock_load_of_unfit (more : Deployment → Disk α) :
    ∃ fault left, (table.lock table.deployment >>= fun _ => table.load >>= more).on files = (.error fault, left) := by
  obtain ⟨fault, left, hlock, -⟩ | ⟨place, locked, hlock, hspares, -⟩ := table.lock_spares table.deployment files
  · exact ⟨fault, left, by rw [Disk.on_bind, hlock]⟩
  · obtain ⟨corruption, hloaded⟩ := loaded_of_unfit hunfit
    refine ⟨.corrupted corruption, locked, ?_⟩
    simp only [Disk.on_bind, hlock, on_load, (hspares fun _ => True).read hread trivial, hloaded]

theorem act_of_unfit (drawn : UInt64) {call : Call} (hcall : ∀ other, call ≠ .delete other) :
    ∃ fault left, (table.act drawn call).on files = (.error fault, left) := by
  have hwrite : ∀ (change : Deployment → Except Fault (Bool × Deployment)) {β : Type} (more : Bool → Disk β),
      ∃ fault left, (table.write change >>= more).on files = (.error fault, left) := by
    intro change β more
    have hfault : ∃ fault left, (table.write change).on files = (.error fault, left) :=
      lock_load_of_unfit table hread hunfit _
    obtain ⟨fault, left, hwrite⟩ := hfault
    refine ⟨fault, left, ?_⟩
    rw [Disk.on_bind, hwrite]
  cases call with
  | establish create =>
    cases create with
    | false => exact lock_load_of_unfit table hread hunfit _
    | true => exact hwrite _ _
  | delete other => exact absurd rfl (hcall other)
  | readRow silo => exact lock_load_of_unfit table hread hunfit _
  | readAll => exact lock_load_of_unfit table hread hunfit _
  | insertRow entry expected => exact lock_load_of_unfit table hread hunfit _
  | updateRow entry etag expected => exact lock_load_of_unfit table hread hunfit _
  | mergeAlive entry => exact hwrite _ _

end

-- A call leaves a document that is unfit for its deployment as it is, unless it deletes the deployment.
theorem read_of_unfit {folder deployment : String} {files : Files} {bytes : ByteArray}
    (hread : files.read (.inside folder (FileName.document deployment)) = .ok bytes) (hunfit : Unfit deployment bytes)
    (other : String) (drawn : UInt64) {call : Call} (hcall : call ≠ .delete deployment) :
    ((act ⟨folder, other⟩ drawn call).on files).2.read (.inside folder (FileName.document deployment)) = .ok bytes := by
  obtain ⟨value, left, hact, hspares⟩ := act_spares ⟨folder, other⟩ drawn call files
  rw [hact]
  refine hspares.read hread ?_
  by_cases hdelete : ∃ removed, call = .delete removed
  · obtain ⟨removed, rfl⟩ := hdelete
    exact Or.inr fun heq => hcall (congrArg Call.delete heq.symm)
  have hdelete : ∀ removed, call ≠ .delete removed := fun removed heq => hdelete ⟨removed, heq⟩
  rw [target_of_ne_delete hdelete]
  by_cases hother : deployment = other
  · subst hother
    obtain ⟨fault, left', hfault⟩ := act_of_unfit ⟨folder, deployment⟩ hread hunfit drawn hdelete
    rw [← (Prod.mk.inj (hfault.symm.trans hact)).1]
    exact Or.inl (call.fails_error fault)
  · exact Or.inr hother

end FileTable

-- Tables in memory, under as many deadlines as one likes, and tables in files. A fault and a no are the
-- same here: a table that a call fails on is as it was before. A document that no table of its deployment
-- can be read from is never written over.
theorem failed_calls_change_nothing :
    (∀ handle : Handle, handle.inMemory = true → ∀ (hour : Handle.Hour) (drawn : UInt64) (call : Call) (rig : Rig),
      call.fails (handle.perform hour drawn call rig).value = true →
      ∀ n, ((handle.perform hour drawn call rig).state.store n).SameTables (rig.store n)) ∧
    (∀ (table : FileTable) (drawn : UInt64) (call : Call) (files : Files),
      call.fails (table.answer drawn call files).1 = true → ∀ place deployment bytes,
        (table.answer drawn call files).2.node? (place ++ [FileName.document deployment]) = some (.file bytes) ↔
          files.node? (place ++ [FileName.document deployment]) = some (.file bytes)) ∧
    (∀ (table : FileTable) (deployment : String) (bytes : ByteArray) (files : Files),
      files.read (table.path (FileName.document deployment)) = .ok bytes → FileTable.Unfit deployment bytes →
      ∀ (drawn : UInt64) (call : Call), call ≠ .delete deployment →
        (table.answer drawn call files).2.read (table.path (FileName.document deployment)) = .ok bytes) := by
  refine ⟨fun handle hmemory hour drawn call rig hfails => ?_,
    fun table drawn call files hfails place deployment bytes => ?_,
    fun table deployment bytes files hread hunfit drawn call => ?_⟩
  · exact (handle.perform_spares hmemory hour drawn call rig).state hfails
  · obtain ⟨value, left, hact, hspares⟩ := table.act_spares drawn call files
    have hanswer : table.answer drawn call files = (value, left) := hact
    rw [hanswer] at hfails ⊢
    exact hspares.documents place deployment bytes (Or.inl hfails)
  · exact FileTable.read_of_unfit hread hunfit table.deployment drawn

-- A store that takes two seconds for an answer, and a document with no table in it.
def slowRig : Rig := { Rig.empty with stores := [{ Store.empty with latency := .ofSeconds 2 }] }

def spoiltFiles : Files := ⟨[(["data"], .folder), (["data", FileName.document "a"], .file "{}".toUTF8)]⟩

theorem failed_calls_change_nothing_late_and_spoilt :
    let hour : Handle.Hour := ⟨.millis, .epoch⟩
    let handle : Handle := .deadline (.memory 0 "a") (.ofSeconds 1)
    let table : FileTable := ⟨"data", "a"⟩
    (handle.perform hour 7 (.establish true) slowRig).value = .error (.timeout "initialize" (.ofSeconds 1)) ∧
    ((handle.perform hour 7 (.establish true) slowRig).state.store 0).SameTables (slowRig.store 0) ∧
    (table.answer 7 (.establish true) spoiltFiles).1 = .error (.corrupted .unreadable) ∧
    ((table.answer 7 (.establish true) spoiltFiles).2.node? (["data"] ++ [FileName.document "a"]) =
        some (.file "{}".toUTF8) ↔
      spoiltFiles.node? (["data"] ++ [FileName.document "a"]) = some (.file "{}".toUTF8)) ∧
    FileTable.Unfit "a" "{}".toUTF8 ∧
    (table.answer 7 (.establish true) spoiltFiles).2.read (table.path (FileName.document "a")) = .ok "{}".toUTF8 := by
  intro hour handle table
  have hlate : (handle.perform hour 7 (.establish true) slowRig).value =
      .error (.timeout "initialize" (.ofSeconds 1)) := by decide +kernel
  have hunfit : FileTable.Unfit "a" "{}".toUTF8 := by
    intro stored hstored
    rw [Deployment.ofBytes?_toUTF8, show Deployment.ofDocument? "{}" = none by decide +kernel] at hstored
    cases hstored
  have hread : spoiltFiles.read (table.path (FileName.document "a")) = .ok "{}".toUTF8 := by decide +kernel
  obtain ⟨hstores, hdocuments, hspoilt⟩ := failed_calls_change_nothing
  refine ⟨hlate, ?_, ?_, ?_, hunfit, hspoilt table "a" "{}".toUTF8 spoiltFiles hread hunfit 7 (.establish true) nofun⟩
  · exact hstores handle rfl hour 7 (.establish true) slowRig (by rw [hlate]; rfl) 0
  · decide +kernel
  · exact hdocuments table 7 (.establish true) spoiltFiles (by decide +kernel) ["data"] "a" _

end Muster
