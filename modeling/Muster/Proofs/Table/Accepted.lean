import Muster.Proofs.Json.Decoded
import Muster.Proofs.Table.Failure
import Muster.Proofs.Table.Sound

-- Documents that a table can be read from, whoever wrote them: what a call makes of one, and which of them
-- give readings that agree with each other.
namespace Muster

namespace Deployment

variable {table next : Deployment}

theorem eq_of_establish {drawn : UInt64} (h : table.establish drawn = (false, next)) : next = table := by
  unfold establish at h
  split at h
  · exact (Prod.mk.inj h).2.symm
  · cases (Prod.mk.inj h).1

theorem mergeAlive_of_map {entry : Entry} {won : Bool}
    (h : (table.mergeAlive entry).map (fun next => (true, next)) = .ok (won, next)) :
    won = true ∧ table.mergeAlive entry = .ok next := by
  cases hmerge : table.mergeAlive entry with
  | error fault => simp [hmerge, Except.map] at h
  | ok merged =>
    simp only [hmerge, Except.map, Except.ok.injEq, Prod.mk.injEq] at h
    exact ⟨h.1.symm, congrArg Except.ok h.2⟩

-- Heartbeats are written like the other changes, but nobody is told whether they win.
theorem settle_mergeAlive (table : Deployment) (entry : Entry) :
    table.settle ((table.mergeAlive entry).map fun next => ((), next)) =
      ((table.settle ((table.mergeAlive entry).map fun next => (true, next))).1.map fun _ => (),
        (table.settle ((table.mergeAlive entry).map fun next => (true, next))).2) := by
  cases table.mergeAlive entry <;> rfl

theorem Sound.reread (h : table.Sound) : table.reread.Sound := by
  have hrows : ∀ key row', table.reread.rows.get? key = some row' →
      ∃ row, table.rows.get? key = some row ∧ row.reread = row' := by
    intro key row' hrow
    exact Option.map_eq_some_iff.mp ((table.rows.get?_reread key).symm.trans hrow)
  have hsilo : ∀ key row, table.rows.get? key = some row → row.entry.silo.reread = row.entry.silo :=
    fun key row hrow => Silo.reread_eq_self_iff.mpr (h.bare key row hrow).legible
  refine { keyed := ?_, bare := fun key row' hrow => ?_, gateway := fun key row' hrow => ?_ }
  · intro pair hpair
    obtain ⟨⟨key, row⟩, hmem, rfl⟩ := List.mem_map.mp hpair
    exact (row.entry.silo.rowKey_reread).trans (h.keyed _ hmem)
  · obtain ⟨row, hold, rfl⟩ := hrows key row' hrow
    have hbare := h.bare key row hold
    rwa [← hsilo key row hold] at hbare
  · obtain ⟨row, hold, rfl⟩ := hrows key row' hrow
    exact h.gateway key row hold

end Deployment

namespace FileTable

variable {α : Type} {table : FileTable} {files left : Files} {stored next : Deployment}

-- There is a document of the deployment, and the table can be read from it.
def Accepts (table : FileTable) (files : Files) (stored : Deployment) : Prop :=
  ∃ bytes, files.read (.inside table.folder (FileName.document table.deployment)) = .ok bytes ∧
    table.loaded (.ok bytes) = .ok stored

theorem id_of_loaded {bytes : ByteArray} (h : table.loaded (.ok bytes) = .ok stored) :
    stored.id = table.deployment := by
  unfold loaded at h
  dsimp only at h
  split at h
  · cases h
  · split at h
    · next hid => exact Except.ok.inj h ▸ hid
    · cases h

theorem legible_of_loaded {bytes : ByteArray} (h : table.loaded (.ok bytes) = .ok stored) : stored.Legible := by
  unfold loaded at h
  dsimp only at h
  split at h
  · cases h
  · next found hfound =>
    split at h
    · obtain rfl := Except.ok.inj h
      exact Deployment.legible_of_ofBytes? hfound
    · cases h

theorem loaded_document (h : stored.id = table.deployment) :
    table.loaded (.ok stored.document.toUTF8) = .ok stored.reread := by
  have hid : stored.reread.id = table.deployment := h
  simp only [loaded, stored.ofBytes?_document, if_pos hid]

theorem Accepts.id_eq (h : table.Accepts files stored) : stored.id = table.deployment := by
  obtain ⟨bytes, -, hloaded⟩ := h
  exact id_of_loaded hloaded

theorem Accepts.reread_eq (h : table.Accepts files stored) : stored.reread = stored := by
  obtain ⟨bytes, -, hloaded⟩ := h
  exact Deployment.reread_eq_self_iff.mpr (legible_of_loaded hloaded)

theorem Accepts.of_spares (h : table.Accepts files stored) (hspares : ∀ spared, files.Spares left spared) :
    table.Accepts left stored := by
  obtain ⟨bytes, hread, hloaded⟩ := h
  exact ⟨bytes, (hspares fun _ => True).read hread trivial, hloaded⟩

theorem Accepts.on_load (h : table.Accepts files stored) : table.load.on files = (.ok stored, files) := by
  obtain ⟨bytes, hread, hloaded⟩ := h
  rw [FileTable.on_load, hread, hloaded]

-- To save a table over an accepted document fails before the document is touched, or it puts there what comes back of
-- the table.
theorem Accepts.save (h : table.Accepts files stored) {place : Place} (hsettled : files.Settled table.folder place)
    (hnext : next.id = table.deployment) :
    (∃ fault left, (table.save next).on files = (.error (.io fault), left) ∧ table.Accepts left stored) ∨
    ∃ left, (table.save next).on files = (.ok (), left) ∧ table.Accepts left next.reread := by
  obtain ⟨-, fault, left, hsave, hdraft⟩ | ⟨-, left, hsave, halters, hdocument⟩ := save_spec hsettled next
  · refine Or.inl ⟨fault, left, hsave, h.of_spares fun spared => hdraft.spares fun _ _ _ hmem => ?_⟩
    rw [List.mem_singleton] at hmem
    exact FileName.draft_ne_document _ _ (Place.concat_injective hmem).symm
  · refine Or.inr ⟨left, hsave, _, Files.read_eq_ok.mpr ⟨_, ?_, hdocument⟩, loaded_document hnext⟩
    obtain ⟨bytes, hread, -⟩ := h
    obtain ⟨there, hreach, -⟩ := Files.read_eq_ok.mp hread
    obtain ⟨fault, -, hfault⟩ | hhere :=
      Files.reach_cases hsettled.opens (FileName.plain_document table.deployment)
    · cases hfault.symm.trans hreach
    · exact halters.keeps.reach hhere

-- The work fails for want of the files and leaves the document as it is, or it comes to the value and leaves a
-- document from which the table comes back as far as it can.
def Settles (table : FileTable) (files : Files) (stored : Deployment) (work : Disk α) (value : Except Fault α)
    (next : Deployment) : Prop :=
  (∃ fault left, work.on files = (.error (.io fault), left) ∧ table.Accepts left stored) ∨
  ∃ left, work.on files = (value, left) ∧ table.Accepts left next.reread

theorem Settles.answer {β : Type} {work : Disk α} {value : Except Fault α}
    (h : table.Settles files stored work value next) (answer : β) :
    table.Settles files stored (work >>= fun _ => pure answer) (value.map fun _ => answer) next := by
  obtain ⟨fault, left, hwork, haccepts⟩ | ⟨left, hwork, haccepts⟩ := h
  · exact Or.inl ⟨fault, left, by rw [Disk.on_bind, hwork], haccepts⟩
  · refine Or.inr ⟨left, ?_, haccepts⟩
    rw [Disk.on_bind, hwork]
    cases value <;> rfl

-- Without the lock there is no reading, and with it the reading shows the table.
theorem read_spec (h : table.Accepts files stored) (look : Deployment → Except Fault α) :
    (¬files.Locks table.folder table.deployment ∧
      ∃ fault left, (table.read look).on files = (.error (.io fault), left) ∧ table.Accepts left stored) ∨
    files.Locks table.folder table.deployment ∧
      ∃ left, (table.read look).on files = (look stored, left) ∧ table.Accepts left stored := by
  obtain ⟨hlocks, fault, hlock⟩ | ⟨hlocks, place, locked, hlock, hlocked⟩ := table.lock_spec table.deployment files
  · refine Or.inl ⟨hlocks, fault, files.made table.folder, ?_, h.of_spares (files.folds_makeFolders _).spares⟩
    rw [read, Disk.on_bind, hlock]
  · have haccepts := h.of_spares hlocked.spares
    refine Or.inr ⟨hlocks, locked, ?_, haccepts⟩
    simp only [read, Disk.on_bind, hlock, haccepts.on_load, Disk.on_ofExcept]

theorem read_settles (h : table.Accepts files stored) (look : Deployment → Except Fault α) :
    table.Settles files stored (table.read look) (look stored) stored := by
  rw [Settles, h.reread_eq]
  exact (read_spec h look).imp And.right And.right

theorem write_settles (h : table.Accepts files stored) (change : Deployment → Except Fault (Bool × Deployment))
    (hid : ∀ won next, change stored = .ok (won, next) → next.id = stored.id)
    (hlost : ∀ next, change stored = .ok (false, next) → next = stored) :
    table.Settles files stored (table.write change) (stored.settle (change stored)).1
      (stored.settle (change stored)).2 := by
  obtain ⟨-, fault, hlock⟩ | ⟨-, place, locked, hlock, hlocked⟩ := table.lock_spec table.deployment files
  · refine Or.inl ⟨fault, files.made table.folder, ?_, h.of_spares (files.folds_makeFolders _).spares⟩
    rw [write, Disk.on_bind, hlock]
  have haccepts := h.of_spares hlocked.spares
  have hstill : table.Accepts locked stored.reread := by rwa [haccepts.reread_eq]
  simp only [Settles, write, Disk.on_bind, hlock, haccepts.on_load, Disk.on_ofExcept]
  cases hchange : change stored with
  | error fault => exact Or.inr ⟨locked, rfl, hstill⟩
  | ok result =>
    obtain ⟨won, next⟩ := result
    cases won with
    | false =>
      rw [hlost next hchange]
      exact Or.inr ⟨locked, rfl, hstill⟩
    | true =>
      simp only [if_true, Disk.on_bind]
      obtain ⟨fault, left, hsave, hleft⟩ | ⟨left, hsave, hleft⟩ :=
        haccepts.save hlocked.settled ((hid true next hchange).trans h.id_eq)
      · exact Or.inl ⟨fault, left, by rw [hsave], hleft⟩
      · exact Or.inr ⟨left, by rw [hsave]; rfl, hleft⟩

-- A call on an accepted document is a call on its table, unless the files fail.
theorem act_settles (h : table.Accepts files stored) (drawn : UInt64) {call : Call}
    (hcall : ∀ deployment, call ≠ .delete deployment) :
    table.Settles files stored (table.act drawn call) (stored.answer drawn call).1 (stored.answer drawn call).2 := by
  cases call with
  | establish create =>
    cases create with
    | false => exact read_settles h _
    | true =>
      refine (write_settles h (fun stored => .ok (stored.establish drawn)) (fun won next hnext => ?_)
        fun next hnext => ?_).answer true
      · rw [← stored.id_establish drawn, Except.ok.inj hnext]
      · exact Deployment.eq_of_establish (Except.ok.inj hnext)
  | delete deployment => exact absurd rfl (hcall deployment)
  | readRow silo => exact read_settles h _
  | readAll => exact read_settles h _
  | insertRow entry expected =>
    exact write_settles h _ (fun _ _ => Deployment.id_of_insertRow) fun _ => Deployment.eq_of_lost_insertRow
  | updateRow entry etag expected =>
    exact write_settles h _ (fun _ _ => Deployment.id_of_updateRow) fun _ => Deployment.eq_of_lost_updateRow
  | mergeAlive entry =>
    have hwrite :=
      (write_settles h (fun stored => (stored.mergeAlive entry).map fun next => (true, next)) ?_ ?_).answer ()
    · rw [Deployment.answer, Deployment.settle_mergeAlive]
      exact hwrite
    · intro won next hnext
      obtain ⟨-, hmerge⟩ := Deployment.mergeAlive_of_map hnext
      exact Deployment.id_of_mergeAlive hmerge
    · intro next hnext
      cases (Deployment.mergeAlive_of_map hnext).1

-- The files after calls that are made one after the other, each with the incarnation that it may take.
def after (table : FileTable) (files : Files) : List (UInt64 × Call) → Files
  | [] => files
  | (drawn, call) :: rest => table.after (table.answer drawn call files).2 rest

theorem answer_of_accepts (h : table.Accepts files stored) (drawn : UInt64) {call : Call}
    (hcall : ∀ deployment, call ≠ .delete deployment) :
    ((∃ fault, (table.answer drawn call files).1 = .error (.io fault)) ∧
      table.Accepts (table.answer drawn call files).2 stored) ∨
    (table.answer drawn call files).1 = (stored.answer drawn call).1 ∧
      table.Accepts (table.answer drawn call files).2 (stored.answer drawn call).2.reread := by
  obtain ⟨fault, left, hact, haccepts⟩ | ⟨left, hact, haccepts⟩ := act_settles h drawn hcall
  · have hanswer : table.answer drawn call files = (.error (.io fault), left) := hact
    rw [hanswer]
    exact Or.inl ⟨⟨fault, rfl⟩, haccepts⟩
  · have hanswer : table.answer drawn call files = ((stored.answer drawn call).1, left) := hact
    rw [hanswer]
    exact Or.inr ⟨rfl, haccepts⟩

end FileTable

-- The call deletes nothing, and what it writes has been put together step by step.
structure Call.Proper (call : Call) : Prop where
  stays : ∀ deployment, call ≠ .delete deployment
  built : ∀ entry stamp, call.write? = some (entry, stamp) → entry.Built ∧ entry.silo.Bare

theorem Call.Effect.version_ne_none {call : Call} {won : Bool} {before after : Deployment}
    (h : call.Effect won before after) (hcall : ∀ deployment, call ≠ .delete deployment)
    (hversion : before.version ≠ none) : after.version ≠ none := by
  cases h with
  | still _ hstill =>
    rw [Deployment.version_eq_of_still hstill]
    exact hversion
  | write _ _ _ _ _ hafter =>
    rw [hafter]
    exact nofun
  | stamp _ _ hnone => exact absurd hnone hversion
  | delete _ hdelete => exact absurd hdelete (hcall _)

namespace FileTable

variable {table : FileTable} {files : Files} {stored : Deployment}

theorem accepts_after (h : table.Accepts files stored) (hsound : stored.Sound) {requests : List (UInt64 × Call)}
    (hproper : ∀ request ∈ requests, request.2.Proper) :
    ∃ next : Deployment, table.Accepts (table.after files requests) next ∧ next.Sound ∧
      (stored.version ≠ none → next.version ≠ none) := by
  induction requests generalizing files stored with
  | nil => exact ⟨stored, h, hsound, fun hversion => hversion⟩
  | cons request rest ih =>
    obtain ⟨drawn, call⟩ := request
    obtain ⟨hfirst, hrest⟩ := List.forall_mem_cons.mp hproper
    obtain ⟨-, haccepts⟩ | ⟨-, haccepts⟩ := answer_of_accepts h drawn hfirst.stays
    · exact ih haccepts hsound hrest
    · have heffect := stored.answer_effect drawn call
      obtain ⟨next, hnext, hkept, hstamped⟩ := ih haccepts (heffect.sound hsound hfirst.built).reread hrest
      exact ⟨next, hnext, hkept, fun hversion => hstamped (heffect.version_ne_none hfirst.stays hversion)⟩

-- No call finds the document corrupted, and if the rows can be listed the list agrees with the readings of them.
structure ReadsAgree (table : FileTable) (files : Files) : Prop where
  readable : ∀ drawn call corruption, (∀ deployment, call ≠ .delete deployment) →
    (table.answer drawn call files).1 ≠ .error (.corrupted corruption)
  agrees : ∀ drawn all, (table.answer drawn .readAll files).1 = .ok all →
    all.Agrees fun silo => (table.answer drawn (.readRow silo) files).1

-- Whether the lock can be taken decides about all readings alike.
theorem readings_of_accepts (h : table.Accepts files stored) (drawn : UInt64) :
    (¬files.Locks table.folder table.deployment ∧
      ∃ fault, (table.answer drawn .readAll files).1 = .error (.io fault)) ∨
    files.Locks table.folder table.deployment ∧ (table.answer drawn .readAll files).1 = stored.readAll ∧
      ∀ silo, (table.answer drawn (.readRow silo) files).1 = stored.readRow silo := by
  obtain ⟨hlocks, fault, left, hread, -⟩ | ⟨hlocks, left, hread, -⟩ := read_spec h Deployment.readAll
  · exact Or.inl ⟨hlocks, fault, congrArg Prod.fst hread⟩
  · refine Or.inr ⟨hlocks, congrArg Prod.fst hread, fun silo => ?_⟩
    obtain ⟨hnot, -⟩ | ⟨-, left', hrow, -⟩ := read_spec h fun stored => stored.readRow silo
    · exact absurd hlocks hnot
    · exact congrArg Prod.fst hrow

theorem readsAgree_of_sound (h : table.Accepts files stored) (hsound : stored.Sound) : table.ReadsAgree files where
  readable drawn call corruption hcall hcorrupted := by
    obtain ⟨⟨fault, hanswer⟩, -⟩ | ⟨hanswer, -⟩ := answer_of_accepts h drawn hcall
    · cases hanswer.symm.trans hcorrupted
    · cases Deployment.fault_of_answer (hanswer.symm.trans hcorrupted)
  agrees drawn all hall := by
    obtain ⟨-, fault, hanswer⟩ | ⟨-, hanswer, hrows⟩ := readings_of_accepts h drawn
    · cases hanswer.symm.trans hall
    · obtain ⟨stamp, hversion, rfl⟩ := Deployment.readAll_eq_ok (hanswer.symm.trans hall)
      rw [funext hrows]
      exact hsound.agrees hversion

-- A document that puts rows under the keys of their silos, and shows no port 0, is read like any table and stays
-- so, whatever is put together and written to it. No other document with a stamp is read like that.
theorem sound_documents_read_alike (table : FileTable) (files : Files) (stored : Deployment)
    (h : table.Accepts files stored) :
    (stored.Sound → ∀ requests : List (UInt64 × Call), (∀ request ∈ requests, request.2.Proper) →
      table.ReadsAgree (table.after files requests) ∧
      (stored.version ≠ none → (table.after files requests).Locks table.folder table.deployment →
        ∀ drawn, ∃ all, (table.answer drawn .readAll (table.after files requests)).1 = .ok all)) ∧
    ((∀ key row, stored.rows.get? key = some row → row.entry.silo.Bare) → stored.version ≠ none →
      files.Locks table.folder table.deployment → table.ReadsAgree files → stored.Sound) := by
  refine ⟨fun hsound requests hproper => ?_, fun hbare hversion hlocks hagree => ?_⟩
  · obtain ⟨next, haccepts, hnext, hstamped⟩ := accepts_after h hsound hproper
    refine ⟨readsAgree_of_sound haccepts hnext, fun hversion hlocks drawn => ?_⟩
    obtain ⟨stamp, hstamp⟩ := Option.ne_none_iff_exists'.mp (hstamped hversion)
    obtain ⟨hnot, -⟩ | ⟨-, hanswer, -⟩ := readings_of_accepts haccepts drawn
    · exact absurd hlocks hnot
    · exact ⟨_, hanswer.trans (Deployment.readAll_of_version hstamp)⟩
  · obtain ⟨stamp, hstamp⟩ := Option.ne_none_iff_exists'.mp hversion
    obtain ⟨hnot, -⟩ | ⟨-, hanswer, hrows⟩ := readings_of_accepts h 0
    · exact absurd hlocks hnot
    · have hall := hagree.agrees 0 _ (hanswer.trans (Deployment.readAll_of_version hstamp))
      rw [funext hrows] at hall
      exact Deployment.sound_of_agrees hbare hstamp hall

-- A folder with one document in it.
def filed (stored : Deployment) : Files :=
  ⟨[(["data"], .folder), (["data", "dep.json"], .file stored.document.toUTF8)]⟩

theorem accepts_filed {stored : Deployment} (h : stored.id = "dep") (hreread : stored.reread = stored) :
    Accepts ⟨"data", "dep"⟩ (filed stored) stored := by
  have hloaded : FileTable.loaded ⟨"data", "dep"⟩ (.ok stored.document.toUTF8) = .ok stored.reread := loaded_document h
  rw [hreread] at hloaded
  exact ⟨_, Files.read_eq_ok.mpr ⟨["data", "dep.json"], rfl, rfl⟩, hloaded⟩

-- One silo with a gateway, and what is written to its table then: another silo and a heartbeat.
def soundDocument : Deployment :=
  let entry := (Entry.fresh (.onLoopback 1 10) "a" .epoch).withGatewayPort (some 30000)
  (Deployment.mk "dep" (some ⟨2, "u"⟩) .empty 0 7).commit entry ⟨2, "u"⟩

def additions : List (UInt64 × Call) :=
  let entry := (Entry.fresh (.onLoopback 2 10) "b" .epoch).withGatewayPort (some 0)
  [(7, .insertRow entry ⟨3, Deployment.tokenOf 0 9⟩), (7, .mergeAlive (.fresh (.onLoopback 1 10) "a" .epoch))]

theorem sound_documents_read_alike_added :
    let table : FileTable := ⟨"data", "dep"⟩
    let files := filed soundDocument
    table.Accepts files soundDocument ∧ soundDocument.Sound ∧ (∀ request ∈ additions, request.2.Proper) ∧
    table.ReadsAgree (table.after files additions) ∧
    files.Locks "data" "dep" ∧ ∃ all, (table.answer 7 .readAll files).1 = .ok all := by
  intro table files
  have haccepts : table.Accepts files soundDocument := accepts_filed rfl (by decide +kernel)
  have hsound : soundDocument.Sound :=
    (Deployment.sound_of_rows_empty rfl).commit (.gatewayPort (.fresh _ _ _) _) (by decide) _
  have hproper : ∀ request ∈ additions, request.2.Proper := by
    refine List.forall_mem_cons.mpr ⟨⟨nofun, ?_⟩, List.forall_mem_singleton.mpr ⟨nofun, fun _ _ h => by cases h⟩⟩
    rintro _ _ ⟨⟩
    exact ⟨.gatewayPort (.fresh _ _ _) _, by decide⟩
  have hlocks : files.Locks "data" "dep" := ⟨by decide +kernel, by decide +kernel⟩
  have hread := (sound_documents_read_alike table files soundDocument haccepts).1 hsound
  exact ⟨haccepts, hsound, hproper, (hread additions hproper).1, hlocks,
    (hread [] (List.forall_mem_nil _)).2 (Option.some_ne_none _) hlocks 7⟩

-- A silo with a gateway at port 0, in a row that stands under its key and under the key of another silo.
def unsoundRow : Row :=
  ⟨{ Entry.fresh (.onLoopback 1 10) "a" .epoch with status := .active, gatewayPort := some 0 }, ⟨"r"⟩⟩

def unsoundDocument : Deployment :=
  ⟨"dep", some ⟨3, "v"⟩, .ofList [("127.0.0.1-1-10", unsoundRow), ("127.0.0.1-2-10", unsoundRow)], 0, 9⟩

theorem unsound_document_accepted :
    let table : FileTable := ⟨"data", "dep"⟩
    let files := filed unsoundDocument
    table.Accepts files unsoundDocument ∧
    (table.answer 7 .readAll files).1 = .ok ⟨[unsoundRow, unsoundRow], ⟨3, "v"⟩⟩ ∧
    (table.answer 7 (.readRow (.onLoopback 2 10)) files).1 = .ok ⟨[unsoundRow], ⟨3, "v"⟩⟩ ∧
    unsoundRow.entry.silo = .onLoopback 1 10 ∧ unsoundRow.entry.gateway? = some (.v4 .loopback 0) ∧
    ¬table.ReadsAgree files := by
  intro table files
  have haccepts : table.Accepts files unsoundDocument := accepts_filed rfl (by decide +kernel)
  have hlocks : files.Locks "data" "dep" := ⟨by decide +kernel, by decide +kernel⟩
  obtain ⟨hnot, -⟩ | ⟨-, hall, hrows⟩ := readings_of_accepts haccepts 7
  · exact absurd hlocks hnot
  have hsorted : (Snapshot.of unsoundDocument.rows.values ⟨3, "v"⟩).rows = [unsoundRow, unsoundRow] := by
    have hvalues : unsoundDocument.rows.values = List.replicate 2 unsoundRow := by decide +kernel
    rw [hvalues]
    exact List.perm_replicate.mp (Snapshot.perm_rows_of _ _)
  have hall : (table.answer 7 .readAll files).1 = .ok ⟨[unsoundRow, unsoundRow], ⟨3, "v"⟩⟩ := by
    rw [← hsorted]
    exact hall
  have hrow : (table.answer 7 (.readRow (.onLoopback 2 10)) files).1 = .ok ⟨[unsoundRow], ⟨3, "v"⟩⟩ := by
    have hversion : unsoundDocument.version = some ⟨3, "v"⟩ := rfl
    have hget : unsoundDocument.rows.get? (Silo.onLoopback 2 10).rowKey = some unsoundRow := by decide +kernel
    rw [hrows, Deployment.readRow_of_version _ hversion, hget]
    rfl
  refine ⟨haccepts, hall, hrow, rfl, rfl, fun hagree => ?_⟩
  exact absurd (hagree.agrees 7 _ hall).nodup (by decide)

end FileTable
end Muster
