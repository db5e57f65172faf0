import Muster.Proofs.Registry.Roll
import Muster.Proofs.Update.Serving

-- A party that has a table to itself changes the roll in one round, and comes to what the roll comes to.
namespace Muster

namespace Updater

open Plan

variable {σ : Type} {around : Surroundings σ} {deployment : String} {filed : Prop} {holds : σ → Deployment → Prop}
  {state : σ} {table : Deployment} {roll? : Option Roll} {α : Type}

-- The table in the state keeps the roll.
def Held (holds : σ → Deployment → Prop) (roll? : Option Roll) (state : σ) : Prop :=
  ∃ table, holds state table ∧ table.Keeps roll?

-- Whoever has got on the roll of a deployment has a row with the entry that was brought, and nothing else in it.
structure Admitted (deployment : String) (entry : Entry) (roll? : Option Roll) (table : Deployment) : Prop where
  keeps : table.Keeps (Roll.enter deployment entry roll?).2
  row : (Roll.enter deployment entry roll?).1 = .ok () →
    ∃ etag, table.rows.get? entry.silo.rowKey = some ⟨entry.withStatus .created, etag⟩

theorem insertRound_yields (hserves : around.Serves deployment filed holds) (hheld : Held holds roll? state)
    {entry : Entry} (hbare : entry.silo.Bare) (hlegible : filed → entry.Legible) :
    (insertRound (entry.withStatus .created)).Yields around state fun round state' =>
      round = .settled (Roll.enter deployment entry roll?).1 ∧
        ∃ table, holds state' table ∧ Admitted deployment entry roll? table := by
  obtain ⟨table, hholds, hkeeps⟩ := hheld
  refine yields_call hserves hholds (.readRow entry.silo) (by simp) (fun _ => trivial) fun drawn state' hholds' => ?_
  simp only [Entry.silo_withStatus, Deployment.answer]
  cases roll? with
  | none =>
    rw [Deployment.readRow, Deployment.stamp_eq_error hkeeps.1, hserves.id hholds]
    exact ⟨rfl, table, hholds', hkeeps, fun hok => by cases hok⟩
  | some roll =>
    obtain ⟨snapshot, hread, hversion, hrow⟩ := hkeeps.readRow hbare
    rw [hread]
    simp only [Plan.bind, hrow]
    cases hget : table.rows.get? entry.silo.rowKey with
    | some row =>
      obtain ⟨member, hmember, -⟩ := hkeeps.member_of_get? hbare hget
      have henter : Roll.enter deployment entry (some roll) = (.error (.alreadyExists entry.silo), some roll) := by
        simp only [Roll.enter, hmember]
      rw [henter]
      exact ⟨rfl, table, hholds', by rwa [henter], fun hok => by rw [henter] at hok; cases hok⟩
    | none =>
      have henter : Roll.enter deployment entry (some roll) =
          (.ok (), some (roll.put entry.silo ⟨entry, .created⟩)) := by
        simp only [Roll.enter, hkeeps.members_eq_none hbare hget]
      rw [henter]
      refine yields_call hserves hholds' (.insertRow (entry.withStatus .created) snapshot.version) (by simp)
        (fun hfiled => (hlegible hfiled).withStatus .created) fun drawn' state'' hholds'' => ?_
      have hinsert : table.insertRow (entry.withStatus .created) snapshot.version =
          .ok (true, table.commit (entry.withStatus .created) snapshot.version) :=
        Deployment.insertRow_of_free hversion hget
      simp only [Deployment.answer, hinsert, Deployment.settle] at hholds'' ⊢
      refine yields_publish.mpr ⟨rfl, _, hserves.tell _ hholds'', ?_, fun _ => ⟨⟨table.token 1⟩, ?_⟩⟩
      · rw [henter]
        exact hkeeps.commit ⟨entry, .created⟩ hversion hbare rfl rfl
      · exact (Deployment.get?_commit _ _ _ _).trans (if_pos rfl)

theorem reviseRound_yields (hserves : around.Serves deployment filed holds) (hheld : Held holds roll? state)
    {silo : Silo} (hbare : silo.Bare) (hnow : filed → around.now.Legible) (target : Phase) (seen : List Entry) :
    (reviseRound silo (moveTo silo target.status) seen).Yields around state fun (_, round) state' =>
      ∃ result, round = .settled result ∧
        result.map (fun _ => ()) = (Roll.shift deployment silo target.toward roll?).1 ∧
        Held holds (Roll.shift deployment silo target.toward roll?).2 state' := by
  obtain ⟨table, hholds, hkeeps⟩ := hheld
  refine yields_call hserves hholds (.readRow silo) (by simp) (fun _ => trivial) fun drawn state' hholds' => ?_
  simp only [Deployment.answer]
  cases roll? with
  | none =>
    rw [Deployment.readRow, Deployment.stamp_eq_error hkeeps.1, hserves.id hholds]
    exact ⟨_, rfl, rfl, table, hholds', hkeeps⟩
  | some roll =>
    obtain ⟨snapshot, hread, hversion, hrow⟩ := hkeeps.readRow hbare
    rw [hread]
    simp only [Plan.bind, hrow]
    cases hget : table.rows.get? silo.rowKey with
    | none =>
      simp only [Roll.shift, hkeeps.members_eq_none hbare hget]
      exact ⟨_, rfl, rfl, table, hholds', hkeeps⟩
    | some row =>
      obtain ⟨member, hmember, hstanding⟩ := hkeeps.member_of_get? hbare hget
      have hstatus : row.entry.status = member.phase.status := congrArg Entry.status hstanding
      simp only [Roll.shift, hmember, moveTo, Phase.toward, hstatus]
      rw [yields_now]
      by_cases hsame : member.phase = target
      · subst hsame
        simp only [if_true]
        exact ⟨_, rfl, rfl, table, hholds', hkeeps⟩
      rw [if_neg hsame, if_neg fun heq => hsame (Phase.status_injective heq)]
      by_cases hforward : member.phase.status.precedes target.status = true
      · simp only [if_pos hforward, if_neg (Ne.symm hsame)]
        have hsilo : row.entry.silo = silo := hkeeps.silo_of_get? hbare hget
        subst hsilo
        have hlegible : filed → ((row.entry.withStatus target.status).withAliveTime around.now).Legible := fun hfiled =>
          ((hserves.legible hfiled hholds _ row hget).withStatus target.status).withAliveTime (hnow hfiled)
        refine yields_call hserves hholds' (.updateRow _ row.etag snapshot.version) (by simp) hlegible
          fun drawn' state'' hholds'' => ?_
        generalize hentry : (row.entry.withStatus target.status).withAliveTime around.now = entry at hholds'' ⊢
        have hsilo : entry.silo = row.entry.silo := by rw [← hentry]; rfl
        have hupdate := Deployment.updateRow_of_found entry hversion (hsilo ▸ hget)
        simp only [Deployment.answer, hupdate, Deployment.settle] at hholds'' ⊢
        refine ⟨_, rfl, rfl, _, hholds'', ?_⟩
        rw [← hsilo]
        refine hkeeps.commit _ hversion (hsilo ▸ hbare) ?_ ?_
        · exact (hkeeps.bare _ _ hmember).2.trans hsilo.symm
        · rw [← hentry]
          exact congrArg (fun entry => Entry.withStatus entry target.status) hstanding
      · simp only [if_neg hforward]
        exact ⟨_, rfl, rfl, table, hholds', hkeeps⟩

theorem insert_yields (hserves : around.Serves deployment filed holds) (hheld : Held holds roll? state)
    {entry : Entry} (hbare : entry.silo.Bare) (hlegible : filed → entry.Legible) (policy : Policy) :
    (insert policy (entry.withStatus .created)).Yields around state fun result state' =>
      result = (Roll.enter deployment entry roll?).1 ∧
        ∃ table, holds state' table ∧ Admitted deployment entry roll? table := by
  have hround := insertRound_yields hserves hheld hbare hlegible
  refine (rounds_yields (fun value state' => value.2 = (Roll.enter deployment entry roll?).1 ∧
    ∃ table, holds state' table ∧ Admitted deployment entry roll? table) (hround.bind ?_) _ _).bind ?_
  · rintro _ state' ⟨rfl, hadmitted⟩
    exact ⟨_, rfl, rfl, hadmitted⟩
  · exact fun _ _ hends => hends

theorem updateStatus_yields (hserves : around.Serves deployment filed holds) (hheld : Held holds roll? state)
    {silo : Silo} (hbare : silo.Bare) (hnow : filed → around.now.Legible) (policy : Policy) (target : Phase) :
    (updateStatus policy silo target.status).Yields around state fun result state' =>
      result.map (fun _ => ()) = (Roll.shift deployment silo target.toward roll?).1 ∧
        Held holds (Roll.shift deployment silo target.toward roll?).2 state' := by
  have hround := reviseRound_yields hserves hheld hbare hnow target []
  refine (rounds_yields (fun value state' =>
    value.2.map (fun _ => ()) = (Roll.shift deployment silo target.toward roll?).1 ∧
      Held holds (Roll.shift deployment silo target.toward roll?).2 state') hround _ _).bind ?_
  rintro ⟨seen, result⟩ state' ⟨hresult, table, hholds, hkeeps⟩
  dsimp only
  split
  · split
    · exact yields_publish.mpr ⟨hresult, table, hserves.tell _ hholds, hkeeps⟩
    · exact ⟨hresult, table, hholds, hkeeps⟩
  · exact ⟨hresult, table, hholds, hkeeps⟩

end Updater

end Muster
