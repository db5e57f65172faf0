import Muster.Proofs.Update.World
import Muster.Update.Surroundings

-- A party that has the table to itself takes the steps that its plan takes when it is carried out.
namespace Muster.Updater.World

theorem party_goOn {world : World} {index : Nat} {party : Party} (h : world.parties[index]? = some party)
    (rest : Plan (Except UpdateError (Option Entry))) :
    (world.goOn index party rest).parties[index]? = some { party with rest } := by
  have hlt : index < world.parties.length := (List.getElem?_eq_some_iff.mp h).1
  rw [goOn, List.getElem?_set_self hlt]

-- Nobody else around: the table answers, and nobody hears of events.
def alone (clock : Clock) (now : Instant) (chance : Chance) (drawn : UInt64) : Surroundings Deployment where
  ask call := Work.act fun table => table.answer drawn call
  tell _ := pure ()
  clock := clock
  now := now
  chance := chance

-- After some steps of a party table and result are those that its plan comes to when it is carried out.
def CarriesOut (around : Surroundings Deployment) (world : World) (index : Nat) (task : Task)
    (rest : Plan (Except UpdateError (Option Entry))) (drawn : UInt64) : Prop :=
  ∃ steps,
    (world.after (List.replicate steps (.step index around.now around.chance drawn))).table =
      (rest.carryOut around world.table).state ∧
    (world.after (List.replicate steps (.step index around.now around.chance drawn))).parties[index]? =
      some ⟨task, .done (rest.carryOut around world.table).value⟩

theorem CarriesOut.step {around : Surroundings Deployment} {world world' : World} {index : Nat} {task : Task}
    {rest next : Plan (Except UpdateError (Option Entry))} {drawn : UInt64}
    (h : world'.CarriesOut around index task next drawn)
    (hmove : world.move (.step index around.now around.chance drawn) = world')
    (hstate : (rest.carryOut around world.table).state = (next.carryOut around world'.table).state)
    (hvalue : (rest.carryOut around world.table).value = (next.carryOut around world'.table).value) :
    world.CarriesOut around index task rest drawn := by
  obtain ⟨steps, htable, hparty⟩ := h
  refine ⟨steps + 1, ?_, ?_⟩
  · rw [List.replicate_succ, after, hmove, htable, hstate]
  · rw [List.replicate_succ, after, hmove, hparty, hvalue]

theorem carriesOut_alone (clock : Clock) (now : Instant) (chance : Chance) (drawn : UInt64) (index : Nat)
    (task : Task) (rest : Plan (Except UpdateError (Option Entry))) (world : World)
    (h : world.parties[index]? = some ⟨task, rest⟩) :
    world.CarriesOut (alone clock now chance drawn) index task rest drawn := by
  induction rest generalizing world with
  | done value => exact ⟨0, rfl, h⟩
  | ask call next ih =>
      let exchange : Exchange := ⟨index, task, drawn, call, world.table⟩
      have hparty : (world.take exchange).parties[index]? = some ⟨task, .ask call next⟩ := h
      exact (ih exchange.answer _ (party_goOn hparty _)).step (by simp only [move, h]; rfl) rfl rfl
  | wait delay next ih => exact (ih _ (party_goOn h _)).step (by simp only [move, h]) rfl rfl
  | chance next ih =>
      exact (ih chance _ (party_goOn h _)).step (by simp only [move, alone, h]) rfl rfl
  | clock next ih =>
      exact (ih now _ (party_goOn h _)).step (by simp only [move, alone, h]) rfl rfl
  | publish event next ih =>
      have hnext : ({ world.goOn index ⟨task, .publish event next⟩ next with
          told := world.told ++ [event] } : World).parties[index]? = some ⟨task, next⟩ := party_goOn h _
      exact (ih _ hnext).step (by simp only [move, h]) rfl rfl

end Muster.Updater.World
