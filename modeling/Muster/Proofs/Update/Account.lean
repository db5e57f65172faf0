import Muster.Proofs.Update.World

-- What the log of a world tells about it. Every party keeps to the conduct of its task, whatever the
-- others do in between.
namespace Muster.Updater

-- Calls one after the other, each on the table that the one before it left.
def Linked (table : Deployment) (log : List Exchange) : Prop :=
  log.map Exchange.turn = table.turns (log.map Exchange.operation)

namespace Linked

variable {table : Deployment} {exchange : Exchange} {log past later : List Exchange}

theorem concat (h : Linked table log) (hbefore : exchange.before = table.after (log.map Exchange.operation)) :
    Linked table (log ++ [exchange]) := by
  have hturn : exchange.turn = ⟨table.after (log.map Exchange.operation), exchange.operation⟩ := by
    rw [← hbefore, Exchange.turn]
  have hlog : log.map Exchange.turn = table.turns (log.map Exchange.operation) := h
  simp only [Linked, List.map_append, List.map_singleton, Deployment.turns_append, Deployment.turns, hlog, hturn]

theorem append (h : Linked table (past ++ later)) :
    Linked table past ∧ Linked (table.after (past.map Exchange.operation)) later := by
  rw [Linked, List.map_append, List.map_append, Deployment.turns_append] at h
  exact List.append_inj h (by rw [List.length_map, Deployment.length_turns, List.length_map])

theorem before_eq (h : Linked table (exchange :: later)) : exchange.before = table :=
  congrArg Deployment.Turn.before (List.cons.inj h).1

theorem tail (h : Linked table (exchange :: later)) : Linked exchange.after later := by
  have hturn : Deployment.Turn.mk table exchange.operation = exchange.turn := by
    rw [Exchange.turn, h.before_eq]
  have hlater : later.map Exchange.turn =
      (Deployment.Turn.mk table exchange.operation).after.turns (later.map Exchange.operation) :=
    (List.cons.inj h).2
  rwa [hturn, exchange.after_turn] at hlater

-- What every call leaves as it was, all of them leave as it was.
theorem view_eq (h : Linked table log) (view : Deployment → α)
    (hview : ∀ exchange ∈ log, view exchange.after = view exchange.before) :
    view (table.after (log.map Exchange.operation)) = view table := by
  induction log generalizing table with
  | nil => rfl
  | cons exchange log ih =>
      have hhead := hview exchange List.mem_cons_self
      rw [h.before_eq] at hhead
      have hrest := ih h.tail fun other hmem => hview other (List.mem_cons_of_mem _ hmem)
      rw [← hhead, ← hrest, ← exchange.after_turn, Exchange.turn, h.before_eq]
      rfl

theorem wins_eq (h : Linked table log) :
    Deployment.wins (table.turns (log.map Exchange.operation)) = log.countP Exchange.won := by
  rw [← h, Deployment.wins, List.countP_map]
  congr 1
  funext exchange
  exact exchange.won_eq_isSome.symm

end Linked

namespace World

-- The log is how the table came about, its calls were allowed when they were made, and each party has
-- come as far as its own calls say.
structure Accounted (origin : Deployment) (world : World) : Prop where
  linked : Linked origin world.log
  table : world.table = origin.after (world.log.map Exchange.operation)
  task : ∀ exchange ∈ world.log, (world.parties[exchange.party]?).map Party.task = some exchange.task
  may : ∀ past exchange later, world.log = past ++ exchange :: later →
    exchange.task.May (stageOf exchange.party past) exchange.call
  keeps : ∀ (index : Nat) (party : Party), world.parties[index]? = some party →
    party.rest.Keeps party.task.conduct Stage.Ends (stageOf index world.log)

variable {origin : Deployment} {world : World}

theorem accounted_start (origin : Deployment) : (start origin).Accounted origin where
  linked := rfl
  table := rfl
  task := by simp [start]
  may := by simp [start]
  keeps := by simp [start]

theorem task_goOn {index : Nat} {party : Party} (h : world.parties[index]? = some party)
    (rest : Plan (Except UpdateError (Option Entry))) (other : Nat) :
    ((world.goOn index party rest).parties[other]?).map Party.task =
      (world.parties[other]?).map Party.task := by
  simp only [goOn, List.getElem?_set]
  split
  · next heq =>
      subst heq
      split
      · rw [h, Option.map_some, Option.map_some]
      · next hlen => simp [List.getElem?_eq_none (Nat.le_of_not_lt hlen)] at h
  · rfl

theorem keeps_goOn (stage : Nat → Stage) {index : Nat} {party : Party}
    {rest : Plan (Except UpdateError (Option Entry))}
    (hrest : rest.Keeps party.task.conduct Stage.Ends (stage index))
    (hothers : ∀ other party', other ≠ index → world.parties[other]? = some party' →
      party'.rest.Keeps party'.task.conduct Stage.Ends (stage other))
    (other : Nat) (party' : Party) (h : (world.goOn index party rest).parties[other]? = some party') :
    party'.rest.Keeps party'.task.conduct Stage.Ends (stage other) := by
  simp only [goOn, List.getElem?_set] at h
  split at h
  · next heq =>
      subst heq
      split at h
      · obtain rfl := Option.some.inj h
        exact hrest
      · cases h
  · next hne => exact hothers other party' (fun heq => hne heq.symm) h

theorem Accounted.goOn (h : world.Accounted origin) {index : Nat} {party : Party}
    (hparty : world.parties[index]? = some party) {rest : Plan (Except UpdateError (Option Entry))}
    (hrest : rest.Keeps party.task.conduct Stage.Ends (stageOf index world.log)) :
    (world.goOn index party rest).Accounted origin where
  linked := h.linked
  table := h.table
  task exchange hmem := (task_goOn hparty rest _).trans (h.task exchange hmem)
  may := h.may
  keeps := keeps_goOn (stageOf · world.log) hrest fun other party' _ => h.keeps other party'

-- A party that is not there yet has made no call.
theorem Accounted.party_lt (h : world.Accounted origin) {exchange : Exchange} (hmem : exchange ∈ world.log) :
    exchange.party < world.parties.length := by
  have htask := h.task exchange hmem
  apply Decidable.byContradiction
  intro hlt
  simp [List.getElem?_eq_none (Nat.le_of_not_lt hlt)] at htask

theorem Accounted.tell (h : world.Accounted origin) (event : Event) :
    { world with told := world.told ++ [event] }.Accounted origin :=
  ⟨h.linked, h.table, h.task, h.may, h.keeps⟩

theorem Accounted.enter (h : world.Accounted origin) (task : Task) (policy : Policy) :
    (world.move (.enter task policy)).Accounted origin where
  linked := h.linked
  table := h.table
  task exchange hmem := by
    simp only [World.move]
    rw [List.getElem?_append_left (h.party_lt hmem)]
    exact h.task exchange hmem
  may := h.may
  keeps index party hparty := by
    simp only [World.move, List.getElem?_append, List.getElem?_singleton] at hparty ⊢
    split at hparty
    · exact h.keeps index party hparty
    · next hlt =>
        split at hparty
        · next hindex =>
            obtain rfl := Option.some.inj hparty
            have hnone : ∀ exchange ∈ world.log, exchange.party ≠ index := by
              intro exchange hmem
              have := h.party_lt hmem
              omega
            have hidle : stageOf index world.log = .idle := stageOf_append_of_ne [] hnone
            rw [hidle]
            exact task.keeps_plan policy
        · cases hparty

theorem Accounted.ask (h : world.Accounted origin) {index : Nat} {party : Party} {call : Call}
    {next : call.Answer → Plan (Except UpdateError (Option Entry))} (drawn : UInt64)
    (hparty : world.parties[index]? = some party) (hrest : party.rest = .ask call next)
    {exchange : Exchange} (hexchange : exchange = ⟨index, party.task, drawn, call, world.table⟩) :
    ((world.take exchange).goOn index party (next ((world.table.answer drawn call).1))).Accounted origin := by
  have hkeeps := h.keeps index party hparty
  rw [hrest] at hkeeps
  have hbefore : exchange.before = origin.after (world.log.map Exchange.operation) := by
    rw [hexchange, ← h.table]
  constructor
  case linked => exact h.linked.concat hbefore
  case table =>
    simp only [table_goOn, table_take, log_goOn, log_take, List.map_append, List.map_singleton,
      Deployment.after_append, Deployment.after]
    rw [← hbefore, ← Exchange.turn, Exchange.after_turn]
  case task =>
    intro other hmem
    have hparty' : (world.take exchange).parties[index]? = some party := hparty
    rw [task_goOn hparty']
    rcases List.mem_append.mp hmem with hmem | hmem
    · exact h.task other hmem
    · obtain rfl := List.mem_singleton.mp hmem
      subst hexchange
      simp only [parties_take, hparty, Option.map_some]
  case may =>
    intro past other later hlog
    simp only [log_goOn, log_take] at hlog
    rcases List.eq_nil_or_concat later with rfl | ⟨later, last, rfl⟩
    · obtain ⟨rfl, heq⟩ := List.append_inj' hlog rfl
      obtain rfl := (List.cons.inj heq).1
      subst hexchange
      exact hkeeps.1
    · rw [List.concat_eq_append, ← List.cons_append, ← List.append_assoc] at hlog
      obtain ⟨hlog, -⟩ := List.append_inj' hlog rfl
      exact h.may past other later hlog
  case keeps =>
    have hstage : stageOf index (world.log ++ [exchange]) =
        (stageOf index world.log).next call (world.table.answer drawn call).1 := by
      subst hexchange
      exact stageOf_concat_self world.log ⟨index, party.task, drawn, call, world.table⟩
    apply keeps_goOn (stageOf · (world.log ++ [exchange]))
    · rw [hstage]
      exact hkeeps.2 _
    · intro other party' hne hother
      have hnone : ∀ exchange' ∈ [exchange], exchange'.party ≠ other := by
        simp only [List.mem_singleton, forall_eq, hexchange]
        exact hne.symm
      rw [stageOf_append_of_ne _ hnone]
      exact h.keeps other party' hother

theorem Accounted.move (h : world.Accounted origin) (move : Move) : (world.move move).Accounted origin := by
  cases move with
  | enter task policy => exact h.enter task policy
  | step index now chance drawn =>
      simp only [World.move]
      cases hparty : world.parties[index]? with
      | none => exact h
      | some party =>
          have hkeeps := h.keeps index party hparty
          cases hrest : party.rest with
          | done result =>
              simp only [hrest]
              exact h
          | ask call next =>
              simp only [hrest]
              exact h.ask drawn hparty hrest rfl
          | wait delay next =>
              rw [hrest] at hkeeps
              simp only [hrest]
              exact h.goOn hparty hkeeps
          | chance next =>
              rw [hrest] at hkeeps
              simp only [hrest]
              exact h.goOn hparty (hkeeps chance)
          | clock next =>
              rw [hrest] at hkeeps
              simp only [hrest]
              exact h.goOn hparty (hkeeps now)
          | publish event next =>
              rw [hrest] at hkeeps
              simp only [hrest]
              have hgoOn : (world.goOn index party next).Accounted origin := h.goOn hparty hkeeps
              exact hgoOn.tell event

theorem Accounted.after (h : world.Accounted origin) (moves : List Move) :
    (world.after moves).Accounted origin := by
  induction moves generalizing world with
  | nil => exact h
  | cons move moves ih => exact ih (h.move move)

end World
end Muster.Updater
