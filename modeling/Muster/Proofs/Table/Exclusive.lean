import Muster.Proofs.Table.Supply

-- Over a whole life of a table no token is given out twice, no stamp lets two writes win, and the
-- counter tells how many have won.
namespace Muster

theorem Version.counter_next (version : Version) (token : String) (h : version.counter.toInt < 2 ^ 63 - 1) :
    (version.next token).counter.toInt = version.counter.toInt + 1 := by
  have hmax : version.counter ≠ Int64.maxValue := by
    intro heq
    rw [heq] at h
    exact absurd h (by decide)
  have hlow := version.counter.le_toInt
  rw [Version.next, if_neg hmax, Int64.toInt_add]
  exact Int.bmod_eq_of_le (by simp; omega) (by simp; omega)

namespace Deployment

variable {table : Deployment} {operation : Operation} {operations past later : List Operation}

theorem token_one_ne_two (table : Deployment) : table.token 1 ≠ table.token 2 := by
  intro h
  have hsequence := congrArg UInt64.toNat (tokenOf_injective h).2
  simp only [UInt64.toNat_add, UInt64.reduceToNat] at hsequence
  omega

-- The tokens of one turn lie between the numbers of the table before it and after it.
theorem Ready.issued_head (h : table.Ready (operation :: later)) {token : String}
    (htoken : token ∈ (Turn.mk table operation).issued) :
    ∃ number : UInt64, token = tokenOf (Turn.mk table operation).after.incarnation number ∧
      number.toNat ≤ (Turn.mk table operation).after.sequence.toNat ∧
      (Turn.mk table operation).after.version ≠ none ∧
      ((Turn.mk table operation).drawn? = none →
        table.version ≠ none ∧ table.sequence.toNat < number.toNat) := by
  cases (Turn.mk table operation).course with
  | quiet _ _ _ _ hissued => simp [hissued] at htoken
  | write entry stamp hversion hafter _ hwon hdrawn hissued =>
      have hsome : table.version ≠ none := by simp [show table.version = some stamp from hversion]
      have hsequence := h.sequence_after hsome hdrawn
      have hlt := (Turn.mk table operation).after.sequence.toNat_lt
      rw [hwon, Option.isSome_some, if_pos rfl] at hsequence
      simp only [hissued, List.mem_cons, List.not_mem_nil, or_false] at htoken
      rw [show (Turn.mk table operation).after.incarnation = table.incarnation by rw [hafter]; rfl]
      have hafterVersion : (Turn.mk table operation).after.version ≠ none := by simp [hafter, commit]
      rcases htoken with rfl | rfl
      · refine ⟨table.sequence + 1, rfl, ?_, hafterVersion, fun _ => ⟨hsome, ?_⟩⟩ <;>
          simp only [UInt64.toNat_add, UInt64.reduceToNat] <;> omega
      · refine ⟨table.sequence + 2, rfl, ?_, hafterVersion, fun _ => ⟨hsome, ?_⟩⟩ <;>
          simp only [UInt64.toNat_add, UInt64.reduceToNat] <;> omega
  | draw drawn _ hafter _ _ hdrawn hissued =>
      rw [hissued, List.mem_singleton] at htoken
      refine ⟨1, by rw [htoken, hafter], ?_, by simp [hafter], by simp [hdrawn]⟩
      simp [hafter]
  | clear _ _ _ _ hissued => simp [hissued] at htoken

-- Every token of a run is new: of an incarnation drawn in it, or numbered behind those given out.
theorem Ready.issued_new (h : table.Ready operations) {token : String}
    (htoken : token ∈ issued (table.turns operations)) :
    ∃ incarnation number, token = tokenOf incarnation number ∧
      (incarnation ∈ drawn (table.turns operations) ∨
        table.version ≠ none ∧ incarnation = table.incarnation ∧
          table.sequence.toNat < number.toNat) := by
  induction operations generalizing table with
  | nil => cases htoken
  | cons operation later ih =>
      rw [turns, drawn_cons]
      rw [turns, issued, List.flatMap_cons, List.mem_append] at htoken
      rcases htoken with hhead | hrest
      · obtain ⟨number, rfl, -, -, hnew⟩ := h.issued_head hhead
        refine ⟨_, number, rfl, ?_⟩
        cases hdrawn : (Turn.mk table operation).drawn? with
        | some incarnation => exact Or.inl (by simp [Turn.incarnation_after _ hdrawn])
        | none =>
            obtain ⟨hversion, hlt⟩ := hnew hdrawn
            exact Or.inr ⟨hversion, (Turn.sequence_after _ hdrawn).1, hlt⟩
      · obtain ⟨incarnation, number, rfl, hmem | ⟨hversion, rfl, hlt⟩⟩ := ih h.tail hrest
        · exact ⟨incarnation, number, rfl, Or.inl (List.mem_append_right _ hmem)⟩
        · refine ⟨_, number, rfl, ?_⟩
          cases hdrawn : (Turn.mk table operation).drawn? with
          | some incarnation => exact Or.inl (by simp [Turn.incarnation_after _ hdrawn])
          | none =>
              have hbefore : table.version ≠ none := fun hnone =>
                hversion (Turn.version_after_eq_none _ hdrawn (Or.inl hnone))
              have hsequence := h.sequence_after hbefore hdrawn
              exact Or.inr ⟨hbefore, (Turn.sequence_after _ hdrawn).1, by omega⟩

theorem Turn.nodup_issued (turn : Turn) : turn.issued.Nodup := by
  cases turn.course with
  | quiet _ _ _ _ hissued => simp [hissued]
  | write _ _ _ _ _ _ _ hissued => simp [hissued, token_one_ne_two]
  | draw _ _ _ _ _ _ hissued => simp [hissued]
  | clear _ _ _ _ hissued => simp [hissued]

theorem Ready.issued_nodup (h : table.Ready operations) : (issued (table.turns operations)).Nodup := by
  induction operations generalizing table with
  | nil => exact List.nodup_nil
  | cons operation later ih =>
      rw [turns, issued, List.flatMap_cons, List.nodup_append]
      refine ⟨Turn.nodup_issued _, ih h.tail, ?_⟩
      rintro token hhead _ hrest rfl
      obtain ⟨number, htoken, hle, hversion, -⟩ := h.issued_head hhead
      obtain ⟨incarnation, number', htoken', hnew⟩ := h.tail.issued_new hrest
      obtain ⟨rfl, rfl⟩ := tokenOf_injective (htoken.symm.trans htoken')
      rcases hnew with hmem | ⟨-, -, hlt⟩
      · exact h.tail.fresh hversion hmem
      · omega

-- Two turns that met one stamp: the first has won no write.
theorem Ready.won_eq_none (h : table.Ready operations) {first last : Turn} {stamp : Version}
    (hpair : [first, last].Sublist (table.turns operations))
    (hfirst : first.before.version = some stamp) (hlast : last.before.version = some stamp) :
    first.won? = none := by
  obtain ⟨past, rest, later, rfl, hbefore, hbetween⟩ := exists_between_of_sublist_turns hpair
  rw [hbetween] at hlast
  have hwins := (h.calm (hbefore ▸ hfirst) hlast).2.1
  rw [turns, wins_cons, Nat.add_eq_zero_iff, ← hbefore] at hwins
  have hhead : (if first.won?.isSome then 1 else 0) = 0 := hwins.1
  cases hwon : first.won? with
  | none => rfl
  | some _ => simp [hwon] at hhead

-- A stamp that was met before a clearing is not met after it.
theorem Ready.version_ne_of_clear (h : table.Ready operations) {first middle last : Turn}
    {stamp : Version} (hturns : [first, middle, last].Sublist (table.turns operations))
    (hfirst : first.before.version = some stamp) (hmiddle : middle.operation = .clear) :
    last.before.version ≠ some stamp := by
  intro hlast
  obtain ⟨past, rest, rfl, hbefore, hrest⟩ := exists_of_sublist_turns hturns
  obtain ⟨start, more, later, rfl, -, hbetween⟩ := exists_between_of_sublist_turns hrest
  have hready : table.Ready
      (past ++ (first.operation :: start ++ middle.operation :: more) ++ later) := by simpa using h
  have hback : ((table.after past).after
      (first.operation :: start ++ middle.operation :: more)).version = some stamp := by
    rw [after_append, after, ← hbefore, ← hlast, hbetween]
    rfl
  have hclear := (hready.calm (hbefore ▸ hfirst) hback).2.2
  exact hclear (by simp [hmiddle])

-- The turns since the table was last given a stamp anew.
def sinceDrawn (turns : List Turn) : List Turn :=
  (turns.reverse.takeWhile fun turn => turn.drawn?.isNone).reverse

theorem wins_sinceDrawn_append (turns : List Turn) (turn : Turn) :
    wins (sinceDrawn (turns ++ [turn])) =
      if turn.drawn? = none then wins (sinceDrawn turns) + (if turn.won?.isSome then 1 else 0) else 0 := by
  cases h : turn.drawn? with
  | none => simp [sinceDrawn, wins, h, List.countP_append, List.countP_cons]
  | some _ => simp [sinceDrawn, wins, h]

theorem turns_concat (table : Deployment) (past : List Operation) (operation : Operation) :
    table.turns (past ++ [operation]) = table.turns past ++ [⟨table.after past, operation⟩] :=
  turns_append table past [operation]

-- The counter counts the writes that have won since the stamp was made, and they took two tokens each
-- behind the first one.
theorem counter_after (id : String) (operations : List Operation)
    (hfew : ∀ incarnation, (issuedUnder incarnation ((new id).turns operations)).length < 2 ^ 64)
    {stamp : Version} (hstamp : ((new id).after operations).version = some stamp) :
    stamp.counter.toInt = wins (sinceDrawn ((new id).turns operations)) ∧
      2 * wins (sinceDrawn ((new id).turns operations)) + 1 ≤
        (issuedUnder ((new id).after operations).incarnation ((new id).turns operations)).length := by
  rcases operations.eq_nil_or_concat with rfl | ⟨past, operation, rfl⟩
  · cases hstamp
  · rw [List.concat_eq_append] at hfew hstamp ⊢
    let turn : Turn := ⟨(new id).after past, operation⟩
    have hconcat : (new id).turns (past ++ [operation]) = (new id).turns past ++ [turn] :=
      turns_concat (new id) past operation
    have hafter : (new id).after (past ++ [operation]) = turn.after := after_append _ past [operation]
    have hlen : ∀ incarnation, (issuedUnder incarnation ((new id).turns (past ++ [operation]))).length =
        (issuedUnder incarnation ((new id).turns past)).length +
          (if turn.after.incarnation = incarnation then turn.issued else []).length := by
      intro incarnation
      rw [hconcat, issuedUnder_append, issuedUnder_cons, List.length_append, List.length_append]
      rfl
    have hfew' : ∀ incarnation, (issuedUnder incarnation ((new id).turns past)).length < 2 ^ 64 :=
      fun incarnation => by have := hlen incarnation ▸ hfew incarnation; omega
    have hroom := hlen turn.after.incarnation ▸ hfew turn.after.incarnation
    rw [hafter] at hstamp
    rw [hafter, hlen, hconcat, wins_sinceDrawn_append]
    rw [if_pos rfl] at hroom ⊢
    -- What the last turn does decides whether the count goes on, grows or starts anew.
    cases turn.course with
    | quiet hstill _ hwon hdrawn hissued =>
        rw [version_eq_of_still hstill] at hstamp
        obtain ⟨hcounter, hle⟩ := counter_after id past hfew' hstamp
        rw [incarnation_eq_of_still hstill, hissued, hwon, if_pos hdrawn]
        exact ⟨by simpa using hcounter, by simpa using hle⟩
    | write entry old hversion hturn _ hwon hdrawn hissued =>
        obtain ⟨hcounter, hle⟩ := counter_after id past hfew' hversion
        have hinc : turn.after.incarnation = ((new id).after past).incarnation := by rw [hturn]; rfl
        have hnext : old.next (turn.before.token 2) = stamp := by simpa [hturn, commit] using hstamp
        rw [hinc, hissued, List.length_cons, List.length_cons, List.length_nil] at hroom ⊢
        rw [hwon, if_pos hdrawn, Option.isSome_some, if_pos rfl, ← hnext,
          Version.counter_next _ _ (by omega)]
        exact ⟨by omega, by omega⟩
    | draw incarnation _ hturn _ _ hdrawn hissued =>
        have hzero : stamp.counter = 0 := by
          simp only [hturn, Option.some.injEq] at hstamp
          exact hstamp ▸ rfl
        rw [hdrawn, hissued, hzero]
        exact ⟨rfl, by simp⟩
    | clear hturn => simp [hturn, Deployment.clear] at hstamp
termination_by operations.length

private theorem countP_le_one {p : α → Bool} {list : List α}
    (h : ∀ first last, [first, last].Sublist list → p first → ¬p last) : list.countP p ≤ 1 := by
  rw [List.countP_eq_length_filter]
  match hfilter : list.filter p with
  | [] => simp
  | [_] => simp
  | first :: last :: rest =>
      have hkept : ∀ item ∈ first :: last :: rest, p item := fun item hitem =>
        (List.mem_filter.mp (hfilter ▸ hitem)).2
      have hsub : (first :: last :: rest).Sublist list := hfilter ▸ List.filter_sublist
      have hpair := (List.sublist_append_left [first, last] rest).trans hsub
      exact absurd (hkept last (by simp)) (h first last hpair (hkept first (by simp)))

theorem exclusive_tokens_and_stamps (id : String) (operations : List Operation)
    (h : WellSupplied ((new id).turns operations)) :
    (issued ((new id).turns operations)).Nodup ∧
    (∀ stamp, ((new id).turns operations).countP (fun turn => turn.won? = some stamp) ≤ 1) ∧
    (∀ read clearing write snapshot,
      [read, clearing, write].Sublist ((new id).turns operations) →
      read.snapshot? = some snapshot → clearing.operation = .clear →
      write.won? ≠ some snapshot.version) ∧
    (∀ past, past <+: operations → ∀ stamp, ((new id).after past).version = some stamp →
      stamp.counter.toInt = wins (sinceDrawn ((new id).turns past))) := by
  have hready := h.ready
  refine ⟨hready.issued_nodup, fun stamp => ?_, ?_, ?_⟩
  · refine countP_le_one fun first last hpair hfirst hlast => ?_
    have hfirst : first.won? = some stamp := of_decide_eq_true hfirst
    have hlast : last.won? = some stamp := of_decide_eq_true hlast
    have hnone := hready.won_eq_none hpair (Turn.version_of_won hfirst) (Turn.version_of_won hlast)
    rw [hfirst] at hnone
    cases hnone
  · intro read clearing write snapshot hturns hread hclear hwrite
    exact hready.version_ne_of_clear hturns (Turn.version_of_snapshot hread) hclear
      (Turn.version_of_won hwrite)
  · rintro past ⟨later, rfl⟩ stamp hstamp
    refine (counter_after id past (fun incarnation => ?_) hstamp).1
    have hfew := h.few_tokens incarnation
    rw [turns_append, issuedUnder_append, List.length_append] at hfew
    omega

-- A table that is cleared and established again between two writes of one row.
def relived : List Operation :=
  let entry := Entry.fresh (.onLoopback 11111 1) "a" .epoch
  [.establish 7, .insertRow entry ⟨0, tokenOf 7 1⟩, .readAll, .clear, .establish 8,
    .insertRow entry ⟨1, tokenOf 7 3⟩, .insertRow entry ⟨0, tokenOf 8 1⟩]

theorem wellSupplied_relived : WellSupplied ((new "d").turns relived) where
  drawn_nodup := by decide +kernel
  few_tokens incarnation :=
    Nat.lt_of_le_of_lt (length_issuedUnder_le incarnation _) (by decide +kernel)

theorem exclusive_tokens_and_stamps_relived :
    WellSupplied ((new "d").turns relived) ∧
    (issued ((new "d").turns relived)).Nodup ∧
    (∀ stamp, ((new "d").turns relived).countP (fun turn => turn.won? = some stamp) ≤ 1) ∧
    (∀ read clearing write snapshot, [read, clearing, write].Sublist ((new "d").turns relived) →
      read.snapshot? = some snapshot → clearing.operation = .clear →
      write.won? ≠ some snapshot.version) ∧
    (∀ past, past <+: relived → ∀ stamp, ((new "d").after past).version = some stamp →
      stamp.counter.toInt = wins (sinceDrawn ((new "d").turns past))) :=
  ⟨wellSupplied_relived, exclusive_tokens_and_stamps "d" relived wellSupplied_relived⟩

end Deployment
end Muster
