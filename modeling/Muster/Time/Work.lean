namespace Muster

-- The course that a piece of work takes: it sleeps now and then, and what it does in between takes no
-- time. Each sleep comes with the state in which the work fell asleep.
inductive Course (σ α : Type) where
  | done (value : α) (state : σ)
  | sleep (ticks : Nat) (state : σ) (rest : Course σ α)

namespace Course

def value : Course σ α → α
  | done value _ => value
  | sleep _ _ rest => rest.value

def state : Course σ α → σ
  | done _ state => state
  | sleep _ _ rest => rest.state

def elapsed : Course σ α → Nat
  | done _ _ => 0
  | sleep ticks _ rest => ticks + rest.elapsed

def bind : Course σ α → (α → σ → Course σ β) → Course σ β
  | done value state, next => next value state
  | sleep ticks state rest, next => sleep ticks state (rest.bind next)

def mapState (f : σ → τ) : Course σ α → Course τ α
  | done value state => done value (f state)
  | sleep ticks state rest => sleep ticks (f state) (rest.mapState f)

-- The course under a deadline. A sleep that would outlast it is cut off there, and the work ends in the
-- state in which it fell asleep. A sleep that ends together with the deadline is not cut off.
def within (limit : Nat) (late : α) : Course σ α → Course σ α
  | done value state => done value state
  | sleep ticks state rest =>
    if ticks ≤ limit then sleep ticks state (rest.within (limit - ticks) late)
    else sleep limit state (done late state)

theorem elapsed_within_le (limit : Nat) (late : α) (course : Course σ α) :
    (course.within limit late).elapsed ≤ limit := by
  induction course generalizing limit with
  | done value state => exact Nat.zero_le limit
  | sleep ticks state rest ih =>
    unfold within
    split
    · next h =>
      have := ih (limit - ticks)
      simp only [elapsed]
      omega
    · simp [elapsed]

theorem within_of_elapsed_le {limit : Nat} (late : α) {course : Course σ α} (h : course.elapsed ≤ limit) :
    course.within limit late = course := by
  induction course generalizing limit with
  | done value state => rfl
  | sleep ticks state rest ih =>
    simp only [elapsed] at h
    rw [within, if_pos (by omega), ih (by omega)]

end Course

def Work (σ α : Type) : Type := σ → Course σ α

namespace Work

instance : Monad (Work σ) where
  pure value := fun state => .done value state
  bind work next := fun state => (work state).bind next

def sleep (ticks : Nat) : Work σ Unit := fun state => .sleep ticks state (.done () state)

def get : Work σ σ := fun state => .done state state

def modify (f : σ → σ) : Work σ Unit := fun state => .done () (f state)

def act (f : σ → α × σ) : Work σ α := fun state => .done (f state).1 (f state).2

def within (limit : Nat) (late : α) (work : Work σ α) : Work σ α := fun state => (work state).within limit late

-- Work on a part of a larger state.
def zoom (part : τ → σ) (put : σ → τ → τ) (work : Work σ α) : Work τ α :=
  fun whole => (work (part whole)).mapState fun state => put state whole

end Work
end Muster
