import Muster.Time.Work

-- How work ends: with what value, in what state, after how long.
namespace Muster

namespace Course

variable {σ τ α β : Type}

theorem value_mapState (course : Course σ α) (f : σ → τ) : (course.mapState f).value = course.value := by
  induction course with
  | done value state => rfl
  | sleep ticks state rest ih => exact ih

theorem state_mapState (course : Course σ α) (f : σ → τ) : (course.mapState f).state = f course.state := by
  induction course with
  | done value state => rfl
  | sleep ticks state rest ih => exact ih

theorem elapsed_mapState (course : Course σ α) (f : σ → τ) : (course.mapState f).elapsed = course.elapsed := by
  induction course with
  | done value state => rfl
  | sleep ticks state rest ih => exact congrArg (ticks + ·) ih

theorem bind_ends (course : Course σ α) (next : α → σ → Course σ β) :
    (course.bind next).value = (next course.value course.state).value ∧
      (course.bind next).state = (next course.value course.state).state := by
  induction course with
  | done value state => exact ⟨rfl, rfl⟩
  | sleep ticks state rest ih => exact ih

-- A deadline that is met makes no difference.
theorem value_within (limit : Nat) (late : α) (course : Course σ α) :
    (course.within limit late).value = if course.elapsed ≤ limit then course.value else late := by
  induction course generalizing limit with
  | done value state => rfl
  | sleep ticks asleep rest ih =>
    unfold within
    by_cases hticks : ticks ≤ limit
    · have hiff : rest.elapsed ≤ limit - ticks ↔ (sleep ticks asleep rest).elapsed ≤ limit := by
        simp only [elapsed]
        omega
      rw [if_pos hticks, value, ih, value]
      simp only [hiff]
    · have hlate : ¬(sleep ticks asleep rest).elapsed ≤ limit := by
        simp only [elapsed]
        omega
      rw [if_neg hticks, if_neg hlate]
      rfl

-- The work sleeps until it comes to an end, and leaves the state alone before that.
def Idles (state : σ) (ends : α → σ → Prop) : Course σ α → Prop
  | done value left => ends value left
  | sleep _ asleep rest => asleep = state ∧ rest.Idles state ends

variable {state : σ} {ends : α → σ → Prop} {course : Course σ α}

theorem Idles.ends_of (h : course.Idles state ends) : ends course.value course.state := by
  induction course with
  | done value left => exact h
  | sleep ticks asleep rest ih => exact ih h.2

theorem Idles.mono {ends' : α → σ → Prop} (h : course.Idles state ends)
    (hends : ∀ value left, ends value left → ends' value left) : course.Idles state ends' := by
  induction course with
  | done value left => exact hends value left h
  | sleep ticks asleep rest ih => exact ⟨h.1, ih h.2⟩

-- A deadline may end it in a sleep.
theorem Idles.within (h : course.Idles state ends) (limit : Nat) {late : α} (hlate : ends late state) :
    (course.within limit late).Idles state ends := by
  induction course generalizing limit with
  | done value left => exact h
  | sleep ticks asleep rest ih =>
    obtain ⟨rfl, hrest⟩ := h
    unfold Course.within
    split
    · exact ⟨rfl, ih hrest _⟩
    · exact ⟨rfl, hlate⟩

theorem Idles.mapState (h : course.Idles state ends) {f : σ → τ} {ends' : α → τ → Prop}
    (hends : ∀ value left, ends value left → ends' value (f left)) : (course.mapState f).Idles (f state) ends' := by
  induction course with
  | done value left => exact hends value left h
  | sleep ticks asleep rest ih => exact ⟨congrArg f h.1, ih h.2⟩

end Course

namespace Work

variable {σ α β : Type}

theorem value_bind (work : Work σ α) (next : α → Work σ β) (state : σ) :
    ((work >>= next) state).value = (next (work state).value (work state).state).value :=
  ((work state).bind_ends next).1

theorem state_bind (work : Work σ α) (next : α → Work σ β) (state : σ) :
    ((work >>= next) state).state = (next (work state).value (work state).state).state :=
  ((work state).bind_ends next).2

end Work
end Muster
