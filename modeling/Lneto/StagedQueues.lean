import Lneto.CircularBuffers

/-!
Bounded first-in first-out queues whose free cells are visible, in the order in
which they will be written; cells whose data is taken out come back behind them.
Data may be staged in free cells and revealed later; what is pushed in between
fills the gap.
-/
namespace Lneto.StagedQueues

open CircularBuffers List

variable {α : Type*}

@[ext] structure Queue (α : Type*) where
  data : List α
  room : List α

namespace Queue

def push (q : Queue α) (b : List α) : Queue α :=
  { data := q.data ++ b, room := q.room.drop b.length }

def pop (q : Queue α) (n : ℕ) : Queue α :=
  { data := q.data.drop n, room := q.room ++ q.data.take n }

def stage (q : Queue α) (b : List α) (offset : ℕ) : Queue α :=
  { q with room := blit q.room offset b }

def reveal (q : Queue α) (n : ℕ) : Queue α :=
  { data := q.data ++ q.room.take n, room := q.room.drop n }

theorem pop_nil (q : Queue α) (n : ℕ) (h : q.data = []) : q.pop n = q := by
  ext1 <;> simp [pop, h]

theorem pop_min (q : Queue α) (n : ℕ) : q.pop (min n q.data.length) = q.pop n := by
  rcases Nat.le_total n q.data.length with hle | hle
  · rw [Nat.min_eq_left hle]
  · rw [Nat.min_eq_right hle, pop, pop, drop_of_length_le hle, take_of_length_le hle,
      drop_length, take_length]

theorem reveal_stage_zero (q : Queue α) (b : List α) (hfit : b.length ≤ q.room.length) :
    (q.stage b 0).reveal b.length = q.push b := by
  have hblit : blit q.room 0 b = b ++ q.room.drop b.length := by
    rw [blit, take_zero, nil_append, Nat.zero_add, take_of_length_le (by omega)]
  ext1
  all_goals simp [stage, reveal, push, hblit]

end Queue

inductive Move (α : Type*) where
  | push (b : List α)
  | pop (n : ℕ)

def move (q : Queue α) : Move α → Queue α
  | .push b => q.push b
  | .pop n => q.pop n

def moves (q : Queue α) (ms : List (Move α)) : Queue α := ms.foldl move q

def pushed : List (Move α) → ℕ
  | [] => 0
  | .push b :: ms => b.length + pushed ms
  | .pop _ :: ms => pushed ms

theorem pushed_append (ms ms' : List (Move α)) : pushed (ms ++ ms') = pushed ms + pushed ms' := by
  induction ms with
  | nil => simp [pushed]
  | cons m ms ih =>
  cases m with
  | push b => simp only [cons_append, pushed, ih, Nat.add_assoc]
  | pop n => simp only [cons_append, pushed, ih]

/-- Free cells leave at the front when data is pushed and come back at the end. -/
theorem room_moves (ms : List (Move α)) (q : Queue α) (h : pushed ms ≤ q.room.length) :
    ∃ back, (moves q ms).room = q.room.drop (pushed ms) ++ back := by
  induction ms generalizing q with
  | nil => exact ⟨[], by simp [moves, pushed]⟩
  | cons m ms ih =>
  cases m with
  | push b =>
    simp only [pushed] at h
    obtain ⟨back, hback⟩ := ih (q.push b) (by simp only [Queue.push, length_drop]; omega)
    refine ⟨back, ?_⟩
    rw [pushed, ← drop_drop]
    exact hback
  | pop n =>
  simp only [pushed] at h
  obtain ⟨back, hback⟩ := ih (q.pop n) (by simp only [Queue.pop, length_append]; omega)
  refine ⟨q.data.take n ++ back, ?_⟩
  rw [pushed, ← append_assoc, ← drop_append_of_le_length h]
  exact hback

/-- Staged data is revealed once the gap in front of it was filled. -/
theorem reveal_staged (q : Queue α) (b : List α) (offset : ℕ) (ms : List (Move α))
    (hfit : offset + b.length ≤ q.room.length) (hgap : pushed ms = offset) :
    ((moves (q.stage b offset) ms).reveal b.length).data =
      (moves (q.stage b offset) ms).data ++ b := by
  have hlen : (q.stage b offset).room.length = q.room.length := length_blit _ _ _ (by omega)
  obtain ⟨back, hback⟩ := room_moves ms (q.stage b offset) (by omega)
  have hdrop : (q.stage b offset).room.drop offset = b ++ q.room.drop (offset + b.length) := by
    have htake : (q.room.take offset).length = offset := by
      rw [length_take]
      omega
    rw [Queue.stage, blit, take_of_length_le (show b.length ≤ _ by omega),
      append_assoc, drop_append, htake, Nat.sub_self, drop_zero,
      drop_of_length_le (by omega), nil_append]
  rw [Queue.reveal, hback, hgap, hdrop, append_assoc, take_left]

end Lneto.StagedQueues
