import Mathlib.Algebra.BigOperators.Group.List.Basic
import Mathlib.Algebra.GroupWithZero.Nat
import Mathlib.Tactic.Common

/-! # Backoff

After a failure a client waits before it tries again, by a delay that depends on how many
failures there have been in a row. A success starts the count afresh.
-/

namespace Backoff

inductive Outcome where
  | failed
  | succeeded
  deriving DecidableEq, Repr

/-- The failures in a row at the end, when there are `n` before the first outcome. -/
def streakFrom (n : Nat) : List Outcome → Nat
  | [] => n
  | .failed :: rest => streakFrom (n + 1) rest
  | .succeeded :: rest => streakFrom 0 rest

def waitsFrom (delay : Nat → Nat) (n : Nat) : List Outcome → List Nat
  | [] => []
  | .failed :: rest => delay n :: waitsFrom delay (n + 1) rest
  | .succeeded :: rest => waitsFrom delay 0 rest

def streak : List Outcome → Nat := streakFrom 0

/-- The waits, one for each failure. -/
def waits (delay : Nat → Nat) : List Outcome → List Nat := waitsFrom delay 0

variable {delay : Nat → Nat}

theorem streakFrom_append (n : Nat) (past rest : List Outcome) :
    streakFrom n (past ++ rest) = streakFrom (streakFrom n past) rest := by
  induction past generalizing n with
  | nil => rfl
  | cons first past ih => cases first <;> exact ih _

theorem waitsFrom_append (n : Nat) (past rest : List Outcome) :
    waitsFrom delay n (past ++ rest) =
      waitsFrom delay n past ++ waitsFrom delay (streakFrom n past) rest := by
  induction past generalizing n with
  | nil => rfl
  | cons first past ih =>
      cases first with
      | failed => exact congrArg (delay n :: ·) (ih (n + 1))
      | succeeded => exact ih 0

theorem streak_failed (past : List Outcome) : streak (past ++ [.failed]) = streak past + 1 :=
  streakFrom_append 0 past [.failed]

theorem streak_succeeded (past : List Outcome) : streak (past ++ [.succeeded]) = 0 :=
  streakFrom_append 0 past [.succeeded]

theorem waits_failed (past : List Outcome) :
    waits delay (past ++ [.failed]) = waits delay past ++ [delay (streak past)] :=
  waitsFrom_append 0 past [.failed]

theorem waits_succeeded (past : List Outcome) :
    waits delay (past ++ [.succeeded]) = waits delay past :=
  (waitsFrom_append 0 past [.succeeded]).trans (List.append_nil _)

theorem mem_waits {outcomes : List Outcome} {seconds : Nat}
    (member : seconds ∈ waits delay outcomes) : ∃ n, seconds = delay n := by
  suffices general : ∀ n, seconds ∈ waitsFrom delay n outcomes → ∃ n, seconds = delay n from
    general 0 member
  clear member
  induction outcomes with
  | nil => exact fun _ member => absurd member List.not_mem_nil
  | cons first rest ih =>
      intro n member
      cases first with
      | failed =>
          rcases List.mem_cons.mp member with rfl | later
          · exact ⟨n, rfl⟩
          · exact ih (n + 1) later
      | succeeded => exact ih 0 member

theorem waitsFrom_replicate (n count : Nat) :
    waitsFrom delay n (List.replicate count .failed) = (List.range' n count).map delay := by
  induction count generalizing n with
  | zero => rfl
  | succ count ih =>
      rw [List.replicate_succ, List.range'_succ, List.map_cons, ← ih (n + 1)]
      rfl

/-- Failures in a row after a success wait as they would at the very start. -/
theorem waits_streak (past : List Outcome) (afresh : streak past = 0) (count : Nat) :
    waits delay (past ++ List.replicate count .failed) =
      waits delay past ++ (List.range count).map delay := by
  unfold waits
  rw [waitsFrom_append, List.range_eq_range', ← waitsFrom_replicate 0 count]
  exact congrArg (fun n => _ ++ waitsFrom delay n _) afresh

/-- Doubled with each failure, up to a cap. -/
def doubling (cap n : Nat) : Nat := 2 ^ min n cap

/-- The waits of a streak: doubled up to the cap, as long each time from there on. -/
theorem sum_doubling (cap count : Nat) :
    ((List.range count).map (doubling cap)).sum + 1 =
      2 ^ min count cap + (count - cap) * 2 ^ cap := by
  induction count with
  | zero => simp
  | succ count ih =>
      rw [List.range_succ, List.map_append, List.sum_append, List.map_singleton,
        List.sum_singleton, doubling]
      rcases Nat.lt_or_ge count cap with below | above
      · rw [Nat.min_eq_left (Nat.le_of_lt below)] at ih ⊢
        rw [Nat.min_eq_left (Nat.succ_le_of_lt below), Nat.pow_succ]
        have early : count - cap = 0 ∧ count + 1 - cap = 0 := by omega
        rw [early.1, Nat.zero_mul] at ih
        rw [early.2, Nat.zero_mul]
        omega
      · rw [Nat.min_eq_right above] at ih ⊢
        rw [Nat.min_eq_right (by omega), Nat.succ_sub above, Nat.succ_mul]
        omega

theorem doubling_le (cap n : Nat) : doubling cap n ≤ 2 ^ cap :=
  Nat.pow_le_pow_right (by decide) (Nat.min_le_right n cap)

end Backoff
