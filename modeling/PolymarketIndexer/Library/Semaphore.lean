import Mathlib.Data.List.Basic

/-! # A counting semaphore with a line

Permits are taken one at a time. Who finds none waits in line, and permits that are added go
to the head of the line first, so nobody waits while a permit is left.
-/

structure Semaphore (ι : Type*) where
  permits : Nat
  waiters : List ι
  served : 0 < permits → waiters = []

namespace Semaphore

variable {ι : Type*} (semaphore : Semaphore ι)

def new (permits : Nat) : Semaphore ι := { permits, waiters := [], served := fun _ => rfl }

/-- Whether the caller has a permit at once. -/
def acquire (who : ι) : Bool × Semaphore ι :=
  if found : 0 < semaphore.permits then
    (true, { semaphore with
      permits := semaphore.permits - 1
      served := fun _ => semaphore.served found })
  else
    (false, { semaphore with
      waiters := semaphore.waiters ++ [who]
      served := fun some_ => absurd some_ found })

/-- Those who get one of the added permits. -/
def addPermits (n : Nat) : List ι × Semaphore ι :=
  let woken := semaphore.waiters.take n
  (woken,
    { permits := semaphore.permits + (n - woken.length)
      waiters := semaphore.waiters.drop n
      served := by
        intro left
        by_cases some_ : 0 < semaphore.permits
        · rw [semaphore.served some_, List.drop_nil]
        · rw [List.drop_eq_nil_iff]
          simp only [woken, List.length_take] at left
          omega })

variable {semaphore}

/-- Permits are neither lost nor made up. -/
theorem addPermits_conserves (n : Nat) :
    (semaphore.addPermits n).2.permits + (semaphore.addPermits n).1.length =
      semaphore.permits + n := by
  have few := List.length_take_le n semaphore.waiters
  simp only [addPermits]
  omega

theorem addPermits_line (n : Nat) :
    (semaphore.addPermits n).1 ++ (semaphore.addPermits n).2.waiters = semaphore.waiters :=
  List.take_append_drop n semaphore.waiters

end Semaphore
