import PolymarketIndexer.Library.Semaphore
import PolymarketIndexer.Library.TopUp

/-! # The rate limiter

Calls of `acquire` race with the refill, which reads the permits left and later adds what
was missing when it read. A call that finds no permit waits in the line of the semaphore; a
permit is forgotten once it is granted, so it never comes back.
-/

namespace PolymarketIndexer.Backfill

/-- A limiter in use: its semaphore, what the refill read when it has not added yet, and
the calls that got their permit. -/
structure LimiterState (ι : Type*) where
  semaphore : Semaphore ι
  reading : Option Nat
  granted : List ι

inductive LimiterInput (ι : Type*) where
  | acquire (who : ι)
  | readPermits
  | addPermits

namespace LimiterState

variable {ι : Type*} (maxPerSecond : Nat)

def new : LimiterState ι where
  semaphore := Semaphore.new maxPerSecond
  reading := none
  granted := []

def step (limiter : LimiterState ι) : LimiterInput ι → Option (LimiterState ι)
  | .acquire who =>
      match limiter.semaphore.acquire who with
      | (true, semaphore) =>
          some { limiter with semaphore := semaphore, granted := limiter.granted ++ [who] }
      | (false, semaphore) => some { limiter with semaphore := semaphore }
  | .readPermits =>
      if limiter.reading.isNone then
        some { limiter with reading := some limiter.semaphore.permits }
      else none
  | .addPermits =>
      match limiter.reading with
      | none => none
      | some available =>
          if available < maxPerSecond then
            let (woken, semaphore) := limiter.semaphore.addPermits (maxPerSecond - available)
            some { semaphore := semaphore, reading := none, granted := limiter.granted ++ woken }
          else some { limiter with reading := none }

end LimiterState

namespace LimiterInput

variable {ι : Type*}

def caller? : LimiterInput ι → Option ι
  | .acquire who => some who
  | _ => none

def reads : LimiterInput ι → Bool
  | .readPermits => true
  | _ => false

def refills : LimiterInput ι → Bool
  | .addPermits => true
  | _ => false

end LimiterInput

section

open LimiterState

variable {ι : Type*} {maxPerSecond : Nat} {limiter limiter' : LimiterState ι}
  {inputs : List (LimiterInput ι)}

/-- The kinds of steps. A refill that finds the limiter full adds nothing and wakes nobody. -/
inductive LimiterMoves (maxPerSecond : Nat) (limiter limiter' : LimiterState ι) :
    LimiterInput ι → Prop where
  | granted {who : ι} (found : 0 < limiter.semaphore.permits)
      (permits : limiter'.semaphore.permits + 1 = limiter.semaphore.permits)
      (waiters : limiter'.semaphore.waiters = limiter.semaphore.waiters)
      (reading : limiter'.reading = limiter.reading)
      (granted : limiter'.granted = limiter.granted ++ [who]) :
      LimiterMoves maxPerSecond limiter limiter' (.acquire who)
  | queued {who : ι} (permits : limiter'.semaphore.permits = limiter.semaphore.permits)
      (waiters : limiter'.semaphore.waiters = limiter.semaphore.waiters ++ [who])
      (reading : limiter'.reading = limiter.reading)
      (granted : limiter'.granted = limiter.granted) :
      LimiterMoves maxPerSecond limiter limiter' (.acquire who)
  | read (idle : limiter.reading = none) (semaphore : limiter'.semaphore = limiter.semaphore)
      (reading : limiter'.reading = some limiter.semaphore.permits)
      (granted : limiter'.granted = limiter.granted) :
      LimiterMoves maxPerSecond limiter limiter' .readPermits
  | added {available : Nat} {woken : List ι} (pending : limiter.reading = some available)
      (permits : limiter'.semaphore.permits + woken.length =
        limiter.semaphore.permits + (maxPerSecond - available))
      (waiters : woken ++ limiter'.semaphore.waiters = limiter.semaphore.waiters)
      (reading : limiter'.reading = none)
      (granted : limiter'.granted = limiter.granted ++ woken) :
      LimiterMoves maxPerSecond limiter limiter' .addPermits

theorem limiter_moves {input : LimiterInput ι}
    (moved : step maxPerSecond limiter input = some limiter') :
    LimiterMoves maxPerSecond limiter limiter' input := by
  cases input with
  | acquire who =>
      simp only [step, Semaphore.acquire] at moved
      by_cases found : 0 < limiter.semaphore.permits
      · simp only [found, dite_true, Option.some.injEq] at moved
        subst moved
        exact .granted found (Nat.sub_add_cancel found) rfl rfl rfl
      · simp only [found, dite_false, Option.some.injEq] at moved
        subst moved
        exact .queued rfl rfl rfl rfl
  | readPermits =>
      simp only [step] at moved
      split at moved
      · rename_i idle
        obtain rfl := Option.some.inj moved
        exact .read (Option.isNone_iff_eq_none.mp idle) rfl rfl rfl
      · cases moved
  | addPermits =>
      simp only [step] at moved
      split at moved
      · cases moved
      · rename_i available pending
        split at moved
        · obtain rfl := Option.some.inj moved
          exact .added pending (limiter.semaphore.addPermits_conserves _)
            (limiter.semaphore.addPermits_line _) rfl rfl
        · rename_i full
          obtain rfl := Option.some.inj moved
          refine .added pending ?_ (List.nil_append _) rfl (List.append_nil _).symm
          simp only [List.length_nil]
          omega

theorem limiter_step_line {input : LimiterInput ι}
    (moved : step maxPerSecond limiter input = some limiter') :
    limiter'.granted ++ limiter'.semaphore.waiters =
      limiter.granted ++ limiter.semaphore.waiters ++ input.caller?.toList := by
  cases limiter_moves moved with
  | granted found permits waiters reading granted =>
      simp [granted, waiters, limiter.semaphore.served found, LimiterInput.caller?]
  | queued permits waiters reading granted =>
      simp [granted, waiters, LimiterInput.caller?]
  | read idle semaphore reading granted => simp [granted, semaphore, LimiterInput.caller?]
  | added pending permits waiters reading granted =>
      simp [granted, ← waiters, LimiterInput.caller?]

/-- Permits are granted in the order of the calls, and no call is forgotten. -/
theorem granted_in_order (run : Machine.exec (step maxPerSecond) (new maxPerSecond) inputs =
      some limiter) :
    limiter.granted ++ limiter.semaphore.waiters = inputs.filterMap LimiterInput.caller? := by
  have keeps : ∀ (past : List (LimiterInput ι)) (a : LimiterState ι) (input : LimiterInput ι)
      (b : LimiterState ι), a.granted ++ a.semaphore.waiters = past.filterMap LimiterInput.caller? →
      step maxPerSecond a input = some b → b.granted ++ b.semaphore.waiters =
        (past ++ [input]).filterMap LimiterInput.caller? := by
    intro past a input b line moved
    rw [limiter_step_line moved, line, List.filterMap_append]
    cases called : input.caller? <;> simp [called]
  exact Machine.exec_history _ keeps run rfl

def LimiterState.budget (limiter : LimiterState ι) : TopUp where
  available := limiter.semaphore.permits
  reading := limiter.reading
  spent := limiter.granted.length

theorem limiter_step_shows {input : LimiterInput ι}
    (moved : step maxPerSecond limiter input = some limiter') :
    ∃ events, TopUp.Shows LimiterInput.reads LimiterInput.refills input events ∧
      Machine.exec (TopUp.step maxPerSecond) limiter.budget events = some limiter'.budget := by
  cases limiter_moves moved with
  | granted found permits waiters reading granted =>
      refine ⟨[.spend], ⟨by simp, by simp⟩, (Machine.exec_cons _).mpr
        ⟨_, TopUp.step_spend found, ?_⟩⟩
      simp only [LimiterState.budget, Machine.exec_nil, granted, reading, ← permits,
        Nat.add_sub_cancel, List.length_append, List.length_singleton]
  | queued permits waiters reading granted =>
      refine ⟨[], ⟨by simp, by simp⟩, ?_⟩
      simp only [LimiterState.budget, Machine.exec_nil, permits, reading, granted]
  | read idle semaphore reading granted =>
      refine ⟨[.read], ⟨fun _ => rfl, by simp⟩, (Machine.exec_cons _).mpr
        ⟨_, TopUp.step_read idle, ?_⟩⟩
      simp only [LimiterState.budget, Machine.exec_nil, semaphore, reading, granted]
  | @added available woken pending permits waiters reading granted =>
      refine ⟨.add :: List.replicate woken.length .spend, ⟨by simp, ?_⟩, ?_⟩
      · simp [List.count_replicate, LimiterInput.refills]
      · refine (Machine.exec_cons _).mpr ⟨_, TopUp.step_add pending, ?_⟩
        rw [TopUp.exec_spend (by simp only [LimiterState.budget]; omega)]
        simp only [LimiterState.budget, reading, granted, List.length_append, Option.some.injEq,
          TopUp.mk.injEq, and_true]
        omega

theorem limiter_limited (maxPerSecond : Nat) :
    TopUp.Limited (step maxPerSecond) (new maxPerSecond : LimiterState ι) maxPerSecond
      (fun limiter => limiter.semaphore.permits) (fun limiter => limiter.granted.length)
      LimiterInput.reads LimiterInput.refills :=
  TopUp.limited_of_shows LimiterState.budget rfl (fun _ _ _ moved => limiter_step_shows moved)

end

end PolymarketIndexer.Backfill
