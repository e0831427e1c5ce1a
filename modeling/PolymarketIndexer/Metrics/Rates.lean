import PolymarketIndexer.Library.Machine
import PolymarketIndexer.Library.SlidingWindow
import PolymarketIndexer.Metrics
import Mathlib.Data.Int.Order.Basic

/-! # The rates of the last minute

One producer observes logs and decoded types: it counts, reads the clock, waits for the lock
of the rates and records the reading under it. The rate updater takes the lock in between.
Readings of the clock never go back.
-/

namespace PolymarketIndexer

open Unordered SlidingWindow

inductive Observation where
  | log (blockNumber unixSeconds : UInt64)
  | decodedType (eventType : String)

namespace Observation

/-- The part of an observation before the lock. -/
def count (metrics : FrontfillMetrics) : Observation → FrontfillMetrics
  | .log blockNumber unixSeconds => metrics.observeLogCounters blockNumber unixSeconds
  | .decodedType eventType => metrics.observeDecodedTypeCounters eventType

/-- The part under the lock. -/
def record (metrics : FrontfillMetrics) (seen now : Instant) : Observation → FrontfillMetrics
  | .log _ _ => metrics.observeLogRates seen now
  | .decodedType eventType => metrics.observeDecodedTypeRates eventType seen now

def isLog : Observation → Bool
  | .log _ _ => true
  | .decodedType _ => false

def isType (eventType : String) : Observation → Bool
  | .log _ _ => false
  | .decodedType other => other = eventType

end Observation

abbrev Readings := List (Observation × Instant)

namespace Readings

def times (which : Observation → Bool) (readings : Readings) : List Instant :=
  (readings.filter (fun reading => which reading.1)).map Prod.snd

def logs (readings : Readings) : List Instant := readings.times Observation.isLog

def ofType (eventType : String) (readings : Readings) : List Instant :=
  readings.times (Observation.isType eventType)

end Readings

/-- The metrics in use: the last reading of the clock, what the producer waits to record and
what it has recorded. -/
structure RateRun where
  metrics : FrontfillMetrics
  clock : Instant
  waiting : Option (Observation × Instant)
  recorded : Readings

inductive RateInput where
  | observe (what : Observation) (seen : Instant)
  | locked (now : Instant)
  | tick (now : Instant)

namespace RateInput

def observed? : RateInput → Option (Observation × Instant)
  | .observe what seen => some (what, seen)
  | _ => none

/-- The reading of the clock with which an input prunes. -/
def prunesAt : RateInput → Option Instant
  | .observe _ _ => none
  | .locked now => some now
  | .tick now => some now

end RateInput

namespace RateRun

def start (clock : Instant) : RateRun where
  metrics := FrontfillMetrics.register
  clock := clock
  waiting := none
  recorded := []

def step (s : RateRun) : RateInput → Option RateRun
  | .observe what seen =>
      if s.waiting.isNone ∧ s.clock ≤ seen then
        some { s with
          metrics := what.count s.metrics
          clock := seen
          waiting := some (what, seen) }
      else none
  | .locked now =>
      match s.waiting with
      | none => none
      | some (what, seen) =>
          if s.clock ≤ now then
            some {
              metrics := what.record s.metrics seen now
              clock := now
              waiting := none
              recorded := s.recorded ++ [(what, seen)] }
          else none
  | .tick now =>
      if s.clock ≤ now then
        some { s with metrics := pruneAndRecalculateRates now s.metrics, clock := now }
      else none

end RateRun

/-- The readings of the producer, the one it waits with included, are in order and past. -/
structure InOrder (s : RateRun) : Prop where
  sorted : ((s.recorded ++ s.waiting.toList).map Prod.snd).Pairwise (· ≤ ·)
  past : ∀ reading ∈ s.recorded ++ s.waiting.toList, reading.2 ≤ s.clock

/-- A queue that exists only once something was pushed. -/
def queueOf (cutoff : Instant) (times : List Instant) : Option (List Instant) :=
  if times = [] then none else some (since cutoff times)

/-- The queues hold what was recorded since a cutoff, and the gauges are their lengths. -/
structure Exact (cutoff : Instant) (readings : Readings) (metrics : FrontfillMetrics) : Prop where
  total : metrics.rateState.total = since cutoff readings.logs
  byType : ∀ eventType, metrics.rateState.byType.lookup eventType =
    queueOf cutoff (readings.ofType eventType)
  perMinute : metrics.logsPerMinute = metrics.rateState.total.length
  perMinuteByType : ∀ eventType, metrics.logsPerMinuteByType.lookup eventType =
    (metrics.rateState.byType.lookup eventType).map List.length

section Prune

variable {cutoff now : Instant} {readings : Readings} {metrics : FrontfillMetrics}

theorem prune_lookup (cutoff : Instant) (state : RateState) (eventType : String) :
    (pruneOldEntries cutoff state).byType.lookup eventType =
      (state.byType.lookup eventType).map (prune cutoff) := by
  rw [pruneOldEntries, lookup_foldl_insert]
  cases found : state.byType.lookup eventType <;> rfl

/-- Pruning makes the queues exact when it leaves what was recorded since the cutoff, and
covers every gauge that was ever set. -/
theorem recalculated_exact
    (total : prune (now - sixtySeconds) metrics.rateState.total =
      since (now - sixtySeconds) readings.logs)
    (byType : ∀ eventType, (metrics.rateState.byType.lookup eventType).map
      (prune (now - sixtySeconds)) = queueOf (now - sixtySeconds) (readings.ofType eventType))
    (covered : ∀ eventType, metrics.rateState.byType.lookup eventType = none →
      metrics.logsPerMinuteByType.lookup eventType = none) :
    Exact (now - sixtySeconds) readings (pruneAndRecalculateRates now metrics) := by
  refine ⟨total, fun eventType => ?_, rfl, fun eventType => ?_⟩
  · rw [← byType eventType]
    exact prune_lookup _ _ _
  · rw [pruneAndRecalculateRates, lookup_foldl_insert, prune_lookup]
    cases found : metrics.rateState.byType.lookup eventType with
    | none => simp [covered eventType found]
    | some queue => rfl

theorem times_snoc (which : Observation → Bool) (what : Observation) (seen : Instant) :
    (readings ++ [(what, seen)]).times which =
      if which what then readings.times which ++ [seen] else readings.times which := by
  cases chosen : which what <;> simp [Readings.times, List.filter_append, chosen]

theorem times_sorted {which : Observation → Bool}
    (sorted : (readings.map Prod.snd).Pairwise (· ≤ ·)) :
    (readings.times which).Pairwise (· ≤ ·) := by
  have kept : (readings.times which).Sublist (readings.map Prod.snd) :=
    List.filter_sublist.map Prod.snd
  exact sorted.sublist kept

theorem queueOf_prune {times : List Instant} {cutoff' : Instant}
    (sorted : times.Pairwise (· ≤ ·)) (le : cutoff ≤ cutoff') :
    (queueOf cutoff times).map (prune cutoff') = queueOf cutoff' times := by
  unfold queueOf
  split
  · rfl
  · rw [Option.map_some, prune_since sorted le]

theorem queueOf_getD (cutoff : Instant) (times : List Instant) :
    (queueOf cutoff times).getD [] = since cutoff times := by
  unfold queueOf
  split
  · rename_i empty
    rw [empty]
    rfl
  · rfl

theorem Exact.covered (exact_ : Exact cutoff readings metrics) (eventType : String)
    (absent : metrics.rateState.byType.lookup eventType = none) :
    metrics.logsPerMinuteByType.lookup eventType = none := by
  rw [exact_.perMinuteByType, absent]
  rfl

/-- A count leaves the rates alone. -/
theorem Exact.count (exact_ : Exact cutoff readings metrics) (what : Observation) :
    Exact cutoff readings (what.count metrics) := by
  cases what <;> exact ⟨exact_.total, exact_.byType, exact_.perMinute, exact_.perMinuteByType⟩

theorem Exact.tick (exact_ : Exact cutoff readings metrics)
    (sorted : (readings.map Prod.snd).Pairwise (· ≤ ·)) (le : cutoff ≤ now - sixtySeconds) :
    Exact (now - sixtySeconds) readings (pruneAndRecalculateRates now metrics) := by
  refine recalculated_exact ?_ ?_ exact_.covered
  · rw [exact_.total]
    exact prune_since (times_sorted sorted) le
  · intro eventType
    rw [exact_.byType]
    exact queueOf_prune (times_sorted sorted) le

theorem Exact.record {what : Observation} {seen : Instant} (exact_ : Exact cutoff readings metrics)
    (sorted : ((readings ++ [(what, seen)]).map Prod.snd).Pairwise (· ≤ ·))
    (le : cutoff ≤ now - sixtySeconds) :
    Exact (now - sixtySeconds) (readings ++ [(what, seen)]) (what.record metrics seen now) := by
  have before : (readings.map Prod.snd).Pairwise (· ≤ ·) :=
    sorted.sublist ((List.sublist_append_left _ _).map _)
  have after : ∀ which, ((readings ++ [(what, seen)]).times which).Pairwise (· ≤ ·) :=
    fun which => times_sorted sorted
  cases what with
  | log blockNumber unixSeconds =>
      refine recalculated_exact ?_ ?_ exact_.covered
      · have own : (Observation.log blockNumber unixSeconds).isLog = true := rfl
        have order := after Observation.isLog
        rw [times_snoc, if_pos own] at order
        rw [Readings.logs, times_snoc, if_pos own, exact_.total]
        exact prune_push order le
      · intro eventType
        rw [Readings.ofType, times_snoc]
        exact (congrArg _ (exact_.byType eventType)).trans (queueOf_prune (times_sorted before) le)
  | decodedType eventType =>
      refine recalculated_exact ?_ ?_ ?_
      · rw [Readings.logs, times_snoc]
        exact (congrArg _ exact_.total).trans (prune_since (times_sorted before) le)
      · intro other
        rw [exact_.byType, queueOf_getD]
        by_cases same : other = eventType
        · obtain rfl := same
          have own : Observation.isType other (.decodedType other) = true := decide_eq_true rfl
          have order := after (Observation.isType other)
          rw [times_snoc, if_pos own] at order
          rw [AList.lookup_insert, Option.map_some, Readings.ofType, Readings.ofType, times_snoc,
            if_pos own]
          exact (congrArg some (prune_push order le)).trans (if_neg (by simp)).symm
        · have foreign : ¬Observation.isType other (.decodedType eventType) = true := by
            simpa [Observation.isType] using Ne.symm same
          rw [AList.lookup_insert_ne same, exact_.byType, Readings.ofType, Readings.ofType,
            times_snoc, if_neg foreign]
          exact queueOf_prune (times_sorted before) le
      · intro other absent
        by_cases same : other = eventType
        · obtain rfl := same
          rw [AList.lookup_insert] at absent
          cases absent
        · rw [AList.lookup_insert_ne same] at absent
          exact exact_.covered other absent

end Prune

/-- What a run keeps: readings in order, and queues exact since some cutoff a minute ago or more. -/
structure Sliding (s : RateRun) : Prop where
  inOrder : InOrder s
  exact_ : ∃ cutoff, cutoff ≤ s.clock - sixtySeconds ∧ Exact cutoff s.recorded s.metrics

theorem start_sliding (clock : Instant) : Sliding (RateRun.start clock) where
  inOrder := ⟨.nil, fun _ member => by cases member⟩
  exact_ := ⟨clock - sixtySeconds, Int.le_refl _, rfl, fun _ => rfl, rfl, fun _ => rfl⟩

/-- A step keeps the readings in order, and one that prunes makes the queues exact since its
cutoff. -/
theorem step_sliding {s t : RateRun} {input : RateInput} (sliding : Sliding s)
    (moved : s.step input = some t) :
    Sliding t ∧ ∀ now, input.prunesAt = some now →
      Exact (now - sixtySeconds) t.recorded t.metrics := by
  obtain ⟨⟨sorted, past⟩, cutoff, old, exact_⟩ := sliding
  cases input with
  | observe what seen =>
      simp only [RateRun.step] at moved
      split at moved
      · rename_i allowed
        obtain ⟨idle, later⟩ := allowed
        rw [Option.isNone_iff_eq_none] at idle
        obtain rfl := Option.some.inj moved
        simp only [idle, Option.toList_none, List.append_nil] at sorted past
        have old := Int.le_trans old (Int.sub_le_sub_right later sixtySeconds)
        refine ⟨⟨⟨?_, ?_⟩, cutoff, old, exact_.count what⟩, fun _ none_ => ?_⟩
        · simp only [Option.toList_some, List.map_append, List.map_cons, List.map_nil]
          refine List.pairwise_append.mpr ⟨sorted, List.pairwise_singleton _ _, ?_⟩
          intro time member last isSeen
          obtain ⟨reading, recorded, rfl⟩ := List.mem_map.mp member
          obtain rfl := List.mem_singleton.mp isSeen
          exact Int.le_trans (past reading recorded) later
        · intro reading member
          rcases List.mem_append.mp member with recorded | new
          · exact Int.le_trans (past reading recorded) later
          · obtain rfl := List.mem_singleton.mp new
            exact Int.le_refl _
        · cases none_
      · cases moved
  | locked now =>
      simp only [RateRun.step] at moved
      split at moved
      · cases moved
      · rename_i what seen waits
        split at moved
        · rename_i later
          obtain rfl := Option.some.inj moved
          simp only [waits, Option.toList_some] at sorted past
          have recorded := exact_.record sorted
            (Int.le_trans old (Int.sub_le_sub_right later sixtySeconds))
          refine ⟨⟨⟨?_, ?_⟩, now - sixtySeconds, Int.le_refl _, recorded⟩, ?_⟩
          · simpa using sorted
          · intro reading member
            simp only [Option.toList_none, List.append_nil] at member
            exact Int.le_trans (past reading member) later
          · rintro _ same
            obtain rfl := Option.some.inj same
            exact recorded
        · cases moved
  | tick now =>
      simp only [RateRun.step] at moved
      split at moved
      · rename_i later
        obtain rfl := Option.some.inj moved
        have before : (s.recorded.map Prod.snd).Pairwise (· ≤ ·) :=
          sorted.sublist ((List.sublist_append_left _ _).map _)
        have ticked := exact_.tick before
          (Int.le_trans old (Int.sub_le_sub_right later sixtySeconds))
        refine ⟨⟨⟨sorted, ?_⟩, now - sixtySeconds, Int.le_refl _, ticked⟩, ?_⟩
        · exact fun reading member => Int.le_trans (past reading member) later
        · rintro _ same
          obtain rfl := Option.some.inj same
          exact ticked
      · cases moved

theorem run_sliding {clock : Instant} {inputs : List RateInput} {s : RateRun}
    (run : Machine.exec RateRun.step (RateRun.start clock) inputs = some s) : Sliding s := by
  have keeps : ∀ (a : RateRun) (input : RateInput) (b : RateRun), True → Sliding a →
      a.step input = some b → Sliding b :=
    fun _ _ _ _ before moved => (step_sliding before moved).1
  exact Machine.exec_invariant _ keeps (fun _ _ => trivial) run (start_sliding clock)

/-- The producer records what it observes, in order. -/
theorem run_readings {clock : Instant} {inputs : List RateInput} {s : RateRun}
    (run : Machine.exec RateRun.step (RateRun.start clock) inputs = some s) :
    s.recorded ++ s.waiting.toList = inputs.filterMap RateInput.observed? := by
  have keeps : ∀ (past : List RateInput) (a : RateRun) (input : RateInput) (b : RateRun),
      a.recorded ++ a.waiting.toList = past.filterMap RateInput.observed? →
      a.step input = some b →
      b.recorded ++ b.waiting.toList = (past ++ [input]).filterMap RateInput.observed? := by
    intro past a input b readings moved
    rw [List.filterMap_append, ← readings]
    cases input with
    | observe what seen =>
        simp only [RateRun.step] at moved
        split at moved
        · rename_i allowed
          obtain rfl := Option.some.inj moved
          rw [Option.isNone_iff_eq_none] at allowed
          simp [allowed.1, RateInput.observed?]
        · cases moved
    | locked now =>
        simp only [RateRun.step] at moved
        split at moved
        · cases moved
        · rename_i what seen waits
          split at moved
          · obtain rfl := Option.some.inj moved
            simp [waits, RateInput.observed?]
          · cases moved
    | tick now =>
        simp only [RateRun.step] at moved
        split at moved
        · obtain rfl := Option.some.inj moved
          simp [RateInput.observed?]
        · cases moved
  exact Machine.exec_history _ keeps run rfl

/-- After every prune the queues hold the readings of the last minute, in order, and the
gauges their number: 0 for a type that was seen but not lately. -/
theorem sliding_window_exact {clock now : Instant} {inputs : List RateInput} {input : RateInput}
    {s : RateRun} (prunes : input.prunesAt = some now)
    (run : Machine.exec RateRun.step (RateRun.start clock) (inputs ++ [input]) = some s) :
    s.recorded ++ s.waiting.toList = (inputs ++ [input]).filterMap RateInput.observed? ∧
    s.metrics.rateState.total = s.recorded.logs.filter (fun t => now - sixtySeconds ≤ t) ∧
    s.metrics.logsPerMinute =
      (s.recorded.logs.filter (fun t => now - sixtySeconds ≤ t)).length ∧
    ∀ eventType,
      (s.recorded.ofType eventType ≠ [] →
        s.metrics.rateState.byType.lookup eventType =
          some ((s.recorded.ofType eventType).filter (fun t => now - sixtySeconds ≤ t)) ∧
        s.metrics.logsPerMinuteByType.lookup eventType =
          some ((s.recorded.ofType eventType).filter
            (fun t => now - sixtySeconds ≤ t)).length) ∧
      (s.recorded.ofType eventType = [] →
        s.metrics.rateState.byType.lookup eventType = none ∧
        s.metrics.logsPerMinuteByType.lookup eventType = none) := by
  obtain ⟨u, before, last⟩ := (Machine.exec_snoc _).mp run
  have exact_ := (step_sliding (run_sliding before) last).2 now prunes
  refine ⟨run_readings run, exact_.total, ?_, fun eventType => ⟨fun seen => ?_, fun unseen => ?_⟩⟩
  · rw [exact_.perMinute, exact_.total]
    rfl
  · rw [exact_.perMinuteByType, exact_.byType, queueOf, if_neg seen]
    exact ⟨rfl, rfl⟩
  · rw [exact_.perMinuteByType, exact_.byType, queueOf, if_pos unseen]
    exact ⟨rfl, rfl⟩

section Example

/-- A tick between a reading and its push, and a type that goes silent. -/
def silentType : List RateInput :=
  [.observe (.log 7 1) 5, .tick 10, .locked 12, .observe (.decodedType "OrderFilled") 13,
    .locked 14, .observe (.log 8 1) 20, .locked 21]

theorem sliding_window_silent : ∃ s,
    Machine.exec RateRun.step (RateRun.start 0) (silentType ++ [.tick 60000000014]) = some s ∧
    s.metrics.rateState.total = [20] ∧
    s.metrics.logsPerMinuteByType.lookup "OrderFilled" = some 0 := by
  obtain ⟨s, run, recorded⟩ : ∃ s,
      Machine.exec RateRun.step (RateRun.start 0) (silentType ++ [.tick 60000000014]) = some s ∧
      s.recorded = [(.log 7 1, 5), (.decodedType "OrderFilled", 13), (.log 8 1, 20)] :=
    ⟨_, rfl, rfl⟩
  obtain ⟨-, total, -, byType⟩ := @sliding_window_exact 0 60000000014 silentType _ s rfl run
  rw [recorded] at total byType
  exact ⟨s, run, total, ((byType "OrderFilled").1 (by decide)).2⟩

end Example

end PolymarketIndexer
