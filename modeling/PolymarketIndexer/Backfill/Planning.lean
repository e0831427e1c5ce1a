import PolymarketIndexer.Backfill.ChunkRanges
import Mathlib.Algebra.Order.Floor.Div
import Mathlib.Data.List.Chain

/-! # When a range can be planned

The guards of `run` admit any range and any chunk size above zero. The sum
`current + size` is formed before it is cut off at the end of the range, so a plan
is made without overflow exactly when the last such sum fits. Then it is a partition
of the range into chunks of the wanted size.
-/

namespace PolymarketIndexer.Backfill

open Loop Tiling

def planningStart (start : UInt64) : Planning := { current := start, ranges := [] }

/-- No arithmetic step of the loop leaves the 64 bits, `current` grows with each turn, and the
loop returns. -/
structure SafePlanning (mode : Overflow) (start endBlock size : UInt64) : Prop where
  inBounds : ∀ s, Reaches (chunkTurn mode endBlock size) (planningStart start) s →
    chunkTurn .checked endBlock size s ≠ .panic
  increases : ∀ s t, Reaches (chunkTurn mode endBlock size) (planningStart start) s →
    chunkTurn mode endBlock size s = .next t → s.current < t.current
  returns : ∃ plan, ChunkRanges mode start endBlock size plan

section Safety

variable {mode : Overflow} {start endBlock size : UInt64}

/-- The range from `current` on is not empty, and the last sum of it fits. -/
def Fits (endBlock size : UInt64) (s : Planning) : Prop :=
  s.current.toNat ≤ endBlock.toNat ∧ lastSum s.current.toNat endBlock.toNat size.toNat < 2 ^ 64

theorem Fits.sum {s : Planning} (h : Fits endBlock size s) :
    s.current.toNat + size.toNat < 2 ^ 64 := by
  have := le_lastSum s.current.toNat endBlock.toNat size.toNat
  have := h.2
  omega

theorem Fits.next {s t : Planning} (sized : 1 ≤ size.toNat) (h : Fits endBlock size s)
    (goes : chunkTurn mode endBlock size s = .next t) :
    Fits endBlock size t ∧ t.current.toNat = s.current.toNat + size.toNat := by
  rcases chunkTurn_exact mode sized h.1 h.sum with ⟨-, turn⟩ | ⟨_, next, -, moved, inside, turn⟩
  · cases turn.symm.trans goes
  · obtain rfl := Turn.next.inj (turn.symm.trans goes)
    refine ⟨⟨inside, ?_⟩, moved⟩
    have same := @lastSum_full s.current.toNat endBlock.toNat size.toNat sized (by omega)
    have fits := h.2
    rw [same] at fits
    rw [moved]
    exact fits

theorem Fits.goes {s : Planning} (sized : 1 ≤ size.toNat) (h : Fits endBlock size s)
    (mode : Overflow) : chunkTurn mode endBlock size s ≠ .panic := by
  intro panics
  rcases chunkTurn_exact mode sized h.1 h.sum with ⟨-, turn⟩ | ⟨_, _, -, -, -, turn⟩
  · cases turn.symm.trans panics
  · cases turn.symm.trans panics

theorem safe_of_fits (mode : Overflow) (sized : 1 ≤ size.toNat)
    (fits : Fits endBlock size (planningStart start)) : SafePlanning mode start endBlock size := by
  have reached : ∀ s, Reaches (chunkTurn mode endBlock size) (planningStart start) s →
      Fits endBlock size s :=
    fun s reaches => reaches.invariant (fun _ _ before goes => (before.next sized goes).1) fits
  refine ⟨fun s reaches => (reached s reaches).goes sized .checked, ?_, ?_⟩
  · intro s t reaches goes
    obtain ⟨-, moved⟩ := (reached s reaches).next sized goes
    exact UInt64.lt_iff_toNat_lt.mpr (by omega)
  · apply returns_of_measure (fun s => endBlock.toNat - s.current.toNat) _ _ fits
    · intro s t before goes
      obtain ⟨after, moved⟩ := before.next sized goes
      have := after.1
      exact ⟨after, by omega⟩
    · exact fun s before => before.goes sized mode

/-- A loop none of whose turns overflows forms only sums that fit. -/
theorem fits_of_inBounds (sized : 1 ≤ size.toNat) {s : Planning}
    (inside : s.current.toNat ≤ endBlock.toNat)
    (inBounds : ∀ t, Reaches (chunkTurn mode endBlock size) s t →
      chunkTurn .checked endBlock size t ≠ .panic) : Fits endBlock size s := by
  induction bound : endBlock.toNat - s.current.toNat using Nat.strongRecOn
    generalizing s with
  | ind n ih =>
      have fits : s.current.toNat + size.toNat < 2 ^ 64 := by
        apply Nat.lt_of_not_le
        intro overflows
        exact inBounds s .start
          (chunkTurn_overflows (UInt64.le_iff_toNat_le.mpr inside) overflows)
      rcases chunkTurn_exact mode sized inside fits with
        ⟨short, -⟩ | ⟨last, next, -, moved, nextInside, goes⟩
      · refine ⟨inside, ?_⟩
        rw [lastSum_last short inside]
        exact fits
      · have later : Fits endBlock size { current := next, ranges := s.ranges ++ [(s.current, last)] } := by
          apply ih _ _ nextInside _ rfl
          · simp only
            omega
          · intro t reaches
            exact inBounds t (Reaches.after goes reaches)
        refine ⟨inside, ?_⟩
        rw [lastSum_full sized (by omega), ← moved]
        exact later.2

end Safety

/-- For a range and a size that `run` admits, planning is safe in a build of either kind exactly
when the last sum it forms fits into 64 bits. -/
theorem planning_safe_iff {start endBlock size : UInt64} (ordered : start ≤ endBlock)
    (sized : 1 ≤ size) (mode : Overflow) :
    SafePlanning mode start endBlock size ↔
      lastSum start.toNat endBlock.toNat size.toNat < 2 ^ 64 := by
  have ordered := UInt64.le_iff_toNat_le.mp ordered
  have sized : 1 ≤ size.toNat := UInt64.le_iff_toNat_le.mp sized
  constructor
  · exact fun safe => (@fits_of_inBounds mode _ _ sized (planningStart start) ordered safe.inBounds).2
  · exact fun fits => safe_of_fits mode sized ⟨ordered, fits⟩

theorem planning_safe_iff_small :
    SafePlanning .wrapping 10 19 5 ↔ lastSum 10 19 5 < 2 ^ 64 :=
  planning_safe_iff (by decide) (by decide) .wrapping

/-- A chunk size near the top of the 64 bits is admitted: a debug build panics, and in a release
build the plan runs downwards. -/
theorem huge_size_unsafe :
    chunkTurn .checked 200 18446744073709551615 (planningStart 100) = .panic ∧
      chunkTurn .wrapping 200 18446744073709551615 (planningStart 100) =
        .next { current := 99, ranges := [(100, 98)] } ∧
      ¬SafePlanning .checked 100 200 18446744073709551615 ∧
      ¬SafePlanning .wrapping 100 200 18446744073709551615 := by
  refine ⟨rfl, rfl, ?_, ?_⟩
  · exact fun safe => safe.inBounds _ .start rfl
  · exact fun safe => safe.inBounds _ .start rfl

section Returning

variable {mode : Overflow} {start endBlock size : UInt64}

/-- Where a checked build goes on, any build does the same. -/
theorem chunkTurn_of_checked (mode : Overflow) (sized : 1 ≤ size.toNat) {s : Planning}
    (goes : chunkTurn .checked endBlock size s ≠ .panic) :
    chunkTurn mode endBlock size s = chunkTurn .checked endBlock size s := by
  by_cases inside : s.current ≤ endBlock
  · have fits : s.current.toNat + size.toNat < 2 ^ 64 :=
      Nat.lt_of_not_le (fun overflows => goes (chunkTurn_overflows inside overflows))
    have inside := UInt64.le_iff_toNat_le.mp inside
    rcases chunkTurn_exact mode sized inside fits with
      ⟨short, turn⟩ | ⟨last, next, lastNat, nextNat, room, turn⟩
    · rcases chunkTurn_exact .checked sized inside fits with ⟨-, turn'⟩ | ⟨_, _, -, next', _, -⟩
      · rw [turn, turn']
      · omega
    · rcases chunkTurn_exact .checked sized inside fits with
        ⟨short, -⟩ | ⟨last', next', lastNat', nextNat', -, turn'⟩
      · omega
      · obtain rfl : last = last' := UInt64.toNat_inj.mp (by omega)
        obtain rfl : next = next' := UInt64.toNat_inj.mp (by omega)
        rw [turn, turn']
  · rw [chunkTurn, chunkTurn, if_neg inside, if_neg inside]

/-- A range has one plan, whatever the build. -/
theorem chunkRanges_unique {mode' : Overflow} (sized : 1 ≤ size.toNat) {plan plan' : List Chunk}
    (h : ChunkRanges mode start endBlock size plan)
    (h' : ChunkRanges mode' start endBlock size plan') : plan = plan' := by
  have lift : ∀ (mode : Overflow) {plan : List Chunk},
      ChunkRanges .checked start endBlock size plan → ChunkRanges mode start endBlock size plan :=
    fun mode _ planned => planned.of_turns (fun _ goes => chunkTurn_of_checked mode sized goes)
  cases mode with
  | checked => exact Returns.unique (lift mode' h) h'
  | wrapping =>
      cases mode' with
      | checked => exact Returns.unique h (lift .wrapping h')
      | wrapping => exact Returns.unique h h'

/-- The last block of a turn from `current` in 64-bit arithmetic. -/
def wrappedLast (current size : Nat) : Nat := (current + size - 1) % 2 ^ 64

/-- When the planning loop ends: a checked build must not overflow, and a wrapping one must come
to a chunk that reaches the end of the range. -/
def Plannable (mode : Overflow) (start endBlock size : UInt64) : Prop :=
  match mode with
  | .checked => lastSum start.toNat endBlock.toNat size.toNat < 2 ^ 64
  | .wrapping => ∃ k : Nat,
      endBlock.toNat ≤ wrappedLast start.toNat ((k + 1) * size.toNat)

theorem chunkTurn_wrapping {s : Planning} (sized : 1 ≤ size.toNat) (inside : s.current ≤ endBlock) :
    (endBlock.toNat ≤ wrappedLast s.current.toNat size.toNat ∧
        chunkTurn .wrapping endBlock size s = .leave (s.ranges ++ [(s.current, endBlock)])) ∨
      ∃ last next : UInt64, next.toNat = wrappedLast s.current.toNat size.toNat + 1 ∧
        next ≤ endBlock ∧ chunkTurn .wrapping endBlock size s =
          .next { current := next, ranges := s.ranges ++ [(s.current, last)] } := by
  have lastNat : (s.current + size - 1).toNat = wrappedLast s.current.toNat size.toNat := by
    have one : (1 : UInt64).toNat = 1 := rfl
    rw [UInt64.toNat_sub, UInt64.toNat_add, one, wrappedLast]
    omega
  have turn : chunkTurn .wrapping endBlock size s =
      if (if s.current + size - 1 ≤ endBlock then s.current + size - 1 else endBlock) = endBlock then
        .leave (s.ranges ++ [(s.current,
          if s.current + size - 1 ≤ endBlock then s.current + size - 1 else endBlock)])
      else .next
        { current := (if s.current + size - 1 ≤ endBlock then s.current + size - 1 else endBlock) + 1
          ranges := s.ranges ++ [(s.current,
            if s.current + size - 1 ≤ endBlock then s.current + size - 1 else endBlock)] } := by
    rw [chunkTurn, if_pos inside]
    rfl
  rw [turn, ← lastNat]
  by_cases before : (s.current + size - 1).toNat < endBlock.toNat
  · right
    have cut : (if s.current + size - 1 ≤ endBlock then s.current + size - 1 else endBlock) =
        s.current + size - 1 := if_pos (UInt64.le_iff_toNat_le.mpr (by omega))
    have differs : s.current + size - 1 ≠ endBlock := by
      intro same
      rw [same] at before
      omega
    have nextNat : (s.current + size - 1 + 1).toNat = (s.current + size - 1).toNat + 1 := by
      have := UInt64.toNat_lt endBlock
      have one : (1 : UInt64).toNat = 1 := rfl
      rw [UInt64.toNat_add, one]
      omega
    refine ⟨s.current + size - 1, s.current + size - 1 + 1, nextNat, ?_, ?_⟩
    · rw [UInt64.le_iff_toNat_le, nextNat]
      omega
    · rw [cut, if_neg differs]
  · left
    have cut : (if s.current + size - 1 ≤ endBlock then s.current + size - 1 else endBlock) =
        endBlock := by
      split
      · rename_i le
        have := UInt64.le_iff_toNat_le.mp le
        exact UInt64.toNat_inj.mp (by omega)
      · rfl
    exact ⟨by omega, by rw [cut, if_pos rfl]⟩

theorem wrappedLast_next {current size : Nat} (sized : 1 ≤ size) (k : Nat) :
    wrappedLast (wrappedLast current size + 1) ((k + 1) * size) =
      wrappedLast current ((k + 1 + 1) * size) := by
  have more : (k + 1 + 1) * size = (k + 1) * size + size := Nat.succ_mul (k + 1) size
  have some_ : 1 * size ≤ (k + 1) * size := Nat.mul_le_mul_right _ (Nat.le_add_left 1 k)
  unfold wrappedLast
  omega

/-- The wrapping loop returns when one of its chunks reaches the end, and only then. -/
theorem wrapping_returns_iff (sized : 1 ≤ size.toNat) {s : Planning}
    (inside : s.current ≤ endBlock) :
    (∃ plan, Returns (chunkTurn .wrapping endBlock size) s plan) ↔
      ∃ k : Nat, endBlock.toNat ≤ wrappedLast s.current.toNat ((k + 1) * size.toNat) := by
  constructor
  · rintro ⟨plan, returns⟩
    induction returns with
    | @leave s _ left =>
        rcases chunkTurn_wrapping sized inside with ⟨reached, -⟩ | ⟨_, _, -, -, turn⟩
        · exact ⟨0, by rw [Nat.zero_add, Nat.one_mul]; exact reached⟩
        · cases turn.symm.trans left
    | @next s t _ goes _ ih =>
        rcases chunkTurn_wrapping sized inside with ⟨-, turn⟩ | ⟨_, next, moved, nextInside, turn⟩
        · cases turn.symm.trans goes
        · obtain rfl := Turn.next.inj (turn.symm.trans goes)
          obtain ⟨k, reached⟩ := ih nextInside
          rw [moved, wrappedLast_next sized] at reached
          exact ⟨k + 1, reached⟩
  · rintro ⟨k, reached⟩
    induction k generalizing s with
    | zero =>
        rw [Nat.zero_add, Nat.one_mul] at reached
        rcases chunkTurn_wrapping sized inside with ⟨-, turn⟩ | ⟨last, next, moved, nextInside, turn⟩
        · exact ⟨_, .leave turn⟩
        · have := UInt64.le_iff_toNat_le.mp nextInside
          omega
    | succ k ih =>
        rcases chunkTurn_wrapping sized inside with ⟨-, turn⟩ | ⟨last, next, moved, nextInside, turn⟩
        · exact ⟨_, .leave turn⟩
        · rw [← wrappedLast_next sized, ← moved] at reached
          obtain ⟨plan, returns⟩ := @ih { current := next, ranges := _ } nextInside reached
          exact ⟨plan, .next turn returns⟩

/-- Which ranges that `run` admits have a plan. -/
theorem chunkRanges_exists_iff (sized : 1 ≤ size.toNat) (ordered : start ≤ endBlock) :
    (∃ plan, ChunkRanges mode start endBlock size plan) ↔ Plannable mode start endBlock size := by
  have ordered' := UInt64.le_iff_toNat_le.mp ordered
  cases mode with
  | checked =>
      constructor
      · rintro ⟨plan, planned⟩
        exact (chunkRanges_cut sized ordered' planned).2
      · intro fits
        exact (safe_of_fits .checked sized ⟨ordered', fits⟩).returns
  | wrapping => exact wrapping_returns_iff sized ordered

end Returning

/-- What a plan is for the range. -/
structure Partitions (start endBlock size : UInt64) (plan : List Chunk) : Prop where
  head : plan.head?.map Prod.fst = some start
  last : ∃ chunk, plan.getLast? = some chunk ∧ chunk.2 = endBlock ∧ chunk.1 ≤ endBlock ∧
    endBlock.toNat < chunk.1.toNat + size.toNat
  ordered : ∀ chunk ∈ plan, chunk.1 ≤ chunk.2
  chain : plan.IsChain (fun chunk next =>
    chunk.2.toNat + 1 = chunk.1.toNat + size.toNat ∧ next.1.toNat = chunk.2.toNat + 1)
  covers : ∀ block, (plan.filter (fun chunk => InChunk block chunk)).length =
    if start ≤ block ∧ block ≤ endBlock then 1 else 0
  count : plan.length = (endBlock.toNat - start.toNat + 1) ⌈/⌉ size.toNat

theorem ceil_count {n size : Nat} (positive : 0 < size) : n / size + 1 = (n + 1) ⌈/⌉ size := by
  rw [Nat.ceilDiv_eq_add_pred_div]
  have : n + 1 + size - 1 = n + size := by omega
  rw [this, Nat.add_div_right _ positive]

/-- A plan made without overflow is empty for an empty range only; otherwise it is a partition. -/
theorem plan_partitions {start endBlock size : UInt64} {plan : List Chunk} (sized : 1 ≤ size)
    (planned : ChunkRanges .checked start endBlock size plan) :
    (plan = [] ↔ endBlock < start) ∧
      (start ≤ endBlock → Partitions start endBlock size plan) := by
  have sized : 1 ≤ size.toNat := UInt64.le_iff_toNat_le.mp sized
  by_cases ordered : start ≤ endBlock
  · have ordered' := UInt64.le_iff_toNat_le.mp ordered
    obtain ⟨cut, -⟩ := chunkRanges_cut sized ordered' planned
    have head := cut.head
    have filled : plan ≠ [] := by
      rintro rfl
      cases head
    refine ⟨⟨fun empty => absurd empty filled, fun less => ?_⟩, fun _ => ?_⟩
    · exact absurd ordered (UInt64.not_le.mpr less)
    · refine ⟨?_, ?_, ?_, ?_, chunkRanges_count sized ordered' planned, ?_⟩
      · cases plan with
        | nil => exact absurd rfl filled
        | cons chunk rest =>
            have same : chunk.1.toNat = start.toNat := Option.some.inj head
            exact congrArg some (UInt64.toNat_inj.mp same)
      · obtain ⟨range, isLast, ends, low, short⟩ := cut.getLast
        rw [List.getLast?_map] at isLast
        obtain ⟨chunk, lastChunk, rfl⟩ := Option.map_eq_some_iff.mp isLast
        exact ⟨chunk, lastChunk, UInt64.toNat_inj.mp ends, UInt64.le_iff_toNat_le.mpr low, short⟩
      · intro chunk member
        have := tiles_bounds cut.tiles (bounds chunk) (List.mem_map.mpr ⟨chunk, member, rfl⟩)
        exact UInt64.le_iff_toNat_le.mpr this.2.1
      · exact (List.isChain_map bounds).mp cut.chain
      · rw [← List.length_map bounds, cut.count, ceil_count sized]
  · have empty : plan = [] := by
      have left : chunkTurn .checked endBlock size (planningStart start) = .leave [] :=
        if_neg ordered
      exact Returns.unique planned (.leave left)
    exact ⟨⟨fun _ => UInt64.not_le.mp ordered, fun _ => empty⟩, fun le => absurd le ordered⟩

theorem plan_partitions_small : Partitions 10 20 5 [(10, 14), (15, 19), (20, 20)] :=
  (plan_partitions (by decide) (chunkRanges_of_run 4 rfl)).2 (by decide)

end PolymarketIndexer.Backfill
