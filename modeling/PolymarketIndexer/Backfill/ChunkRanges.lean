import PolymarketIndexer.Primitives
import PolymarketIndexer.Library.Loop
import PolymarketIndexer.Library.Tiling

/-! # The chunk plan

`chunk_ranges` is a loop over machine integers. It may panic on overflow in a debug
build and may wrap, or never end, in a release build; it has a plan only when the
loop ends. A plan made without overflow tiles the requested range.
-/

namespace PolymarketIndexer.Backfill

open Loop Tiling

abbrev Chunk := UInt64 × UInt64

structure Planning where
  current : UInt64
  ranges : List Chunk

def chunkTurn (mode : Overflow) (endBlock size : UInt64) (s : Planning) :
    Turn Planning (List Chunk) :=
  if s.current ≤ endBlock then
    match (mode.add s.current size).bind (fun sum => mode.sub sum 1) with
    | none => .panic
    | some last =>
        let chunkEnd := if last ≤ endBlock then last else endBlock
        let ranges := s.ranges ++ [(s.current, chunkEnd)]
        if chunkEnd = endBlock then .leave ranges
        else match mode.add chunkEnd 1 with
          | none => .panic
          | some next => .next { current := next, ranges := ranges }
  else .leave s.ranges

/-- `chunk_ranges` returns the plan. -/
def ChunkRanges (mode : Overflow) (start endBlock size : UInt64) (plan : List Chunk) : Prop :=
  Returns (chunkTurn mode endBlock size) { current := start, ranges := [] } plan

def bounds (chunk : Chunk) : Nat × Nat := (chunk.1.toNat, chunk.2.toNat)

def InChunk (block : UInt64) (chunk : Chunk) : Prop := chunk.1 ≤ block ∧ block ≤ chunk.2

instance (block : UInt64) (chunk : Chunk) : Decidable (InChunk block chunk) :=
  inferInstanceAs (Decidable (_ ∧ _))

theorem inChunk_iff {block : UInt64} {chunk : Chunk} :
    InChunk block chunk ↔ Inside block.toNat (bounds chunk) := by
  simp only [InChunk, Inside, bounds, UInt64.le_iff_toNat_le]

theorem chunkRanges_of_run {mode : Overflow} {start endBlock size : UInt64} {plan : List Chunk}
    (fuel : Nat)
    (h : run (chunkTurn mode endBlock size) fuel { current := start, ranges := [] } = some plan) :
    ChunkRanges mode start endBlock size plan :=
  returns_of_run h

/-- A turn whose sum fits takes up to `size` blocks from `current` and stops at the end. -/
theorem chunkTurn_exact (mode : Overflow) {endBlock size : UInt64} {s : Planning}
    (sized : 1 ≤ size.toNat) (inside : s.current.toNat ≤ endBlock.toNat)
    (fits : s.current.toNat + size.toNat < 2 ^ 64) :
    (endBlock.toNat < s.current.toNat + size.toNat ∧
        chunkTurn mode endBlock size s = .leave (s.ranges ++ [(s.current, endBlock)])) ∨
      ∃ last next : UInt64, last.toNat + 1 = s.current.toNat + size.toNat ∧
        next.toNat = s.current.toNat + size.toNat ∧ next.toNat ≤ endBlock.toNat ∧
        chunkTurn mode endBlock size s =
          .next { current := next, ranges := s.ranges ++ [(s.current, last)] } := by
  have inside' : s.current ≤ endBlock := UInt64.le_iff_toNat_le.mpr inside
  have oneNat : (1 : UInt64).toNat = 1 := rfl
  obtain ⟨sum, sumNat⟩ := Overflow.add_exact mode fits
  have one : (1 : UInt64) ≤ s.current + size := by
    rw [UInt64.le_iff_toNat_le, sumNat]
    omega
  obtain ⟨difference, lastNat⟩ := Overflow.sub_exact mode one
  unfold chunkTurn
  rw [if_pos inside', sum, Option.bind_some, difference]
  simp only
  by_cases short : endBlock.toNat < s.current.toNat + size.toNat
  · left
    have isEnd : (if s.current + size - 1 ≤ endBlock then s.current + size - 1 else endBlock) =
        endBlock := by
      split
      · rename_i le
        apply UInt64.toNat_inj.mp
        have := UInt64.le_iff_toNat_le.mp le
        omega
      · rfl
    refine ⟨short, ?_⟩
    rw [isEnd, if_pos rfl]
  · right
    have le : s.current + size - 1 ≤ endBlock := by
      rw [UInt64.le_iff_toNat_le]
      omega
    have differs : s.current + size - 1 ≠ endBlock := by
      intro same
      have := congrArg UInt64.toNat same
      omega
    have room : (s.current + size - 1).toNat + (1 : UInt64).toNat < 2 ^ 64 := by omega
    obtain ⟨following, nextNat⟩ := Overflow.add_exact mode room
    refine ⟨s.current + size - 1, s.current + size - 1 + 1, by omega, by omega, by omega, ?_⟩
    rw [if_pos le, if_neg differs, following]

/-- A sum that does not fit is the end of a checked build. -/
theorem chunkTurn_overflows {endBlock size : UInt64} {s : Planning} (inside : s.current ≤ endBlock)
    (overflows : 2 ^ 64 ≤ s.current.toNat + size.toNat) :
    chunkTurn .checked endBlock size s = .panic := by
  have sum : Overflow.checked.add s.current size = none := if_neg (by omega)
  unfold chunkTurn
  rw [if_pos inside, sum]
  rfl

/-- The last sum of a range that is planned without overflow. -/
def lastSum (low high size : Nat) : Nat := low + ((high - low) / size + 1) * size

theorem lastSum_last {low high size : Nat} (short : high < low + size) (ordered : low ≤ high) :
    lastSum low high size = low + size := by
  rw [lastSum, Nat.div_eq_of_lt (by omega), Nat.zero_add, Nat.one_mul]

theorem lastSum_full {low high size : Nat} (sized : 1 ≤ size) (le : low + size ≤ high) :
    lastSum low high size = lastSum (low + size) high size := by
  have difference : high - low = high - (low + size) + size := by omega
  rw [lastSum, lastSum, difference, Nat.add_div_right _ (by omega), Nat.add_mul _ 1 size,
    Nat.one_mul]
  omega

theorem le_lastSum (low high size : Nat) : low + size ≤ lastSum low high size := by
  have : 1 * size ≤ ((high - low) / size + 1) * size := Nat.mul_le_mul_right _ (Nat.le_add_left 1 _)
  rw [lastSum]
  omega

theorem lt_lastSum {low high size : Nat} (sized : 1 ≤ size) (ordered : low ≤ high) :
    high < lastSum low high size := by
  have division := Nat.div_add_mod (high - low) size
  have remainder := Nat.mod_lt (high - low) (show size > 0 by omega)
  rw [lastSum, Nat.add_mul, Nat.one_mul, Nat.mul_comm]
  omega

/-- A plan made without overflow cuts the range into chunks, and its last sum fits. -/
theorem chunkRanges_cut {start endBlock size : UInt64} {plan : List Chunk}
    (sized : 1 ≤ size.toNat) (ordered : start.toNat ≤ endBlock.toNat)
    (h : ChunkRanges .checked start endBlock size plan) :
    Cut size.toNat start.toNat (plan.map bounds) endBlock.toNat ∧
      lastSum start.toNat endBlock.toNat size.toNat < 2 ^ 64 := by
  have general : ∀ s : Planning, Returns (chunkTurn .checked endBlock size) s plan →
      s.current.toNat ≤ endBlock.toNat →
      ∃ rest, plan = s.ranges ++ rest ∧
        Cut size.toNat s.current.toNat (rest.map bounds) endBlock.toNat ∧
        lastSum s.current.toNat endBlock.toNat size.toNat < 2 ^ 64 := by
    intro s returns
    clear h
    have cases_ : ∀ s : Planning, s.current.toNat ≤ endBlock.toNat →
        chunkTurn .checked endBlock size s ≠ .panic →
        s.current.toNat + size.toNat < 2 ^ 64 := by
      intro s inside goes
      apply Nat.lt_of_not_le
      intro overflows
      exact goes (chunkTurn_overflows (UInt64.le_iff_toNat_le.mpr inside) overflows)
    induction returns with
    | @leave s plan left =>
        intro inside
        have fits := cases_ s inside (by rw [left]; nofun)
        rcases chunkTurn_exact .checked sized inside fits with ⟨short, turn⟩ | ⟨_, _, -, -, -, turn⟩
        · obtain rfl := Turn.leave.inj (turn.symm.trans left)
          refine ⟨[(s.current, endBlock)], rfl, .last inside short, ?_⟩
          rw [lastSum_last short inside]
          exact fits
        · cases turn.symm.trans left
    | @next s t plan goes _ ih =>
        intro inside
        have fits := cases_ s inside (by rw [goes]; nofun)
        rcases chunkTurn_exact .checked sized inside fits with
          ⟨-, turn⟩ | ⟨last, next, lastNat, nextNat, nextInside, turn⟩
        · cases turn.symm.trans goes
        · obtain rfl := Turn.next.inj (turn.symm.trans goes)
          obtain ⟨rest, rfl, cut, sum⟩ := ih nextInside
          rw [nextNat] at cut sum
          refine ⟨(s.current, last) :: rest, by simp, .full lastNat cut, ?_⟩
          rw [lastSum_full sized (by omega)]
          exact sum
  obtain ⟨rest, rfl, cut, sum⟩ := general { current := start, ranges := [] } h ordered
  exact ⟨cut, sum⟩

/-- A plan made without overflow tiles the range up to the end. -/
theorem chunkRanges_tiles {start endBlock size : UInt64} {plan : List Chunk}
    (sized : 1 ≤ size.toNat) (ordered : start.toNat ≤ endBlock.toNat)
    (h : ChunkRanges .checked start endBlock size plan) :
    Tiles start.toNat (plan.map bounds) (endBlock.toNat + 1) :=
  (chunkRanges_cut sized ordered h).1.tiles

/-- A block of the range is in exactly one chunk of the plan, any other in none. -/
theorem chunkRanges_count {start endBlock size : UInt64} {plan : List Chunk}
    (sized : 1 ≤ size.toNat) (ordered : start.toNat ≤ endBlock.toNat)
    (h : ChunkRanges .checked start endBlock size plan) (block : UInt64) :
    (plan.filter (fun chunk => InChunk block chunk)).length =
      if start ≤ block ∧ block ≤ endBlock then 1 else 0 := by
  have count := tiles_count (chunkRanges_tiles sized ordered h) block.toNat
  rw [List.filter_map, List.length_map] at count
  simp only [Nat.lt_succ_iff, Function.comp_def] at count
  simpa only [inChunk_iff, UInt64.le_iff_toNat_le] using count

end PolymarketIndexer.Backfill
