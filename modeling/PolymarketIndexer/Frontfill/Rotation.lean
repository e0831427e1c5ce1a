import PolymarketIndexer.Frontfill.Ingest
import PolymarketIndexer.Library.Windows

/-! # Rotation windows of a live run

The run handles its logs in turns: a log is received, then it may rotate the file sets,
then it may be written. The first log opens a window, and a log rotates exactly when it
finds the window over, which is `flush_blocks` after the block of the log that opened
it. The windows are those of the whole run: a reconnect changes nothing.
-/

namespace PolymarketIndexer.Frontfill

/-- What the run did about one log. -/
structure Turn (ω : Type) where
  log : Log
  block : UInt64
  rotation : Option ω
  write : Option (ω × WriteCall)

variable {σ ω : Type}

def Turn.effects (turn : Turn ω) : List (Effect ω) :=
  .received turn.log :: ((turn.rotation.map Effect.rotated).toList ++
    (turn.write.map (fun write => Effect.wrote write.1 write.2)).toList)

def Turn.position (turn : Turn ω) : Nat := turn.block.toNat

def Turn.rotates (turn : Turn ω) : Bool := turn.rotation.isSome

/-- The first block after a window, as the saturating addition has it. -/
def windowEnd (flushBlocks : UInt64) (opened : Nat) : Nat :=
  min (opened + flushBlocks.toNat) (2 ^ 64 - 1)

theorem saturating_windowEnd (block flushBlocks : UInt64) :
    (U64.saturatingAdd block flushBlocks).toNat = windowEnd flushBlocks block.toNat :=
  U64.saturatingAdd_toNat block flushBlocks

/-- The turns rotate where their windows end, and the next rotation is due at the end of the
window that is open. -/
structure Windowed (flushBlocks : UInt64) (turns : List (Turn ω)) (next : Option UInt64) : Prop where
  blocks : ∀ turn ∈ turns, turn.log.blockNumber = some turn.block
  exact_ : Windows.Exact Turn.position Turn.rotates (windowEnd flushBlocks) turns
  next : next.map UInt64.toNat =
    (Windows.opener Turn.position Turn.rotates turns).map (windowEnd flushBlocks)

section Turns

variable {F : UInt64} {turns : List (Turn ω)} {next : Option UInt64} {turn : Turn ω}

theorem windowed_nil (F : UInt64) : Windowed F ([] : List (Turn ω)) none :=
  ⟨nofun, Windows.exact_nil, rfl⟩

theorem Windowed.blocks_snoc (h : Windowed F turns next)
    (block : turn.log.blockNumber = some turn.block) :
    ∀ turn' ∈ turns ++ [turn], turn'.log.blockNumber = some turn'.block := by
  intro turn' member
  rcases List.mem_append.mp member with before | last
  · exact h.blocks turn' before
  · rw [List.mem_singleton.mp last, block]

/-- A turn before the end of the window, or the first one. -/
theorem Windowed.keep (h : Windowed F turns next) (block : turn.log.blockNumber = some turn.block)
    (early : ∀ target, next = some target → ¬target ≤ turn.block) (still : turn.rotation = none) :
    Windowed F (turns ++ [turn]) (some (next.getD (U64.saturatingAdd turn.block F))) := by
  have uncut : turn.rotates = false := by rw [Turn.rotates, still]; rfl
  refine ⟨h.blocks_snoc block, ?_, ?_⟩
  · apply Windows.exact_snoc.mpr
    refine ⟨h.exact_, ?_⟩
    rw [uncut]
    refine ⟨nofun, ?_⟩
    rintro ⟨o, opened, reached⟩
    obtain ⟨target, due, same⟩ : ∃ target, next = some target ∧ target.toNat = windowEnd F o := by
      have next := h.next
      rw [opened] at next
      exact Option.map_eq_some_iff.mp next
    apply absurd _ (early target due)
    rw [UInt64.le_iff_toNat_le, same]
    exact reached
  · rw [Windows.opener_snoc, uncut, Bool.or_false]
    have next_ := h.next
    cases opened : Windows.opener Turn.position Turn.rotates turns with
    | none =>
        rw [opened] at next_
        rw [Option.map_eq_none_iff.mp next_]
        exact congrArg some (saturating_windowEnd turn.block F)
    | some o =>
        rw [opened] at next_
        obtain ⟨target, rfl, same⟩ := Option.map_eq_some_iff.mp next_
        exact congrArg some same

/-- A turn that rotates at or after the end of the window. -/
theorem Windowed.rotate (h : Windowed F turns next)
    (block : turn.log.blockNumber = some turn.block) {target : UInt64} (due : next = some target)
    (reached : target ≤ turn.block) (rotated : turn.rotation.isSome) :
    Windowed F (turns ++ [turn]) (some (U64.saturatingAdd turn.block F)) := by
  have cut : turn.rotates = true := rotated
  refine ⟨h.blocks_snoc block, ?_, ?_⟩
  · apply Windows.exact_snoc.mpr
    refine ⟨h.exact_, ?_⟩
    rw [cut]
    refine ⟨fun _ => ?_, fun _ => rfl⟩
    have next_ := h.next.symm
    rw [due] at next_
    obtain ⟨o, opened, same⟩ := Option.map_eq_some_iff.mp next_
    refine ⟨o, opened, ?_⟩
    rw [same]
    exact UInt64.le_iff_toNat_le.mp reached
  · rw [Windows.opener_snoc, cut, Bool.or_true]
    exact congrArg some (saturating_windowEnd turn.block F)

/-- Whether its log was written does not matter to the windows. -/
theorem Windowed.write {write : Option (ω × WriteCall)} (h : Windowed F (turns ++ [turn]) next) :
    Windowed F (turns ++ [{ turn with write := write }]) next := by
  obtain ⟨earlier, last⟩ := Windows.exact_snoc.mp h.exact_
  refine ⟨?_, Windows.exact_snoc.mpr ⟨earlier, last⟩, ?_⟩
  · intro turn' member
    rcases List.mem_append.mp member with before | here
    · exact h.blocks turn' (List.mem_append_left _ before)
    · rw [List.mem_singleton.mp here]
      exact h.blocks turn (List.mem_append_right _ List.mem_cons_self)
  · rw [h.next, Windows.opener_snoc, Windows.opener_snoc]
    rfl

end Turns

section Steps

variable {config : FrontfillConfig} {alloy : Alloy} {s t : State σ ω}

/-- The trace falls into turns, but for the log in hand and the close of a shutdown. -/
structure Turned (config : FrontfillConfig) (s : State σ ω) : Prop where
  idle : s.phase.inHand = none → s.phase.result? = none → ∃ turns : List (Turn ω),
    s.trace = turns.flatMap Turn.effects ∧ Windowed config.flushBlocks turns s.nextRotationBlock
  early : ∀ taken, s.phase.inHand = some (taken, none) → ∃ turns : List (Turn ω),
    s.trace = turns.flatMap Turn.effects ++ [.received taken.log] ∧
    Windowed config.flushBlocks turns s.nextRotationBlock ∧
    taken.log.blockNumber = some taken.blockNumber
  due : ∀ taken, s.phase = .rotating taken →
    ∃ target, s.nextRotationBlock = some target ∧ target ≤ taken.blockNumber
  late : ∀ taken decoded, s.phase.inHand = some (taken, some decoded) →
    ∃ (turns : List (Turn ω)) (turn : Turn ω), s.trace = (turns ++ [turn]).flatMap Turn.effects ∧
      turn.write = none ∧ Windowed config.flushBlocks (turns ++ [turn]) s.nextRotationBlock
  stopped : s.phase.result? = some (.ok ()) → ∃ (turns : List (Turn ω)) (io : ω),
    s.trace = turns.flatMap Turn.effects ++ [.closed io] ∧
    Windowed config.flushBlocks turns s.nextRotationBlock

theorem turned_error {error : String} (free : s.phase.inHand = none)
    (result : s.phase.result? = some (.error error)) : Turned config s where
  idle _ running := by cases running.symm.trans result
  early _ held := by cases free.symm.trans held
  due _ rotating := by
    rw [rotating] at free
    cases free
  late _ _ held := by cases free.symm.trans held
  stopped ok := by cases ok.symm.trans result

theorem turned_idle {turns : List (Turn ω)} (free : s.phase.inHand = none)
    (running : s.phase.result? = none) (trace : s.trace = turns.flatMap Turn.effects)
    (windowed : Windowed config.flushBlocks turns s.nextRotationBlock) : Turned config s where
  idle _ _ := ⟨turns, trace, windowed⟩
  early _ held := by cases free.symm.trans held
  due _ rotating := by
    rw [rotating] at free
    cases free
  late _ _ held := by cases free.symm.trans held
  stopped ok := by cases running.symm.trans ok

/-- Deciding about a log ends the part of its turn before the write. -/
theorem decode_turned {u : State σ ω} {taken : Taken} {turns : List (Turn ω)} {turn : Turn ω}
    (trace : u.trace = (turns ++ [turn]).flatMap Turn.effects) (unwritten : turn.write = none)
    (windowed : Windowed config.flushBlocks (turns ++ [turn]) u.nextRotationBlock) :
    Turned config (u.decode alloy taken) := by
  rcases @decode_decides _ _ alloy u taken with ⟨error, -, free, result⟩ | ⟨-, selecting⟩ |
    ⟨decoded, -, held, running⟩
  · exact turned_error free result
  · apply turned_idle (by rw [selecting]; rfl) (by rw [selecting]; rfl)
    · rw [decode_trace, trace]
    · rw [decode_window]
      exact windowed
  · refine ⟨?_, ?_, ?_, ?_, ?_⟩
    · intro free
      cases free.symm.trans held
    · intro taken' held'
      cases held.symm.trans held'
    · intro taken' rotating
      exact absurd rotating ((decode_plain u alloy taken).not_rotating taken')
    · intro taken' decoded' _
      exact ⟨turns, turn, by rw [decode_trace, trace], unwritten, by rwa [decode_window]⟩
    · intro ok
      cases ok.symm.trans running

theorem take_turned (free : s.phase.inHand = none) (running : s.phase.result? = none)
    (h : Turned config s) (log : Log) : Turned config (s.take alloy log) := by
  rcases @take_decides _ _ alloy s log with ⟨error, -, free', result⟩ |
    ⟨taken, checked, held, running'⟩
  · exact turned_error free' result
  · obtain ⟨turns, trace, windowed⟩ := h.idle free running
    obtain ⟨hash, block, -, -, same, -⟩ := checkMetadata_iff.mp checked
    refine ⟨?_, ?_, ?_, ?_, ?_⟩
    · intro free
      cases free.symm.trans held
    · intro taken' held'
      obtain ⟨rfl, -⟩ := Prod.mk.inj (Option.some.inj (held.symm.trans held'))
      refine ⟨turns, ?_, ?_, ?_⟩
      · rw [take_trace, trace, same]
      · rw [take_window]
        exact windowed
      · rw [same, block]
    · intro taken' rotating
      exact absurd rotating ((take_plain s alloy log).not_rotating taken')
    · intro taken' decoded held'
      cases held.symm.trans held'
    · intro ok
      cases ok.symm.trans running'

variable [EventSink σ ω]

theorem step_turned {input : Input ω} (h : Turned config s)
    (moved : step config alloy s input = some t) : Turned config t := by
  cases step_moves moved with
  | quiet sink trace inHand result subscribing window due =>
      refine ⟨?_, ?_, ?_, ?_, ?_⟩
      · rw [inHand, result, trace, window]
        exact h.idle
      · rw [inHand, trace, window]
        exact h.early
      · intro taken rotating
        rw [window]
        rcases due taken rotating with before | now
        · exact h.due taken before
        · exact now
      · rw [inHand, trace, window]
        exact h.late
      · rw [result, trace, window]
        exact h.stopped
  | refused free running why => exact turned_error rfl rfl
  | took selecting =>
      exact take_turned (by rw [selecting]; rfl) (by rw [selecting]; rfl) h _
  | @decided u taken locking early sink trace window =>
      obtain ⟨turns, before, windowed, block⟩ := h.early taken (by rw [locking]; rfl)
      have turn := @Windowed.keep _ _ turns _ ⟨taken.log, taken.blockNumber, none, none⟩ windowed
        block early rfl
      apply decode_turned _ rfl (by rw [window]; exact turn)
      rw [trace, before, List.flatMap_append]
      rfl
  | @rotated u taken io rotating call trace window =>
      obtain ⟨turns, before, windowed, block⟩ := h.early taken (by rw [rotating]; rfl)
      obtain ⟨target, due, reached⟩ := h.due taken rotating
      have turn := @Windowed.rotate _ _ turns _ ⟨taken.log, taken.blockNumber, some io, none⟩
        windowed block _ due reached rfl
      apply decode_turned _ rfl (by rw [window]; exact turn)
      rw [trace, before, List.flatMap_append]
      simp [Turn.effects]
  | rotateFailed rotating call => exact turned_error rfl rfl
  | @wrote _ taken decoded io writing call trace selecting window =>
      obtain ⟨turns, turn, before, unwritten, windowed⟩ :=
        h.late taken decoded (by rw [writing]; rfl)
      have written := @Windowed.write _ _ _ _ _ (some (io, taken.call decoded)) windowed
      apply turned_idle (by rw [selecting]; rfl) (by rw [selecting]; rfl) _
        (by rw [window]; exact written)
      rw [trace, before, List.flatMap_append, List.flatMap_append]
      simp [Turn.effects, unwritten]
  | writeFailed writing call trace free result => exact turned_error free result
  | @closed _ io closing call trace free result window =>
      obtain ⟨turns, before, windowed⟩ := h.idle (by rw [closing]; rfl) (by rw [closing]; rfl)
      refine ⟨?_, ?_, ?_, ?_, ?_⟩
      · intro _ running
        cases running.symm.trans result
      · intro taken held
        cases free.symm.trans held
      · intro taken rotating
        rw [rotating] at free
        cases free
      · intro taken decoded held
        cases free.symm.trans held
      · intro _
        exact ⟨turns, io, by rw [trace, before], by rw [window]; exact windowed⟩
  | closeFailed closing call => exact turned_error rfl rfl

theorem run_turned {storage : Except String σ} {runtime : Except String FrontfillMetrics}
    {inputs : List (Input ω)} (start : launch config storage runtime = .ok s)
    (run : Machine.exec (step config alloy) s inputs = some t) : Turned config t := by
  obtain ⟨-, -, phase, trace, -, -, window⟩ := launch_start start
  have first : Turned config s := by
    apply @turned_idle _ _ config s [] (by rw [phase]; rfl) (by rw [phase]; rfl)
    · rw [trace]
      rfl
    · rw [window]
      exact windowed_nil _
  have keeps : ∀ (a : State σ ω) (i : Input ω) (b : State σ ω), True → Turned config a →
      step config alloy a i = some b → Turned config b :=
    fun _ _ _ _ before moved => step_turned before moved
  exact Machine.exec_invariant _ keeps (fun _ _ => trivial) run first

/-- What is known of the turns of a run. The last three hold when blocks do not decrease and
stay below the last one. -/
structure ByWindows (F : UInt64) (turns : List (Turn ω)) : Prop where
  exact_ : Windows.Exact Turn.position Turn.rotates (windowEnd F) turns
  below : ∀ past turn rest o, turns = past ++ turn :: rest → turn.rotation = none →
    Windows.opener Turn.position Turn.rotates past = some o → turn.block.toNat < o + F.toNat
  together : turns.Pairwise (fun a b => a.block ≤ b.block) → (∀ turn ∈ turns, turn.block < U64.max) →
    ∀ past a mid b rest, turns = past ++ a :: (mid ++ b :: rest) → a.block = b.block →
      ∀ turn ∈ mid ++ [b], turn.rotation = none
  narrow : turns.Pairwise (fun a b => a.block ≤ b.block) → (∀ turn ∈ turns, turn.block < U64.max) →
    ∀ past a mid b rest, turns = past ++ a :: (mid ++ b :: rest) →
      (∀ turn ∈ mid ++ [b], turn.rotation = none) → b.block.toNat < a.block.toNat + F.toNat
  few : turns.Pairwise (fun a b => a.block ≤ b.block) → (∀ turn ∈ turns, turn.block < U64.max) →
    ∀ first last, turns.head? = some first → turns.getLast? = some last →
      turns.countP Turn.rotates ≤ (last.block.toNat - first.block.toNat) / F.toNat

theorem turn_uncut {turn : Turn ω} : turn.rotates = false ↔ turn.rotation = none := by
  rw [Turn.rotates, Option.isSome_eq_false_iff, Option.isNone_iff_eq_none]

theorem windowEnd_wide {F : UInt64} (positive : F ≠ 0) {turn : Turn ω} (low : turn.block < U64.max) :
    turn.position < windowEnd F turn.position := by
  have low := UInt64.lt_iff_toNat_lt.mp low
  have : U64.max.toNat = 2 ^ 64 - 1 := rfl
  have : F.toNat ≠ 0 := fun zero => positive (UInt64.toNat_inj.mp zero)
  unfold windowEnd Turn.position
  omega

theorem windowEnd_reached {F block : UInt64} {o : Nat} (low : block < U64.max)
    (reached : windowEnd F o ≤ block.toNat) : o + F.toNat ≤ block.toNat := by
  have low := UInt64.lt_iff_toNat_lt.mp low
  have : U64.max.toNat = 2 ^ 64 - 1 := rfl
  unfold windowEnd at reached
  omega

theorem positions_ascending {turns : List (Turn ω)}
    (ascending : turns.Pairwise (fun a b => a.block ≤ b.block)) :
    turns.Pairwise (fun a b => a.position ≤ b.position) :=
  ascending.imp (fun le => UInt64.le_iff_toNat_le.mp le)

theorem Windowed.byWindows {F : UInt64} {turns : List (Turn ω)} {next : Option UInt64}
    (h : Windowed F turns next) (positive : F ≠ 0) : ByWindows F turns where
  exact_ := h.exact_
  below past turn rest o split still opened := by
    have uncut := turn_uncut.mpr still
    have notOver : ¬windowEnd F o ≤ turn.position := by
      intro reached
      have cut := (h.exact_ past turn rest split).mpr ⟨o, opened, reached⟩
      rw [uncut] at cut
      cases cut
    unfold windowEnd Turn.position at notOver
    omega
  together ascending low past a mid b rest split same turn member := by
    subst split
    have wide := windowEnd_wide positive (low a (List.mem_append_right _ List.mem_cons_self))
    have samePosition : a.position = b.position := congrArg UInt64.toNat same
    have uncut := Windows.one_window wide h.exact_ (positions_ascending ascending) samePosition
    exact turn_uncut.mp (uncut turn member)
  narrow ascending low past a mid b rest split still := by
    subst split
    have wide := windowEnd_wide positive (low a (List.mem_append_right _ List.mem_cons_self))
    have bounded : ∀ o, windowEnd F o ≤ o + F.toNat := fun o => Nat.min_le_left _ _
    have uncut : ∀ turn ∈ mid ++ [b], Turn.rotates turn = false :=
      fun turn member => turn_uncut.mpr (still turn member)
    have near : b.position < a.position + F.toNat :=
      Windows.span_lt wide bounded h.exact_ (positions_ascending ascending) uncut
    exact near
  few ascending low first last starts ends := by
    have reach : ∀ o, ∀ turn ∈ turns, windowEnd F o ≤ turn.position → o + F.toNat ≤ turn.position :=
      fun o turn member reached => windowEnd_reached (low turn member) reached
    have some_ : Windows.opener Turn.position Turn.rotates turns ≠ none := by
      intro none_
      rw [Windows.opener_none.mp none_] at starts
      cases starts
    obtain ⟨o, opened⟩ := Option.ne_none_iff_exists'.mp some_
    have count := Windows.count_mul_le reach h.exact_ starts opened
    have upper := Windows.opener_le (positions_ascending ascending) opened ends
    have positive : 0 < F.toNat := by
      have : F.toNat ≠ 0 := fun zero => positive (UInt64.toNat_inj.mp zero)
      omega
    apply (Nat.le_div_iff_mul_le positive).mpr
    unfold Turn.position at count upper
    omega

/-- A run rotates exactly where its windows end, over all its connections: whenever no log is
in hand, and after a shutdown, its trace is a list of turns that go by windows. -/
theorem rotation_windows {storage : Except String σ} {runtime : Except String FrontfillMetrics}
    {inputs : List (Input ω)} (start : launch config storage runtime = .ok s)
    (run : Machine.exec (step config alloy) s inputs = some t) (free : t.phase.inHand = none)
    (fine : t.phase.result? = none ∨ t.phase.result? = some (.ok ())) :
    ∃ (turns : List (Turn ω)) (ending : List (Effect ω)),
      t.trace = turns.flatMap Turn.effects ++ ending ∧
      (ending = [] ∨ ∃ io, ending = [.closed io]) ∧
      (∀ turn ∈ turns, turn.log.blockNumber = some turn.block) ∧
      ByWindows config.flushBlocks turns := by
  obtain ⟨positive, -⟩ := launch_start start
  have turned := run_turned start run
  rcases fine with running | ok
  · obtain ⟨turns, trace, windowed⟩ := turned.idle free running
    exact ⟨turns, [], by rw [trace, List.append_nil], .inl rfl, windowed.blocks,
      windowed.byWindows positive⟩
  · obtain ⟨turns, io, trace, windowed⟩ := turned.stopped ok
    exact ⟨turns, [.closed io], trace, .inr ⟨io, rfl⟩, windowed.blocks,
      windowed.byWindows positive⟩

end Steps

section Example

/-- Two logs twelve blocks apart: the second one rotates. -/
def twoWindows : List (Input ParquetIo) :=
  connecting ++ ingesting (cancelled 10 0) ++
    [.next (some (cancelled 22 0)), .lock, .sink sinkOk, .sink sinkOk]

theorem rotation_windows_two : ∃ (t : State ParquetSink ParquetIo) (turns : List (Turn ParquetIo))
    (ending : List (Effect ParquetIo)), live twoWindows = some t ∧
      t.trace = turns.flatMap Turn.effects ++ ending ∧ ByWindows liveConfig.flushBlocks turns := by
  have returns : (live twoWindows).isSome := by
    rw [twoWindows, List.append_assoc, live_connecting]
    rfl
  obtain ⟨t, run⟩ := Option.isSome_iff_exists.mp returns
  have heard := run
  rw [twoWindows, List.append_assoc, live_connecting] at heard
  have phase : t.phase = .selecting none := seen State.phase heard rfl
  have windows := rotation_windows liveStart_launched run (by rw [phase]; rfl)
    (.inl (by rw [phase]; rfl))
  obtain ⟨turns, ending, trace, -, -, byWindows⟩ := windows
  exact ⟨t, turns, ending, run, trace, byWindows⟩

end Example

end PolymarketIndexer.Frontfill
