import PolymarketIndexer.Frontfill.Interrupted

/-! # A live run that dies

What a run has written before its last rotation survives it. The rest was written since, for logs
before the end of the window that is open, which `flush_blocks` puts behind the block of one of
the received logs. A run that dies in a rotation or a close, or fails there, has saved some event
types as a whole and the others up to the rotation before.
-/

namespace PolymarketIndexer.Frontfill

open ParquetStorage

/-- The block is before the next rotation, or none can come after it. -/
def InWindow {σ ω : Type} (s : State σ ω) (block : UInt64) : Prop :=
  ∃ target, s.nextRotationBlock = some target ∧ (block < target ∨ block = U64.max)

/-- What a crash would lose, and the log in hand, are in the open window. -/
structure AtRisk (config : FrontfillConfig) (s : LiveState) : Prop where
  recent : ∀ io call, .writeEvent io call ∈ recentCalls s.sinkCalls → InWindow s call.blockNumber
  decided : ∀ taken event, s.phase.inHand = some (taken, some event) →
    InWindow s taken.blockNumber
  opened : ∀ target, s.nextRotationBlock = some target → ∃ log ∈ s.received, ∃ block,
    log.blockNumber = some block ∧ target = U64.saturatingAdd block config.flushBlocks

section Parts

variable {config : FrontfillConfig} {alloy : Alloy} {s t : LiveState}

theorem inWindow_opened {block flushBlocks : UInt64} (flushes : flushBlocks ≠ 0) :
    block < U64.saturatingAdd block flushBlocks ∨ block = U64.max := by
  have positive : flushBlocks.toNat ≠ 0 := fun zero => flushes (UInt64.toNat_inj.mp zero)
  have largest : U64.max.toNat = 2 ^ 64 - 1 := rfl
  have bound := block.toNat_lt
  by_cases last : block = U64.max
  · exact .inr last
  · have below : block.toNat ≠ U64.max.toNat := fun same => last (UInt64.toNat_inj.mp same)
    left
    rw [UInt64.lt_iff_toNat_lt, U64.saturatingAdd_toNat]
    omega

/-- A step that leaves the calls, the window and the decided log as they are. -/
theorem AtRisk.still (atRisk : AtRisk config s) (calls : t.sinkCalls = s.sinkCalls)
    (window : t.nextRotationBlock = s.nextRotationBlock) (received : s.received ⊆ t.received)
    (decided : ∀ taken event, t.phase.inHand = some (taken, some event) →
      InWindow t taken.blockNumber) : AtRisk config t where
  recent io call member := by
    rw [calls] at member
    obtain ⟨target, open_, inside⟩ := atRisk.recent io call member
    exact ⟨target, window.trans open_, inside⟩
  decided := decided
  opened target open_ := by
    obtain ⟨log, member, block, rest⟩ := atRisk.opened target (window.symm.trans open_)
    exact ⟨log, received member, block, rest⟩

/-- The log in hand was received, with its block. -/
theorem inHand_received {taken : Taken} {event? : Option DecodedEvent}
    (ingested : Ingested alloy s) (held : s.phase.inHand = some (taken, event?)) :
    ∃ log ∈ s.received, log.blockNumber = some taken.blockNumber := by
  obtain ⟨done, log, received, -, checked, -⟩ := ingested.busy taken event? held
  obtain ⟨hash, block, -⟩ := checkMetadata_iff.mp checked
  exact ⟨log, by rw [received]; simp, block⟩

theorem decode_inHand {u : LiveState} {taken taken' : Taken} {event? : Option DecodedEvent}
    (held : (u.decode alloy taken).phase.inHand = some (taken', event?)) : taken' = taken := by
  rcases @decode_decides _ _ alloy u taken with ⟨error, -, free, -⟩ | ⟨-, selecting⟩ |
    ⟨event, -, own, -⟩
  · cases free.symm.trans held
  · rw [selecting] at held
    cases held
  · exact (Prod.mk.inj (Option.some.inj (held.symm.trans own))).1

theorem step_atRisk {input : Input ParquetIo} (flushes : config.flushBlocks ≠ 0)
    (ingested : Ingested alloy s) (atRisk : AtRisk config s)
    (moved : step config alloy s input = some t) : AtRisk config t := by
  have empty : ∀ {u : LiveState}, u.phase.inHand = none → ∀ taken event,
      u.phase.inHand = some (taken, some event) → InWindow u taken.blockNumber := by
    intro u free taken event held
    cases free.symm.trans held
  have more : ∀ {u : LiveState} {effects : List (Effect ParquetIo)}, u.trace = s.trace ++ effects →
      s.received ⊆ u.received := by
    intro u effects trace
    rw [State.received, State.received, trace, List.filterMap_append]
    exact List.subset_append_left _ _
  cases step_moves moved with
  | quiet sink trace inHand result subscribing window =>
      refine atRisk.still (by rw [State.sinkCalls, trace]; rfl) window
        (more (by rw [trace, List.append_nil])) ?_
      intro taken event held
      obtain ⟨target, open_, inside⟩ := atRisk.decided taken event (inHand.symm.trans held)
      exact ⟨target, window.trans open_, inside⟩
  | refused =>
      exact atRisk.still (by simp [State.sinkCalls, Effect.sinkCall?]) rfl (more rfl) (empty rfl)
  | @took _ log selecting =>
      refine atRisk.still (by simp [State.sinkCalls, Effect.sinkCall?]) (take_window _ _ _)
        (more (take_trace _ _ _)) ?_
      intro taken event held
      rcases @take_decides _ _ alloy s log with ⟨error, -, free, -⟩ | ⟨taken', -, held', -⟩
      · cases free.symm.trans held
      · cases held'.symm.trans held
  | @decided u taken locking early sink trace window =>
      have hand : s.phase.inHand = some (taken, none) := by rw [locking]; rfl
      have kept : ∀ target, s.nextRotationBlock = some target →
          (u.decode alloy taken).nextRotationBlock = some target := by
        intro target open_
        rw [decode_window, window, open_, Option.getD_some]
      refine ⟨?_, ?_, ?_⟩
      · intro io call member
        rw [State.sinkCalls, decode_trace, trace] at member
        obtain ⟨target, open_, inside⟩ := atRisk.recent io call member
        exact ⟨target, kept target open_, inside⟩
      · intro taken' event held
        obtain rfl := decode_inHand held
        cases open_ : s.nextRotationBlock with
        | none =>
            refine ⟨_, by rw [decode_window, window, open_, Option.getD_none], ?_⟩
            exact inWindow_opened flushes
        | some target =>
            exact ⟨target, kept target open_, .inl (UInt64.not_le.mp (early target open_))⟩
      · intro target open_
        have received : (u.decode alloy taken).received = s.received := by
          rw [State.received, decode_trace, trace]
          rfl
        rw [received]
        cases before : s.nextRotationBlock with
        | none =>
            rw [decode_window, window, before, Option.getD_none] at open_
            obtain ⟨log, member, block⟩ := inHand_received ingested hand
            exact ⟨log, member, _, block, (Option.some.inj open_).symm⟩
        | some old =>
            obtain rfl := Option.some.inj ((kept old before).symm.trans open_)
            exact atRisk.opened old before
  | @rotated u taken io rotating call trace window =>
      have hand : s.phase.inHand = some (taken, none) := by rw [rotating]; rfl
      have cut : recentCalls (u.decode alloy taken).sinkCalls = [] := by
        rw [State.sinkCalls, decode_trace, trace, List.filterMap_append]
        exact List.rtakeWhile_concat_neg _ _ _ (by simp [SinkCall.isWrite])
      refine ⟨?_, ?_, ?_⟩
      · intro io' call' member
        rw [cut] at member
        cases member
      · intro taken' event held
        obtain rfl := decode_inHand held
        exact ⟨_, by rw [decode_window, window], inWindow_opened flushes⟩
      · intro target open_
        rw [decode_window, window] at open_
        obtain ⟨log, member, block⟩ := inHand_received ingested hand
        have received : s.received ⊆ (u.decode alloy taken).received :=
          more ((decode_trace _ _ _).trans trace)
        exact ⟨log, received member, _, block, (Option.some.inj open_).symm⟩
  | rotateFailed =>
      exact atRisk.still (by simp [State.sinkCalls, Effect.sinkCall?]) rfl (more rfl) (empty rfl)
  | @wrote _ taken decoded io writing call trace selecting window =>
      have hand : s.phase.inHand = some (taken, some decoded) := by rw [writing]; rfl
      have appended : recentCalls t.sinkCalls =
          recentCalls s.sinkCalls ++ [.writeEvent io.write (taken.call decoded)] := by
        rw [State.sinkCalls, trace, List.filterMap_append]
        exact List.rtakeWhile_concat_pos _ _ _ rfl
      refine ⟨?_, empty (by rw [selecting]; rfl), ?_⟩
      · intro io' call' member
        rw [appended, List.mem_append, List.mem_singleton] at member
        rcases member with before | now
        · obtain ⟨target, open_, inside⟩ := atRisk.recent io' call' before
          exact ⟨target, window.trans open_, inside⟩
        · obtain ⟨rfl, rfl⟩ := SinkCall.writeEvent.inj now
          obtain ⟨target, open_, inside⟩ := atRisk.decided taken decoded hand
          exact ⟨target, window.trans open_, inside⟩
      · intro target open_
        obtain ⟨log, member, block, rest⟩ := atRisk.opened target (window.symm.trans open_)
        exact ⟨log, more trace member, block, rest⟩
  | writeFailed writing call trace free result window =>
      exact atRisk.still (by simp [State.sinkCalls, trace, Effect.sinkCall?]) window (more trace)
        (empty free)
  | @closed _ io closing call trace free result window =>
      have cut : recentCalls t.sinkCalls = [] := by
        rw [State.sinkCalls, trace, List.filterMap_append]
        exact List.rtakeWhile_concat_neg _ _ _ (by simp [SinkCall.isWrite])
      refine ⟨?_, empty free, ?_⟩
      · intro io' call' member
        rw [cut] at member
        cases member
      · intro target open_
        obtain ⟨log, member, block, rest⟩ := atRisk.opened target (window.symm.trans open_)
        exact ⟨log, more trace member, block, rest⟩
  | closeFailed =>
      exact atRisk.still (by simp [State.sinkCalls, Effect.sinkCall?]) rfl (more rfl) (empty rfl)

end Parts

section Run

variable {config : FrontfillConfig} {alloy : Alloy} {s t : LiveState}
  {runtime : Except String FrontfillMetrics} {inputs : List (Input ParquetIo)}

theorem run_atRisk {storage : Except String ParquetSink}
    (start : launch config storage runtime = .ok s)
    (run : Machine.exec (step config alloy) s inputs = some t) : AtRisk config t := by
  obtain ⟨flushes, -, phase, trace, -, -, window⟩ := launch_start start
  have first : AtRisk config s := by
    refine ⟨?_, ?_, ?_⟩
    · intro io call member
      rw [State.sinkCalls, trace] at member
      cases member
    · intro taken event held
      rw [phase] at held
      cases held
    · intro target open_
      cases window.symm.trans open_
  have keeps : ∀ (a : LiveState) (input : Input ParquetIo) (b : LiveState), True →
      (Ingested alloy a ∧ AtRisk config a) → step config alloy a input = some b →
      Ingested alloy b ∧ AtRisk config b :=
    fun _ _ _ _ before moved =>
      ⟨step_ingested before.1 moved, step_atRisk flushes before.1 before.2 moved⟩
  have ingested : Ingested alloy s := @run_ingested _ _ config alloy _ _ _ _ _ [] start rfl
  exact (Machine.exec_invariant _ keeps (fun _ _ => trivial) run ⟨ingested, first⟩).2

/-- Wherever a run stops, the files that can be read hold of each event type exactly what it wrote
before its last rotation, each row once, or all that it wrote, which is only so when a call failed
or nothing was written since. What is lost was written since, for blocks before the end of the open
window, which is `flush_blocks` after the block of one of the received logs. -/
theorem crash_loses_open_window (start : launch config (.ok fresh) runtime = .ok s)
    (run : Machine.exec (step config alloy) s inputs = some t) (room : t.rotations < 2 ^ 64) :
    (∀ E, t.accepted E = writtenRows E (settledCalls t.sinkCalls) ++
        writtenRows E (recentCalls t.sinkCalls) ∧
      (Lossless t.sink.disk E (writtenRows E (settledCalls t.sinkCalls)) ∨
        (∃ error, .sinkFailed error ∈ t.trace) ∧ Lossless t.sink.disk E (t.accepted E))) ∧
    (∀ io call, .writeEvent io call ∈ recentCalls t.sinkCalls → ∃ target,
      t.nextRotationBlock = some target ∧
        (call.blockNumber < target ∨ call.blockNumber = U64.max)) ∧
    ∀ target, t.nextRotationBlock = some target → ∃ log ∈ t.received, ∃ block,
      log.blockNumber = some block ∧ target = U64.saturatingAdd block config.flushBlocks := by
  have atRisk := run_atRisk start run
  refine ⟨fun E => ⟨?_, ?_⟩, atRisk.recent, atRisk.opened⟩
  · rw [← writtenRows_append, split_calls, writtenRows_calls]
  · obtain ⟨legible, -, which⟩ := run_legible start run room E
    rw [← writtenRows_calls]
    rcases which with settled | ⟨failed, whole⟩
    · left
      rw [← settled]
      exact legible.lossless
    · right
      rw [← whole]
      exact ⟨failed, legible.lossless⟩

end Run

section Example

/-- The second log rotates; its row is lost when the run dies, the first one's is not. -/
theorem crash_loses_open_window_two : ∃ t,
    live (connecting ++ (ingesting (cancelled 10 0) ++
      [.next (some (cancelled 2000 0)), .lock, .sink sinkOk, .sink sinkOk])) = some t ∧
    ∃ first second, t.accepted "OrderCancelled" = [first, second] ∧
      Lossless t.sink.disk "OrderCancelled" [first] := by
  have returns : (live (connecting ++ (ingesting (cancelled 10 0) ++
      [.next (some (cancelled 2000 0)), .lock, .sink sinkOk, .sink sinkOk]))).isSome := by
    rw [live_connecting]
    rfl
  obtain ⟨t, run⟩ := Option.isSome_iff_exists.mp returns
  have heard := run
  rw [live_connecting] at heard
  have phase : t.phase = .selecting none := seen State.phase heard rfl
  have rotations : t.rotations = 1 := seen State.rotations heard rfl
  obtain ⟨parts, which⟩ := (crash_loses_open_window liveStart_launched run
    (by rw [rotations]; decide)).1 "OrderCancelled"
  have sound := ends_of_running (run_judged liveStart_launched run) (by rw [phase]; rfl)
  have lossless := which.resolve_right fun ⟨⟨_, failed⟩, _⟩ => by cases sound _ failed
  obtain ⟨first, settled⟩ : ∃ first,
      writtenRows "OrderCancelled" (settledCalls t.sinkCalls) = [first] :=
    ⟨_, seen (fun t => writtenRows "OrderCancelled" (settledCalls t.sinkCalls)) heard rfl⟩
  obtain ⟨second, recent⟩ : ∃ second,
      writtenRows "OrderCancelled" (recentCalls t.sinkCalls) = [second] :=
    ⟨_, seen (fun t => writtenRows "OrderCancelled" (recentCalls t.sinkCalls)) heard rfl⟩
  rw [settled] at lossless
  rw [settled, recent] at parts
  exact ⟨t, run, first, second, parts, lossless⟩

end Example

end PolymarketIndexer.Frontfill
