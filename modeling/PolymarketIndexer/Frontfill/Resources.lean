import PolymarketIndexer.Agreement
import PolymarketIndexer.Frontfill.Archive

/-! # What a live run holds on to

A sink keeps at most one writer and one schema for each of the ten event types, and a file set gets
at most ten files. So the files of a run are as few as its windows.
-/

namespace PolymarketIndexer

namespace ParquetStorage

open Unordered

section Sink

variable {calls : List SinkCall} {disk : Disk} {t : ParquetSink}

/-- A map keyed by event types is small. -/
theorem entries_le {α : Type} (map : Map String α)
    (known : ∀ E a, map.lookup E = some a → ∃ kind : EventType, E = kind.name) :
    map.entries.length ≤ 10 := by
  have names : map.keys ⊆ EventType.all.map EventType.name := by
    intro E member
    obtain ⟨a, found⟩ := Option.isSome_iff_exists.mp (AList.lookup_isSome.mpr member)
    obtain ⟨kind, rfl⟩ := known E a found
    exact List.mem_map_of_mem kind.mem_all
  have few := (List.subperm_of_subset map.keys_nodup names).length_le
  rw [AList.keys, List.keys, List.length_map, List.length_map] at few
  exact few

/-- Each rotation and each close lets an event type open one more file. -/
theorem openings_le (E : String) (id : UInt64) (isOpen : Bool) (calls : List SinkCall) :
    (openings E id isOpen calls).length + (if isOpen then 1 else 0) ≤
      calls.countP (fun call => !call.isWrite) + 1 := by
  induction calls generalizing id isOpen with
  | nil => cases isOpen <;> simp [openings]
  | cons call calls ih =>
      cases call with
      | writeEvent io call =>
          have later := ih id true
          have same := ih id isOpen
          rw [openings, List.countP_cons_of_neg (by simp [SinkCall.isWrite])]
          split
          · cases isOpen <;> simpa using later
          · exact same
      | rotateWriters io =>
          have later := ih (U64.saturatingAdd id 1) false
          rw [openings, List.countP_cons_of_pos (by simp [SinkCall.isWrite])]
          cases isOpen <;> simp at later ⊢ <;> omega
      | closeWriters io =>
          have later := ih id false
          rw [openings, List.countP_cons_of_pos (by simp [SinkCall.isWrite])]
          cases isOpen <;> simp at later ⊢ <;> omega

/-- Every file a history creates. -/
def created (calls : List SinkCall) : List Path :=
  EventType.all.flatMap (fun kind => (openings kind.name 0 false calls).map (setPath kind.name))

theorem created_le {bound : Nat}
    (each : ∀ E, (openings E 0 false calls).length ≤ bound) :
    (created calls).length ≤ 10 * bound := by
  have all : ∀ kinds : List EventType,
      (kinds.flatMap (fun kind =>
        (openings kind.name 0 false calls).map (setPath kind.name))).length ≤
          kinds.length * bound := by
    intro kinds
    induction kinds with
    | nil => exact Nat.zero_le _
    | cons kind kinds ih =>
        rw [List.flatMap_cons, List.length_append, List.length_map, List.length_cons, Nat.succ_mul]
        have first := each kind.name
        omega
  exact all EventType.all

/-- A file that is not as before was created by the history. -/
theorem changed_created (done : (perform calls).run (freshOn disk) = (.ok (), t)) (typed : Typed t)
    {p : Path} (changed : t.disk.file p ≠ disk.file p) : p ∈ created calls := by
  have consistent := perform_consistent (consistent_freshOn disk) done
  have used : ∀ kind : EventType, p ∈ paths kind.name t → p ∈ created calls := by
    intro kind member
    have opened := perform_paths (keyed_freshOn disk) done kind.name
    have all : paths kind.name t = (openings kind.name 0 false calls).map (setPath kind.name) := by
      simpa [paths, closedFor, freshOn, new] using opened
    rw [all] at member
    exact List.mem_flatMap.mpr ⟨kind, kind.mem_all, member⟩
  by_cases opened : ∃ E writer, t.storage.writers.lookup E = some writer ∧ writer.path = p
  · obtain ⟨E, writer, lookup, rfl⟩ := opened
    obtain ⟨kind, rfl, -⟩ := typed.current E writer lookup
    exact used kind (List.mem_map_of_mem
      (List.mem_append_right _ (Option.mem_toList.mpr lookup)))
  · have finished := consistent.finished p (fun E writer lookup same =>
      opened ⟨E, writer, lookup, same⟩)
    cases held : LastWins.held ArrowWriter.path t.closed p with
    | none =>
        rw [held] at finished
        exact absurd finished changed
    | some writer =>
        obtain ⟨inClosed, atPath⟩ := List.mem_filter.mp (List.mem_of_getLast? held)
        have atPath : writer.path = p := of_decide_eq_true atPath
        obtain ⟨kind, name, -⟩ := typed.finished writer inClosed
        refine used kind (atPath ▸ List.mem_map_of_mem (List.mem_append_left _ ?_))
        exact List.mem_filter.mpr ⟨inClosed, decide_eq_true name⟩

end Sink

end ParquetStorage

namespace Frontfill

open ParquetStorage

section Run

variable {config : FrontfillConfig} {alloy : Alloy} {disk : Disk} {s t : LiveState}
  {inputs : List (Input ParquetIo)}

theorem created_rotations {storage : Except String ParquetSink}
    {runtime : Except String FrontfillMetrics} (start : launch config storage runtime = .ok s)
    (run : Machine.exec (step config alloy) s inputs = some t) :
    (created t.sinkCalls).length ≤ 10 * (t.rotations + 1) := by
  obtain ⟨calls, unclosed, count, same⟩ := calls_before_close start run
  have cuts : calls.countP (fun call => !call.isWrite) = ParquetStorage.rotations calls := by
    apply List.countP_congr
    intro call member
    have open_ := unclosed call member
    cases call with
    | closeWriters io => cases open_
    | writeEvent | rotateWriters => simp [SinkCall.isWrite, SinkCall.isRotation]
  refine created_le fun E => ?_
  have few := openings_le E 0 false calls
  rw [same, ← count, ← cuts]
  simpa using few

/-- Between two logs a run over blocks in order has rotated at most once every `flush_blocks`. -/
theorem rotations_span {storage : Except String ParquetSink}
    {runtime : Except String FrontfillMetrics} (start : launch config storage runtime = .ok s)
    (run : Machine.exec (step config alloy) s inputs = some t) (free : t.phase.inHand = none)
    (goesOn : GoesOn t) {blocks : List UInt64} (same : t.received.map RpcLog.blockNumber =
      blocks.map some) (ascending : blocks.Pairwise (· ≤ ·))
    (low : ∀ block ∈ blocks, block < U64.max) {first last : UInt64}
    (starts : blocks.head? = some first) (ends : blocks.getLast? = some last) :
    t.rotations ≤ (last.toNat - first.toNat) / config.flushBlocks.toNat := by
  obtain ⟨positive, -⟩ := launch_start start
  have turned := run_turned start run
  obtain ⟨turns, ending, trace, windowed, quiet⟩ : ∃ (turns : List (Turn ParquetIo))
      (ending : List (Effect ParquetIo)), t.trace = turns.flatMap Turn.effects ++ ending ∧
      Windowed config.flushBlocks turns t.nextRotationBlock ∧
      ending.filterMap Effect.log? = [] ∧ ending.countP Effect.isRotation = 0 := by
    rcases goesOn with running | ok
    · obtain ⟨turns, trace, windowed⟩ := turned.idle free running
      exact ⟨turns, [], by rw [trace, List.append_nil], windowed, rfl, rfl⟩
    · obtain ⟨turns, io, trace, windowed⟩ := turned.stopped ok
      exact ⟨turns, [.closed io], trace, windowed, rfl, rfl⟩
  have received : t.received = turns.map Turn.log := by
    rw [State.received, trace, List.filterMap_append, turns_received, quiet.1, List.append_nil]
  have positions : blocks = turns.map Turn.block := by
    apply List.map_injective_iff.mpr (Option.some_injective UInt64)
    rw [← same, received, List.map_map, List.map_map]
    exact List.map_congr_left windowed.blocks
  have count : t.rotations = turns.countP Turn.rotates := by
    rw [State.rotations, trace, List.countP_append, quiet.2, Nat.add_zero, ← turnCalls_rotations,
      turnCalls, ParquetStorage.rotations, List.countP_filterMap]
    congr 1
    funext effect
    cases effect <;> rfl
  rw [positions, List.head?_map] at starts
  rw [positions, List.getLast?_map] at ends
  obtain ⟨opening, isFirst, rfl⟩ := Option.map_eq_some_iff.mp starts
  obtain ⟨closing, isLast, rfl⟩ := Option.map_eq_some_iff.mp ends
  rw [positions] at ascending low
  rw [count]
  refine (windowed.byWindows positive).few (List.pairwise_map.mp ascending) ?_ _ _ isFirst isLast
  exact fun turn member => low _ (List.mem_map_of_mem member)

/-- A sink never has more than ten writers open nor more than ten schemas, and all the files it
has touched are at most ten for each window; over blocks in order that is ten for each
`flush_blocks` that have passed, and ten more. -/
theorem resources_bounded {runtime : Except String FrontfillMetrics}
    (start : launch config (.ok (freshOn disk)) runtime = .ok s)
    (run : Machine.exec (step config alloy) s inputs = some t)
    (goesOn : t.phase.result? = none ∨ t.phase.result? = some (.ok ())) :
    t.sink.storage.writers.entries.length ≤ 10 ∧ t.sink.storage.schemas.entries.length ≤ 10 ∧
    ∃ files : List Path, (∀ p, t.sink.disk.file p ≠ disk.file p → p ∈ files) ∧
      files.length ≤ 10 * (t.rotations + 1) ∧
      (t.phase.inHand = none → ∀ (blocks : List UInt64) (first last : UInt64),
        t.received.map RpcLog.blockNumber = blocks.map some → blocks.Pairwise (· ≤ ·) →
        (∀ block ∈ blocks, block < U64.max) → blocks.head? = some first →
        blocks.getLast? = some last →
        files.length ≤ 10 * ((last.toNat - first.toNat) / config.flushBlocks.toNat + 1)) := by
  have typed := run_keeps typed_kept (typed_freshOn disk) start run goesOn
  have few := created_rotations start run
  refine ⟨entries_le _ ?_, entries_le _ ?_, created t.sinkCalls, ?_, few, ?_⟩
  · intro E writer found
    exact (typed.current E writer found).imp fun _ own => own.1
  · intro E schema found
    exact (typed.cached E schema found).imp fun _ own => own.1
  · exact fun p changed => changed_created (run_recorded start run goesOn) typed changed
  · intro free blocks first last same ascending low starts ends
    have span := rotations_span start run free goesOn same ascending low starts ends
    omega

end Run

section Example

/-- Two logs twelve blocks apart, with a window of ten. -/
theorem resources_bounded_two : ∃ (t : LiveState) (files : List Path), live twoWindows = some t ∧
    t.sink.storage.writers.entries.length ≤ 10 ∧
    (∀ p, t.sink.disk.file p ≠ none → p ∈ files) ∧ files.length ≤ 20 := by
  have split : twoWindows = connecting ++ (ingesting (cancelled 10 0) ++
      [.next (some (cancelled 22 0)), .lock, .sink sinkOk, .sink sinkOk]) := rfl
  have returns : (live twoWindows).isSome := by
    rw [split, live_connecting]
    rfl
  obtain ⟨t, run⟩ := Option.isSome_iff_exists.mp returns
  have heard := run
  rw [split, live_connecting] at heard
  have phase : t.phase = .selecting none := seen State.phase heard rfl
  have received : t.received = [cancelled 10 0, cancelled 22 0] :=
    seen State.received heard (by decide +kernel)
  obtain ⟨writers, -, files, touched, -, span⟩ := @resources_bounded _ _ Disk.empty _ _ _ _
    liveStart_launched run (.inl (by rw [phase]; rfl))
  have same : t.received.map RpcLog.blockNumber = [10, 22].map some := by rw [received]; rfl
  have low : ∀ block ∈ [(10 : UInt64), 22], block < U64.max := by
    rw [List.forall_mem_cons, List.forall_mem_singleton]
    exact ⟨by decide +kernel, by decide +kernel⟩
  have few := span (by rw [phase]; rfl) [10, 22] 10 22 same (by decide) low rfl rfl
  exact ⟨t, files, run, writers, touched, few.trans (by decide)⟩

end Example

end Frontfill

end PolymarketIndexer
