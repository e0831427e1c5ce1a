import PolymarketIndexer.Frontfill.Ingest

/-! # The sink of a live run

While a run goes on its sink is the one that the successful calls of its trace lead to.
So what is proved about histories of the Parquet sink holds of every live run.
-/

namespace PolymarketIndexer.ParquetStorage

theorem perform_snoc {calls : List SinkCall} {call : SinkCall} {sink u t : ParquetSink}
    (before : (perform calls).run sink = (.ok (), u)) (last : call.run.run u = (.ok (), t)) :
    (perform (calls ++ [call])).run sink = (.ok (), t) := by
  induction calls generalizing sink with
  | nil =>
      obtain ⟨-, rfl⟩ := Prod.mk.inj before
      rw [List.nil_append, perform, Attempt.run_bind_ok last]
      rfl
  | cons first calls ih =>
      obtain ⟨_, v, head, rest⟩ := Attempt.bind_ok before
      rw [List.cons_append, perform, Attempt.run_bind_ok head]
      exact ih rest

end PolymarketIndexer.ParquetStorage

namespace PolymarketIndexer.Frontfill

open ParquetStorage SegmentedLog

abbrev LiveState := State ParquetSink ParquetIo

def Effect.sinkCall? : Effect ParquetIo → Option SinkCall
  | .wrote io call => some (.writeEvent io.write call)
  | .rotated io => some (.rotateWriters io.close)
  | .closed io => some (.closeWriters io.close)
  | _ => none

/-- The successful calls of a run to its sink, in order. -/
def State.sinkCalls (s : LiveState) : List SinkCall := s.trace.filterMap Effect.sinkCall?

/-- The rows of an event type that the sink accepted. -/
def State.accepted (s : LiveState) (E : String) : List Row :=
  (s.written.filter (fun call => call.eventType = E)).map WriteCall.row

theorem writtenRows_calls (s : LiveState) (E : String) :
    writtenRows E s.sinkCalls = s.accepted E := by
  unfold writtenRows State.sinkCalls State.accepted State.written items
  induction s.trace with
  | nil => rfl
  | cons effect trace ih =>
      cases effect with
      | wrote io call =>
          by_cases same : call.eventType = E
          · simpa [Effect.sinkCall?, Effect.call?, logOp, same] using ih
          · simpa [Effect.sinkCall?, Effect.call?, logOp, same] using ih
      | _ => exact ih

/-- Until the run leaves with an error, its sink is that of its calls. -/
def Recorded (disk : Disk) (s : LiveState) : Prop :=
  s.phase.result? = none ∨ s.phase.result? = some (.ok ()) →
    (perform s.sinkCalls).run (freshOn disk) = (.ok (), s.sink)

section Steps

variable {config : FrontfillConfig} {alloy : Alloy} {disk : Disk} {s t : LiveState}

theorem recorded_next {call : SinkCall} (before : (perform s.sinkCalls).run (freshOn disk) =
    (.ok (), s.sink)) (last : call.run.run s.sink = (.ok (), t.sink))
    (calls : t.sinkCalls = s.sinkCalls ++ [call]) : Recorded disk t := by
  intro _
  rw [calls]
  exact perform_snoc before last

theorem recorded_still (before : (perform s.sinkCalls).run (freshOn disk) = (.ok (), s.sink))
    (sink : t.sink = s.sink) (calls : t.sinkCalls = s.sinkCalls) : Recorded disk t := by
  intro _
  rw [calls, sink]
  exact before

theorem recorded_error {error : String} (result : t.phase.result? = some (.error error)) :
    Recorded disk t := by
  intro running
  rw [result] at running
  rcases running with impossible | impossible
  · cases impossible
  · cases impossible

theorem step_recorded {input : Input ParquetIo} (recorded : Recorded disk s)
    (moved : step config alloy s input = some t) : Recorded disk t := by
  cases step_moves moved with
  | quiet sink trace inHand result subscribing =>
      intro running
      rw [result] at running
      rw [State.sinkCalls, trace, sink]
      exact recorded running
  | refused free running why => exact recorded_error rfl
  | took selecting =>
      apply recorded_still (recorded (.inl (by rw [selecting]; rfl)))
      · simp
      · simp [State.sinkCalls, Effect.sinkCall?]
  | decided locking early sink trace =>
      apply recorded_still (recorded (.inl (by rw [locking]; rfl)))
      · rw [decode_sink, sink]
      · rw [State.sinkCalls, decode_trace, trace]
        rfl
  | @rotated u taken io rotating call trace =>
      have last : (SinkCall.rotateWriters io.close).run.run s.sink =
          (.ok (), (u.decode alloy taken).sink) := by
        rw [decode_sink]
        exact call
      apply recorded_next (recorded (.inl (by rw [rotating]; rfl))) last
      simp [State.sinkCalls, trace, Effect.sinkCall?]
  | rotateFailed rotating call => exact recorded_error rfl
  | @wrote _ taken decoded io writing call trace selecting =>
      have last : (SinkCall.writeEvent io.write (taken.call decoded)).run.run s.sink =
          (.ok (), t.sink) := call
      apply recorded_next (recorded (.inl (by rw [writing]; rfl))) last
      simp [State.sinkCalls, trace, Effect.sinkCall?]
  | writeFailed writing call trace free result => exact recorded_error result
  | @closed _ io closing call trace free result =>
      have last : (SinkCall.closeWriters io.close).run.run s.sink = (.ok (), t.sink) := call
      apply recorded_next (recorded (.inl (by rw [closing]; rfl))) last
      simp [State.sinkCalls, trace, Effect.sinkCall?]
  | closeFailed closing call => exact recorded_error rfl

theorem launch_recorded {runtime : Except String FrontfillMetrics}
    (start : launch config (.ok (freshOn disk)) runtime = .ok s) : Recorded disk s := by
  obtain ⟨-, sink, -, trace, -⟩ := launch_start start
  intro _
  rw [State.sinkCalls, trace, ← Except.ok.inj sink]
  rfl

theorem run_recorded {runtime : Except String FrontfillMetrics} {inputs : List (Input ParquetIo)}
    (start : launch config (.ok (freshOn disk)) runtime = .ok s)
    (run : Machine.exec (step config alloy) s inputs = some t) : Recorded disk t := by
  have keeps : ∀ (a : LiveState) (i : Input ParquetIo) (b : LiveState), True → Recorded disk a →
      step config alloy a i = some b → Recorded disk b :=
    fun _ _ _ _ before moved => step_recorded before moved
  exact Machine.exec_invariant _ keeps (fun _ _ => trivial) run (launch_recorded start)

/-- The closed and the open writers hold what was accepted; an open one is not empty. -/
theorem recorded_segments (recorded : (perform s.sinkCalls).run (freshOn disk) = (.ok (), s.sink))
    (E : String) :
    Keyed s.sink ∧ (segments E s.sink).contents = s.accepted E ∧ (segments E s.sink).Filled := by
  obtain ⟨keyed, refines⟩ := perform_refines (keyed_freshOn disk) recorded
  refine ⟨keyed, ?_, ?_⟩
  · have contents := contents_run (segments E (freshOn disk)) (s.sinkCalls.filterMap (logOp E))
    rw [← refines E] at contents
    rw [contents, ← writtenRows_calls]
    rfl
  · rw [refines E]
    exact filled_run filled_empty

end Steps

end PolymarketIndexer.Frontfill
