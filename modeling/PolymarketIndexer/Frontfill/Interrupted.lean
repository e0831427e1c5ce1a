import PolymarketIndexer.Frontfill.Counters
import PolymarketIndexer.Frontfill.Success
import PolymarketIndexer.Frontfill.Verdict
import PolymarketIndexer.Storage.Interrupted

/-! # The directory of a run at any moment, failed calls included

A run has made its successful calls, and if one failed it was the last. So at every moment of a run,
and whatever it ended with, the files that can be read are those of the closed writers, and an
event type is settled up to the last rotation, or as a whole when the call that failed had closed
its writer.
-/

namespace PolymarketIndexer.Frontfill

open ParquetStorage

/-- The last call of the run failed, on the sink that the calls before it led to. -/
structure CutShort (disk : Disk) (s : LiveState) (sink : ParquetSink) : Prop where
  before : (perform s.sinkCalls).run (freshOn disk) = (.ok (), sink)
  typed : Typed sink
  unclosed : ∀ call ∈ s.sinkCalls, call.isClose = false
  ended : ∃ error, s.phase.result? = some (.error error)
  last : ∃ (call : SinkCall) (error : String), call.run.run sink = (.error error, s.sink) ∧
    .sinkFailed error ∈ s.trace

/-- The sink is that of the calls that succeeded, or the last one failed. -/
def Traced (disk : Disk) (s : LiveState) : Prop :=
  ((perform s.sinkCalls).run (freshOn disk) = (.ok (), s.sink) ∧ Typed s.sink) ∨
    ∃ sink, CutShort disk s sink

section Step

variable {config : FrontfillConfig} {alloy : Alloy} {disk : Disk} {s t : LiveState}

theorem unended_unclosed {effects : List (Effect ParquetIo)}
    (unended : ∀ effect ∈ effects, effect.ends = false) :
    ∀ call ∈ effects.filterMap Effect.sinkCall?, call.isClose = false := by
  intro call member
  obtain ⟨effect, done, called⟩ := List.mem_filterMap.mp member
  have goesOn := unended effect done
  cases effect with
  | wrote | rotated =>
      obtain rfl := Option.some.inj called
      rfl
  | closed => cases goesOn
  | received | sinkFailed | refused => cases called

/-- A call of a run that goes on fails, and ends it. -/
theorem cutShort_next {call : SinkCall} {error : String} (judged : Judged alloy s)
    (running : s.phase.result? = none)
    (before : (perform s.sinkCalls).run (freshOn disk) = (.ok (), s.sink)) (typed : Typed s.sink)
    (failed : call.run.run s.sink = (.error error, t.sink))
    (trace : t.trace = s.trace ++ [.sinkFailed error])
    (result : t.phase.result? = some (.error error)) : CutShort disk t s.sink := by
  have calls : t.sinkCalls = s.sinkCalls := by
    simp [State.sinkCalls, trace, Effect.sinkCall?]
  refine ⟨by rw [calls]; exact before, typed, ?_, ⟨error, result⟩, call, error, failed, ?_⟩
  · rw [calls]
    exact unended_unclosed (ends_of_running judged running)
  · simp [trace]

theorem step_traced {input : Input ParquetIo} (ingested : Ingested alloy s)
    (judged : Judged alloy s) (recorded : Recorded disk s) (typed : GoesOn s → Typed s.sink)
    (traced : Traced disk s) (moved : step config alloy s input = some t) : Traced disk t := by
  have still : ∀ {u : LiveState}, s.phase.result? = none → u.sink = s.sink →
      u.sinkCalls = s.sinkCalls → Traced disk u := by
    intro u running sink calls
    left
    rw [calls, sink]
    exact ⟨recorded (.inl running), typed (.inl running)⟩
  have next : ∀ {u : LiveState} {call : SinkCall}, s.phase.result? = none →
      call.run.run s.sink = (.ok (), u.sink) → Typed u.sink →
      u.sinkCalls = s.sinkCalls ++ [call] → Traced disk u := by
    intro u call running last after calls
    left
    rw [calls]
    exact ⟨perform_snoc (recorded (.inl running)) last, after⟩
  cases step_moves moved with
  | quiet sink trace inHand result =>
      have calls : t.sinkCalls = s.sinkCalls := by rw [State.sinkCalls, trace]; rfl
      unfold Traced
      rw [calls, sink]
      refine traced.imp id ?_
      rintro ⟨before, cut⟩
      exact ⟨before, by rw [calls]; exact cut.before, cut.typed, by rw [calls]; exact cut.unclosed,
        by rw [result]; exact cut.ended, by rw [sink, trace]; exact cut.last⟩
  | refused free running =>
      exact still running rfl (by simp [State.sinkCalls, Effect.sinkCall?])
  | took selecting =>
      exact still (by rw [selecting]; rfl) (take_sink _ _ _)
        (by simp [State.sinkCalls, Effect.sinkCall?])
  | decided locking early sink trace =>
      exact still (by rw [locking]; rfl) ((decode_sink _ _ _).trans sink)
        (by rw [State.sinkCalls, decode_trace, trace]; rfl)
  | @rotated u taken io rotating call trace =>
      have running : s.phase.result? = none := by rw [rotating]; rfl
      have last : (SinkCall.rotateWriters io.close).run.run s.sink =
          (.ok (), (u.decode alloy taken).sink) := by
        rw [decode_sink]
        exact call
      refine next running last ?_ (by simp [State.sinkCalls, trace, Effect.sinkCall?])
      exact typed_kept.rotate io s.sink _ (typed (.inl running)) last
  | @rotateFailed sink taken io error rotating call =>
      have running : s.phase.result? = none := by rw [rotating]; rfl
      have failed : (SinkCall.rotateWriters io.close).run.run s.sink = (.error error, sink) := call
      exact .inr ⟨s.sink, cutShort_next judged running (recorded (.inl running))
        (typed (.inl running)) failed rfl rfl⟩
  | @wrote _ taken decoded io writing call trace =>
      have running : s.phase.result? = none := by rw [writing]; rfl
      have last : (SinkCall.writeEvent io.write (taken.call decoded)).run.run s.sink =
          (.ok (), t.sink) := call
      refine next running last ?_ (by simp [State.sinkCalls, trace, Effect.sinkCall?])
      exact typed_kept.write io _ s.sink _ (writing_ofEvent ingested writing)
        (typed (.inl running)) call
  | @writeFailed _ taken decoded io error writing call trace free result =>
      have running : s.phase.result? = none := by rw [writing]; rfl
      have failed : (SinkCall.writeEvent io.write (taken.call decoded)).run.run s.sink =
          (.error error, t.sink) := call
      exact .inr ⟨s.sink, cutShort_next judged running (recorded (.inl running))
        (typed (.inl running)) failed trace result⟩
  | @closed _ io closing call trace =>
      have running : s.phase.result? = none := by rw [closing]; rfl
      have last : (SinkCall.closeWriters io.close).run.run s.sink = (.ok (), t.sink) := call
      refine next running last ?_ (by simp [State.sinkCalls, trace, Effect.sinkCall?])
      exact typed_kept.close io s.sink _ (typed (.inl running)) call
  | @closeFailed sink io error closing call =>
      have running : s.phase.result? = none := by rw [closing]; rfl
      have failed : (SinkCall.closeWriters io.close).run.run s.sink = (.error error, sink) := call
      exact .inr ⟨s.sink, cutShort_next judged running (recorded (.inl running))
        (typed (.inl running)) failed rfl rfl⟩

end Step

section Run

variable {config : FrontfillConfig} {alloy : Alloy} {disk : Disk} {s t : LiveState}
  {runtime : Except String FrontfillMetrics} {inputs : List (Input ParquetIo)}

theorem run_traced (start : launch config (.ok (freshOn disk)) runtime = .ok s)
    (run : Machine.exec (step config alloy) s inputs = some t) : Traced disk t := by
  induction inputs using List.reverseRecOn generalizing t with
  | nil =>
      obtain rfl := Option.some.inj run
      have recorded := launch_recorded start
      obtain ⟨-, sink, phase, -⟩ := launch_start start
      left
      refine ⟨recorded (.inl (by rw [phase]; rfl)), ?_⟩
      rw [← Except.ok.inj sink]
      exact typed_freshOn disk
  | append_singleton past input ih =>
      obtain ⟨u, before, moved⟩ := (Machine.exec_snoc _).mp run
      exact step_traced (run_ingested start before) (run_judged start before)
        (run_recorded start before) (run_keeps typed_kept (typed_freshOn disk) start before)
        (ih before) moved

/-- The calls of a run up to the close of its shutdown open all of its files. -/
theorem calls_before_close {storage : Except String ParquetSink}
    (start : launch config storage runtime = .ok s)
    (run : Machine.exec (step config alloy) s inputs = some t) :
    ∃ calls : List SinkCall, (∀ call ∈ calls, call.isClose = false) ∧
      ParquetStorage.rotations calls = t.rotations ∧
      ∀ E, openings E 0 false t.sinkCalls = openings E 0 false calls := by
  have unended := (run_judged start run).last
  rcases t.trace.eq_nil_or_concat' with empty | ⟨past, last, trace⟩
  · have calls : t.sinkCalls = [] := by rw [State.sinkCalls, empty]; rfl
    exact ⟨_, by rw [calls]; simp, rotations_sinkCalls t, fun _ => rfl⟩
  · rw [trace, List.dropLast_concat] at unended
    have calls : t.sinkCalls = past.filterMap Effect.sinkCall? ++ last.sinkCall?.toList := by
      rw [State.sinkCalls, trace, List.filterMap_append]
      cases last <;> rfl
    cases last with
    | closed io =>
        refine ⟨past.filterMap Effect.sinkCall?, unended_unclosed unended, ?_, fun E => ?_⟩
        · rw [← rotations_sinkCalls, calls, ParquetStorage.rotations, ParquetStorage.rotations,
            List.countP_append]
          rfl
        · rw [calls]
          exact openings_close _ _ _ _ rfl
    | _ =>
        refine ⟨_, ?_, rotations_sinkCalls t, fun _ => rfl⟩
        rw [calls]
        refine List.forall_mem_append.mpr ⟨unended_unclosed unended, ?_⟩
        simp [Effect.sinkCall?, SinkCall.isClose]

theorem openings_once {storage : Except String ParquetSink}
    (start : launch config storage runtime = .ok s)
    (run : Machine.exec (step config alloy) s inputs = some t) (room : t.rotations < 2 ^ 64)
    (E : String) : (openings E 0 false t.sinkCalls).Nodup := by
  obtain ⟨calls, unclosed, count, same⟩ := calls_before_close start run
  rw [same]
  exact openings_nodup E unclosed (by rw [count]; exact room)

theorem closedFor_schema {sink : ParquetSink} {E : String} (typed : Typed sink) :
    ∀ writer ∈ closedFor E sink, SchemaOf E writer.schema := by
  intro writer member
  obtain ⟨inClosed, named⟩ := List.mem_filter.mp member
  exact of_decide_eq_true named ▸ typed.finished writer inClosed

/-- What can be read of a run that goes on, or has shut down: the closed writers of an event type,
with the rows written before the last rotation or close. -/
theorem run_settled (start : launch config (.ok (freshOn disk)) runtime = .ok s)
    (run : Machine.exec (step config alloy) s inputs = some t) (goesOn : GoesOn t)
    (room : t.rotations < 2 ^ 64) (E : String) :
    Legible disk E t.sink ∧ (∀ writer ∈ closedFor E t.sink, SchemaOf E writer.schema) ∧
      (closedFor E t.sink).flatMap ArrowWriter.rows =
        writtenRows E (settledCalls t.sinkCalls) := by
  have done := run_recorded start run goesOn
  have typed := run_keeps typed_kept (typed_freshOn disk) start run goesOn
  exact ⟨history_legible done (openings_once start run room E), closedFor_schema typed,
    closed_settled done⟩

/-- What can be read of a run at any moment: when a call has failed it may be all that was written
for the event type. -/
theorem run_legible (start : launch config (.ok (freshOn disk)) runtime = .ok s)
    (run : Machine.exec (step config alloy) s inputs = some t) (room : t.rotations < 2 ^ 64)
    (E : String) :
    Legible disk E t.sink ∧ (∀ writer ∈ closedFor E t.sink, SchemaOf E writer.schema) ∧
      ((closedFor E t.sink).flatMap ArrowWriter.rows =
          writtenRows E (settledCalls t.sinkCalls) ∨
        (∃ error, .sinkFailed error ∈ t.trace) ∧
          (closedFor E t.sink).flatMap ArrowWriter.rows = writtenRows E t.sinkCalls) := by
  rcases run_traced start run with ⟨done, typed⟩ | ⟨sink, cut⟩
  · exact ⟨history_legible done (openings_once start run room E), closedFor_schema typed,
      .inl (closed_settled done)⟩
  · obtain ⟨call, error, failed, traced⟩ := cut.last
    have apart := openings_next_nodup E call cut.unclosed (by rw [rotations_sinkCalls]; exact room)
    obtain ⟨which, legible⟩ := failed_legible cut.before apart failed
    have finished := @closedFor_schema sink E cut.typed
    rcases which with same | more
    · rw [same]
      exact ⟨legible, finished, .inl (closed_settled cut.before)⟩
    · rw [more]
      refine ⟨legible, List.forall_mem_append.mpr ⟨finished, fun writer opened => ?_⟩,
        .inr ⟨⟨error, traced⟩, held_written cut.before⟩⟩
      exact cut.typed.current E writer (Option.mem_toList.mp opened)

end Run

end PolymarketIndexer.Frontfill
