import PolymarketIndexer.Archive.Readers
import PolymarketIndexer.Frontfill.Crash
import PolymarketIndexer.Frontfill.Success
import PolymarketIndexer.Normalisation

/-! # What the files of a live run tell

The files that can be read are those of a first part of the received logs, the same part for all ten
event types as long as no call of the sink has failed: nothing of it is missing and nothing after it
is there. Once the run has shut down, it is all of them. A rotation or a close that was cut short
leaves some event types ahead of the others.
-/

namespace PolymarketIndexer

namespace ParquetStorage

def SinkCall.call? : SinkCall → Option WriteCall
  | .writeEvent _ call => some call
  | _ => none

theorem writtenRows_writes (E : String) (calls : List SinkCall) : writtenRows E calls =
    ((calls.filterMap SinkCall.call?).filter (fun call => call.eventType = E)).map
      WriteCall.row := by
  induction calls with
  | nil => rfl
  | cons call calls ih =>
      unfold writtenRows SegmentedLog.items at ih ⊢
      cases call with
      | writeEvent io call =>
          by_cases same : call.eventType = E
          · simpa [SinkCall.call?, logOp, same] using ih
          · simpa [SinkCall.call?, logOp, same] using ih
      | rotateWriters io => exact ih
      | closeWriters io => exact ih

theorem recentCalls_writes (calls : List SinkCall) :
    ((recentCalls calls).filterMap SinkCall.call?).length = (recentCalls calls).length := by
  rw [List.length_filterMap_eq_countP, List.countP_eq_length]
  intro call member
  have write := List.mem_rtakeWhile_imp member
  cases call with
  | writeEvent => rfl
  | rotateWriters | closeWriters => cases write

end ParquetStorage

namespace Frontfill

open ParquetStorage

theorem written_calls (s : LiveState) : s.sinkCalls.filterMap SinkCall.call? = s.written := by
  unfold State.sinkCalls State.written
  rw [List.filterMap_filterMap]
  apply List.filterMap_congr
  intro effect _
  cases effect <;> rfl

section Logs

variable {readers : TextReaders} {alloy : Alloy}

theorem ofLog_ignored {log : Log} (ignored : outcome alloy log = .ok none) :
    StoredLog.ofLog alloy log = none := by
  have unknown : (topic0 log).bind (route alloy) = none := by
    cases checked : checkMetadata alloy log with
    | error error => cases (outcome_incomplete checked).symm.trans ignored
    | ok taken =>
        obtain ⟨-, -, -, -, same, -⟩ := checkMetadata_iff.mp checked
        rcases decodeLog_cases alloy log with ⟨-, unknown⟩ | ⟨kind, -, as⟩
        · exact unknown
        · cases made : decodeAs alloy kind log with
          | error error =>
              rw [made] at as
              cases (outcome_undecodable checked (by rw [same]; exact as)).symm.trans ignored
          | ok event =>
              rw [made] at as
              cases (outcome_kept checked (by rw [same]; exact as)).symm.trans ignored
  rw [StoredLog.ofLog, unknown]
  rfl

/-- The rows of logs without a failure, read back, are the logs. -/
theorem storedLogs_read (undo : readers.Undo alloy) (kind : EventType) {logs : List Log}
    (fine : ∀ log ∈ logs, ∃ made, outcome alloy log = .ok made) :
    (storedLogs alloy kind logs).map some =
      (((logs.filterMap (fun log => ((outcome alloy log).toOption).join)).filter
        (fun call => call.eventType = kind.name)).map WriteCall.row).map
          (readers.readRow (expectedSchemaNames (columnNames kind))) := by
  induction logs with
  | nil => rfl
  | cons log logs ih =>
      have rest := ih (fun log member => fine log (List.mem_cons_of_mem _ member))
      obtain ⟨made, is⟩ := fine log List.mem_cons_self
      unfold storedLogs at rest ⊢
      cases made with
      | none =>
          rw [List.filterMap_cons_none (ofLog_ignored is), rest,
            List.filterMap_cons_none (by rw [is]; rfl)]
      | some call =>
          obtain ⟨stored, ofLog, name, row⟩ := readRow_call undo is
          rw [List.filterMap_cons_some ofLog, List.filterMap_cons_some (by rw [is]; rfl)]
          by_cases own : stored.kind = kind
          · subst own
            rw [List.filter_cons_of_pos (by simp), List.filter_cons_of_pos (by simp [name]),
              List.map_cons, List.map_cons, List.map_cons, rest, row]
          · have other : call.eventType ≠ kind.name :=
              fun same => own (EventType.name_injective (name.trans same))
            rw [List.filter_cons_of_neg (by simpa using own),
              List.filter_cons_of_neg (by simpa using other), rest]

theorem ofLog_length (undo : readers.Undo alloy) {logs : List Log}
    (fine : ∀ log ∈ logs, ∃ made, outcome alloy log = .ok made) :
    (logs.filterMap (StoredLog.ofLog alloy)).length =
      (logs.filterMap (fun log => ((outcome alloy log).toOption).join)).length := by
  rw [List.length_filterMap_eq_countP, List.length_filterMap_eq_countP]
  apply List.countP_congr
  intro log member
  obtain ⟨made, is⟩ := fine log member
  cases made with
  | none => simp [ofLog_ignored is, is, Except.toOption]
  | some call =>
      obtain ⟨stored, ofLog, -⟩ := readRow_call undo is
      simp [ofLog, is, Except.toOption]

end Logs

section Run

variable {readers : TextReaders} {config : FrontfillConfig} {alloy : Alloy} {s t : LiveState}
  {inputs : List (Input ParquetIo)}

/-- A run that has shut down closed its sink last. -/
theorem closed_last (judged : Judged alloy t) (ok : t.phase.result? = some (.ok ())) :
    ∃ past io, t.trace = past ++ [.closed io] ∧ ∀ effect ∈ past, effect.ends = false := by
  have idle : t.phase.inHand = none := by
    cases hand : t.phase.inHand with
    | none => rfl
    | some held => cases (inHand_running hand).symm.trans ok
  have said := (judged.settled idle).symm.trans ok
  rcases t.trace.eq_nil_or_concat' with empty | ⟨past, last, split⟩
  · rw [empty] at said
    cases said
  · have before := judged.last
    rw [split, List.dropLast_concat] at before
    rw [split, verdict_append] at said
    cases last with
    | closed io => exact ⟨past, io, split, before⟩
    | received | rotated =>
        obtain ⟨log, -, blamed⟩ := Option.bind_eq_some_iff.mp said
        unfold blame at blamed
        split at blamed <;> cases blamed
    | wrote | sinkFailed | refused => cases said

/-- The writes before the last rotation or close are those of a first part of the logs, and all of
the writes are those of a longer one. -/
theorem settled_prefix (ingested : Ingested alloy t) (heard : Heard alloy t)
    (judged : Judged alloy t) :
    ∃ done all, done <+: all ∧ all <+: t.received ∧ t.received.length ≤ all.length + 1 ∧
      (t.phase.result? = some (.ok ()) → done = t.received) ∧
      (∀ log ∈ all, ∃ made, outcome alloy log = .ok made) ∧
      (settledCalls t.sinkCalls).filterMap SinkCall.call? =
        done.filterMap (fun log => ((outcome alloy log).toOption).join) ∧
      t.written = all.filterMap (fun log => ((outcome alloy log).toOption).join) := by
  have split := congrArg (List.filterMap SinkCall.call?) (split_calls t.sinkCalls)
  rw [List.filterMap_append, written_calls] at split
  by_cases shut : t.phase.result? = some (.ok ())
  · obtain ⟨past, io, trace, -⟩ := closed_last judged shut
    have calls : t.sinkCalls = past.filterMap Effect.sinkCall? ++ [.closeWriters io.close] := by
      rw [State.sinkCalls, trace, List.filterMap_append]
      rfl
    have idle : t.phase.inHand = none := by
      cases hand : t.phase.inHand with
      | none => rfl
      | some held => cases (inHand_running hand).symm.trans shut
    obtain ⟨written, fine⟩ := Feed.feed_done (ingested.free idle (.inr shut))
    have none_ : recentCalls t.sinkCalls = [] := by
      rw [calls, recentCalls, List.rtakeWhile_concat_neg _ _ _ (by simp [SinkCall.isWrite])]
    rw [none_, List.filterMap_nil, List.append_nil] at split
    exact ⟨_, _, List.prefix_refl _, List.prefix_refl _, Nat.le_succ _, fun _ => rfl, fine,
      split.trans written, written⟩
  · obtain ⟨all, part, almost, fed⟩ := heard
    obtain ⟨written, fine⟩ := Feed.feed_done fed
    obtain ⟨done, before, same⟩ := List.prefix_filterMap_iff.mp ⟨_, split.trans written⟩
    exact ⟨done, all, before, part, almost, fun ok => absurd ok shut, fine, same, written⟩

/-- The files that a run closed for an event type, read back, are its logs among those whose rows
the closed writers held. -/
theorem told_closed (undo : readers.Undo alloy) {disk : Disk} {sink : ParquetSink}
    {kind : EventType} (legible : Legible disk kind.name sink)
    (typed : ∀ writer ∈ closedFor kind.name sink, SchemaOf kind.name writer.schema)
    {logs : List Log} (fine : ∀ log ∈ logs, ∃ made, outcome alloy log = .ok made)
    {calls : List SinkCall}
    (held : (closedFor kind.name sink).flatMap ArrowWriter.rows = writtenRows kind.name calls)
    (made : calls.filterMap SinkCall.call? =
      logs.filterMap (fun log => ((outcome alloy log).toOption).join)) :
    ((closedNames kind.name sink).flatMap fun name =>
        readers.readFile sink.disk { eventType := kind.name, fileName := name }) =
          (storedLogs alloy kind logs).map some ∧
      ∀ name ∈ closedNames kind.name sink,
        (readers.readFile sink.disk { eventType := kind.name, fileName := name }).Sublist
          ((storedLogs alloy kind logs).map some) := by
  have read : ∀ name ∈ closedNames kind.name sink,
      readers.readFile sink.disk { eventType := kind.name, fileName := name } =
        (storedRows sink.disk kind.name name).map
          (readers.readRow (expectedSchemaNames (columnNames kind))) := by
    intro name member
    obtain ⟨writer, inClosed, path⟩ := mem_closedNames.mp member
    have columns : schemaNames writer.schema = expectedSchemaNames (columnNames kind) := by
      rw [(typed writer inClosed).unique ⟨kind, rfl, rfl⟩, schemaNames_schemaFor]
    rw [TextReaders.readFile, storedRows, ← path, legible.closed writer inClosed]
    simp only [ArrowWriter.table, columns]
    rfl
  have stored := storedLogs_read undo kind fine
  rw [← made, ← writtenRows_writes, ← held] at stored
  refine ⟨?_, fun name member => ?_⟩
  · rw [stored, List.flatMap_congr read, ← List.map_flatMap, legible.rows]
  · rw [read name member, stored]
    exact (legible.within name member).map _

/-- Over an empty directory these are all the files that can be read. -/
theorem told_files (undo : readers.Undo alloy) {sink : ParquetSink} {kind : EventType}
    (legible : Legible Disk.empty kind.name sink)
    (typed : ∀ writer ∈ closedFor kind.name sink, SchemaOf kind.name writer.schema)
    {logs : List Log} (fine : ∀ log ∈ logs, ∃ made, outcome alloy log = .ok made)
    {calls : List SinkCall}
    (held : (closedFor kind.name sink).flatMap ArrowWriter.rows = writtenRows kind.name calls)
    (made : calls.filterMap SinkCall.call? =
      logs.filterMap (fun log => ((outcome alloy log).toOption).join)) :
    ∃ names : List String, names.Nodup ∧
      (∀ name, name ∈ names ↔
        (sink.disk.table? { eventType := kind.name, fileName := name }).isSome) ∧
      (names.flatMap fun name =>
        readers.readFile sink.disk { eventType := kind.name, fileName := name }).Perm
          ((storedLogs alloy kind logs).map some) ∧
      ∀ name ∈ names,
        (readers.readFile sink.disk { eventType := kind.name, fileName := name }).Sublist
          ((storedLogs alloy kind logs).map some) := by
  obtain ⟨rows, within⟩ := told_closed undo legible typed fine held made
  exact ⟨_, legible.names_nodup, legible.readable, .of_eq rows, within⟩

/-- What is not settled are the writes since the last rotation. -/
theorem settled_length (undo : readers.Undo alloy) {done : List Log}
    (fine : ∀ log ∈ done, ∃ made, outcome alloy log = .ok made)
    (settled : (settledCalls t.sinkCalls).filterMap SinkCall.call? =
      done.filterMap (fun log => ((outcome alloy log).toOption).join)) :
    (done.filterMap (StoredLog.ofLog alloy)).length + (recentCalls t.sinkCalls).length =
      t.written.length := by
  have split := congrArg (List.filterMap SinkCall.call?) (split_calls t.sinkCalls)
  rw [List.filterMap_append, written_calls] at split
  rw [← split, List.length_append, recentCalls_writes, settled, ofLog_length undo fine]

/-- Wherever a run stops, the files that can be read, read back, are for each event type exactly its
logs in a first part of the received ones, each once and in order within a file. It is the same
part for all event types, and not in it are only logs that were written since the last rotation, and
the one in hand; when the run has shut down it is all of them. After a call that failed it may be,
for some event types, all that was written instead. -/
theorem archive_is_prefix (undo : readers.Undo alloy) {runtime : Except String FrontfillMetrics}
    (start : launch config (.ok fresh) runtime = .ok s)
    (run : Machine.exec (step config alloy) s inputs = some t) (room : t.rotations < 2 ^ 64) :
    ∃ done all, done <+: all ∧ all <+: t.received ∧ t.received.length ≤ all.length + 1 ∧
      (t.phase.result? = some (.ok ()) → done = t.received) ∧
      (done.filterMap (StoredLog.ofLog alloy)).length + (recentCalls t.sinkCalls).length =
        t.written.length ∧
      (all.filterMap (StoredLog.ofLog alloy)).length = t.written.length ∧
      ∀ kind, ∃ part, (part = done ∨ part = all ∧ ∃ error, .sinkFailed error ∈ t.trace) ∧
        ∃ names : List String, names.Nodup ∧
        (∀ name, name ∈ names ↔
          (t.sink.disk.table? { eventType := kind.name, fileName := name }).isSome) ∧
        (names.flatMap fun name =>
          readers.readFile t.sink.disk { eventType := kind.name, fileName := name }).Perm
            ((storedLogs alloy kind part).map some) ∧
        ∀ name ∈ names,
          (readers.readFile t.sink.disk { eventType := kind.name, fileName := name }).Sublist
            ((storedLogs alloy kind part).map some) := by
  obtain ⟨done, all, before, part, almost, whole, fine, settled, written⟩ := settled_prefix
    (run_ingested start run) (run_heard start run) (run_judged start run)
  have settledFine := fun log member => fine log (before.subset member)
  refine ⟨done, all, before, part, almost, whole, settled_length undo settledFine settled, ?_,
    fun kind => ?_⟩
  · rw [written, ofLog_length undo fine]
  · obtain ⟨legible, typed, which⟩ := run_legible start run room kind.name
    rcases which with held | ⟨failed, held⟩
    · exact ⟨done, .inl rfl, told_files undo legible typed settledFine held settled⟩
    · exact ⟨all, .inr ⟨rfl, failed⟩, told_files undo legible typed fine held
        ((written_calls t).trans written)⟩

end Run

section Example

/-- A rotation over two open writers that fails at the second one it drains. -/
def cutShort : List (Input ParquetIo) :=
  connecting ++ (ingesting (cancelled 10 0) ++ ingesting Normalisation.preparedLog ++
    [.next (some (cancelled 2000 0)), .lock, .sink { sinkOk with close := {
      order := .asStored _
      close := fun E =>
        if E = "OrderCancelled" then .error "no space left on device" else .ok () } }])

example : (live cutShort).map (fun t => (t.phase.result?,
      t.sink.closed.map (fun writer => writer.path.eventType))) =
    some (some (.error "no space left on device"), ["MarketPrepared"]) := by
  rw [cutShort, live_connecting]
  rfl

/-- A prepared market, whose event is in the JSON object of its last column, and a log that
rotates. -/
theorem archive_is_prefix_market : ∃ (t : LiveState) (names : List String) (done : List Log),
    live (connecting ++ (ingesting Normalisation.preparedLog ++
      [.next (some (cancelled 2000 0)), .lock, .sink sinkOk, .sink sinkOk])) = some t ∧
    (names.flatMap fun name => Reference.readers.readFile t.sink.disk
      { eventType := "MarketPrepared", fileName := name }).Perm
        ((storedLogs Reference.alloy .marketPrepared done).map some) ∧
    done <+: [Normalisation.preparedLog, cancelled 2000 0] ∧
    (done.filterMap (StoredLog.ofLog Reference.alloy)).length = 1 := by
  have returns : (live (connecting ++ (ingesting Normalisation.preparedLog ++
      [.next (some (cancelled 2000 0)), .lock, .sink sinkOk, .sink sinkOk]))).isSome := by
    rw [live_connecting]
    rfl
  obtain ⟨t, run⟩ := Option.isSome_iff_exists.mp returns
  have heard := run
  rw [live_connecting] at heard
  have phase : t.phase = .selecting none := seen State.phase heard rfl
  have rotations : t.rotations = 1 := seen State.rotations heard rfl
  have received : t.received = [Normalisation.preparedLog, cancelled 2000 0] :=
    seen State.received heard rfl
  have written : t.written.length = 2 := seen (fun t => t.written.length) heard rfl
  have recent : (recentCalls t.sinkCalls).length = 1 :=
    seen (fun t => (recentCalls t.sinkCalls).length) heard rfl
  obtain ⟨done, all, before, part, -, -, count, -, files⟩ :=
    archive_is_prefix Reference.undo liveStart_launched run (by rw [rotations]; decide)
  have sound := ends_of_running (run_judged liveStart_launched run) (by rw [phase]; rfl)
  obtain ⟨_, which, names, -, -, rows, -⟩ := files .marketPrepared
  obtain rfl := which.resolve_right fun ⟨_, _, failed⟩ => by cases sound _ failed
  rw [received] at part
  exact ⟨t, names, _, run, rows, before.trans part, by omega⟩

end Example

end Frontfill

end PolymarketIndexer
