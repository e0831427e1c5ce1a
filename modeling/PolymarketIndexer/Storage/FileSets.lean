import PolymarketIndexer.Storage.Segments
import PolymarketIndexer.Library.LastWins
import Mathlib.Data.List.Induction

/-! # Histories of the Parquet sink

Over any history of successful calls each event type is an append-only log kept in
segments, one closed file a segment. The disk, however, finds a file by its path, and a
path is a clock reading with a file set: a history keeps all rows on disk exactly
when it never opens the same path twice.
-/

namespace PolymarketIndexer.ParquetStorage

open Unordered SegmentedLog

inductive SinkCall where
  | writeEvent (io : WriteIo) (call : WriteCall)
  | rotateWriters (io : CloseIo)
  | closeWriters (io : CloseIo)

def SinkCall.run : SinkCall → Attempt ParquetSink Unit
  | .writeEvent io call => ParquetStorage.writeEvent io call
  | .rotateWriters io => ParquetStorage.rotateWriters io
  | .closeWriters io => ParquetStorage.closeWriters io

def perform : List SinkCall → Attempt ParquetSink Unit
  | [] => return
  | call :: calls => do
      call.run
      perform calls

/-- A new storage over an output directory with whatever earlier runs left in it. -/
def freshOn (disk : Disk) : ParquetSink := { storage := new, disk := disk, closed := [] }

/-- A new storage over an empty output directory. -/
def fresh : ParquetSink := freshOn Disk.empty

/-- A call as one event type's log sees it. -/
def logOp (E : String) : SinkCall → Option (Op Row)
  | .writeEvent _ call => if call.eventType = E then some (.item call.row) else none
  | .rotateWriters _ => some .cut
  | .closeWriters _ => some .cut

/-- The rows written for an event type, in call order. -/
def writtenRows (E : String) (calls : List SinkCall) : List Row := items (calls.filterMap (logOp E))

def closedFor (E : String) (sink : ParquetSink) : List ArrowWriter :=
  sink.closed.filter (fun writer => writer.path.eventType = E)

def segments (E : String) (sink : ParquetSink) : SegmentedLog Row where
  finished := (closedFor E sink).map ArrowWriter.rows
  current := (sink.storage.writers.lookup E).map ArrowWriter.rows

def paths (E : String) (sink : ParquetSink) : List Path :=
  (closedFor E sink ++ (sink.storage.writers.lookup E).toList).map ArrowWriter.path

/-- A writer belongs to its event type's directory. -/
def Keyed (sink : ParquetSink) : Prop :=
  ∀ E writer, sink.storage.writers.lookup E = some writer → writer.path.eventType = E

/-- An open writer's file is unreadable, any other file is what its last closed writer held or
what was there before. -/
structure Consistent (before : Disk) (sink : ParquetSink) : Prop where
  keyed : Keyed sink
  unfinished : ∀ E writer, sink.storage.writers.lookup E = some writer →
    ∃ flushed, sink.disk.file writer.path = some (.unfinished flushed)
  finished : ∀ path, (∀ E writer, sink.storage.writers.lookup E = some writer →
      writer.path ≠ path) →
    sink.disk.file path =
      ((LastWins.held ArrowWriter.path sink.closed path).map
        (fun writer => .finished writer.table)).or (before.file path)

theorem keyed_freshOn (disk : Disk) : Keyed (freshOn disk) := by
  intro E writer lookup
  cases lookup

theorem consistent_freshOn (disk : Disk) : Consistent disk (freshOn disk) where
  keyed := keyed_freshOn disk
  unfinished _ _ h := by cases h
  finished _ _ := rfl

section Write

variable {io : WriteIo} {call : WriteCall} {sink t : ParquetSink}

theorem Written.keyed (written : Written io call sink t) (h : Keyed sink) : Keyed t := by
  obtain ⟨schema, -, -, -, writer⟩ := written.own
  intro E w lookup
  by_cases same : E = call.eventType
  · subst same
    rcases writer with ⟨writer, found, appended, -⟩ | ⟨absent, opened, -⟩
    · obtain rfl := Option.some.inj (appended.symm.trans lookup)
      exact h _ writer found
    · obtain rfl := Option.some.inj (opened.symm.trans lookup)
      rfl
  · exact h E w (by rw [← (written.others E same).1, lookup])

theorem Written.consistent {disk : Disk} (written : Written io call sink t)
    (h : Consistent disk sink) : Consistent disk t := by
  obtain ⟨schema, -, -, -, writer⟩ := written.own
  rcases writer with ⟨writer, found, appended, file⟩ | ⟨absent, opened, file⟩
  · -- the writer stays under its path, so the files stand as they did
    have back : ∀ E w, t.storage.writers.lookup E = some w →
        ∃ w', sink.storage.writers.lookup E = some w' ∧ w'.path = w.path := by
      intro E w lookup
      by_cases same : E = call.eventType
      · subst same
        obtain rfl := Option.some.inj (appended.symm.trans lookup)
        exact ⟨writer, found, rfl⟩
      · exact ⟨w, by rw [← (written.others E same).1, lookup], rfl⟩
    refine ⟨written.keyed h.keyed, ?_, ?_⟩
    · intro E w lookup
      obtain ⟨w', before, path⟩ := back E w lookup
      rw [file, ← path]
      exact h.unfinished E w' before
    · intro path free
      rw [file, written.closed]
      apply h.finished
      intro E w lookup
      by_cases same : E = call.eventType
      · subst same
        obtain rfl := Option.some.inj (found.symm.trans lookup)
        exact fun clash => free _ _ appended clash
      · exact free E w (by rw [(written.others E same).1, lookup])
  · have elsewhere : ∀ E w, E ≠ call.eventType → t.storage.writers.lookup E = some w →
        sink.storage.writers.lookup E = some w := by
      intro E w other lookup
      rw [← (written.others E other).1, lookup]
    refine ⟨written.keyed h.keyed, ?_, ?_⟩
    · intro E w lookup
      by_cases same : E = call.eventType
      · subst same
        obtain rfl := Option.some.inj (opened.symm.trans lookup)
        rw [file]
        exact ⟨_, Disk.create_file _ _ _⟩
      · have before := elsewhere E w same lookup
        have apart : w.path ≠ newPath io call.eventType sink := by
          intro clash
          exact same (by rw [← h.keyed E w before, clash]; rfl)
        rw [file, Disk.create, Disk.put_file_other _ _ apart]
        exact h.unfinished E w before
    · intro path free
      have apart : path ≠ newPath io call.eventType sink := fun clash => free _ _ opened clash.symm
      rw [file, Disk.create, Disk.put_file_other _ _ apart, written.closed]
      apply h.finished
      intro E w lookup
      by_cases same : E = call.eventType
      · subst same
        cases absent.symm.trans lookup
      · exact free E w (by rw [(written.others E same).1, lookup])

theorem Written.segments (written : Written io call sink t) (E : String) :
    segments E t =
      if call.eventType = E then (segments E sink).append call.row else segments E sink := by
  obtain ⟨schema, -, -, -, writer⟩ := written.own
  split
  · rename_i same
    subst same
    rcases writer with ⟨writer, found, appended, -⟩ | ⟨absent, opened, -⟩
    · simp [ParquetStorage.segments, closedFor, written.closed, found, appended,
        SegmentedLog.append]
    · simp [ParquetStorage.segments, closedFor, written.closed, absent, opened,
        SegmentedLog.append]
  · rename_i other
    simp only [ParquetStorage.segments, closedFor, written.closed,
      (written.others E (Ne.symm other)).1]

theorem Written.paths (written : Written io call sink t) (E : String) :
    paths E t = paths E sink ++
      if call.eventType = E ∧ sink.storage.writers.lookup E = none then
        [newPath io E sink]
      else [] := by
  obtain ⟨schema, -, -, -, writer⟩ := written.own
  by_cases same : call.eventType = E
  · subst same
    rcases writer with ⟨writer, found, appended, -⟩ | ⟨absent, opened, -⟩
    · simp [ParquetStorage.paths, closedFor, written.closed, found, appended]
    · simp [ParquetStorage.paths, closedFor, written.closed, absent, opened]
  · simp [ParquetStorage.paths, closedFor, written.closed, same,
      (written.others E (Ne.symm same)).1]

end Write

section Close

variable {io : CloseIo} {sink t : ParquetSink}

theorem finish_file (entries : List ((_ : String) × ArrowWriter)) (sink : ParquetSink)
    (path : Path) :
    (entries.foldl (fun s entry => finish s entry.2) sink).disk.file path =
      ((LastWins.held ArrowWriter.path (entries.map Sigma.snd) path).map
        (fun writer => .finished writer.table)).or (sink.disk.file path) := by
  induction entries using List.reverseRecOn with
  | nil => rfl
  | append_singleton entries entry ih =>
      rw [List.foldl_append, List.foldl_cons, List.foldl_nil, finish]
      by_cases here : path = entry.2.path
      · subst here
        simp [LastWins.held]
      · simp [Disk.put_file_other _ _ here, ih, LastWins.held, Ne.symm here]

theorem held_append {ws vs : List ArrowWriter} (path : Path) :
    LastWins.held ArrowWriter.path (ws ++ vs) path =
      (LastWins.held ArrowWriter.path vs path).or (LastWins.held ArrowWriter.path ws path) := by
  simp only [LastWins.held, List.filter_append, List.getLast?_append]

theorem closed_consistent {disk : Disk} (h : Consistent disk sink)
    (done : (closeWriters io).run sink = (.ok (), t)) : Consistent disk t := by
  obtain rfl := closeWriters_ok done
  have empty : ∀ E, (((iterate io.order sink.storage.writers).foldl
      (fun s entry => finish s entry.2) { sink with storage.writers := ∅ }).storage.writers).lookup E
      = none := by
    intro E
    rw [foldl_finish_storage]
    rfl
  refine ⟨?_, ?_, ?_⟩
  · intro E writer lookup
    cases (empty E).symm.trans lookup
  · intro E writer lookup
    cases (empty E).symm.trans lookup
  · intro path _
    rw [finish_file, foldl_finish_closed, held_append]
    cases last : LastWins.held ArrowWriter.path
        ((iterate io.order sink.storage.writers).map Sigma.snd) path with
    | some writer => simp
    | none =>
        simp only [Option.map_none, Option.none_or]
        apply h.finished
        intro E writer lookup clash
        -- an open writer at the path would have been closed just now
        have drained : writer ∈ ((iterate io.order sink.storage.writers).map Sigma.snd).filter
            (fun w => w.path = path) := by
          apply List.mem_filter.mpr
          exact ⟨List.mem_map.mpr ⟨⟨E, writer⟩, mem_iterate.mpr lookup, rfl⟩, decide_eq_true clash⟩
        rw [LastWins.held, List.getLast?_eq_none_iff] at last
        rw [last] at drained
        cases drained

/-- The drained writers of one event type are the open one. -/
theorem drained_filter (h : Keyed sink) (E : String) :
    ((iterate io.order sink.storage.writers).map Sigma.snd).filter
      (fun writer => writer.path.eventType = E) = (sink.storage.writers.lookup E).toList := by
  have keys : ∀ entry ∈ iterate io.order sink.storage.writers,
      decide (entry.2.path.eventType = E) = decide (entry.1 = E) := by
    intro entry member
    rw [h entry.1 entry.2 (mem_iterate.mp member)]
  rw [List.filter_map, Function.comp_def, List.filter_congr keys, iterate_filter]
  cases sink.storage.writers.lookup E <;> rfl

theorem closed_for (h : Keyed sink)
    (done : (closeWriters io).run sink = (.ok (), t)) (E : String) :
    closedFor E t = closedFor E sink ++ (sink.storage.writers.lookup E).toList ∧
      t.storage.writers.lookup E = none ∧ t.storage.fileSetId = sink.storage.fileSetId := by
  obtain rfl := closeWriters_ok done
  refine ⟨?_, ?_, ?_⟩
  · rw [closedFor, foldl_finish_closed, List.filter_append, drained_filter h E]
    rfl
  · rw [foldl_finish_storage]
    rfl
  · rw [foldl_finish_storage]

theorem closed_segments (h : Keyed sink)
    (done : (closeWriters io).run sink = (.ok (), t)) (E : String) :
    segments E t = (segments E sink).cut := by
  obtain ⟨closed, none_, -⟩ := closed_for h done E
  rw [segments, closed, none_]
  cases found : sink.storage.writers.lookup E <;> simp [segments, cut, found]

theorem closed_paths (h : Keyed sink)
    (done : (closeWriters io).run sink = (.ok (), t)) (E : String) : paths E t = paths E sink := by
  obtain ⟨closed, none_, -⟩ := closed_for h done E
  simp [paths, closed, none_]

end Close

/-- The writers opened for an event type: the clock reading and the file set of each.
A write opens one when none has been open since the last rotation or close. -/
def openings (E : String) (fileSetId : UInt64) (isOpen : Bool) :
    List SinkCall → List (Int × UInt64)
  | [] => []
  | .writeEvent io call :: calls =>
      if call.eventType = E then
        if isOpen then openings E fileSetId true calls
        else (io.timestampMillis, fileSetId) :: openings E fileSetId true calls
      else openings E fileSetId isOpen calls
  | .rotateWriters _ :: calls => openings E (U64.saturatingAdd fileSetId 1) false calls
  | .closeWriters _ :: calls => openings E fileSetId false calls

def setPath (E : String) (opening : Int × UInt64) : Path :=
  { eventType := E, fileName := setFileName opening.1 opening.2 }

def SinkCall.isWrite : SinkCall → Bool
  | .writeEvent _ _ => true
  | _ => false

/-- A rotation or a close at the end opens nothing. -/
theorem openings_close (E : String) (id : UInt64) (isOpen : Bool) (calls : List SinkCall)
    {last : SinkCall} (drains : last.isWrite = false) :
    openings E id isOpen (calls ++ [last]) = openings E id isOpen calls := by
  induction calls generalizing id isOpen with
  | nil =>
      cases last with
      | writeEvent io call => cases drains
      | rotateWriters io | closeWriters io => rfl
  | cons call calls ih =>
      cases call with
      | writeEvent io' call => simp only [List.cons_append, openings, ih]
      | rotateWriters io' => simp only [List.cons_append, openings, ih]
      | closeWriters io' => simp only [List.cons_append, openings, ih]

def SinkCall.isRotation : SinkCall → Bool
  | .rotateWriters _ => true
  | _ => false

def SinkCall.isClose : SinkCall → Bool
  | .closeWriters _ => true
  | _ => false

def rotations (calls : List SinkCall) : Nat := calls.countP SinkCall.isRotation

/-- Without a close, and before the file sets run out, each opening is in a later file set than
the one before. -/
theorem openings_ascending (E : String) {calls : List SinkCall}
    (unclosed : ∀ call ∈ calls, call.isClose = false) {id : UInt64} {isOpen : Bool}
    (room : id.toNat + rotations calls < 2 ^ 64) :
    (openings E id isOpen calls).Pairwise (fun a b => a.2.toNat < b.2.toNat) ∧
      ∀ opening ∈ openings E id isOpen calls,
        id.toNat ≤ opening.2.toNat ∧ (isOpen = true → id.toNat < opening.2.toNat) := by
  induction calls generalizing id isOpen with
  | nil => exact ⟨.nil, nofun⟩
  | cons call calls ih =>
      have later := fun c member => unclosed c (List.mem_cons_of_mem _ member)
      cases call with
      | writeEvent io call =>
          have room' : id.toNat + rotations calls < 2 ^ 64 := by
            simpa [rotations, SinkCall.isRotation] using room
          rw [openings]
          by_cases own : call.eventType = E
          · rw [if_pos own]
            obtain ⟨ascending, above⟩ := @ih later id true room'
            cases isOpen with
            | true => exact ⟨ascending, above⟩
            | false =>
                simp only [Bool.false_eq_true, if_false]
                refine ⟨List.pairwise_cons.mpr ⟨fun b member => (above b member).2 rfl,
                  ascending⟩, ?_⟩
                intro opening member
                rcases List.mem_cons.mp member with rfl | member
                · exact ⟨le_refl _, nofun⟩
                · exact ⟨(above opening member).1, nofun⟩
          · rw [if_neg own]
            exact ih later room'
      | rotateWriters io =>
          have next : (U64.saturatingAdd id 1).toNat = id.toNat + 1 := by
            rw [U64.saturatingAdd_toNat]
            simp only [rotations, List.countP_cons, SinkCall.isRotation, if_true] at room
            have : (1 : UInt64).toNat = 1 := rfl
            omega
          have room' : (U64.saturatingAdd id 1).toNat + rotations calls < 2 ^ 64 := by
            rw [next]
            simp only [rotations, List.countP_cons, SinkCall.isRotation, if_true] at room
            simp only [rotations]
            omega
          obtain ⟨ascending, above⟩ := @ih later _ false room'
          refine ⟨ascending, fun opening member => ?_⟩
          have := (above opening member).1
          exact ⟨by omega, fun _ => by omega⟩
      | closeWriters io => cases unclosed _ List.mem_cons_self

/-- So no path is opened twice. -/
theorem openings_nodup (E : String) {calls : List SinkCall}
    (unclosed : ∀ call ∈ calls, call.isClose = false) (room : rotations calls < 2 ^ 64) :
    (openings E 0 false calls).Nodup := by
  have sets : (0 : UInt64).toNat + rotations calls < 2 ^ 64 := by
    simpa using room
  have ascending := (@openings_ascending E _ unclosed 0 false sets).1
  exact ascending.imp (fun less same => by rw [same] at less; exact Nat.lt_irrefl _ less)

/-- Nor by one more call. -/
theorem openings_next_nodup (E : String) {calls : List SinkCall} (call : SinkCall)
    (unclosed : ∀ call ∈ calls, call.isClose = false) (room : rotations calls < 2 ^ 64) :
    (openings E 0 false (calls ++ [call])).Nodup := by
  cases call with
  | writeEvent io call =>
      refine openings_nodup E ?_ ?_
      · exact List.forall_mem_append.mpr ⟨unclosed, by simp [SinkCall.isClose]⟩
      · simpa [rotations, SinkCall.isRotation] using room
  | rotateWriters io | closeWriters io =>
      rw [openings_close _ _ _ _ rfl]
      exact openings_nodup E unclosed room

section History

theorem closed_keyed {io : CloseIo} {sink t : ParquetSink}
    (done : (closeWriters io).run sink = (.ok (), t)) : Keyed t := by
  obtain rfl := closeWriters_ok done
  intro E writer lookup
  rw [foldl_finish_storage] at lookup
  cases lookup

theorem SinkCall.step {call : SinkCall} {sink t : ParquetSink} (h : Keyed sink)
    (done : call.run.run sink = (.ok (), t)) :
    Keyed t ∧ (∀ E, segments E t = (logOp E call).elim (segments E sink) (segments E sink).apply) := by
  cases call with
  | writeEvent io call =>
      have written : Written io call sink t := writeEvent_ok done
      refine ⟨written.keyed h, fun E => ?_⟩
      rw [written.segments, logOp]
      split <;> rfl
  | rotateWriters io =>
      obtain ⟨u, closed, rfl⟩ := rotateWriters_ok done
      have cut : ∀ E, segments E u = (segments E sink).cut := closed_segments h closed
      have keyed : Keyed u := closed_keyed closed
      exact ⟨keyed, cut⟩
  | closeWriters io => exact ⟨closed_keyed done, closed_segments h done⟩

/-- A history of successful calls refines the segmented log of every event type. -/
theorem perform_refines {calls : List SinkCall} {sink t : ParquetSink} (h : Keyed sink)
    (done : (perform calls).run sink = (.ok (), t)) :
    Keyed t ∧
      ∀ E, segments E t = (calls.filterMap (logOp E)).foldl apply (segments E sink) := by
  induction calls generalizing sink with
  | nil =>
      obtain ⟨-, rfl⟩ := Prod.mk.inj done
      exact ⟨h, fun _ => rfl⟩
  | cons call calls ih =>
      obtain ⟨_, u, first, rest⟩ := Attempt.bind_ok done
      obtain ⟨keyed, step⟩ := SinkCall.step h first
      obtain ⟨keyed', run⟩ := ih keyed rest
      refine ⟨keyed', fun E => ?_⟩
      rw [run E, step E, List.filterMap_cons]
      cases logOp E call <;> rfl

/-- The closed writers and the open one held everything that was written. -/
theorem held_written {E : String} {calls : List SinkCall} {disk : Disk} {t : ParquetSink}
    (done : (perform calls).run (freshOn disk) = (.ok (), t)) :
    (closedFor E t ++ (t.storage.writers.lookup E).toList).flatMap ArrowWriter.rows =
      writtenRows E calls := by
  obtain ⟨-, refines⟩ := perform_refines (keyed_freshOn disk) done
  have contents := contents_run (segments E (freshOn disk)) (calls.filterMap (logOp E))
  rw [← refines E] at contents
  have same : segments E (freshOn disk) = SegmentedLog.empty := rfl
  rw [same, contents_empty, List.nil_append] at contents
  rw [writtenRows, ← contents, SegmentedLog.contents, List.flatMap_append, List.flatMap_def]
  cases found : t.storage.writers.lookup E <;> simp [segments, found]

/-- After a close no writer is open. -/
theorem shut_after_close {calls : List SinkCall} {io : CloseIo} {sink t : ParquetSink}
    (h : Keyed sink) (done : (perform (calls ++ [.closeWriters io])).run sink = (.ok (), t)) :
    ∀ E, t.storage.writers.lookup E = none := by
  intro E
  obtain ⟨-, refines⟩ := perform_refines h done
  have current : (segments E t).current = none := by
    rw [refines E, List.filterMap_append, List.foldl_append]
    rfl
  simpa [segments] using current

theorem perform_consistent {calls : List SinkCall} {disk : Disk} {sink t : ParquetSink}
    (h : Consistent disk sink) (done : (perform calls).run sink = (.ok (), t)) :
    Consistent disk t := by
  induction calls generalizing sink with
  | nil =>
      obtain ⟨-, rfl⟩ := Prod.mk.inj done
      exact h
  | cons call calls ih =>
      obtain ⟨_, u, first, rest⟩ := Attempt.bind_ok done
      apply ih _ rest
      cases call with
      | writeEvent io call => exact (writeEvent_ok first).consistent h
      | rotateWriters io =>
          obtain ⟨v, closed, rfl⟩ := rotateWriters_ok first
          have after := closed_consistent h closed
          exact ⟨after.keyed, after.unfinished, after.finished⟩
      | closeWriters io => exact closed_consistent h first

theorem perform_paths {calls : List SinkCall} {sink t : ParquetSink} (h : Keyed sink)
    (done : (perform calls).run sink = (.ok (), t)) (E : String) :
    paths E t = paths E sink ++
      (openings E sink.storage.fileSetId (sink.storage.writers.lookup E).isSome calls).map
        (setPath E) := by
  induction calls generalizing sink with
  | nil =>
      obtain ⟨-, rfl⟩ := Prod.mk.inj done
      simp [openings]
  | cons call calls ih =>
      obtain ⟨_, u, first, rest⟩ := Attempt.bind_ok done
      have tail := ih (SinkCall.step h first).1 rest
      rw [tail]
      cases call with
      | writeEvent io call =>
          have written : Written io call sink u := writeEvent_ok first
          rw [written.paths, written.fileSetId]
          obtain ⟨schema, -, -, -, writer⟩ := written.own
          by_cases same : call.eventType = E
          · subst same
            rcases writer with ⟨writer, found, appended, -⟩ | ⟨absent, opened, -⟩
            · simp [openings, found, appended]
            · simp [openings, absent, opened, newPath, setPath]
          · simp [openings, same, (written.others E (Ne.symm same)).1]
      | rotateWriters io =>
          obtain ⟨v, closed, rfl⟩ := rotateWriters_ok first
          obtain ⟨-, none_, fileSetId⟩ := closed_for h closed E
          have kept := closed_paths h closed E
          simp only [openings, ← fileSetId, ← kept, none_, Option.isSome_none]
          rfl
      | closeWriters io =>
          obtain ⟨-, none_, fileSetId⟩ := closed_for h first E
          simp only [openings, ← fileSetId, ← closed_paths h first E, none_, Option.isSome_none]

/-- The openings of later calls depend on what the earlier ones left. -/
theorem openings_append {calls : List SinkCall} {sink t : ParquetSink} (h : Keyed sink)
    (done : (perform calls).run sink = (.ok (), t)) (E : String) (more : List SinkCall) :
    openings E sink.storage.fileSetId (sink.storage.writers.lookup E).isSome (calls ++ more) =
      openings E sink.storage.fileSetId (sink.storage.writers.lookup E).isSome calls ++
        openings E t.storage.fileSetId (t.storage.writers.lookup E).isSome more := by
  induction calls generalizing sink with
  | nil =>
      obtain ⟨-, rfl⟩ := Prod.mk.inj done
      rfl
  | cons call calls ih =>
      obtain ⟨_, u, first, rest⟩ := Attempt.bind_ok done
      have tail := ih (SinkCall.step h first).1 rest
      rw [List.cons_append]
      cases call with
      | writeEvent io call =>
          have written : Written io call sink u := writeEvent_ok first
          rw [written.fileSetId] at tail
          obtain ⟨schema, -, -, -, writer⟩ := written.own
          by_cases same : call.eventType = E
          · subst same
            rcases writer with ⟨writer, found, appended, -⟩ | ⟨absent, opened, -⟩
            · rw [appended, Option.isSome_some] at tail
              simp only [openings, found, Option.isSome_some, if_true, tail]
            · rw [opened, Option.isSome_some] at tail
              simp only [openings, absent, Option.isSome_none, Bool.false_eq_true, if_true, if_false,
                tail, List.cons_append]
          · rw [(written.others E (Ne.symm same)).1] at tail
            simp only [openings, if_neg same, tail]
      | rotateWriters io =>
          obtain ⟨v, closed, rfl⟩ := rotateWriters_ok first
          obtain ⟨-, none_, fileSetId⟩ := closed_for h closed E
          simp only [none_, Option.isSome_none, fileSetId] at tail
          exact tail
      | closeWriters io =>
          obtain ⟨-, none_, fileSetId⟩ := closed_for h first E
          rw [none_, fileSetId] at tail
          exact tail

/-- The file set counts the rotations, up to the largest `u64`. -/
theorem perform_fileSetId {calls : List SinkCall} {sink t : ParquetSink}
    (done : (perform calls).run sink = (.ok (), t)) :
    t.storage.fileSetId.toNat =
      min (sink.storage.fileSetId.toNat + rotations calls) U64.max.toNat := by
  have largest : U64.max.toNat = 2 ^ 64 - 1 := rfl
  induction calls generalizing sink with
  | nil =>
      obtain ⟨-, rfl⟩ := Prod.mk.inj done
      have bound := sink.storage.fileSetId.toNat_lt
      rw [rotations, List.countP_nil]
      omega
  | cons call calls ih =>
      obtain ⟨_, u, first, rest⟩ := Attempt.bind_ok done
      rw [ih rest, rotations, rotations, List.countP_cons]
      cases call with
      | writeEvent io call =>
          rw [(writeEvent_ok first).fileSetId]
          rfl
      | rotateWriters io =>
          obtain ⟨v, closed, rfl⟩ := rotateWriters_ok first
          rw [U64.saturatingAdd_toNat, closeWriters_ok closed, foldl_finish_storage]
          simp only [SinkCall.isRotation, if_true, UInt64.toNat_one]
          omega
      | closeWriters io =>
          rw [closeWriters_ok first, foldl_finish_storage]
          rfl

theorem filled_run {E : String} {calls : List SinkCall} {log : SegmentedLog Row}
    (h : log.Filled) : ((calls.filterMap (logOp E)).foldl apply log).Filled := by
  generalize calls.filterMap (logOp E) = ops
  induction ops generalizing log with
  | nil => exact h
  | cons op ops ih =>
      cases op with
      | item row => exact ih (h.append row)
      | cut => exact ih h.cut

end History

/-- The rows of a readable file. -/
def storedRows (disk : Disk) (E name : String) : List Row :=
  ((disk.table? { eventType := E, fileName := name }).map Table.rows).getD []

/-- The readable files of an event type's directory hold exactly the given rows, each
once and in the given order within a file. -/
def Lossless (disk : Disk) (E : String) (rows : List Row) : Prop :=
  ∃ names : List String, names.Nodup ∧
    (∀ name, name ∈ names ↔ (disk.table? { eventType := E, fileName := name }).isSome) ∧
    (names.flatMap (storedRows disk E)).Perm rows ∧
    ∀ name ∈ names, (storedRows disk E name).Sublist rows

theorem setPath_nodup {E : String} {sets : List (Int × UInt64)} :
    (sets.map (setPath E)).Nodup ↔ sets.Nodup := by
  apply List.nodup_map_iff
  intro a b same
  obtain ⟨millis, id⟩ := setFileName_inj.mp (Path.mk.inj same).2
  exact Prod.ext millis id

/-- With no writer open, a directory shows the last closed writer of each name. -/
theorem table_closed {sink : ParquetSink} (h : Consistent Disk.empty sink)
    (shut : ∀ E, sink.storage.writers.lookup E = none) (E name : String) :
    sink.disk.table? { eventType := E, fileName := name } =
      (LastWins.held (fun writer => writer.path.fileName) (closedFor E sink) name).map
        ArrowWriter.table := by
  have free : ∀ E' writer, sink.storage.writers.lookup E' = some writer →
      writer.path ≠ { eventType := E, fileName := name } := by
    intro E' writer lookup
    cases (shut E').symm.trans lookup
  have same : LastWins.held ArrowWriter.path sink.closed { eventType := E, fileName := name } =
      LastWins.held (fun writer => writer.path.fileName) (closedFor E sink) name := by
    rw [LastWins.held, LastWins.held, closedFor, List.filter_filter]
    congr 1
    apply List.filter_congr
    intro writer _
    obtain ⟨⟨eventType, fileName⟩, schema, rows⟩ := writer
    simp [Bool.and_comm]
  rw [Disk.table?, h.finished _ free, same]
  cases LastWins.held (fun writer => writer.path.fileName) (closedFor E sink) name <;> rfl

/-- With no writer open, a file closed under a path of its own is readable and as it was closed. -/
theorem finished_on_disk {disk : Disk} {sink : ParquetSink} (h : Consistent disk sink)
    (shut : ∀ E, sink.storage.writers.lookup E = none) {E : String}
    (apart : ((closedFor E sink).map ArrowWriter.path).Nodup) {writer : ArrowWriter}
    (member : writer ∈ closedFor E sink) :
    sink.disk.file writer.path = some (.finished writer.table) := by
  have free : ∀ E' w, sink.storage.writers.lookup E' = some w → w.path ≠ writer.path := by
    intro E' w lookup
    cases (shut E').symm.trans lookup
  obtain ⟨inClosed, named⟩ := List.mem_filter.mp member
  have unique : ∀ w ∈ sink.closed, w.path = writer.path → w = writer := by
    intro w other same
    have own : w ∈ closedFor E sink := List.mem_filter.mpr ⟨other, by rw [same]; exact named⟩
    exact List.inj_on_of_nodup_map apart own member same
  rw [h.finished _ free, LastWins.held_of_unique inClosed unique]
  rfl

section

variable {calls : List SinkCall} {io : CloseIo} {t : ParquetSink}

/-- A history that ends with a close: what was closed for an event type, and where. -/
theorem history_closed (done : (perform (calls ++ [.closeWriters io])).run fresh = (.ok (), t))
    (E : String) :
    Consistent Disk.empty t ∧ (∀ E, t.storage.writers.lookup E = none) ∧
      ((closedFor E t).flatMap ArrowWriter.rows) = writtenRows E calls ∧
      (∀ writer ∈ closedFor E t, writer.rows ≠ []) ∧
      (closedFor E t).map ArrowWriter.path = (openings E 0 false calls).map (setPath E) := by
  have consistent := perform_consistent (consistent_freshOn Disk.empty) done
  obtain ⟨-, refines⟩ := perform_refines (keyed_freshOn Disk.empty) done
  have shut := shut_after_close (keyed_freshOn Disk.empty) done
  have current : (segments E t).current = none := by
    rw [segments, shut E]
    rfl
  have contents := contents_run (segments E (freshOn Disk.empty))
    ((calls ++ [SinkCall.closeWriters io]).filterMap (logOp E))
  have filled : (segments E t).Filled := by
    rw [refines E]
    exact filled_run (E := E) filled_empty
  refine ⟨consistent, shut, ?_, ?_, ?_⟩
  · rw [← refines E, SegmentedLog.contents, current] at contents
    rw [List.flatMap_def]
    simpa [segments, writtenRows, items, logOp, fresh, SegmentedLog.contents, closedFor, freshOn, new]
      using contents
  · intro writer member
    apply filled
    exact List.mem_append_left _ (List.mem_map.mpr ⟨writer, member, rfl⟩)
  · have opened := perform_paths (keyed_freshOn Disk.empty) done E
    rw [openings_close _ _ _ _ rfl] at opened
    simpa [paths, shut E, closedFor, fresh, freshOn, new] using opened

theorem names_nodup (done : (perform (calls ++ [.closeWriters io])).run fresh = (.ok (), t))
    (E : String) :
    ((closedFor E t).map (fun writer => writer.path.fileName)).Nodup ↔
      (openings E 0 false calls).Nodup := by
  obtain ⟨-, -, -, -, opened⟩ := history_closed done E
  have split : (closedFor E t).map ArrowWriter.path =
      ((closedFor E t).map (fun writer => writer.path.fileName)).map
        (fun name => { eventType := E, fileName := name }) := by
    rw [List.map_map]
    apply List.map_congr_left
    intro writer member
    have inDirectory : writer.path.eventType = E :=
      of_decide_eq_true (List.mem_filter.mp member).2
    rw [Function.comp_apply, ← inDirectory]
  rw [← setPath_nodup (E := E), ← opened, split]
  exact (List.nodup_map_iff (fun a b same => (Path.mk.inj same).2)).symm

theorem readable_iff (done : (perform (calls ++ [.closeWriters io])).run fresh = (.ok (), t))
    (E name : String) :
    (t.disk.table? { eventType := E, fileName := name }).isSome ↔
      name ∈ (closedFor E t).map (fun writer => writer.path.fileName) := by
  obtain ⟨consistent, shut, -⟩ := history_closed done E
  rw [table_closed consistent shut, Option.isSome_map, LastWins.held]
  simp only [List.getLast?_isSome, ne_eq, List.filter_eq_nil_iff, List.mem_map,
    decide_eq_true_eq, not_forall, not_not, exists_prop]

theorem storedRows_held (done : (perform (calls ++ [.closeWriters io])).run fresh = (.ok (), t))
    (E name : String) :
    storedRows t.disk E name =
      ((LastWins.held (fun writer => writer.path.fileName) (closedFor E t) name).map
        ArrowWriter.rows).getD [] := by
  obtain ⟨consistent, shut, -⟩ := history_closed done E
  rw [storedRows, table_closed consistent shut, Option.map_map]
  rfl

theorem lossless_names (done : (perform (calls ++ [.closeWriters io])).run fresh = (.ok (), t))
    {E : String} (lossless : Lossless t.disk E (writtenRows E calls)) :
    (openings E 0 false calls).Nodup := by
  obtain ⟨-, -, rows, filled, -⟩ := history_closed done E
  obtain ⟨names, nodup, all, perm, -⟩ := lossless
  rw [← names_nodup done]
  apply (LastWins.perm_iff_nodup _ filled nodup
    (fun name => (all name).trans (readable_iff done E name))).mp
  rw [rows]
  simpa only [← storedRows_held done E] using perm

theorem lossless_of_names
    (done : (perform (calls ++ [.closeWriters io])).run fresh = (.ok (), t)) {E : String}
    (apart : (openings E 0 false calls).Nodup) : Lossless t.disk E (writtenRows E calls) := by
  obtain ⟨-, -, rows, filled, -⟩ := history_closed done E
  have nodup := (names_nodup done E).mpr apart
  refine ⟨(closedFor E t).map (fun writer => writer.path.fileName), nodup,
    fun name => (readable_iff done E name).symm, ?_, ?_⟩
  · have perm := (LastWins.perm_iff_nodup _ filled nodup (fun _ => Iff.rfl)).mpr nodup
    rw [rows] at perm
    simpa only [← storedRows_held done E] using perm
  · intro name _
    rw [storedRows_held done]
    cases found : LastWins.held (fun writer => writer.path.fileName) (closedFor E t) name with
    | none => exact List.nil_sublist _
    | some writer =>
        have member : writer ∈ closedFor E t :=
          (List.mem_filter.mp (List.mem_of_getLast? found)).1
        rw [← rows, List.flatMap_def]
        exact List.sublist_flatten_of_mem (List.mem_map.mpr ⟨writer, member, rfl⟩)

/-- A history of successful calls that ends with a close keeps an event type's rows on
disk exactly when it never opens two of its writers at the same clock reading in the
same file set. -/
theorem lossless_iff (done : (perform (calls ++ [.closeWriters io])).run fresh = (.ok (), t))
    (E : String) :
    Lossless t.disk E (writtenRows E calls) ↔ (openings E 0 false calls).Nodup :=
  ⟨lossless_names done, lossless_of_names done⟩

end

section Reuse

def allOk (timestampMillis : Int) : WriteIo where
  timestampMillis := timestampMillis
  createDirAll := .ok ()
  createFile := .ok ()
  tryNewWriter := .ok ()
  tryNewBatch := .ok ()
  write := .ok ()

def closesOk : CloseIo := { order := .asStored _, close := fun _ => .ok () }

def cancelledAt (block : UInt64) : WriteCall where
  eventType := "OrderCancelled"
  blockNumber := block
  txHash := "0x02"
  logIndex := 0
  columns := [("order_hash", "0x07")]

/-- Two file sets written within one millisecond. -/
def rotated : List SinkCall :=
  [.writeEvent (allOk 1000) (cancelledAt 10), .rotateWriters closesOk,
    .writeEvent (allOk 1000) (cancelledAt 11)]

theorem lossless_rotated :
    Lossless ((perform (rotated ++ [.closeWriters closesOk])).run fresh).2.disk "OrderCancelled"
        (writtenRows "OrderCancelled" rotated) ↔
      (openings "OrderCancelled" 0 false rotated).Nodup :=
  lossless_iff (Prod.ext rfl rfl) "OrderCancelled"

/-- A write after a close within one millisecond. -/
def reopened : List SinkCall :=
  [.writeEvent (allOk 1000) (cancelledAt 10), .closeWriters closesOk,
    .writeEvent (allOk 1000) (cancelledAt 11)]

theorem reopened_loses :
    ((perform (reopened ++ [.closeWriters closesOk])).run fresh).1 = .ok () ∧
      ¬ Lossless ((perform (reopened ++ [.closeWriters closesOk])).run fresh).2.disk
        "OrderCancelled" (writtenRows "OrderCancelled" reopened) := by
  have done : ((perform (reopened ++ [.closeWriters closesOk])).run fresh).1 = .ok () := rfl
  refine ⟨done, fun lossless => ?_⟩
  have apart := lossless_names (Prod.ext done rfl) lossless
  exact absurd apart (by decide)

end Reuse

end PolymarketIndexer.ParquetStorage
