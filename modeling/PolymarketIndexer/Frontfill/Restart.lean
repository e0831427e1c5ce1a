import PolymarketIndexer.Frontfill.Resources

/-! # A live indexer that is started again

Each process starts with nothing open on the directory the last one left, which died between two
calls of its sink or was shut down. As long as the clock does not show two of them the same
millisecond, none touches a file of another, and the directory holds what each of them settled, one
after the other.
-/

namespace PolymarketIndexer

namespace ParquetStorage

/-- The reading of the clock that a write gets. -/
def SinkCall.clock? : SinkCall → Option Int
  | .writeEvent io _ => some io.timestampMillis
  | _ => none

section Names

variable {calls : List SinkCall} {disk : Disk} {t : ParquetSink}

theorem openings_clock (E : String) (id : UInt64) (isOpen : Bool) (calls : List SinkCall) :
    ∀ opening ∈ openings E id isOpen calls, opening.1 ∈ calls.filterMap SinkCall.clock? := by
  induction calls generalizing id isOpen with
  | nil => simp [openings]
  | cons call calls ih =>
      cases call with
      | writeEvent io call =>
          intro opening member
          have here : (SinkCall.writeEvent io call :: calls).filterMap SinkCall.clock? =
              io.timestampMillis :: calls.filterMap SinkCall.clock? := rfl
          rw [here]
          rw [openings] at member
          split at member
          · cases isOpen with
            | true => exact List.mem_cons_of_mem _ (ih _ _ opening member)
            | false =>
                rcases List.mem_cons.mp member with rfl | later
                · exact List.mem_cons_self
                · exact List.mem_cons_of_mem _ (ih _ _ opening later)
          · exact List.mem_cons_of_mem _ (ih _ _ opening member)
      | rotateWriters io => exact ih _ _
      | closeWriters io => exact ih _ _

/-- Every file of a history has one of its readings in the name. -/
theorem created_clock {p : Path} (member : p ∈ created calls) :
    ∃ millis ∈ calls.filterMap SinkCall.clock?, ∃ id, p.fileName = setFileName millis id := by
  obtain ⟨kind, -, own⟩ := List.mem_flatMap.mp member
  obtain ⟨opening, opened, rfl⟩ := List.mem_map.mp own
  exact ⟨_, openings_clock _ _ _ _ opening opened, opening.2, rfl⟩

theorem closedNames_created (done : (perform calls).run (freshOn disk) = (.ok (), t))
    {kind : EventType} {name : String} (member : name ∈ closedNames kind.name t) :
    { eventType := kind.name, fileName := name } ∈ created calls := by
  obtain ⟨writer, closed, rfl⟩ := List.mem_map.mp member
  have used : writer.path ∈ paths kind.name t :=
    List.mem_map_of_mem (List.mem_append_left _ closed)
  rw [paths_openings done, closedFor_path closed] at used
  exact List.mem_flatMap.mpr ⟨kind, kind.mem_all, used⟩

end Names

end ParquetStorage

namespace Frontfill

open ParquetStorage

/-- The readings of the clock a run got. -/
def State.clock (s : LiveState) : List Int := s.sinkCalls.filterMap SinkCall.clock?

/-- A process that started on a directory and came as far as this, or was shut down. -/
structure Life (alloy : Alloy) (disk : Disk) (t : LiveState) : Prop where
  lived : ∃ config runtime s inputs, launch config (.ok (freshOn disk)) runtime = .ok s ∧
    Machine.exec (step config alloy) s inputs = some t
  goesOn : t.phase.result? = none ∨ t.phase.result? = some (.ok ())
  room : t.rotations < 2 ^ 64

/-- Processes one after the other, from an empty directory, and the directory they leave. -/
inductive Lives (alloy : Alloy) : List LiveState → Disk → Prop where
  | none : Lives alloy [] Disk.empty
  | restart {lives : List LiveState} {disk : Disk} {t : LiveState} (before : Lives alloy lives disk)
      (life : Life alloy disk t) : Lives alloy (lives ++ [t]) t.sink.disk

/-- What a process has left behind of the logs it received. -/
structure Leaves (alloy : Alloy) (t : LiveState) (done : List Log) : Prop where
  part : done <+: t.received
  whole : t.phase.result? = some (.ok ()) → done = t.received
  lost : (done.filterMap (StoredLog.ofLog alloy)).length + (recentCalls t.sinkCalls).length =
    t.written.length

section Step

variable {readers : TextReaders} {alloy : Alloy} {disk : Disk} {t : LiveState}

/-- A process leaves the files alone that it does not create. -/
theorem Life.others (life : Life alloy disk t) {p : Path} (other : p ∉ created t.sinkCalls) :
    t.sink.disk.file p = disk.file p := by
  obtain ⟨config, runtime, s, inputs, start, run⟩ := life.lived
  by_contra changed
  exact other (changed_created (run_recorded start run life.goesOn)
    (run_keeps typed_kept (typed_freshOn disk) start run life.goesOn) changed)

/-- What a process adds to the directory. -/
theorem Life.adds (undo : readers.Undo alloy) (life : Life alloy disk t) :
    ∃ done, Leaves alloy t done ∧ ∀ kind : EventType,
      (closedNames kind.name t.sink).Nodup ∧
      (∀ name ∈ closedNames kind.name t.sink,
        { eventType := kind.name, fileName := name } ∈ created t.sinkCalls ∧
        (t.sink.disk.table? { eventType := kind.name, fileName := name }).isSome) ∧
      (∀ name ∉ closedNames kind.name t.sink,
        t.sink.disk.table? { eventType := kind.name, fileName := name } = none ∨
          t.sink.disk.table? { eventType := kind.name, fileName := name } =
            disk.table? { eventType := kind.name, fileName := name }) ∧
      ((closedNames kind.name t.sink).flatMap fun name =>
        readers.readFile t.sink.disk { eventType := kind.name, fileName := name }) =
          (storedLogs alloy kind done).map some := by
  obtain ⟨config, runtime, s, inputs, start, run⟩ := life.lived
  have recorded := run_recorded start run life.goesOn
  obtain ⟨done, all, before, part, -, whole, fine, settled, -⟩ := settled_prefix
    (run_ingested start run) (run_heard start run) (run_judged start run)
  have settledFine := fun log member => fine log (before.subset member)
  refine ⟨done, ⟨before.trans part, whole, settled_length undo settledFine settled⟩,
    fun kind => ?_⟩
  obtain ⟨legible, typed, held⟩ := run_settled start run life.goesOn life.room kind.name
  refine ⟨legible.names_nodup, fun name member => ⟨closedNames_created recorded member, ?_⟩,
    legible.others, (told_closed undo legible typed settledFine held settled).1⟩
  exact legible.isSome member

end Step

section Run

variable {readers : TextReaders} {alloy : Alloy} {disk : Disk} {lives : List LiveState}

/-- Each file of the directory has a reading of one of the processes in its name. -/
theorem lives_dated (all : Lives alloy lives disk) {p : Path} (present : disk.file p ≠ none) :
    ∃ t ∈ lives, ∃ millis ∈ t.clock, ∃ id, p.fileName = setFileName millis id := by
  induction all with
  | none => exact absurd rfl present
  | @restart lives disk t before life ih =>
      by_cases own : p ∈ created t.sinkCalls
      · obtain ⟨millis, member, id, named⟩ := created_clock own
        exact ⟨t, List.mem_append_right _ List.mem_cons_self, millis, member, id, named⟩
      · rw [life.others own] at present
        obtain ⟨u, member, dated⟩ := ih present
        exact ⟨u, List.mem_append_left _ member, dated⟩

theorem storedLogs_append (kind : EventType) (logs more : List Log) :
    storedLogs alloy kind (logs ++ more) =
      storedLogs alloy kind logs ++ storedLogs alloy kind more := by
  simp [storedLogs]

/-- The directory after any number of starts, crashes between two calls, and shutdowns, read back, is what each process
settled, in their order: when the clock shows no two of them the same millisecond, nothing that
could be read is ever lost. -/
theorem restarts_accumulate (undo : readers.Undo alloy) (all : Lives alloy lives disk)
    (apart : lives.Pairwise (fun t u => ∀ millis ∈ t.clock, millis ∉ u.clock)) :
    ∃ done : List (List Log), List.Forall₂ (Leaves alloy) lives done ∧
      ∀ kind : EventType, ∃ names : List String, names.Nodup ∧
        (∀ name, name ∈ names ↔
          (disk.table? { eventType := kind.name, fileName := name }).isSome) ∧
        (names.flatMap fun name =>
          readers.readFile disk { eventType := kind.name, fileName := name }) =
            (storedLogs alloy kind done.flatten).map some := by
  induction all with
  | none =>
      refine ⟨[], .nil, fun kind => ⟨[], List.nodup_nil, fun name => ?_, rfl⟩⟩
      exact ⟨fun member => (by cases member), fun readable => (by cases readable)⟩
  | @restart lives disk t before life ih =>
      obtain ⟨earlier, -, later⟩ := List.pairwise_append.mp apart
      obtain ⟨dones, leaves, told⟩ := ih earlier
      obtain ⟨done, own, adds⟩ := life.adds undo
      -- what was there is not under a name of this process
      have kept : ∀ p, disk.file p ≠ none → p ∉ created t.sinkCalls := by
        intro p present mine
        obtain ⟨u, member, millis, read, id, named⟩ := lives_dated before present
        obtain ⟨millis', read', id', named'⟩ := created_clock mine
        obtain ⟨rfl, -⟩ := setFileName_inj.mp (named.symm.trans named')
        exact later u member t List.mem_cons_self millis read read'
      have readable : ∀ p, (disk.table? p).isSome → disk.file p ≠ none := by
        intro p found absent
        rw [Disk.table?, absent] at found
        cases found
      refine ⟨dones ++ [done], List.rel_append leaves (.cons own .nil), fun kind => ?_⟩
      obtain ⟨names, distinct, before_, rows⟩ := told kind
      obtain ⟨distinct', mine, others, rows'⟩ := adds kind
      have same : ∀ name ∈ names,
          t.sink.disk.file { eventType := kind.name, fileName := name } =
            disk.file { eventType := kind.name, fileName := name } :=
        fun name member => life.others (kept _ (readable _ ((before_ name).mp member)))
      refine ⟨names ++ closedNames kind.name t.sink, ?_, fun name => ?_, ?_⟩
      · refine List.nodup_append.mpr ⟨distinct, distinct', ?_⟩
        rintro name member _ member' rfl
        exact kept _ (readable _ ((before_ name).mp member)) (mine name member').1
      · constructor
        · intro member
          rcases List.mem_append.mp member with old | new
          · rw [Disk.table?, same name old]
            exact (before_ name).mp old
          · exact (mine name new).2
        · intro found
          by_cases new : name ∈ closedNames kind.name t.sink
          · exact List.mem_append_right _ new
          · rcases others name new with none_ | was
            · rw [none_] at found
              cases found
            · rw [was] at found
              exact List.mem_append_left _ ((before_ name).mpr found)
      · have old : ∀ name ∈ names,
            readers.readFile t.sink.disk { eventType := kind.name, fileName := name } =
              readers.readFile disk { eventType := kind.name, fileName := name } := by
          intro name member
          simp only [TextReaders.readFile, Disk.table?, same name member]
        rw [List.flatMap_append, rows', List.flatMap_congr old, rows, List.flatten_append,
          storedLogs_append, List.map_append]
        simp

end Run

section Example

/-- A rotation, and a write that a crash will lose. -/
def firstLife : List (Input ParquetIo) :=
  ingesting (cancelled 10 0) ++
    [.next (some (cancelled 2000 0)), .lock, .sink sinkOk, .sink sinkOk]

/-- The clock has gone on. -/
def sinkLater : ParquetIo where
  write := ParquetStorage.allOk 2000
  close := ParquetStorage.closesOk

def secondLife : List (Input ParquetIo) :=
  [.next (some (cancelled 12 0)), .lock, .sink sinkLater, .pollCtrlC (.ok ()), .signal, .shutdown,
    .sink sinkLater]

def leftBehind : Disk :=
  ((Machine.exec (step liveConfig Reference.alloy) listening firstLife).map
    (fun t => t.sink.disk)).getD Disk.empty

theorem exec_connecting_on (disk : Disk) (inputs : List (Input ParquetIo)) :
    Machine.exec (step liveConfig Reference.alloy) { liveStart with sink := freshOn disk }
      (connecting ++ inputs) =
    Machine.exec (step liveConfig Reference.alloy) { listening with sink := freshOn disk }
      inputs := by
  obtain ⟨ws, connects⟩ : ∃ ws, buildWsConnect liveConfig = .ok ws := ⟨_, rfl⟩
  obtain ⟨filter, filters⟩ := buildFilter_ok Reference.addresses_parse liveConfig.startBlock
  simp only [connecting, List.cons_append, List.nil_append, Machine.exec, step, reconnectStep,
    liveStart, connects, filters, Option.bind_some]
  rfl

/-- The first process dies with a writer open, the second is shut down. -/
theorem restarts_accumulate_two :
    ∃ (t u : LiveState) (done : List (List Log)) (names : List String),
    live (connecting ++ firstLife) = some t ∧
    Machine.exec (step liveConfig Reference.alloy)
      { liveStart with sink := freshOn t.sink.disk } (connecting ++ secondLife) = some u ∧
    List.Forall₂ (Leaves Reference.alloy) [t, u] done ∧
    (names.flatMap fun name => Reference.readers.readFile u.sink.disk
      { eventType := "OrderCancelled", fileName := name }) =
        (storedLogs Reference.alloy .orderCancelled done.flatten).map some := by
  have returns : (live (connecting ++ firstLife)).isSome := by
    rw [live_connecting]
    rfl
  obtain ⟨t, run⟩ := Option.isSome_iff_exists.mp returns
  have heard := run
  rw [live_connecting] at heard
  have phase : t.phase = .selecting none := seen State.phase heard rfl
  have rotations : t.rotations = 1 := seen State.rotations heard rfl
  have clock : t.clock = [1000, 1000] := seen State.clock heard rfl
  have disk : t.sink.disk = leftBehind := by rw [leftBehind, heard]; rfl
  have again : (Machine.exec (step liveConfig Reference.alloy)
      { liveStart with sink := freshOn leftBehind } (connecting ++ secondLife)).isSome := by
    rw [exec_connecting_on]
    rfl
  obtain ⟨u, run'⟩ := Option.isSome_iff_exists.mp again
  have heard' := run'
  rw [exec_connecting_on] at heard'
  have phase' : u.phase = .returned (.ok ()) := seen State.phase heard' rfl
  have rotations' : u.rotations = 0 := seen State.rotations heard' rfl
  have clock' : u.clock = [2000] := seen State.clock heard' rfl
  have first : Life Reference.alloy Disk.empty t :=
    ⟨⟨_, _, _, _, liveStart_launched, run⟩, .inl (by rw [phase]; rfl),
      by rw [rotations]; decide⟩
  have second : Life Reference.alloy t.sink.disk u := by
    rw [disk]
    exact ⟨⟨liveConfig, .error "disabled", _, _, rfl, run'⟩, .inr (by rw [phase']; rfl),
      by rw [rotations']; decide⟩
  obtain ⟨done, leaves, told⟩ := restarts_accumulate Reference.undo
    (.restart (.restart .none first) second) (by simp [clock, clock'])
  obtain ⟨names, -, -, rows⟩ := told .orderCancelled
  rw [← disk] at run'
  exact ⟨t, u, done, names, run, run', leaves, rows⟩

end Example

end Frontfill

end PolymarketIndexer
