import PolymarketIndexer.Storage.Confinement
import PolymarketIndexer.Frontfill.Rotation
import PolymarketIndexer.Frontfill.Counters
import PolymarketIndexer.Backfill.Queue

/-! # Both runs over one directory

A live run and a backfill may share their output directory. Who writes a file can be read off
its name: the live run puts the clock and its file set there, a backfill the bounds of the
chunk. An input is a step of one of the runs, so a list of inputs interleaves them; each
finds the directory as the other left it.
-/

namespace PolymarketIndexer

open ParquetStorage Frontfill Backfill

/-- Whose a file is: one file set of the live run, or one chunk of the backfill. -/
inductive Owner where
  | fileSet (id : UInt64)
  | chunk (chunk : Chunk)
  deriving DecidableEq

def Owner.Owns : Owner → Path → Prop
  | .fileSet id, path => InSet id path
  | .chunk c, path => ∃ E, path = chunkPath E c

/-- A file has one owner. -/
theorem owner_unique {a b : Owner} {path : Path} (own : a.Owns path) (own' : b.Owns path) :
    a = b := by
  cases a with
  | fileSet id =>
      obtain ⟨E, millis, rfl⟩ := own
      cases b with
      | fileSet id' =>
          obtain ⟨E', millis', same⟩ := own'
          exact congrArg Owner.fileSet (setFileName_inj.mp (Path.mk.inj same).2).2
      | chunk c =>
          obtain ⟨E', same⟩ := own'
          exact absurd (Path.mk.inj same).2 (setFileName_ne_chunkFileName _ _ _ _)
  | chunk c =>
      obtain ⟨E, rfl⟩ := own
      cases b with
      | fileSet id =>
          obtain ⟨E', millis, same⟩ := own'
          exact absurd (Path.mk.inj same).2.symm (setFileName_ne_chunkFileName _ _ _ _)
      | chunk c' =>
          obtain ⟨E', same⟩ := own'
          exact congrArg Owner.chunk (chunkPath_inj same).2

/-- The default of `--output-dir`, of each command its own. -/
def Frontfill.defaultOutputDir : String := "output"

def Backfill.defaultOutputDir : String := "output"

/-- The file that a step may create: a write gives a new writer this path. -/
def Frontfill.State.creates (s : LiveState) : Frontfill.Input ParquetIo → Option Path
  | .sink io =>
      match s.phase with
      | .writing _ decoded => some (newPath io.write decoded.eventType s.sink)
      | _ => none
  | _ => none

/-- The file that a step may create: that of the next group of a chunk. -/
def Backfill.State.creates (s : Backfill.State) : Backfill.Input → Option Path
  | .task index .proceed =>
      match s.tasks[index]? with
      | some (chunk, .writing (⟨eventType, _⟩ :: _) _) => some (chunkPath eventType chunk)
      | _ => none
  | _ => none

section Live

variable {config : FrontfillConfig} {alloy : Alloy} {s t : LiveState}
  {input : Frontfill.Input ParquetIo}

/-- The file set counts the rotations, and the open writers are of it. -/
structure Numbered (s : LiveState) : Prop where
  current : Current s.sink
  fileSetId : s.sink.storage.fileSetId.toNat = min s.rotations U64.max.toNat

theorem numbered_launch {runtime : Except String FrontfillMetrics} {disk : Disk}
    (start : launch config (.ok (freshOn disk)) runtime = .ok s) : Numbered s := by
  obtain ⟨-, sink, -, trace, -⟩ := launch_start start
  have fresh := Except.ok.inj sink
  refine ⟨?_, ?_⟩
  · rw [← fresh]
    exact current_freshOn disk
  · rw [← fresh, State.rotations, trace]
    rfl

/-- A step that counts the file set up exactly when it adds a rotation to the trace. -/
theorem numbered_next {counts : Bool} {effects : List (Effect ParquetIo)} (numbered : Numbered s)
    (touches : Touches counts s.sink t.sink) (trace : t.trace = s.trace ++ effects)
    (counted : effects.countP Effect.isRotation = counts.toNat) : Numbered t := by
  refine ⟨touches.current, ?_⟩
  have largest : U64.max.toNat = 2 ^ 64 - 1 := rfl
  have before := numbered.fileSetId
  rw [State.rotations] at before
  rw [touches.fileSetId, State.rotations, trace, List.countP_append, counted]
  cases counts with
  | false => exact before
  | true =>
      rw [if_pos rfl, U64.saturatingAdd_toNat, before]
      simp only [Bool.toNat_true, UInt64.toNat_one]
      omega

theorem touches_same (numbered : Numbered s) {sink : ParquetSink} (same : sink = s.sink) :
    Touches false s.sink sink := by
  subst same
  exact ⟨numbered.current, rfl, fun _ _ => rfl⟩

/-- A step of a live run touches files of its file set only. -/
theorem live_step (numbered : Numbered s) (moved : Frontfill.step config alloy s input = some t) :
    Numbered t ∧ ∃ counts, Touches counts s.sink t.sink := by
  cases step_moves moved with
  | quiet sink trace =>
      have touches := touches_same numbered sink
      exact ⟨@numbered_next _ _ _ [] numbered touches (by rw [trace, List.append_nil]) rfl, _,
        touches⟩
  | refused =>
      have touches := touches_same numbered rfl
      exact ⟨numbered_next numbered touches rfl rfl, _, touches⟩
  | @took _ log selecting =>
      have touches := touches_same numbered (take_sink s alloy log)
      exact ⟨numbered_next numbered touches (take_trace s alloy log) rfl, _, touches⟩
  | @decided u taken locking early sink trace =>
      have touches := touches_same numbered ((decode_sink u alloy taken).trans sink)
      have same : (u.decode alloy taken).trace = s.trace ++ [] := by
        rw [decode_trace, trace, List.append_nil]
      exact ⟨numbered_next numbered touches same rfl, _, touches⟩
  | @rotated u taken io rotating call trace =>
      have touches : Touches true s.sink (u.decode alloy taken).sink := by
        rw [decode_sink]
        exact rotateWriters_touches numbered.current call
      exact ⟨numbered_next numbered touches ((decode_trace u alloy taken).trans trace) rfl, _,
        touches⟩
  | rotateFailed rotating call =>
      have touches := rotateWriters_failed numbered.current call
      exact ⟨numbered_next numbered touches rfl rfl, _, touches⟩
  | wrote writing call trace =>
      have touches := writeEvent_touches numbered.current call
      exact ⟨numbered_next numbered touches trace rfl, _, touches⟩
  | writeFailed writing call trace =>
      have touches := writeEvent_touches numbered.current call
      exact ⟨numbered_next numbered touches trace rfl, _, touches⟩
  | closed closing call trace =>
      have touches := closeWriters_touches numbered.current call
      exact ⟨numbered_next numbered touches trace rfl, _, touches⟩
  | closeFailed closing call =>
      have touches := closeWriters_touches numbered.current call
      exact ⟨numbered_next numbered touches rfl rfl, _, touches⟩

/-- A write changes at most the file that its step may create. -/
theorem write_creates {taken : Taken} {decoded : DecodedEvent} (numbered : Numbered s)
    (writing : s.phase = .writing taken decoded)
    (moved : Frontfill.step config alloy s input = some t) {path : Path}
    (other : s.creates input ≠ some path) : t.sink.disk.file path = s.sink.disk.file path := by
  have apart : ∀ io, input = .sink io → path ≠ newPath io.write decoded.eventType s.sink := by
    rintro io rfl rfl
    exact other (by simp only [Frontfill.State.creates, writing])
  cases step_moves moved with
  | quiet sink => rw [sink]
  | refused => rfl
  | took selecting => rw [take_sink]
  | decided locking early sink => rw [decode_sink, sink]
  | wrote writing' call =>
      obtain ⟨-, rfl⟩ := Phase.writing.inj (writing.symm.trans writing')
      exact writeEvent_creates numbered.current call (apart _ rfl)
  | writeFailed writing' call =>
      obtain ⟨-, rfl⟩ := Phase.writing.inj (writing.symm.trans writing')
      exact writeEvent_creates numbered.current call (apart _ rfl)
  | rotated rotating => cases writing.symm.trans rotating
  | rotateFailed rotating => cases writing.symm.trans rotating
  | closed closing => cases writing.symm.trans closing
  | closeFailed closing => cases writing.symm.trans closing

end Live

section Historical

variable {env : Env} {s t : Backfill.State} {input : Backfill.Input} {path : Path}

/-- A step of a backfill changes at most the file that it may create. -/
theorem historical_step (moved : Backfill.step env s input = some t)
    (other : s.creates input ≠ some path) :
    t.shared.output.disk.file path = s.shared.output.disk.file path := by
  obtain ⟨-, -, cases_⟩ := step_cases moved
  rcases cases_ with ⟨_, _, -, -, -, rfl⟩ |
    ⟨index, event, c, task, task', shared, rfl, found, stepped, rfl⟩ | ⟨_, -, rfl⟩ | ⟨-, -, -, rfl⟩
  · rfl
  · rcases taskStep_shared stepped with ⟨-, -, same⟩ |
      ⟨-, -, same | ⟨E, columns, rows, todo, missing, rfl, rfl, written⟩⟩
    · exact congrArg (fun out => out.disk.file path) same
    · exact congrArg (fun out => out.disk.file path) same
    · have apart : path ≠ chunkPath E c := by
        rintro rfl
        exact other (by simp only [Backfill.State.creates, found])
      refine (congrArg (fun out => out.disk.file path) written).trans ?_
      exact writeParquetFile_elsewhere _ columns _ _ apart
  · rfl
  · rfl

end Historical

/-- The two runs and the directory. -/
structure Both where
  live : LiveState
  historical : Backfill.State
  disk : Disk

inductive BothInput where
  | live (input : Frontfill.Input ParquetIo)
  | historical (input : Backfill.Input)

def Both.creates (s : Both) : BothInput → Option Path
  | .live input => s.live.creates input
  | .historical input => s.historical.creates input

/-- Whose files a step may touch. Starting a task, the refill and the end of a backfill touch
none. -/
def Both.actor (s : Both) : BothInput → Option Owner
  | .live _ => some (.fileSet s.live.sink.storage.fileSetId)
  | .historical (.task index _) => s.historical.tasks[index]?.map (fun task => .chunk task.1)
  | .historical _ => none

section Shared

variable (config : FrontfillConfig) (alloy : Alloy) (env : Env)

def bothStep (s : Both) : BothInput → Option Both
  | .live input =>
      (Frontfill.step config alloy { s.live with sink.disk := s.disk } input).map
        (fun live => { s with live := live, disk := live.sink.disk })
  | .historical input =>
      (Backfill.step env { s.historical with shared.output.disk := s.disk } input).map
        (fun historical =>
          { s with historical := historical, disk := historical.shared.output.disk })

variable {config alloy env}

/-- A run of one of the two alone is a run of both. -/
theorem live_alone {s t : LiveState} {inputs : List (Frontfill.Input ParquetIo)}
    (run : Machine.exec (Frontfill.step config alloy) s inputs = some t)
    (historical : Backfill.State) :
    Machine.exec (bothStep config alloy env) ⟨s, historical, s.sink.disk⟩
      (inputs.map BothInput.live) = some ⟨t, historical, t.sink.disk⟩ := by
  induction inputs generalizing s with
  | nil =>
      cases run
      rfl
  | cons input inputs ih =>
      obtain ⟨u, first, rest⟩ := (Machine.exec_cons _).mp run
      refine (Machine.exec_cons _).mpr ⟨_, ?_, ih rest⟩
      exact congrArg (Option.map _) first

theorem historical_alone {s t : Backfill.State} {inputs : List Backfill.Input}
    (run : Machine.exec (Backfill.step env) s inputs = some t) (live : LiveState) :
    Machine.exec (bothStep config alloy env) ⟨live, s, s.shared.output.disk⟩
      (inputs.map BothInput.historical) = some ⟨live, t, t.shared.output.disk⟩ := by
  induction inputs generalizing s with
  | nil =>
      cases run
      rfl
  | cons input inputs ih =>
      obtain ⟨u, first, rest⟩ := (Machine.exec_cons _).mp run
      refine (Machine.exec_cons _).mpr ⟨_, ?_, ih rest⟩
      exact congrArg (Option.map _) first

variable {s t : Both} {input : BothInput} {path : Path}

/-- A step creates a file of its actor. -/
theorem creates_owned (creates : s.creates input = some path) :
    ∃ owner, s.actor input = some owner ∧ owner.Owns path := by
  cases input with
  | live input =>
      refine ⟨_, rfl, ?_⟩
      cases input with
      | sink io =>
          simp only [Both.creates, Frontfill.State.creates] at creates
          split at creates
          · obtain rfl := Option.some.inj creates
            exact newPath_inSet _ _ _
          · cases creates
      | _ => cases creates
  | historical input =>
      cases input with
      | task index event =>
          cases event with
          | proceed =>
              simp only [Both.creates, Backfill.State.creates] at creates
              split at creates
              · rename_i found
                obtain rfl := Option.some.inj creates
                exact ⟨.chunk _, by rw [Both.actor, found]; rfl, _, rfl⟩
              · cases creates
          | _ => cases creates
      | _ => cases creates

theorem bothStep_numbered (numbered : Numbered s.live)
    (moved : bothStep config alloy env s input = some t) : Numbered t.live := by
  cases input with
  | live input =>
      obtain ⟨live, stepped, rfl⟩ := Option.map_eq_some_iff.mp moved
      have before : Numbered { s.live with sink.disk := s.disk } :=
        ⟨numbered.current, numbered.fileSetId⟩
      exact (live_step before stepped).1
  | historical input =>
      obtain ⟨historical, -, rfl⟩ := Option.map_eq_some_iff.mp moved
      exact numbered

/-- A step leaves alone what its actor does not own. -/
theorem bothStep_elsewhere (numbered : Numbered s.live)
    (moved : bothStep config alloy env s input = some t) {owner : Owner} (owns : owner.Owns path)
    (apart : s.actor input ≠ some owner) : t.disk.file path = s.disk.file path := by
  cases input with
  | live input =>
      obtain ⟨live, stepped, rfl⟩ := Option.map_eq_some_iff.mp moved
      have before : Numbered { s.live with sink.disk := s.disk } :=
        ⟨numbered.current, numbered.fileSetId⟩
      obtain ⟨-, _, touches⟩ := live_step before stepped
      apply touches.others path
      intro inSet
      have own : (Owner.fileSet s.live.sink.storage.fileSetId).Owns path := inSet
      exact apart (congrArg some (owner_unique own owns))
  | historical input =>
      obtain ⟨historical, stepped, rfl⟩ := Option.map_eq_some_iff.mp moved
      apply historical_step stepped
      intro creates
      obtain ⟨_, acts, own⟩ := @creates_owned s (.historical input) path creates
      rw [owner_unique owns own] at apart
      exact apart acts

theorem bothRun_numbered {inputs : List BothInput} (numbered : Numbered s.live)
    (run : Machine.exec (bothStep config alloy env) s inputs = some t) : Numbered t.live := by
  have keeps : ∀ (a : Both) (i : BothInput) (b : Both), True → Numbered a.live →
      bothStep config alloy env a i = some b → Numbered b.live :=
    fun _ _ _ _ before moved => bothStep_numbered before moved
  exact Machine.exec_invariant _ keeps (fun _ _ => trivial) run numbered

/-- Names tell files apart. So a step creates and changes only files of its own chunk or file set,
and leaves those of another chunk, of another file set and of the other run as they are, whatever
the directory holds and the clocks read. -/
theorem names_never_collide {disk : Disk} {runtime : Except String FrontfillMetrics}
    {live : LiveState} (start : launch config (.ok (freshOn disk)) runtime = .ok live)
    (plan : List Chunk) :
    (∀ a b a' b', chunkFileName a b = chunkFileName a' b' ↔ a = a' ∧ b = b') ∧
    (∀ millis millis' id id',
      setFileName millis id = setFileName millis' id' ↔ millis = millis' ∧ id = id') ∧
    (∀ millis id a b, setFileName millis id ≠ chunkFileName a b) ∧
    Backfill.defaultOutputDir = Frontfill.defaultOutputDir ∧
    (∀ (s t : Both) (input input' : BothInput) path, s.creates input = some path →
      t.creates input' = some path → s.actor input = t.actor input') ∧
    (∀ inputs s input directory t, Machine.exec (bothStep config alloy env)
        ⟨live, begin_ env plan disk, disk⟩ inputs = some s →
      bothStep config alloy env { s with disk := directory } input = some t →
      ∀ (owner : Owner) path, owner.Owns path → s.actor input ≠ some owner →
        t.disk.file path = directory.file path) ∧
    ∀ inputs s t input input' path path',
      Machine.Takes (bothStep config alloy env) ⟨live, begin_ env plan disk, disk⟩ inputs s
        (.live input) →
      Machine.Takes (bothStep config alloy env) ⟨live, begin_ env plan disk, disk⟩ inputs t
        (.live input') →
      s.live.rotations ≠ t.live.rotations →
      s.live.sink.storage.fileSetId < U64.max → t.live.sink.storage.fileSetId < U64.max →
      s.live.creates input = some path → t.live.creates input' = some path' → path ≠ path' := by
  have first := numbered_launch start
  refine ⟨fun _ _ _ _ => chunkFileName_inj, fun _ _ _ _ => setFileName_inj,
    setFileName_ne_chunkFileName, rfl, ?_, ?_, ?_⟩
  · intro s t input input' path creates creates'
    obtain ⟨owner, acts, owns⟩ := creates_owned creates
    obtain ⟨owner', acts', owns'⟩ := creates_owned creates'
    rw [acts, acts', owner_unique owns owns']
  · intro inputs s input directory t run moved owner path owns apart
    have numbered := @bothRun_numbered config alloy env _ _ _ first run
    exact @bothStep_elsewhere _ _ _ { s with disk := directory } _ _ _ numbered moved _ owns apart
  · intro inputs s t input input' path path' takes takes' sets below below' creates creates'
    rintro rfl
    obtain ⟨_, acts, owns⟩ := @creates_owned s (.live input) path creates
    obtain ⟨_, acts', owns'⟩ := @creates_owned t (.live input') path creates'
    obtain rfl := owner_unique owns owns'
    obtain ⟨past, _, -, reached⟩ := takes
    obtain ⟨past', _, -, reached'⟩ := takes'
    have numbers := (@bothRun_numbered config alloy env _ _ _ first reached).fileSetId
    have numbers' := (@bothRun_numbered config alloy env _ _ _ first reached').fileSetId
    have same : s.live.sink.storage.fileSetId = t.live.sink.storage.fileSetId :=
      Owner.fileSet.inj (Option.some.inj (acts.trans acts'.symm))
    have room := UInt64.lt_iff_toNat_lt.mp below
    rw [same] at numbers room
    omega

end Shared

section Example

/-- The two runs about to start in an empty directory. -/
def sharedStart : Both where
  live := liveStart
  historical := begin_ onePerSecond [(10, 14), (15, 19)] Disk.empty
  disk := Disk.empty

/-- Two logs twelve blocks apart, each up to its write. -/
def firstWrite : List (Frontfill.Input ParquetIo) :=
  connecting ++ [.next (some (cancelled 10 0)), .lock]

def secondWrite : List (Frontfill.Input ParquetIo) :=
  connecting ++ (ingesting (cancelled 10 0) ++
    [.next (some (cancelled 22 0)), .lock, .sink sinkOk])

/-- The first chunk of the backfill, up to its only file. -/
def fetchingFirst : List BothInput :=
  [.historical .launch, .historical (.task 0 .acquire),
    .historical (.task 0 (.fetched (.asStored _)))]

/-- The clock stands still, and yet the second file set gets a file of its own; the backfill
leaves the file of the first one alone. -/
theorem names_never_collide_shared : ∃ s t u v path path',
    Machine.Takes (bothStep liveConfig Reference.alloy onePerSecond) sharedStart
      (twoWindows.map .live) s (.live (.sink sinkOk)) ∧
    Machine.Takes (bothStep liveConfig Reference.alloy onePerSecond) sharedStart
      (twoWindows.map .live) t (.live (.sink sinkOk)) ∧
    s.live.creates (.sink sinkOk) = some path ∧ t.live.creates (.sink sinkOk) = some path' ∧
    path ≠ path' ∧
    Machine.exec (bothStep liveConfig Reference.alloy onePerSecond) sharedStart
      (twoWindows.map .live ++ fetchingFirst) = some u ∧
    bothStep liveConfig Reference.alloy onePerSecond u (.historical (.task 0 .proceed)) = some v ∧
    v.disk.file path = u.disk.file path := by
  obtain ⟨-, -, -, -, -, files, sets⟩ := @names_never_collide liveConfig Reference.alloy
    onePerSecond _ _ _ liveStart_launched [(10, 14), (15, 19)]
  have starts : (live firstWrite).isSome := by
    rw [firstWrite, live_connecting]
    rfl
  have rotates : (live secondWrite).isSome := by
    rw [secondWrite, live_connecting]
    rfl
  have returns : (live twoWindows).isSome := by
    rw [twoWindows, List.append_assoc, live_connecting]
    rfl
  obtain ⟨s, run⟩ := Option.isSome_iff_exists.mp starts
  obtain ⟨t, run'⟩ := Option.isSome_iff_exists.mp rotates
  obtain ⟨w, whole⟩ := Option.isSome_iff_exists.mp returns
  have heard := run
  have heard' := run'
  rw [firstWrite, live_connecting] at heard
  rw [secondWrite, live_connecting] at heard'
  have creates : s.creates (.sink sinkOk) =
      some { eventType := "OrderCancelled", fileName := setFileName 1000 0 } :=
    seen (fun s => s.creates (.sink sinkOk)) heard rfl
  have creates' : t.creates (.sink sinkOk) =
      some { eventType := "OrderCancelled", fileName := setFileName 1000 1 } :=
    seen (fun s => s.creates (.sink sinkOk)) heard' rfl
  have set : s.sink.storage.fileSetId = 0 := seen (fun s => s.sink.storage.fileSetId) heard rfl
  have set' : t.sink.storage.fileSetId = 1 := seen (fun s => s.sink.storage.fileSetId) heard' rfl
  have rotations : s.rotations = 0 := seen State.rotations heard rfl
  have rotations' : t.rotations = 1 := seen State.rotations heard' rfl
  have rest : twoWindows.map BothInput.live =
      firstWrite.map .live ++ .live (.sink sinkOk) :: [.live (.next (some (cancelled 22 0))),
        .live .lock, .live (.sink sinkOk), .live (.sink sinkOk)] := rfl
  have rest' : twoWindows.map BothInput.live =
      secondWrite.map .live ++ [.live (.sink sinkOk)] := rfl
  have takes := @live_alone _ _ onePerSecond _ _ _ run sharedStart.historical
  have takes' := @live_alone _ _ onePerSecond _ _ _ run' sharedStart.historical
  obtain ⟨u, v, fetched, written, acts⟩ : ∃ u v,
      Machine.exec (bothStep liveConfig Reference.alloy onePerSecond)
        ⟨w, sharedStart.historical, w.sink.disk⟩ fetchingFirst = some u ∧
      bothStep liveConfig Reference.alloy onePerSecond u (.historical (.task 0 .proceed)) =
        some v ∧
      u.actor (.historical (.task 0 .proceed)) = some (.chunk (10, 14)) := ⟨_, _, rfl, rfl, rfl⟩
  have shared := (Machine.exec_append _).mpr
    ⟨_, @live_alone _ _ onePerSecond _ _ _ whole sharedStart.historical, fetched⟩
  have owns : (Owner.fileSet 0).Owns
      { eventType := "OrderCancelled", fileName := setFileName 1000 0 } := ⟨_, _, rfl⟩
  refine ⟨_, _, u, v, _, _, ⟨_, _, rest, takes⟩, ⟨_, _, rest', takes'⟩, creates, creates', ?_,
    shared, written, files _ _ _ _ _ shared written (.fileSet 0) _ owns (by simp [acts])⟩
  apply sets _ _ _ _ _ _ _ ⟨_, _, rest, takes⟩ ⟨_, _, rest', takes'⟩ ?_ ?_ ?_ creates creates'
  · rw [rotations, rotations']
    decide
  · rw [set]
    decide
  · rw [set']
    decide

end Example

end PolymarketIndexer
