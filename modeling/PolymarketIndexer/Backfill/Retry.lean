import PolymarketIndexer.Backfill.Chunking
import PolymarketIndexer.Backfill.Planning

/-! # Failed writes and repeated runs

`write_parquet_file` truncates the final path before the steps that may still fail, so a
failure there destroys what an earlier run had stored. A later run over the same range
repairs it: every path that a run writes to, however that run fails, is one that a run
without failures writes to.
-/

namespace PolymarketIndexer.Backfill

section FailedWrite

variable {io : FileIo} {E : String} {columns : List String} {rows : List EventRow} {chunk : Chunk}
  {out out' : Output} {error : String}

/-- A failed call has left the files alone, or has come past the creation of its file. -/
theorem writeParquetFile_failed
    (h : (writeParquetFile io E columns rows chunk).run out = (.error error, out')) :
    (((∃ e, io.createDirAll = .error e) ∨ ∃ e, io.createFile = .error e) ∧
        out'.disk.file = out.disk.file) ∨
      io.createDirAll = .ok () ∧ io.createFile = .ok () ∧
        out'.disk.file = (out.disk.create (chunkPath E chunk) io.flushed).file := by
  unfold writeParquetFile at h
  rcases Attempt.answer_bind_error h with ⟨refused, rfl⟩ | ⟨_, directory, h⟩
  · exact .inl ⟨.inl ⟨_, refused⟩, rfl⟩
  rw [Attempt.run_bind_ok (Attempt.run_modify _ _)] at h
  rcases Attempt.answer_bind_error h with ⟨refused, rfl⟩ | ⟨_, created, h⟩
  · exact .inl ⟨.inr ⟨_, refused⟩, rfl⟩
  rw [Attempt.run_bind_ok (Attempt.run_modify _ _)] at h
  -- nothing after the creation touches the disk before the last step has succeeded
  right
  refine ⟨directory, created, ?_⟩
  rcases Attempt.answer_bind_error h with ⟨-, rfl⟩ | ⟨_, -, h⟩
  · rfl
  cases built : fileArrays E columns rows with
  | none =>
      rw [built] at h
      cases h
  | some arrays =>
      rw [built] at h
      rcases Attempt.answer_bind_error h with ⟨-, rfl⟩ | ⟨_, -, h⟩
      · rfl
      rcases Attempt.answer_bind_error h with ⟨-, rfl⟩ | ⟨batch, -, h⟩
      · rfl
      rcases Attempt.answer_bind_error h with ⟨-, rfl⟩ | ⟨_, -, h⟩
      · rfl
      rcases Attempt.answer_bind_error h with ⟨-, rfl⟩ | ⟨_, -, h⟩
      · rfl
      cases h

/-- A failed call keeps its target exactly when it did not come to create the file, or the target
held just the bytes that the call leaves in the file it created. -/
theorem failed_write_keeps_iff
    (h : (writeParquetFile io E columns rows chunk).run out = (.error error, out')) :
    out'.disk.file (chunkPath E chunk) = out.disk.file (chunkPath E chunk) ↔
      (∃ e, io.createDirAll = .error e) ∨ (∃ e, io.createFile = .error e) ∨
        out.disk.file (chunkPath E chunk) = some (.unfinished io.flushed) := by
  rcases writeParquetFile_failed h with ⟨refused, same⟩ | ⟨directory, created, truncated⟩
  · rw [same]
    constructor
    · intro _
      rcases refused with directory | file
      · exact .inl directory
      · exact .inr (.inl file)
    · exact fun _ => rfl
  · have broken : out'.disk.file (chunkPath E chunk) = some (.unfinished io.flushed) := by
      rw [truncated]
      exact Disk.create_file _ _ _
    rw [broken, directory, created]
    constructor
    · exact fun same => .inr (.inr same.symm)
    · rintro (⟨e, refused⟩ | ⟨e, refused⟩ | same)
      · cases refused
      · cases refused
      · exact same.symm

end FailedWrite

section Damage

/-- A file that an earlier run has finished. -/
def oldTable : Table := fileTable "OrderCancelled" ["order_hash"] [⟨10, "0x02", 0, ["0x07"]⟩]

def cancelledPath : Path := chunkPath "OrderCancelled" (10, 14)

def stored : Output where
  disk := Disk.empty.put cancelledPath (.finished oldTable)
  closed := []

def nothingStored : Output where
  disk := Disk.empty
  closed := []

def writeCancelled (io : FileIo) : Attempt Output Returned :=
  writeParquetFile io "OrderCancelled" ["order_hash"] [⟨10, "0x02", 0, ["0x07"]⟩] (10, 14)

theorem failed_write_keeps_noFile :
    ((writeCancelled { fileOk with createFile := .error "permission denied" }).run
      stored).2.disk.file cancelledPath = some (.finished oldTable) := by
  have failed : (writeCancelled { fileOk with createFile := .error "permission denied" }).run
      stored = (.error "permission denied", _) := rfl
  exact (failed_write_keeps_iff failed).mpr (.inr (.inl ⟨_, rfl⟩))

/-- The disk is full once the four bytes that open every Parquet file are written. -/
def diskFull : FileIo :=
  { fileOk with
    write := .error "disk full"
    flushed := [80, 65, 82, 49] }

/-- What a run that was cut off left under the name. -/
def cutOff : Output where
  disk := Disk.empty.put cancelledPath (.unfinished [80, 65, 82, 49, 21, 4])
  closed := []

/-- The disk fills up during the write: a finished file is lost, the bytes of an unfinished one are
too, and where there was none an unreadable one appears. -/
theorem failed_write_damages :
    stored.disk.file cancelledPath = some (.finished oldTable) ∧
      ((writeCancelled diskFull).run stored).1 = .error "disk full" ∧
      ((writeCancelled diskFull).run stored).2.disk.file cancelledPath =
        some (.unfinished [80, 65, 82, 49]) ∧
      ((writeCancelled diskFull).run cutOff).2.disk.file cancelledPath ≠
        cutOff.disk.file cancelledPath ∧
      nothingStored.disk.file cancelledPath = none ∧
      ((writeCancelled diskFull).run nothingStored).2.disk.file cancelledPath =
        some (.unfinished [80, 65, 82, 49]) :=
  ⟨rfl, rfl, rfl, by decide, rfl, rfl⟩

end Damage

section Repeated

/-- A run shares the range and the chunk size with a given one, and each log it is sent for a chunk
decodes like one of the chunk's logs. Metadata, failures and all else are its own. -/
structure Repeats (world : World) (config : BackfillConfig) (logs : Chunk → List Log)
    (world' : World) (config' : BackfillConfig) (addresses' : List Address)
    (plan : List Chunk) : Prop where
  startBlock : config'.startBlock = config.startBlock
  endBlock : config'.endBlock = config.endBlock
  chunkSize : config'.chunkSizeByBlockNumber = config.chunkSizeByBlockNumber
  planned : ChunkRanges world'.overflow config'.startBlock config'.endBlock
    config'.chunkSizeByBlockNumber plan
  answers : ∀ chunk ∈ plan, ∀ answer, world'.getLogs addresses' chunk = .ok answer →
    ∀ log ∈ answer, ∃ original ∈ logs chunk,
      decodeLog world'.alloy log = decodeLog world.alloy original

/-- What earlier runs over the range can make of a disk, each of them stopped anywhere. -/
inductive LeftBehind (world : World) (config : BackfillConfig) (logs : Chunk → List Log)
    (bare : Disk) : Disk → Prop where
  | untouched : LeftBehind world config logs bare bare
  | run {disk : Disk} {world' : World} {config' : BackfillConfig} {addresses' : List Address}
      {plan : List Chunk} {schedule : List Input} {s : State} :
      LeftBehind world config logs bare disk →
      Repeats world config logs world' config' addresses' plan →
      Machine.exec (step (world'.env config' addresses'))
        (begin_ (world'.env config' addresses') plan disk) schedule = some s →
      LeftBehind world config logs bare s.shared.output.disk

/-- A run of `world` on the disk returns, without an error, with the backfill files that it would
leave in an empty directory; run again, it changes no file. -/
structure Converges (world : World) (config : BackfillConfig) (addresses : List Address)
    (disk : Disk) : Prop where
  prepared : prepare world.http world.alloy config = .ok addresses
  returns : ∃ plan, ChunkRanges world.overflow config.startBlock config.endBlock
      config.chunkSizeByBlockNumber plan ∧
    ∀ schedule s, Machine.exec (step (world.env config addresses))
        (begin_ (world.env config addresses) plan disk) schedule = some s →
      ∃ more final, Completes (world.env config addresses) plan disk (schedule ++ more) final
        (.ok ())
  ok : ∀ plan final result, Works world config disk addresses plan final result → result = .ok ()
  files : ∀ plan final result, Works world config disk addresses plan final result →
    ∀ plan' fresh result', Works world config Disk.empty addresses plan' fresh result' →
      ∀ E chunk, final.shared.output.disk.file (chunkPath E chunk) =
        fresh.shared.output.disk.file (chunkPath E chunk)
  twice : ∀ plan final result, Works world config disk addresses plan final result →
    ∀ plan' again result',
      Works world config final.shared.output.disk addresses plan' again result' →
      again.shared.output.disk.file = final.shared.output.disk.file

variable {env : Env} {plan : List Chunk} {logs : Chunk → List Log}

theorem clean_job (clean : ∀ chunk ∈ plan, CleanChunk env chunk (logs chunk)) {job : Job}
    (member : job ∈ plan.flatMap (chunkJobs env)) : job.outcome = .complete := by
  obtain ⟨chunk, planned, inChunk⟩ := List.mem_flatMap.mp member
  obtain ⟨_, E, g, -, -, rfl⟩ := mem_chunkJobs.mp inChunk
  exact (clean chunk planned).writes E

/-- The event types of a clean chunk are those of its logs that decode. -/
theorem clean_group {chunk : Chunk} (clean : CleanChunk env chunk (logs chunk)) {log : Log}
    (inLogs : log ∈ logs chunk) {decoded : DecodedEvent}
    (isDecoded : decodeLog env.alloy log = .ok (some decoded)) :
    ∃ g, (group env.alloy (logs chunk)).byEvent.lookup decoded.eventType = some g := by
  obtain ⟨row, isRow⟩ := eventRow_of_complete isDecoded (clean.metadata log inLogs)
  rcases @group_lookup env.alloy (logs chunk) decoded.eventType with ⟨-, empty⟩ | ⟨_, -, found, -⟩
  · have inRows : row ∈ eventRows env.alloy decoded.eventType (logs chunk) :=
      List.mem_filterMap.mpr ⟨log, inLogs, isRow⟩
    rw [empty] at inRows
    cases inRows
  · exact ⟨_, found⟩

/-- A path that a repetition writes to is one that the clean run writes to. -/
theorem repeated_path {world world' : World} {config config' : BackfillConfig}
    {addresses addresses' : List Address}
    (clean : ∀ chunk ∈ plan, CleanChunk (world.env config addresses) chunk (logs chunk))
    (repeats : Repeats world config logs world' config' addresses' plan) {job : Job}
    (member : job ∈ plan.flatMap (chunkJobs (world'.env config' addresses'))) :
    ∃ own ∈ plan.flatMap (chunkJobs (world.env config addresses)), own.path = job.path := by
  obtain ⟨chunk, planned, inChunk⟩ := List.mem_flatMap.mp member
  obtain ⟨answer, E, g, fetched, found, rfl⟩ := mem_chunkJobs.mp inChunk
  obtain ⟨rows, nonempty, -⟩ := @group_entry _ answer E g.1 g.2 found
  obtain ⟨row, inRows⟩ := List.exists_mem_of_ne_nil _ nonempty
  rw [rows] at inRows
  obtain ⟨log, inAnswer, isRow⟩ := List.mem_filterMap.mp inRows
  obtain ⟨columns, wasRead⟩ := eventRow_eq_some.mp isRow
  obtain ⟨decoded, _, _, _, isDecoded, -, -, -, rfl, -, -⟩ := read_eq_row.mp wasRead
  obtain ⟨original, inLogs, same⟩ := repeats.answers chunk planned answer fetched log inAnswer
  have cleanChunk := clean chunk planned
  obtain ⟨own, ownFound⟩ := clean_group cleanChunk inLogs (same.symm.trans isDecoded)
  refine ⟨_, List.mem_flatMap.mpr ⟨chunk, planned, mem_chunkJobs.mpr
    ⟨logs chunk, decoded.eventType, own, cleanChunk.fetched, ownFound, rfl⟩⟩, rfl⟩

/-- Off the clean run's paths earlier runs have changed nothing. -/
theorem leftBehind_elsewhere {world : World} {config : BackfillConfig} {addresses : List Address}
    (sized : 1 ≤ config.chunkSizeByBlockNumber.toNat)
    (planned : ChunkRanges world.overflow config.startBlock config.endBlock
      config.chunkSizeByBlockNumber plan)
    (clean : ∀ chunk ∈ plan, CleanChunk (world.env config addresses) chunk (logs chunk))
    {bare disk : Disk} (left : LeftBehind world config logs bare disk) {p : Path}
    (off : ∀ job ∈ plan.flatMap (chunkJobs (world.env config addresses)), job.path ≠ p) :
    disk.file p = bare.file p := by
  induction left with
  | untouched => rfl
  | @run disk world' config' addresses' plan' schedule s _ repeats ran ih =>
      obtain rfl : plan' = plan := by
        have planned' := repeats.planned
        rw [repeats.startBlock, repeats.endBlock, repeats.chunkSize] at planned'
        exact chunkRanges_unique sized planned' planned
      obtain ⟨jobs, perm, file, -⟩ := (run_balanced ran).jobs
      rw [file, jobs_elsewhere, ih]
      intro job member path
      obtain ⟨own, inOwn, same⟩ := repeated_path clean repeats
        (perm.mem_iff.mp (List.mem_append_left _ member))
      exact off own inOwn (same.trans path)

/-- Two clean runs agree on a path when their disks did, or when it is one they write to. -/
theorem clean_same (clean : ∀ chunk ∈ plan, CleanChunk env chunk (logs chunk))
    {disk disk' : Disk} {schedule schedule' : List Input} {final final' : State}
    {result result' : Except String Unit} (h : Completes env plan disk schedule final result)
    (h' : Completes env plan disk' schedule' final' result') {p : Path}
    (off : (∀ job ∈ plan.flatMap (chunkJobs env), job.path ≠ p) → disk.file p = disk'.file p) :
    final.shared.output.disk.file p = final'.shared.output.disk.file p := by
  rw [completed_files h, completed_files h']
  by_cases written : ∃ job ∈ plan.flatMap (chunkJobs env), job.path = p
  · obtain ⟨job, member, rfl⟩ := written
    have finished : ∀ files : Files,
        (plan.flatMap (chunkJobs env)).foldl Job.apply files job.path =
          some (.finished job.table) :=
      complete_on_disk member (clean_job clean member)
        (fun _ inJobs path => job_of_path inJobs member path)
    rw [finished, finished]
  · have elsewhere : ∀ job ∈ plan.flatMap (chunkJobs env), job.path ≠ p :=
      fun job member path => written ⟨job, member, path⟩
    rw [jobs_elsewhere elsewhere, jobs_elsewhere elsewhere, off elsewhere]

end Repeated

/-- Whatever earlier runs over a range have left in a directory without backfill files, a run
without failures restores it, exactly when its rate limiter can be built and its range has a
plan. -/
theorem retry_converges_iff {world : World} {config : BackfillConfig} {addresses : List Address}
    {logs : Chunk → List Log} {bare disk : Disk}
    (passed : guards config = .ok ())
    (connected : connect world.http world.alloy config = .ok addresses)
    (clean : ∀ plan, ChunkRanges world.overflow config.startBlock config.endBlock
        config.chunkSizeByBlockNumber plan →
      ∀ chunk ∈ plan, CleanChunk (world.env config addresses) chunk (logs chunk))
    (noBackfill : ∀ E chunk, bare.file (chunkPath E chunk) = none)
    (left : LeftBehind world config logs bare disk) :
    Converges world config addresses disk ↔
      config.rateLimitPerSecond ≤ maxPermits ∧
        Plannable world.overflow config.startBlock config.endBlock
          config.chunkSizeByBlockNumber := by
  constructor
  · rintro ⟨prepared, ⟨plan, planned, -⟩, -, -, -⟩
    obtain ⟨ordered, sized, -⟩ := prepare_ok prepared
    exact ⟨(prepare_ok_iff.mp prepared).2.1,
      (chunkRanges_exists_iff sized ordered).mp ⟨plan, planned⟩⟩
  · rintro ⟨bounded, plannable⟩
    have prepared := prepare_ok_iff.mpr ⟨passed, bounded, connected⟩
    obtain ⟨ordered, sized, parallel, rate, -⟩ := prepare_ok prepared
    obtain ⟨plan, planned⟩ := (chunkRanges_exists_iff sized ordered).mpr plannable
    have unique : ∀ disk' plan' final result,
        Works world config disk' addresses plan' final result →
        ∃ schedule, Completes (world.env config addresses) plan disk' schedule final result := by
      intro disk' plan' final result works
      obtain rfl := chunkRanges_unique sized works.planned planned
      exact works.completed
    refine ⟨prepared, ⟨plan, planned, ?_⟩, ?_, ?_, ?_⟩
    · intro schedule s run
      obtain ⟨more, final, result, completes⟩ := completes_from parallel rate run
      obtain rfl := completed_clean completes (clean plan planned)
      exact ⟨more, final, completes⟩
    · intro plan' final result works
      obtain ⟨schedule, completes⟩ := unique _ _ _ _ works
      exact completed_clean completes (clean plan planned)
    · intro plan' final result works _ fresh _ works' E chunk
      obtain ⟨_, completes⟩ := unique _ _ _ _ works
      obtain ⟨_, completes'⟩ := unique _ _ _ _ works'
      apply clean_same (clean plan planned) completes completes'
      intro off
      rw [leftBehind_elsewhere sized planned (clean plan planned) left off, noBackfill]
      rfl
    · intro plan' final result works _ again _ works'
      obtain ⟨_, completes⟩ := unique _ _ _ _ works
      obtain ⟨_, completes'⟩ := unique _ _ _ _ works'
      funext p
      apply clean_same (clean plan planned) completes' completes
      intro off
      rw [completed_files completes, jobs_elsewhere off]

section Repair

/-- The half failing world after its disk was repaired, in a build of either kind. -/
def repaired (mode : Overflow) : World :=
  { halfFailing with
    fileIo := fun _ _ => fileOk
    overflow := mode }

theorem repaired_clean (mode : Overflow) (config : BackfillConfig) (chunk : Chunk) :
    CleanChunk ((repaired mode).env config watched) chunk [cancelledLog chunk.1 0 [⟨7⟩]] := by
  refine ⟨rfl, fun _ => rfl, ?_⟩
  intro log member
  obtain rfl := List.mem_singleton.mp member
  exact Bool.and_false _

/-- Half of a range was written by a debug build; a release build then writes all of it. -/
theorem retry_converges_halfFailing : ∃ final result,
    Works halfFailing twoChunks Disk.empty watched [(10, 14), (15, 19)] final result ∧
      (Converges (repaired .wrapping) twoChunks watched final.shared.output.disk ↔
        10 ≤ maxPermits ∧ Plannable .wrapping 10 19 5) := by
  have planned : ChunkRanges .checked 10 19 5 [(10, 14), (15, 19)] := chunkRanges_of_run 3 rfl
  obtain ⟨final, result, works⟩ := @works_exists halfFailing _ _ _ twoChunks_prepared planned
    Disk.empty
  obtain ⟨schedule, completes⟩ := works.completed
  refine ⟨final, result, works, ?_⟩
  have repeats : Repeats (repaired .wrapping) twoChunks
      (fun chunk => [cancelledLog chunk.1 0 [⟨7⟩]]) halfFailing twoChunks watched
      [(10, 14), (15, 19)] :=
    ⟨rfl, rfl, rfl, planned, fun chunk _ answer answered log member =>
      ⟨log, by rw [Except.ok.inj answered]; exact member, rfl⟩⟩
  obtain ⟨passed, -, connected⟩ := prepare_ok_iff.mp twoChunks_prepared
  exact @retry_converges_iff (repaired .wrapping) _ _ _ _ _ passed connected
    (fun _ _ chunk _ => repaired_clean .wrapping twoChunks chunk)
    (fun _ _ => rfl) (.run .untouched repeats completes.1)

/-- The first sum of the plan overflows. -/
def hugeChunks : BackfillConfig :=
  { twoChunks with
    startBlock := 100
    endBlock := 200
    chunkSizeByBlockNumber := 18446744073709551615 }

/-- In wrapping arithmetic the plan comes back to its first chunk. -/
def circling : BackfillConfig :=
  { twoChunks with
    startBlock := 1
    endBlock := 18446744073709551615
    chunkSizeByBlockNumber := 9223372036854775808 }

/-- One permit more than the semaphore of the limiter takes. -/
def tooFast : BackfillConfig := { twoChunks with rateLimitPerSecond := 2 ^ 61 }

/-- A run that passes its guards and meets no failure need not return: a debug build can panic and
a release build can go round forever while it plans, and either panics over a limiter that it
cannot build. -/
theorem clean_run_diverges :
    prepare httpOk Reference.alloy hugeChunks = .ok watched ∧
      ¬Converges (repaired .checked) hugeChunks watched Disk.empty ∧
      prepare httpOk Reference.alloy circling = .ok watched ∧
      ¬Converges (repaired .wrapping) circling watched Disk.empty ∧
      guards tooFast = .ok () ∧ connect httpOk Reference.alloy tooFast = .ok watched ∧
      ¬Converges (repaired .checked) tooFast watched Disk.empty := by
  refine ⟨prepared_range (by decide) (by decide), ?_, prepared_range (by decide) (by decide), ?_,
    rfl, watched_addresses, ?_⟩
  · rintro ⟨-, ⟨plan, planned, -⟩, -, -, -⟩
    have fits : lastSum 100 200 18446744073709551615 < 2 ^ 64 :=
      (chunkRanges_exists_iff (by decide) (by decide)).mp ⟨plan, planned⟩
    exact absurd fits (by decide)
  · rintro ⟨-, ⟨plan, planned, -⟩, -, -, -⟩
    obtain ⟨k, reached⟩ : ∃ k : Nat, 18446744073709551615 ≤
        wrappedLast 1 ((k + 1) * 9223372036854775808) :=
      (chunkRanges_exists_iff (by decide) (by decide)).mp ⟨plan, planned⟩
    unfold wrappedLast at reached
    omega
  · rintro ⟨prepared, -, -, -, -⟩
    have bounded : 2 ^ 61 ≤ maxPermits := (prepare_ok_iff.mp prepared).2.1
    exact absurd bounded (by decide)

end Repair

end PolymarketIndexer.Backfill
