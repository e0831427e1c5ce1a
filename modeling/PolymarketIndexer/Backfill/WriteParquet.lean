import PolymarketIndexer.Backfill.Chunk

/-! # Writing one file of a chunk

`write_parquet_file` creates the file, builds the columns from the rows by index and
closes the writer. Each fallible step has an answer. What the call leaves on disk
depends only on the first step that fails.
-/

namespace PolymarketIndexer.Backfill

def rowLe (a b : EventRow) : Prop :=
  a.blockNumber < b.blockNumber ∨ (a.blockNumber = b.blockNumber ∧ a.logIndex ≤ b.logIndex)

instance : DecidableRel rowLe := fun _ _ => inferInstanceAs (Decidable (_ ∨ _))

/-- The stable sort by block number, then log index. -/
def sortRows (rows : List EventRow) : List EventRow := rows.insertionSort rowLe

/-- What the outside answers to one `write_parquet_file`; `flushed` is what a file that the call
creates and does not close then holds. -/
structure FileIo where
  createDirAll : Except String Unit
  createFile : Except String Unit
  tryNewWriter : Except String Unit
  tryNewBatch : Except String Unit
  write : Except String Unit
  close : Except String Unit
  flushed : List UInt8 := []

structure ClosedFile where
  path : Path
  table : Table
  deriving DecidableEq, Repr

/-- The disk, with the files closed successfully so far. -/
structure Output where
  disk : Disk
  closed : List ClosedFile

/-- How a call that raises no error ends. -/
inductive Returned where
  | done
  | panicked
  deriving DecidableEq, Repr

def parquetFields (columns : List String) : List Field :=
  [{ name := "event_type", dataType := .utf8, nullable := false },
    { name := "block_number", dataType := .uint64, nullable := false },
    { name := "transaction_hash", dataType := .utf8, nullable := false },
    { name := "log_index", dataType := .uint64, nullable := false }] ++
    columns.map (fun column => { name := column, dataType := .utf8, nullable := false })

/-- The value columns, read by index: a row that is too short panics. -/
def valueArrays (columns : List String) (rows : List EventRow) : Option Arrays :=
  (List.range columns.length).mapM (fun colIndex =>
    stringArray <$> rows.mapM (fun row => row.values[colIndex]?))

def fileArrays (eventType : String) (columns : List String) (rows : List EventRow) :
    Option Arrays := do
  let values ← valueArrays columns rows
  return [stringArray (rows.map (fun _ => eventType)), uint64Array (rows.map EventRow.blockNumber),
    stringArray (rows.map EventRow.txHash), uint64Array (rows.map EventRow.logIndex)] ++ values

def chunkPath (eventType : String) (chunk : Chunk) : Path :=
  { eventType := eventType, fileName := chunkFileName chunk.1 chunk.2 }

def writeParquetFile (io : FileIo) (eventType : String) (columns : List String)
    (rows : List EventRow) (chunk : Chunk) : Attempt Output Returned := do
  let schema : Schema := { fields := parquetFields columns }
  let path := chunkPath eventType chunk
  .answer io.createDirAll
  .modify (fun out => { out with disk := out.disk.createDirAll eventType })
  .answer io.createFile
  .modify (fun out => { out with disk := out.disk.create path io.flushed })
  .answer io.tryNewWriter
  match fileArrays eventType columns rows with
  | none => return .panicked
  | some arrays =>
      .answer io.tryNewBatch
      let batch ← .answer (RecordBatch.tryNew schema arrays)
      .answer io.write
      .answer io.close
      let table : Table := { schema := schema, rows := batch.rows }
      .modify (fun out => { out with
        disk := out.disk.put path (.finished table)
        closed := out.closed ++ [{ path := path, table := table }] })
      return .done

/-- What a call leaves behind. -/
inductive WriteOutcome where
  | untouched (error : String)
  | broken (error : String) (flushed : List UInt8)
  | complete
  deriving DecidableEq, Repr

def WriteOutcome.error? : WriteOutcome → Option String
  | .untouched error => some error
  | .broken error _ => some error
  | .complete => none

/-- The first failing step decides. -/
def FileIo.outcome (io : FileIo) : WriteOutcome :=
  match io.createDirAll, io.createFile, io.tryNewWriter, io.tryNewBatch, io.write, io.close with
  | .error e, _, _, _, _, _ => .untouched e
  | .ok _, .error e, _, _, _, _ => .untouched e
  | .ok _, .ok _, .error e, _, _, _ => .broken e io.flushed
  | .ok _, .ok _, .ok _, .error e, _, _ => .broken e io.flushed
  | .ok _, .ok _, .ok _, .ok _, .error e, _ => .broken e io.flushed
  | .ok _, .ok _, .ok _, .ok _, .ok _, .error e => .broken e io.flushed
  | .ok _, .ok _, .ok _, .ok _, .ok _, .ok _ => .complete

/-- One file a chunk has to write, with the outcome of writing it. -/
structure Job where
  path : Path
  table : Table
  outcome : WriteOutcome
  deriving DecidableEq, Repr

abbrev Files := Path → Option FileContent

def Job.apply (files : Files) (job : Job) : Files :=
  match job.outcome with
  | .untouched _ => files
  | .broken _ flushed => fun p => if p = job.path then some (.unfinished flushed) else files p
  | .complete => fun p => if p = job.path then some (.finished job.table) else files p

def Job.closed? (job : Job) : Option ClosedFile :=
  match job.outcome with
  | .complete => some { path := job.path, table := job.table }
  | _ => none

def fileTable (eventType : String) (columns : List String) (rows : List EventRow) : Table where
  schema := { fields := parquetFields columns }
  rows := rows.map (EventRow.cells eventType)

section Arrays

variable {columns : List String} {rows : List EventRow}

theorem mapM_some {α β : Type} {f : α → Option β} {g : α → β} {xs : List α}
    (h : ∀ x ∈ xs, f x = some (g x)) : xs.mapM f = some (xs.map g) := by
  induction xs with
  | nil => rfl
  | cons x xs ih =>
      rw [List.mapM_cons, h x List.mem_cons_self,
        ih (fun y member => h y (List.mem_cons_of_mem _ member))]
      rfl

theorem valueArrays_some (fits : ∀ row ∈ rows, row.values.length = columns.length) :
    valueArrays columns rows = some ((List.range columns.length).map (fun i =>
      rows.map (fun row => .utf8 (row.values.getD i "")))) := by
  apply mapM_some
  intro i inside
  have reads : rows.mapM (fun row => row.values[i]?) =
      some (rows.map (fun row => row.values.getD i "")) := by
    apply mapM_some
    intro row member
    have length := fits row member
    have inside := List.mem_range.mp inside
    rw [List.getD_eq_getElem?_getD, List.getElem?_eq_getElem (by omega)]
    rfl
  rw [reads]
  simp [stringArray, Function.comp_def]

theorem getD_range (values : List String) :
    (List.range values.length).map (fun i => Cell.utf8 (values.getD i "")) = values.map .utf8 := by
  apply List.ext_getElem
  · simp
  · intro i inside _
    have : i < values.length := by simpa using inside
    simp [List.getD_eq_getElem?_getD, List.getElem?_eq_getElem this]

/-- Rows that fit the columns make a batch holding just their cells. -/
theorem fileArrays_batch (eventType : String)
    (fits : ∀ row ∈ rows, row.values.length = columns.length) :
    ∃ arrays batch, fileArrays eventType columns rows = some arrays ∧
      RecordBatch.tryNew { fields := parquetFields columns } arrays = .ok batch ∧
      ({ schema := { fields := parquetFields columns }, rows := batch.rows } : Table) =
        fileTable eventType columns rows := by
  have built := RecordBatch.tryNew_columns (ρ := EventRow)
    (⟨"event_type", .utf8, false⟩, fun _ => .utf8 eventType)
    ((⟨"block_number", .uint64, false⟩, fun row => .uint64 row.blockNumber) ::
      (⟨"transaction_hash", .utf8, false⟩, fun row => .utf8 row.txHash) ::
      (⟨"log_index", .uint64, false⟩, fun row => .uint64 row.logIndex) ::
      (columns.zip (List.range columns.length)).map (fun column =>
        (⟨column.1, .utf8, false⟩, fun row => .utf8 (row.values.getD column.2 ""))))
    rows (by
      intro c member r
      simp only [List.mem_cons, List.mem_map] at member
      rcases member with rfl | rfl | rfl | rfl | ⟨column, -, rfl⟩ <;> rfl)
  obtain ⟨batch, made, rows'⟩ := built
  have byName : ∀ {β : Type} (f : String → β),
      (columns.zip (List.range columns.length)).map (fun column => f column.1) = columns.map f := by
    intro β f
    have names : (columns.zip (List.range columns.length)).map Prod.fst = columns :=
      List.map_fst_zip (by simp)
    conv => rhs; rw [← names, List.map_map]
    rfl
  have byIndex : ∀ {β : Type} (f : Nat → β),
      (columns.zip (List.range columns.length)).map (fun column => f column.2) =
        (List.range columns.length).map f := by
    intro β f
    have indices : (columns.zip (List.range columns.length)).map Prod.snd =
        List.range columns.length := List.map_snd_zip (by simp)
    conv => rhs; rw [← indices, List.map_map]
    rfl
  have fields := byName (fun name => ({ name := name, dataType := .utf8, nullable := false } : Field))
  have arrays := byIndex (fun i => rows.map (fun row => Cell.utf8 (row.values.getD i "")))
  simp only [List.map_cons, List.map_map, Function.comp_def, fields, arrays] at made rows'
  refine ⟨_, batch, by rw [fileArrays, valueArrays_some fits]; rfl, ?_, ?_⟩
  · rw [← made]
    simp only [parquetFields, stringArray, uint64Array, List.map_map, Function.comp_def,
      List.cons_append, List.nil_append]
  · rw [fileTable, rows']
    congr 1
    apply List.map_congr_left
    intro row member
    rw [EventRow.cells, ← getD_range, fits row member]
    have cells := byIndex (fun i => Cell.utf8 (row.values.getD i ""))
    rw [← cells]

end Arrays

/-- The whole effect of a call whose rows fit its columns. -/
theorem writeParquetFile_run {io : FileIo} {eventType : String} {columns : List String}
    {rows : List EventRow} {chunk : Chunk} {out : Output}
    (fits : ∀ row ∈ rows, row.values.length = columns.length) {job : Job}
    (described : job = { path := chunkPath eventType chunk, outcome := io.outcome,
                         table := fileTable eventType columns rows }) :
    ∃ out', (writeParquetFile io eventType columns rows chunk).run out =
        ((match job.outcome.error? with
          | some e => .error e
          | none => .ok .done), out') ∧
      out'.disk.file = job.apply out.disk.file ∧
      out'.closed = out.closed ++ job.closed?.toList := by
  subst described
  obtain ⟨arrays, batch, built, made, table⟩ := fileArrays_batch eventType fits
  unfold writeParquetFile FileIo.outcome
  -- each failure stops the file where it then stands
  rcases directory : io.createDirAll with e | _
  · rw [Attempt.run_bind_error (Attempt.run_answer _ out)]
    exact ⟨out, rfl, rfl, (List.append_nil _).symm⟩
  rw [Attempt.run_bind_ok (Attempt.run_answer _ out),
    Attempt.run_bind_ok (Attempt.run_modify _ out)]
  rcases created : io.createFile with e | _
  · rw [Attempt.run_bind_error (Attempt.run_answer _ _)]
    exact ⟨_, rfl, rfl, (List.append_nil _).symm⟩
  rw [Attempt.run_bind_ok (Attempt.run_answer _ _), Attempt.run_bind_ok (Attempt.run_modify _ _)]
  rcases opened : io.tryNewWriter with e | _
  · rw [Attempt.run_bind_error (Attempt.run_answer _ _)]
    exact ⟨_, rfl, rfl, (List.append_nil _).symm⟩
  rw [Attempt.run_bind_ok (Attempt.run_answer _ _), built]
  simp only
  rcases batched : io.tryNewBatch with e | _
  · rw [Attempt.run_bind_error (Attempt.run_answer _ _)]
    exact ⟨_, rfl, rfl, (List.append_nil _).symm⟩
  rw [Attempt.run_bind_ok (Attempt.run_answer _ _), made,
    Attempt.run_bind_ok (Attempt.run_answer _ _)]
  rcases written : io.write with e | _
  · rw [Attempt.run_bind_error (Attempt.run_answer _ _)]
    exact ⟨_, rfl, rfl, (List.append_nil _).symm⟩
  rw [Attempt.run_bind_ok (Attempt.run_answer _ _)]
  rcases closed : io.close with e | _
  · rw [Attempt.run_bind_error (Attempt.run_answer _ _)]
    exact ⟨_, rfl, rfl, (List.append_nil _).symm⟩
  rw [Attempt.run_bind_ok (Attempt.run_answer _ _), Attempt.run_bind_ok (Attempt.run_modify _ _)]
  refine ⟨_, rfl, ?_, ?_⟩
  · rw [table]
    funext p
    simp only [Job.apply, Disk.create, Disk.put, Disk.createDirAll]
    split <;> rfl
  · rw [table]
    rfl

/-- Whatever its outcome, a call leaves every file but its own as it was. -/
theorem writeParquetFile_elsewhere (io : FileIo) {eventType : String} (columns : List String)
    (rows : List EventRow) {chunk : Chunk} (out : Output) {path : Path}
    (other : path ≠ chunkPath eventType chunk) :
    ((writeParquetFile io eventType columns rows chunk).run out).2.disk.file path =
      out.disk.file path := by
  have keeps : Attempt.Keeps (fun o : Output => o.disk.file path = out.disk.file path)
      (writeParquetFile io eventType columns rows chunk) := by
    have creates : ∀ (o : Output) content, o.disk.file path = out.disk.file path →
        (o.disk.put (chunkPath eventType chunk) content).file path = out.disk.file path :=
      fun o content before => (Disk.put_file_other _ content other).trans before
    refine .bind (Attempt.keeps_answer _) (fun _ => ?_)
    refine .bind (Attempt.keeps_modify (fun _ before => before)) (fun _ => ?_)
    refine .bind (Attempt.keeps_answer _) (fun _ => ?_)
    refine .bind (Attempt.keeps_modify (fun o before => creates o _ before)) (fun _ => ?_)
    refine .bind (Attempt.keeps_answer _) (fun _ => ?_)
    split
    · exact Attempt.keeps_pure _
    · refine .bind (Attempt.keeps_answer _) (fun _ => ?_)
      refine .bind (Attempt.keeps_answer _) (fun batch => ?_)
      refine .bind (Attempt.keeps_answer _) (fun _ => ?_)
      refine .bind (Attempt.keeps_answer _) (fun _ => ?_)
      refine .bind (Attempt.keeps_modify (fun o before => creates o _ before)) (fun _ => ?_)
      exact Attempt.keeps_pure _
  exact keeps out rfl

end PolymarketIndexer.Backfill
