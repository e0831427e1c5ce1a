import PolymarketIndexer.Backfill.WriteParquet
import PolymarketIndexer.Library.Machine

/-! # The backfill run

After its guards and client set-up the run plans the chunks and works on up to
`parallelism` of them at a time. What the tasks share is the rate limiter, the output
directory and the list of failures. An input is one step of one task or of the limiter's
refill, so a list of inputs is one interleaving. The answers of the provider and of the
file system are fixed for each chunk and for each event type of a chunk.
-/

namespace PolymarketIndexer.Backfill

open Unordered

structure BackfillConfig where
  startBlock : UInt64
  endBlock : UInt64
  chunkSizeByBlockNumber : UInt64
  parallelism : Nat
  rateLimitPerSecond : Nat
  rpcHttpUrl : String
  rpcHttpKey : Option String
  rpcHttpAuthHeader : String
  rpcHttpAuthScheme : String

/-- What the client set-up takes from the HTTP libraries. -/
structure HttpLibrary where
  parseUrl : String → Except String Unit
  headerName : String → Except String String
  headerValue : String → Except String String
  buildClient : List (String × String) → Except String Unit

def buildAuthHeaders (http : HttpLibrary) (key : Option String) (headerName headerScheme : String) :
    Except String (List (String × String)) :=
  match key with
  | none => .ok []
  | some key =>
      if key.isEmpty then .ok []
      else do
        let headerName ← http.headerName headerName
        let headerValue := if headerScheme.isEmpty then key else s!"{headerScheme} {key}"
        return [(headerName, ← http.headerValue headerValue)]

/-- How a run ends before it plans. -/
inductive Refusal where
  | failed (error : String)
  | panicked (message : String)
  deriving DecidableEq, Repr

def guards (config : BackfillConfig) : Except String Unit := do
  if config.startBlock > config.endBlock then
    throw "start-block must be <= end-block"
  if config.chunkSizeByBlockNumber = 0 then
    throw "chunk-size-by-block-number must be > 0"
  if config.parallelism = 0 then
    throw "parallelism must be > 0"
  if config.rateLimitPerSecond = 0 then
    throw "rate-limit-per-second must be > 0"

/-- The permits left, and what the refill read when it has not added yet. -/
structure RateLimiter where
  available : Nat
  reading : Option Nat
  deriving DecidableEq, Repr

/-- The bound that tokio sets on the permits of a semaphore: `usize::MAX >> 3`, in 64 bits. -/
def maxPermits : Nat := 2 ^ 61 - 1

/-- The semaphore of the limiter cannot be built above its bound: its constructor panics. -/
def RateLimiter.new (maxPerSecond : Nat) : Except Refusal RateLimiter :=
  if maxPermits < maxPerSecond then
    .error (.panicked s!"a semaphore may not have more than MAX_PERMITS permits ({maxPermits})")
  else .ok { available := maxPerSecond, reading := none }

/-- The client set-up, up to the watched addresses. -/
def connect (http : HttpLibrary) (alloy : Alloy) (config : BackfillConfig) :
    Except String (List Address) := do
  http.parseUrl config.rpcHttpUrl
  let headers ← buildAuthHeaders http config.rpcHttpKey config.rpcHttpAuthHeader
    config.rpcHttpAuthScheme
  http.buildClient headers
  contractAddresses alloy.addressFromStr

/-- What `run` does before it plans: its guards, the rate limiter, the client set-up. -/
def prepare (http : HttpLibrary) (alloy : Alloy) (config : BackfillConfig) :
    Except Refusal (List Address) := do
  (guards config).mapError .failed
  let _ ← RateLimiter.new config.rateLimitPerSecond
  (connect http alloy config).mapError .failed

/-- What the outside decides for a run. -/
structure Env where
  alloy : Alloy
  getLogs : Chunk → Except String (List Log)
  fileIo : Chunk → String → FileIo
  parallelism : Nat
  maxPerSecond : Nat

abbrev Todo := List ((_ : String) × Group)

/-- Where a chunk's task stands. -/
inductive Task where
  | acquiring
  | fetching
  | fetchFailed (failure : String)
  | writing (todo : Todo) (missingMetadataCount : UInt64)
  | writeFailed (failure : String) (todo : Todo) (missingMetadataCount : UInt64)
  | missingMetadata (failure : String)
  | finished

/-- What the tasks share. -/
structure Shared where
  limiter : RateLimiter
  output : Output
  failures : List String
  panicked : Bool

inductive Event where
  | acquire
  | fetched (order : Order ((_ : String) × Group))
  | proceed
  | push

section Messages

variable (chunk : Chunk)

def chunkName : String := s!"{chunk.1}-{chunk.2}"

def fetchFailure (error : String) : String := s!"fetch failed for {chunkName chunk}: {error}"

def writeFailure (eventType error : String) : String :=
  s!"write failed for {chunkName chunk}/{eventType}: {error}"

def metadataFailure (missingMetadataCount : UInt64) : String :=
  s!"metadata missing for {missingMetadataCount} decoded logs in {chunkName chunk}"

end Messages

section Machine

variable (env : Env)

/-- One step of a chunk's task. -/
def taskStep (chunk : Chunk) : Task → Shared → Event → Option (Task × Shared)
  | .acquiring, shared, .acquire =>
      if 0 < shared.limiter.available then
        some (.fetching, { shared with limiter.available := shared.limiter.available - 1 })
      else none
  | .fetching, shared, .fetched order =>
      match env.getLogs chunk with
      | .error error => some (.fetchFailed (fetchFailure chunk error), shared)
      | .ok logs =>
          let grouped := group env.alloy logs
          some (.writing (iterate order grouped.byEvent) grouped.missingMetadataCount, shared)
  | .writing (⟨eventType, columns, rows⟩ :: todo) missing, shared, .proceed =>
      match (writeParquetFile (env.fileIo chunk eventType) eventType columns (sortRows rows)
          chunk).run shared.output with
      | (.ok .done, output) => some (.writing todo missing, { shared with output := output })
      | (.ok .panicked, output) =>
          some (.finished, { shared with output := output, panicked := true })
      | (.error error, output) =>
          some (.writeFailed (writeFailure chunk eventType error) todo missing,
            { shared with output := output })
  | .writing [] missing, shared, .proceed =>
      if 0 < missing then some (.missingMetadata (metadataFailure chunk missing), shared)
      else some (.finished, shared)
  | .fetchFailed failure, shared, .push =>
      some (.finished, { shared with failures := shared.failures ++ [failure] })
  | .writeFailed failure todo missing, shared, .push =>
      some (.writing todo missing, { shared with failures := shared.failures ++ [failure] })
  | .missingMetadata failure, shared, .push =>
      some (.finished, { shared with failures := shared.failures ++ [failure] })
  | _, _, _ => none

structure State where
  waiting : List Chunk
  tasks : List (Chunk × Task)
  shared : Shared
  returned : Option (Except String Unit)

inductive Input where
  | launch
  | task (index : Nat) (event : Event)
  | readPermits
  | addPermits
  | complete

def Task.isFinished : Task → Bool
  | .finished => true
  | _ => false

def State.active (s : State) : Nat := (s.tasks.filter (fun task => !task.2.isFinished)).length

/-- The result of the run once every chunk is done. -/
def verdict (failures : List String) : Except String Unit :=
  if failures.isEmpty then .ok ()
  else .error (s!"backfill completed with {failures.length} failure(s): " ++
    String.intercalate " | " failures)

def step (s : State) (input : Input) : Option State :=
  if s.returned.isSome || s.shared.panicked then none
  else match input with
    | .launch =>
        match s.waiting with
        | [] => none
        | chunk :: waiting =>
            if s.active < env.parallelism then
              some { s with waiting := waiting, tasks := s.tasks ++ [(chunk, .acquiring)] }
            else none
    | .task index event =>
        match s.tasks[index]? with
        | none => none
        | some (chunk, task) =>
            (taskStep env chunk task s.shared event).map (fun (task, shared) =>
              { s with tasks := s.tasks.set index (chunk, task), shared := shared })
    | .readPermits =>
        if s.shared.limiter.reading.isNone then
          some { s with shared.limiter.reading := some s.shared.limiter.available }
        else none
    | .addPermits =>
        match s.shared.limiter.reading with
        | none => none
        | some available =>
            let added := if available < env.maxPerSecond then env.maxPerSecond - available else 0
            some { s with shared.limiter :=
              { available := s.shared.limiter.available + added, reading := none } }
    | .complete =>
        if s.waiting.isEmpty && s.tasks.all (fun task => task.2.isFinished) then
          some { s with returned := some (verdict s.shared.failures) }
        else none

/-- The run about to work on a plan. -/
def begin_ (plan : List Chunk) (disk : Disk) : State where
  waiting := plan
  tasks := []
  shared :=
    { limiter := { available := env.maxPerSecond, reading := none },
      output := { disk := disk, closed := [] }, failures := [], panicked := false }
  returned := none

/-- An interleaving takes the run over a plan to its return. -/
def Completes (plan : List Chunk) (disk : Disk) (schedule : List Input) (final : State)
    (result : Except String Unit) : Prop :=
  Machine.exec (step env) (begin_ env plan disk) schedule = some final ∧
    final.returned = some result

end Machine

/-- The provider, the file system and the libraries of a run, and how its build treats
overflow. -/
structure World where
  alloy : Alloy
  http : HttpLibrary
  getLogs : List Address → Chunk → Except String (List Log)
  fileIo : Chunk → String → FileIo
  overflow : Overflow

def World.env (world : World) (config : BackfillConfig) (addresses : List Address) : Env where
  alloy := world.alloy
  getLogs := world.getLogs addresses
  fileIo := world.fileIo
  parallelism := config.parallelism
  maxPerSecond := config.rateLimitPerSecond

/-- `run` works off the plan for the watched addresses and returns. -/
structure Works (world : World) (config : BackfillConfig) (disk : Disk) (addresses : List Address)
    (plan : List Chunk) (final : State) (result : Except String Unit) : Prop where
  prepared : prepare world.http world.alloy config = .ok addresses
  planned : ChunkRanges world.overflow config.startBlock config.endBlock
    config.chunkSizeByBlockNumber plan
  completed : ∃ schedule, Completes (world.env config addresses) plan disk schedule final result

section Prepare

variable {http : HttpLibrary} {alloy : Alloy} {config : BackfillConfig} {addresses : List Address}

theorem guards_ok_iff : guards config = .ok () ↔
    config.startBlock ≤ config.endBlock ∧ config.chunkSizeByBlockNumber ≠ 0 ∧
      config.parallelism ≠ 0 ∧ config.rateLimitPerSecond ≠ 0 := by
  unfold guards
  by_cases ordered : config.startBlock > config.endBlock
  · rw [if_pos ordered]
    exact ⟨fun failed => (by cases failed), fun passed => absurd passed.1 (UInt64.not_le.mpr ordered)⟩
  rw [if_neg ordered]
  by_cases sized : config.chunkSizeByBlockNumber = 0
  · rw [if_pos sized]
    exact ⟨fun failed => (by cases failed), fun passed => absurd sized passed.2.1⟩
  rw [if_neg sized]
  by_cases parallel : config.parallelism = 0
  · rw [if_pos parallel]
    exact ⟨fun failed => (by cases failed), fun passed => absurd parallel passed.2.2.1⟩
  rw [if_neg parallel]
  by_cases rated : config.rateLimitPerSecond = 0
  · rw [if_pos rated]
    exact ⟨fun failed => (by cases failed), fun passed => absurd rated passed.2.2.2⟩
  rw [if_neg rated]
  exact ⟨fun _ => ⟨UInt64.not_lt.mp ordered, sized, parallel, rated⟩, fun _ => rfl⟩

/-- A run gets to its plan when its guards hold, its limiter can be built and its client stands. -/
theorem prepare_ok_iff : prepare http alloy config = .ok addresses ↔
    guards config = .ok () ∧ config.rateLimitPerSecond ≤ maxPermits ∧
      connect http alloy config = .ok addresses := by
  unfold prepare RateLimiter.new
  cases guards config with
  | error error => exact ⟨fun failed => (by cases failed), fun passed => (by cases passed.1)⟩
  | ok _ =>
      by_cases bounded : maxPermits < config.rateLimitPerSecond
      · rw [if_pos bounded]
        exact ⟨fun failed => (by cases failed), fun passed => absurd passed.2.1 (Nat.not_le.mpr bounded)⟩
      rw [if_neg bounded]
      cases connected : connect http alloy config with
      | error error => exact ⟨fun failed => (by cases failed), fun passed => (by cases passed.2.2)⟩
      | ok found =>
          constructor
          · rintro ⟨⟩
            exact ⟨rfl, Nat.not_lt.mp bounded, rfl⟩
          · rintro ⟨-, -, ⟨⟩⟩
            rfl

theorem connect_ok (h : connect http alloy config = .ok addresses) :
    contractAddresses alloy.addressFromStr = .ok addresses := by
  unfold connect at h
  simp only [bind, Except.bind] at h
  split at h
  · cases h
  · split at h
    · cases h
    · split at h
      · cases h
      · exact h

/-- The guards that a prepared configuration passed. -/
theorem prepare_ok (h : prepare http alloy config = .ok addresses) :
    config.startBlock ≤ config.endBlock ∧ 1 ≤ config.chunkSizeByBlockNumber.toNat ∧
      0 < config.parallelism ∧ 0 < config.rateLimitPerSecond ∧
      contractAddresses alloy.addressFromStr = .ok addresses := by
  obtain ⟨passed, -, connected⟩ := prepare_ok_iff.mp h
  obtain ⟨ordered, sized, parallel, rated⟩ := guards_ok_iff.mp passed
  have positive : config.chunkSizeByBlockNumber.toNat ≠ 0 :=
    fun zero => sized (UInt64.toNat_inj.mp zero)
  exact ⟨ordered, by omega, by omega, by omega, connect_ok connected⟩

end Prepare

end PolymarketIndexer.Backfill
