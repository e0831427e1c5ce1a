import PolymarketIndexer.Frontfill.Ingest
import PolymarketIndexer.Backfill.Chunking
import PolymarketIndexer.Library.Reader

/-! # Reconnecting

The provider keeps a chain that grows. A subscription from a block delivers the matching logs
from the start of the chain, one from the head those produced after it. Every
reconnect subscribes with the filter of the first connection, so a stream is a new
pass over the chain that opens at the same block again or at the new head.
-/

namespace PolymarketIndexer.Frontfill

open Backfill (ChainLog)

def Filter.Delivers (filter : Filter) (entry : ChainLog) : Prop :=
  entry.log.inner.address ∈ filter.address ∧
    match filter.fromBlock with
    | .number block => block ≤ entry.block
    | .latest => True

instance (filter : Filter) : DecidablePred filter.Delivers := fun entry =>
  match h : filter.fromBlock with
  | .number block =>
      decidable_of_iff (entry.log.inner.address ∈ filter.address ∧ block ≤ entry.block)
        (by simp only [Filter.Delivers, h])
  | .latest =>
      decidable_of_iff (entry.log.inner.address ∈ filter.address)
        (by simp only [Filter.Delivers, h, and_true])

/-- The position at which a subscription opens. -/
def Filter.opens (filter : Filter) (produced : Nat) : Nat :=
  match filter.fromBlock with
  | .number _ => 0
  | .latest => produced

/-- The write of a log that decodes and has its metadata. -/
def callOf (alloy : Alloy) (log : Log) : Option WriteCall := ((outcome alloy log).toOption).join

structure Stream where
  filter : Filter
  reader : Reader WriteCall

/-- A live run with its provider: how much of the chain there is and what the streams have
delivered of it. -/
structure Session (σ ω : Type) where
  run : State σ ω
  produced : Nat
  stream : Option Stream

inductive SessionInput (ω : Type) where
  | produce
  | deliver (position : Nat)
  | run (input : Input ω)

section Machine

variable {σ ω : Type} [EventSink σ ω] (config : FrontfillConfig) (alloy : Alloy)
  (chain : List ChainLog)

/-- The write of the log at a position, when the filter lets it through. -/
def itemAt (filter : Filter) (position : Nat) : List WriteCall :=
  match chain[position]? with
  | some entry => if filter.Delivers entry then (callOf alloy entry.log).toList else []
  | none => []

def Phase.failed : Phase → Bool
  | .exiting (.error _) | .returned (.error _) => true
  | _ => false

/-- A step of the run that meets no error. -/
def soundStep (s : State σ ω) (input : Input ω) : Option (State σ ω) :=
  (step config alloy s input).filter (fun t => !t.phase.failed)

/-- The position is the next that the stream delivers. -/
def Stream.Next (stream : Stream) (produced position : Nat) (entry : ChainLog) : Prop :=
  stream.reader.cursor ≤ position ∧ position < produced ∧ stream.filter.Delivers entry ∧
    ∀ n < position, stream.reader.cursor ≤ n → ∀ other ∈ chain[n]?, ¬stream.filter.Delivers other

instance (stream : Stream) (produced position : Nat) (entry : ChainLog) :
    Decidable (stream.Next chain produced position entry) :=
  inferInstanceAs (Decidable (_ ∧ _ ∧ _ ∧ _))

/-- The stream of a new subscription. -/
def resubscribe (stream : Option Stream) (filter : Filter) (produced : Nat) : Stream :=
  let opened := filter.opens produced
  { filter := filter
    reader := match stream with
      | none => .start opened
      | some stream => stream.reader.reopen (itemAt alloy chain stream.filter) opened }

def sessionStep (s : Session σ ω) : SessionInput ω → Option (Session σ ω)
  | .produce =>
      if s.produced < chain.length then some { s with produced := s.produced + 1 } else none
  | .deliver position =>
      match chain[position]?, s.stream with
      | some entry, some stream =>
          if stream.Next chain s.produced position entry then
            (soundStep config alloy s.run (.next (some entry.log))).map (fun run =>
              { s with
                run := run
                stream := some { stream with reader := stream.reader.advance position } })
          else none
      | _, _ => none
  | .run (.next (some _)) => none
  | .run (.subscribed (.ok value)) =>
      match s.run.phase with
      | .subscribing filter =>
          (soundStep config alloy s.run (.subscribed (.ok value))).map (fun run =>
            { s with
              run := run
              stream := some (resubscribe alloy chain s.stream filter s.produced) })
      | _ => none
  | .run input => (soundStep config alloy s.run input).map (fun run => { s with run := run })

end Machine

section Property

variable {σ ω : Type} (alloy : Alloy) (chain : List ChainLog)

/-- The writes of the logs delivered so far. -/
def State.handed (s : State σ ω) : List WriteCall := s.received.filterMap (callOf alloy)

/-- Each log that decodes, from where the first stream opened to the furthest one
delivered, has been delivered once. -/
def ExactlyOnce (s : Session σ ω) : Prop :=
  ∀ stream, s.stream = some stream →
    (s.run.handed alloy).Perm (Reader.span (itemAt alloy chain stream.filter)
      stream.reader.origin stream.reader.reached)

/-- A delivery is the first of its log and leaves none out. With a start block: the log does not
decode, or no earlier stream delivered one that does. Without: no log that decodes lies
between the furthest one delivered and the head at which the stream opened. -/
def Resumes (config : FrontfillConfig) (s : Session σ ω) (input : SessionInput ω) : Prop :=
  ∀ position, input = .deliver position → ∀ stream, s.stream = some stream →
    match config.startBlock with
    | some _ => itemAt alloy chain stream.filter position = [] ∨ stream.reader.before = []
    | none => Reader.span (itemAt alloy chain stream.filter) stream.reader.reached
        stream.reader.opened = []

end Property

section Steps

variable {σ ω : Type} [EventSink σ ω] {config : FrontfillConfig} {alloy : Alloy}
  {chain : List ChainLog}

theorem sound_step {s t : State σ ω} {input : Input ω}
    (h : soundStep config alloy s input = some t) :
    step config alloy s input = some t ∧ t.phase.failed = false := by
  obtain ⟨stepped, sound⟩ := Option.filter_eq_some_iff.mp h
  exact ⟨stepped, by simpa using sound⟩

/-- Only a log off the stream is received. -/
theorem received_other {s t : State σ ω} {input : Input ω} (other : ∀ log, input ≠ .next (some log))
    (h : step config alloy s input = some t) : t.received = s.received := by
  cases step_moves h with
  | quiet sink trace => simp [State.received, trace]
  | refused => simp [State.received, Effect.log?]
  | took => exact absurd rfl (other _)
  | decided locking early sink trace => simp [State.received, trace]
  | rotated rotating call trace => simp [State.received, trace, Effect.log?]
  | rotateFailed => simp [State.received, Effect.log?]
  | wrote writing call trace => simp [State.received, trace, Effect.log?]
  | writeFailed writing call trace => simp [State.received, trace, Effect.log?]
  | closed closing call trace => simp [State.received, trace, Effect.log?]
  | closeFailed => simp [State.received, Effect.log?]

theorem received_next {s t : State σ ω} {log : Log}
    (h : step config alloy s (.next (some log)) = some t) : t.received = s.received ++ [log] := by
  simp only [step, selectStep] at h
  split at h
  · rename_i same
    obtain rfl := Option.some.inj same
    obtain rfl := Option.some.inj h
    simp [State.received, Effect.log?]
  · rename_i impossible
    cases impossible
  · cases h

/-- Every subscription is made with the filter built from the configuration. -/
theorem subscribing_step {s t : State σ ω} {input : Input ω} {filter : Filter}
    (h : step config alloy s input = some t) (subscribing : t.phase = .subscribing filter) :
    s.phase = .subscribing filter ∨
      buildFilter alloy.addressFromStr config.startBlock = .ok filter := by
  have running : t.phase.result? = none := by rw [subscribing]; rfl
  cases step_moves h with
  | quiet sink trace inHand result filters => exact filters filter subscribing
  | took => exact absurd subscribing ((take_plain _ _ _).not_subscribing filter)
  | decided => exact absurd subscribing ((decode_plain _ _ _).not_subscribing filter)
  | rotated => exact absurd subscribing ((decode_plain _ _ _).not_subscribing filter)
  | wrote writing call trace selecting => cases selecting.symm.trans subscribing
  | writeFailed writing call trace free' result => cases running.symm.trans result
  | closed closing call trace free' result => cases running.symm.trans result
  | refused => cases subscribing
  | rotateFailed => cases subscribing
  | closeFailed => cases subscribing

theorem buildFilter_fromBlock {filter : Filter}
    (built : buildFilter alloy.addressFromStr config.startBlock = .ok filter) :
    filter.fromBlock = match config.startBlock with
      | some block => .number block
      | none => .latest := by
  unfold buildFilter at built
  cases addresses : contractAddresses alloy.addressFromStr with
  | error e =>
      simp only [addresses, bind, Except.bind] at built
      cases built
  | ok address =>
      simp only [addresses, bind, Except.bind, pure, Except.pure] at built
      obtain rfl := Except.ok.inj built
      cases config.startBlock <;> rfl

/-- The kinds of steps of a session. -/
theorem sessionStep_cases {s t : Session σ ω} {input : SessionInput ω}
    (h : sessionStep config alloy chain s input = some t) :
    (input = .produce ∧ t = { s with produced := s.produced + 1 }) ∨
    (∃ position entry stream run, input = .deliver position ∧ chain[position]? = some entry ∧
      s.stream = some stream ∧ stream.Next chain s.produced position entry ∧
      soundStep config alloy s.run (.next (some entry.log)) = some run ∧
      t = { s with
        run := run
        stream := some { stream with reader := stream.reader.advance position } }) ∨
    ∃ (i : Input ω) (run : State σ ω), input = .run i ∧ (∀ log, i ≠ .next (some log)) ∧
      soundStep config alloy s.run i = some run ∧
      (t = { s with run := run } ∨ ∃ filter, s.run.phase = .subscribing filter ∧
        t = { s with
          run := run
          stream := some (resubscribe alloy chain s.stream filter s.produced) }) := by
  unfold sessionStep at h
  split at h
  · split at h
    · exact .inl ⟨rfl, (Option.some.inj h).symm⟩
    · cases h
  · rename_i position
    right
    left
    split at h
    · rename_i entry stream found streaming
      split at h
      · rename_i next_
        obtain ⟨run, stepped, rfl⟩ := Option.map_eq_some_iff.mp h
        exact ⟨position, entry, stream, run, rfl, found, streaming, next_, stepped, rfl⟩
      · cases h
    · cases h
  · cases h
  · rename_i value
    right
    right
    split at h
    · rename_i filter subscribing
      obtain ⟨run, stepped, rfl⟩ := Option.map_eq_some_iff.mp h
      exact ⟨.subscribed (.ok value), run, rfl, nofun, stepped,
        .inr ⟨filter, subscribing, rfl⟩⟩
    · cases h
  · rename_i i notNext notSubscribed
    right
    right
    obtain ⟨run, stepped, rfl⟩ := Option.map_eq_some_iff.mp h
    exact ⟨i, run, rfl, notNext, stepped, .inl rfl⟩

end Steps

section Tracking

variable {σ ω : Type} (config : FrontfillConfig) (alloy : Alloy) (chain : List ChainLog)

/-- What a stream's reader has handed out is what the run has received. -/
structure Reads (s : Session σ ω) (stream : Stream) : Prop where
  filter : buildFilter alloy.addressFromStr config.startBlock = .ok stream.filter
  handed : stream.reader.handed (itemAt alloy chain stream.filter) = s.run.handed alloy
  inPass : stream.reader.opened ≤ stream.reader.cursor
  within : stream.reader.origin ≤ stream.reader.reached
  behind : stream.reader.cursor ≤ s.produced ∧ stream.reader.reached ≤ s.produced
  passes : match config.startBlock with
    | some _ => stream.reader.opened = stream.reader.origin ∧ stream.reader.origin = 0
    | none => stream.reader.reached = stream.reader.cursor ∨
        (stream.reader.cursor = stream.reader.opened ∧
          stream.reader.reached ≤ stream.reader.opened)

structure Tracked (s : Session σ ω) : Prop where
  subscribing : ∀ filter, s.run.phase = .subscribing filter →
    buildFilter alloy.addressFromStr config.startBlock = .ok filter
  waiting : s.stream = none → s.run.received = []
  reading : ∀ stream, s.stream = some stream → Reads config alloy chain s stream

variable {config alloy chain}

/-- Positions the stream passes over have nothing for it. -/
theorem next_skips {stream : Stream} {produced position : Nat} {entry : ChainLog}
    (next_ : stream.Next chain produced position entry) :
    ∀ n, stream.reader.cursor ≤ n → n < position → itemAt alloy chain stream.filter n = [] := by
  intro n ahead before
  unfold itemAt
  cases found : chain[n]? with
  | none => rfl
  | some other => exact if_neg (next_.2.2.2 n before ahead other found)

theorem itemAt_next {stream : Stream} {produced position : Nat} {entry : ChainLog}
    (found : chain[position]? = some entry) (next_ : stream.Next chain produced position entry) :
    itemAt alloy chain stream.filter position = (callOf alloy entry.log).toList := by
  simp only [itemAt, found, if_pos next_.2.2.1]

theorem handed_append {s t : State σ ω} {log : Log} (received : t.received = s.received ++ [log]) :
    t.handed alloy = s.handed alloy ++ (callOf alloy log).toList := by
  rw [State.handed, received, List.filterMap_append]
  cases call : callOf alloy log <;> simp [State.handed, call]

/-- Moving past a delivered position. -/
theorem deliver_reads {s : Session σ ω} {stream : Stream} {position : Nat} {entry : ChainLog}
    {run : State σ ω} (reads : Reads config alloy chain s stream)
    (found : chain[position]? = some entry) (next_ : stream.Next chain s.produced position entry)
    (received : run.received = s.run.received ++ [entry.log]) :
    Reads config alloy chain
      { s with run := run
               stream := some { stream with reader := stream.reader.advance position } }
      { stream with reader := stream.reader.advance position } := by
  obtain ⟨ahead, upTo, -, -⟩ := id next_
  have inPass := reads.inPass
  have within := reads.within
  obtain ⟨cursor, reached⟩ := reads.behind
  refine ⟨reads.filter, ?_, ?_, ?_, ?_, ?_⟩
  · have now := Reader.handed_advance inPass ahead (@next_skips alloy _ _ _ _ _ next_)
    rw [now, reads.handed, itemAt_next found next_, handed_append received]
  · simp only [Reader.advance]
    omega
  · simp only [Reader.advance]
    omega
  · simp only [Reader.advance]
    omega
  · have passes := reads.passes
    cases start : config.startBlock with
    | some block =>
        rw [start] at passes
        exact passes
    | none =>
        rw [start] at passes
        left
        simp only [Reader.advance] at passes ⊢
        omega

/-- A new subscription begins another pass. -/
theorem resubscribe_reads {s : Session σ ω} {filter : Filter} {run : State σ ω}
    (tracked : Tracked config alloy chain s)
    (built : buildFilter alloy.addressFromStr config.startBlock = .ok filter)
    (received : run.received = s.run.received) :
    Reads config alloy chain
      { s with run := run, stream := some (resubscribe alloy chain s.stream filter s.produced) }
      (resubscribe alloy chain s.stream filter s.produced) := by
  have kind := buildFilter_fromBlock built
  have opens : filter.opens s.produced ≤ s.produced := by
    unfold Filter.opens
    split <;> omega
  have handed : run.handed alloy = s.run.handed alloy := by rw [State.handed, received]; rfl
  cases streaming : s.stream with
  | none =>
      refine ⟨built, ?_, Nat.le_refl _, Nat.le_refl _, ⟨opens, opens⟩, ?_⟩
      · rw [handed, State.handed, tracked.waiting streaming]
        simp [resubscribe, Reader.start, Reader.handed]
      · cases start : config.startBlock with
        | some block =>
            rw [start] at kind
            exact ⟨rfl, by simp [resubscribe, Reader.start, Filter.opens, kind]⟩
        | none => exact .inl rfl
  | some stream =>
      have reads := tracked.reading stream streaming
      have same : filter = stream.filter := Except.ok.inj (built.symm.trans reads.filter)
      subst same
      refine ⟨built, ?_, Nat.le_refl _, reads.within, ⟨opens, reads.behind.2⟩, ?_⟩
      · rw [handed, ← reads.handed]
        exact Reader.handed_reopen _ _
      · have passes := reads.passes
        cases start : config.startBlock with
        | some block =>
            rw [start] at kind passes
            have zero : stream.filter.opens s.produced = 0 := by simp [Filter.opens, kind]
            exact ⟨zero.trans passes.2.symm, passes.2⟩
        | none =>
            rw [start] at kind
            have head : stream.filter.opens s.produced = s.produced := by
              simp [Filter.opens, kind]
            refine .inr ⟨rfl, ?_⟩
            simp only [resubscribe, Reader.reopen, head]
            exact reads.behind.2

/-- The run itself: it has met no error and made the writes of what it received. -/
def Sound (alloy : Alloy) (s : Session σ ω) : Prop :=
  Ingested alloy s.run ∧ s.run.phase.failed = false

/-- With no log in hand the sink has the writes of everything received. -/
theorem sound_written {s : Session σ ω} (sound : Sound alloy s)
    (free : s.run.phase.inHand = none) : s.run.written = s.run.handed alloy := by
  obtain ⟨ingested, healthy⟩ := sound
  have running : s.run.phase.result? = none ∨ s.run.phase.result? = some (.ok ()) := by
    cases phase : s.run.phase with
    | exiting result =>
        cases result with
        | ok value => exact .inr rfl
        | error e => simp [phase, Phase.failed] at healthy
    | returned result =>
        cases result with
        | ok value => exact .inr rfl
        | error e => simp [phase, Phase.failed] at healthy
    | _ => exact .inl rfl
  exact (Feed.feed_done (ingested.free free running)).1

theorem exactlyOnce_reader {s : Session σ ω} {stream : Stream}
    (reads : Reads config alloy chain s stream) (streaming : s.stream = some stream) :
    ExactlyOnce alloy chain s ↔ stream.reader.ExactlyOnce (itemAt alloy chain stream.filter) := by
  unfold ExactlyOnce Reader.ExactlyOnce
  rw [reads.handed]
  constructor
  · exact fun once => once stream streaming
  · intro once stream' same
    obtain rfl := Option.some.inj (streaming.symm.trans same)
    exact once

variable [EventSink σ ω]

theorem session_tracked {s t : Session σ ω} {input : SessionInput ω}
    (tracked : Tracked config alloy chain s)
    (moved : sessionStep config alloy chain s input = some t) :
    Tracked config alloy chain t := by
  rcases sessionStep_cases moved with ⟨-, rfl⟩ | ⟨position, entry, stream, run, -, found, streaming,
    next_, stepped, rfl⟩ | ⟨i, run, -, other, stepped, rfl | ⟨filter, subscribing, rfl⟩⟩
  · refine ⟨tracked.subscribing, tracked.waiting, ?_⟩
    intro stream streaming
    have reads := tracked.reading stream streaming
    exact ⟨reads.filter, reads.handed, reads.inPass, reads.within,
      ⟨Nat.le_succ_of_le reads.behind.1, Nat.le_succ_of_le reads.behind.2⟩, reads.passes⟩
  · refine ⟨?_, nofun, ?_⟩
    · intro filter at_
      exact (subscribing_step (sound_step stepped).1 at_).elim (tracked.subscribing filter) id
    · intro stream' same
      obtain rfl := Option.some.inj same
      exact deliver_reads (tracked.reading stream streaming) found next_ (received_next (sound_step stepped).1)
  · have received := received_other other (sound_step stepped).1
    refine ⟨?_, ?_, ?_⟩
    · intro filter at_
      exact (subscribing_step (sound_step stepped).1 at_).elim (tracked.subscribing filter) id
    · intro none_
      exact received.trans (tracked.waiting none_)
    · intro stream streaming
      have reads := tracked.reading stream streaming
      refine ⟨reads.filter, ?_, reads.inPass, reads.within, reads.behind, reads.passes⟩
      rw [reads.handed, State.handed, State.handed, received]
  · refine ⟨?_, nofun, ?_⟩
    · intro filter' at_
      exact (subscribing_step (sound_step stepped).1 at_).elim (tracked.subscribing filter') id
    · intro stream same
      obtain rfl := Option.some.inj same
      exact resubscribe_reads tracked (tracked.subscribing filter subscribing)
        (received_other other (sound_step stepped).1)

theorem session_sound {s t : Session σ ω} {input : SessionInput ω} (sound : Sound alloy s)
    (moved : sessionStep config alloy chain s input = some t) : Sound alloy t := by
  have next_ : ∀ i run, soundStep config alloy s.run i = some run →
      Ingested alloy run ∧ run.phase.failed = false :=
    fun i run stepped =>
      ⟨step_ingested sound.1 (sound_step stepped).1, (sound_step stepped).2⟩
  rcases sessionStep_cases moved with ⟨-, rfl⟩ | ⟨_, _, _, run, -, -, -, -, stepped, rfl⟩ |
    ⟨i, run, -, -, stepped, rfl | ⟨_, -, rfl⟩⟩
  · exact sound
  · exact next_ _ run stepped
  · exact next_ i run stepped
  · exact next_ i run stepped

/-- Deliveries are the steps that can go wrong, and they do exactly when they do not resume. -/
theorem session_exact {s t : Session σ ω} {input : SessionInput ω}
    (tracked : Tracked config alloy chain s) (good : ExactlyOnce alloy chain s)
    (moved : sessionStep config alloy chain s input = some t) :
    ExactlyOnce alloy chain t ↔ Resumes alloy chain config s input := by
  rcases sessionStep_cases moved with ⟨rfl, rfl⟩ | ⟨position, entry, stream, run, rfl, found,
    streaming, next_, stepped, rfl⟩ | ⟨i, run, rfl, other, stepped, rfl | ⟨filter, subscribing, rfl⟩⟩
  · exact ⟨fun _ => nofun, fun _ => good⟩
  · have reads := tracked.reading stream streaming
    have reads' := deliver_reads reads found next_ (received_next (sound_step stepped).1)
    have skips := @next_skips alloy _ _ _ _ _ next_
    rw [exactlyOnce_reader reads' rfl]
    have before := (exactlyOnce_reader reads streaming).mp good
    have passes := reads.passes
    have isResume : Resumes alloy chain config s (.deliver position : SessionInput ω) ↔
        match config.startBlock with
        | some _ => itemAt alloy chain stream.filter position = [] ∨ stream.reader.before = []
        | none => Reader.span (itemAt alloy chain stream.filter) stream.reader.reached
            stream.reader.opened = [] := by
      constructor
      · exact fun resumes => resumes position rfl stream streaming
      · intro fine position' same stream' streaming'
        obtain rfl := SessionInput.deliver.inj same
        obtain rfl := Option.some.inj (streaming.symm.trans streaming')
        exact fine
    rw [isResume]
    cases start : config.startBlock with
    | some block =>
        rw [start] at passes
        exact Reader.advance_rewound passes.1 reads.inPass reads.within next_.1 skips before
    | none =>
        rw [start] at passes
        exact Reader.advance_ahead reads.within reads.inPass passes next_.1 skips before
  · have received := received_other other (sound_step stepped).1
    refine ⟨fun _ => nofun, fun _ => ?_⟩
    intro stream streaming
    rw [State.handed, received]
    exact good stream streaming
  · have received := received_other other (sound_step stepped).1
    refine ⟨fun _ => nofun, fun _ => ?_⟩
    have reads := @resubscribe_reads _ _ _ _ _ s filter run tracked
      (tracked.subscribing filter subscribing) received
    rw [exactlyOnce_reader reads rfl]
    cases streaming : s.stream with
    | none => exact Reader.exactlyOnce_start _
    | some stream =>
        have before := tracked.reading stream streaming
        have same : filter = stream.filter :=
          Except.ok.inj ((tracked.subscribing filter subscribing).symm.trans before.filter)
        subst same
        have once := (exactlyOnce_reader before streaming).mp good
        unfold Reader.ExactlyOnce at once ⊢
        simp only [resubscribe]
        rw [Reader.handed_reopen]
        exact once

end Tracking

/-- A live run without errors over a growing chain. Whenever no log is in hand the sink has the
writes of the received logs; and these are, in every state, each log that decodes from the
first stream's start to the furthest one delivered exactly once, if and only if every
delivery resumes where the ones before it left off. -/
theorem exactly_once_iff {σ ω : Type} [EventSink σ ω] {config : FrontfillConfig} {alloy : Alloy}
    {chain : List ChainLog} {storage : Except String σ} {runtime : Except String FrontfillMetrics}
    {s : State σ ω} {produced : Nat} {t : Session σ ω} {inputs : List (SessionInput ω)}
    (start : launch config storage runtime = .ok s)
    (run : Machine.exec (sessionStep config alloy chain)
      { run := s, produced := produced, stream := none } inputs = some t) :
    (∀ u, Machine.Visits (sessionStep config alloy chain)
        { run := s, produced := produced, stream := none } inputs u →
      u.run.phase.inHand = none → u.run.written = u.run.handed alloy) ∧
    ((∀ u, Machine.Visits (sessionStep config alloy chain)
        { run := s, produced := produced, stream := none } inputs u → ExactlyOnce alloy chain u) ↔
      ∀ u input, Machine.Takes (sessionStep config alloy chain)
        { run := s, produced := produced, stream := none } inputs u input →
        Resumes alloy chain config u input) := by
  obtain ⟨-, -, phase, trace, -⟩ := launch_start start
  have ingested : Ingested alloy s :=
    run_ingested start (Machine.exec_nil (step config alloy) s)
  constructor
  · rintro u ⟨past, rest, -, reached⟩ free
    have sound : Sound alloy { run := s, produced := produced, stream := none } :=
      ⟨ingested, by rw [phase]; rfl⟩
    have keeps : ∀ (a : Session σ ω) (i : SessionInput ω) (b : Session σ ω), True → Sound alloy a →
        sessionStep config alloy chain a i = some b → Sound alloy b :=
      fun _ _ _ _ before moved => session_sound before moved
    exact sound_written (Machine.exec_invariant _ keeps (fun _ _ => trivial) reached sound) free
  · have tracked : Tracked config alloy chain { run := s, produced := produced, stream := none } := by
      refine ⟨?_, ?_, nofun⟩
      · intro filter impossible
        rw [phase] at impossible
        cases impossible
      · intro _
        rw [State.received, trace]
        rfl
    have keeps : ∀ (a : Session σ ω) (i : SessionInput ω) (b : Session σ ω), True →
        Tracked config alloy chain a → sessionStep config alloy chain a i = some b →
        Tracked config alloy chain b :=
      fun _ _ _ _ before moved => session_tracked before moved
    exact Machine.always_iff _ keeps
      (fun _ _ _ _ tracked good moved => session_exact tracked good moved)
      (fun _ _ => trivial) run tracked nofun

section Example

open Backfill (cancelledEntry)

def oneLog : List ChainLog := [cancelledEntry 10 0 [⟨7⟩]]

def session (config : FrontfillConfig) (inputs : List (SessionInput ParquetIo)) :
    Option (Session ParquetSink ParquetIo) :=
  Machine.exec (sessionStep config Reference.alloy oneLog)
    { run := liveStart, produced := 0, stream := none } inputs

def subscribing : List (SessionInput ParquetIo) :=
  [.run .connect, .run (.connected (.ok ())), .run (.subscribed (.ok ()))]

def delivering : List (SessionInput ParquetIo) := [.deliver 0, .run .lock, .run (.sink sinkOk)]

def reconnecting : List (SessionInput ParquetIo) := [.run (.next none), .run .slept] ++ subscribing

theorem exactly_once_oneLog : ∃ t,
    session liveConfig (subscribing ++ [.produce] ++ delivering) = some t ∧
      t.run.written = t.run.handed Reference.alloy := by
  have returns : (session liveConfig (subscribing ++ [.produce] ++ delivering)).map
      (fun t => t.run.phase.inHand) = some none := rfl
  obtain ⟨t, run, free⟩ := Option.map_eq_some_iff.mp returns
  refine ⟨t, run, (exactly_once_iff liveStart_launched run).1 t ?_ free⟩
  exact ⟨_, [], (List.append_nil _).symm, run⟩

def sinceBlock : FrontfillConfig := { liveConfig with startBlock := some 10 }

/-- With a start block the log is written again after a reconnect. -/
theorem redelivered : ∃ t, session sinceBlock
      ([.produce] ++ subscribing ++ delivering ++ reconnecting ++ delivering) = some t ∧
    ¬ExactlyOnce Reference.alloy oneLog t := by
  -- two writes of the one log there is
  have counts : (session sinceBlock
      ([.produce] ++ subscribing ++ delivering ++ reconnecting ++ delivering)).map
        (fun t => ((t.run.handed Reference.alloy).length, t.stream.map (fun stream => (Reader.span
          (itemAt Reference.alloy oneLog stream.filter) stream.reader.origin
          stream.reader.reached).length))) = some (2, some 1) := by
    decide +kernel
  obtain ⟨t, run, both⟩ := Option.map_eq_some_iff.mp counts
  obtain ⟨handed, spans⟩ := Prod.mk.inj both
  refine ⟨t, run, ?_⟩
  intro once
  obtain ⟨stream, streaming, length⟩ := Option.map_eq_some_iff.mp spans
  have counts := (once stream streaming).length_eq
  omega

end Example

end PolymarketIndexer.Frontfill
