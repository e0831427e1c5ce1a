import PolymarketIndexer.Frontfill.Ingest

/-! # What a result says

A run ends for what it did last: it closed its sink, a call to the sink failed, a log was
incomplete or did not decode, or it could not be set up. A connection that fails never ends it.
-/

namespace PolymarketIndexer.Frontfill

variable {σ ω : Type}

/-- The effects after which a run is over. -/
def Effect.ends : Effect ω → Bool
  | .closed _ | .sinkFailed _ | .refused _ => true
  | _ => false

/-- Why a log ends the run. -/
def blame (alloy : Alloy) (log : Log) : Option (Except String Unit) :=
  match outcome alloy log with
  | .error error => some (.error error)
  | .ok _ => none

/-- The result of a run that is done with its last log, if it has one. -/
def verdict (alloy : Alloy) (trace : List (Effect ω)) : Option (Except String Unit) :=
  match trace.getLast? with
  | some (.closed _) => some (.ok ())
  | some (.sinkFailed error) | some (.refused error) => some (.error error)
  | some (.received _) | some (.rotated _) =>
      (trace.filterMap Effect.log?).getLast?.bind (blame alloy)
  | some (.wrote _ _) | none => none

/-- The log in hand is the last one received, and nothing but a rotation has been done since. -/
structure Holds (alloy : Alloy) (trace : List (Effect ω)) (taken : Taken) : Prop where
  last : ∃ log, (trace.filterMap Effect.log?).getLast? = some log ∧
    checkMetadata alloy log = .ok taken
  effect : (∃ log, trace.getLast? = some (.received log)) ∨
    ∃ io, trace.getLast? = some (.rotated io)

/-- The result of a run, and the reason for it. -/
structure Judged (alloy : Alloy) (s : State σ ω) : Prop where
  settled : s.phase.inHand = none → s.phase.result? = verdict alloy s.trace
  busy : ∀ taken event?, s.phase.inHand = some (taken, event?) →
    Holds alloy s.trace taken ∧
      ∀ event, event? = some event → decodeLog alloy taken.log = .ok (some event)
  last : ∀ effect ∈ s.trace.dropLast, effect.ends = false

section Parts

variable {alloy : Alloy} {trace : List (Effect ω)} {taken : Taken}

@[simp] theorem verdict_append (effect : Effect ω) :
    verdict alloy (trace ++ [effect]) = match effect with
      | .closed _ => some (.ok ())
      | .sinkFailed error | .refused error => some (.error error)
      | .received _ | .rotated _ =>
          ((trace ++ [effect]).filterMap Effect.log?).getLast?.bind (blame alloy)
      | .wrote _ _ => none := by
  unfold verdict
  rw [List.getLast?_concat]
  cases effect <;> rfl

/-- What is decided about the log in hand is the verdict. -/
theorem Holds.verdict (holds : Holds alloy trace taken) :
    verdict alloy trace = match decodeLog alloy taken.log with
      | .error error => some (.error error)
      | .ok _ => none := by
  obtain ⟨log, last, checked⟩ := holds.last
  have judged : Frontfill.verdict alloy trace = blame alloy log := by
    unfold Frontfill.verdict
    rcases holds.effect with ⟨log', received⟩ | ⟨io, rotated⟩
    · rw [received, last]
      rfl
    · rw [rotated, last]
      rfl
  rw [judged, blame]
  rcases decoded : decodeLog alloy taken.log with error | _ | event
  · rw [outcome_undecodable checked decoded]
  · rw [outcome_ignored checked decoded]
  · rw [outcome_kept checked decoded]

/-- Nothing that ends a run has been done while it goes on. -/
theorem ends_of_running {s : State σ ω} (judged : Judged alloy s)
    (running : s.phase.result? = none) :
    ∀ effect ∈ s.trace, effect.ends = false := by
  intro effect member
  rcases s.trace.eq_nil_or_concat' with empty | ⟨past, last, split⟩
  · rw [empty] at member
    cases member
  · rw [split, List.mem_append, List.mem_singleton] at member
    rcases member with earlier | rfl
    · exact judged.last effect (by rw [split, List.dropLast_concat]; exact earlier)
    · have final : s.trace.getLast? = some effect := by rw [split, List.getLast?_concat]
      cases hand : s.phase.inHand with
      | none =>
          have none_ := (judged.settled hand).symm.trans running
          unfold Frontfill.verdict at none_
          rw [final] at none_
          cases effect <;> first | rfl | cases none_
      | some held =>
          obtain ⟨taken, event?⟩ := held
          rcases (judged.busy taken event? hand).1.effect with ⟨log, same⟩ | ⟨io, same⟩
          · obtain rfl := Option.some.inj (final.symm.trans same)
            rfl
          · obtain rfl := Option.some.inj (final.symm.trans same)
            rfl

/-- A step that does something more. -/
theorem Judged.more {s t : State σ ω} {effect : Effect ω} (judged : Judged alloy s)
    (running : s.phase.result? = none) (trace : t.trace = s.trace ++ [effect])
    (settled : t.phase.inHand = none → t.phase.result? = verdict alloy t.trace)
    (busy : ∀ taken event?, t.phase.inHand = some (taken, event?) →
      Holds alloy t.trace taken ∧
        ∀ event, event? = some event → decodeLog alloy taken.log = .ok (some event)) :
    Judged alloy t where
  settled := settled
  busy := busy
  last := by
    rw [trace, List.dropLast_concat]
    exact ends_of_running judged running

theorem take_judged {s : State σ ω} (judged : Judged alloy s) (running : s.phase.result? = none)
    (log : Log) : Judged alloy (s.take alloy log) := by
  have received : ((s.trace ++ [Effect.received log]).filterMap Effect.log?).getLast? =
      some log := by
    simp [Effect.log?]
  rcases @take_decides _ _ alloy s log with ⟨error, checked, free, result⟩ |
    ⟨taken, checked, held, -⟩
  · refine judged.more running (take_trace _ _ _) (fun _ => ?_) ?_
    · rw [result, take_trace, verdict_append]
      simp only [received, Option.bind_some, blame, outcome_incomplete checked]
    · intro taken event? held
      cases free.symm.trans held
  · refine judged.more running (take_trace _ _ _) ?_ ?_
    · intro free
      cases held.symm.trans free
    · intro taken' event? held'
      obtain ⟨rfl, rfl⟩ := Prod.mk.inj (Option.some.inj (held.symm.trans held'))
      refine ⟨⟨⟨log, ?_, checked⟩, .inl ⟨log, ?_⟩⟩, ?_⟩
      · rw [take_trace, received]
      · rw [take_trace, List.getLast?_concat]
      · intro event impossible
        cases impossible

/-- What is decided about the log in hand, whatever was done before. -/
theorem decode_judged {u : State σ ω} (holds : Holds alloy u.trace taken)
    (last : ∀ effect ∈ u.trace.dropLast, effect.ends = false) :
    Judged alloy (u.decode alloy taken) := by
  have judged := holds.verdict
  rcases @decode_decides _ _ alloy u taken with ⟨error, decoded, free, result⟩ |
    ⟨decoded, selecting⟩ | ⟨event, decoded, held, -⟩
  · rw [decoded] at judged
    refine ⟨fun _ => by rw [result, decode_trace, judged], ?_, by rw [decode_trace]; exact last⟩
    intro taken' event? held
    cases free.symm.trans held
  · rw [decoded] at judged
    refine ⟨fun _ => ?_, ?_, by rw [decode_trace]; exact last⟩
    · rw [selecting, decode_trace, judged]
      rfl
    · intro taken' event? held
      rw [selecting] at held
      cases held
  · refine ⟨?_, ?_, by rw [decode_trace]; exact last⟩
    · intro free
      cases held.symm.trans free
    · intro taken' event? held'
      obtain ⟨rfl, rfl⟩ := Prod.mk.inj (Option.some.inj (held.symm.trans held'))
      refine ⟨by rw [decode_trace]; exact holds, ?_⟩
      intro event' same
      obtain rfl := Option.some.inj same
      exact decoded

end Parts

section Run

variable [EventSink σ ω] {config : FrontfillConfig} {alloy : Alloy} {s t : State σ ω}
  {input : Input ω}

theorem step_judged (judged : Judged alloy s) (moved : step config alloy s input = some t) :
    Judged alloy t := by
  have nothing : ∀ {u : State σ ω}, u.phase.inHand = none → ∀ taken event?,
      u.phase.inHand = some (taken, event?) → Holds alloy u.trace taken ∧
        ∀ event, event? = some event → decodeLog alloy taken.log = .ok (some event) := by
    intro u free taken event? held
    cases free.symm.trans held
  cases step_moves moved with
  | quiet sink trace inHand result subscribing =>
      refine ⟨?_, ?_, ?_⟩
      · rw [inHand, result, trace]
        exact judged.settled
      · rw [inHand, trace]
        exact judged.busy
      · rw [trace]
        exact judged.last
  | refused free running why =>
      refine judged.more running rfl (fun _ => ?_) (nothing rfl)
      rw [leave_trace, note_trace, verdict_append]
      rfl
  | took selecting => exact take_judged judged (by rw [selecting]; rfl) _
  | @decided u taken locking early sink trace =>
      obtain ⟨holds, -⟩ := judged.busy taken none (by rw [locking]; rfl)
      exact decode_judged (by rw [trace]; exact holds) (by rw [trace]; exact judged.last)
  | @rotated u taken io rotating call trace =>
      obtain ⟨⟨⟨log, last, checked⟩, -⟩, -⟩ := judged.busy taken none (by rw [rotating]; rfl)
      have running : s.phase.result? = none := by rw [rotating]; rfl
      refine decode_judged ⟨⟨log, ?_, checked⟩, .inr ⟨io, ?_⟩⟩ ?_
      · rw [trace, List.filterMap_append]
        simpa [Effect.log?] using last
      · rw [trace, List.getLast?_concat]
      · rw [trace, List.dropLast_concat]
        exact ends_of_running judged running
  | rotateFailed rotating call =>
      refine judged.more (by rw [rotating]; rfl) rfl (fun _ => ?_) (nothing rfl)
      rw [leave_trace, note_trace, verdict_append]
      rfl
  | wrote writing call trace selecting =>
      refine judged.more (by rw [writing]; rfl) trace (fun _ => ?_)
        (nothing (by rw [selecting]; rfl))
      rw [selecting, trace, verdict_append]
      rfl
  | writeFailed writing call trace free result =>
      refine judged.more (by rw [writing]; rfl) trace (fun _ => ?_) (nothing free)
      rw [result, trace, verdict_append]
  | closed closing call trace free result =>
      refine judged.more (by rw [closing]; rfl) trace (fun _ => ?_) (nothing free)
      rw [result, trace, verdict_append]
  | closeFailed closing call =>
      refine judged.more (by rw [closing]; rfl) rfl (fun _ => ?_) (nothing rfl)
      rw [leave_trace, note_trace, verdict_append]
      rfl

theorem run_judged {storage : Except String σ} {runtime : Except String FrontfillMetrics}
    {inputs : List (Input ω)} (start : launch config storage runtime = .ok s)
    (run : Machine.exec (step config alloy) s inputs = some t) : Judged alloy t := by
  obtain ⟨-, -, phase, trace, -⟩ := launch_start start
  have first : Judged alloy s := by
    refine ⟨fun _ => ?_, ?_, ?_⟩
    · rw [phase, trace]
      rfl
    · intro taken event? held
      rw [phase] at held
      cases held
    · intro effect member
      rw [trace] at member
      cases member
  exact Machine.exec_invariant (step config alloy)
    (fun _ _ _ (_ : True) judged moved => step_judged judged moved) (fun _ _ => trivial) run first

/-- A run is refused by its configuration, or by what listens for Ctrl-C. -/
def Refuses (config : FrontfillConfig) (alloy : Alloy) (inputs : List (Input ω)) (error : String) :
    Prop :=
  buildWsConnect config = .error error ∨
    buildFilter alloy.addressFromStr config.startBlock = .error error ∨
      .pollCtrlC (.error error) ∈ inputs

theorem step_refuses {past : List (Input ω)}
    (known : ∀ error, .refused error ∈ s.trace → Refuses config alloy past error)
    (moved : step config alloy s input = some t) :
    ∀ error, .refused error ∈ t.trace → Refuses config alloy (past ++ [input]) error := by
  have earlier : ∀ error, .refused error ∈ s.trace →
      Refuses config alloy (past ++ [input]) error := by
    intro error refused
    rcases known error refused with connection | filter | listener
    · exact .inl connection
    · exact .inr (.inl filter)
    · exact .inr (.inr (List.mem_append_left _ listener))
  intro error refused
  cases step_moves moved with
  | quiet sink trace => exact earlier error (trace ▸ refused)
  | @refused _ error' free running why =>
      rcases List.mem_append.mp refused with before | now
      · exact earlier error before
      · obtain rfl := Effect.refused.inj (List.mem_singleton.mp now)
        rcases why with rfl | ⟨rfl, connection⟩ | ⟨rfl, filter⟩
        · exact .inr (.inr (List.mem_append_right _ (List.mem_singleton.mpr rfl)))
        · exact .inl connection
        · exact .inr (.inl filter)
  | took selecting =>
      rw [take_trace] at refused
      exact earlier error (by simpa using refused)
  | decided locking early sink trace =>
      rw [decode_trace, trace] at refused
      exact earlier error refused
  | rotated rotating call trace =>
      rw [decode_trace, trace] at refused
      exact earlier error (by simpa using refused)
  | wrote writing call trace => exact earlier error (by simpa [trace] using refused)
  | writeFailed writing call trace => exact earlier error (by simpa [trace] using refused)
  | closed closing call trace => exact earlier error (by simpa [trace] using refused)
  | rotateFailed => exact earlier error (by simpa using refused)
  | closeFailed => exact earlier error (by simpa using refused)

/-- A run goes on while it has a log in hand. Otherwise what it did last decides: it has returned
`Ok` exactly when it has closed its sink, and an error exactly when the last log is incomplete
or does not decode, the last call to the sink failed, or it was refused. It does nothing after
that, and no connection or subscription that fails is ever its result. -/
theorem result_explained {storage : Except String σ} {runtime : Except String FrontfillMetrics}
    {inputs : List (Input ω)} (start : launch config storage runtime = .ok s)
    (run : Machine.exec (step config alloy) s inputs = some t) :
    (t.phase.inHand ≠ none → t.phase.result? = none) ∧
    (t.phase.inHand = none → t.phase.result? = verdict alloy t.trace) ∧
    (∀ effect ∈ t.trace.dropLast, effect.ends = false) ∧
    ∀ error, .refused error ∈ t.trace → Refuses config alloy inputs error := by
  obtain ⟨-, -, -, trace, -⟩ := launch_start start
  have judged := run_judged start run
  refine ⟨?_, judged.settled, judged.last, ?_⟩
  · intro busy
    obtain ⟨held, hand⟩ := Option.ne_none_iff_exists'.mp busy
    exact inHand_running hand
  · have known := @Machine.exec_history _ _ (step config alloy)
      (fun past u => ∀ error, .refused error ∈ u.trace → Refuses config alloy past error)
      (fun _ _ _ _ known moved => step_refuses known moved) _ _ _ run
    refine known (fun error refused => ?_)
    rw [trace] at refused
    cases refused

end Run

section Example

/-- A log without its block number, right after the one that reached its file. -/
theorem result_explained_incomplete : ∃ t,
    live (connecting ++ ingesting (cancelled 10 0) ++
      [.next (some { cancelled 11 0 with blockNumber := none })]) = some t ∧
    t.phase.inHand = none ∧
    t.phase.result? = some (.error "frontfill received log missing block_number") := by
  have returns : (live (connecting ++ (ingesting (cancelled 10 0) ++
      [.next (some { cancelled 11 0 with blockNumber := none })]))).isSome := by
    rw [live_connecting]
    rfl
  obtain ⟨t, run⟩ := Option.isSome_iff_exists.mp returns
  have heard := run
  rw [live_connecting] at heard
  have idle : t.phase.inHand = none := seen (fun t => t.phase.inHand) heard rfl
  have judged := (result_explained liveStart_launched run).2.1 idle
  have said : verdict Reference.alloy t.trace =
      some (.error "frontfill received log missing block_number") :=
    seen (fun t => verdict Reference.alloy t.trace) heard rfl
  exact ⟨t, by rw [List.append_assoc]; exact run, idle, judged.trans said⟩

end Example

end PolymarketIndexer.Frontfill
