import PolymarketIndexer.Frontfill.Progress
import PolymarketIndexer.Frontfill.Archive
import PolymarketIndexer.Frontfill.Durability

/-! # A run can be stopped without a loss

At any moment of a live run that goes on, one Ctrl-C can end it within a dozen inputs. With the file
operations succeeding it ends with Ok, and then every row it accepted is in a finished file, unless
the log in hand is one that does not decode.
-/

namespace PolymarketIndexer.Frontfill

open Machine ParquetStorage

section Steps

variable {config : FrontfillConfig} {alloy : Alloy} {disk : Disk} {s t : LiveState}
  {inputs : List (Input ParquetIo)}

/-- Only a close ends a run with Ok. -/
theorem shutdown_step {input : Input ParquetIo} (recorded : Recorded disk s)
    (before : s.phase.result? = some (.ok ()) → Durable s)
    (moved : step config alloy s input = some t) (ok : t.phase.result? = some (.ok ())) :
    Durable t := by
  have undecided : ∀ {u : LiveState} {taken : Taken},
      (u.decode alloy taken).phase.result? ≠ some (.ok ()) := by
    intro u taken isOk
    rcases @decode_decides _ _ alloy u taken with ⟨_, -, -, failed⟩ | ⟨-, selecting⟩ |
      ⟨_, -, -, running⟩
    · cases failed.symm.trans isOk
    · rw [selecting] at isOk
      cases isOk
    · cases running.symm.trans isOk
  cases step_moves moved with
  | quiet sink trace inHand result =>
      have durable := before (result ▸ ok)
      unfold Durable State.accepted State.written at durable ⊢
      rw [sink, trace]
      exact durable
  | @closed _ io closing call trace =>
      intro E
      have history := recorded (.inl (by rw [closing]; rfl))
      have kept : t.accepted E = s.accepted E := by
        simp [State.accepted, State.written, trace, Effect.call?]
      rw [kept]
      exact closed_rows history call E
  | @took _ log selecting =>
      rcases @take_decides _ _ alloy s log with ⟨_, -, -, failed⟩ | ⟨_, -, -, running⟩
      · cases failed.symm.trans ok
      · cases running.symm.trans ok
  | decided => exact absurd ok undecided
  | rotated => exact absurd ok undecided
  | wrote writing call trace selecting =>
      rw [selecting] at ok
      cases ok
  | writeFailed writing call trace free failed => cases failed.symm.trans ok
  | refused | rotateFailed | closeFailed => cases ok

theorem shutdown_durable {runtime : Except String FrontfillMetrics}
    (start : launch config (.ok (freshOn disk)) runtime = .ok s)
    (run : exec (step config alloy) s inputs = some t) (ok : t.phase.result? = some (.ok ())) :
    Durable t := by
  have first : s.phase.result? = some (.ok ()) → Durable s := by
    rw [(launch_start start).2.2.1]
    exact fun impossible => by cases impossible
  have keeps : ∀ (a : LiveState) (input : Input ParquetIo) (b : LiveState), True →
      (Recorded disk a ∧ (a.phase.result? = some (.ok ()) → Durable a)) →
      step config alloy a input = some b →
      Recorded disk b ∧ (b.phase.result? = some (.ok ()) → Durable b) :=
    fun _ _ _ _ before moved =>
      ⟨step_recorded before.1 moved, shutdown_step before.1 before.2 moved⟩
  exact (exec_invariant _ keeps (fun _ _ => trivial) run ⟨launch_recorded start, first⟩).2 ok

theorem unharmed_running (judged : Judged alloy t) (running : t.phase.result? = none) :
    Unharmed t := by
  intro error
  have unended := ends_of_running judged running
  exact ⟨fun failed => (by cases unended _ failed), fun refused => (by cases unended _ refused)⟩

theorem stopInput_harmless {io : ParquetIo} (harmless : Harmless (.sink io)) (phase : Phase) :
    Harmless (phase.stopInput io) := by
  cases phase with
  | selecting listener => rcases listener with _ | _ | _ <;> trivial
  | rotating | writing | closing => exact harmless
  | _ => trivial

/-- Inputs that harm nothing leave a run as unharmed as they find it. -/
theorem unharmed_further {more : List (Input ParquetIo)} {u : LiveState}
    (usable : Usable config alloy) (ingested : Ingested alloy t)
    (typed : GoesOn t → Typed t.sink) (sound : Unharmed t)
    (harmless : ∀ input ∈ more, Harmless input)
    (reached : exec (step config alloy) t more = some u) : Unharmed u := by
  have keeps : ∀ (a : LiveState) (input : Input ParquetIo) (b : LiveState), Harmless input →
      (Ingested alloy a ∧ (GoesOn a → Typed a.sink) ∧ Unharmed a) →
      step config alloy a input = some b →
      Ingested alloy b ∧ (GoesOn b → Typed b.sink) ∧ Unharmed b := by
    rintro a input b harmless ⟨ingested, typed, sound⟩ moved
    exact ⟨step_ingested ingested moved, step_keeps typed_kept ingested typed moved,
      step_sound usable ingested typed sound harmless moved⟩
  exact (exec_invariant _ keeps harmless reached ⟨ingested, typed, sound⟩).2.2

/-- An unharmed run that ends with an error ends for its last log. -/
theorem unharmed_blames {error : String} (judged : Judged alloy t) (sound : Unharmed t)
    (failed : t.phase.result? = some (.error error)) :
    ∃ log, t.received.getLast? = some log ∧ outcome alloy log = .error error := by
  have idle : t.phase.inHand = none := by
    cases hand : t.phase.inHand with
    | none => rfl
    | some held => cases (inHand_running hand).symm.trans failed
  have said := (judged.settled idle).symm.trans failed
  rcases t.trace.eq_nil_or_concat' with empty | ⟨past, last, split⟩
  · rw [empty] at said
    cases said
  · rw [split, verdict_append] at said
    have done : last ∈ t.trace := by
      rw [split]
      exact List.mem_append_right _ List.mem_cons_self
    cases last with
    | closed | wrote => cases said
    | sinkFailed error => exact absurd done (sound error).1
    | refused error => exact absurd done (sound error).2
    | received | rotated =>
        rw [← split] at said
        obtain ⟨log, isLast, blamed⟩ := Option.bind_eq_some_iff.mp said
        unfold blame at blamed
        split at blamed
        · rename_i error' failed'
          obtain rfl := Except.error.inj (Option.some.inj blamed)
          exact ⟨log, isLast, failed'⟩
        · cases blamed

end Steps

section Run

variable {config : FrontfillConfig} {alloy : Alloy} {disk : Disk} {s t : LiveState}
  {inputs : List (Input ParquetIo)}

/-- From any moment of a run that goes on, a dozen inputs without a further log bring it to its
return. It ends with Ok, every log it received written and every row in a finished file, or else a
log was in hand that cannot be decoded, and it ends with that error. -/
theorem stops_cleanly {runtime : Except String FrontfillMetrics} {io : ParquetIo}
    (usable : Usable config alloy) (harmless : Harmless (.sink io))
    (start : launch config (.ok (freshOn disk)) runtime = .ok s)
    (run : exec (step config alloy) s inputs = some t) (running : t.phase.result? = none) :
    ∃ more u result, exec (step config alloy) t more = some u ∧ u.phase = .returned result ∧
      u.received = t.received ∧ more.length ≤ 12 ∧
      (result = .ok () →
        Durable u ∧ Feed.feed (outcome alloy) t.received = (u.written, none)) ∧
      ∀ error, result = .error error → t.phase.inHand.isSome = true ∧
        ∃ log, t.received.getLast? = some log ∧ outcome alloy log = .error error := by
  obtain ⟨more, u, result, reached, returned, chosen, short⟩ :=
    @stops_from _ _ _ config alloy t io (run_listening start run)
  have whole := (exec_append _).mpr ⟨t, run, reached⟩
  have received : u.received = t.received := stop_received chosen reached
  have ended : u.phase.result? = some result := by rw [returned]; rfl
  have ingested := run_ingested start run
  have sound : Unharmed u := by
    refine unharmed_further usable ingested
      (fun goesOn => run_keeps typed_kept (typed_freshOn disk) start run goesOn)
      (unharmed_running (run_judged start run) running) ?_ reached
    intro input member
    obtain ⟨phase, rfl⟩ := chosen input member
    exact stopInput_harmless harmless phase
  refine ⟨more, u, result, reached, returned, received, short.trans (stopRank_le _), ?_, ?_⟩
  · rintro rfl
    have fed := (run_ingested start whole).free (by rw [returned]; rfl) (.inr ended)
    rw [received] at fed
    exact ⟨shutdown_durable start whole ended, fed⟩
  · rintro error rfl
    obtain ⟨log, last, failed⟩ := unharmed_blames (run_judged start whole) sound ended
    rw [received] at last
    refine ⟨?_, log, last, failed⟩
    by_contra free
    have idle : t.phase.inHand = none := by simpa using free
    obtain ⟨made, fine⟩ := (Feed.feed_done (ingested.free idle (.inl running))).2 log
      (List.mem_of_getLast? last)
    cases failed.symm.trans fine

end Run

section Example

/-- A log was taken and is not written yet. -/
def takingLog : List (Input ParquetIo) := connecting ++ [.next (some (cancelled 10 0))]

theorem stops_cleanly_taking : ∃ t more u, live takingLog = some t ∧
    exec (step liveConfig Reference.alloy) t more = some u ∧ more.length ≤ 12 ∧
    u.phase = .returned (.ok ()) ∧ Durable u ∧ u.received = [cancelled 10 0] := by
  have returns : (live takingLog).isSome := by
    rw [takingLog, live_connecting]
    rfl
  obtain ⟨t, run⟩ := Option.isSome_iff_exists.mp returns
  have heard := run
  rw [takingLog, live_connecting] at heard
  have running : t.phase.result? = none := seen (fun t => t.phase.result?) heard rfl
  have received : t.received = [cancelled 10 0] := seen State.received heard rfl
  have harmless : Harmless (.sink sinkOk) := ⟨⟨rfl, rfl, rfl, rfl, rfl⟩, fun _ => rfl⟩
  have usable : Usable liveConfig Reference.alloy :=
    ⟨⟨_, rfl⟩, buildFilter_ok Reference.addresses_parse _⟩
  obtain ⟨more, u, result, reached, returned, same, short, ok, failed⟩ :=
    stops_cleanly usable harmless liveStart_launched run running
  cases result with
  | ok value => exact ⟨t, more, u, run, reached, short, returned, (ok rfl).1, same.trans received⟩
  | error error =>
      obtain ⟨-, log, last, bad⟩ := failed error rfl
      rw [received] at last
      obtain rfl := Option.some.inj last
      have good : Good Reference.alloy (cancelled 10 0) :=
        ⟨⟨rfl, rfl, rfl⟩, fun error => by nofun⟩
      exact absurd bad (good_outcome good error)

end Example

end PolymarketIndexer.Frontfill
