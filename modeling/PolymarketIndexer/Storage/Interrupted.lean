import PolymarketIndexer.Storage.Closing
import PolymarketIndexer.Storage.Crash

/-! # The output directory after a call that was cut short

A write that fails has created a file at most, and a rotation or a close that fails has closed some
of the writers and dropped the others. A process that is killed in a call leaves the files of the
call that fails at that point. So each event type can still be read up to the last rotation, or
as a whole if its writer was among those closed.
-/

namespace PolymarketIndexer.ParquetStorage

open Unordered

variable {E : String} {disk : Disk} {sink t : ParquetSink}

theorem failed_write_legible {io : WriteIo} {call : WriteCall} {error : String}
    (legible : Legible disk E sink)
    (unused : call.eventType = E → sink.storage.writers.lookup E = none →
      ∀ writer ∈ closedFor E sink, writer.path ≠ newPath io E sink)
    (failed : (writeEvent io call).run sink = (.error error, t)) :
    closedFor E t = closedFor E sink ∧ Legible disk E t := by
  obtain ⟨closed, file⟩ := failed_write_file failed
  have same : closedFor E t = closedFor E sink := by rw [closedFor, closedFor, closed]
  -- a path is as it was, or it cannot be read and no writer was closed under it
  have files : ∀ p, t.disk.table? p = sink.disk.table? p ∨
      (t.disk.table? p = none ∧ ∀ writer ∈ closedFor E sink, writer.path ≠ p) := by
    intro p
    rcases file with kept | ⟨absent, created⟩
    · left
      rw [Disk.table?, Disk.table?, kept]
    · by_cases here : p = newPath io call.eventType sink
      · subst here
        right
        refine ⟨by rw [Disk.table?, created, Disk.create_file], fun writer member path => ?_⟩
        have named : call.eventType = E :=
          (congrArg Path.eventType (path.symm.trans (closedFor_path member)))
        subst named
        exact unused rfl absent writer member path
      · left
        rw [Disk.table?, Disk.table?, created, Disk.create, Disk.put_file_other _ _ here]
  refine ⟨same, ⟨by rw [same]; exact legible.apart, fun writer member => ?_, fun name absent => ?_⟩⟩
  · rw [same] at member
    rcases files writer.path with kept | ⟨-, free⟩
    · rw [kept]
      exact legible.closed writer member
    · exact absurd rfl (free writer member)
  · rcases files { eventType := E, fileName := name } with kept | ⟨none_, -⟩
    · rw [kept]
      rw [closedNames, same] at absent
      exact legible.others name absent
    · exact .inl none_

/-- What a close, however far it got, did for an event type: the writers it closed can be read, and
every other path is as it was. -/
theorem closeWriters_some {io : CloseIo} {r : Except String Unit} (keyed : Keyed sink)
    (run : (closeWriters io).run sink = (r, t)) (E : String) :
    ∃ now, closedFor E t = closedFor E sink ++ now ∧
      now.Sublist (sink.storage.writers.lookup E).toList ∧
      (∀ writer ∈ now, t.disk.table? writer.path = some writer.table) ∧
      ∀ p : Path, p.eventType = E → (∀ writer ∈ now, writer.path ≠ p) →
        t.disk.table? p = sink.disk.table? p := by
  obtain ⟨done, rest, split, -, state, -⟩ := closeWriters_run run
  refine ⟨(done.map Sigma.snd).filter (fun writer => writer.path.eventType = E), ?_, ?_, ?_, ?_⟩
  · rw [state, closedFor, foldl_finish_closed, List.filter_append]
    rfl
  · have all := @drained_filter io sink keyed E
    rw [split, List.map_append, List.filter_append] at all
    rw [← all]
    exact List.sublist_append_left _ _
  · intro writer member
    obtain ⟨entry, drained, rfl⟩ := List.mem_map.mp (List.mem_filter.mp member).1
    rw [Disk.table?, state, finished_file keyed split _ drained]
  · intro p named free
    have unused : LastWins.held ArrowWriter.path (done.map Sigma.snd) p = none := by
      refine LastWins.held_none (fun writer member path => ?_)
      refine free writer (List.mem_filter.mpr ⟨member, decide_eq_true ?_⟩) path
      rw [path, named]
    rw [Disk.table?, Disk.table?, state, finish_file, unused]
    rfl

theorem sublist_toList {α : Type} {x : Option α} {xs : List α} (part : xs.Sublist x.toList) :
    xs = [] ∨ xs = x.toList := by
  cases x with
  | none => exact .inl (List.sublist_nil.mp part)
  | some a => exact List.sublist_singleton.mp part

/-- Whatever writers a close got to, what it closed can be read and what it dropped cannot. -/
theorem closeWriters_legible {io : CloseIo} {r : Except String Unit}
    (consistent : Consistent disk sink) (apart : (paths E sink).Nodup)
    (run : (closeWriters io).run sink = (r, t)) :
    (closedFor E t = closedFor E sink ∨
      closedFor E t = closedFor E sink ++ (sink.storage.writers.lookup E).toList) ∧
    Legible disk E t := by
  obtain ⟨now, closed, part, finished, kept⟩ := closeWriters_some consistent.keyed run E
  have legible := consistent.legible apart
  have once : ((closedFor E sink ++ now).map ArrowWriter.path).Nodup :=
    apart.sublist (((List.Sublist.refl _).append part).map _)
  refine ⟨?_, ⟨by rw [closed]; exact once, ?_, ?_⟩⟩
  · rw [closed]
    rcases sublist_toList part with none_ | own
    · left
      rw [none_, List.append_nil]
    · right
      rw [own]
  · rw [closed]
    refine List.forall_mem_append.mpr ⟨fun writer before => ?_, finished⟩
    rw [kept writer.path (by rw [closedFor_path before]) (fun other inNow path => ?_)]
    · exact legible.closed writer before
    · rw [List.map_append, List.nodup_append] at once
      exact once.2.2 _ (List.mem_map_of_mem before) _ (List.mem_map_of_mem inNow) path.symm
  · intro name absent
    rw [closedNames, closed, List.map_append, List.mem_append, not_or] at absent
    rw [kept _ rfl (fun writer inNow path => ?_)]
    · exact legible.others name absent.1
    · exact absent.2 (List.mem_map.mpr ⟨writer, inNow, by rw [path]⟩)

/-- A call that failed after calls that did not. -/
theorem failed_legible {calls : List SinkCall} {call : SinkCall} {error : String}
    (done : (perform calls).run (freshOn disk) = (.ok (), sink))
    (apart : (openings E 0 false (calls ++ [call])).Nodup)
    (failed : call.run.run sink = (.error error, t)) :
    (closedFor E t = closedFor E sink ∨
      closedFor E t = closedFor E sink ++ (sink.storage.writers.lookup E).toList) ∧
    Legible disk E t := by
  have opened := openings_append (keyed_freshOn disk) done E [call]
  have fresh_ : openings E (freshOn disk).storage.fileSetId
      ((freshOn disk).storage.writers.lookup E).isSome = openings E 0 false := rfl
  rw [fresh_] at opened
  rw [opened] at apart
  have once := paths_once done (List.nodup_append.mp apart).1
  have consistent := perform_consistent (consistent_freshOn disk) done
  cases call with
  | writeEvent io call =>
      refine (failed_write_legible (consistent.legible once) ?_ failed).imp .inl id
      intro own absent writer member path
      have new : openings E sink.storage.fileSetId (sink.storage.writers.lookup E).isSome
          [.writeEvent io call] = [(io.timestampMillis, sink.storage.fileSetId)] := by
        simp [openings, own, absent]
      rw [new, ← setPath_nodup (E := E), List.map_append, ← paths_openings done] at apart
      have used : writer.path ∈ paths E sink :=
        List.mem_map_of_mem (List.mem_append_left _ member)
      exact (List.nodup_append.mp apart).2.2 _ used _ (List.mem_singleton.mpr rfl) path
  | closeWriters io => exact closeWriters_legible consistent once failed
  | rotateWriters io =>
      obtain ⟨u, closes, closed, disk_, -⟩ := rotateWriters_run failed
      obtain ⟨which, legible⟩ := closeWriters_legible consistent once closes
      have same : closedFor E t = closedFor E u := by rw [closedFor, closedFor, closed]
      refine ⟨by rw [same]; exact which, ?_, ?_, ?_⟩
      · rw [same]
        exact legible.apart
      · rw [same, disk_]
        exact legible.closed
      · rw [closedNames, same, disk_]
        exact legible.others

end PolymarketIndexer.ParquetStorage
