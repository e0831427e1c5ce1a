import PolymarketIndexer.Storage.FileSets

/-! # The output directory in the middle of a history

A process that dies leaves its open writers behind as they are, and their files cannot be read.
Whatever was written before the last rotation or close is in files that can.
-/

namespace PolymarketIndexer.ParquetStorage

open SegmentedLog

/-- The calls up to the last rotation or close. -/
def settledCalls (calls : List SinkCall) : List SinkCall := calls.rdropWhile SinkCall.isWrite

/-- The writes since. -/
def recentCalls (calls : List SinkCall) : List SinkCall := calls.rtakeWhile SinkCall.isWrite

section Parts

variable {E : String} {calls : List SinkCall}

theorem writtenRows_append (more : List SinkCall) :
    writtenRows E (calls ++ more) = writtenRows E calls ++ writtenRows E more := by
  rw [writtenRows, List.filterMap_append, items_append]
  rfl

theorem split_calls (calls : List SinkCall) : settledCalls calls ++ recentCalls calls = calls := by
  induction calls using List.reverseRecOn with
  | nil => rfl
  | append_singleton calls call ih =>
      unfold settledCalls recentCalls at ih ⊢
      cases kind : call.isWrite with
      | true =>
          rw [List.rdropWhile_concat_pos _ _ _ kind, List.rtakeWhile_concat_pos _ _ _ kind,
            ← List.append_assoc, ih]
      | false =>
          have cuts : ¬call.isWrite = true := by rw [kind]; exact Bool.false_ne_true
          rw [List.rdropWhile_concat_neg _ _ _ cuts, List.rtakeWhile_concat_neg _ _ _ cuts,
            List.append_nil]

/-- One event type's log is cut where the calls are. -/
theorem settled_items (E : String) (calls : List SinkCall) :
    items ((calls.filterMap (logOp E)).rdropWhile Op.isItem) =
      writtenRows E (settledCalls calls) := by
  induction calls using List.reverseRecOn with
  | nil => rfl
  | append_singleton calls call ih =>
      rw [List.filterMap_append]
      cases call with
      | writeEvent io call =>
          rw [settledCalls, List.rdropWhile_concat_pos _ _ _ rfl]
          by_cases same : call.eventType = E
          · have own : [SinkCall.writeEvent io call].filterMap (logOp E) = [.item call.row] := by
              simp [logOp, same]
            rw [own, List.rdropWhile_concat_pos _ _ _ rfl]
            exact ih
          · have other : [SinkCall.writeEvent io call].filterMap (logOp E) = [] := by
              simp [logOp, same]
            rw [other, List.append_nil]
            exact ih
      | rotateWriters io =>
          have cut : [SinkCall.rotateWriters io].filterMap (logOp E) = [.cut] := rfl
          rw [cut, List.rdropWhile_concat_neg _ _ _ (by simp [Op.isItem]), settledCalls,
            List.rdropWhile_concat_neg _ _ _ (by simp [SinkCall.isWrite]), writtenRows,
            List.filterMap_append]
          rfl
      | closeWriters io =>
          have cut : [SinkCall.closeWriters io].filterMap (logOp E) = [.cut] := rfl
          rw [cut, List.rdropWhile_concat_neg _ _ _ (by simp [Op.isItem]), settledCalls,
            List.rdropWhile_concat_neg _ _ _ (by simp [SinkCall.isWrite]), writtenRows,
            List.filterMap_append]
          rfl

end Parts

section Disk

variable {E : String} {calls : List SinkCall} {disk : Disk} {t : ParquetSink}

theorem closedFor_path {writer : ArrowWriter} (member : writer ∈ closedFor E t) :
    writer.path = { eventType := E, fileName := writer.path.fileName } := by
  have named : writer.path.eventType = E := of_decide_eq_true (List.mem_filter.mp member).2
  rw [← named]

/-- The names under which the writers of an event type were closed. -/
def closedNames (E : String) (sink : ParquetSink) : List String :=
  (closedFor E sink).map (fun writer => writer.path.fileName)

/-- Of the files of an event type those of its closed writers can be read, and of the others only
what could be read before. -/
structure Legible (disk : Disk) (E : String) (sink : ParquetSink) : Prop where
  apart : ((closedFor E sink).map ArrowWriter.path).Nodup
  closed : ∀ writer ∈ closedFor E sink, sink.disk.table? writer.path = some writer.table
  others : ∀ name ∉ closedNames E sink,
    sink.disk.table? { eventType := E, fileName := name } = none ∨
      sink.disk.table? { eventType := E, fileName := name } =
        disk.table? { eventType := E, fileName := name }

theorem mem_closedNames {name : String} : name ∈ closedNames E t ↔
    ∃ writer ∈ closedFor E t, writer.path = { eventType := E, fileName := name } := by
  rw [closedNames, List.mem_map]
  constructor
  · rintro ⟨writer, member, rfl⟩
    exact ⟨writer, member, closedFor_path member⟩
  · rintro ⟨writer, member, path⟩
    exact ⟨writer, member, by rw [path]⟩

/-- Under a path that was used once a closed file is as it was closed. -/
theorem closed_table (consistent : Consistent disk t) (apart : (paths E t).Nodup)
    {writer : ArrowWriter} (member : writer ∈ closedFor E t) :
    t.disk.table? writer.path = some writer.table := by
  rw [paths, List.map_append, List.nodup_append] at apart
  obtain ⟨closedApart, -, apart⟩ := apart
  obtain ⟨inClosed, named⟩ := List.mem_filter.mp member
  have free : ∀ E' w, t.storage.writers.lookup E' = some w → w.path ≠ writer.path := by
    intro E' w lookup same
    have own : E' = E := by
      rw [← consistent.keyed E' w lookup, same]
      exact of_decide_eq_true named
    subst own
    refine apart writer.path (List.mem_map_of_mem member) w.path ?_ same.symm
    exact List.mem_map_of_mem (Option.mem_toList.mpr lookup)
  have unique : ∀ w ∈ t.closed, w.path = writer.path → w = writer := by
    intro w inClosed' same
    have member' : w ∈ closedFor E t := by
      refine List.mem_filter.mpr ⟨inClosed', ?_⟩
      rw [same]
      exact named
    exact List.inj_on_of_nodup_map closedApart member' member same
  rw [Disk.table?, consistent.finished writer.path free,
    LastWins.held_of_unique inClosed unique]
  rfl

/-- What was not closed cannot be read, or can be as before. -/
theorem unclosed_table (consistent : Consistent disk t) {name : String}
    (unclosed : name ∉ closedNames E t) :
    t.disk.table? { eventType := E, fileName := name } = none ∨
      t.disk.table? { eventType := E, fileName := name } =
        disk.table? { eventType := E, fileName := name } := by
  by_cases opened : ∃ E' w, t.storage.writers.lookup E' = some w ∧
      w.path = { eventType := E, fileName := name }
  · obtain ⟨E', w, lookup, path⟩ := opened
    obtain ⟨flushed, file⟩ := consistent.unfinished E' w lookup
    left
    rw [Disk.table?, ← path, file]
  · have free : ∀ E' w, t.storage.writers.lookup E' = some w →
        w.path ≠ { eventType := E, fileName := name } :=
      fun E' w lookup path => opened ⟨E', w, lookup, path⟩
    have unused : ∀ w ∈ t.closed, w.path ≠ { eventType := E, fileName := name } := by
      intro w inClosed path
      refine unclosed (mem_closedNames.mpr ⟨w, List.mem_filter.mpr ⟨inClosed, ?_⟩, path⟩)
      rw [path]
      exact decide_eq_true rfl
    right
    rw [Disk.table?, Disk.table?, consistent.finished _ free, LastWins.held_none unused]
    rfl

/-- A history that opened each path once. -/
theorem Consistent.legible (consistent : Consistent disk t) (apart : (paths E t).Nodup) :
    Legible disk E t where
  apart := by
    rw [paths, List.map_append] at apart
    exact (List.nodup_append.mp apart).1
  closed _ member := closed_table consistent apart member
  others _ unclosed := unclosed_table consistent unclosed

section Legible

variable (legible : Legible disk E t)

include legible

theorem Legible.names_nodup : (closedNames E t).Nodup := by
  refine List.Nodup.map_on ?_ (List.Nodup.of_map _ legible.apart)
  intro writer member other member' same
  refine List.inj_on_of_nodup_map legible.apart member member' ?_
  rw [closedFor_path member, closedFor_path member', same]

theorem Legible.stored {writer : ArrowWriter} (member : writer ∈ closedFor E t) :
    storedRows t.disk E writer.path.fileName = writer.rows := by
  rw [storedRows, ← closedFor_path member, legible.closed writer member]
  rfl

/-- The closed files hold what the closed writers held. -/
theorem Legible.rows : (closedNames E t).flatMap (storedRows t.disk E) =
    (closedFor E t).flatMap ArrowWriter.rows := by
  rw [closedNames, List.flatMap_map]
  exact List.flatMap_congr (fun writer member => legible.stored member)

theorem Legible.within : ∀ name ∈ closedNames E t,
    (storedRows t.disk E name).Sublist ((closedFor E t).flatMap ArrowWriter.rows) := by
  intro name member
  obtain ⟨writer, inClosed, rfl⟩ := List.mem_map.mp member
  rw [legible.stored inClosed, List.flatMap_def]
  exact List.sublist_flatten_of_mem (List.mem_map_of_mem inClosed)

theorem Legible.isSome {name : String} (member : name ∈ closedNames E t) :
    (t.disk.table? { eventType := E, fileName := name }).isSome := by
  obtain ⟨writer, inClosed, path⟩ := mem_closedNames.mp member
  rw [← path, legible.closed writer inClosed]
  rfl

end Legible

/-- Over an empty directory what can be read was closed. -/
theorem Legible.readable (legible : Legible Disk.empty E t) (name : String) :
    name ∈ closedNames E t ↔ (t.disk.table? { eventType := E, fileName := name }).isSome := by
  refine ⟨legible.isSome, fun readable => ?_⟩
  by_contra absent
  rcases legible.others name absent with none_ | before
  · rw [none_] at readable
    cases readable
  · rw [before] at readable
    cases readable

theorem Legible.lossless (legible : Legible Disk.empty E t) :
    Lossless t.disk E ((closedFor E t).flatMap ArrowWriter.rows) :=
  ⟨closedNames E t, legible.names_nodup, legible.readable, .of_eq legible.rows, legible.within⟩

theorem paths_openings (done : (perform calls).run (freshOn disk) = (.ok (), t)) :
    paths E t = (openings E 0 false calls).map (setPath E) := by
  have opened := perform_paths (keyed_freshOn disk) done E
  simpa [paths, closedFor, freshOn, new] using opened

theorem paths_once (done : (perform calls).run (freshOn disk) = (.ok (), t))
    (apart : (openings E 0 false calls).Nodup) : (paths E t).Nodup := by
  rw [paths_openings done]
  exact setPath_nodup.mpr apart

/-- What the closed writers held was written up to the last rotation or close. -/
theorem closed_settled (done : (perform calls).run (freshOn disk) = (.ok (), t)) :
    (closedFor E t).flatMap ArrowWriter.rows = writtenRows E (settledCalls calls) := by
  obtain ⟨-, refines⟩ := perform_refines (keyed_freshOn disk) done
  have finished := (parts_run (calls.filterMap (logOp E))).1
  have same : segments E (freshOn disk) = SegmentedLog.empty := rfl
  rw [← same, ← refines E, settled_items] at finished
  rw [← finished, segments, ← List.flatMap_def]

/-- After any calls that opened each path once. -/
theorem history_legible (done : (perform calls).run (freshOn disk) = (.ok (), t))
    (apart : (openings E 0 false calls).Nodup) : Legible disk E t :=
  (perform_consistent (consistent_freshOn disk) done).legible (paths_once done apart)

end Disk

end PolymarketIndexer.ParquetStorage
