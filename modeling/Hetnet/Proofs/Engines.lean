import Mathlib
import Hetnet.Engine
import Hetnet.Proofs.BuiltGraphs
import Hetnet.Proofs.Requests

/-!
# Engines

An engine is made from settings in which no size is zero, and made of nothing else than what
it was given (`Engine.create_eq_ok_iff`). It has no sink of its own, and a built graph can
be read in every direction, so what an engine on such a graph needs to answer a
request are known nodes, settings in order and room for the trace.
-/

namespace Hetnet

namespace EngineSettings

theorem checkSize_eq_ok (name : String) (size : Nat) : checkSize name size = .ok () ↔ size ≠ 0 := by
  rw [checkSize]
  split
  · next h => exact iff_of_false (fun heq => by cases heq) fun hne => hne h
  · next h => exact iff_of_true rfl h

theorem validate_eq_ok {settings : EngineSettings} :
    settings.validate = .ok () ↔
      settings.threads ≠ 0 ∧ settings.schemaPartitions ≠ 0 ∧ settings.schemaThreads ≠ 0 := by
  rw [← checkSize_eq_ok "threads", ← checkSize_eq_ok "schema_partitions",
    ← checkSize_eq_ok "schema_threads", validate]
  cases checkSize "threads" settings.threads with
  | error cause => exact iff_of_false (fun heq => by cases heq) fun h => by cases h.1
  | ok _ =>
      cases checkSize "schema_partitions" settings.schemaPartitions with
      | error cause => exact iff_of_false (fun heq => by cases heq) fun h => by cases h.2.1
      | ok _ => exact ⟨fun h => ⟨rfl, rfl, h⟩, fun h => h.2.2⟩

end EngineSettings

theorem WorkerPool.create_eq_ok_iff {threads : Nat} {pool : WorkerPool} :
    WorkerPool.create threads = .ok pool ↔ pool.threads = threads := by
  obtain ⟨size, hsize⟩ := pool
  rw [WorkerPool.create]
  split
  · simp [eq_comm]
  · next h =>
      refine iff_of_false (fun heq => by cases heq) fun heq => h ?_
      exact lt_of_lt_of_eq hsize heq

namespace Engine

variable {network : Network} {settings : EngineSettings} {reports : Reporting} {e : Engine}

/-- An engine is made exactly from settings in order, and it is what it was made from. -/
theorem create_eq_ok_iff : create network settings reports = .ok e ↔
    settings.validate = .ok () ∧ e.network = network ∧ e.settings = settings ∧
      e.pool.threads = settings.threads ∧ e.schemaPool.threads = settings.schemaThreads ∧
        e.reports = reports := by
  rw [← WorkerPool.create_eq_ok_iff, ← WorkerPool.create_eq_ok_iff, create]
  cases settings.validate with
  | error cause => exact iff_of_false (fun heq => by cases heq) fun h => by cases h.1
  | ok _ =>
      cases WorkerPool.create settings.threads with
      | error cause => exact iff_of_false (fun heq => by cases heq) fun h => by cases h.2.2.2.1
      | ok pool =>
          cases WorkerPool.create settings.schemaThreads with
          | error cause =>
              exact iff_of_false (fun heq => by cases heq) fun h => by cases h.2.2.2.2.1
          | ok schemaPool =>
              show Except.ok (Engine.mk network settings pool schemaPool reports) = .ok e ↔ _
              cases e
              simp [eq_comm]

/-- An engine on a built graph answers every request about known nodes. -/
theorem canAnswer_of_built {calls : List BuilderCall}
    (hcreate : create (GraphBuilder.ofCalls calls).build.network settings reports = .ok e)
    {search : SearchSettings} (hvalid : search.validate = .ok ())
    (hroom : Trace.reserve search.maxLength = .ok ()) {request : Request}
    (hknows : e.enumerator.Knows request) : e.enumerator.CanAnswer search request := by
  refine ⟨hvalid, hroom, hknows, ?_, fun sink hsink => by cases hsink⟩
  show e.network.Readable e.settings.direction
  rw [(create_eq_ok_iff.mp hcreate).2.1]
  exact GraphBuilder.readable_build _ _

/-- An engine on a graph of two nodes that are joined both ways, which walks against the
edges and extracts the schema in more blocks than there are nodes. -/
def loop : Engine where
  network := (GraphBuilder.ofCalls GraphBuilder.loop).build.network
  settings := { threads := 2, schemaPartitions := 5, direction := .incoming }
  pool := ⟨2, Nat.two_pos⟩
  schemaPool := .single
  reports := .lowest

theorem create_loop :
    create (GraphBuilder.ofCalls GraphBuilder.loop).build.network
      { threads := 2, schemaPartitions := 5, direction := .incoming } = .ok loop :=
  create_eq_ok_iff.mpr ⟨rfl, rfl, rfl, rfl, rfl, rfl⟩

end Engine

end Hetnet
