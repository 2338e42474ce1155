import S4Logs.Drain.Concrete
import S4Logs.Laws.Drain.Received
import S4Logs.Laws.Gateway.Received

/-!
# Every data object stays inside its partition

The gateway buckets events one by one, and carries the bucket through a flush, a merge and
a replay; drain and reconcile cut windows at the end of the day and drop what lies outside.
Whichever writer stores a data object, its records were received for the log group of its
location and are of its date.
-/

namespace S4Logs

/-- In every run of the gateway and of jobs, every data object that landed or whose PUT is
under way is inside its partition. What the gateway received is what was pushed, and what a
replay read; where a crash only loses octets, that was pushed too. What an object key is
written with by a job is such a data object, or a sidecar. -/
theorem partition_kept :
    (∀ (m : BufferManager) (labels : List GatewayLabel) (s : Gateway),
      LTS.exec (gatewayStep m) Gateway.start labels = some s → ∀ o ∈ s.objects ++ s.underWay,
        InPartition m.lib m.cfg.account (fun logGroup r => ⟨logGroup, r⟩ ∈
          LTS.seen (gatewayStep m) (Gateway.receives m) Gateway.start labels) o) ∧
    (∀ (m : BufferManager) (labels : List GatewayLabel) (s : Gateway), m.entries.Sealed →
      LTS.Along (gatewayStep m) (CrashesCut m) Gateway.start labels →
      LTS.exec (gatewayStep m) Gateway.start labels = some s → ∀ o ∈ s.objects ++ s.underWay,
        InPartition m.lib m.cfg.account (fun logGroup r => Pushed labels ⟨logGroup, r⟩) o) ∧
    (∀ (env : Env) (s t : Sys) (labels : List SysLabel) (run : Run), s.run = none →
      LTS.exec (sysStep env) s labels = some t → t.run = some run →
      (∀ o ∈ run.underWay, InPartition env.lib run.opts.account (fun logGroup r => ∃ ev,
        (logGroup, ev) ∈ LTS.seen (sysStep env) Sys.receives s labels ∧ ev.toRecord = r) o) ∧
      ∀ task ∈ run.tasks, ∀ l p' writes, taskStep env run.opts run.shards task.window t.archive
        t.events task.phase l = some (p', writes) → ∀ key body, .object key body ∈ writes →
        (∃ o ∈ run.underWay, key = o.1.dataKey env.store.keyPrefix ∧ body = o.2.body) ∨
          ∃ loc : ChunkLocation, key = loc.indexKey env.store.keyPrefix ∨
            key = loc.tsIndexKey env.store.keyPrefix) := by
  refine ⟨fun m labels s run o ho => ?_, fun m labels s hsealed hcut run o ho => ?_,
    fun env s t labels run hidle hrun hunder => ⟨?_, fun task htask l p' writes hstep key body hw => ?_⟩⟩
  · have hfrom := gateway_received run
    exact (List.mem_append.mp ho).elim (hfrom.objects o) (hfrom.underWay o)
  · have hfrom := (gateway_traced hsealed hcut run).origins
    exact (List.mem_append.mp ho).elim (hfrom.objects o) (hfrom.underWay o)
  · exact (jobs_received hidle hrun run hunder).underWay
  · refine (object_written hstep hw).imp_left fun ⟨o, ho, hkey⟩ => ⟨o, ?_, hkey⟩
    exact List.mem_flatMap.mpr ⟨task, htask, ho⟩

instance CutLaw.decidable (d : Disk) (after : List (String × Bytes)) : Decidable (CutLaw d after) :=
  inferInstanceAs (Decidable (∀ e ∈ after, ∃ f ∈ d.files ++ d.unlinked, e.1 = f.1 ∧ e.2 <+: f.2.data))

instance CrashesCut.decidable (m : BufferManager) (s : Gateway) :
    ∀ l, Decidable (CrashesCut m s l)
  | .crash during ops _ after => inferInstanceAs (Decidable (CutLaw (s.diskAt m during ops) after))
  | .boot => inferInstanceAs (Decidable True)
  | .call _ _ => inferInstanceAs (Decidable True)
  | .act _ _ => inferInstanceAs (Decidable True)
  | .reply _ => inferInstanceAs (Decidable True)
  | .drop _ _ => inferInstanceAs (Decidable True)

namespace Concrete

/-- The process crashes with half a line more on the disk than was pushed, and what a replay
reads is flushed together with a batch of the next day. -/
def replayedDays : List GatewayLabel :=
  started ++ pushed 1 [input 0 "a"] [io "u1"] ++
    [.call 2 (.push "/g" "s" [input 0 "b"]), .act 2 (.reserve []),
      .crash (some (2, .append [] [io "u2"] none)) 1 []
        [(daySegment "u1", dayLine "a" ++ (dayLine "b").take 20)],
      .boot, .act 0 (.replay [] [io "u3"] none []), .act 0 .flushed, .reply 0] ++
    pushed 1 [input 1 "c"] [io "u4"] ++ [.call 2 .flushAll, .act 2 (.take [] 0)] ++
    stored 2 "x" ++ stored 2 "y"

/-- A page with an event outside the window, up to the PUT of the other one. -/
def firstPut : List SysLabel :=
  [.start .drain smallObjects (preamble []), .spawn, .task 0 (.get true),
    .task 0 (.page 0 (some ⟨[eventAt dayMs "b", eventAt 5 "a"], none⟩)), .task 0 .event,
    .task 0 .event]

end Concrete

open Concrete in
/-- Two days, one recovered from the log, and a window with a stray event. -/
theorem partition_kept_replayed : (∃ s : Gateway, s.objects.length = 2 ∧ ∀ o ∈ s.objects,
      InPartition lib "000000000000" (fun logGroup r => Pushed replayedDays ⟨logGroup, r⟩) o) ∧
    ∃ run : Run, run.underWay.length = 1 ∧ ∀ o ∈ run.underWay,
      InPartition lib "123456789012" (fun logGroup r => ∃ ev, (logGroup, ev) ∈
        LTS.seen (sysStep jobEnv) Sys.receives (system [] []) firstPut ∧ ev.toRecord = r) o := by
  obtain ⟨-, hpushed, hjobs⟩ := partition_kept
  constructor
  · have hcheck : LTS.replay (gatewayStep (gateway (some "/wal"))) (CrashesCut (gateway (some "/wal")))
        Gateway.start replayedDays (fun s => s.objects.length == 2) = true := by
      decide +kernel
    obtain ⟨halong, hobjects⟩ := Bool.and_eq_true_iff.mp hcheck
    cases hrun : LTS.exec (gatewayStep (gateway (some "/wal"))) Gateway.start replayedDays with
    | none =>
      rw [hrun] at hobjects
      cases hobjects
    | some s =>
      rw [hrun] at hobjects
      refine ⟨s, eq_of_beq hobjects, fun o ho => ?_⟩
      exact hpushed _ _ s entries_sealed (of_decide_eq_true halong) hrun o (List.mem_append_left _ ho)
  · have hcheck : ((LTS.exec (sysStep jobEnv) (system [] []) firstPut).bind Sys.run).elim false
        (fun run => run.underWay.length == 1 && run.opts.account == "123456789012") = true := by
      decide +kernel
    cases hrun : LTS.exec (sysStep jobEnv) (system [] []) firstPut with
    | none =>
      rw [hrun] at hcheck
      cases hcheck
    | some t =>
      rw [hrun, Option.bind_some] at hcheck
      cases hunder : t.run with
      | none =>
        rw [hunder] at hcheck
        cases hcheck
      | some run =>
        rw [hunder, Option.elim_some, Bool.and_eq_true, beq_iff_eq, beq_iff_eq] at hcheck
        refine ⟨run, hcheck.1, ?_⟩
        rw [← hcheck.2]
        exact (hjobs jobEnv (system [] []) t firstPut run rfl hrun hunder).1

end S4Logs
