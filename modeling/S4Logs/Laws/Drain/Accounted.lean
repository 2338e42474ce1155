import S4Logs.Laws.Drain.Alone

/-!
# What a drain of many groups reports

Never are more groups in flight than `concurrency` says, and in none of them more windows.
At the end there is one result for each group that was found, in the order of the names, and
the report of a group that did not fail accounts for each of its windows once.
-/

namespace S4Logs

variable {env : Env}

/-! ## One job -/

/-- A run is within its bound and holds each window once. -/
structure Run.Counted (run : Run) : Prop where
  room : run.tasks.length ≤ max run.opts.concurrency 1
  staged : run.Staged fun _ _ => True

theorem startRun_counted {kind : JobKind} {opts : DrainOptions} {pre : Preamble} {run : Run}
    (h : startRun kind opts pre = .ok run) : run.Counted where
  room := by rw [startRun_tasks h]; exact Nat.zero_le _
  staged := startRun_staged h fun _ _ => trivial

theorem jobStep_room {s t : Sys} {run run' : Run} {l : JobLabel} (hrun : s.run = some run)
    (hroom : run.tasks.length ≤ max run.opts.concurrency 1)
    (h : sysStep env s l.sys = some t) (ht : t.run = some run') :
    run'.tasks.length ≤ max run.opts.concurrency 1 := by
  cases l with
  | spawn =>
    simp only [JobLabel.sys, sysStep, hrun] at h
    split at h
    · cases h
    · split at h
      · next hless =>
        cases h
        cases ht
        rw [List.length_append]
        exact hless
      · cases h
  | task i l =>
    simp only [JobLabel.sys, sysStep, hrun] at h
    split at h
    · cases h
    · obtain ⟨r, -, rfl⟩ := Option.map_eq_some_iff.mp h
      cases ht
      rwa [List.length_set]
  | absorb i =>
    simp only [JobLabel.sys, sysStep, hrun] at h
    split at h
    · cases h
    · split at h
      · cases h
        cases ht
        exact Nat.le_trans (List.length_eraseIdx_le _ _) hroom
      · cases h
        cases ht
      · cases h
  | finish =>
    simp only [JobLabel.sys, sysStep, hrun] at h
    split at h
    · cases h
      cases ht
    · cases h

/-- A step of a job moves one window from one place to another. -/
theorem jobStep_counted {s t : Sys} {run run' : Run} {l : JobLabel} (hrun : s.run = some run)
    (hcounted : run.Counted) (h : sysStep env s l.sys = some t) (ht : t.run = some run') :
    SameJob run run' ∧ run'.Counted := by
  have hguard : TaskGuard (fun _ _ _ _ => True) s l.sys := by
    cases l with
    | task i l => exact fun _ _ _ _ => trivial
    | spawn => trivial
    | absorb i => trivial
    | finish => trivial
  have hroom := jobStep_room hrun hcounted.room h ht
  have hmove := sysStep_move hrun hguard h
  generalize l.sys = label at hmove
  cases hmove with
  | cloud =>
    rw [hrun] at ht
    cases ht
    exact ⟨.refl run, hcounted⟩
  | @window _ run'' w st st' writes rest job before after move =>
    cases ht
    refine ⟨job, ?_, hcounted.staged.move job before after (fun _ _ => trivial)
      fun _ _ _ _ _ _ => trivial⟩
    rw [job.opts]
    exact hroom
  | failed => cases ht
  | finish => cases ht
  | kill => cases ht

/-- A run that is at its end has closed each of its windows once. -/
theorem Run.Counted.closed {run : Run} (h : run.Counted) (hqueue : run.queue = [])
    (htasks : run.tasks = []) : (run.outcomes.map Prod.fst).Perm run.wins := by
  have hwindows := h.staged.windows
  simp only [Run.stages, hqueue, htasks, List.map_nil, List.nil_append, List.map_map] at hwindows
  exact hwindows

/-! ## The jobs of many groups -/

/-- The jobs under way are those of this start, within their bounds. -/
structure GroupsRun.Accounted (kind : JobKind) (base : DrainOptions) (concurrency : Nat)
    (found : List (String × LogGroupInfo)) (r : GroupsRun) : Prop extends r.Shaped where
  sameKind : r.kind = kind
  sameBase : r.base = base
  sameBound : r.concurrency = concurrency
  sameGroups : r.groups = byName found
  room : r.jobs.length ≤ r.limit
  /-- Reconcile takes the groups one after the other. -/
  order : r.kind = .reconcile → r.results.map GroupDrainResult.logGroup ++
    r.jobs.map GroupJob.logGroup ++ r.queue.map Prod.fst = r.groups.map Prod.fst
  jobs : ∀ job ∈ r.jobs, JobOf r.kind r.base r.groups job.logGroup job.run ∧ job.run.Counted
  results : ∀ g ∈ r.results, ∀ run, g.result = .ok run →
    JobOf r.kind r.base r.groups g.logGroup run ∧ (run.outcomes.map Prod.fst).Perm run.wins

/-- What is reported: one result for each group, in order, and each window once. -/
structure Reported (kind : JobKind) (base : DrainOptions) (found : List (String × LogGroupInfo))
    (results : List GroupDrainResult) : Prop where
  names : results.map GroupDrainResult.logGroup = (byName found).map Prod.fst
  results : ∀ g ∈ results, ∀ run, g.result = .ok run →
    JobOf kind base (byName found) g.logGroup run ∧ (run.outcomes.map Prod.fst).Perm run.wins

/-- The labels between one start and the next. -/
def GroupsLabel.Within : GroupsLabel → Prop
  | .start _ _ _ _ => False
  | _ => True

/-- One at most, and it goes. -/
theorem eraseIdx_of_length_le_one {α : Type} {as : List α} {i : Nat} {a : α}
    (hlength : as.length ≤ 1) (h : as[i]? = some a) : as = [a] ∧ as.eraseIdx i = [] := by
  obtain ⟨hi, rfl⟩ := List.getElem?_eq_some_iff.mp h
  match as, i, hi with
  | [a], 0, _ => exact ⟨rfl, rfl⟩
  | [a], i + 1, hi => exact absurd hi (by simp)
  | a :: b :: as, i, _ => exact absurd hlength (by simp)

section Steps

variable {kind : JobKind} {base : DrainOptions} {concurrency : Nat}
variable {found : List (String × LogGroupInfo)} {r : GroupsRun}

/-- Where there is room for a group of a reconcile, none is in flight. -/
theorem GroupsRun.alone (hkind : r.kind = .reconcile) (hroom : r.jobs.length < r.limit) :
    r.jobs = [] := by
  rw [GroupsRun.limit, hkind] at hroom
  exact List.length_eq_zero_iff.mp (Nat.lt_one_iff.mp hroom)

theorem GroupsRun.Accounted.report (h : r.Accounted kind base concurrency found)
    (hqueue : r.queue = []) (hjobs : r.jobs = []) : Reported kind base found r.report := by
  have hnames := h.names
  simp only [GroupsRun.names, hqueue, hjobs, List.map_nil, List.nil_append] at hnames
  refine ⟨?_, fun g hg run hrun => ?_⟩
  · rw [← h.sameGroups]
    cases hkind : r.kind with
    | reconcile =>
      have horder := h.order hkind
      rw [hqueue, hjobs, List.map_nil, List.map_nil, List.append_nil, List.append_nil] at horder
      rw [GroupsRun.report, hkind]
      exact horder
    | drain =>
      rw [GroupsRun.report, hkind]
      -- two lists of the same names, both ascending
      refine List.Perm.eq_of_pairwise
        (fun a b _ _ (hab : a ≤ b) (hba : b ≤ a) => le_antisymm hab hba) ?_ ?_
        (((Sorting.sortBy_perm r.results).map _).trans hnames)
      · exact List.pairwise_map.mpr (Sorting.sortBy_ascending r.results)
      · exact List.pairwise_map.mpr (h.ascending.imp le_of_lt)
  · rw [← h.sameKind, ← h.sameBase, ← h.sameGroups]
    exact h.results g ((mem_report r).mp hg) run hrun

theorem GroupsRun.Accounted.step {s s' : Groups} {l : GroupsLabel}
    (h : ∀ r, s.run = some r → r.Accounted kind base concurrency found) (hwithin : l.Within)
    (hstep : groupsStep env s l = some s') :
    ∀ r, s'.run = some r → r.Accounted kind base concurrency found := by
  have hshaped := GroupsRun.Shaped.step (fun r hr => (h r hr).toShaped) hstep
  intro r' hr'
  have hshape := hshaped r' hr'
  cases groupsStep_move hstep with
  | cloud => exact h r' hr'
  | start hidle => exact absurd hwithin not_false
  | @rejected pre r name info queue e hrun hqueue hroom hstart =>
    have hr := h r hrun
    cases hr'
    refine ⟨hshape, hr.sameKind, hr.sameBase, hr.sameBound, hr.sameGroups, hr.room,
      fun hkind => ?_, hr.jobs, fun g hg run hresult => ?_⟩
    · have horder := hr.order hkind
      have hnone : r.jobs = [] := GroupsRun.alone hkind hroom
      simpa only [hqueue, hnone, List.map_append, List.map_cons, List.map_nil, List.append_nil,
        List.append_assoc, List.singleton_append, List.nil_append] using horder
    · rcases List.mem_append.mp hg with hg | hg
      · exact hr.results g hg run hresult
      · cases List.mem_singleton.mp hg
        cases hresult
  | @admitted pre r name info queue run hrun hqueue hroom hstart =>
    have hr := h r hrun
    have hmem : (name, info) ∈ r.groups := hr.queue _ (hqueue ▸ List.mem_cons_self)
    cases hr'
    refine ⟨hshape, hr.sameKind, hr.sameBase, hr.sameBound, hr.sameGroups, ?_, fun hkind => ?_,
      fun job hjob => ?_, hr.results⟩
    · rw [List.length_append]
      exact hroom
    · have horder := hr.order hkind
      simpa only [hqueue, List.map_append, List.map_cons, List.map_nil, List.append_assoc,
        List.cons_append, List.nil_append] using horder
    · rcases List.mem_append.mp hjob with hjob | hjob
      · exact hr.jobs job hjob
      · cases List.mem_singleton.mp hjob
        exact ⟨startRun_jobOf hmem hstart, startRun_counted hstart⟩
  | @goes i l r job t run hrun hjob hsys ht =>
    have hr := h r hrun
    obtain ⟨hof, hcounted⟩ := hr.jobs job (List.mem_of_getElem? hjob)
    obtain ⟨hsame, hcounted'⟩ := jobStep_counted rfl hcounted hsys ht
    obtain ⟨hi, hget⟩ := List.getElem?_eq_some_iff.mp hjob
    cases hr'
    refine ⟨hshape, hr.sameKind, hr.sameBase, hr.sameBound, hr.sameGroups, ?_, fun hkind => ?_,
      fun job' hjob' => ?_, hr.results⟩
    · rw [List.length_set]
      exact hr.room
    · have hnames : (r.jobs.set i ⟨job.logGroup, run⟩).map GroupJob.logGroup =
          r.jobs.map GroupJob.logGroup := by
        have hi' : i < (r.jobs.map GroupJob.logGroup).length := by rwa [List.length_map]
        have hlogGroup : job.logGroup = (r.jobs.map GroupJob.logGroup)[i] := by
          rw [List.getElem_map, hget]
        rw [List.map_set, hlogGroup, List.set_getElem_self]
      rw [hnames]
      exact hr.order hkind
    · rcases List.mem_or_eq_of_mem_set hjob' with hmem | rfl
      · exact hr.jobs job' hmem
      · exact ⟨hof.same hsame, hcounted'⟩
  | @ended i l r job t result hrun hjob hsys ht hlast hresult =>
    have hr := h r hrun
    obtain ⟨hof, hcounted⟩ := hr.jobs job (List.mem_of_getElem? hjob)
    cases hr'
    refine ⟨hshape, hr.sameKind, hr.sameBase, hr.sameBound, hr.sameGroups, ?_, fun hkind => ?_,
      fun job' hjob' => hr.jobs job' (List.mem_of_mem_eraseIdx hjob'), fun g hg run hresult' => ?_⟩
    · exact Nat.le_trans (List.length_eraseIdx_le _ _) hr.room
    · have horder := hr.order hkind
      have hroom := hr.room
      rw [GroupsRun.limit, hkind] at hroom
      obtain ⟨hone, hnone⟩ := eraseIdx_of_length_le_one hroom hjob
      rw [hnone]
      rw [hone] at horder
      simpa only [List.map_append, List.map_cons, List.map_nil, List.append_nil,
        List.append_assoc] using horder
    · rcases List.mem_append.mp hg with hg | hg
      · exact hr.results g hg run hresult'
      · cases List.mem_singleton.mp hg
        obtain ⟨rfl, hqueue, htasks⟩ := hresult run hresult'
        exact ⟨hof, hcounted.closed hqueue htasks⟩
  | finish => cases hr'
  | kill => cases hr'

/-- Between two starts. -/
structure Groups.Accounted (kind : JobKind) (base : DrainOptions) (concurrency : Nat)
    (found : List (String × LogGroupInfo)) (s : Groups) : Prop where
  run : ∀ r, s.run = some r → r.Accounted kind base concurrency found
  last : ∀ results, s.last = some results → Reported kind base found results

theorem Groups.Accounted.start {s s' : Groups}
    (hstep : groupsStep env s (.start kind base concurrency found) = some s') :
    s'.Accounted kind base concurrency found := by
  cases groupsStep_move hstep with
  | start hidle =>
    refine ⟨fun r hr => ?_, fun _ h => nomatch h⟩
    cases hr
    exact {
      ascending := Sorting.sortOnce_pairwise found
      names := by simp only [GroupsRun.names, List.map_nil, List.append_nil, List.Perm.refl]
      queue := fun _ hp => hp
      sameKind := rfl
      sameBase := rfl
      sameBound := rfl
      sameGroups := rfl
      room := Nat.zero_le _
      order := fun _ => rfl
      jobs := fun _ hjob => absurd hjob List.not_mem_nil
      results := fun _ hg => absurd hg List.not_mem_nil }

theorem Groups.Accounted.step {s s' : Groups} {l : GroupsLabel}
    (h : s.Accounted kind base concurrency found) (hwithin : l.Within)
    (hstep : groupsStep env s l = some s') : s'.Accounted kind base concurrency found := by
  refine ⟨GroupsRun.Accounted.step h.run hwithin hstep, ?_⟩
  cases groupsStep_move hstep with
  | start hidle => exact absurd hwithin not_false
  | finish hrun hqueue hjobs =>
    intro results hresults
    cases hresults
    exact (h.run _ hrun).report hqueue hjobs
  | kill => exact fun _ h => nomatch h
  | cloud => exact h.last
  | rejected => exact h.last
  | admitted => exact h.last
  | goes => exact h.last
  | ended => exact h.last

end Steps

/-! ## The sums of a report -/

/-- A window is processed or skipped. -/
theorem DrainReport.absorb_windows (report : DrainReport) (o : WindowOutcome) :
    (report.absorb o).windowsProcessed + (report.absorb o).windowsSkipped =
      report.windowsProcessed + report.windowsSkipped + 1 ∧
    (report.absorb o).windowsTotal = report.windowsTotal := by
  unfold absorb
  split
  · exact ⟨rfl, rfl⟩
  · exact ⟨Nat.add_right_comm _ _ _, rfl⟩

theorem foldl_absorb_windows (outcomes : List WindowOutcome) : ∀ report : DrainReport,
    (outcomes.foldl DrainReport.absorb report).windowsProcessed +
        (outcomes.foldl DrainReport.absorb report).windowsSkipped =
      report.windowsProcessed + report.windowsSkipped + outcomes.length ∧
    (outcomes.foldl DrainReport.absorb report).windowsTotal = report.windowsTotal := by
  induction outcomes with
  | nil => exact fun _ => ⟨rfl, rfl⟩
  | cons o outcomes ih =>
    intro report
    obtain ⟨hcount, htotal⟩ := ih (report.absorb o)
    obtain ⟨hcount', htotal'⟩ := report.absorb_windows o
    rw [List.foldl_cons, List.length_cons]
    exact ⟨by omega, htotal.trans htotal'⟩

/-- The report of a run at its end: every window is processed or skipped. -/
def DrainReport.Adds (report : DrainReport) : Prop :=
  report.windowsProcessed + report.windowsSkipped = report.windowsTotal

theorem drainReport_adds {opts : DrainOptions} {wins : List Window}
    {outcomes : List (Window × WindowOutcome)} (h : (outcomes.map Prod.fst).Perm wins) :
    (drainReport opts wins outcomes).Adds := by
  obtain ⟨hcount, htotal⟩ := foldl_absorb_windows (outcomes.map Prod.snd) (.start opts wins)
  have hlength := h.length_eq
  rw [List.length_map] at hcount hlength
  rw [DrainReport.Adds, drainReport, hcount, htotal]
  simpa only [DrainReport.start, Nat.zero_add] using hlength

namespace MultiDrainReport

theorem foldl_add_adds {reports : List DrainReport} (h : ∀ r ∈ reports, r.Adds) :
    ∀ {agg : DrainReport}, agg.Adds → (reports.foldl add agg).Adds := by
  induction reports with
  | nil => exact fun hagg => hagg
  | cons r reports ih =>
    intro agg hagg
    have hr := h r List.mem_cons_self
    refine ih (fun r' hr' => h r' (List.mem_cons_of_mem _ hr')) ?_
    simp only [DrainReport.Adds, add] at hagg hr ⊢
    omega

theorem foldl_add_sums (reports : List DrainReport) : ∀ agg : DrainReport,
    (reports.foldl add agg).records = agg.records + (reports.map DrainReport.records).sum ∧
    (reports.foldl add agg).objectsWritten =
      agg.objectsWritten + (reports.map DrainReport.objectsWritten).sum := by
  induction reports with
  | nil => exact fun _ => ⟨rfl, rfl⟩
  | cons r reports ih =>
    intro agg
    obtain ⟨hrecords, hobjects⟩ := ih (add agg r)
    simp only [List.foldl_cons, List.map_cons, List.sum_cons]
    exact ⟨hrecords.trans (Nat.add_assoc _ _ _), hobjects.trans (Nat.add_assoc _ _ _)⟩

/-- A group fails or succeeds. -/
theorem length_failures_succeeded (multi : MultiDrainReport) :
    multi.failures.length + multi.succeeded.length = multi.groups.length := by
  obtain ⟨groups⟩ := multi
  induction groups with
  | nil => rfl
  | cons g groups ih =>
    obtain ⟨logGroup, e | run⟩ := g
    · simp only [failures, succeeded, List.filterMap_cons, GroupDrainResult.drained,
        List.length_cons] at ih ⊢
      omega
    · simp only [failures, succeeded, List.filterMap_cons, GroupDrainResult.drained,
        List.length_cons] at ih ⊢
      omega

theorem anyFailed_iff (multi : MultiDrainReport) : multi.anyFailed = true ↔ multi.failures ≠ [] := by
  obtain ⟨groups⟩ := multi
  induction groups with
  | nil => simp [anyFailed, failures]
  | cons g groups ih =>
    obtain ⟨logGroup, e | run⟩ := g
    · simp [anyFailed, failures, GroupDrainResult.ok]
    · simpa [anyFailed, failures, GroupDrainResult.ok] using ih

theorem succeeded_adds {kind : JobKind} {base : DrainOptions} {found : List (String × LogGroupInfo)}
    (multi : MultiDrainReport) (h : Reported kind base found multi.groups) :
    ∀ report ∈ multi.succeeded, report.Adds := by
  intro report hreport
  obtain ⟨g, hg, hdrained⟩ := List.mem_filterMap.mp hreport
  unfold GroupDrainResult.drained at hdrained
  split at hdrained
  · next run hrun =>
    cases hdrained
    exact drainReport_adds (h.results g hg run hrun).2
  · cases hdrained

end MultiDrainReport

/-- A drain or reconcile of many groups, from its start to any state before the next: the
groups and the windows in flight are within their bounds, and when it has returned there is
one result for each group, in the order of the names, whose outcomes are those of the windows
of its run, each once. So the report of each group that did not fail adds up, and so does the
aggregate. -/
theorem groups_reported (env : Env) (kind : JobKind) (base : DrainOptions) (concurrency : Nat)
    (found : List (String × LogGroupInfo)) (s₀ s₁ s : Groups)
    (hstart : groupsStep env s₀ (.start kind base concurrency found) = some s₁)
    (hreach : LTS.Reaches (groupsStep env) (fun _ l => l.Within) s₁ s) :
    (∀ r, s.run = some r → r.kind = kind ∧ r.concurrency = concurrency ∧
      r.jobs.length ≤ r.limit ∧ ∀ job ∈ r.jobs, job.run.tasks.length ≤ max base.concurrency 1) ∧
    ∀ results, s.last = some results → Reported kind base found results ∧
      let multi : MultiDrainReport := ⟨results⟩
      multi.failures.length + multi.succeeded.length = (byName found).length ∧
      (multi.anyFailed = true ↔ multi.failures ≠ []) ∧
      (∀ report ∈ multi.succeeded, report.Adds) ∧ multi.aggregate.Adds ∧
      multi.aggregate.records = (multi.succeeded.map DrainReport.records).sum ∧
      multi.aggregate.objectsWritten = (multi.succeeded.map DrainReport.objectsWritten).sum := by
  have hs := hreach.invariant (Groups.Accounted.start hstart)
    fun _ _ _ hI hok hstep => hI.step hok hstep
  refine ⟨fun r hr => ?_, fun results hresults => ?_⟩
  · have hacc := hs.run r hr
    refine ⟨hacc.sameKind, hacc.sameBound, hacc.room, fun job hjob => ?_⟩
    obtain ⟨hof, hcounted⟩ := hacc.jobs job hjob
    obtain ⟨info, -, hopts⟩ := hof.opts
    have hroom := hcounted.room
    rw [hopts, hacc.sameBase] at hroom
    exact hroom
  · have hrep := hs.last results hresults
    have hadds := MultiDrainReport.succeeded_adds ⟨results⟩ hrep
    have hsums := MultiDrainReport.foldl_add_sums (MultiDrainReport.succeeded ⟨results⟩)
    refine ⟨hrep, ?_, MultiDrainReport.anyFailed_iff _, hadds,
      MultiDrainReport.foldl_add_adds hadds rfl, (hsums _).1.trans (Nat.zero_add _),
      (hsums _).2.trans (Nat.zero_add _)⟩
    have hlength := congrArg List.length hrep.names
    rw [List.length_map, List.length_map] at hlength
    exact (MultiDrainReport.length_failures_succeeded _).trans hlength

instance GroupsLabel.Within.decidable : ∀ l : GroupsLabel, Decidable l.Within
  | .start _ _ _ _ => .isFalse not_false
  | .cloud _ _ => .isTrue trivial
  | .enter _ => .isTrue trivial
  | .job _ _ => .isTrue trivial
  | .finish => .isTrue trivial
  | .kill => .isTrue trivial

open Concrete in
/-- Two groups, one of which fails. -/
theorem groups_reported_one_fails : ∃ (s : Groups) (results : List GroupDrainResult),
    s.last = some results ∧ results.map GroupDrainResult.ok = [true, false] ∧
      Reported .drain (jobOptions 2) [("/h", ⟨none, none, 0⟩), ("/g", ⟨none, none, 0⟩)] results ∧
      (MultiDrainReport.mk results).aggregate.Adds := by
  have hrun : (LTS.exec (groupsStep jobEnv) someGroups oneFails).bind
      (fun s => s.last.map (List.map GroupDrainResult.ok)) = some [true, false] := by
    decide +kernel
  obtain ⟨s, hs, hlast⟩ := Option.bind_eq_some_iff.mp hrun
  obtain ⟨results, hresults, hok⟩ := Option.map_eq_some_iff.mp hlast
  obtain ⟨s₁, hstart, hrest⟩ := Option.bind_eq_some_iff.mp hs
  have hwithin : ∀ l ∈ oneFails.tail, l.Within := by decide +kernel
  obtain ⟨-, hreported⟩ := groups_reported jobEnv .drain (jobOptions 2) 2
    [("/h", ⟨none, none, 0⟩), ("/g", ⟨none, none, 0⟩)] someGroups s₁ s hstart
    (.of_exec (.of_mem fun _ => hwithin) hrest)
  obtain ⟨hrep, -, -, -, hadds, -⟩ := hreported results hresults
  exact ⟨s, results, hresults, hok, hrep, hadds⟩

end S4Logs
