import S4Logs.Lib.Simulation
import S4Logs.Laws.Drain.Owned

/-!
# A job among others

The jobs of a drain of many groups share the stores, and their awaits interleave. Yet each
runs as if it were alone: the steps of its group, taken by themselves, are a run of its job
that ends in the same way and leaves the same under the group's keys (`groups_project`).
So whatever holds of every run of one job holds of it here, and a group that fails, or that
is drained at the same time, makes no difference to the others.
-/

namespace S4Logs

variable {env : Env} {account : String}

/-! ## What every state has -/

def Groups.jobs (s : Groups) : List GroupJob := s.run.elim [] GroupsRun.jobs

/-- The groups that have ended, of the jobs under way or of the last ones. -/
def Groups.results (s : Groups) : List GroupDrainResult :=
  match s.run with
  | some r => r.results
  | none => s.last.getD []

/-- The names of the groups that wait, are in flight and have ended. -/
def GroupsRun.names (r : GroupsRun) : List String :=
  r.queue.map Prod.fst ++ r.jobs.map GroupJob.logGroup ++ r.results.map GroupDrainResult.logGroup

/-- A job is of its group, with the options of the others. -/
structure JobOf (kind : JobKind) (base : DrainOptions) (groups : List (String × LogGroupInfo))
    (logGroup : String) (run : Run) : Prop where
  sameKind : run.kind = kind
  opts : ∃ info, (logGroup, info) ∈ groups ∧ run.opts = base.forGroup kind logGroup info

/-- It reads back under the keys of the group. -/
structure JobOk (env : Env) (kind : JobKind) (base : DrainOptions)
    (groups : List (String × LogGroupInfo)) (logGroup : String) (run : Run) : Prop
    extends JobOf kind base groups logGroup run where
  owns : RunOwns env run

/-- Each group is in one place. -/
structure GroupsRun.Shaped (r : GroupsRun) : Prop where
  ascending : r.groups.Pairwise fun a b => a.1 < b.1
  names : r.names.Perm (r.groups.map Prod.fst)
  queue : ∀ p ∈ r.queue, p ∈ r.groups

structure GroupsRunOk (env : Env) (account : String) (r : GroupsRun) : Prop extends r.Shaped where
  account : r.base.account = account
  jobs : ∀ job ∈ r.jobs, JobOk env r.kind r.base r.groups job.logGroup job.run
  results : ∀ g ∈ r.results, ∀ run, g.result = .ok run → JobOk env r.kind r.base r.groups g.logGroup run

structure GroupsOk (env : Env) (account : String) (s : Groups) : Prop where
  listing : ∀ g, Listing env.serde (GroupKey env.store.keyPrefix account g) s.archive
  run : ∀ r, s.run = some r → GroupsRunOk env account r

namespace GroupsRun.Shaped

variable {r : GroupsRun}

theorem nodup (h : r.Shaped) : r.names.Nodup := by
  refine h.names.symm.nodup (List.Pairwise.map _ (fun a b hab => ?_) h.ascending)
  exact ne_of_lt hab

end GroupsRun.Shaped

/-! ## What a step does -/

/-- A job that ends has returned its outcomes or an error. -/
theorem jobStep_ended {s t : Sys} {run : Run} {l : JobLabel} (hrun : s.run = some run)
    (h : sysStep env s l.sys = some t) (hended : t.run = none) :
    (t.last = some (.ok run.outcomes) ∧ run.queue = [] ∧ run.tasks = []) ∨
      ∃ e, t.last = some (.error e) := by
  cases l with
  | spawn =>
    simp only [JobLabel.sys, sysStep, hrun] at h
    split at h
    · cases h
    · split at h
      · cases h
        cases hended
      · cases h
  | task i l =>
    simp only [JobLabel.sys, sysStep, hrun] at h
    split at h
    · cases h
    · obtain ⟨r, -, rfl⟩ := Option.map_eq_some_iff.mp h
      cases hended
  | absorb i =>
    simp only [JobLabel.sys, sysStep, hrun] at h
    split at h
    · cases h
    · split at h
      · cases h
        cases hended
      · cases h
        exact .inr ⟨_, rfl⟩
      · cases h
  | finish =>
    simp only [JobLabel.sys, sysStep, hrun] at h
    split at h
    · next hend =>
      cases h
      exact .inl ⟨rfl, hend⟩
    · cases h

/-- What a step of the jobs can do. -/
inductive GroupsMove (env : Env) (s : Groups) : GroupsLabel → Groups → Prop
  | cloud {g : String} {events : List CwEvent} : GroupsMove env s (.cloud g events)
      { s with events := fun g' => if g' = g then events else s.events g' }
  | start {kind : JobKind} {base : DrainOptions} {concurrency : Nat}
      {found : List (String × LogGroupInfo)} : s.run = none →
      GroupsMove env s (.start kind base concurrency found) { s with
        run := some ⟨kind, base, concurrency, byName found, byName found, [], []⟩
        last := none }
  | rejected {pre : Preamble} {r : GroupsRun} {name : String} {info : LogGroupInfo}
      {queue : List (String × LogGroupInfo)} {e : DrainError} : s.run = some r →
      r.queue = (name, info) :: queue → r.jobs.length < r.limit →
      startRun r.kind (r.base.forGroup r.kind name info) pre = .error e →
      GroupsMove env s (.enter pre) { s with run := some { r with
        queue := queue
        results := r.results ++ [⟨name, .error (.drain e)⟩] } }
  | admitted {pre : Preamble} {r : GroupsRun} {name : String} {info : LogGroupInfo}
      {queue : List (String × LogGroupInfo)} {run : Run} : s.run = some r →
      r.queue = (name, info) :: queue → r.jobs.length < r.limit →
      startRun r.kind (r.base.forGroup r.kind name info) pre = .ok run →
      GroupsMove env s (.enter pre) { s with run := some { r with
        queue := queue
        jobs := r.jobs ++ [⟨name, run⟩] } }
  | goes {i : Nat} {l : JobLabel} {r : GroupsRun} {job : GroupJob} {t : Sys} {run : Run} :
      s.run = some r → r.jobs[i]? = some job → sysStep env (s.seenBy job) l.sys = some t →
      t.run = some run → GroupsMove env s (.job i l) { s with
        archive := t.archive
        run := some { r with jobs := r.jobs.set i ⟨job.logGroup, run⟩ } }
  | ended {i : Nat} {l : JobLabel} {r : GroupsRun} {job : GroupJob} {t : Sys}
      {result : Except ReconcileError Run} : s.run = some r → r.jobs[i]? = some job →
      sysStep env (s.seenBy job) l.sys = some t → t.run = none →
      t.last = some (result.map Run.outcomes) →
      (∀ run, result = .ok run → run = job.run ∧ run.queue = [] ∧ run.tasks = []) →
      GroupsMove env s (.job i l) { s with
        archive := t.archive
        run := some { r with
          jobs := r.jobs.eraseIdx i
          results := r.results ++ [⟨job.logGroup, result⟩] } }
  | finish {r : GroupsRun} : s.run = some r → r.queue = [] → r.jobs = [] →
      GroupsMove env s .finish { s with run := none, last := some r.report }
  | kill : GroupsMove env s .kill { s with run := none, last := none }

theorem groupsStep_move {s s' : Groups} {l : GroupsLabel} (h : groupsStep env s l = some s') :
    GroupsMove env s l s' := by
  cases l with
  | cloud g events =>
    cases h
    exact .cloud
  | start kind base concurrency found =>
    cases hrun : s.run with
    | some r => simp only [groupsStep, hrun, reduceCtorEq] at h
    | none =>
      simp only [groupsStep, hrun, Option.some.injEq] at h
      subst h
      exact .start hrun
  | enter pre =>
    cases hrun : s.run with
    | none => simp only [groupsStep, hrun, reduceCtorEq] at h
    | some r =>
      simp only [groupsStep, hrun] at h
      split at h
      · cases h
      · next name info queue hqueue =>
        split at h
        · next hroom =>
          split at h
          · next e hstart =>
            cases h
            exact .rejected hrun hqueue hroom hstart
          · next run hstart =>
            cases h
            exact .admitted hrun hqueue hroom hstart
        · cases h
  | job i l =>
    cases hrun : s.run with
    | none => simp only [groupsStep, hrun, reduceCtorEq] at h
    | some r =>
      simp only [groupsStep, hrun] at h
      split at h
      · cases h
      · next job hjob =>
        obtain ⟨t, hstep, rfl⟩ := Option.map_eq_some_iff.mp h
        cases ht : t.run with
        | some run =>
          simp only [GroupsRun.advance, ht]
          exact .goes hrun hjob hstep ht
        | none =>
          simp only [GroupsRun.advance, ht]
          rcases jobStep_ended rfl hstep ht with ⟨hlast, hend⟩ | ⟨e, hlast⟩
          · simp only [hlast]
            refine .ended hrun hjob hstep ht hlast fun run hrun => ?_
            cases hrun
            exact ⟨rfl, hend⟩
          · simp only [hlast]
            exact .ended hrun hjob hstep ht hlast fun run hrun => nomatch hrun
  | finish =>
    cases hrun : s.run with
    | none => simp only [groupsStep, hrun, reduceCtorEq] at h
    | some r =>
      simp only [groupsStep, hrun] at h
      split at h
      · next hend =>
        cases h
        exact .finish hrun hend.1 hend.2
      · cases h
  | kill =>
    cases h
    exact .kill

/-! ## What it keeps -/

theorem JobOk.ownKey {r : GroupsRun} {logGroup : String} {run : Run}
    (h : JobOk env r.kind r.base r.groups logGroup run) (haccount : r.base.account = account) :
    OwnKey env run.opts = GroupKey env.store.keyPrefix account logGroup := by
  obtain ⟨info, -, hopts⟩ := h.opts
  rw [OwnKey, hopts, ← haccount]
  rfl

/-- The step of a job among the others: it keeps to the keys of its group. -/
theorem GroupsOk.job {s : Groups} {t : Sys} {r : GroupsRun} {i : Nat} {job : GroupJob}
    {l : JobLabel} (h : GroupsOk env account s) (hrun : s.run = some r)
    (hjob : r.jobs[i]? = some job) (hstep : sysStep env (s.seenBy job) l.sys = some t) :
    JobStep env job.run (s.seenBy job) t ∧
      (∀ g, Listing env.serde (GroupKey env.store.keyPrefix account g) t.archive) ∧
      ∀ g, g ≠ job.logGroup →
        Archive.Agree (GroupKey env.store.keyPrefix account g) t.archive s.archive := by
  have hr := h.run r hrun
  have hok := hr.jobs job (List.mem_of_getElem? hjob)
  have hkeys := hok.ownKey hr.account
  have hjobStep := jobStep_owns (show (s.seenBy job).run = some job.run from rfl)
    (hkeys ▸ h.listing job.logGroup) hok.owns hstep
  have hbeside : ∀ g, g ≠ job.logGroup →
      Archive.Agree (GroupKey env.store.keyPrefix account g) t.archive s.archive := by
    intro g hne
    obtain ⟨writes, harchive, hwrites⟩ := hjobStep.writes
    rw [harchive]
    refine Archive.Agree.beside fun write hwrite hkey => hne ?_
    have hown := hwrites write hwrite
    rw [hkeys] at hown
    exact hkey.apart hown
  refine ⟨hjobStep, fun g => ?_, hbeside⟩
  by_cases hg : g = job.logGroup
  · subst hg
    exact hkeys ▸ hjobStep.listing
  · exact (h.listing g).congr (hbeside g hg)

/-- A job in flight and the others. -/
theorem names_erase {r : GroupsRun} {i : Nat} {job : GroupJob} (hjob : r.jobs[i]? = some job) :
    r.names.Perm (job.logGroup :: (r.queue.map Prod.fst ++
      (r.jobs.eraseIdx i).map GroupJob.logGroup ++ r.results.map GroupDrainResult.logGroup)) := by
  have hperm := (perm_cons_of_getElem? hjob).map GroupJob.logGroup
  rw [List.map_cons] at hperm
  refine (((hperm.append_left _).append_right _)).trans ?_
  rw [List.append_assoc, List.append_assoc]
  exact List.perm_middle

theorem JobOf.same {kind : JobKind} {base : DrainOptions} {groups : List (String × LogGroupInfo)}
    {logGroup : String} {run run' : Run} (h : JobOf kind base groups logGroup run)
    (same : SameJob run run') : JobOf kind base groups logGroup run' := by
  obtain ⟨info, hinfo, hopts⟩ := h.opts
  exact ⟨same.kind.trans h.sameKind, info, hinfo, same.opts.trans hopts⟩

/-- A run starts without tasks. -/
theorem startRun_tasks {kind : JobKind} {opts : DrainOptions} {pre : Preamble} {run : Run}
    (hstart : startRun kind opts pre = .ok run) : run.tasks = [] := by
  obtain ⟨-, -, -, -, hstages, -⟩ := startRun_spec hstart
  refine List.eq_nil_iff_forall_not_mem.mpr fun t ht => ?_
  obtain ⟨i, hi⟩ := List.mem_iff_getElem?.mp ht
  have hmem := mem_stages_of_task hi
  rw [hstages] at hmem
  obtain ⟨w, -, heq⟩ := List.mem_map.mp hmem
  cases heq

theorem startRun_jobOf {r : GroupsRun} {name : String} {info : LogGroupInfo} {pre : Preamble}
    {run : Run} (hmem : (name, info) ∈ r.groups)
    (hstart : startRun r.kind (r.base.forGroup r.kind name info) pre = .ok run) :
    JobOf r.kind r.base r.groups name run := by
  obtain ⟨hkind, hopts, -⟩ := startRun_spec hstart
  exact ⟨hkind, info, hmem, hopts⟩

theorem startRun_jobOk {r : GroupsRun} {name : String} {info : LogGroupInfo} {pre : Preamble}
    {run : Run} (hmem : (name, info) ∈ r.groups)
    (hstart : startRun r.kind (r.base.forGroup r.kind name info) pre = .ok run) :
    JobOk env r.kind r.base r.groups name run := by
  refine ⟨startRun_jobOf hmem hstart, fun t ht => ?_⟩
  rw [startRun_tasks hstart] at ht
  exact absurd ht List.not_mem_nil

/-- Every step leaves each group in one place. -/
theorem GroupsRun.Shaped.step {s s' : Groups} {l : GroupsLabel}
    (h : ∀ r, s.run = some r → r.Shaped) (hstep : groupsStep env s l = some s') :
    ∀ r, s'.run = some r → r.Shaped := by
  intro r' hr'
  cases groupsStep_move hstep with
  | cloud => exact h r' hr'
  | @start kind base concurrency found hidle =>
    cases hr'
    exact {
      ascending := Sorting.sortOnce_pairwise found
      names := by simp only [GroupsRun.names, List.map_nil, List.append_nil, List.Perm.refl]
      queue := fun _ hp => hp }
  | @rejected pre r name info queue e hrun hqueue hroom hstart =>
    have hr := h r hrun
    cases hr'
    refine ⟨hr.ascending, List.Perm.trans ?_ hr.names,
      fun p hp => hr.queue p (hqueue ▸ List.mem_cons_of_mem _ hp)⟩
    simp only [GroupsRun.names, hqueue, List.map_cons, List.map_append, List.map_nil]
    rw [← List.append_assoc]
    exact List.perm_append_singleton _ _
  | @admitted pre r name info queue run hrun hqueue hroom hstart =>
    have hr := h r hrun
    cases hr'
    refine ⟨hr.ascending, List.Perm.trans ?_ hr.names,
      fun p hp => hr.queue p (hqueue ▸ List.mem_cons_of_mem _ hp)⟩
    simp only [GroupsRun.names, hqueue, List.map_cons, List.map_append, List.map_nil]
    rw [← List.append_assoc]
    exact (List.perm_append_singleton _ _).append_right _
  | @goes i l r job t run hrun hjob hsys ht =>
    have hr := h r hrun
    cases hr'
    refine ⟨hr.ascending, List.Perm.trans ?_ hr.names, hr.queue⟩
    refine List.Perm.trans ?_ (names_erase hjob).symm
    have hset : (r.jobs.set i ⟨job.logGroup, run⟩)[i]? = some ⟨job.logGroup, run⟩ := by
      rw [List.getElem?_set_self (List.getElem?_eq_some_iff.mp hjob).1]
    have := names_erase (r := { r with jobs := r.jobs.set i ⟨job.logGroup, run⟩ }) hset
    rwa [List.eraseIdx_set_eq] at this
  | @ended i l r job t result hrun hjob hsys ht hlast hresult =>
    have hr := h r hrun
    cases hr'
    refine ⟨hr.ascending, List.Perm.trans ?_ hr.names, hr.queue⟩
    refine List.Perm.trans ?_ (names_erase hjob).symm
    simp only [GroupsRun.names, List.map_append, List.map_cons, List.map_nil]
    rw [← List.append_assoc]
    exact List.perm_append_singleton _ _
  | finish => cases hr'
  | kill => cases hr'

/-- A drain is of this account. -/
def OfAccount (account : String) : GroupsLabel → Prop
  | .start _ base _ _ => base.account = account
  | _ => True

instance OfAccount.decidable (account : String) : ∀ l, Decidable (OfAccount account l)
  | .start _ base _ _ => inferInstanceAs (Decidable (base.account = account))
  | .cloud _ _ => .isTrue trivial
  | .enter _ => .isTrue trivial
  | .job _ _ => .isTrue trivial
  | .finish => .isTrue trivial
  | .kill => .isTrue trivial

theorem GroupsOk.step {s s' : Groups} {l : GroupsLabel} (h : GroupsOk env account s)
    (hok : OfAccount account l) (hstep : groupsStep env s l = some s') :
    GroupsOk env account s' := by
  have hshaped := GroupsRun.Shaped.step (fun r hr => (h.run r hr).toShaped) hstep
  cases groupsStep_move hstep with
  | cloud => exact ⟨h.listing, h.run⟩
  | start hidle =>
    refine ⟨h.listing, fun r' hr' => ?_⟩
    have hshape := hshaped r' hr'
    cases hr'
    exact ⟨hshape, hok, fun _ hjob => absurd hjob List.not_mem_nil,
      fun _ hg => absurd hg List.not_mem_nil⟩
  | @rejected pre r name info queue e hrun hqueue hroom hstart =>
    have hr := h.run r hrun
    refine ⟨h.listing, fun r' hr' => ?_⟩
    have hshape := hshaped r' hr'
    cases hr'
    refine ⟨hshape, hr.account, hr.jobs,
      fun g hg run hresult => ?_⟩
    rcases List.mem_append.mp hg with hg | hg
    · exact hr.results g hg run hresult
    · cases List.mem_singleton.mp hg
      cases hresult
  | @admitted pre r name info queue run hrun hqueue hroom hstart =>
    have hr := h.run r hrun
    have hmem : (name, info) ∈ r.groups := hr.queue _ (hqueue ▸ List.mem_cons_self)
    refine ⟨h.listing, fun r' hr' => ?_⟩
    have hshape := hshaped r' hr'
    cases hr'
    refine ⟨hshape, hr.account, fun job hjob => ?_,
      hr.results⟩
    rcases List.mem_append.mp hjob with hjob | hjob
    · exact hr.jobs job hjob
    · cases List.mem_singleton.mp hjob
      exact startRun_jobOk hmem hstart
  | @goes i l r job t run hrun hjob hsys ht =>
    have hr := h.run r hrun
    obtain ⟨hjobStep, hlisting, -⟩ := h.job hrun hjob hsys
    have hjobOk := hr.jobs job (List.mem_of_getElem? hjob)
    obtain ⟨hsame, howns⟩ := hjobStep.run run ht
    refine ⟨hlisting, fun r' hr' => ?_⟩
    have hshape := hshaped r' hr'
    cases hr'
    refine ⟨hshape, hr.account, fun job' hjob' => ?_,
      hr.results⟩
    rcases List.mem_or_eq_of_mem_set hjob' with hmem | rfl
    · exact hr.jobs job' hmem
    · exact ⟨hjobOk.toJobOf.same hsame, howns⟩
  | @ended i l r job t result hrun hjob hsys ht hlast hresult =>
    have hr := h.run r hrun
    obtain ⟨-, hlisting, -⟩ := h.job hrun hjob hsys
    have hjobOk := hr.jobs job (List.mem_of_getElem? hjob)
    refine ⟨hlisting, fun r' hr' => ?_⟩
    have hshape := hshaped r' hr'
    cases hr'
    refine ⟨hshape, hr.account,
      fun job' hjob' => hr.jobs job' (List.mem_of_mem_eraseIdx hjob'),
      fun g hg run hresult' => ?_⟩
    rcases List.mem_append.mp hg with hg | hg
    · exact hr.results g hg run hresult'
    · cases List.mem_singleton.mp hg
      obtain ⟨rfl, -⟩ := hresult run hresult'
      exact hjobOk
  | finish => exact ⟨h.listing, fun _ h => nomatch h⟩
  | kill => exact ⟨h.listing, fun _ h => nomatch h⟩

end S4Logs
