import S4Logs.Laws.Drain.Groups
import S4Logs.Laws.Drain.Sharded

/-!
# Each group alone

What one group makes of a run of many is a run of its own job: the changes of its events,
its start, and the steps of its job, in the order in which they came.
-/

namespace S4Logs

variable {env : Env} {account g : String}

/-- What one group sees of a step. -/
def Groups.labelsOf (g : String) (s : Groups) : GroupsLabel → List SysLabel
  | .cloud logGroup events => if logGroup = g then [.cloud events] else []
  | .start _ _ _ _ => []
  | .enter pre =>
    match s.run with
    | none => []
    | some r =>
      match r.queue with
      | [] => []
      | (name, info) :: _ =>
        if name = g then [.start r.kind (r.base.forGroup r.kind name info) pre] else []
  | .job i l =>
    match s.run with
    | none => []
    | some r =>
      match r.jobs[i]? with
      | none => []
      | some job => if job.logGroup = g then [l.sys] else []
  | .finish => []
  | .kill => [.kill]

/-- The system of the group's own job shows what the many have of the group. -/
structure Shows (env : Env) (account g : String) (s : Groups) (t : Sys) : Prop where
  events : t.events = s.events g
  archive : Archive.Agree (GroupKey env.store.keyPrefix account g) s.archive t.archive
  flying : ∀ job ∈ s.jobs, job.logGroup = g → t.run = some job.run
  idle : (∀ job ∈ s.jobs, job.logGroup ≠ g) → t.run = none
  settled : ∀ r ∈ s.results, r.logGroup = g → t.last = some (r.result.map Run.outcomes)

/-- What is assumed of each group's part of a step. It sees the events and the run of
the group's own job. -/
def EachPart (okPart : String → Sys → SysLabel → Prop) (s : Groups) (l : GroupsLabel) : Prop :=
  ∀ g, ∀ part ∈ s.labelsOf g l, ∀ t : Sys, t.events = s.events g →
    (∀ job ∈ s.jobs, job.logGroup = g → t.run = some job.run) → okPart g t part

theorem Groups.jobs_of_run {s : Groups} {r : GroupsRun} (h : s.run = some r) : s.jobs = r.jobs := by
  rw [Groups.jobs, h, Option.elim_some]

theorem Groups.results_of_run {s : Groups} {r : GroupsRun} (h : s.run = some r) :
    s.results = r.results := by
  rw [Groups.results, h]

theorem Groups.jobs_of_idle {s : Groups} (h : s.run = none) : s.jobs = [] := by
  rw [Groups.jobs, h, Option.elim_none]

namespace GroupsRunOk

variable {r : GroupsRun}

/-- The group at the head of the queue is nowhere else. -/
theorem waiting {info : LogGroupInfo} {queue : List (String × LogGroupInfo)}
    (h : GroupsRunOk env account r) (hqueue : r.queue = (g, info) :: queue) :
    (∀ job ∈ r.jobs, job.logGroup ≠ g) ∧ ∀ res ∈ r.results, res.logGroup ≠ g := by
  have hnodup := h.nodup
  simp only [GroupsRun.names, hqueue, List.map_cons, List.cons_append, List.nodup_cons,
    List.mem_append, not_or] at hnodup
  obtain ⟨⟨⟨-, hjobs⟩, hresults⟩, -⟩ := hnodup
  exact ⟨fun job hjob heq => hjobs (heq ▸ List.mem_map_of_mem hjob),
    fun res hres heq => hresults (heq ▸ List.mem_map_of_mem hres)⟩

/-- A group in flight is nowhere else. -/
theorem inFlight {i : Nat} {job : GroupJob} (h : GroupsRunOk env account r)
    (hjob : r.jobs[i]? = some job) : (∀ job' ∈ r.jobs.eraseIdx i, job'.logGroup ≠ job.logGroup) ∧
      ∀ res ∈ r.results, res.logGroup ≠ job.logGroup := by
  have hnodup := (names_erase hjob).nodup h.nodup
  simp only [List.nodup_cons, List.mem_append, not_or] at hnodup
  obtain ⟨⟨⟨-, hjobs⟩, hresults⟩, -⟩ := hnodup
  exact ⟨fun job' hjob' heq => hjobs (heq ▸ List.mem_map_of_mem hjob'),
    fun res hres heq => hresults (heq ▸ List.mem_map_of_mem hres)⟩

end GroupsRunOk

theorem mem_report (r : GroupsRun) {res : GroupDrainResult} :
    res ∈ r.report ↔ res ∈ r.results := by
  rw [GroupsRun.report]
  cases r.kind with
  | drain => exact Sorting.mem_sortBy
  | reconcile => exact .rfl

/-- The others stay as they are while a group's job is set. -/
theorem mem_set_of_ne {jobs : List GroupJob} {i : Nat} {job job' : GroupJob}
    (hjob : jobs[i]? = some job) (new : GroupJob) (hnew : new.logGroup = job.logGroup) (hg : job.logGroup ≠ g) :
    job' ∈ jobs.set i new ∧ job'.logGroup = g ↔ job' ∈ jobs ∧ job'.logGroup = g := by
  have hset := (perm_set_of_getElem? hjob new).mem_iff (a := job')
  have herase := (perm_cons_of_getElem? hjob).mem_iff (a := job')
  rw [hset, herase, List.mem_cons, List.mem_cons]
  constructor
  · rintro ⟨rfl | hmem, heq⟩
    · exact absurd (hnew.symm.trans heq) hg
    · exact ⟨.inr hmem, heq⟩
  · rintro ⟨rfl | hmem, heq⟩
    · exact absurd heq hg
    · exact ⟨.inr hmem, heq⟩

section Parts

variable {s s' : Groups} {t : Sys} {okPart : String → Sys → SysLabel → Prop}

/-- The group's own job takes the steps that the group sees, and shows the many after them. -/
def Followed (env : Env) (account g : String) (okPart : String → Sys → SysLabel → Prop)
    (t : Sys) (ls : List SysLabel) (s' : Groups) : Prop :=
  ∃ t', LTS.Along (sysStep env) (okPart g) t ls ∧ LTS.exec (sysStep env) t ls = some t' ∧
    Shows env account g s' t'

/-- The group's job cannot start. -/
theorem Shows.rejected {r : GroupsRun} {pre : Preamble} {info : LogGroupInfo}
    {queue : List (String × LogGroupInfo)} {e : DrainError} (hshows : Shows env account g s t)
    (hr : GroupsRunOk env account r) (hrun : s.run = some r) (hqueue : r.queue = (g, info) :: queue)
    (hstart : startRun r.kind (r.base.forGroup r.kind g info) pre = .error e)
    (hok : okPart g t (.start r.kind (r.base.forGroup r.kind g info) pre)) :
    Followed env account g okPart t [.start r.kind (r.base.forGroup r.kind g info) pre]
      { s with run := some { r with
        queue := queue
        results := r.results ++ [⟨g, .error (.drain e)⟩] } } := by
  obtain ⟨hjobs, hresults⟩ := hr.waiting hqueue
  have hidle : t.run = none := hshows.idle (by rwa [Groups.jobs_of_run hrun])
  refine LTS.Along.one rfl hok (u := { t with last := some (.error (.drain e)) })
    (by simp only [sysStep, hidle, hstart]) ⟨hshows.events, hshows.archive, ?_, fun _ => hidle, ?_⟩
  · intro job hjob heq
    exact absurd heq (hjobs job hjob)
  · intro res hres heq
    rcases List.mem_append.mp hres with hres | hres
    · exact absurd heq (hresults res hres)
    · rw [List.mem_singleton.mp hres]
      rfl

/-- The group's job starts. -/
theorem Shows.admitted {r : GroupsRun} {pre : Preamble} {info : LogGroupInfo}
    {queue : List (String × LogGroupInfo)} {run : Run} (hshows : Shows env account g s t)
    (hr : GroupsRunOk env account r) (hrun : s.run = some r) (hqueue : r.queue = (g, info) :: queue)
    (hstart : startRun r.kind (r.base.forGroup r.kind g info) pre = .ok run)
    (hok : okPart g t (.start r.kind (r.base.forGroup r.kind g info) pre)) :
    Followed env account g okPart t [.start r.kind (r.base.forGroup r.kind g info) pre]
      { s with run := some { r with queue := queue, jobs := r.jobs ++ [⟨g, run⟩] } } := by
  obtain ⟨hjobs, hresults⟩ := hr.waiting hqueue
  have hidle : t.run = none := hshows.idle (by rwa [Groups.jobs_of_run hrun])
  refine LTS.Along.one rfl hok (u := { t with run := some run, last := none })
    (by simp only [sysStep, hidle, hstart]) ⟨hshows.events, hshows.archive, ?_, ?_, ?_⟩
  · intro job hjob heq
    rcases List.mem_append.mp hjob with hjob | hjob
    · exact absurd heq (hjobs job hjob)
    · rw [List.mem_singleton.mp hjob]
  · intro hne
    exact absurd rfl (hne ⟨g, run⟩ (List.mem_append_right _ (List.mem_singleton_self _)))
  · intro res hres heq
    exact absurd heq (hresults res hres)

/-- A step of the group's job, in the many and alone. -/
theorem Shows.jobStep {r : GroupsRun} {i : Nat} {job : GroupJob} {l : JobLabel} {u : Sys}
    (hshows : Shows env account job.logGroup s t) (hr : GroupsRunOk env account r)
    (hrun : s.run = some r) (hjob : r.jobs[i]? = some job)
    (hstep : sysStep env (s.seenBy job) l.sys = some u) :
    ∃ u', sysStep env t l.sys = some u' ∧ u'.run = u.run ∧ u'.events = s.events job.logGroup ∧
      Archive.Agree (GroupKey env.store.keyPrefix account job.logGroup) u.archive u'.archive ∧
      (u.run = none → u'.last = u.last) := by
  have hmem := List.mem_of_getElem? hjob
  have hok := hr.jobs job hmem
  have ht : t.run = some job.run := hshows.flying job (by rwa [Groups.jobs_of_run hrun]) rfl
  have hkeys := hok.ownKey hr.account
  have hagree : Archive.Agree (OwnKey env job.run.opts) (s.seenBy job).archive t.archive := by
    rw [hkeys]
    exact hshows.archive
  obtain ⟨u', hstep', hrun', hevents', hagree', hlast'⟩ :=
    jobStep_congr rfl ht hshows.events.symm hagree hok.owns hstep
  rw [hkeys] at hagree'
  exact ⟨u', hstep', hrun', hevents'.trans hshows.events, hagree', hlast'⟩

theorem Shows.goes {r : GroupsRun} {i : Nat} {job : GroupJob} {l : JobLabel} {u : Sys} {run : Run}
    (hshows : Shows env account job.logGroup s t) (hr : GroupsRunOk env account r)
    (hrun : s.run = some r) (hjob : r.jobs[i]? = some job)
    (hstep : sysStep env (s.seenBy job) l.sys = some u) (hu : u.run = some run)
    (hok : okPart job.logGroup t l.sys) :
    Followed env account job.logGroup okPart t [l.sys] { s with
      archive := u.archive
      run := some { r with jobs := r.jobs.set i ⟨job.logGroup, run⟩ } } := by
  obtain ⟨hothers, hresults⟩ := hr.inFlight hjob
  obtain ⟨u', hstep', hrun', hevents, hagree, -⟩ := hshows.jobStep hr hrun hjob hstep
  have hmem := fun job' => (perm_set_of_getElem? hjob ⟨job.logGroup, run⟩).mem_iff (a := job')
  refine LTS.Along.one rfl hok hstep' ⟨hevents, hagree, ?_, ?_, ?_⟩
  · intro job' hjob' heq
    rcases List.mem_cons.mp ((hmem job').mp hjob') with rfl | hrest
    · exact hrun'.trans hu
    · exact absurd heq (hothers job' hrest)
  · intro hne
    exact absurd rfl (hne ⟨job.logGroup, run⟩ ((hmem _).mpr List.mem_cons_self))
  · intro res hres heq
    exact absurd heq (hresults res hres)

theorem Shows.ended {r : GroupsRun} {i : Nat} {job : GroupJob} {l : JobLabel} {u : Sys}
    {result : Except ReconcileError Run} (hshows : Shows env account job.logGroup s t)
    (hr : GroupsRunOk env account r) (hrun : s.run = some r) (hjob : r.jobs[i]? = some job)
    (hstep : sysStep env (s.seenBy job) l.sys = some u) (hu : u.run = none)
    (hlast : u.last = some (result.map Run.outcomes)) (hok : okPart job.logGroup t l.sys) :
    Followed env account job.logGroup okPart t [l.sys] { s with
      archive := u.archive
      run := some { r with
        jobs := r.jobs.eraseIdx i
        results := r.results ++ [⟨job.logGroup, result⟩] } } := by
  obtain ⟨hothers, hresults⟩ := hr.inFlight hjob
  obtain ⟨u', hstep', hrun', hevents, hagree, hlast'⟩ := hshows.jobStep hr hrun hjob hstep
  refine LTS.Along.one rfl hok hstep' ⟨hevents, hagree, ?_, fun _ => hrun'.trans hu, ?_⟩
  · intro job' hjob' heq
    exact absurd heq (hothers job' hjob')
  · intro res hres heq
    rcases List.mem_append.mp hres with hres | hres
    · exact absurd heq (hresults res hres)
    · rw [List.mem_singleton.mp hres]
      exact (hlast' hu).trans hlast

/-- The job of another group goes on, or ends. -/
theorem Shows.beside {r : GroupsRun} {jobs : List GroupJob} {results : List GroupDrainResult}
    {a : Archive} (hshows : Shows env account g s t) (hrun : s.run = some r)
    (harchive : Archive.Agree (GroupKey env.store.keyPrefix account g) a s.archive)
    (hjobs : ∀ job, job ∈ jobs ∧ job.logGroup = g ↔ job ∈ r.jobs ∧ job.logGroup = g)
    (hresults : ∀ res ∈ results, res.logGroup = g → res ∈ r.results)
    {queue : List (String × LogGroupInfo)} :
    Shows env account g { s with
      archive := a
      run := some { r with queue := queue, jobs := jobs, results := results } } t where
  events := hshows.events
  archive := harchive.trans hshows.archive
  flying job hjob heq := hshows.flying job
    (by rw [Groups.jobs_of_run hrun]; exact ((hjobs job).mp ⟨hjob, heq⟩).1) heq
  idle hne := hshows.idle fun job hjob heq => by
    rw [Groups.jobs_of_run hrun] at hjob
    exact hne job ((hjobs job).mpr ⟨hjob, heq⟩).1 heq
  settled res hres heq := hshows.settled res
    (by rw [Groups.results_of_run hrun]; exact hresults res hres heq) heq

theorem mem_append_of_ne {α : Type} (f : α → String) {as : List α} {a b : α} (hb : f b ≠ g) :
    a ∈ as ++ [b] ∧ f a = g ↔ a ∈ as ∧ f a = g := by
  rw [List.mem_append, List.mem_singleton]
  constructor
  · rintro ⟨hmem | rfl, heq⟩
    · exact ⟨hmem, heq⟩
    · exact absurd heq hb
  · exact fun h => ⟨.inl h.1, h.2⟩

/-- Every step of the many, seen from a group, is a step of its own job or none. -/
theorem groups_projects (env : Env) (account g : String)
    (okPart : String → Sys → SysLabel → Prop) :
    LTS.Projects (groupsStep env) (fun s l => OfAccount account l ∧ EachPart okPart s l)
      (sysStep env) (okPart g) (Groups.labelsOf g)
      fun s t => GroupsOk env account s ∧ Shows env account g s t := by
  rintro s l s' t ⟨h, hshows⟩ ⟨haccount, heach⟩ hstep
  have hok : ∀ part ∈ s.labelsOf g l, okPart g t part := fun part hpart =>
    heach g part hpart t hshows.events hshows.flying
  have hkeep := h.step haccount hstep
  suffices hfollows : Followed env account g okPart t (s.labelsOf g l) s' by
    obtain ⟨t', halong, hexec, hshows'⟩ := hfollows
    exact ⟨t', halong, hexec, hkeep, hshows'⟩
  cases groupsStep_move hstep with
  | @cloud logGroup events =>
    by_cases hg : logGroup = g
    · subst hg
      rw [Groups.labelsOf, if_pos rfl] at hok ⊢
      refine LTS.Along.one rfl (hok _ (List.mem_singleton_self _)) rfl
        ⟨(if_pos rfl).symm, hshows.archive, hshows.flying, hshows.idle, hshows.settled⟩
    · rw [Groups.labelsOf, if_neg hg]
      exact LTS.Along.still rfl ⟨hshows.events.trans (if_neg (Ne.symm hg)).symm, hshows.archive,
        hshows.flying, hshows.idle, hshows.settled⟩
  | start hidle =>
    have hnone : t.run = none := hshows.idle (by
      rw [Groups.jobs_of_idle hidle]
      exact fun job hjob => absurd hjob List.not_mem_nil)
    exact LTS.Along.still rfl ⟨hshows.events, hshows.archive,
      fun job hjob => absurd hjob List.not_mem_nil, fun _ => hnone,
      fun res hres => absurd hres List.not_mem_nil⟩
  | @rejected pre r name info queue e hrun hqueue hroom hstart =>
    simp only [Groups.labelsOf, hrun, hqueue] at hok ⊢
    by_cases hg : name = g
    · subst hg
      rw [if_pos rfl] at hok ⊢
      exact hshows.rejected (h.run r hrun) hrun hqueue hstart (hok _ (List.mem_singleton_self _))
    · rw [if_neg hg]
      exact LTS.Along.still rfl (hshows.beside hrun (.refl _) (fun _ => .rfl)
        fun res hres heq =>
          ((mem_append_of_ne GroupDrainResult.logGroup hg).mp ⟨hres, heq⟩).1)
  | @admitted pre r name info queue run hrun hqueue hroom hstart =>
    simp only [Groups.labelsOf, hrun, hqueue] at hok ⊢
    by_cases hg : name = g
    · subst hg
      rw [if_pos rfl] at hok ⊢
      exact hshows.admitted (h.run r hrun) hrun hqueue hstart (hok _ (List.mem_singleton_self _))
    · rw [if_neg hg]
      exact LTS.Along.still rfl (hshows.beside hrun (.refl _) (fun _ => mem_append_of_ne GroupJob.logGroup hg)
        fun _ hres _ => hres)
  | @goes i l r job u run hrun hjob hsys hu =>
    simp only [Groups.labelsOf, hrun, hjob] at hok ⊢
    by_cases hg : job.logGroup = g
    · subst hg
      rw [if_pos rfl] at hok ⊢
      exact hshows.goes (h.run r hrun) hrun hjob hsys hu (hok _ (List.mem_singleton_self _))
    · rw [if_neg hg]
      exact LTS.Along.still rfl (hshows.beside hrun ((h.job hrun hjob hsys).2.2 g (Ne.symm hg))
        (fun _ => mem_set_of_ne hjob ⟨job.logGroup, run⟩ rfl hg) fun _ hres _ => hres)
  | @ended i l r job u result hrun hjob hsys hu hlast hresult =>
    simp only [Groups.labelsOf, hrun, hjob] at hok ⊢
    by_cases hg : job.logGroup = g
    · subst hg
      rw [if_pos rfl] at hok ⊢
      exact hshows.ended (h.run r hrun) hrun hjob hsys hu hlast (hok _ (List.mem_singleton_self _))
    · rw [if_neg hg]
      have hothers : ∀ job', job' ∈ r.jobs.eraseIdx i ∧ job'.logGroup = g ↔
          job' ∈ r.jobs ∧ job'.logGroup = g := fun job' => by
        rw [(perm_cons_of_getElem? hjob).mem_iff, List.mem_cons]
        constructor
        · exact fun h => ⟨.inr h.1, h.2⟩
        · rintro ⟨rfl | hmem, heq⟩
          · exact absurd heq hg
          · exact ⟨hmem, heq⟩
      exact LTS.Along.still rfl (hshows.beside hrun ((h.job hrun hjob hsys).2.2 g (Ne.symm hg))
        hothers fun res hres heq =>
          ((mem_append_of_ne GroupDrainResult.logGroup hg).mp ⟨hres, heq⟩).1)
  | @finish r hrun hqueue hjobs =>
    have hnone : t.run = none := hshows.idle (by
      rw [Groups.jobs_of_run hrun, hjobs]
      exact fun job hjob => absurd hjob List.not_mem_nil)
    refine LTS.Along.still rfl ⟨hshows.events, hshows.archive,
      fun job hjob => absurd hjob List.not_mem_nil, fun _ => hnone, fun res hres => ?_⟩
    refine hshows.settled res ?_
    rw [Groups.results_of_run hrun]
    exact (mem_report r).mp hres
  | kill =>
    rw [Groups.labelsOf] at hok ⊢
    exact LTS.Along.one rfl (hok _ (List.mem_singleton_self _)) rfl
      ⟨hshows.events, hshows.archive, fun job hjob => absurd hjob List.not_mem_nil, fun _ => rfl,
        fun res hres => absurd hres List.not_mem_nil⟩

end Parts

/-- Before its first run the group's own job shows what is stored. -/
theorem Shows.start {s : Groups} {a : Archive} (hidle : s.run = none) (hlast : s.last = none)
    (hagree : Archive.Agree (GroupKey env.store.keyPrefix account g) s.archive a) :
    Shows env account g s ⟨s.events g, a, none, none⟩ where
  events := rfl
  archive := hagree
  flying job hjob := by
    rw [Groups.jobs_of_idle hidle] at hjob
    exact absurd hjob List.not_mem_nil
  idle _ := rfl
  settled res hres := by
    rw [Groups.results, hidle, hlast] at hres
    exact absurd hres List.not_mem_nil

theorem GroupsOk.start {s : Groups} (hidle : s.run = none)
    (hlisting : ∀ g, Listing env.serde (GroupKey env.store.keyPrefix account g) s.archive) :
    GroupsOk env account s where
  listing := hlisting
  run r hr := by
    rw [hidle] at hr
    cases hr

/-- What lies under the keys of no group. -/
def NoGroupKey (keyPrefix account key : String) : Prop := ∀ g, ¬ GroupKey keyPrefix account g key

theorem GroupsOk.beside {s s' : Groups} {l : GroupsLabel} (h : GroupsOk env account s)
    (hstep : groupsStep env s l = some s') :
    Archive.Agree (NoGroupKey env.store.keyPrefix account) s'.archive s.archive := by
  have hjob : ∀ {r : GroupsRun} {i : Nat} {job : GroupJob} {l : JobLabel} {t : Sys},
      s.run = some r → r.jobs[i]? = some job → sysStep env (s.seenBy job) l.sys = some t →
      Archive.Agree (NoGroupKey env.store.keyPrefix account) t.archive s.archive := by
    intro r i job l t hrun hjob hsys
    have hr := h.run r hrun
    have hkeys := (hr.jobs job (List.mem_of_getElem? hjob)).ownKey hr.account
    obtain ⟨writes, harchive, hwrites⟩ := (h.job hrun hjob hsys).1.writes
    rw [harchive]
    rw [hkeys] at hwrites
    exact Archive.Agree.beside fun write hwrite hno => hno _ (hwrites write hwrite)
  cases groupsStep_move hstep with
  | goes hrun hget hsys => exact hjob hrun hget hsys
  | ended hrun hget hsys => exact hjob hrun hget hsys
  | cloud => exact .refl _
  | start => exact .refl _
  | rejected => exact .refl _
  | admitted => exact .refl _
  | finish => exact .refl _
  | kill => exact .refl _

/-- Whatever the order in which the jobs of many groups go on, each group ends as it would
alone, where at first no manifest under its keys lists an object of another: the steps it sees
are a run of its own job over stores that hold the same under its keys, with the same result,
and at the end the stores still hold the same under them. What lies under the keys of no group
stays. -/
theorem each_group_alone (env : Env) (account : String) (s₀ s : Groups) (ls : List GroupsLabel)
    (hidle : s₀.run = none) (hlast : s₀.last = none)
    (hlisting : ∀ g, Listing env.serde (GroupKey env.store.keyPrefix account g) s₀.archive)
    (along : LTS.Along (groupsStep env) (fun _ => OfAccount account) s₀ ls)
    (hexec : LTS.exec (groupsStep env) s₀ ls = some s) :
    (∀ g a, Archive.Agree (GroupKey env.store.keyPrefix account g) s₀.archive a →
      ∃ t, LTS.exec (sysStep env) ⟨s₀.events g, a, none, none⟩
        (LTS.seen (groupsStep env) (Groups.labelsOf g) s₀ ls) = some t ∧
        Shows env account g s t) ∧
    Archive.Agree (NoGroupKey env.store.keyPrefix account) s.archive s₀.archive := by
  have hstart : GroupsOk env account s₀ := .start hidle hlisting
  constructor
  · intro g a hagree
    have halong : LTS.Along (groupsStep env)
        (fun s l => OfAccount account l ∧ EachPart (fun _ _ _ => True) s l) s₀ ls :=
      along.mono fun _ _ h => ⟨h, fun _ _ _ _ _ _ => trivial⟩
    obtain ⟨t, -, ht, -, hshows⟩ := (groups_projects env account g fun _ _ _ => True).exec
      ⟨hstart, Shows.start hidle hlast hagree⟩ halong hexec
    exact ⟨t, ht, hshows⟩
  · refine (along.invariant (I := fun _ s => GroupsOk env account s ∧
      Archive.Agree (NoGroupKey env.store.keyPrefix account) s.archive s₀.archive)
      ⟨hstart, .refl _⟩ (fun _ l s s' hs hok hstep => ?_) hexec).2
    exact ⟨hs.1.step hok hstep, (hs.1.beside hstep).trans hs.2⟩

namespace Concrete

/-- Two groups are found, and a job of each is under way. -/
def twoJobs : List GroupsLabel :=
  [.start .drain (jobOptions 2) 2 [("/h", ⟨none, none, 0⟩), ("/g", ⟨none, none, 0⟩)],
    .enter (preamble ["a", "b"]), .enter (preamble ["a", "b"])]

/-- A job of one day from its first window to its end, where a page holds these events. -/
def groupDay (i : Nat) (page : List CwEvent) : List GroupsLabel :=
  [.job i .spawn, .job i (.task 0 (.get true)), .job i (.task 0 (.page 0 (some ⟨page, none⟩)))] ++
    page.map (fun _ => .job i (.task 0 .event)) ++
    [.job i (.task 0 (.page 1 (some ⟨[], none⟩))), .job i (.task 0 .endPages)] ++
    page.flatMap (fun _ => List.replicate 3 (.job i (.task 0 (.put (some none))))) ++
    [.job i (.task 0 (.putManifest true 1)), .job i (.absorb 0), .job i .finish]

/-- The job of the second group fails while that of the first is under way. -/
def oneFails : List GroupsLabel :=
  twoJobs ++ [.job 0 .spawn, .job 1 .spawn, .job 1 (.task 0 (.get false)), .job 1 (.absorb 0)] ++
    (groupDay 0 [dayEvent "a"]).tail ++ [.finish]

/-- CloudWatch with this event in each group, and stores with nothing. -/
def someGroups : Groups :=
  ⟨fun _ => [dayEvent "a"], ⟨fun _ => none, fun _ => none⟩, none, none⟩

end Concrete

open Concrete in
/-- Two groups, one of which fails. -/
theorem each_group_alone_one_fails : ∃ s t,
    LTS.exec (groupsStep jobEnv) someGroups oneFails = some s ∧
      s.last.map (List.map GroupDrainResult.ok) = some [true, false] ∧
      LTS.exec (sysStep jobEnv) ⟨[dayEvent "a"], someGroups.archive, none, none⟩
        (LTS.seen (groupsStep jobEnv) (Groups.labelsOf "/g") someGroups oneFails) = some t ∧
      Shows jobEnv "123456789012" "/g" s t := by
  have hrun : (LTS.exec (groupsStep jobEnv) someGroups oneFails).map
      (fun s => s.last.map (List.map GroupDrainResult.ok)) = some (some [true, false]) := by
    decide +kernel
  obtain ⟨s, hs, hlast⟩ := Option.map_eq_some_iff.mp hrun
  obtain ⟨hparts, -⟩ := each_group_alone jobEnv "123456789012" someGroups s oneFails rfl rfl
    (fun _ _ _ _ _ hnone => nomatch hnone) (by decide +kernel) hs
  obtain ⟨t, ht, hshows⟩ := hparts "/g" someGroups.archive (.refl _)
  exact ⟨s, t, hs, hlast, ht, hshows⟩

end S4Logs
