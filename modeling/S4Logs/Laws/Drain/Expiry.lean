import S4Logs.Laws.Drain.Alone
import S4Logs.Laws.Drain.Retained

/-!
# The gate over many groups

What the gate lets CloudWatch delete of one group, after any drains and reconciles of many,
is archived: the group's part of them is a run of its own job, and that keeps `Retained`.
-/

namespace S4Logs

variable {env : Env} {account : String} {windowMs : Int} {E : String → List CwEvent}

/-- The group that is admitted next. -/
def Groups.nextGroup (s : Groups) : Option String :=
  s.run.bind fun r => r.queue.head?.map Prod.fst

/-- What is assumed of runs of many groups: they are of one account and grid, a job lists
all streams of its group, gets pages that obey the law, and the events stay the same. -/
def EachGroup (account : String) (windowMs : Int) (E : String → List CwEvent) (s : Groups) :
    GroupsLabel → Prop
  | .cloud g events => events = E g
  | .start _ base _ _ => base.account = account ∧ base.windowMs = windowMs
  | .enter pre => ∀ g ∈ s.nextGroup, ∀ names ∈ pre.streams, ∀ ev ∈ E g, ev.logStreamName ∈ names
  | .job i l => ∀ job ∈ s.jobs[i]?, TaskGuard PageAnswers (s.seenBy job) l.sys
  | _ => True

instance EachGroup.decidable (account : String) (windowMs : Int) (E : String → List CwEvent)
    (s : Groups) : ∀ l, Decidable (EachGroup account windowMs E s l)
  | .cloud g events => inferInstanceAs (Decidable (events = E g))
  | .start _ base _ _ => inferInstanceAs (Decidable (base.account = account ∧ base.windowMs = windowMs))
  | .enter pre => inferInstanceAs (Decidable (∀ g ∈ s.nextGroup, ∀ names ∈ pre.streams,
      ∀ ev ∈ E g, ev.logStreamName ∈ names))
  | .job i l => inferInstanceAs (Decidable (∀ job ∈ s.jobs[i]?,
      TaskGuard PageAnswers (s.seenBy job) l.sys))
  | .finish => .isTrue trivial
  | .kill => .isTrue trivial

/-- Every run under way is on the grid. -/
def OnGrid (windowMs : Int) (s : Groups) : Prop := ∀ r, s.run = some r → r.base.windowMs = windowMs

theorem OnGrid.step {s s' : Groups} {l : GroupsLabel} (h : OnGrid windowMs s)
    (hok : EachGroup account windowMs E s l) (hstep : groupsStep env s l = some s') :
    OnGrid windowMs s' := by
  intro r' hr'
  cases groupsStep_move hstep with
  | cloud => exact h r' hr'
  | start hidle =>
    cases hr'
    exact hok.2
  | rejected hrun =>
    cases hr'
    have hbase := h _ hrun
    exact hbase
  | admitted hrun =>
    cases hr'
    have hbase := h _ hrun
    exact hbase
  | goes hrun =>
    cases hr'
    have hbase := h _ hrun
    exact hbase
  | ended hrun =>
    cases hr'
    have hbase := h _ hrun
    exact hbase
  | finish => cases hr'
  | kill => cases hr'

/-- A job sees only its own events and run, so what is assumed of it alone is assumed of it
among the others. -/
theorem EachGroup.part {s : Groups} {l : GroupsLabel} (hgrid : OnGrid windowMs s)
    (h : EachGroup account windowMs E s l) (hrun : ∀ r, s.run = some r → r.base.account = account) :
    EachPart (fun g => OneGroup account g windowMs (E g)) s l := by
  intro g part hpart t hevents hflying
  cases l with
  | cloud logGroup events =>
    simp only [Groups.labelsOf] at hpart
    split at hpart
    · next hg =>
      subst hg
      rw [List.mem_singleton.mp hpart]
      exact ⟨trivial, h⟩
    · exact absurd hpart List.not_mem_nil
  | start kind base concurrency found => exact absurd hpart List.not_mem_nil
  | enter pre =>
    cases hr : s.run with
    | none =>
      simp only [Groups.labelsOf, hr] at hpart
      exact absurd hpart List.not_mem_nil
    | some r =>
      simp only [Groups.labelsOf, hr] at hpart
      split at hpart
      · exact absurd hpart List.not_mem_nil
      · next name info queue hqueue =>
        split at hpart
        · next hg =>
          subst hg
          rw [List.mem_singleton.mp hpart]
          refine ⟨trivial, hrun r hr, rfl, hgrid r hr, h name ?_⟩
          simp only [Groups.nextGroup, hr, Option.bind_some, hqueue, List.head?_cons,
            Option.map_some, Option.mem_def]
        · exact absurd hpart List.not_mem_nil
  | job i l =>
    cases hr : s.run with
    | none =>
      simp only [Groups.labelsOf, hr] at hpart
      exact absurd hpart List.not_mem_nil
    | some r =>
      simp only [Groups.labelsOf, hr] at hpart
      split at hpart
      · exact absurd hpart List.not_mem_nil
      · next job hjob =>
        split at hpart
        · next hg =>
          subst hg
          rw [List.mem_singleton.mp hpart]
          have hjobs := Groups.jobs_of_run hr
          have hguard := h job (by rw [hjobs]; exact hjob)
          have hrun' := hflying job (by rw [hjobs]; exact List.mem_of_getElem? hjob) rfl
          cases l with
          | task j l =>
            refine ⟨fun run task hsome htask => ?_, trivial⟩
            rw [hrun'] at hsome
            rw [hevents]
            exact hguard run task hsome htask
          | spawn => exact ⟨trivial, trivial⟩
          | absorb j => exact ⟨trivial, trivial⟩
          | finish => exact ⟨trivial, trivial⟩
        · exact absurd hpart List.not_mem_nil
  | finish => exact absurd hpart List.not_mem_nil
  | kill =>
    rw [List.mem_singleton.mp hpart]
    exact ⟨trivial, trivial⟩

theorem EachGroup.ofAccount {s : Groups} {l : GroupsLabel} (h : EachGroup account windowMs E s l) :
    OfAccount account l := by
  cases l with
  | start kind base concurrency found => exact h.1
  | cloud logGroup events => trivial
  | enter pre => trivial
  | job i l => trivial
  | finish => trivial
  | kill => trivial

/-- CloudWatch with these events of each group, and stores with nothing. -/
def Groups.fresh (E : String → List CwEvent) : Groups where
  events := E
  archive := { objects := fun _ => none, manifests := fun _ => none }
  run := none
  last := none

/-- After any runs of many groups each group is as runs of its own job leave it. -/
theorem EachGroup.retained {s : Groups}
    (hreach : LTS.Reaches (groupsStep env) (EachGroup account windowMs E) (.fresh E) s) (g : String) :
    ∃ t, Retained env account g windowMs (E g) t ∧ Shows env account g s t := by
  have hstart : GroupsOk env account (.fresh E) :=
    .start rfl fun _ _ _ _ _ hnone _ _ _ => nomatch hnone
  have hkept := hreach.keeping (I := fun s => GroupsOk env account s ∧ OnGrid windowMs s)
    ⟨hstart, fun _ h => nomatch h⟩ fun s l s' hs hok hstep =>
      ⟨hs.1.step hok.ofAccount hstep, hs.2.step hok hstep⟩
  have hparts : LTS.Reaches (groupsStep env) (fun s l => OfAccount account l ∧
      EachPart (fun g => OneGroup account g windowMs (E g)) s l) (.fresh E) s :=
    hkept.mono fun s l h => ⟨h.2.ofAccount, h.2.part h.1.2 fun r hr => (h.1.1.run r hr).account⟩
  obtain ⟨t, hreach', -, hshows⟩ := (groups_projects env account g _).reaches
    ⟨hstart, Shows.start rfl rfl (.refl _)⟩ hparts
  exact ⟨t, hreach'.invariant retained_fresh fun _ _ _ hI hok hstep => hI.step hok hstep, hshows⟩

/-- The event is in an object that the manifest of its window lists. -/
def OnArchive (env : Env) (account logGroup : String) (windowMs : Int) (a : Archive)
    (ev : CwEvent) : Prop :=
  ∃ w bytes m, GridWindow windowMs w ∧ w.contains ev = true ∧
    a.manifests (windowKey env.store.keyPrefix account logGroup w) = some bytes ∧
    Manifest.fromJsonBytes env.serde bytes = .ok m ∧ m.names account logGroup w = true ∧
    Archived env.lib a m ev.toRecord

/-- After any drains and reconciles of many groups at once, over events that do not change,
a call of `PutRetentionPolicy` for a group means that every event of the group from the
coverage start up to the cutoff is in an object that the manifest of its window lists. -/
theorem EachGroup.expires_only_archived {s : Groups}
    (hreach : LTS.Reaches (groupsStep env) (EachGroup account windowMs E) (.fresh E) s)
    {get : ManifestGet}
    (hget : ∀ key answer, get key = .ok answer → answer = s.archive.manifests key)
    {req : RetentionRequest} (haccount : req.account = account) (hwindow : req.windowMs = windowMs)
    {apply : Bool} {answer : Except DrainError Unit}
    (hcalled : (enforceRetention env.serde get env.store.keyPrefix req apply answer).1 ≠ [])
    {ev : CwEvent} (hev : ev ∈ E req.logGroup) (hfrom : req.coverageFromMs ≤ ev.timestamp)
    (hcutoff : ev.timestamp < req.cutoffMs) :
    OnArchive env account req.logGroup windowMs s.archive ev := by
  obtain ⟨t, ht, hshows⟩ := EachGroup.retained hreach req.logGroup
  obtain ⟨plan, hplan, hallowed⟩ := enforceRetention_called hcalled
  obtain ⟨halign, ws, hi, hle, htiles, hproofs⟩ :=
    planRetention_allowed hplan hallowed (Int.lt_of_le_of_lt hfrom hcutoff)
  obtain ⟨w, hw, hstart, hend⟩ := htiles.covers (Int.le_trans halign hfrom)
    (Int.lt_of_lt_of_le hcutoff hle)
  obtain ⟨bytes, hstored, -⟩ := hproofs w hw
  have hbytes := hget _ _ hstored
  have hgrid := htiles.grid w hw
  have hin : w.contains ev = true := by
    simp only [Window.contains, Bool.and_eq_true, decide_eq_true_eq]
    exact ⟨hstart, hend⟩
  rw [hwindow] at hgrid
  rw [haccount] at hbytes
  have hagree := (hshows.archive _ (groupKey_window w)).2
  obtain ⟨m, hm, hof⟩ := ht.manifests w hgrid bytes (hagree.symm.trans hbytes.symm)
  refine ⟨w, bytes, m, hgrid, hin, hbytes.symm, hm, hof.names, ?_⟩
  -- the objects that the manifest lists are the group's own
  refine (hof.congr fun o ho => ?_).complete ev hev hin
  obtain ⟨naming, seq, -, hkey, -⟩ := hof.objects o ho
  rw [hkey]
  exact (hshows.archive _ (groupKey_object w naming seq)).1

end S4Logs
