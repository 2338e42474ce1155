import S4Logs.Cli.Drain
import S4Logs.Laws.Drain.Accounted
import S4Logs.Laws.Drain.Expiry
import S4Logs.Laws.Drain.Plan
import S4Logs.Lib.Fallible

/-!
# What the drain command lets CloudWatch delete

The command asks the gate only about groups whose jobs returned well in this very run, each
at most once and in the order of the names, and calls `PutRetentionPolicy` only with the flag
and never in a dry run. Every event that a call lets CloudWatch delete is archived. Where the
command succeeds every group was drained, and has a plan if one was asked for.
-/

namespace S4Logs

variable {S : Serde Manifest} {keyPrefix account : String} {args : DrainArgs}
variable {answers : GateAnswers} {found : List (String × LogGroupInfo)} {days : Int}

/-- The gate makes one call at most. -/
theorem enforceRetention_calls {get : ManifestGet} {req : RetentionRequest} {apply : Bool}
    {answer : Except DrainError Unit} {call : PutRetentionPolicy}
    (h : call ∈ (enforceRetention S get keyPrefix req apply answer).1) :
    apply = true ∧ call = ⟨req.logGroup, req.retentionDays⟩ ∧
      (enforceRetention S get keyPrefix req apply answer).1 = [call] := by
  unfold enforceRetention at h ⊢
  split at h
  · exact absurd h List.not_mem_nil
  · split at h
    · exact absurd h List.not_mem_nil
    · next hallowed =>
      split at h
      · next happly =>
        obtain rfl := List.mem_singleton.mp h
        refine ⟨happly, rfl, ?_⟩
        rw [if_neg hallowed, if_pos happly]
      · exact absurd h List.not_mem_nil

/-- A plan is of the group that was asked about. -/
theorem enforceRetention_logGroup {get : ManifestGet} {req : RetentionRequest} {apply : Bool}
    {answer : Except DrainError Unit} {plan : RetentionPlan}
    (h : (enforceRetention S get keyPrefix req apply answer).2 = .ok plan) :
    plan.logGroup = req.logGroup := by
  cases hplan : planRetention S get keyPrefix req with
  | error e => simp only [enforceRetention, hplan, reduceCtorEq] at h
  | ok plan' =>
    have hgroup : plan'.logGroup = req.logGroup := by
      unfold planRetention at hplan
      split at hplan
      · cases hplan
      · dsimp only at hplan
        split at hplan
        · obtain ⟨required, -, hplan⟩ := Fallible.bind_eq_ok.mp hplan
          obtain ⟨missing, -, hplan⟩ := Fallible.bind_eq_ok.mp hplan
          cases hplan
          rfl
        · obtain ⟨required, -, hplan⟩ := Fallible.bind_eq_ok.mp hplan
          obtain ⟨missing, -, hplan⟩ := Fallible.bind_eq_ok.mp hplan
          cases hplan
          rfl
    rw [enforceRetention_ok hplan] at h
    split at h
    · cases answer with
      | error e => cases h
      | ok u =>
        cases h
        exact hgroup
    · cases h
      exact hgroup

/-- The names of the groups that returned well. -/
def okNames (outcomes : List (String × Bool)) : List String :=
  (outcomes.filter Prod.snd).map Prod.fst

theorem okNames_cons (name : String) (ok : Bool) (rest : List (String × Bool)) :
    okNames ((name, ok) :: rest) = if ok then name :: okNames rest else okNames rest := by
  cases ok <;> rfl

/-- A call is made for a group that returned well, after the gate allowed it. -/
structure Allowed (S : Serde Manifest) (keyPrefix account : String) (args : DrainArgs)
    (answers : GateAnswers) (found : List (String × LogGroupInfo)) (days : Int)
    (outcomes : List (String × Bool)) (call : PutRetentionPolicy) : Prop where
  mem : (call.logGroup, true) ∈ outcomes
  sameDays : call.retentionDays = days
  apply : args.apply = true
  gate : ∃ info, (byName found).lookup call.logGroup = some info ∧
    (askGate S keyPrefix account args answers days call.logGroup info).1 ≠ []

theorem Allowed.cons {o : String × Bool} {outcomes : List (String × Bool)}
    {call : PutRetentionPolicy} (h : Allowed S keyPrefix account args answers found days outcomes call) :
    Allowed S keyPrefix account args answers found days (o :: outcomes) call :=
  ⟨List.mem_cons_of_mem _ h.mem, h.sameDays, h.apply, h.gate⟩

/-- The pass calls for groups that are allowed, in order, each once; where it ends well it has
a plan of each group that returned well. -/
theorem retentionPass_spec (S : Serde Manifest) (keyPrefix account : String) (args : DrainArgs)
    (answers : GateAnswers) (found : List (String × LogGroupInfo)) (days : Int)
    (outcomes : List (String × Bool)) :
    (∀ call ∈ (retentionPass S keyPrefix account args answers found days outcomes).1,
      Allowed S keyPrefix account args answers found days outcomes call) ∧
    ((retentionPass S keyPrefix account args answers found days outcomes).1.map
      PutRetentionPolicy.logGroup).Sublist (okNames outcomes) ∧
    ∀ plans, (retentionPass S keyPrefix account args answers found days outcomes).2 = .ok plans →
      (∀ name ∈ okNames outcomes, (byName found).lookup name ≠ none) →
      plans.map RetentionPlan.logGroup = okNames outcomes := by
  induction outcomes with
  | nil =>
    refine ⟨fun call h => absurd h List.not_mem_nil, .slnil, fun plans hplans _ => ?_⟩
    cases hplans
    rfl
  | cons o outcomes ih =>
    obtain ⟨name, ok⟩ := o
    obtain ⟨hcalls, hsub, hplans⟩ := ih
    rw [okNames_cons]
    cases ok with
    | false =>
      exact ⟨fun call hcall => (hcalls call hcall).cons, hsub, hplans⟩
    | true =>
      rw [if_pos rfl]
      cases hinfo : (byName found).lookup name with
      | none =>
        simp only [retentionPass, hinfo, if_true]
        exact ⟨fun call hcall => (hcalls call hcall).cons, hsub.cons _,
          fun _ _ hall => absurd hinfo (hall name List.mem_cons_self)⟩
      | some info =>
        have hown : ∀ call ∈ (askGate S keyPrefix account args answers days name info).1,
            Allowed S keyPrefix account args answers found days ((name, true) :: outcomes) call ∧
            (askGate S keyPrefix account args answers days name info).1 = [⟨name, days⟩] := by
          intro call hcall
          obtain ⟨happly, rfl, hone⟩ := enforceRetention_calls hcall
          refine ⟨⟨List.mem_cons_self, rfl, happly, info, hinfo, ?_⟩, hone⟩
          exact List.ne_nil_of_mem hcall
        have hsubOwn : ((askGate S keyPrefix account args answers days name info).1.map
            PutRetentionPolicy.logGroup).Sublist [name] := by
          cases hgate : (askGate S keyPrefix account args answers days name info).1 with
          | nil => exact List.nil_sublist _
          | cons call rest =>
            have hone := (hown call (by rw [hgate]; exact List.mem_cons_self)).2
            rw [hgate] at hone
            rw [hone]
            exact .refl _
        cases hresult : (askGate S keyPrefix account args answers days name info).2 with
        | error e =>
          simp only [retentionPass, hinfo, if_true, hresult]
          refine ⟨fun call hcall => (hown call hcall).1, ?_, fun _ h => nomatch h⟩
          exact hsubOwn.trans (List.cons_sublist_cons.mpr (List.nil_sublist _))
        | ok plan =>
          simp only [retentionPass, hinfo, if_true, hresult]
          refine ⟨fun call hcall => ?_, ?_, fun plans h hall => ?_⟩
          · rcases List.mem_append.mp hcall with hcall | hcall
            · exact (hown call hcall).1
            · exact (hcalls call hcall).cons
          · rw [List.map_append]
            exact hsubOwn.append hsub
          · obtain ⟨rest, hrest, rfl⟩ := Fallible.map_eq_ok.mp h
            rw [List.map_cons, enforceRetention_logGroup hresult,
              hplans rest hrest fun n hn => hall n (List.mem_cons_of_mem _ hn)]
            rfl

/-- The results of a run are those of the groups that were found. -/
theorem okNames_outcomes {kind : JobKind} {base : DrainOptions} {results : List GroupDrainResult}
    (h : Reported kind base found results) :
    (okNames (drainOutcomes results)).Pairwise (· < ·) ∧
      ∀ name ∈ okNames (drainOutcomes results), (byName found).lookup name ≠ none := by
  have hsub : (okNames (drainOutcomes results)).Sublist ((byName found).map Prod.fst) := by
    rw [← h.names]
    have : results.map GroupDrainResult.logGroup = (drainOutcomes results).map Prod.fst := by
      rw [drainOutcomes, List.map_map]
      rfl
    rw [this]
    exact List.filter_sublist.map _
  refine ⟨(List.pairwise_map.mpr (Sorting.sortOnce_pairwise found)).sublist hsub,
    fun name hname hnone => ?_⟩
  obtain ⟨p, hp, rfl⟩ := List.mem_map.mp (hsub.subset hname)
  have hne := List.lookup_eq_none_iff.mp hnone p hp
  exact absurd rfl (bne_iff_ne.mp hne)

theorem okNames_all {results : List GroupDrainResult} (h : ∀ g ∈ results, g.ok = true) :
    okNames (drainOutcomes results) = results.map GroupDrainResult.logGroup := by
  have hall : ∀ o ∈ drainOutcomes results, o.2 = true := by
    intro o ho
    obtain ⟨g, hg, rfl⟩ := List.mem_map.mp ho
    exact h g hg
  rw [okNames, List.filter_eq_self.mpr hall, drainOutcomes, List.map_map]
  rfl

/-- What the command did where it succeeded. -/
theorem drainCommand_ok {results : List GroupDrainResult} {plans : List RetentionPlan}
    (h : (drainCommand S keyPrefix account args answers found results).2 = .ok plans) :
    (drainRetention S keyPrefix account args answers found (drainOutcomes results)).2 = .ok plans ∧
      ∀ g ∈ results, g.ok = true := by
  obtain ⟨plans', hplans, h⟩ := Fallible.bind_eq_ok.mp h
  split at h
  · next hnone =>
    cases h
    refine ⟨hplans, fun g hg => ?_⟩
    have hfailed := List.map_eq_nil_iff.mp hnone
    have hout := List.filter_eq_nil_iff.mp hfailed (g.logGroup, g.ok) (List.mem_map_of_mem hg)
    simpa using hout
  · cases h

/-- The labels of the jobs of one command: no other start, and CloudWatch as assumed. -/
def OneCommand (account : String) (windowMs : Int) (E : String → List CwEvent) (s : Groups)
    (l : GroupsLabel) : Prop :=
  EachGroup account windowMs E s l ∧ l.Within

/-- The state in which the jobs of a command have ended. -/
theorem OneCommand.ended {env : Env} {E : String → List CwEvent} {l : GroupsLabel}
    {s₀ s₁ s : Groups} {results : List GroupDrainResult}
    (hbefore : LTS.Reaches (groupsStep env) (EachGroup account args.window E) (.fresh E) s₀)
    (hcommand : args.start account found = .ok l) (hstart : groupsStep env s₀ l = some s₁)
    (hreach : LTS.Reaches (groupsStep env) (OneCommand account args.window E) s₁ s)
    (hlast : s.last = some results) :
    LTS.Reaches (groupsStep env) (EachGroup account args.window E) (.fresh E) s ∧
      Reported args.kind (args.base account) found results := by
  unfold DrainArgs.start at hcommand
  split at hcommand
  · cases hcommand
  · cases hcommand
    have hs := hreach.invariant (Groups.Accounted.start hstart)
      fun _ _ _ hI hok hstep => hI.step hok.2 hstep
    have hok : EachGroup account args.window E s₀ (.start args.kind (args.base account)
        args.groupConcurrency found) := ⟨rfl, rfl⟩
    refine ⟨(LTS.Reaches.tail hbefore hok hstart).trans (hreach.mono fun _ _ h => h.1), ?_⟩
    exact hs.last results hlast

/-- A drain command over any archive that earlier commands of the account and grid have left,
while the events stay the same: it calls `PutRetentionPolicy` only with the flag and not in a
dry run, for groups whose jobs returned well in this run, in the order of their names and each
once, and all events of these that the policy lets CloudWatch delete are archived. Where it
succeeds every job returned well, and if a retention was asked for there is a plan of every
group. -/
theorem drain_command_expires_only_archived (env : Env) (E : String → List CwEvent)
    (account : String) (args : DrainArgs) (found : List (String × LogGroupInfo))
    (answers : GateAnswers) (l : GroupsLabel) (s₀ s₁ s : Groups) (results : List GroupDrainResult)
    (hbefore : LTS.Reaches (groupsStep env) (EachGroup account args.window E) (.fresh E) s₀)
    (hcommand : args.start account found = .ok l) (hstart : groupsStep env s₀ l = some s₁)
    (hreach : LTS.Reaches (groupsStep env) (OneCommand account args.window E) s₁ s)
    (hlast : s.last = some results)
    (hget : ∀ key answer, answers.get key = .ok answer → answer = s.archive.manifests key) :
    let out := drainCommand env.serde env.store.keyPrefix account args answers found results
    (∀ call ∈ out.1, args.applyRetention = true ∧ args.dryRun = false ∧
      args.retentionDays = some call.retentionDays ∧
      (∃ g ∈ results, g.logGroup = call.logGroup ∧ g.ok = true) ∧
      ∃ info, (call.logGroup, info) ∈ byName found ∧ ∀ ev ∈ E call.logGroup,
        info.creationTimeMs ≤ ev.timestamp →
        ev.timestamp < (args.request account call.logGroup info call.retentionDays
          (answers.nowMs call.logGroup)).cutoffMs →
        OnArchive env account call.logGroup args.window s.archive ev) ∧
    (out.1.map PutRetentionPolicy.logGroup).Pairwise (· < ·) ∧
    ∀ plans, out.2 = .ok plans → (∀ g ∈ results, g.ok = true) ∧
      (args.retentionDays ≠ none →
        plans.map RetentionPlan.logGroup = (byName found).map Prod.fst) := by
  obtain ⟨hreach, hrep⟩ := OneCommand.ended hbefore hcommand hstart hreach hlast
  obtain ⟨hascending, hfound⟩ := okNames_outcomes hrep
  dsimp only
  have hcalls : (drainCommand env.serde env.store.keyPrefix account args answers found results).1 =
      (drainRetention env.serde env.store.keyPrefix account args answers found
        (drainOutcomes results)).1 := rfl
  rw [hcalls]
  cases hdays : args.retentionDays with
  | none =>
    simp only [drainRetention, hdays]
    refine ⟨fun call h => absurd h List.not_mem_nil, .nil, fun plans hplans => ?_⟩
    exact ⟨(drainCommand_ok hplans).2, fun h => absurd rfl h⟩
  | some days =>
    simp only [drainRetention, hdays]
    obtain ⟨hallowed, hsub, hplans⟩ := retentionPass_spec env.serde env.store.keyPrefix account
      args answers found days (drainOutcomes results)
    refine ⟨fun call hcall => ?_, hascending.sublist hsub, fun plans hok => ?_⟩
    · obtain ⟨hmem, hcallDays, happly, info, hinfo, hgate⟩ := hallowed call hcall
      obtain ⟨happlyFlag, hdry⟩ := Bool.and_eq_true_iff.mp happly
      obtain ⟨g, hg, heq⟩ := List.mem_map.mp hmem
      obtain ⟨hname, hok⟩ := Prod.mk.inj heq
      refine ⟨happlyFlag, by simpa using hdry, by rw [hcallDays], ⟨g, hg, hname, hok⟩, info,
        ?_, fun ev hev hfrom hcut => ?_⟩
      · obtain ⟨front, back, hsplit, -⟩ := List.lookup_eq_some_iff.mp hinfo
        rw [hsplit]
        exact List.mem_append_right _ List.mem_cons_self
      rw [hcallDays] at hcut
      exact EachGroup.expires_only_archived hreach hget rfl rfl hgate hev hfrom hcut
    · obtain ⟨hpass, hall⟩ := drainCommand_ok hok
      simp only [drainRetention, hdays] at hpass
      refine ⟨hall, fun _ => ?_⟩
      rw [hplans plans hpass hfound, okNames_all hall, ← hrep.names]

instance OneCommand.decidable (account : String) (windowMs : Int) (E : String → List CwEvent)
    (s : Groups) (l : GroupsLabel) : Decidable (OneCommand account windowMs E s l) :=
  inferInstanceAs (Decidable (_ ∧ _))

namespace Concrete

/-- A drain of one day of every group, two at once, that applies a retention of one day. -/
def drainArgs : DrainArgs where
  logGroup := none
  all := true
  groupConcurrency := 2
  fromMs := some 0
  toMs := some dayMs
  window := dayMs
  chunkTarget := 1000
  concurrency := 4
  dryRun := false
  retentionDays := some 1
  applyRetention := true
  shardStreams := 2
  reconcile := false

def foundGroups : List (String × LogGroupInfo) := [("/h", ⟨none, none, 0⟩), ("/g", ⟨none, none, 0⟩)]

def drainStart : GroupsLabel :=
  .start .drain (drainArgs.base "123456789012") 2 foundGroups

def commandAnswers (s : Groups) : GateAnswers where
  get := s.archive.gate
  nowMs := fun _ => 2 * dayMs
  put := fun _ => .ok ()

end Concrete

open Concrete in
/-- Of two groups one fails, and the other may expire. -/
theorem drain_command_expires_only_archived_day : ∃ (s : Groups) (results : List GroupDrainResult)
    (call : PutRetentionPolicy), s.last = some results ∧
      results.map GroupDrainResult.ok = [true, false] ∧
      call ∈ (drainCommand manifests "s4logs" "123456789012" drainArgs (commandAnswers s)
        foundGroups results).1 ∧
      call.logGroup = "/g" ∧
      OnArchive jobEnv "123456789012" call.logGroup dayMs s.archive (dayEvent "a") := by
  have hrun : ((groupsStep jobEnv (.fresh fun _ => [dayEvent "a"]) drainStart).bind fun s₁ =>
      (LTS.exec (groupsStep jobEnv) s₁ oneFails.tail).bind fun s =>
        s.last.map fun results =>
          (decide (LTS.Along (groupsStep jobEnv)
            (OneCommand "123456789012" dayMs fun _ => [dayEvent "a"]) s₁ oneFails.tail),
          results.map GroupDrainResult.ok,
          (drainCommand manifests "s4logs" "123456789012" drainArgs (commandAnswers s) foundGroups
            results).1)) = some (true, [true, false], [⟨"/g", 1⟩]) := by
    decide +kernel
  obtain ⟨s₁, hs₁, hrun⟩ := Option.bind_eq_some_iff.mp hrun
  obtain ⟨s, hs, hrun⟩ := Option.bind_eq_some_iff.mp hrun
  obtain ⟨results, hlast, hout⟩ := Option.map_eq_some_iff.mp hrun
  simp only [Prod.mk.injEq, decide_eq_true_eq] at hout
  obtain ⟨halong, hok, hcalls⟩ := hout
  obtain ⟨hall, -⟩ := drain_command_expires_only_archived jobEnv (fun _ => [dayEvent "a"])
    "123456789012" drainArgs foundGroups (commandAnswers s) drainStart _ s₁ s results .refl
    (by decide +kernel) hs₁ (.of_exec halong hs) hlast fun _ _ h => (Except.ok.inj h).symm
  have hmem : (⟨"/g", 1⟩ : PutRetentionPolicy) ∈ (drainCommand manifests "s4logs" "123456789012"
      drainArgs (commandAnswers s) foundGroups results).1 := by
    rw [hcalls]
    exact List.mem_cons_self
  obtain ⟨-, -, -, -, info, hinfo, harchived⟩ := hall _ hmem
  have hcreated : ∀ p ∈ byName foundGroups, p.2.creationTimeMs = 0 := by decide +kernel
  refine ⟨s, results, _, hlast, hok, hmem, rfl, harchived _ List.mem_cons_self ?_ ?_⟩
  · rw [hcreated _ hinfo]
    decide
  · exact (by decide : (5 : Int) < saturatingSub (2 * dayMs) (saturatingMul 1 dayMs))

end S4Logs
