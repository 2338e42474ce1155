import S4Logs.Laws.Drain.Grid
import S4Logs.Laws.Drain.Retention

/-!
# What the retention gate plans

The plan asks for the cells that end after the coverage start and start before the
cutoff, reads the manifest of each and lists those without a proof. A read that fails
fails the plan, and the gate calls CloudWatch only on a plan that lists nothing.
-/

namespace S4Logs

variable {S : Serde Manifest} {get : ManifestGet} {keyPrefix : String} {req : RetentionRequest}
  {w : Window} {ws missing : List Window}

/-- The largest `i32`. -/
def i32Max : Int := 2147483647

/-- A cell that can hold an event between the coverage start and the cutoff. -/
def RequiredCell (req : RetentionRequest) (w : Window) : Prop :=
  Cell req.windowMs w ∧ req.coverageFromMs < req.nowMs - req.retentionDays * dayMs ∧
    req.coverageFromMs < w.endMs ∧ w.startMs < req.nowMs - req.retentionDays * dayMs

/-- The store answers to the read of the window's manifest. -/
def ManifestRead (get : ManifestGet) (keyPrefix : String) (req : RetentionRequest) (w : Window) :
    Prop :=
  ∃ answer, get (windowKey keyPrefix req.account req.logGroup w) = .ok answer

/-! ## The loop -/

/-- One round puts the window on the list where its manifest is no proof. -/
theorem missingWindows_cons (S : Serde Manifest) (ws : List Window)
    {answer : Option Bytes}
    (hget : get (windowKey keyPrefix req.account req.logGroup w) = .ok answer) :
    (WindowCovered S get keyPrefix req.account req.logGroup w ∧
        missingWindows S get keyPrefix req (w :: ws) = missingWindows S get keyPrefix req ws) ∨
      (¬ WindowCovered S get keyPrefix req.account req.logGroup w ∧
        missingWindows S get keyPrefix req (w :: ws) =
          (missingWindows S get keyPrefix req ws).map (w :: ·)) := by
  unfold WindowCovered
  rw [hget, missingWindows, hget]
  cases answer with
  | none =>
    refine .inr ⟨?_, rfl⟩
    rintro ⟨bytes, h, -⟩
    cases h
  | some bytes =>
    dsimp only
    by_cases hcovered : manifestCoversWindow S bytes req.account req.logGroup w = true
    · refine .inl ⟨⟨bytes, rfl, hcovered⟩, ?_⟩
      simp only [hcovered, if_true]
      cases missingWindows S get keyPrefix req ws <;> rfl
    · refine .inr ⟨fun ⟨_, h, hproof⟩ => hcovered ?_, ?_⟩
      · cases h
        exact hproof
      · simp only [hcovered, Bool.false_eq_true, if_false]

/-- The loop lists the windows without a proof, in their order, where it can read the
manifest of each. -/
theorem missingWindows_ok (S : Serde Manifest)
    (h : ∀ w ∈ ws, ManifestRead get keyPrefix req w) :
    ∃ missing, missingWindows S get keyPrefix req ws = .ok missing ∧ missing.Sublist ws ∧
      ∀ w, w ∈ missing ↔ w ∈ ws ∧ ¬ WindowCovered S get keyPrefix req.account req.logGroup w := by
  induction ws with
  | nil => exact ⟨[], rfl, .slnil, fun w => ⟨fun h => absurd h List.not_mem_nil, And.left⟩⟩
  | cons w ws ih =>
    obtain ⟨missing, hrest, hsub, hmem⟩ := ih fun w hw => h w (List.mem_cons_of_mem _ hw)
    obtain ⟨answer, hget⟩ := h w List.mem_cons_self
    rcases missingWindows_cons S ws hget with ⟨hproof, heq⟩ | ⟨hproof, heq⟩
    · refine ⟨missing, heq.trans hrest, hsub.cons w, fun w' => ?_⟩
      rw [hmem, List.mem_cons]
      constructor
      · exact fun ⟨hin, hno⟩ => ⟨.inr hin, hno⟩
      · rintro ⟨rfl | hin, hno⟩
        · exact absurd hproof hno
        · exact ⟨hin, hno⟩
    · refine ⟨w :: missing, by rw [heq, hrest]; rfl, hsub.cons_cons w, fun w' => ?_⟩
      rw [List.mem_cons, hmem, List.mem_cons]
      constructor
      · rintro (rfl | ⟨hin, hno⟩)
        · exact ⟨.inl rfl, hproof⟩
        · exact ⟨.inr hin, hno⟩
      · rintro ⟨rfl | hin, hno⟩
        · exact .inl rfl
        · exact .inr ⟨hin, hno⟩

/-- A read that fails fails the loop. -/
theorem missingWindows_error (h : ∃ w ∈ ws, ¬ ManifestRead get keyPrefix req w) :
    ∃ e, missingWindows S get keyPrefix req ws = .error e := by
  induction ws with
  | nil =>
    obtain ⟨w, hw, -⟩ := h
    exact absurd hw List.not_mem_nil
  | cons w ws ih =>
    cases hget : get (windowKey keyPrefix req.account req.logGroup w) with
    | error e => exact ⟨.manifest e, by rw [missingWindows, hget]⟩
    | ok answer =>
      obtain ⟨w', hw', hno⟩ := h
      have hrest : ∃ w ∈ ws, ¬ ManifestRead get keyPrefix req w := by
        rcases List.mem_cons.mp hw' with rfl | hw'
        · exact absurd ⟨answer, hget⟩ hno
        · exact ⟨w', hw', hno⟩
      obtain ⟨e, he⟩ := ih hrest
      rcases missingWindows_cons S ws hget with ⟨-, heq⟩ | ⟨-, heq⟩
      · exact ⟨e, heq.trans he⟩
      · exact ⟨e, by rw [heq, he]; rfl⟩

/-- The loop reads the manifests of its windows, and does nothing else. -/
theorem missingCalls_get {call : StoreCall} (h : call ∈ missingCalls get keyPrefix req ws) :
    ∃ w ∈ ws, call = .get (windowKey keyPrefix req.account req.logGroup w) := by
  induction ws with
  | nil => exact absurd h List.not_mem_nil
  | cons w ws ih =>
    rw [missingCalls] at h
    rcases List.mem_cons.mp h with rfl | h
    · exact ⟨w, List.mem_cons_self, rfl⟩
    · cases hget : get (windowKey keyPrefix req.account req.logGroup w) with
      | error e => simp only [hget, List.not_mem_nil] at h
      | ok answer =>
        simp only [hget] at h
        obtain ⟨w', hw', hcall⟩ := ih h
        exact ⟨w', List.mem_cons_of_mem _ hw', hcall⟩

/-! ## The plan -/

section Exact

variable (hdays : 0 < req.retentionDays) (hmax : req.retentionDays ≤ i32Max)
  (hw : 0 < req.windowMs) (hcov : 0 ≤ req.coverageFromMs)
  (hcut : 0 ≤ req.nowMs - req.retentionDays * dayMs)
  (hlast : req.nowMs - req.retentionDays * dayMs < lastDay)

include hdays hmax hcut hlast in
/-- The cutoff stays far within `i64`, so nothing saturates. -/
theorem cutoffMs_eq : req.cutoffMs = req.nowMs - req.retentionDays * dayMs := by
  simp only [RetentionRequest.cutoffMs, saturatingSub, saturatingMul, i64Max, i64Min, i32Max,
    lastDay, dayMs] at hdays hmax hcut hlast ⊢
  omega

include hdays hmax hw hcov hcut hlast in
/-- The plan is what the loop over the required cells says, in ascending order. -/
theorem planRetention_eq (S : Serde Manifest) (get : ManifestGet) (keyPrefix : String) :
    ∃ required,
    required.Pairwise (fun w w' => w.startMs < w'.startMs) ∧
    (∀ w, w ∈ required ↔ RequiredCell req w) ∧
    planCalls get keyPrefix req = missingCalls get keyPrefix req required ∧
    planRetention S get keyPrefix req = (missingWindows S get keyPrefix req required).map
      fun missing => ⟨req.logGroup, req.retentionDays, req.nowMs - req.retentionDays * dayMs,
        required, missing, false⟩ := by
  have hcutoff := cutoffMs_eq hdays hmax hcut hlast
  by_cases hearly : req.cutoffMs ≤ req.coverageFromMs
  · refine ⟨[], .nil, fun w => ?_, ?_, ?_⟩
    · refine ⟨fun h => absurd h List.not_mem_nil, fun h => ?_⟩
      rw [hcutoff] at hearly
      exact absurd h.2.1 (Int.not_lt.mpr hearly)
    · rw [planCalls, if_neg (Int.not_le.mpr hdays), if_pos hearly]
      rfl
    · rw [planRetention, if_neg (Int.not_le.mpr hdays), if_pos hearly, hcutoff]
      rfl
  · obtain ⟨required, hreq⟩ := (windowsCovering_ok_iff hw hcov hcut).mpr (.inl hlast.le)
    obtain ⟨-, -, hi, htiles, -, -⟩ := windowsCovering_walk hreq
    refine ⟨required, htiles.ascending, fun w => ?_, ?_, ?_⟩
    · rw [mem_windowsCovering_iff_cell hreq hlast.le]
      rw [hcutoff] at hearly
      exact ⟨fun ⟨hcell, hend, hin⟩ => ⟨hcell, Int.not_le.mp hearly, hend, hin⟩,
        fun ⟨hcell, _, hend, hin⟩ => ⟨hcell, hend, hin⟩⟩
    · rw [planCalls, if_neg (Int.not_le.mpr hdays), if_neg hearly, hcutoff, hreq]
    · rw [planRetention, if_neg (Int.not_le.mpr hdays), if_neg hearly, hcutoff, hreq]
      simp only [Except.mapError, bind, Except.bind]
      cases missingWindows S get keyPrefix req required <;> rfl

end Exact

/-! ## The gate -/

/-- What the gate does with a plan. -/
theorem enforceRetention_ok {apply : Bool} {answer : Except DrainError Unit} {plan : RetentionPlan}
    (hplan : planRetention S get keyPrefix req = .ok plan) :
    enforceRetention S get keyPrefix req apply answer =
      if apply = true ∧ plan.missingWindows = [] then
        ([⟨req.logGroup, req.retentionDays⟩], answer.map fun _ => { plan with applied := true })
      else ([], .ok plan) := by
  unfold enforceRetention
  rw [hplan]
  dsimp only
  cases hmissing : plan.missingWindows with
  | nil =>
    rw [if_neg (by rw [RetentionPlan.allowed, hmissing]; exact fun h => by cases h)]
    by_cases happly : apply = true
    · rw [if_pos happly, if_pos ⟨happly, rfl⟩]
    · rw [if_neg happly, if_neg (fun h => happly h.1)]
  | cons w ws =>
    rw [if_pos (by rw [RetentionPlan.allowed, hmissing]; rfl), if_neg (fun h => by cases h.2)]

/-- The plan lists exactly the required cells without a proof. The gate calls
`PutRetentionPolicy` once where it may and the list is empty, and not at all
otherwise; of the store it asks nothing but reads. -/
theorem retention_plan_exact (S : Serde Manifest) (get : ManifestGet) (keyPrefix : String)
    (req : RetentionRequest) (apply : Bool) (answer : Except DrainError Unit)
    (hdays : 0 < req.retentionDays) (hmax : req.retentionDays ≤ i32Max) (hw : 0 < req.windowMs)
    (hcov : 0 ≤ req.coverageFromMs) (hcut : 0 ≤ req.nowMs - req.retentionDays * dayMs)
    (hlast : req.nowMs - req.retentionDays * dayMs < lastDay) :
    ((∀ w, RequiredCell req w → ManifestRead get keyPrefix req w) →
      ∃ plan, planRetention S get keyPrefix req = .ok plan ∧
        plan.missingWindows.Pairwise (fun w w' => w.startMs < w'.startMs) ∧
        (∀ w, w ∈ plan.missingWindows ↔
          RequiredCell req w ∧ ¬ WindowCovered S get keyPrefix req.account req.logGroup w) ∧
        (enforceRetention S get keyPrefix req apply answer).1 =
          (if apply = true ∧ plan.missingWindows = [] then [⟨req.logGroup, req.retentionDays⟩]
            else []) ∧
        (enforceRetention S get keyPrefix req apply answer).2 =
          (if apply = true ∧ plan.missingWindows = [] then
            answer.map fun _ => { plan with applied := true }
          else .ok plan) ∧
        plan.applied = false) ∧
      ((∃ w, RequiredCell req w ∧ ¬ ManifestRead get keyPrefix req w) →
        (enforceRetention S get keyPrefix req apply answer).1 = [] ∧
          ∃ e, (enforceRetention S get keyPrefix req apply answer).2 = .error e) ∧
      ∀ call ∈ planCalls get keyPrefix req, ∃ w, RequiredCell req w ∧
        call = .get (windowKey keyPrefix req.account req.logGroup w) := by
  obtain ⟨required, hasc, hmem, hcalls, hplan⟩ :=
    planRetention_eq hdays hmax hw hcov hcut hlast S get keyPrefix
  refine ⟨fun hread => ?_, fun hfail => ?_, fun call hcall => ?_⟩
  · obtain ⟨missing, hloop, hsub, hmissing⟩ :=
      missingWindows_ok S fun w hw' => hread w ((hmem w).mp hw')
    rw [hloop] at hplan
    refine ⟨_, hplan, hasc.sublist hsub, fun w => ?_, ?_, ?_, rfl⟩
    · rw [hmissing, hmem]
    · rw [enforceRetention_ok hplan]
      split <;> rfl
    · rw [enforceRetention_ok hplan]
      split <;> rfl
  · obtain ⟨w, hreq, hno⟩ := hfail
    obtain ⟨e, he⟩ := missingWindows_error (S := S) ⟨w, (hmem w).mpr hreq, hno⟩
    rw [he] at hplan
    unfold enforceRetention
    rw [hplan]
    exact ⟨rfl, e, rfl⟩
  · rw [hcalls] at hcall
    obtain ⟨w, hw', heq⟩ := missingCalls_get hcall
    exact ⟨w, (hmem w).mp hw', heq⟩

open Concrete in
/-- The cutoff lies at the end of the first day, which has no manifest. -/
theorem retention_plan_exact_first_day : ∃ plan,
    planRetention manifests (fun _ => .ok none) "s4logs" (gateRequest 1234) = .ok plan ∧
      plan.missingWindows.Pairwise (fun w w' => w.startMs < w'.startMs) := by
  obtain ⟨plan, hplan, hasc, -⟩ := (retention_plan_exact manifests (fun _ => .ok none) "s4logs"
    (gateRequest 1234) true (.ok ()) (by decide) (by decide) (by decide) (by decide) (by decide)
    (by decide)).1 fun w _ => ⟨none, rfl⟩
  exact ⟨plan, hplan, hasc⟩

end S4Logs
