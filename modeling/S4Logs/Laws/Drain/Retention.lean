import S4Logs.Drain.Concrete
import S4Logs.Drain.Retention
import S4Logs.Laws.Drain.Window

/-!
# What the retention gate proves before it calls

A call of `PutRetentionPolicy` means that every grid window from the coverage
start to the cutoff has a manifest that names it. Before the coverage start
nothing is required: the gate takes the caller's word that no event is older.
Where the cutoff is not after the coverage start it requires nothing at all.
-/

namespace S4Logs

variable {S : Serde Manifest} {get : ManifestGet} {keyPrefix : String} {req : RetentionRequest}

/-- The stored manifest of the window proves that it is archived. -/
def WindowCovered (S : Serde Manifest) (get : ManifestGet) (keyPrefix account logGroup : String)
    (w : Window) : Prop :=
  ∃ bytes, get (windowKey keyPrefix account logGroup w) = .ok (some bytes) ∧
    manifestCoversWindow S bytes account logGroup w = true

/-- The instant lies in a grid window whose stored manifest proves it archived. -/
def InstantCovered (S : Serde Manifest) (get : ManifestGet) (keyPrefix : String)
    (req : RetentionRequest) (t : Int) : Prop :=
  ∃ w, GridWindow req.windowMs w ∧ w.startMs ≤ t ∧ t < w.endMs ∧
    WindowCovered S get keyPrefix req.account req.logGroup w

/-- Where nothing is missing every window has its proof. -/
theorem missingWindows_nil {ws : List Window}
    (h : missingWindows S get keyPrefix req ws = .ok []) :
    ∀ w ∈ ws, WindowCovered S get keyPrefix req.account req.logGroup w := by
  induction ws with
  | nil => exact fun w hw => absurd hw List.not_mem_nil
  | cons w ws ih =>
    unfold missingWindows at h
    cases hget : get (windowKey keyPrefix req.account req.logGroup w) with
    | error e => simp only [hget, reduceCtorEq] at h
    | ok answer =>
      cases hrest : missingWindows S get keyPrefix req ws with
      | error e => simp only [hget, hrest, Except.map, reduceCtorEq] at h
      | ok missing =>
        simp only [hget, hrest, Except.map, Except.ok.injEq] at h
        cases answer with
        | none => exact absurd h (List.cons_ne_nil _ _)
        | some bytes =>
          by_cases hcovered : manifestCoversWindow S bytes req.account req.logGroup w = true
          · simp only [hcovered, if_true] at h
            subst h
            intro w' hw'
            rcases List.mem_cons.mp hw' with rfl | hw'
            · exact ⟨bytes, hget, hcovered⟩
            · exact ih hrest w' hw'
          · simp only [hcovered, Bool.false_eq_true, if_false] at h
            exact absurd h (List.cons_ne_nil _ _)

/-- An allowed plan has tiled the grid from the coverage start to the cutoff with
windows that have their proof. -/
theorem planRetention_allowed {plan : RetentionPlan}
    (h : planRetention S get keyPrefix req = .ok plan) (hallowed : plan.allowed = true)
    (hcov : req.coverageFromMs < req.cutoffMs) :
    alignDown req.coverageFromMs req.windowMs ≤ req.coverageFromMs ∧ ∃ ws hi, req.cutoffMs ≤ hi ∧
      Tiles req.windowMs (alignDown req.coverageFromMs req.windowMs) ws hi ∧
      ∀ w ∈ ws, WindowCovered S get keyPrefix req.account req.logGroup w := by
  unfold planRetention at h
  split at h
  next => cases h
  next =>
    cases hws : windowsCovering req.coverageFromMs req.cutoffMs req.windowMs with
    | error e =>
      simp only [if_neg (not_le.mpr hcov), hws, Except.mapError, bind, Except.bind,
        reduceCtorEq] at h
    | ok ws =>
      simp only [if_neg (not_le.mpr hcov), hws, Except.mapError, bind, Except.bind] at h
      cases hmissing : missingWindows S get keyPrefix req ws with
      | error e => simp only [hmissing, reduceCtorEq] at h
      | ok missing =>
        simp only [hmissing, Except.ok.injEq] at h
        subst h
        have hnil : missing = [] := List.isEmpty_iff.mp hallowed
        subst hnil
        obtain ⟨-, halign, hi, hle, htiles⟩ := windowsCovering_tiles hws
        exact ⟨halign, ws, hi, hle, htiles, missingWindows_nil hmissing⟩

/-- A call of `PutRetentionPolicy` comes from an allowed plan. -/
theorem enforceRetention_called {apply : Bool} {answer : Except DrainError Unit}
    (h : (enforceRetention S get keyPrefix req apply answer).1 ≠ []) :
    ∃ plan, planRetention S get keyPrefix req = .ok plan ∧ plan.allowed = true := by
  unfold enforceRetention at h
  cases hplan : planRetention S get keyPrefix req with
  | error e => exact absurd (by rw [hplan]) h
  | ok plan =>
    cases hallowed : plan.allowed with
    | true => exact ⟨plan, rfl, hallowed⟩
    | false => exact absurd (by simp only [hplan, hallowed, if_true]) h

/-- Once `PutRetentionPolicy` is called, every instant before the cutoff and not
before the grid window of the coverage start lies in a window proved archived. -/
theorem retention_gate_covers (S : Serde Manifest) (get : ManifestGet) (keyPrefix : String)
    (req : RetentionRequest) (answer : Except DrainError Unit)
    (hcalled : (enforceRetention S get keyPrefix req true answer).1 ≠ [])
    (hcov : req.coverageFromMs < req.cutoffMs) (t : Int)
    (hfrom : alignDown req.coverageFromMs req.windowMs ≤ t) (hcutoff : t < req.cutoffMs) :
    InstantCovered S get keyPrefix req t := by
  obtain ⟨plan, hplan, hallowed⟩ := enforceRetention_called hcalled
  obtain ⟨-, ws, hi, hle, htiles, hproofs⟩ := planRetention_allowed hplan hallowed hcov
  obtain ⟨w, hw, hstart, hend⟩ := htiles.covers hfrom (lt_of_lt_of_le hcutoff hle)
  exact ⟨w, htiles.grid w hw, hstart, hend, hproofs w hw⟩

namespace Concrete

/-- A store that holds one manifest. -/
def gateStore (w : Window) : ManifestGet := fun key =>
  .ok <| if key = windowKey "s4logs" "123456789012" "/g" w then
    some <| Manifest.toJsonBytes manifests {
      version := manifestVersion
      account := "123456789012"
      logGroup := "/g"
      windowStartMs := w.startMs
      windowEndMs := w.endMs
      objects := []
      recordCount := 0
      completedAtMs := 0
      drainVersion := drainVersion
      reconciledAtMs := none
      reconciledAdded := none }
  else none

/-- One day of retention at the second midnight, with windows of a day. -/
def gateRequest (coverageFromMs : Int) : RetentionRequest where
  account := "123456789012"
  logGroup := "/g"
  retentionDays := 1
  coverageFromMs := coverageFromMs
  nowMs := 2 * dayMs
  windowMs := dayMs

end Concrete

open Concrete in
/-- An instant of a first day whose manifest lies there. -/
theorem retention_gate_covers_first_day :
    InstantCovered manifests (gateStore ⟨0, dayMs⟩) "s4logs" (gateRequest 0) 1234 :=
  retention_gate_covers manifests (gateStore ⟨0, dayMs⟩) "s4logs" (gateRequest 0) (.ok ())
    (by decide +kernel) (by decide) 1234 (by decide) (by decide)

open Concrete in
/-- With the coverage start at the cutoff an empty store lets the call through, and
no instant before the cutoff has a manifest. -/
theorem retention_gate_calls_on_empty_store :
    ¬ ∀ (S : Serde Manifest) (get : ManifestGet) (keyPrefix : String) (req : RetentionRequest)
      (answer : Except DrainError Unit), 0 < req.retentionDays →
      (enforceRetention S get keyPrefix req true answer).1 ≠ [] →
      ∀ t, 0 ≤ t → t < req.cutoffMs → InstantCovered S get keyPrefix req t := by
  intro h
  obtain ⟨w, -, -, -, bytes, hget, -⟩ := h manifests (fun _ => .ok none) "s4logs"
    (gateRequest dayMs) (.ok ()) (by decide) (by decide) 0 (by decide) (by decide)
  cases hget

end S4Logs
