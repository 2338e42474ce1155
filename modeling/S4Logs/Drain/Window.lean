import S4Logs.Core.Deps
import S4Logs.Core.Layout

/-!
# Drain windows

A window is a half-open UTC range `[start, end)` on a grid anchored at each UTC
day start, so no window spans two days. The grid depends on nothing but the
window length: runs over different ranges meet the same windows.
-/

namespace S4Logs

/-- A half-open drain window, in epoch milliseconds. -/
structure Window where
  startMs : Int
  endMs : Int
deriving DecidableEq

inductive WindowError where
  | nonPositiveWindow (windowMs : Int)
  | negativeRange (fromMs toMs : Int)
deriving DecidableEq

/-- Why there is no list of windows. `overflow` stands for a day end beyond
`i64`: a debug build panics there, and a release build wraps to a negative
boundary and goes round the whole of time without an end. -/
inductive WindowAbort where
  | invalid (e : WindowError)
  | overflow
deriving DecidableEq

def validate (fromMs toMs windowMs : Int) : Except WindowError Unit :=
  if windowMs ≤ 0 then .error (.nonPositiveWindow windowMs)
  else if fromMs < 0 ∨ toMs < 0 then .error (.negativeRange fromMs toMs)
  else .ok ()

/-- The greatest grid boundary not after `tsMs`. Division rounds towards zero. -/
def alignDown (tsMs windowMs : Int) : Int :=
  let day := tsMs.tdiv dayMs * dayMs
  day + (tsMs - day).tdiv windowMs * windowMs

/-- The next grid boundary, cut at the end of the UTC day. -/
def nextBoundary (boundaryMs windowMs : Int) : Option Int :=
  let dayEnd := boundaryMs.tdiv dayMs * dayMs + dayMs
  if i64Max < dayEnd then none else some (min (saturatingAdd boundaryMs windowMs) dayEnd)

/-- The loop of `windows`: whole windows from `start`, as long as they end by `toMs`. -/
def windowsFrom (toMs windowMs : Int) : Nat → Int → Option (List Window)
  | 0, _ => none
  | fuel + 1, start =>
    match nextBoundary start windowMs with
    | none => none
    | some stop =>
      if toMs < stop then some []
      else (windowsFrom toMs windowMs fuel stop).map (⟨start, stop⟩ :: ·)

/-- The loop of `windows_covering`: windows from `start`, as long as they start
before `untilMs`. -/
def windowsCoveringFrom (untilMs windowMs : Int) : Nat → Int → Option (List Window)
  | 0, _ => none
  | fuel + 1, start =>
    if start < untilMs then
      match nextBoundary start windowMs with
      | none => none
      | some stop => (windowsCoveringFrom untilMs windowMs fuel stop).map (⟨start, stop⟩ :: ·)
    else some []

/-- More rounds than either loop can take: every round moves the boundary. -/
def loopFuel (start stop : Int) : Nat := (stop - start).toNat + 2

/-- Complete grid windows covering `[fromMs, toMs)`. A trailing partial window is
left to a later run. -/
def windows (fromMs toMs windowMs : Int) : Except WindowAbort (List Window) :=
  match validate fromMs toMs windowMs with
  | .error e => .error (.invalid e)
  | .ok () =>
    let start := alignDown fromMs windowMs
    match windowsFrom toMs windowMs (loopFuel start toMs) start with
    | none => .error .overflow
    | some ws => .ok ws

/-- Grid windows that start before `untilMs`, the one that contains it included. -/
def windowsCovering (fromMs untilMs windowMs : Int) : Except WindowAbort (List Window) :=
  match validate fromMs untilMs windowMs with
  | .error e => .error (.invalid e)
  | .ok () =>
    let start := alignDown fromMs windowMs
    match windowsCoveringFrom untilMs windowMs (loopFuel start untilMs) start with
    | none => .error .overflow
    | some ws => .ok ws

/-- A window of the grid. -/
def GridWindow (windowMs : Int) (w : Window) : Prop :=
  0 < windowMs ∧ 0 ≤ w.startMs ∧ alignDown w.startMs windowMs = w.startMs ∧
    nextBoundary w.startMs windowMs = some w.endMs

end S4Logs
