import S4Logs.Laws.Drain.Integrity

/-!
# Windows of two lengths

A data key has the start of its window and not the end, while the manifest key
has both. So windows of two lengths that start together have two manifests and
one set of data keys: the later run replaces objects that the manifest of the
earlier one still lists. Where no two different windows of the runs start
together, and so for runs of one length, what is listed stays as it was.
-/

namespace S4Logs

variable {env : Env} {account logGroup : String} {s t : Sys}

/-- Jobs of one account and group, of any window length. -/
def SameGroup (account logGroup : String) (_ : Sys) : SysLabel → Prop
  | .start _ opts _ => opts.account = account ∧ opts.logGroup = logGroup
  | _ => True

/-- The jobs process these windows. -/
def Windowed (W : Window → Prop) (_ : Sys) : SysLabel → Prop
  | .start kind opts pre => ∀ run, startRun kind opts pre = .ok run → ∀ w ∈ run.wins, W w
  | _ => True

/-- Two windows of any lengths keep their data keys apart exactly where they start
apart. -/
theorem ownKey_apart_iff {opts : DrainOptions} {w w' : Window} (hw : 0 ≤ w.startMs)
    (hw' : 0 ≤ w'.startMs) :
    (∀ naming naming' seq seq', ownKey env opts w naming seq ≠ ownKey env opts w' naming' seq') ↔
      w.startMs ≠ w'.startMs := by
  constructor
  · intro h heq
    refine h .base .base 0 0 ?_
    simp only [ownKey, objectKey, objectLocation, heq]
  · intro h naming naming' seq seq' heq
    exact h (objectKey_injective hw hw' heq).1

/-- Grid windows of one account that start apart are apart. -/
theorem apart_of_starts {W : Window → Prop}
    (starts : ∀ w w', W w → W w' → w.startMs = w'.startMs → w = w') :
    Apart fun acc w => acc = account ∧ W w ∧ ∃ windowMs, GridWindow windowMs w where
  nonneg := by
    rintro _ w ⟨-, -, windowMs, hgrid⟩
    exact ⟨hgrid.2.1, Int.le_trans hgrid.2.1 (Int.le_of_lt hgrid.lt)⟩
  bounded := by
    rintro _ w ⟨-, -, windowMs, hgrid⟩
    exact hgrid.end_le
  eq_of_start h h' heq := starts _ _ h.2.1 h'.2.1 heq

/-- Jobs on these windows are jobs on windows of their grids. -/
theorem Windowed.jobsOn {W : Window → Prop} {l : SysLabel} (hgroup : SameGroup account logGroup s l)
    (hwins : Windowed W s l) :
    JobsOn logGroup (fun acc w => acc = account ∧ W w ∧ ∃ windowMs, GridWindow windowMs w) s l := by
  cases l with
  | start kind opts pre =>
    refine ⟨hgroup.2, fun run hok w hw => ⟨hgroup.1, hwins run hok w hw, opts.windowMs, ?_⟩⟩
    obtain ⟨-, -, -, ⟨lo, hi, htiles⟩, -⟩ := startRun_spec hok
    exact htiles.grid w hw
  | _ => trivial

/-- Two windows share no data key exactly where they start apart. Where no two
different windows of the runs start together, what a manifest lists after the first
runs still has the body, checksum and records of its entry after the next ones. -/
theorem listed_unclobbered (env : Env) (account logGroup : String) (W : Window → Prop)
    (starts : ∀ w w', W w → W w' → w.startMs = w'.startMs → w = w') (s₀ s t : Sys)
    (hidle : s₀.run = none) (hempty : s₀.archive = Archive.empty)
    (first : LTS.Reaches (sysStep env) (fun s l => SameGroup account logGroup s l ∧ Windowed W s l) s₀ s)
    (second : LTS.Reaches (sysStep env) (fun s l => SameGroup account logGroup s l ∧ Windowed W s l)
      s t) :
    (∀ opts : DrainOptions, ∀ w w' : Window, 0 ≤ w.startMs → 0 ≤ w'.startMs →
      ((∀ naming naming' seq seq', ownKey env opts w naming seq ≠ ownKey env opts w' naming' seq') ↔
        w.startMs ≠ w'.startMs)) ∧
    ∀ key bytes m, s.archive.manifests key = some bytes →
      Manifest.fromJsonBytes env.serde bytes = .ok m → ∀ o ∈ m.objects, ∃ body,
        s.archive.objects o.dataKey = some body ∧ t.archive.objects o.dataKey = some body ∧
        body.length = o.bodyLen ∧ env.lib.crc32c body = o.crc32c ∧
        (objectRecords env.lib body).length = o.recordCount := by
  have apart : Apart fun acc w => acc = account ∧ W w ∧ ∃ windowMs, GridWindow windowMs w :=
    apart_of_starts starts
  have hjobs : ∀ s l, SameGroup account logGroup s l ∧ Windowed W s l →
      JobsOn logGroup (fun acc w => acc = account ∧ W w ∧ ∃ windowMs, GridWindow windowMs w) s l :=
    fun _ _ h => h.2.jobsOn h.1
  obtain ⟨hsound, -⟩ := (SysSound.start env logGroup hidle hempty).reaches apart (first.mono hjobs)
  obtain ⟨-, hextends⟩ := hsound.reaches apart (second.mono hjobs)
  constructor
  · intro opts w w' hs hs'
    exact ownKey_apart_iff hs hs'
  · intro key bytes m hbytes hm o ho
    obtain ⟨m', filings, hm', -, hmanifest⟩ := hsound.archive key bytes hbytes
    rw [hm] at hm'
    obtain rfl := Except.ok.inj hm'
    obtain ⟨body, hbody, hrest⟩ := (hmanifest.integrity apart).bodies o ho
    obtain ⟨bytes', m', -, -, -, hkept⟩ := hextends key bytes m hbytes hm
    exact ⟨body, hbody, (hkept o ho).trans hbody, hrest⟩

/-- Jobs of one window length process windows of its grid. -/
theorem OneGrid.windowed {windowMs : Int} {l : SysLabel} (h : OneGrid logGroup windowMs s l) :
    Windowed (GridWindow windowMs) s l := by
  cases l with
  | start kind opts pre =>
    intro run hok w hw
    exact (h.jobsOn.2 run hok w hw)
  | _ => trivial

/-! ## A day and its first hour -/

instance SameGroup.decidable (account logGroup : String) (s : Sys) :
    ∀ l, Decidable (SameGroup account logGroup s l)
  | .start _ opts _ =>
    inferInstanceAs (Decidable (opts.account = account ∧ opts.logGroup = logGroup))
  | .cloud _ => .isTrue trivial
  | .spawn => .isTrue trivial
  | .task _ _ => .isTrue trivial
  | .absorb _ => .isTrue trivial
  | .finish => .isTrue trivial
  | .kill => .isTrue trivial

/-- Jobs of one account, group and window length. -/
def DayJobs (account logGroup : String) (s : Sys) (l : SysLabel) : Prop :=
  SameGroup account logGroup s l ∧ OneGrid logGroup dayMs s l

instance DayJobs.decidable (account logGroup : String) (s : Sys) (l : SysLabel) :
    Decidable (DayJobs account logGroup s l) :=
  inferInstanceAs (Decidable (SameGroup account logGroup s l ∧ OneGrid logGroup dayMs s l))

open Concrete in
/-- A day that was drained and then repaired. -/
theorem listed_unclobbered_days : ∃ (s t : Sys) (m : Manifest), m.objects.length = 1 ∧
    t.holdsManifest jobEnv (windowKey "s4logs" "123456789012" "/g" ⟨0, dayMs⟩)
      (fun m => m.objects.length == 2) = true ∧
    ∀ o ∈ m.objects, ∃ body, s.archive.objects o.dataKey = some body ∧
      t.archive.objects o.dataKey = some body := by
  obtain ⟨s, hfirst, hboth⟩ := LTS.replay_spec (by decide +kernel :
    LTS.replay (sysStep jobEnv) (DayJobs "123456789012" "/g") (system [] [])
      (drainEvents [eventAt 5 "a"]) (fun s =>
        s.holdsManifest jobEnv (windowKey "s4logs" "123456789012" "/g" ⟨0, dayMs⟩)
            (fun m => m.objects.length == 1) &&
          LTS.replay (sysStep jobEnv) (DayJobs "123456789012" "/g") s
            (repairEvents [eventAt 5 "a", eventAt 3 "b"]) (Sys.holdsManifest jobEnv
              (windowKey "s4logs" "123456789012" "/g" ⟨0, dayMs⟩)
              fun m => m.objects.length == 2)) = true)
  simp only [Bool.and_eq_true] at hboth
  obtain ⟨bytes, m, hbytes, hm, hone⟩ := Sys.holdsManifest_spec hboth.1
  obtain ⟨t, hsecond, htwo⟩ := LTS.replay_spec hboth.2
  have hdays : ∀ s l, DayJobs "123456789012" "/g" s l →
      SameGroup "123456789012" "/g" s l ∧ Windowed (GridWindow dayMs) s l :=
    fun _ _ h => ⟨h.1, h.2.windowed⟩
  obtain ⟨-, hlisted⟩ := listed_unclobbered jobEnv "123456789012" "/g" (GridWindow dayMs)
    (fun w w' h h' heq => h.ext h' heq) (system [] []) s t rfl rfl
    (hfirst.mono hdays) (hsecond.mono hdays)
  refine ⟨s, t, m, by simpa using hone, htwo, fun o ho => ?_⟩
  obtain ⟨body, hs, ht, -⟩ := hlisted _ bytes m hbytes hm o ho
  exact ⟨body, hs, ht⟩

namespace Concrete

/-- A job over the first hour, in windows of an hour. -/
def hourOptions : DrainOptions :=
  { jobOptions 1 with toMs := some 3600000, windowMs := 3600000 }

/-- The first hour is drained with these events on one page, all in one object. -/
def drainHour (events : List CwEvent) : List SysLabel :=
  [.start .drain hourOptions (preamble []), .spawn, .task 0 (.get true),
    .task 0 (.page 0 (some ⟨events, none⟩))] ++
    events.map (fun _ => .task 0 .event) ++ [.task 0 .endPages] ++ putChunk ++
    [.task 0 (.putManifest true 2), .absorb 0, .finish]

/-- A manifest of the first state lists an object that has the length of its entry
there and another length in the second state. -/
def clobbers (key : String) (s t : Sys) : Bool :=
  s.holdsManifest jobEnv key fun m => m.objects.any fun o =>
    match s.archive.objects o.dataKey, t.archive.objects o.dataKey with
    | some body, some body' => body.length == o.bodyLen && body'.length != o.bodyLen
    | _, _ => false

/-- What a run of these jobs leaves is clobbered by the next one. -/
def clobbered (key : String) (next : List SysLabel) (s : Sys) : Bool :=
  LTS.replay (sysStep jobEnv) (SameGroup "123456789012" "/g") s next (clobbers key s)

end Concrete

open Concrete in
/-- The first hour of a day, drained after the day, has the data key of the day. -/
theorem hour_clobbers_day :
    ((⟨0, dayMs⟩ : Window) ≠ ⟨0, 3600000⟩ ∧
      ownKey jobEnv (jobOptions 1) ⟨0, dayMs⟩ .base 0 =
        ownKey jobEnv (jobOptions 1) ⟨0, 3600000⟩ .base 0) ∧
    ∃ s t, LTS.Reaches (sysStep jobEnv) (SameGroup "123456789012" "/g") (system [] []) s ∧
      LTS.Reaches (sysStep jobEnv) (SameGroup "123456789012" "/g") s t ∧
      clobbers (windowKey "s4logs" "123456789012" "/g" ⟨0, dayMs⟩) s t = true := by
  refine ⟨⟨by decide, by decide +kernel⟩, ?_⟩
  obtain ⟨s, hfirst, hclobbered⟩ := LTS.replay_spec (by decide +kernel :
    LTS.replay (sysStep jobEnv) (SameGroup "123456789012" "/g") (system [] [])
      (drainEvents [eventAt 5 "a", eventAt 7200000 "b"])
      (clobbered (windowKey "s4logs" "123456789012" "/g" ⟨0, dayMs⟩)
        (drainHour [eventAt 5 "a"])) = true)
  obtain ⟨t, hsecond, hclobbers⟩ := LTS.replay_spec hclobbered
  exact ⟨s, t, hfirst, hsecond, hclobbers⟩

end S4Logs
