import S4Logs.Drain.Groups
import S4Logs.Laws.Drain.Covered

/-!
# The keys of one group

All that a job stores lies under the keys of its group, and so does all that it reads back:
its manifests, and the objects they list. Under one account the keys of different groups are
apart. So two stores that agree on the keys of a group are one store to the group's job
(`sysStep_congr`), and what another group's job writes is beside them.
-/

namespace S4Logs

variable {keyPrefix account logGroup logGroup' : String}

/-- The key lies under the group in one of the three families. -/
def GroupKey (keyPrefix account logGroup key : String) : Prop :=
  ∃ seg ∈ [dataSeg, indexSeg, manifestSeg], ∃ rest, key = normPrefix keyPrefix ++ seg ++
    "/account=" ++ account ++ "/loggroup=" ++ sanitizeLogGroup logGroup ++ "/" ++ rest

/-- The keys of different groups are apart. -/
theorem GroupKey.apart {key : String} (h : GroupKey keyPrefix account logGroup key)
    (h' : GroupKey keyPrefix account logGroup' key) : logGroup = logGroup' := by
  obtain ⟨seg, hseg, rest, hkey⟩ := h
  obtain ⟨seg', hseg', rest', hkey'⟩ := h'
  have hsegs : seg = seg' := by
    by_contra hne
    have hunder : UnderSeg keyPrefix seg key := ⟨_, by rw [hkey]; simp only [String.append_assoc]; rfl⟩
    have hunder' : UnderSeg keyPrefix seg' key := ⟨_, by rw [hkey']; simp only [String.append_assoc]; rfl⟩
    simp only [List.mem_cons, List.not_mem_nil, or_false] at hseg hseg'
    rcases hseg with rfl | rfl | rfl <;> rcases hseg' with rfl | rfl | rfl <;>
      first
        | exact hne rfl
        | exact hunder.ne hunder' (by decide) (by decide) (by decide) rfl
  subst hsegs
  have hlist := congrArg String.toList (hkey.symm.trans hkey')
  simp only [String.toList_append, List.append_assoc] at hlist
  have hrest := List.append_cancel_left (List.append_cancel_left (List.append_cancel_left
    (List.append_cancel_left (List.append_cancel_left hlist))))
  obtain ⟨hgroup, -⟩ := Text.append_cons_inj '/' (slash_notMem_sanitizeLogGroup logGroup)
    (slash_notMem_sanitizeLogGroup logGroup') hrest
  exact sanitizeLogGroup_injective (String.toList_inj.mp hgroup)

/-- Where a location's keys lie. -/
theorem groupKey_location {loc : ChunkLocation} {key : String} (hkey : key ∈ loc.keys keyPrefix) :
    GroupKey keyPrefix loc.account loc.logGroup key := by
  simp only [ChunkLocation.keys, List.mem_cons, List.not_mem_nil, or_false] at hkey
  rcases hkey with rfl | rfl | rfl
  · refine ⟨dataSeg, by decide, "dt=" ++ loc.date ++ "/" ++ loc.name ++ dataSuffix, ?_⟩
    rw [← String.toList_inj]
    simp only [ChunkLocation.dataKey, ChunkLocation.tail, String.toList_append, List.append_assoc]
    rfl
  · refine ⟨indexSeg, by decide, "dt=" ++ loc.date ++ "/" ++ loc.name ++ dataSuffix ++
      indexSidecarSuffix, ?_⟩
    rw [← String.toList_inj]
    simp only [ChunkLocation.indexKey, ChunkLocation.tail, String.toList_append, List.append_assoc]
    rfl
  · refine ⟨indexSeg, by decide, "dt=" ++ loc.date ++ "/" ++ loc.name ++ dataSuffix ++
      tsSidecarSuffix, ?_⟩
    rw [← String.toList_inj]
    simp only [ChunkLocation.tsIndexKey, ChunkLocation.tail, String.toList_append,
      List.append_assoc]
    rfl

theorem groupKey_window (w : Window) :
    GroupKey keyPrefix account logGroup (windowKey keyPrefix account logGroup w) := by
  refine ⟨manifestSeg, by decide, "window=" ++ toString w.startMs ++ "-" ++ toString w.endMs ++
    ".json", ?_⟩
  rw [← String.toList_inj]
  simp only [windowKey, manifestKey, String.toList_append, List.append_assoc]
  rfl

theorem ChunkLocation.dataKey_mem_keys (loc : ChunkLocation) (keyPrefix : String) :
    loc.dataKey keyPrefix ∈ loc.keys keyPrefix := List.mem_cons_self

theorem groupKey_object (w : Window) (naming : ObjectNaming) (seq : Nat) :
    GroupKey keyPrefix account logGroup (objectKey keyPrefix account logGroup w naming seq) := by
  have hkey := groupKey_location
    ((objectLocation account logGroup w naming seq).dataKey_mem_keys keyPrefix)
  exact hkey

theorem groupKey_put (env : Env) (loc : ChunkLocation) (chunk : EncodedChunk) (stage : PutStage) :
    GroupKey env.store.keyPrefix loc.account loc.logGroup
      (putRequest env.lib env.store loc chunk stage).1 := by
  refine groupKey_location ?_
  cases stage with
  | data => exact List.mem_cons_self
  | index etag => exact List.mem_cons_of_mem _ List.mem_cons_self
  | tsIndex etag => exact List.mem_cons_of_mem _ (List.mem_cons_of_mem _ List.mem_cons_self)

/-! ## Stores that agree on some keys -/

def StoreWrite.key : StoreWrite → String
  | .object key _ => key
  | .manifest key _ => key

/-- The stores hold the same under these keys. -/
def Archive.Agree (K : String → Prop) (a b : Archive) : Prop :=
  ∀ key, K key → a.objects key = b.objects key ∧ a.manifests key = b.manifests key

namespace Archive.Agree

variable {K : String → Prop} {a b c : Archive}

theorem refl (a : Archive) : Agree K a a := fun _ _ => ⟨rfl, rfl⟩

theorem trans (h : Agree K a b) (h' : Agree K b c) : Agree K a c := fun key hkey =>
  ⟨(h key hkey).1.trans (h' key hkey).1, (h key hkey).2.trans (h' key hkey).2⟩

/-- A write does the same to both. -/
theorem apply (h : Agree K a b) (write : StoreWrite) :
    Agree K (write.apply a) (write.apply b) := by
  intro key hkey
  obtain ⟨hobjects, hmanifests⟩ := h key hkey
  cases write with
  | object k body =>
    refine ⟨?_, hmanifests⟩
    simp only [StoreWrite.apply, hobjects]
  | manifest k body =>
    refine ⟨hobjects, ?_⟩
    simp only [StoreWrite.apply, hmanifests]

theorem applyWrites {writes : List StoreWrite} : ∀ {a b : Archive}, Agree K a b →
    Agree K (applyWrites a writes) (applyWrites b writes) := by
  induction writes with
  | nil => exact fun h => h
  | cons write writes ih => exact fun h => ih (h.apply write)

/-- Writes under other keys leave these alone. -/
theorem beside {writes : List StoreWrite} (h : ∀ write ∈ writes, ¬ K write.key) :
    Agree K (S4Logs.applyWrites a writes) a := by
  intro key hkey
  refine ⟨applyWrites_objects fun write hwrite body heq => ?_,
    applyWrites_manifests fun write hwrite body heq => ?_⟩
  · subst heq
    exact h _ hwrite hkey
  · subst heq
    exact h _ hwrite hkey

end Archive.Agree

/-! ## What a job reads back -/

/-- A manifest under these keys lists objects under them. -/
def Listing (S : Serde Manifest) (K : String → Prop) (a : Archive) : Prop :=
  ∀ key bytes m, K key → a.manifests key = some bytes → Manifest.fromJsonBytes S bytes = .ok m →
    ∀ o ∈ m.objects, K o.dataKey

theorem Listing.congr {S : Serde Manifest} {K : String → Prop} {a b : Archive}
    (h : Listing S K a) (hagree : Archive.Agree K b a) : Listing S K b :=
  fun key bytes m hkey hbytes => h key bytes m hkey ((hagree key hkey).2.symm.trans hbytes)

/-- What the window has listed lies under these keys. -/
def WorkOwns (K : String → Prop) (wk : Work) : Prop :=
  (∀ m, wk.prior = some m → ∀ o ∈ m.objects, K o.dataKey) ∧ ∀ o ∈ wk.ww.objects, K o.dataKey

def PhaseOwns (K : String → Prop) : Phase → Prop
  | .read m rest _ => (∀ o ∈ m.objects, K o.dataKey) ∧ ∀ o ∈ rest, K o.dataKey
  | .work wk _ => WorkOwns K wk
  | _ => True

section Phases

variable {env : Env} {opts : DrainOptions} {shards : Option (List (List String))} {w : Window}
variable {a b : Archive} {events : List CwEvent} {K : String → Prop}

theorem resume_owns {wk : Work} {last : Bool} (h : WorkOwns K wk) :
    PhaseOwns K (wk.resume opts last) :=
  resume_rule (fun _ => h) (fun _ _ => h) fun _ _ => trivial

theorem flush_owns {wk : Work} {writer : ChunkWriter} {last : Bool} (h : WorkOwns K wk) :
    PhaseOwns K (wk.flush env opts writer last) := by
  unfold Work.flush WindowWriter.flush
  rcases writer.finish env.lib with e | (_ | chunk)
  · trivial
  · exact resume_owns h
  · cases hdry : opts.dryRun with
    | true => exact resume_owns (show WorkOwns K
        { wk with ww := { wk.ww.count chunk with seq := wk.ww.seq + 1 } } from h)
    | false => exact h

theorem push_owns {wk : Work} {ev : CwEvent} (h : WorkOwns K wk) :
    PhaseOwns K (wk.push env opts ev) :=
  push_rule (fun _ => trivial) (fun _ _ _ => flush_owns h) fun _ _ _ => h

theorem event_owns {wk : Work} {ev : CwEvent} {rest : List CwEvent} (h : WorkOwns K wk) :
    PhaseOwns K (wk.event env opts w ev rest) :=
  event_rule (fun _ => h) (fun _ _ => push_owns h) (fun _ _ _ => h) fun _ _ _ => push_owns h

theorem readNext_owns {m : Manifest} {rest : List ManifestObject} {seen : List Nat}
    (hm : ∀ o ∈ m.objects, K o.dataKey) (hrest : ∀ o ∈ rest, K o.dataKey) :
    PhaseOwns K (readNext opts shards w m rest seen events) := by
  rcases readNext_spec m rest seen with h | ⟨e, h⟩ | ⟨attempt, -, -, -, h⟩
  · rw [h]
    exact ⟨hm, hrest⟩
  · rw [h]
    trivial
  · rw [h]
    refine ⟨fun m' hm' => ?_, fun o ho => absurd ho List.not_mem_nil⟩
    cases hm'
    exact hm

/-- To a window's task, stores that agree on the keys it may read are one store. -/
theorem taskStep_congr {p : Phase} {l : TaskLabel} (h : Archive.Agree K a b)
    (hkey : K (taskKey env opts w)) (hp : PhaseOwns K p) :
    taskStep env opts shards w a events p l = taskStep env opts shards w b events p l := by
  have hmanifest := (h _ hkey).2
  cases p with
  | look =>
    cases l with
    | get answered => cases answered <;> simp only [taskStep, hmanifest]
    | _ => rfl
  | lookup =>
    cases l with
    | get answered => cases answered <;> simp only [taskStep, hmanifest]
    | _ => rfl
  | read m rest seen =>
    cases rest with
    | nil => cases l <;> rfl
    | cons obj rest =>
      have hobject := (h _ (hp.2 obj List.mem_cons_self)).1
      cases l with
      | readObject answered => cases answered <;> simp only [taskStep, hobject]
      | _ => rfl
  | work wk at_ => cases at_ <;> cases l <;> rfl
  | done out => cases l <;> rfl
  | failed e => cases l <;> rfl

/-- The keys of an options' group. -/
abbrev OwnKey (env : Env) (opts : DrainOptions) : String → Prop :=
  GroupKey env.store.keyPrefix opts.account opts.logGroup

theorem putNext_receipt {cfg : StoreConfig} {loc : ChunkLocation} {chunk : EncodedChunk}
    {etag : Option String} {stage : PutStage} {receipt : PutReceipt}
    (h : putNext cfg loc chunk etag stage = .inr receipt) :
    loc.dataKey cfg.keyPrefix = receipt.dataKey := by
  cases stage with
  | data => cases h
  | index etag => cases h
  | tsIndex etag =>
    cases h
    rfl

theorem stored_owns {wk : Work} {chunk : EncodedChunk} {receipt : PutReceipt}
    (h : WorkOwns K wk) (hkey : K receipt.dataKey) :
    WorkOwns K { wk with ww := wk.ww.stored chunk receipt } := by
  refine ⟨h.1, fun o ho => ?_⟩
  rcases List.mem_append.mp ho with ho | ho
  · exact h.2 o ho
  · rw [List.mem_singleton.mp ho]
    exact hkey

/-- What a manifest reads back as is the manifest. -/
theorem fromJsonBytes_written {S : Serde Manifest} {m m' : Manifest}
    (h : Manifest.fromJsonBytes S (m.toJsonBytes S) = .ok m') : m' = m := by
  simp only [Manifest.fromJsonBytes, Manifest.toJsonBytes, S.fromSlice_toVec] at h
  split at h
  · cases h
  · exact (Except.ok.inj h).symm

theorem manifest_owns {wk : Work} {nowMs : Int} (h : WorkOwns K wk) :
    ∀ o ∈ (Work.manifest opts w wk nowMs).objects, K o.dataKey := by
  intro o ho
  cases hprior : wk.prior with
  | none =>
    simp only [Work.manifest, hprior] at ho
    exact h.2 o ho
  | some m =>
    simp only [Work.manifest, hprior] at ho
    rcases List.mem_append.mp ho with ho | ho
    · exact h.1 m hprior o ho
    · exact h.2 o ho

/-- A task reads and writes under its group's keys, and leaves manifests that list
objects under them. -/
theorem TaskMove.owns {p p' : Phase} {l : TaskLabel} {writes : List StoreWrite}
    (move : TaskMove env opts shards w a events p l p' writes)
    (hlisting : Listing env.serde (OwnKey env opts) a) (hp : PhaseOwns (OwnKey env opts) p) :
    PhaseOwns (OwnKey env opts) p' ∧ (∀ write ∈ writes, OwnKey env opts write.key) ∧
      Listing env.serde (OwnKey env opts) (applyWrites a writes) := by
  have hnone : ∀ {write : StoreWrite}, write ∈ [] → OwnKey env opts write.key :=
    fun h => absurd h List.not_mem_nil
  cases move with
  | fail => exact ⟨trivial, fun _ => hnone, hlisting⟩
  | absent => exact ⟨trivial, fun _ => hnone, hlisting⟩
  | found hbytes hm =>
    have hobjects := hlisting _ _ _ (groupKey_window w) hbytes hm
    exact ⟨readNext_owns hobjects hobjects, fun _ => hnone, hlisting⟩
  | skip => exact ⟨trivial, fun _ => hnone, hlisting⟩
  | begin =>
    exact ⟨⟨fun _ h => (by cases h), fun o ho => absurd ho List.not_mem_nil⟩, fun _ => hnone, hlisting⟩
  | readObject =>
    exact ⟨readNext_owns hp.1 fun o ho => hp.2 o (List.mem_cons_of_mem _ ho), fun _ => hnone,
      hlisting⟩
  | page => exact ⟨hp, fun _ => hnone, hlisting⟩
  | event => exact ⟨event_owns hp, fun _ => hnone, hlisting⟩
  | endPages => exact ⟨flush_owns hp, fun _ => hnone, hlisting⟩
  | putNext =>
    refine ⟨hp, fun write hwrite => ?_, hlisting⟩
    cases List.mem_singleton.mp hwrite
    exact groupKey_put env _ _ _
  | @putDone wk chunk stage last etag receipt hnext =>
    have hloc : GroupKey env.store.keyPrefix (wk.ww.location opts).account
        (wk.ww.location opts).logGroup ((wk.ww.location opts).dataKey env.store.keyPrefix) :=
      groupKey_location List.mem_cons_self
    rw [putNext_receipt hnext] at hloc
    refine ⟨resume_owns (stored_owns hp hloc), fun write hwrite => ?_, hlisting⟩
    cases List.mem_singleton.mp hwrite
    exact groupKey_put env _ _ _
  | @putManifest wk nowMs =>
    refine ⟨trivial, fun write hwrite => ?_, fun key bytes m hkey hbytes hm => ?_⟩
    · cases List.mem_singleton.mp hwrite
      exact groupKey_window w
    · by_cases heq : key = taskKey env opts w
      · subst heq
        obtain rfl := Option.some.inj ((applyWrites_manifest a _ _).symm.trans hbytes)
        rw [fromJsonBytes_written hm]
        exact manifest_owns hp
      · refine hlisting key bytes m hkey (hbytes.symm.trans ?_).symm hm
        exact if_neg heq

/-! ## What a job sees -/

/-- The tasks of a run read under its group's keys. -/
def RunOwns (env : Env) (run : Run) : Prop :=
  ∀ t ∈ run.tasks, PhaseOwns (OwnKey env run.opts) t.phase

/-- What a step of a job does to the system it sees. -/
structure JobStep (env : Env) (run : Run) (s t : Sys) : Prop where
  events : t.events = s.events
  writes : ∃ writes, t.archive = applyWrites s.archive writes ∧
    ∀ write ∈ writes, OwnKey env run.opts write.key
  listing : Listing env.serde (OwnKey env run.opts) t.archive
  run : ∀ run', t.run = some run' → SameJob run run' ∧ RunOwns env run'

/-- Where a step writes nothing. -/
theorem JobStep.quiet {run : Run} {s t : Sys} (hevents : t.events = s.events)
    (harchive : t.archive = s.archive) (hlisting : Listing env.serde (OwnKey env run.opts) s.archive)
    (hrun : ∀ run', t.run = some run' → SameJob run run' ∧ RunOwns env run') :
    JobStep env run s t where
  events := hevents
  writes := ⟨[], harchive, fun _ h => absurd h List.not_mem_nil⟩
  listing := by rwa [harchive]
  run := hrun

theorem jobStep_owns {s t : Sys} {run : Run} {l : JobLabel} (hrun : s.run = some run)
    (hlisting : Listing env.serde (OwnKey env run.opts) s.archive) (howns : RunOwns env run)
    (h : sysStep env s l.sys = some t) : JobStep env run s t := by
  cases l with
  | spawn =>
    simp only [JobLabel.sys, sysStep, hrun] at h
    split at h
    · cases h
    · split at h
      · cases h
        refine .quiet rfl rfl hlisting fun run' hrun' => ?_
        cases hrun'
        refine ⟨⟨rfl, rfl, rfl, rfl⟩, fun t ht => ?_⟩
        rcases List.mem_append.mp ht with ht | ht
        · exact howns t ht
        · cases List.mem_singleton.mp ht
          cases run.kind <;> exact trivial
      · cases h
  | task i l =>
    simp only [JobLabel.sys, sysStep, hrun] at h
    cases ht : run.tasks[i]? with
    | none => simp only [ht, reduceCtorEq] at h
    | some task =>
      simp only [ht] at h
      obtain ⟨⟨p', writes⟩, hstep, rfl⟩ := Option.map_eq_some_iff.mp h
      obtain ⟨hphase, hwrites, hlisting'⟩ :=
        (taskStep_move hstep).owns hlisting (howns task (List.mem_of_getElem? ht))
      exact {
        events := rfl
        writes := ⟨writes, rfl, hwrites⟩
        listing := hlisting'
        run := fun run' hrun' => by
          cases hrun'
          refine ⟨⟨rfl, rfl, rfl, rfl⟩, fun t ht' => ?_⟩
          rcases List.mem_or_eq_of_mem_set ht' with hmem | rfl
          · exact howns t hmem
          · exact hphase }
  | absorb i =>
    simp only [JobLabel.sys, sysStep, hrun] at h
    cases ht : run.tasks[i]? with
    | none => simp only [ht, reduceCtorEq] at h
    | some task =>
      simp only [ht] at h
      split at h
      · cases h
        refine .quiet rfl rfl hlisting fun run' hrun' => ?_
        cases hrun'
        exact ⟨⟨rfl, rfl, rfl, rfl⟩, fun t ht' => howns t (List.mem_of_mem_eraseIdx ht')⟩
      · cases h
        exact .quiet rfl rfl hlisting fun _ h => by cases h
      · cases h
  | finish =>
    simp only [JobLabel.sys, sysStep, hrun] at h
    split at h
    · cases h
      exact .quiet rfl rfl hlisting fun _ h => by cases h
    · cases h

/-- Systems that the job cannot tell apart: the same run over the same events, and stores
that agree on the group's keys. -/
theorem jobStep_congr {s s' t : Sys} {run : Run} {l : JobLabel} (hrun : s.run = some run)
    (hrun' : s'.run = some run) (hevents : s.events = s'.events)
    (hagree : Archive.Agree (OwnKey env run.opts) s.archive s'.archive) (howns : RunOwns env run)
    (h : sysStep env s l.sys = some t) : ∃ t', sysStep env s' l.sys = some t' ∧
      t'.run = t.run ∧ t'.events = s'.events ∧
      Archive.Agree (OwnKey env run.opts) t.archive t'.archive ∧
      (t.run = none → t'.last = t.last) := by
  cases l with
  | spawn =>
    simp only [JobLabel.sys, sysStep, hrun] at h
    simp only [JobLabel.sys, sysStep, hrun']
    split at h
    · cases h
    · split at h
      · next hroom =>
        cases h
        exact ⟨_, if_pos hroom, rfl, rfl, hagree, fun h => (by cases h)⟩
      · cases h
  | task i l =>
    simp only [JobLabel.sys, sysStep, hrun] at h
    simp only [JobLabel.sys, sysStep, hrun']
    cases ht : run.tasks[i]? with
    | none => simp only [ht, reduceCtorEq] at h
    | some task =>
      simp only [ht] at h
      obtain ⟨⟨p', writes⟩, hstep, rfl⟩ := Option.map_eq_some_iff.mp h
      rw [taskStep_congr hagree (groupKey_window task.window)
        (howns task (List.mem_of_getElem? ht)), hevents] at hstep
      simp only [hstep, Option.map_some, Option.some.injEq, exists_eq_left']
      exact ⟨trivial, trivial, hagree.applyWrites, fun h => (by cases h)⟩
  | absorb i =>
    simp only [JobLabel.sys, sysStep, hrun] at h
    simp only [JobLabel.sys, sysStep, hrun']
    cases ht : run.tasks[i]? with
    | none => simp only [ht, reduceCtorEq] at h
    | some task =>
      simp only [ht] at h
      cases hphase : task.phase with
      | done out =>
        simp only [hphase] at h ⊢
        cases h
        exact ⟨_, rfl, rfl, rfl, hagree, fun h => (by cases h)⟩
      | failed e =>
        simp only [hphase] at h ⊢
        cases h
        exact ⟨_, rfl, rfl, rfl, hagree, fun _ => rfl⟩
      | look => simp only [hphase, reduceCtorEq] at h
      | lookup => simp only [hphase, reduceCtorEq] at h
      | read m rest seen => simp only [hphase, reduceCtorEq] at h
      | work wk at_ => simp only [hphase, reduceCtorEq] at h
  | finish =>
    simp only [JobLabel.sys, sysStep, hrun] at h
    simp only [JobLabel.sys, sysStep, hrun']
    split at h
    · next hend =>
      cases h
      exact ⟨_, if_pos hend, rfl, rfl, hagree, fun _ => rfl⟩
    · cases h

end Phases

end S4Logs
