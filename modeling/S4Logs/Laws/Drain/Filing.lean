import S4Logs.Laws.Drain.Filed
import S4Logs.Laws.Drain.Run

/-!
# A window from its first await to its last

`PhaseHeld` follows one window from the archive it began in. Up to its last step
the manifest key is as it was found, and what was read there decides the naming;
in between the window files what it pushes, into slots of that naming; at the end
it has either left the key alone or written the manifest of all it filed.

The books may carry any property that the moves keep and the start has
(`WindowRule`), so each theorem about what a window does adds only its own
bookkeeping.
-/

namespace S4Logs

variable {env : Env} {opts : DrainOptions} {shards : Option (List (List String))} {w w' : Window}
variable {a a₀ : Archive} {events : List CwEvent} {kind : JobKind}

/-- What the window has read at its manifest key: this manifest, or no proof of it. -/
def Looked (env : Env) (opts : DrainOptions) (a : Archive) (w : Window) : Option Manifest → Prop
  | none => ∀ bytes, a.manifests (taskKey env opts w) = some bytes →
    manifestCoversWindow env.serde bytes opts.account opts.logGroup w = false
  | some m => ∃ bytes, a.manifests (taskKey env opts w) = some bytes ∧
    Manifest.fromJsonBytes env.serde bytes = .ok m

/-- The manifest key is as it was. -/
def Unmoved (env : Env) (opts : DrainOptions) (a₀ a : Archive) (w : Window) : Prop :=
  a.manifests (taskKey env opts w) = a₀.manifests (taskKey env opts w)

/-- The window wrote its manifest, or repaired nothing. -/
def Concluded (env : Env) (opts : DrainOptions) (a₀ a : Archive) (w : Window) (wk : Work) : Prop :=
  (∃ nowMs, a.manifests (taskKey env opts w) =
    some ((Work.manifest opts w wk nowMs).toJsonBytes env.serde)) ∨
  (wk.prior ≠ none ∧ wk.appended = 0 ∧ Unmoved env opts a₀ a w)

/-- How a window ended: it was covered already, or it filed what it pushed. -/
def Outcome (env : Env) (opts : DrainOptions) (B : Work → Prop) (a₀ a : Archive) (w : Window)
    (out : WindowOutcome) : Prop :=
  (out = .skip ∧ Unmoved env opts a₀ a w) ∨
  ∃ wk naming, out = wk.outcome ∧ Looked env opts a₀ w wk.prior ∧ NamedFor wk.prior naming ∧ B wk ∧
    (opts.dryRun = true → Unmoved env opts a₀ a w) ∧
    (opts.dryRun = false → Finished env anyEtag opts w naming a.objects wk ∧
      Concluded env opts a₀ a w wk)

/-- A window since the archive was `a₀`. `R` holds of what it reads and `B` of its
books. -/
def PhaseHeld (env : Env) (opts : DrainOptions) (R : Manifest → List ManifestObject → List Nat → Prop)
    (B : Work → Prop) (a₀ a : Archive) (w : Window) : Phase → Prop
  | .look => Unmoved env opts a₀ a w
  | .lookup => Unmoved env opts a₀ a w
  | .read m rest seen =>
    Unmoved env opts a₀ a w ∧ Looked env opts a₀ w (some m) ∧ R m rest seen
  | .work wk at_ => Unmoved env opts a₀ a w ∧ Looked env opts a₀ w wk.prior ∧ B wk ∧
    ∃ naming, NamedFor wk.prior naming ∧ WorkFiled env anyEtag opts w naming a.objects wk at_
  | .done out => Outcome env opts B a₀ a w out
  | .failed _ => Unmoved env opts a₀ a w

/-- The same of a window wherever it is. -/
def StageHeld (env : Env) (opts : DrainOptions) (R : Manifest → List ManifestObject → List Nat → Prop)
    (B : Work → Prop) (a₀ a : Archive) (w : Window) : Stage → Prop
  | .queued => Unmoved env opts a₀ a w
  | .active p => PhaseHeld env opts R B a₀ a w p
  | .closed out => Outcome env opts B a₀ a w out

/-- A property of the reading and of the books that a window keeps. `K` is what is
known of the archive whenever the window moves, and `guard` what is assumed of the
answers. -/
structure WindowRule (env : Env) (opts : DrainOptions) (shards : Option (List (List String)))
    (w : Window) (a₀ : Archive) (K : Archive → Prop) (guard : Work → TaskLabel → Prop)
    (R : Manifest → List ManifestObject → List Nat → Prop) (B : Work → Prop) : Prop
    extends BookRule w guard B where
  found : ∀ {m}, Looked env opts a₀ w (some m) → R m m.objects []
  read : ∀ {a m obj rest seen body ids}, K a → Looked env opts a₀ w (some m) →
    R m (obj :: rest) seen → a.objects obj.dataKey = some body →
    objectIdentities env.lib obj body = .ok ids → R m rest (ids ++ seen)
  fresh : ∀ {events}, B (Work.start opts shards w none .base [] events)
  again : ∀ {m seen attempt events}, Looked env opts a₀ w (some m) → R m [] seen →
    nextAttempt m = some attempt → attempt < 100 →
    B (Work.start opts shards w (some m) (.reconcile attempt) seen events)

/-- What a window writes, by what it has read: into slots of the naming that goes
with it, or the manifest of its work. -/
def WindowWrites (env : Env) (opts : DrainOptions) (w : Window) (wk : Work) (naming : ObjectNaming)
    (objects : String → Option Bytes) (writes : List StoreWrite) : Prop :=
  (∀ write ∈ writes, SlotWrite env opts w naming write) ∨
  ∃ nowMs, wk.needsManifest opts = true ∧ Finished env anyEtag opts w naming objects wk ∧ writes =
    [.manifest (taskKey env opts w) ((Work.manifest opts w wk nowMs).toJsonBytes env.serde)]

variable {K : Archive → Prop} {guard : Work → TaskLabel → Prop}
variable {R : Manifest → List ManifestObject → List Nat → Prop} {B : Work → Prop}
variable {W : String → Window → Prop}

theorem readNext_held {m : Manifest} {rest : List ManifestObject} {seen : List Nat}
    (rule : WindowRule env opts shards w a₀ K guard R B) (hunmoved : Unmoved env opts a₀ a w)
    (hlooked : Looked env opts a₀ w (some m)) (hread : R m rest seen) :
    PhaseHeld env opts R B a₀ a w (readNext opts shards w m rest seen events) := by
  rcases readNext_spec (w := w) m rest seen
    with heq | ⟨e, heq⟩ | ⟨attempt, rfl, hnext, hlt, heq⟩
  · rw [heq]
    exact ⟨hunmoved, hlooked, hread⟩
  · rw [heq]
    exact hunmoved
  · rw [heq]
    obtain ⟨-, hbooks, hfiled⟩ := start_filed env a.objects
      (rule.again hlooked hread hnext hlt)
    exact ⟨hunmoved, hlooked, hbooks, _, ⟨attempt, rfl, hnext, hlt⟩, hfiled⟩

/-- A window that has ended takes no step. -/
theorem taskStep_ended {p : Phase} {l : TaskLabel} (h : (∃ out, p = .done out) ∨ ∃ e, p = .failed e) :
    taskStep env opts shards w a events p l = none := by
  rcases h with ⟨out, rfl⟩ | ⟨e, rfl⟩
  · cases l <;> rfl
  · cases l <;> rfl

/-- A step of a window keeps its account, and writes what the window may write. -/
theorem taskStep_held {p p' : Phase} {l : TaskLabel} {writes : List StoreWrite}
    (rule : WindowRule env opts shards w a₀ K guard R B) (hK : K a)
    (answers : ∀ wk at_, p = .work wk at_ → guard wk l)
    (hstep : taskStep env opts shards w a events p l = some (p', writes))
    (h : PhaseHeld env opts R B a₀ a w p) :
    PhaseHeld env opts R B a₀ (applyWrites a writes) w p' ∧
      (writes = [] ∨ ∃ wk at_ naming, p = .work wk at_ ∧ Looked env opts a₀ w wk.prior ∧
        NamedFor wk.prior naming ∧ B wk ∧
        WindowWrites env opts w wk naming a.objects writes) := by
  have move := taskStep_move hstep
  cases p with
  | look =>
    cases move with
    | fail => exact ⟨h, .inl rfl⟩
    | absent => exact ⟨h, .inl rfl⟩
    | found hbytes hm =>
      have hlooked : Looked env opts a₀ w (some _) := ⟨_, h ▸ hbytes, hm⟩
      exact ⟨readNext_held rule h hlooked (rule.found hlooked), .inl rfl⟩
  | lookup =>
    cases move with
    | fail => exact ⟨h, .inl rfl⟩
    | skip => exact ⟨.inl ⟨rfl, h⟩, .inl rfl⟩
    | begin hbare =>
      have hlooked : Looked env opts a₀ w none := fun bytes hbytes => hbare bytes (h.trans hbytes)
      obtain ⟨-, hbooks, hfiled⟩ := start_filed env a.objects rule.fresh
      exact ⟨⟨h, hlooked, hbooks, .base, rfl, hfiled⟩, .inl rfl⟩
  | read m rest seen =>
    obtain ⟨hunmoved, hlooked, hread⟩ := h
    cases move with
    | fail => exact ⟨hunmoved, .inl rfl⟩
    | readObject hbody hids =>
      exact ⟨readNext_held rule hunmoved hlooked (rule.read hK hlooked hread hbody hids), .inl rfl⟩
  | work wk at_ =>
    obtain ⟨hunmoved, hlooked, hbooks, naming, hfor, hfiled⟩ := h
    rcases work_filed rule.toBookRule (answers wk at_ rfl) (.any at_ l) move hbooks hfiled
      with ⟨hwrites, hphase⟩ | ⟨nowMs, hneeds, hfinished, rfl, rfl⟩
    · have hunmoved' : Unmoved env opts a₀ (applyWrites a writes) w := by
        unfold Unmoved
        rw [SlotWrite.manifests hwrites]
        exact hunmoved
      refine ⟨?_, .inr ⟨wk, at_, naming, rfl, hlooked, hfor, hbooks, .inl hwrites⟩⟩
      cases p' with
      | work wk' at_' =>
        obtain ⟨hprior, hbooks', hfiled'⟩ := hphase
        exact ⟨hunmoved', hprior ▸ hlooked, hbooks', naming, hprior ▸ hfor, hfiled'⟩
      | done out =>
        obtain ⟨wk', hout, hprior, hbooks', hdone⟩ := hphase
        refine .inr ⟨wk', naming, hout, hprior ▸ hlooked, hprior ▸ hfor, hbooks',
          fun _ => hunmoved', fun hdry => ?_⟩
        obtain ⟨hsome, hzero, hfinished⟩ := hdone hdry
        exact ⟨hfinished, .inr ⟨hprior ▸ hsome, hzero, hunmoved'⟩⟩
      | failed e => exact hunmoved'
      | look => exact hphase.elim
      | lookup => exact hphase.elim
      | read m rest seen => exact hphase.elim
    · refine ⟨.inr ⟨wk, naming, rfl, hlooked, hfor, hbooks, fun h => ?_, fun _ => ⟨hfinished, ?_⟩⟩,
        .inr ⟨wk, at_, naming, rfl, hlooked, hfor, hbooks, .inr ⟨nowMs, hneeds, hfinished, rfl⟩⟩⟩
      · rw [(needsManifest_iff.mp hneeds).1] at h
        cases h
      · exact .inl ⟨nowMs, applyWrites_manifest _ _ _⟩
  | done out =>
    rw [taskStep_ended (.inl ⟨out, rfl⟩)] at hstep
    cases hstep
  | failed e =>
    rw [taskStep_ended (.inr ⟨e, rfl⟩)] at hstep
    cases hstep

/-! ## What others write -/

/-- The objects in the slots of a window are as they were. -/
def SlotsKept (env : Env) (opts : DrainOptions) (w : Window) (objects objects' : String → Option Bytes) :
    Prop :=
  ∀ naming, naming.Fits → ∀ seq, ∀ key ∈ ((Slot.of opts w naming seq).location opts.logGroup).keys
    env.store.keyPrefix, objects' key = objects key

theorem Filed.beside {E : EtagLaw} {objects objects' : String → Option Bytes} {naming : ObjectNaming}
    {ww : WindowWriter} {pieces : List Piece} (hfit : naming.Fits)
    (hkept : SlotsKept env opts w objects objects')
    (h : Filed env E opts w naming objects ww pieces) : Filed env E opts w naming objects' ww pieces :=
  h.frame fun i _ => hkept naming hfit i

theorem Finished.beside {E : EtagLaw} {objects objects' : String → Option Bytes} {naming : ObjectNaming}
    {wk : Work} (hfit : naming.Fits) (hkept : SlotsKept env opts w objects objects')
    (h : Finished env E opts w naming objects wk) : Finished env E opts w naming objects' wk := by
  obtain ⟨hend, pieces, hfiled, hrest⟩ := h
  exact ⟨hend, pieces, hfiled.beside hfit hkept, hrest⟩

theorem WorkFiled.beside {E : EtagLaw} {objects objects' : String → Option Bytes} {naming : ObjectNaming}
    {wk : Work} {at_ : Await} (hfit : naming.Fits) (hkept : SlotsKept env opts w objects objects')
    (h : WorkFiled env E opts w naming objects wk at_) :
    WorkFiled env E opts w naming objects' wk at_ := by
  cases at_ with
  | pages =>
    intro hdry
    obtain ⟨pieces, held, hfiled, hrest⟩ := h hdry
    exact ⟨pieces, held, hfiled.beside hfit hkept, hrest⟩
  | put chunk stage last =>
    obtain ⟨hdry, hend, hnew, pieces, group, hfiled, hencoded, hput, hrest⟩ := h
    exact ⟨hdry, hend, hnew, pieces, group, hfiled.beside hfit hkept, hencoded,
      hput.frame (hkept naming hfit _), hrest⟩
  | manifest => exact ⟨h.1, h.2.beside hfit hkept⟩

theorem Outcome.beside {a' : Archive} {out : WindowOutcome}
    (hkept : SlotsKept env opts w a.objects a'.objects)
    (hkey : a'.manifests (taskKey env opts w) = a.manifests (taskKey env opts w))
    (h : Outcome env opts B a₀ a w out) : Outcome env opts B a₀ a' w out := by
  have hunmoved : Unmoved env opts a₀ a w → Unmoved env opts a₀ a' w := hkey.trans
  rcases h with ⟨hout, hh⟩ | ⟨wk, naming, hout, hlooked, hfor, hbooks, hdry, hwet⟩
  · exact .inl ⟨hout, hunmoved hh⟩
  · refine .inr ⟨wk, naming, hout, hlooked, hfor, hbooks, fun h => hunmoved (hdry h), fun h => ?_⟩
    obtain ⟨hfinished, hconcluded⟩ := hwet h
    refine ⟨hfinished.beside hfor.fits hkept, ?_⟩
    rcases hconcluded with ⟨nowMs, hwritten⟩ | ⟨hsome, hzero, hh⟩
    · exact .inl ⟨nowMs, hkey.trans hwritten⟩
    · exact .inr ⟨hsome, hzero, hunmoved hh⟩

/-- A window does not see what is written beside its slots and its manifest. -/
theorem StageHeld.beside {a' : Archive} {st : Stage}
    (hkept : SlotsKept env opts w a.objects a'.objects)
    (hkey : a'.manifests (taskKey env opts w) = a.manifests (taskKey env opts w))
    (h : StageHeld env opts R B a₀ a w st) : StageHeld env opts R B a₀ a' w st := by
  have hunmoved : Unmoved env opts a₀ a w → Unmoved env opts a₀ a' w := hkey.trans
  cases st with
  | queued => exact hunmoved h
  | closed out => exact Outcome.beside hkept hkey h
  | active p =>
    cases p with
    | look => exact hunmoved h
    | lookup => exact hunmoved h
    | read m rest seen => exact ⟨hunmoved h.1, h.2⟩
    | work wk at_ =>
      obtain ⟨hh, hlooked, hbooks, naming, hfor, hfiled⟩ := h
      exact ⟨hunmoved hh, hlooked, hbooks, naming, hfor, hfiled.beside hfor.fits hkept⟩
    | done out => exact Outcome.beside hkept hkey h
    | failed e => exact hunmoved h

/-! ## A run -/

/-- The slots of a window lie beside what another window writes. -/
theorem WindowWrites.beside {wk : Work} {naming : ObjectNaming} {objects : String → Option Bytes}
    {writes : List StoreWrite} (apart : Apart W) (hw : W opts.account w) (hw' : W opts.account w')
    (hne : w' ≠ w) (hfit : naming.Fits)
    (h : WindowWrites env opts w wk naming objects writes) :
    SlotsKept env opts w' a.objects (applyWrites a writes).objects ∧
      (applyWrites a writes).manifests (taskKey env opts w') =
        a.manifests (taskKey env opts w') := by
  rcases h with hslots | ⟨nowMs, -, -, rfl⟩
  · refine ⟨fun naming' hfit' seq' key' hkey' => applyWrites_objects fun write hwrite body heq => ?_,
      congrFun (SlotWrite.manifests hslots) _⟩
    obtain ⟨seq, key, body', rfl, hkey⟩ := hslots write hwrite
    obtain ⟨rfl, -⟩ := StoreWrite.object.inj heq
    have hslot : Slot.of opts w naming seq ≠ Slot.of opts w' naming' seq' :=
      fun heq => hne (congrArg Slot.window heq).symm
    exact Slot.keys_apart apart ⟨hw, hfit⟩ ⟨hw', hfit'⟩ hslot hkey hkey'
  · refine ⟨fun _ _ _ _ _ => rfl, applyWrites_manifests fun write hwrite body heq => ?_⟩
    rw [List.mem_singleton.mp hwrite] at heq
    obtain ⟨hkeys, -⟩ := StoreWrite.manifest.inj heq
    exact hne (windowKey_injective (apart.nonneg hw) (apart.nonneg hw') hkeys).2.symm

/-- What a move of a window in a run writes. -/
def StageWrites (env : Env) (opts : DrainOptions) (B : Work → Prop) (a₀ a : Archive) (w : Window)
    (writes : List StoreWrite) : Prop :=
  writes = [] ∨ ∃ wk naming, Unmoved env opts a₀ a w ∧ Looked env opts a₀ w wk.prior ∧
    NamedFor wk.prior naming ∧ B wk ∧ WindowWrites env opts w wk naming a.objects writes

/-- The guard of a work, as one of the phases of a window. -/
def WorkAnswers (guard : List CwEvent → Window → Work → TaskLabel → Prop) (events : List CwEvent)
    (w : Window) : Phase → TaskLabel → Prop
  | .work wk _, l => guard events w wk l
  | _, _ => True

/-- A move of a window in a run keeps its account. -/
theorem StageMove.held {guard : List CwEvent → Window → Work → TaskLabel → Prop} {st st' : Stage}
    {writes : List StoreWrite}
    (rule : WindowRule env opts shards w a₀ K (guard events w) R B) (hK : K a)
    (move : StageMove env (WorkAnswers guard events w) kind opts shards w a events st st' writes)
    (h : StageHeld env opts R B a₀ a w st) :
    StageHeld env opts R B a₀ (applyWrites a writes) w st' ∧
      StageWrites env opts B a₀ a w writes := by
  cases move with
  | spawn => cases kind <;> exact ⟨h, .inl rfl⟩
  | close => exact ⟨h, .inl rfl⟩
  | @task p p' l _ answers hstep =>
    obtain ⟨hheld, hwrites⟩ := taskStep_held rule hK
      (fun wk at_ hp => by subst hp; exact answers) hstep h
    refine ⟨hheld, hwrites.imp_right ?_⟩
    rintro ⟨wk, at_, naming, rfl, hlooked, hfor, hbooks, hwrites⟩
    exact ⟨wk, naming, h.1, hlooked, hfor, hbooks, hwrites⟩

/-- The other windows of the run do not see the move. -/
theorem StageWrites.others {writes : List StoreWrite} {st : Stage} (apart : Apart W)
    (hw : W opts.account w) (hw' : W opts.account w') (hne : w' ≠ w)
    (hwrites : StageWrites env opts B a₀ a w writes)
    {R' : Manifest → List ManifestObject → List Nat → Prop} {B' : Work → Prop}
    (h : StageHeld env opts R' B' a₀ a w' st) :
    StageHeld env opts R' B' a₀ (applyWrites a writes) w' st := by
  rcases hwrites with rfl | ⟨wk, naming, -, -, hfor, -, hwrites⟩
  · exact h
  · obtain ⟨hkept, hkey⟩ := hwrites.beside (a := a) apart hw hw' hne hfor.fits
    exact h.beside hkept hkey

end S4Logs
