import S4Logs.Laws.Drain.Filing
import S4Logs.Laws.Drain.Covered
import Mathlib.Data.List.Nodup

/-!
# Archives that jobs have left

A manifest is sound where its list is the list of some pieces, each stored in a
slot of the window, and its totals are theirs (`ManifestSound`). An archive is
sound where every manifest is sound and lies at its own key (`ArchiveSound`).

A window of a job keeps this: the slot it writes into is in no list, since it has
found no manifest or numbers its attempt above all that are listed
(`ArchiveSound.fresh`), and the manifest it ends with lists what it has filed
after what was listed before (`ArchiveSound.manifestWrite`). So lists only grow, and
what is listed never changes (`Extends`).
-/

namespace S4Logs

variable {env : Env} {opts : DrainOptions} {shards : Option (List (List String))} {w w' : Window}
variable {a a' a₀ : Archive} {events : List CwEvent} {kind : JobKind} {logGroup : String}
variable {W : String → Window → Prop} {m : Manifest} {naming : ObjectNaming} {wk : Work}

/-! ## Sound manifests -/

/-- A piece in a slot. -/
structure Filing where
  naming : ObjectNaming
  seq : Nat
  piece : Piece

/-- The window a manifest is of. -/
def Manifest.window (m : Manifest) : Window where
  startMs := m.windowStartMs
  endMs := m.windowEndMs

/-- The slot of a filing of a window. -/
def Filing.slot (account : String) (w : Window) (f : Filing) : Slot where
  account := account
  window := w
  naming := f.naming
  seq := f.seq

/-- A filing that reconcile made. -/
def Filing.isReconciled (f : Filing) : Bool :=
  match f.naming with
  | .base => false
  | .reconcile _ => true

/-- The records of some filings. -/
def filedRecords (filings : List Filing) : List LogRecord := filings.flatMap fun f => f.piece.records

/-- The number of records that reconcile has added, where it has added any. -/
def reconciledTotal (filings : List Filing) : Option Nat :=
  if filings.filter Filing.isReconciled = [] then none
  else some (filedRecords (filings.filter Filing.isReconciled)).length

/-- The pieces a window lists, in the slots of its naming. -/
def filingsOf (naming : ObjectNaming) (pieces : List Piece) : List Filing :=
  pieces.mapIdx fun i p => ⟨naming, i, p⟩

/-- The manifest lists these pieces and nothing else, and its totals are theirs. -/
structure ManifestSound (env : Env) (logGroup : String) (W : String → Window → Prop)
    (objects : String → Option Bytes) (m : Manifest) (filings : List Filing) : Prop where
  version : m.version = manifestVersion
  group : m.logGroup = logGroup
  window : W m.account m.window
  listed : m.objects = filings.map fun f =>
    f.piece.entry env ((f.slot m.account m.window).location logGroup)
  stored : ∀ f ∈ filings,
    f.piece.StoredAt env objects ((f.slot m.account m.window).location logGroup)
  encoded : ∀ f ∈ filings, ∃ cfg,
    ChunkWriter.encodeAll env.lib cfg f.piece.records = .ok (some f.piece.chunk)
  inside : ∀ r ∈ filedRecords filings, m.windowStartMs ≤ r.timestamp ∧ r.timestamp < m.windowEndMs
  fits : ∀ f ∈ filings, f.naming.Fits
  nodup : (filings.map fun f => (f.naming, f.seq)).Nodup
  first : ∀ f ∈ filings, ∃ f' ∈ filings, f'.naming = f.naming ∧ f'.seq = 0
  recordCount : m.recordCount = (filedRecords filings).length
  reconciledAdded : m.reconciledAdded = reconciledTotal filings

/-- Every manifest of the archive is sound and lies at its own key. -/
def ArchiveSound (env : Env) (logGroup : String) (W : String → Window → Prop) (a : Archive) : Prop :=
  ∀ key bytes, a.manifests key = some bytes → ∃ m filings,
    Manifest.fromJsonBytes env.serde bytes = .ok m ∧
    key = windowKey env.store.keyPrefix m.account logGroup m.window ∧
    ManifestSound env logGroup W a.objects m filings

theorem ManifestSound.slot_in {objects : String → Option Bytes} {filings : List Filing}
    (h : ManifestSound env logGroup W objects m filings) {f : Filing} (hf : f ∈ filings) :
    (f.slot m.account m.window).In W := ⟨h.window, h.fits f hf⟩

theorem ManifestSound.frame {objects objects' : String → Option Bytes} {filings : List Filing}
    (h : ManifestSound env logGroup W objects m filings)
    (heq : ∀ f ∈ filings, ∀ key ∈ ((f.slot m.account m.window).location logGroup).keys
      env.store.keyPrefix, objects' key = objects key) :
    ManifestSound env logGroup W objects' m filings :=
  { h with stored := fun f hf => (h.stored f hf).frame (heq f hf) }

/-- The manifest at a window's key names the window. -/
theorem ArchiveSound.at_key {bytes : Bytes} (apart : Apart W) (h : ArchiveSound env logGroup W a)
    (hw : W opts.account w) (hgroup : opts.logGroup = logGroup)
    (hbytes : a.manifests (taskKey env opts w) = some bytes) :
    ∃ m filings, Manifest.fromJsonBytes env.serde bytes = .ok m ∧
      m.account = opts.account ∧ m.window = w ∧
      ManifestSound env logGroup W a.objects m filings := by
  obtain ⟨m, filings, hm, hkey, hsound⟩ := h _ _ hbytes
  subst hgroup
  obtain ⟨haccount, hwindow⟩ := windowKey_injective (apart.nonneg hw) (apart.nonneg hsound.window)
    hkey
  exact ⟨m, filings, hm, haccount.symm, hwindow.symm, hsound⟩

/-- A sound manifest covers its window. -/
theorem ManifestSound.covers {objects : String → Option Bytes} {filings : List Filing} {bytes : Bytes}
    (h : ManifestSound env logGroup W objects m filings)
    (hm : Manifest.fromJsonBytes env.serde bytes = .ok m) :
    manifestCoversWindow env.serde bytes m.account logGroup m.window = true := by
  simp only [manifestCoversWindow, hm, Manifest.names, h.group, Manifest.window, beq_self_eq_true,
    Bool.and_self]

/-- A window that has found no proof has found no manifest. -/
theorem ArchiveSound.looked_none (apart : Apart W) (h : ArchiveSound env logGroup W a)
    (hw : W opts.account w) (hgroup : opts.logGroup = logGroup)
    (hlooked : Looked env opts a w none) : a.manifests (taskKey env opts w) = none := by
  by_contra hne
  obtain ⟨bytes, hbytes⟩ := Option.ne_none_iff_exists'.mp hne
  obtain ⟨m, filings, hm, haccount, hwindow, hsound⟩ := h.at_key apart hw hgroup hbytes
  have hcovers := hsound.covers hm
  rw [haccount, hwindow, ← hgroup, hlooked bytes hbytes] at hcovers
  cases hcovers

/-- The manifest a window has found is sound and names it. -/
theorem ArchiveSound.looked_some (apart : Apart W) (h : ArchiveSound env logGroup W a)
    (hw : W opts.account w) (hgroup : opts.logGroup = logGroup)
    (hlooked : Looked env opts a w (some m)) : m.account = opts.account ∧ m.window = w ∧
      ∃ filings, ManifestSound env logGroup W a.objects m filings := by
  obtain ⟨bytes, hbytes, hm⟩ := hlooked
  obtain ⟨m', filings, hm', haccount, hwindow, hsound⟩ := h.at_key apart hw hgroup hbytes
  rw [hm] at hm'
  obtain rfl := Except.ok.inj hm'
  exact ⟨haccount, hwindow, filings, hsound⟩

/-- The naming of a new attempt is in no list. -/
theorem ManifestSound.naming_fresh {objects : String → Option Bytes} {filings : List Filing}
    (h : ManifestSound env logGroup W objects m filings) (hfor : NamedFor (some m) naming) :
    ∀ f ∈ filings, f.naming ≠ naming := by
  obtain ⟨attempt, rfl, hnext, hlt⟩ := hfor
  intro f hf heq
  obtain ⟨f', hf', hnaming, hseq⟩ := h.first f hf
  have hmem : f'.piece.entry env ((f'.slot m.account m.window).location logGroup) ∈ m.objects := by
    rw [h.listed]
    exact List.mem_map_of_mem hf'
  have hkey : (f'.piece.entry env ((f'.slot m.account m.window).location logGroup)).dataKey =
      objectKey env.store.keyPrefix m.account logGroup m.window (.reconcile attempt) 0 := by
    show (objectLocation m.account logGroup m.window f'.naming f'.seq).dataKey _ = _
    rw [hnaming, heq, hseq]
    rfl
  have hread := attemptOf_first env.store.keyPrefix m.account logGroup m.window hlt
  rw [← hkey] at hread
  exact absurd ((nextAttempt_spec hnext).2 _ hmem _ hread) (Nat.lt_irrefl _)

/-- A window writes into slots that no manifest lists. -/
theorem ArchiveSound.fresh {bytes : Bytes} {key : String} (apart : Apart W)
    (h : ArchiveSound env logGroup W a) (hw : W opts.account w) (hgroup : opts.logGroup = logGroup)
    (hlooked : Looked env opts a w wk.prior) (hfor : NamedFor wk.prior naming)
    (hbytes : a.manifests key = some bytes) {filings : List Filing}
    (hm : Manifest.fromJsonBytes env.serde bytes = .ok m)
    (hkey : key = windowKey env.store.keyPrefix m.account logGroup m.window)
    (hsound : ManifestSound env logGroup W a.objects m filings) :
    ∀ f ∈ filings, ∀ seq, f.slot m.account m.window ≠ Slot.of opts w naming seq := by
  intro f hf seq heq
  have haccount : m.account = opts.account := congrArg Slot.account heq
  have hwindow : m.window = w := congrArg Slot.window heq
  have hnaming : f.naming = naming := congrArg Slot.naming heq
  have hat : a.manifests (taskKey env opts w) = some bytes := by
    rw [taskKey, hgroup, ← haccount, ← hwindow, ← hkey]
    exact hbytes
  cases hprior : wk.prior with
  | none =>
    rw [hprior] at hlooked
    rw [h.looked_none apart hw hgroup hlooked] at hat
    cases hat
  | some m' =>
    rw [hprior] at hlooked hfor
    obtain ⟨bytes', hbytes', hm'⟩ := hlooked
    rw [hat] at hbytes'
    obtain rfl := Option.some.inj hbytes'
    rw [hm] at hm'
    obtain rfl := Except.ok.inj hm'
    exact hsound.naming_fresh hfor f hf hnaming

/-! ## The manifest a window writes -/

/-- The books of a window as far as its manifest needs them. -/
structure Tally (w : Window) (wk : Work) : Prop where
  inside : ∀ ev ∈ wk.pushed, w.contains ev = true
  appended : wk.prior ≠ none → wk.appended = wk.pushed.length

theorem tally_rule (guard : Work → TaskLabel → Prop) : BookRule w guard (Tally w) where
  writer _ h := ⟨h.inside, h.appended⟩
  move := by
    intro wk wk' l _ move h
    have inside : ∀ {ev}, w.contains ev = true →
        ∀ ev' ∈ wk.pushed ++ [ev], w.contains ev' = true := by
      intro ev hev ev' hev'
      rcases List.mem_append.mp hev' with hev' | hev'
      · exact h.inside ev' hev'
      · rwa [List.mem_singleton.mp hev']
    cases move with
    | same => exact h
    | page => exact ⟨h.inside, h.appended⟩
    | dropped => exact ⟨h.inside, h.appended⟩
    | drained _ hin hnone => exact ⟨inside hin, fun hsome => absurd hnone hsome⟩
    | already => exact ⟨h.inside, h.appended⟩
    | appended _ hin hsome =>
      refine ⟨inside hin, fun _ => ?_⟩
      rw [List.length_append, List.length_singleton, ← h.appended hsome]

theorem tally_start {prior : Option Manifest} {seen : List Nat} :
    Tally w (Work.start opts shards w prior naming seen events) where
  inside _ hev := absurd hev List.not_mem_nil
  appended _ := rfl

theorem mem_filingsOf {pieces : List Piece} {f : Filing} (h : f ∈ filingsOf naming pieces) :
    f.naming = naming ∧ pieces[f.seq]? = some f.piece := by
  obtain ⟨i, hi, rfl⟩ := List.mem_mapIdx.mp h
  exact ⟨rfl, List.getElem?_eq_getElem hi⟩

theorem filedRecords_filingsOf (pieces : List Piece) :
    filedRecords (filingsOf naming pieces) = (pieces.map Piece.records).flatten := by
  have hpieces : (filingsOf naming pieces).map Filing.piece = pieces := by
    apply List.ext_getElem?
    intro i
    rw [List.getElem?_map, filingsOf, List.getElem?_mapIdx]
    cases pieces[i]? <;> rfl
  conv_rhs => rw [← hpieces]
  rw [filedRecords, List.map_map, List.flatMap]
  rfl

theorem filedRecords_append (fs gs : List Filing) :
    filedRecords (fs ++ gs) = filedRecords fs ++ filedRecords gs := List.flatMap_append

/-- The pieces of one naming are in different slots, the first of them in slot 0. -/
theorem filingsOf_slots (naming : ObjectNaming) (pieces : List Piece) :
    ((filingsOf naming pieces).map fun f => (f.naming, f.seq)).Nodup ∧
      ∀ f ∈ filingsOf naming pieces, ∃ f' ∈ filingsOf naming pieces,
        f'.naming = f.naming ∧ f'.seq = 0 := by
  constructor
  · have hseqs : (filingsOf naming pieces).map (fun f => (f.naming, f.seq)) =
        (List.range pieces.length).map fun i => (naming, i) := by
      apply List.ext_getElem?
      intro i
      rw [List.getElem?_map, filingsOf, List.getElem?_mapIdx, List.getElem?_map]
      by_cases hi : i < pieces.length
      · rw [List.getElem?_eq_getElem hi, List.getElem?_range hi]
        rfl
      · rw [List.getElem?_eq_none (Nat.le_of_not_lt hi),
          List.getElem?_eq_none (by rw [List.length_range]; exact Nat.le_of_not_lt hi)]
        rfl
    rw [hseqs]
    exact List.Nodup.map (fun i j hij => congrArg Prod.snd hij) List.nodup_range
  · intro f hf
    obtain ⟨hnaming, hpiece⟩ := mem_filingsOf hf
    have hpos : 0 < pieces.length := by
      obtain ⟨hlt, -⟩ := List.getElem?_eq_some_iff.mp hpiece
      exact Nat.lt_of_le_of_lt (Nat.zero_le _) hlt
    exact ⟨⟨naming, 0, pieces[0]⟩, List.mem_mapIdx.mpr ⟨0, hpos, rfl⟩, hnaming.symm, rfl⟩

/-- A chunk counts its records. -/
theorem encodeAll_made {lib : CodecLib} {cfg : ChunkConfig} {rs : List LogRecord}
    {chunk : EncodedChunk} (h : ChunkWriter.encodeAll lib cfg rs = .ok (some chunk)) :
    chunk.Made lib rs := by
  rcases ChunkWriter.encodeAll_spec lib cfg rs with
    ⟨hnone, -⟩ | ⟨chunk', hsome, hmade⟩ | ⟨hfail, -⟩
  · rw [h] at hnone
    cases hnone
  · rw [h] at hsome
    obtain rfl := Option.some.inj (Except.ok.inj hsome)
    exact hmade
  · rw [h] at hfail
    cases hfail

/-- The entries of filings count their records. -/
theorem entries_recordCount {filings : List Filing} (place : Filing → ChunkLocation)
    (h : ∀ f ∈ filings, ∃ cfg,
      ChunkWriter.encodeAll env.lib cfg f.piece.records = .ok (some f.piece.chunk)) :
    ((filings.map fun f => f.piece.entry env (place f)).map ManifestObject.recordCount).sum =
      (filedRecords filings).length := by
  induction filings with
  | nil => rfl
  | cons f filings ih =>
    obtain ⟨cfg, hcfg⟩ := h f List.mem_cons_self
    obtain ⟨frames, -, -, hrecords, hchunk⟩ := encodeAll_made hcfg
    have hcount : (f.piece.entry env (place f)).recordCount = f.piece.records.length := by
      show f.piece.chunk.recordCount = _
      rw [hchunk, hrecords]
      rfl
    have hrest := ih fun g hg => h g (List.mem_cons_of_mem _ hg)
    rw [List.map_cons, List.map_cons, List.sum_cons, hcount, hrest, filedRecords, filedRecords,
      List.flatMap_cons, List.length_append]

/-- What a window has filed, as filings. -/
theorem Filed.filings {E : EtagLaw} {objects : String → Option Bytes} {ww : WindowWriter}
    {pieces : List Piece} (h : Filed env E opts w naming objects ww pieces) :
    ww.objects = ((filingsOf naming pieces).map fun f =>
        f.piece.entry env ((f.slot opts.account w).location opts.logGroup)) ∧
      (∀ f ∈ filingsOf naming pieces,
        f.piece.StoredAt env objects ((f.slot opts.account w).location opts.logGroup)) ∧
      ∀ f ∈ filingsOf naming pieces, ∃ cfg,
        ChunkWriter.encodeAll env.lib cfg f.piece.records = .ok (some f.piece.chunk) := by
  refine ⟨?_, ?_, ?_⟩
  · rw [h.listed]
    apply List.ext_getElem?
    intro i
    rw [List.getElem?_map, filingsOf, List.getElem?_mapIdx, List.getElem?_mapIdx]
    cases pieces[i]? <;> rfl
  · intro f hf
    obtain ⟨hnaming, hpiece⟩ := mem_filingsOf hf
    have hstored := h.stored f.seq f.piece hpiece
    rw [← hnaming] at hstored
    exact hstored
  · intro f hf
    obtain ⟨-, hpiece⟩ := mem_filingsOf hf
    exact ⟨opts.chunk, h.encoded _ (List.mem_of_getElem? hpiece)⟩

/-- The events a window pushes lie in it, and so do the records it files. -/
theorem Tally.records (h : Tally w wk) :
    ∀ r ∈ wk.records, w.startMs ≤ r.timestamp ∧ r.timestamp < w.endMs := by
  intro r hr
  obtain ⟨ev, hev, rfl⟩ := List.mem_map.mp hr
  have hin := h.inside ev hev
  simp only [Window.contains, Bool.and_eq_true, decide_eq_true_eq] at hin
  exact hin

/-- The manifest that ends the first drain of a window is sound. -/
theorem ManifestSound.drained {objects : String → Option Bytes} {pieces : List Piece} (nowMs : Int)
    (hw : W opts.account w) (hprior : wk.prior = none) (tally : Tally w wk)
    (hfiled : Filed env anyEtag opts w .base objects wk.ww pieces)
    (hall : filedRecords (filingsOf .base pieces) = wk.records) :
    ManifestSound env opts.logGroup W objects (Work.manifest opts w wk nowMs)
      (filingsOf .base pieces) := by
  obtain ⟨hlisted, hstored, hencoded⟩ := hfiled.filings
  obtain ⟨hnodup, hfirst⟩ := filingsOf_slots .base pieces
  simp only [Work.manifest, hprior]
  exact {
    version := rfl
    group := rfl
    window := hw
    listed := hlisted
    stored := hstored
    encoded := hencoded
    inside := by
      rw [hall]
      exact tally.records
    fits := by
      intro f hf
      rw [(mem_filingsOf hf).1]
      trivial
    nodup := hnodup
    first := hfirst
    recordCount := by
      show (wk.ww.objects.map ManifestObject.recordCount).sum = _
      rw [hlisted]
      exact entries_recordCount _ hencoded
    reconciledAdded := by
      have hnone : (filingsOf .base pieces).filter Filing.isReconciled = [] := by
        rw [List.filter_eq_nil_iff]
        intro f hf
        simp only [Filing.isReconciled, (mem_filingsOf hf).1]
        exact Bool.noConfusion
      rw [reconciledTotal, if_pos hnone] }

theorem reconciledTotal_append {filings : List Filing} {pieces : List Piece} {attempt : Nat}
    (hne : pieces ≠ []) :
    reconciledTotal (filings ++ filingsOf (.reconcile attempt) pieces) =
      some ((reconciledTotal filings).getD 0 +
        (filedRecords (filingsOf (.reconcile attempt) pieces)).length) := by
  have hnew : (filingsOf (.reconcile attempt) pieces).filter Filing.isReconciled =
      filingsOf (.reconcile attempt) pieces := by
    rw [List.filter_eq_self]
    intro f hf
    simp only [Filing.isReconciled, (mem_filingsOf hf).1]
  have hsome : filingsOf (.reconcile attempt) pieces ≠ [] := fun hnil =>
    hne (List.mapIdx_eq_nil_iff.mp hnil)
  have hold : ((reconciledTotal filings).getD 0) =
      (filedRecords (filings.filter Filing.isReconciled)).length := by
    unfold reconciledTotal
    split
    next hnil =>
      rw [hnil]
      rfl
    next => rfl
  rw [reconciledTotal, List.filter_append, hnew,
    if_neg fun hnil => hsome (List.append_eq_nil_iff.mp hnil).2, hold, filedRecords_append,
    List.length_append]

/-- The manifest that ends a repair is sound. -/
theorem ManifestSound.repaired {objects : String → Option Bytes} {pieces : List Piece}
    {filings : List Filing} {attempt : Nat} (nowMs : Int)
    (h : ManifestSound env opts.logGroup W objects m filings) (haccount : m.account = opts.account)
    (hwindow : m.window = w) (hprior : wk.prior = some m)
    (hfor : NamedFor (some m) (.reconcile attempt)) (tally : Tally w wk) (happended : 0 < wk.appended)
    (hfiled : Filed env anyEtag opts w (.reconcile attempt) objects wk.ww pieces)
    (hall : filedRecords (filingsOf (.reconcile attempt) pieces) = wk.records) :
    ManifestSound env opts.logGroup W objects (Work.manifest opts w wk nowMs)
      (filings ++ filingsOf (.reconcile attempt) pieces) := by
  obtain ⟨hlisted, hstored, hencoded⟩ := hfiled.filings
  obtain ⟨hnodup, hfirst⟩ := filingsOf_slots (.reconcile attempt) pieces
  have hcount : wk.appended = wk.records.length := by
    rw [tally.appended (by rw [hprior]; exact Option.some_ne_none _), Work.records, List.length_map]
  have hpieces : pieces ≠ [] := by
    rintro rfl
    rw [hcount, ← hall] at happended
    exact absurd happended (Nat.lt_irrefl 0)
  subst hwindow
  rw [← haccount] at hlisted hstored
  simp only [Work.manifest, hprior]
  exact {
    version := h.version
    group := h.group
    window := h.window
    listed := by
      show m.objects ++ wk.ww.objects = _
      rw [h.listed, hlisted, List.map_append]
      rfl
    stored := by
      intro f hf
      rcases List.mem_append.mp hf with hf | hf
      · exact h.stored f hf
      · exact hstored f hf
    encoded := by
      intro f hf
      rcases List.mem_append.mp hf with hf | hf
      · exact h.encoded f hf
      · exact hencoded f hf
    inside := by
      intro r hr
      rw [filedRecords_append, hall] at hr
      rcases List.mem_append.mp hr with hr | hr
      · exact h.inside r hr
      · exact tally.records r hr
    fits := by
      intro f hf
      rcases List.mem_append.mp hf with hf | hf
      · exact h.fits f hf
      · rw [(mem_filingsOf hf).1]
        exact hfor.fits
    nodup := by
      rw [List.map_append]
      refine List.nodup_append'.mpr ⟨h.nodup, hnodup, ?_⟩
      intro p hp hp'
      obtain ⟨f, hf, rfl⟩ := List.mem_map.mp hp
      obtain ⟨f', hf', heq⟩ := List.mem_map.mp hp'
      refine h.naming_fresh hfor f hf ?_
      rw [← (mem_filingsOf hf').1]
      exact (congrArg Prod.fst heq).symm
    first := by
      intro f hf
      rcases List.mem_append.mp hf with hf | hf
      · obtain ⟨f', hf', hrest⟩ := h.first f hf
        exact ⟨f', List.mem_append_left _ hf', hrest⟩
      · obtain ⟨f', hf', hrest⟩ := hfirst f hf
        exact ⟨f', List.mem_append_right _ hf', hrest⟩
    recordCount := by
      rw [filedRecords_append, List.length_append, ← h.recordCount, hall, hcount]
    reconciledAdded := by
      rw [reconciledTotal_append hpieces, ← h.reconciledAdded, hall, hcount] }

/-! ## What a window does to the archive -/

/-- Every manifest is still there, lists what it listed first, and what it listed has
not changed. -/
def Extends (env : Env) (a a' : Archive) : Prop :=
  ∀ key bytes m, a.manifests key = some bytes → Manifest.fromJsonBytes env.serde bytes = .ok m →
    ∃ bytes' m', a'.manifests key = some bytes' ∧
      Manifest.fromJsonBytes env.serde bytes' = .ok m' ∧ m.objects <+: m'.objects ∧
      ∀ o ∈ m.objects, a'.objects o.dataKey = a.objects o.dataKey

theorem Extends.refl (a : Archive) : Extends env a a := fun _ bytes m hbytes hm =>
  ⟨bytes, m, hbytes, hm, List.prefix_refl _, fun _ _ => rfl⟩

theorem Extends.trans {a'' : Archive} (h : Extends env a a') (h' : Extends env a' a'') :
    Extends env a a'' := by
  intro key bytes m hbytes hm
  obtain ⟨bytes', m', hbytes', hm', hlisted, heq⟩ := h key bytes m hbytes hm
  obtain ⟨bytes'', m'', hbytes'', hm'', hlisted', heq'⟩ := h' key bytes' m' hbytes' hm'
  refine ⟨bytes'', m'', hbytes'', hm'', hlisted.trans hlisted', fun o ho => ?_⟩
  rw [heq' o (hlisted.subset ho), heq o ho]

/-- Writes into slots that are in no list keep the archive sound, and what it lists. -/
theorem ArchiveSound.slotWrites {writes : List StoreWrite} (apart : Apart W)
    (h : ArchiveSound env logGroup W a) (hw : W opts.account w) (hgroup : opts.logGroup = logGroup)
    (hlooked : Looked env opts a w wk.prior) (hfor : NamedFor wk.prior naming)
    (hwrites : ∀ write ∈ writes, SlotWrite env opts w naming write) :
    ArchiveSound env logGroup W (applyWrites a writes) ∧ Extends env a (applyWrites a writes) := by
  have hmanifests := SlotWrite.manifests (a := a) hwrites
  have hbeside : ∀ {key bytes m filings}, a.manifests key = some bytes →
      Manifest.fromJsonBytes env.serde bytes = .ok m →
      key = windowKey env.store.keyPrefix m.account logGroup m.window →
      ManifestSound env logGroup W a.objects m filings → ∀ f ∈ filings,
        ∀ key ∈ ((f.slot m.account m.window).location logGroup).keys env.store.keyPrefix,
          (applyWrites a writes).objects key = a.objects key := by
    intro key bytes m filings hbytes hm hkey hsound f hf key' hkey'
    apply applyWrites_objects
    intro write hwrite body heq
    obtain ⟨seq, key'', body', rfl, hkey''⟩ := hwrites write hwrite
    obtain ⟨rfl, -⟩ := StoreWrite.object.inj heq
    rw [hgroup] at hkey''
    exact Slot.keys_apart apart (hsound.slot_in hf) ⟨hw, hfor.fits⟩
      (h.fresh apart hw hgroup hlooked hfor hbytes hm hkey hsound f hf seq) hkey' hkey''
  refine ⟨fun key bytes hbytes => ?_, fun key bytes m hbytes hm => ?_⟩
  · rw [hmanifests] at hbytes
    obtain ⟨m, filings, hm, hkey, hsound⟩ := h key bytes hbytes
    exact ⟨m, filings, hm, hkey, hsound.frame (hbeside hbytes hm hkey hsound)⟩
  · obtain ⟨m', filings, hm', hkey, hsound⟩ := h key bytes hbytes
    rw [hm] at hm'
    obtain rfl := Except.ok.inj hm'
    refine ⟨bytes, m, by rw [hmanifests, hbytes], hm, List.prefix_refl _, fun o ho => ?_⟩
    rw [hsound.listed] at ho
    obtain ⟨f, hf, rfl⟩ := List.mem_map.mp ho
    exact hbeside hbytes hm hkey hsound f hf _ List.mem_cons_self

/-- The manifest that ends a window keeps the archive sound, and what it lists. -/
theorem ArchiveSound.manifestWrite (nowMs : Int) (apart : Apart W)
    (h : ArchiveSound env logGroup W a) (hw : W opts.account w) (hgroup : opts.logGroup = logGroup)
    (hlooked : Looked env opts a w wk.prior) (hfor : NamedFor wk.prior naming) (tally : Tally w wk)
    (hneeds : wk.needsManifest opts = true) (hfinished : Finished env anyEtag opts w naming a.objects wk) :
    let a' := applyWrites a [.manifest (taskKey env opts w)
      ((Work.manifest opts w wk nowMs).toJsonBytes env.serde)]
    ArchiveSound env logGroup W a' ∧ Extends env a a' := by
  subst hgroup
  obtain ⟨-, pieces, hfiled, hrotated, -⟩ := hfinished
  have hall : filedRecords (filingsOf naming pieces) = wk.records := by
    rw [filedRecords_filingsOf, hrotated, rotated_flatten]
  -- the manifest is sound, at its own key, and begins with what was listed there
  have hnew : ∃ filings, (Work.manifest opts w wk nowMs).account = opts.account ∧
      (Work.manifest opts w wk nowMs).window = w ∧
      ManifestSound env opts.logGroup W a.objects (Work.manifest opts w wk nowMs) filings ∧
      ∀ bytes m, a.manifests (taskKey env opts w) = some bytes →
        Manifest.fromJsonBytes env.serde bytes = .ok m →
        m.objects <+: (Work.manifest opts w wk nowMs).objects := by
    cases hprior : wk.prior with
    | none =>
      rw [hprior] at hlooked hfor
      obtain rfl : naming = .base := hfor
      refine ⟨_, ?_, ?_, .drained nowMs hw hprior tally hfiled hall, ?_⟩
      · simp only [Work.manifest, hprior]
      · simp only [Work.manifest, hprior, Manifest.window]
      · intro bytes m hbytes
        rw [h.looked_none apart hw rfl hlooked] at hbytes
        cases hbytes
    | some m =>
      rw [hprior] at hlooked hfor
      obtain ⟨haccount, hwindow, filings, hsound⟩ := h.looked_some apart hw rfl hlooked
      obtain ⟨attempt, rfl, -⟩ := id hfor
      have happended : 0 < wk.appended := by
        refine (needsManifest_iff.mp hneeds).2.resolve_left ?_
        rw [hprior]
        exact Option.some_ne_none m
      refine ⟨_, ?_, ?_, hsound.repaired nowMs haccount hwindow hprior hfor tally happended
        hfiled hall, ?_⟩
      · simp only [Work.manifest, hprior]
        exact haccount
      · simp only [Work.manifest, hprior]
        exact hwindow
      · intro bytes m' hbytes hm'
        obtain ⟨bytes', hbytes', hm⟩ := hlooked
        rw [hbytes] at hbytes'
        obtain rfl := Option.some.inj hbytes'
        rw [hm] at hm'
        obtain rfl := Except.ok.inj hm'
        simp only [Work.manifest, hprior]
        exact List.prefix_append _ _
  obtain ⟨filings, haccount, hwindow, hsound, hlisted⟩ := hnew
  have hread := fromJsonBytes_toJsonBytes (S := env.serde) hsound.version
  constructor
  · intro key bytes hbytes
    by_cases hkey : key = taskKey env opts w
    · subst hkey
      rw [applyWrites_manifest] at hbytes
      obtain rfl := Option.some.inj hbytes
      exact ⟨_, filings, hread, by rw [haccount, hwindow]; rfl, hsound⟩
    · have hold : (applyWrites a [.manifest (taskKey env opts w)
          ((Work.manifest opts w wk nowMs).toJsonBytes env.serde)]).manifests key =
          a.manifests key := if_neg hkey
      rw [hold] at hbytes
      exact h key bytes hbytes
  · intro key bytes m hbytes hm
    by_cases hkey : key = taskKey env opts w
    · subst hkey
      exact ⟨_, _, applyWrites_manifest _ _ _, hread, hlisted bytes m hbytes hm, fun _ _ => rfl⟩
    · exact ⟨bytes, m, (if_neg hkey).trans hbytes, hm, List.prefix_refl _, fun _ _ => rfl⟩

/-- What a move of a window writes keeps the archive sound, and what it lists. -/
theorem ArchiveSound.stageWrites {B : Work → Prop} {writes : List StoreWrite} (apart : Apart W)
    (h : ArchiveSound env logGroup W a) (hw : W opts.account w) (hgroup : opts.logGroup = logGroup)
    (tally : ∀ wk, B wk → Tally w wk) (hwrites : StageWrites env opts B a₀ a w writes) :
    ArchiveSound env logGroup W (applyWrites a writes) ∧ Extends env a (applyWrites a writes) := by
  rcases hwrites with rfl | ⟨wk, naming, hunmoved, hlooked, hfor, hbooks, hwrites⟩
  · exact ⟨h, .refl a⟩
  · have hlooked : Looked env opts a w wk.prior := by
      cases hprior : wk.prior with
      | none =>
        rw [hprior] at hlooked
        exact fun bytes hbytes => hlooked bytes (hunmoved ▸ hbytes)
      | some m =>
        rw [hprior] at hlooked
        obtain ⟨bytes, hbytes, hm⟩ := hlooked
        exact ⟨bytes, hunmoved.trans hbytes, hm⟩
    rcases hwrites with hslots | ⟨nowMs, hneeds, hfinished, rfl⟩
    · exact h.slotWrites apart hw hgroup hlooked hfor hslots
    · exact h.manifestWrite nowMs apart hw hgroup hlooked hfor (tally wk hbooks) hneeds hfinished

end S4Logs
