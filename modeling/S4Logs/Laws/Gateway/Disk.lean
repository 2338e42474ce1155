import S4Logs.Gateway.Buffer

/-!
# What the disk has promised to keep

`Disk.durable` reads the events off the synced part of every file. An operation that only
adds, and a crash after it, leave at least these (`Disk.Grows.durable`, `Disk.Fit.crashed`): a
file is either synced to its end or to the end of a line, so that what follows the synced
part does not change what is read there. Only a removal takes events away, and no more
than the file had.
-/

namespace S4Logs

variable {S : SerdeLine WalEntry} {d d' : Disk} {name : String} {f : DiskFile}

/-- The event of an entry. -/
def WalEntry.event (e : WalEntry) : LogEvent := ⟨e.logGroup, e.toRecord⟩

/-- The events on the intact lines of a text. -/
def lineEvents (S : SerdeLine WalEntry) (b : Bytes) : Multiset LogEvent :=
  ((S.intact b).map WalEntry.event : List LogEvent)

/-- The events on the intact lines of the synced part. -/
def DiskFile.durable (S : SerdeLine WalEntry) (f : DiskFile) : Multiset LogEvent :=
  lineEvents S (f.data.take f.synced)

/-- The events that no crash takes. -/
def Disk.durable (S : SerdeLine WalEntry) (d : Disk) : Multiset LogEvent :=
  Assoc.total (fun e => e.2.durable S) d.files

/-- The name of a segment. -/
def IsSegment (name : String) : Prop :=
  (Text.stripSuffix walSuffix.toList name.toList).isSome = true

/-- Whole lines. -/
def WholeLines (b : Bytes) : Prop := b = [] ∨ ∃ b', b = b' ++ [Bytes.newline]

theorem isSegment_fileName (logGroup date uuid : String) :
    IsSegment (WalSegment.fileName logGroup date uuid) := by
  unfold IsSegment WalSegment.fileName
  rw [String.toList_append, Text.stripSuffix_append]
  rfl

theorem WholeLines.lineEvents {b : Bytes} (h : WholeLines b) (b' : Bytes) :
    lineEvents S (b ++ b') = lineEvents S b + lineEvents S b' := by
  unfold S4Logs.lineEvents SerdeLine.intact
  rw [Bytes.lines_append_of_ended h, List.filterMap_append, List.map_append, Multiset.coe_add]

/-- The text of entries is whole lines. -/
theorem wholeLines_text (es : List WalEntry) : WholeLines (S.text es) := Bytes.unlines_ended _

theorem lineEvents_text (es : List WalEntry) :
    lineEvents S (S.text es) = (es.map WalEntry.event : List LogEvent) := by
  rw [lineEvents, S.intact_text]

/-! ## Operations -/

theorem Disk.applyAll_append (d : Disk) (ops ops' : List DiskOp) :
    d.applyAll (ops ++ ops') = (d.applyAll ops).applyAll ops' := List.foldl_append

theorem Disk.keys_modify (d : Disk) (name : String) (g : DiskFile → DiskFile) :
    Assoc.keys (d.modify name g).files = Assoc.keys d.files := by
  show ((d.files.map _).map Prod.fst) = _
  rw [List.map_map]
  apply List.map_congr_left
  intro e _
  show (if e.1 = name then (e.1, g e.2) else e).1 = e.1
  split <;> rfl

/-- What a file is after a change of one file. -/
theorem Disk.mem_modify {g : DiskFile → DiskFile} {e : String × DiskFile} :
    e ∈ (d.modify name g).files ↔
      ∃ f, (e.1, f) ∈ d.files ∧ e.2 = if e.1 = name then g f else f := by
  constructor
  · intro h
    obtain ⟨e', he', rfl⟩ := List.mem_map.mp h
    by_cases hname : e'.1 = name
    · simp only [if_pos hname]
      exact ⟨e'.2, he', rfl⟩
    · simp only [if_neg hname]
      exact ⟨e'.2, he', rfl⟩
  · rintro ⟨f, hf, heq⟩
    refine List.mem_map.mpr ⟨(e.1, f), hf, ?_⟩
    obtain ⟨n, f'⟩ := e
    dsimp only at heq ⊢
    rw [heq]
    split <;> rfl

/-- Only a creation and a removal change which files there are. -/
theorem Disk.keys_apply (d : Disk) (op : DiskOp) : Assoc.keys (d.apply op).files =
    match op with
    | .create name => Assoc.keys d.files ++ [name]
    | .remove name => (Assoc.keys d.files).filter fun n => n ≠ name
    | _ => Assoc.keys d.files := by
  cases op with
  | create name =>
    show (d.files ++ _).map Prod.fst = _
    rw [List.map_append]
    rfl
  | append name bytes => exact d.keys_modify name _
  | sync name => exact d.keys_modify name _
  | syncDir =>
    show (d.files.map _).map Prod.fst = _
    rw [List.map_map]
    rfl
  | remove name =>
    show (d.files.filter _).map Prod.fst = (d.files.map Prod.fst).filter _
    rw [List.filter_map]
    rfl

/-! ## What operations keep -/

/-- A file whose entry is durable, or that is still empty, and that is synced to its end
or to the end of a line. -/
structure DiskFile.Fit (f : DiskFile) : Prop where
  linked : f.linked = true ∨ f.data = []
  within : f.synced ≤ f.data.length
  synced : f.synced = f.data.length ∨ WholeLines (f.data.take f.synced)

/-- What holds of the directory in every run. -/
structure Disk.Fit (d : Disk) : Prop where
  nodup : (Assoc.keys d.files).Nodup
  files : ∀ e ∈ d.files, e.2.Fit
  names : ∀ e ∈ d.files ++ d.unlinked, IsSegment e.1

/-- An operation that only adds, and adds to whole lines. -/
def Disk.Adds (d : Disk) : DiskOp → Prop
  | .create name => IsSegment name ∧ name ∉ Assoc.keys d.files
  | .append name _ => ∀ e ∈ d.files, e.1 = name → e.2.linked = true ∧ WholeLines e.2.data
  | .remove _ => False
  | _ => True

/-- Every operation of the list only adds. -/
def Disk.AddsAll : Disk → List DiskOp → Prop
  | _, [] => True
  | d, op :: ops => d.Adds op ∧ (d.apply op).AddsAll ops

theorem Disk.AddsAll.append : ∀ {d : Disk} {ops ops' : List DiskOp}, d.AddsAll ops →
    (d.applyAll ops).AddsAll ops' → d.AddsAll (ops ++ ops')
  | _, [], _, _, h' => h'
  | _, _ :: _, _, h, h' => ⟨h.1, AddsAll.append h.2 h'⟩

/-- Every file is kept, with no fewer durable events. -/
def Disk.Grows (S : SerdeLine WalEntry) (d d' : Disk) : Prop :=
  ∀ n f, (n, f) ∈ d.files → ∃ f', (n, f') ∈ d'.files ∧ f.durable S ≤ f'.durable S

theorem Disk.Grows.refl (d : Disk) : d.Grows S d := fun _ f hf => ⟨f, hf, le_rfl⟩

theorem Disk.Grows.trans {d'' : Disk} (h : d.Grows S d') (h' : d'.Grows S d'') :
    d.Grows S d'' := by
  intro n f hf
  obtain ⟨f', hf', hle⟩ := h n f hf
  obtain ⟨f'', hf'', hle'⟩ := h' n f' hf'
  exact ⟨f'', hf'', hle.trans hle'⟩

theorem Disk.Grows.durable (h : d.Grows S d') (hfit : d.Fit) : d.durable S ≤ d'.durable S :=
  Assoc.total_le_of_keys hfit.nodup fun n f hf => .inr (h n f hf)

theorem take_append_le {b b' : Bytes} {n : Nat} (h : n ≤ b.length) :
    (b ++ b').take n = b.take n := List.take_append_of_le_length h

theorem DiskFile.Fit.append (h : f.Fit) (hlinked : f.linked = true) (hended : WholeLines f.data)
    (bytes : Bytes) : DiskFile.Fit { f with data := f.data ++ bytes } where
  linked := .inl hlinked
  within := by
    rw [List.length_append]
    exact h.within.trans (Nat.le_add_right _ _)
  synced := by
    refine .inr ?_
    show WholeLines ((f.data ++ bytes).take f.synced)
    rw [take_append_le h.within]
    rcases h.synced with hall | hend
    · rw [hall, List.take_length]
      exact hended
    · exact hend

theorem DiskFile.durable_append (h : f.Fit) (bytes : Bytes) :
    DiskFile.durable S { f with data := f.data ++ bytes } = f.durable S := by
  unfold DiskFile.durable
  rw [take_append_le h.within]

/-- What is synced can only grow. -/
theorem DiskFile.Fit.durable_le (h : f.Fit) : f.durable S ≤ lineEvents S f.data := by
  rcases h.synced with hall | hend
  · rw [DiskFile.durable, hall, List.take_length]
  · rw [← List.take_append_drop f.synced f.data, hend.lineEvents]
    exact Multiset.le_add_right _ _

theorem DiskFile.durable_full (h : f.synced = f.data.length) :
    f.durable S = lineEvents S f.data := by
  rw [DiskFile.durable, h, List.take_length]

theorem DiskFile.Fit.synced_all (h : f.Fit) :
    DiskFile.Fit { f with synced := f.data.length } where
  linked := h.linked
  within := le_rfl
  synced := .inl rfl

/-- A change of one file that keeps the file fit, and what is durable of it. -/
theorem Disk.Fit.modify (h : d.Fit) {name : String} {g : DiskFile → DiskFile}
    (hg : ∀ f, (name, f) ∈ d.files → (g f).Fit ∧ f.durable S ≤ (g f).durable S) :
    (d.modify name g).Fit ∧ d.Grows S (d.modify name g) := by
  refine ⟨⟨by rw [d.keys_modify]; exact h.nodup, fun e he => ?_, fun e he => ?_⟩, fun n f hf => ?_⟩
  · obtain ⟨f, hf, heq⟩ := Disk.mem_modify.mp he
    rw [heq]
    split
    next hname => exact (hg f (hname ▸ hf)).1
    next => exact h.files _ hf
  · rcases List.mem_append.mp he with he | he
    · obtain ⟨f, hf, -⟩ := Disk.mem_modify.mp he
      exact h.names (e.1, f) (List.mem_append_left _ hf)
    · exact h.names e (List.mem_append_right _ he)
  · refine ⟨if n = name then g f else f, Disk.mem_modify.mpr ⟨f, hf, rfl⟩, ?_⟩
    split
    next hname => exact (hg f (hname ▸ hf)).2
    next => exact le_rfl

/-- An operation that only adds keeps every file fit, and what is durable. -/
theorem Disk.Fit.adds (h : d.Fit) {op : DiskOp} (hop : d.Adds op) :
    (d.apply op).Fit ∧ d.Grows S (d.apply op) := by
  have hkeys := d.keys_apply op
  cases op with
  | create name =>
    refine ⟨⟨?_, fun e he => ?_, fun e he => ?_⟩, fun n f hf => ⟨f, List.mem_append_left _ hf, le_rfl⟩⟩
    · rw [hkeys]
      exact List.nodup_append.mpr ⟨h.nodup, List.nodup_singleton _, fun a ha b hb => by
        rw [List.mem_singleton.mp hb]
        exact fun heq => hop.2 (heq ▸ ha)⟩
    · rcases List.mem_append.mp he with he | he
      · exact h.files e he
      · rw [List.mem_singleton.mp he]
        exact ⟨.inr rfl, le_rfl, .inl rfl⟩
    · rcases List.mem_append.mp he with he | he
      · rcases List.mem_append.mp he with he | he
        · exact h.names e (List.mem_append_left _ he)
        · rw [List.mem_singleton.mp he]
          exact hop.1
      · exact h.names e (List.mem_append_right _ he)
  | append name bytes =>
    refine h.modify (g := fun f => { f with data := f.data ++ bytes }) fun f hf => ?_
    obtain ⟨hlinked, hended⟩ := hop _ hf rfl
    exact ⟨(h.files _ hf).append hlinked hended bytes,
      (DiskFile.durable_append (h.files _ hf) bytes).ge⟩
  | sync name =>
    refine h.modify (g := fun f => { f with synced := f.data.length }) fun f hf =>
      ⟨(h.files _ hf).synced_all, ?_⟩
    rw [DiskFile.durable_full (f := { f with synced := f.data.length }) rfl]
    exact (h.files _ hf).durable_le
  | syncDir =>
    have hmem : ∀ {e}, e ∈ (d.apply .syncDir).files ↔ ∃ e' ∈ d.files,
        (e'.1, { e'.2 with linked := true }) = e := List.mem_map
    refine ⟨⟨by rw [hkeys]; exact h.nodup, fun e he => ?_, fun e he => ?_⟩, fun n f hf => ?_⟩
    · obtain ⟨e', he', rfl⟩ := hmem.mp he
      exact ⟨.inl rfl, (h.files _ he').within, (h.files _ he').synced⟩
    · rcases List.mem_append.mp he with he | he
      · obtain ⟨e', he', rfl⟩ := hmem.mp he
        exact h.names e' (List.mem_append_left _ he')
      · exact absurd he List.not_mem_nil
    · exact ⟨_, hmem.mpr ⟨_, hf, rfl⟩, le_rfl⟩
  | remove name => exact absurd hop not_false

theorem Disk.Fit.addsAll : ∀ {d : Disk} {ops : List DiskOp}, d.Fit → d.AddsAll ops →
    (d.applyAll ops).Fit ∧ d.Grows S (d.applyAll ops)
  | d, [], h, _ => ⟨h, .refl d⟩
  | _, _ :: _, h, hops =>
    have hone := h.adds hops.1
    have hrest := addsAll hone.1 hops.2
    ⟨hrest.1, hone.2.trans hrest.2⟩

/-- A crash in the middle of operations that only add falls on such a disk too. -/
theorem Disk.AddsAll.take : ∀ {d : Disk} {ops : List DiskOp} (n : Nat), d.AddsAll ops →
    d.AddsAll (ops.take n)
  | _, _, 0, _ => trivial
  | _, [], _ + 1, _ => trivial
  | _, _ :: _, n + 1, h => ⟨h.1, h.2.take n⟩

/-! ## Removals -/

/-- Files that are taken out. -/
theorem Disk.Fit.remove (h : d.Fit) (name : String) : (d.apply (.remove name)).Fit where
  nodup := by
    rw [d.keys_apply]
    exact h.nodup.filter _
  files e he := h.files e (List.mem_filter.mp he).1
  names e he := by
    refine h.names e ?_
    rcases List.mem_append.mp he with he | he
    · exact List.mem_append_left _ (List.mem_filter.mp he).1
    · rcases List.mem_append.mp he with he | he
      · exact List.mem_append_right _ he
      · exact List.mem_append_left _ (List.mem_filter.mp he).1

/-- A removal takes the events of the file it removes. -/
theorem Disk.Fit.durable_remove (h : d.Fit) (hf : (name, f) ∈ d.files) :
    d.durable S = f.durable S + (d.apply (.remove name)).durable S := by
  exact Assoc.total_perm (Assoc.perm_filter_ne h.nodup hf)

/-! ## Crashes -/

/-- What is read of a file that a crash tore. -/
theorem DiskFile.Fit.torn (h : f.Fit) {b : Bytes} (hpre : f.data.take f.synced <+: b)
    (hlen : b.length ≤ f.data.length) : f.durable S ≤ lineEvents S b := by
  obtain ⟨tail, rfl⟩ := hpre
  rcases h.synced with hall | hend
  · have htake : f.data.take f.synced = f.data := by rw [hall, List.take_length]
    rw [htake, List.length_append] at hlen
    have hnil : tail = [] := List.length_eq_zero_iff.mp (by omega)
    rw [DiskFile.durable, hnil, List.append_nil]
  · rw [hend.lineEvents]
    exact Multiset.le_add_right _ _

/-- A crash leaves a directory of the same kind, and what was durable. -/
theorem Disk.Fit.crashed (h : d.Fit) {after : List (String × Bytes)} (hlaw : TearLaw d after) :
    (Disk.crashed after).Fit ∧ d.durable S ≤ (Disk.crashed after).durable S := by
  have hkeys : Assoc.keys (Disk.crashed after).files = Assoc.keys after := by
    show (after.map _).map Prod.fst = _
    rw [List.map_map]
    rfl
  refine ⟨⟨?_, fun e he => ?_, fun e he => ?_⟩, ?_⟩
  · rw [hkeys]
    exact hlaw.nodup
  · obtain ⟨e', -, rfl⟩ := List.mem_map.mp he
    exact ⟨.inl rfl, le_rfl, .inl rfl⟩
  · rcases List.mem_append.mp he with he | he
    · obtain ⟨e', he', rfl⟩ := List.mem_map.mp he
      obtain ⟨f, hf, -⟩ := hlaw.origin e' he'
      exact h.names (e'.1, f) hf
    · exact absurd he List.not_mem_nil
  · refine Assoc.total_le_of_keys h.nodup fun n f hf => ?_
    rcases (h.files _ hf).linked with hlinked | hnil
    · obtain ⟨b, hb, hpre, hlen⟩ := hlaw.kept _ hf hlinked
      refine .inr ⟨⟨b, b.length, true⟩, List.mem_map.mpr ⟨(n, b), hb, rfl⟩, ?_⟩
      rw [DiskFile.durable_full (f := ⟨b, b.length, true⟩) rfl]
      exact (h.files _ hf).torn hpre hlen
    · refine .inl ?_
      have hnil : f.data = [] := hnil
      show lineEvents S (f.data.take f.synced) = 0
      rw [hnil, List.take_nil]
      exact lineEvents_text []

/-! ## Scans -/

theorem coe_flatMap {α β : Type} (as : List α) (g : α → List β) :
    ((as.flatMap g : List β) : Multiset β) = (as.map fun a => (g a : Multiset β)).sum := by
  induction as with
  | nil => rfl
  | cons a as ih => rw [List.flatMap_cons, ← Multiset.coe_add, ih, List.map_cons, List.sum_cons]

/-- A scan reads what is durable, and what more it finds. -/
theorem Disk.Fit.durable_le_scan (h : d.Fit) : d.durable S ≤
    (((scanDir S d).flatMap fun seg => seg.entries.map WalEntry.event : List LogEvent) :
      Multiset LogEvent) := by
  have hall : (d.files.filter fun e =>
      (Text.stripSuffix walSuffix.toList e.1.toList).isSome) = d.files := by
    rw [List.filter_eq_self]
    exact fun e he => h.names e (List.mem_append_left _ he)
  have hscan : (((scanDir S d).flatMap fun seg => seg.entries.map WalEntry.event :
      List LogEvent) : Multiset LogEvent) =
      Assoc.total (fun e => lineEvents S e.2.data) d.files := by
    rw [coe_flatMap, scanDir, hall, List.map_map]
    exact ((List.mergeSort_perm d.files _).map _).sum_eq
  rw [hscan]
  exact Assoc.total_le fun e he => (h.files e he).durable_le

/-- A scan reads files of the directory. -/
theorem mem_keys_of_scan {seg : SegmentEntries} (h : seg ∈ scanDir S d) :
    seg.name ∈ Assoc.keys d.files := by
  obtain ⟨e, he, rfl⟩ := List.mem_map.mp h
  exact List.mem_map_of_mem (List.mem_filter.mp (List.mem_mergeSort.mp he)).1

end S4Logs
