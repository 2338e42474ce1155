import S4Logs.Laws.Gateway.Disk
import S4Logs.Laws.Gateway.Section

/-!
# The segment of a buffer

Where there is a log, the file of a buffer's segment is the text of the events that the
buffer's writer took, and no two buffers share a file. A section keeps this of the buffers
it works on and of the buffers that calls hold meanwhile (`Progress`), and it only adds to
the disk. After a sync that succeeds, what the disk promises to keep is what it promised
before and every event of the section.
-/

namespace S4Logs

variable {m : BufferManager} {d d' : Disk} {l l' l'' : Locked} {bufs bufs' away : Buffers}
variable {key : BufKey} {buf buf' : Buf} {e : BufKey × Buf} {op : DiskOp}

/-- The name of the segment of a buffer. -/
def segName (e : BufKey × Buf) : Option String := e.2.wal.map WalSegment.name

/-- The segment of the buffer is on the disk, and its lines are the buffer's events. -/
def Mirrors (m : BufferManager) (d : Disk) (e : BufKey × Buf) : Prop :=
  ∃ seg f es, e.2.wal = some seg ∧ (seg.name, f) ∈ d.files ∧ f.linked = true ∧
    f.data = m.entries.text es ∧
    ((es.map WalEntry.event : List LogEvent) : Multiset LogEvent) = bufEvents m.lib e ∧
    (seg.dirty = false → f.synced = f.data.length)

/-- Every buffer has a segment of its own. -/
structure Logged (m : BufferManager) (d : Disk) (bufs : Buffers) : Prop where
  fit : d.Fit
  mirrors : ∀ e ∈ bufs, Mirrors m d e
  names : (bufs.map segName).Nodup

/-- The durable events of the files that no buffer of the list has. -/
def outside (m : BufferManager) (d : Disk) (bufs : Buffers) : Multiset LogEvent :=
  Assoc.total (fun e => e.2.durable m.entries)
    (d.files.filter fun e => some e.1 ∉ bufs.map segName)

/-- Nothing is left to sync in the segment of the buffer. -/
def Clean (e : BufKey × Buf) : Prop := ∀ seg ∈ e.2.wal, seg.dirty = false

theorem Logged.perm (h : Logged m d bufs) (hperm : bufs.Perm bufs') : Logged m d bufs' :=
  ⟨h.fit, fun e he => h.mirrors e (hperm.mem_iff.mpr he), (hperm.map segName).nodup_iff.mp h.names⟩

theorem Logged.sublist (h : Logged m d bufs) (hsub : bufs'.Sublist bufs) : Logged m d bufs' :=
  ⟨h.fit, fun e he => h.mirrors e (hsub.subset he), h.names.sublist (hsub.map segName)⟩

theorem Logged.nil (h : d.Fit) : Logged m d [] :=
  ⟨h, fun _ he => absurd he List.not_mem_nil, List.nodup_nil⟩

theorem Logged.tail (h : Logged m d (e :: bufs)) : Logged m d bufs :=
  h.sublist (List.sublist_cons_self _ _)

/-- Files with one name are one file. -/
theorem Disk.Fit.unique (h : d.Fit) {name : String} {f f' : DiskFile} (hf : (name, f) ∈ d.files)
    (hf' : (name, f') ∈ d.files) : f = f' := by
  have hmem := (Assoc.perm_filter_ne h.nodup hf).mem_iff.mp hf'
  rcases List.mem_cons.mp hmem with heq | hrest
  · exact (Prod.mk.inj heq).2.symm
  · exact absurd rfl (of_decide_eq_true (List.mem_filter.mp hrest).2)

/-- What is durable of a buffer's file are events of the buffer, and all of them after a
sync. -/
theorem Mirrors.durable (h : Mirrors m d e) (hfit : d.Fit) {name : String} {f : DiskFile}
    (hname : segName e = some name) (hf : (name, f) ∈ d.files) :
    f.durable m.entries ≤ bufEvents m.lib e ∧
      (Clean e → f.durable m.entries = bufEvents m.lib e) := by
  obtain ⟨seg, f', es, hwal, hf', -, hdata, hevents, hsynced⟩ := h
  rw [segName, hwal] at hname
  cases hname
  obtain rfl := hfit.unique hf hf'
  have hlines : lineEvents m.entries f.data = bufEvents m.lib e := by
    rw [hdata, lineEvents_text, hevents]
  rw [← hlines]
  exact ⟨(hfit.files _ hf).durable_le,
    fun hclean => DiskFile.durable_full (hsynced (hclean seg hwal))⟩

/-- The segment of a buffer is one of the files. -/
theorem Mirrors.mem_keys (h : Mirrors m d e) {name : String} (hname : segName e = some name) :
    name ∈ Assoc.keys d.files := by
  obtain ⟨seg, f, es, hwal, hf, -⟩ := h
  rw [segName, hwal] at hname
  cases hname
  exact List.mem_map_of_mem hf

/-! ## Accounts -/

/-- The buffers under the names of their segments. -/
def underNames (bufs : Buffers) : List (Option String × (BufKey × Buf)) :=
  bufs.map fun e => (segName e, e)

theorem keys_underNames (bufs : Buffers) : Assoc.keys (underNames bufs) = bufs.map segName := by
  unfold Assoc.keys underNames
  rw [List.map_map]
  rfl

theorem total_underNames (bufs : Buffers) :
    Assoc.total (fun e => bufEvents m.lib e.2) (underNames bufs) = held m.lib bufs := by
  unfold Assoc.total underNames
  rw [List.map_map]
  rfl

/-- The files of the buffers, under their names. -/
theorem durable_split (d : Disk) (bufs : Buffers) : d.durable m.entries =
    Assoc.total (fun e => e.2.durable m.entries)
      (d.files.filter fun e => some e.1 ∈ bufs.map segName) + outside m d bufs := by
  have hsplit := Assoc.total_filter_add (f := fun e : String × DiskFile => e.2.durable m.entries)
    (fun e => decide (some e.1 ∈ bufs.map segName)) d.files
  unfold Disk.durable outside
  rw [← hsplit]
  simp only [decide_not]

/-- What is durable is held by the buffers, or is in a file of none of them. -/
theorem Logged.durable_le (h : Logged m d (bufs ++ away)) :
    d.durable m.entries ≤ held m.lib bufs + outside m d bufs := by
  rw [durable_split d bufs]
  refine add_le_add_left ?_ _
  rw [← total_underNames]
  have hkeys : (Assoc.keys ((d.files.filter fun e => some e.1 ∈ bufs.map segName).map
      fun e => (some e.1, e.2))).Nodup := by
    unfold Assoc.keys
    rw [List.map_map]
    have hnodup : ((d.files.filter fun e => some e.1 ∈ bufs.map segName).map Prod.fst).Nodup :=
      h.fit.nodup.sublist (List.filter_sublist.map Prod.fst)
    have hsome := hnodup.map (Option.some_injective String)
    rwa [List.map_map] at hsome
  have htotal := Assoc.total_le_of_keys (f := fun e : Option String × DiskFile =>
    e.2.durable m.entries) (h := fun e : Option String × (BufKey × Buf) => bufEvents m.lib e.2)
    (n := underNames bufs) hkeys fun k f hmem => ?_
  · refine le_trans (le_of_eq ?_) htotal
    unfold Assoc.total
    rw [List.map_map]
    rfl
  · obtain ⟨⟨name, f'⟩, hf, heq⟩ := List.mem_map.mp hmem
    cases heq
    obtain ⟨hfile, hname⟩ := List.mem_filter.mp hf
    obtain ⟨e, he, hseg⟩ := List.mem_map.mp (of_decide_eq_true hname)
    refine .inr ⟨e, List.mem_map.mpr ⟨e, he, by rw [hseg]⟩, ?_⟩
    exact ((h.mirrors e (List.mem_append_left _ he)).durable h.fit hseg hfile).1

/-- Where nothing is left to sync, what the buffers hold is durable, and so is what other
files have. -/
theorem Logged.le_durable (h : Logged m d (bufs ++ away)) (hclean : ∀ e ∈ bufs, Clean e) :
    held m.lib bufs + outside m d bufs ≤ d.durable m.entries := by
  rw [durable_split d bufs]
  refine add_le_add_left ?_ _
  rw [← total_underNames]
  have hkeys : (Assoc.keys (underNames bufs)).Nodup := by
    rw [keys_underNames]
    exact h.names.sublist ((List.sublist_append_left _ _).map segName)
  have htotal := Assoc.total_le_of_keys (f := fun e : Option String × (BufKey × Buf) =>
    bufEvents m.lib e.2) (h := fun e : Option String × DiskFile => e.2.durable m.entries)
    (n := (d.files.filter fun e => some e.1 ∈ bufs.map segName).map fun e => (some e.1, e.2))
    hkeys fun k e hmem => ?_
  · refine htotal.trans (le_of_eq ?_)
    unfold Assoc.total
    rw [List.map_map]
    rfl
  · obtain ⟨e', he, heq⟩ := List.mem_map.mp hmem
    cases heq
    have hmirrors := h.mirrors e (List.mem_append_left _ he)
    obtain ⟨seg, f, es, hwal, hf, -⟩ := hmirrors
    have hseg : segName e = some seg.name := by rw [segName, hwal, Option.map_some]
    refine .inr ⟨f, ?_, ?_⟩
    · rw [hseg]
      refine List.mem_map.mpr ⟨(seg.name, f), List.mem_filter.mpr ⟨hf, decide_eq_true ?_⟩, rfl⟩
      exact List.mem_map.mpr ⟨e, he, hseg⟩
    · exact (((h.mirrors e (List.mem_append_left _ he)).durable h.fit hseg hf).2 (hclean e he)).ge

/-- Which buffers these are does not matter to the files of others, only their names do. -/
theorem outside_congr (h : ∀ n, n ∈ bufs.map segName ↔ n ∈ bufs'.map segName) :
    outside m d bufs = outside m d bufs' := by
  unfold outside
  simp only [h]

/-- Files that change their entries only, or that a buffer has, do not change the others. -/
theorem outside_map {g : String × DiskFile → String × DiskFile}
    (hfiles : d'.files = d.files.map g) (hname : ∀ e, (g e).1 = e.1)
    (hdurable : ∀ e, some e.1 ∉ bufs.map segName →
      (g e).2.durable m.entries = e.2.durable m.entries) :
    outside m d' bufs = outside m d bufs := by
  unfold outside
  rw [hfiles, List.filter_map]
  have hsame : (d.files.filter ((fun e => decide (some e.1 ∉ bufs.map segName)) ∘ g)) =
      d.files.filter fun e => some e.1 ∉ bufs.map segName := by
    apply List.filter_congr
    intro e _
    show decide (some (g e).1 ∉ _) = _
    rw [hname]
  rw [hsame]
  unfold Assoc.total
  rw [List.map_map]
  congr 1
  apply List.map_congr_left
  intro e he
  exact hdurable e (of_decide_eq_true (List.mem_filter.mp he).2)

theorem outside_modify {name : String} {g : DiskFile → DiskFile}
    (hname : some name ∈ bufs.map segName) : outside m (d.modify name g) bufs = outside m d bufs := by
  refine outside_map (g := fun e => if e.1 = name then (e.1, g e.2) else e) rfl
    (fun e => ?_) (fun e he => ?_)
  · split <;> rfl
  · rw [if_neg fun heq => he (by rwa [heq])]

theorem outside_syncDir : outside m (d.apply .syncDir) bufs = outside m d bufs :=
  outside_map rfl (fun _ => rfl) (fun _ _ => rfl)

theorem outside_create {name : String} (hname : some name ∈ bufs.map segName) :
    outside m (d.apply (.create name)) bufs = outside m d bufs := by
  unfold outside
  show Assoc.total _ ((d.files ++ [(name, _)]).filter _) = _
  rw [List.filter_append, List.filter_cons, if_neg (by simpa using hname), List.filter_nil,
    List.append_nil]

/-! ## What one operation keeps -/

/-- The file that an operation changes or removes. -/
def DiskOp.target : DiskOp → Option String
  | .append name _ => some name
  | .sync name => some name
  | .remove name => some name
  | .create _ => none
  | .syncDir => none

/-- A file whose entry is durable stays as it is where an operation has another target. -/
theorem Disk.mem_apply {name : String} {f : DiskFile} (h : (name, f) ∈ d.files)
    (hlinked : f.linked = true) (hother : op.target ≠ some name) :
    (name, f) ∈ (d.apply op).files := by
  have hkept : ∀ {n : String} {g : DiskFile → DiskFile}, n ≠ name →
      (name, f) ∈ (d.modify n g).files := fun hne =>
    Disk.mem_modify.mpr ⟨f, h, (if_neg (Ne.symm hne)).symm⟩
  cases op with
  | create n => exact List.mem_append_left _ h
  | append n bytes => exact hkept fun heq => hother (congrArg some heq)
  | sync n => exact hkept fun heq => hother (congrArg some heq)
  | syncDir =>
    refine List.mem_map.mpr ⟨(name, f), h, ?_⟩
    obtain ⟨data, synced, linked⟩ := f
    obtain rfl : linked = true := hlinked
    rfl
  | remove n =>
    exact List.mem_filter.mpr ⟨h, decide_eq_true fun heq => hother (congrArg some heq.symm)⟩

theorem Mirrors.apply (h : Mirrors m d e) (hother : op.target = none ∨ op.target ≠ segName e) :
    Mirrors m (d.apply op) e := by
  obtain ⟨seg, f, es, hwal, hf, hlinked, hrest⟩ := h
  refine ⟨seg, f, es, hwal, Disk.mem_apply hf hlinked ?_, hlinked, hrest⟩
  rw [segName, hwal] at hother
  rcases hother with hnone | hne
  · rw [hnone]
    nofun
  · exact hne

/-- An operation on files that no buffer has. -/
theorem Logged.apply (h : Logged m d bufs) (hfit : (d.apply op).Fit)
    (hother : op.target = none ∨ op.target ∉ bufs.map segName) : Logged m (d.apply op) bufs where
  fit := hfit
  mirrors e he := by
    refine (h.mirrors e he).apply (hother.imp_right fun hnot heq => ?_)
    rw [heq] at hnot
    exact hnot (List.mem_map_of_mem he)
  names := h.names

/-- An operation on the file of the first buffer, which then mirrors what the buffer has
become. -/
theorem Logged.apply_head (h : Logged m d (e :: bufs)) (hfit : (d.apply op).Fit)
    (hop : op.target = segName e) {e' : BufKey × Buf} (hname : segName e' = segName e)
    (hmirrors : Mirrors m (d.apply op) e') : Logged m (d.apply op) (e' :: bufs) where
  fit := hfit
  mirrors e'' he'' := by
    rcases List.mem_cons.mp he'' with rfl | he''
    · exact hmirrors
    · refine (h.mirrors e'' (List.mem_cons_of_mem _ he'')).apply (.inr fun heq => ?_)
      refine (List.nodup_cons.mp h.names).1 ?_
      rw [← hop, heq]
      exact List.mem_map_of_mem he''
  names := by
    have hnames := h.names
    rw [List.map_cons] at hnames ⊢
    rwa [hname]

/-! ## What a part of a section does -/

/-- A part of a section only adds to the disk, keeps the segment of every buffer, and leaves
the files of others alone. What segments it adds have fresh names. -/
structure Progress (m : BufferManager) (away : Buffers) (l l' : Locked) : Prop where
  ops : ∃ ops, l'.disk = l.disk.applyAll ops ∧ l'.ops = l.ops ++ ops ∧ l.disk.AddsAll ops
  logged : Logged m l'.disk (l'.buffers ++ away)
  outside : outside m l'.disk l'.buffers = outside m l.disk l.buffers
  names : ∀ n, some n ∈ l'.buffers.map segName →
    some n ∈ l.buffers.map segName ∨ n ∉ Assoc.keys l.disk.files

theorem Disk.AddsAll.keys : ∀ {ops : List DiskOp} {d : Disk}, d.AddsAll ops → ∀ n,
    n ∈ Assoc.keys d.files → n ∈ Assoc.keys (d.applyAll ops).files
  | [], _, _, _, hn => hn
  | op :: ops, d, h, n, hn => by
    refine AddsAll.keys h.2 n ?_
    rw [d.keys_apply]
    cases op with
    | create name => exact List.mem_append_left _ hn
    | append name bytes => exact hn
    | sync name => exact hn
    | syncDir => exact hn
    | remove name => exact absurd h.1 not_false

theorem Progress.refl (h : Logged m l.disk (l.buffers ++ away)) : Progress m away l l :=
  ⟨⟨[], rfl, (List.append_nil _).symm, trivial⟩, h, rfl, fun _ hn => .inl hn⟩

theorem Progress.trans (h : Progress m away l l') (h' : Progress m away l' l'') :
    Progress m away l l'' := by
  obtain ⟨ops, hdisk, hops, hadds⟩ := h.ops
  obtain ⟨ops', hdisk', hops', hadds'⟩ := h'.ops
  refine ⟨⟨ops ++ ops', ?_, ?_, ?_⟩, h'.logged, h'.outside.trans h.outside, fun n hn => ?_⟩
  · rw [hdisk', hdisk, Disk.applyAll_append]
  · rw [hops', hops, List.append_assoc]
  · exact hadds.append (hdisk ▸ hadds')
  · rcases h'.names n hn with hn | hn
    · exact h.names n hn
    · refine .inr fun hold => hn ?_
      rw [hdisk]
      exact hadds.keys n hold

/-! ## Writing to the segment of a buffer -/

/-- A buffer in the map takes the place of another with the same segment. -/
theorem insert_names {v : Buf} (hget : Assoc.get? key bufs = some v)
    (hname : segName (key, buf') = segName (key, v)) (n : Option String) :
    n ∈ (Assoc.insert key buf' bufs).map segName ↔ n ∈ bufs.map segName := by
  obtain ⟨rest, hremove⟩ := Assoc.get?_eq_some.mp hget
  have hbefore := ((Assoc.remove_perm hremove).map segName).mem_iff (a := n)
  have hafter := ((Assoc.insert_perm buf' hremove).map segName).mem_iff (a := n)
  rw [hbefore, hafter, List.map_cons, List.map_cons, hname]

/-- The file of a buffer is linked, and is whole lines. -/
theorem Mirrors.adds (h : Mirrors m d e) (hfit : d.Fit) {seg : WalSegment}
    (hwal : e.2.wal = some seg) (bytes : Bytes) : d.Adds (.append seg.name bytes) := by
  obtain ⟨seg', f, es, hwal', hf, hlinked, hdata, -⟩ := h
  rw [hwal] at hwal'
  cases hwal'
  rintro ⟨name, f'⟩ hf' rfl
  obtain rfl := hfit.unique hf hf'
  refine ⟨hlinked, ?_⟩
  rw [hdata]
  exact wholeLines_text es

/-- Octets that are appended to the file of a buffer, and the buffer that its lines then
mirror. -/
theorem Progress.write {seg seg' : WalSegment} {bytes : Bytes}
    (h : Logged m l.disk (l.buffers ++ away)) (hget : Assoc.get? key l.buffers = some buf)
    (hwal : buf.wal = some seg) (hwal' : buf'.wal = some seg') (hname : seg'.name = seg.name)
    (hnext : ∀ es : List WalEntry, ((es.map WalEntry.event : List LogEvent) : Multiset LogEvent) =
        bufEvents m.lib (key, buf) → ∃ es' : List WalEntry,
      m.entries.text es ++ bytes = m.entries.text es' ∧
        ((es'.map WalEntry.event : List LogEvent) : Multiset LogEvent) = bufEvents m.lib (key, buf'))
    (hclean : seg'.dirty = false → bytes = [] ∧ seg.dirty = false) :
    Progress m away l ((l.io [.append seg.name bytes]).set key buf') := by
  obtain ⟨rest, hremove⟩ := Assoc.get?_eq_some.mp hget
  have hbefore : (l.buffers ++ away).Perm ((key, buf) :: (rest ++ away)) :=
    (Assoc.remove_perm hremove).append_right away
  have hafter : (Assoc.insert key buf' l.buffers ++ away).Perm ((key, buf') :: (rest ++ away)) :=
    (Assoc.insert_perm buf' hremove).append_right away
  have hseg : segName (key, buf) = some seg.name := by rw [segName, hwal, Option.map_some]
  have hsame : segName (key, buf') = segName (key, buf) := by
    rw [hseg, segName, hwal', Option.map_some, hname]
  have hlogged := h.perm hbefore
  have hmirrors := hlogged.mirrors _ List.mem_cons_self
  have hadds := hmirrors.adds hlogged.fit hwal bytes
  obtain ⟨hfit, -⟩ := hlogged.fit.adds (S := m.entries) hadds
  have hmirrors' : Mirrors m (l.disk.apply (.append seg.name bytes)) (key, buf') := by
    obtain ⟨seg₁, f, es, hwal₁, hf, hlinked, hdata, hevents, hsynced⟩ := hmirrors
    rw [hwal] at hwal₁
    cases hwal₁
    obtain ⟨es', htext, hevents'⟩ := hnext es hevents
    refine ⟨seg', { f with data := f.data ++ bytes }, es', hwal', ?_, hlinked, ?_, hevents', ?_⟩
    · rw [hname]
      exact Disk.mem_modify.mpr ⟨f, hf, (if_pos rfl).symm⟩
    · rw [← htext, ← hdata]
    · intro hnot
      obtain ⟨hnil, hold⟩ := hclean hnot
      dsimp only
      rw [hnil, List.append_nil]
      exact hsynced hold
  have hnames := insert_names hget hsame
  refine ⟨⟨[.append seg.name bytes], rfl, rfl, hadds, trivial⟩, ?_, ?_, ?_⟩
  · exact (hlogged.apply_head hfit hseg.symm hsame hmirrors').perm hafter.symm
  · show S4Logs.outside m (l.disk.apply (.append seg.name bytes))
      (Assoc.insert key buf' l.buffers) = _
    rw [outside_congr hnames]
    refine outside_modify ?_
    rw [← hseg]
    exact List.mem_map_of_mem (Assoc.mem_of_get? hget)
  · exact fun n hn => .inl ((hnames _).mp hn)

/-- A sync of one segment. -/
theorem Logged.sync_head {seg : WalSegment} (h : Logged m d (e :: bufs))
    (hwal : e.2.wal = some seg) (fails : Bool) :
    d.AddsAll (seg.sync fails).2.1 ∧
      Logged m (d.applyAll (seg.sync fails).2.1)
        ((e.1, { e.2 with wal := some (seg.sync fails).1 }) :: bufs) ∧
      segName (e.1, { e.2 with wal := some (seg.sync fails).1 }) = segName e ∧
      (∀ all : Buffers, segName e ∈ all.map segName →
        outside m (d.applyAll (seg.sync fails).2.1) all = outside m d all) ∧
      ((seg.sync fails).2.2 = true → Clean (e.1, { e.2 with wal := some (seg.sync fails).1 })) := by
  have hseg : segName e = some seg.name := by rw [segName, hwal, Option.map_some]
  have hsame : (e.1, { e.2 with wal := some seg }) = e := by rw [← hwal]
  unfold WalSegment.sync
  split
  next hclean =>
    refine ⟨trivial, ?_, ?_, fun _ _ => rfl, fun _ seg' hseg' => ?_⟩
    · show Logged m d _
      rwa [hsame]
    · rw [hsame]
    · cases hseg'
      exact hclean
  next hdirty =>
    split
    next =>
      refine ⟨trivial, ?_, ?_, fun _ _ => rfl, fun h => by cases h⟩
      · show Logged m d _
        rwa [hsame]
      · rw [hsame]
    next =>
      have hadds : d.Adds (.sync seg.name) := trivial
      obtain ⟨hfit, -⟩ := h.fit.adds (S := m.entries) hadds
      refine ⟨⟨trivial, trivial⟩, ?_, hseg.symm, fun all hmem => ?_, fun _ seg' hseg' => ?_⟩
      · refine h.apply_head hfit hseg.symm hseg.symm ?_
        obtain ⟨seg₁, f, es, hwal₁, hf, hlinked, hdata, hevents, -⟩ :=
          h.mirrors _ List.mem_cons_self
        rw [hwal] at hwal₁
        cases hwal₁
        exact ⟨_, { f with synced := f.data.length }, es, rfl,
          Disk.mem_modify.mpr ⟨f, hf, (if_pos rfl).symm⟩, hlinked, hdata, hevents, fun _ => rfl⟩
      · rw [hseg] at hmem
        show outside m (d.modify seg.name fun f => { f with synced := f.data.length }) all = _
        exact outside_modify hmem
      · cases hseg'
        rfl

/-- A sync of the segments of a map. -/
theorem Logged.syncWal (fails : Option String) : ∀ {bufs : Buffers} {d : Disk} {away : Buffers},
    Logged m d (bufs ++ away) →
    d.AddsAll (syncWal fails bufs).2.1 ∧
      Logged m (d.applyAll (syncWal fails bufs).2.1) ((syncWal fails bufs).1 ++ away) ∧
      (syncWal fails bufs).1.map segName = bufs.map segName ∧
      (∀ all : Buffers, (∀ n ∈ bufs.map segName, n ∈ all.map segName) →
        outside m (d.applyAll (syncWal fails bufs).2.1) all = outside m d all) ∧
      ((syncWal fails bufs).2.2 = true → ∀ e ∈ (syncWal fails bufs).1, Clean e)
  | [], d, away, h => ⟨trivial, h, rfl, fun _ _ => rfl, fun _ _ he => absurd he List.not_mem_nil⟩
  | (key, buf) :: rest, d, away, h => by
    obtain ⟨seg, -, -, hwal, -⟩ := h.mirrors _ List.mem_cons_self
    have hwal : buf.wal = some seg := hwal
    obtain ⟨hadds, hlogged, hname, hout, hclean⟩ :=
      h.sync_head hwal (fails = some seg.name)
    unfold S4Logs.syncWal
    simp only [hwal]
    split
    next hok =>
      have hmoved := hlogged.perm (List.perm_middle : ((_ : Buffers) ++ _ :: _).Perm _).symm
      obtain ⟨hadds', hlogged', hnames', hout', hclean'⟩ := Logged.syncWal fails hmoved
      refine ⟨hadds.append hadds', ?_, ?_, fun all hall => ?_, fun hall e he => ?_⟩
      · rw [Disk.applyAll_append]
        exact hlogged'.perm List.perm_middle
      · rw [List.map_cons, List.map_cons, hnames']
        exact congrArg (· :: _) hname
      · rw [Disk.applyAll_append, hout' all fun n hn => hall n (List.mem_cons_of_mem _ hn)]
        exact hout all (hall _ List.mem_cons_self)
      · rcases List.mem_cons.mp he with rfl | he
        · exact hclean hok
        · exact hclean' hall e he
    next hfailed =>
      refine ⟨hadds, hlogged, ?_, fun all hall => hout all (hall _ List.mem_cons_self), fun h => by cases h⟩
      rw [List.map_cons, List.map_cons]
      exact congrArg (· :: _) hname

theorem Progress.sync {order : List BufKey} {fails : Option String} {ok : Bool}
    (h : Logged m l.disk (l.buffers ++ away)) (hsync : l.sync order fails = (l', ok)) :
    Progress m away l l' ∧ (ok = true → ∀ e ∈ l'.buffers, Clean e) := by
  cases hsync
  have hperm := inOrder_perm order l.buffers
  obtain ⟨hadds, hlogged, hnames, hout, hclean⟩ :=
    Logged.syncWal fails (h.perm (hperm.symm.append_right away))
  have hmem : ∀ n, n ∈ (syncWal fails (inOrder order l.buffers)).1.map segName ↔
      n ∈ l.buffers.map segName := by
    intro n
    rw [hnames]
    exact (hperm.map segName).mem_iff
  refine ⟨⟨⟨_, rfl, rfl, hadds⟩, hlogged, ?_, fun n hn => .inl ((hmem _).mp hn)⟩, hclean⟩
  show S4Logs.outside m (l.disk.applyAll _) (syncWal fails (inOrder order l.buffers)).1 = _
  rw [outside_congr hmem]
  exact hout l.buffers fun n hn => (hperm.map segName).mem_iff.mp hn

/-! ## Pushing to logged buffers -/

/-- A write that fails writes nothing, and a directory that is synced is durable. -/
def EventIo.Kept (io : EventIo) : Prop :=
  io.dirSynced = true ∧ (io.torn = none ∨ io.torn = some 0)

/-- An event that a line says all of. -/
def LogEvent.Plain (ev : LogEvent) : Prop := ev.record.eventId = none

theorem LogEvent.Plain.event {ev : LogEvent} (h : ev.Plain) :
    (ev.record.toWalEntry ev.logGroup).event = ev := by
  obtain ⟨logGroup, ⟨timestamp, stream, message, ingestionTime, eventId⟩⟩ := ev
  obtain rfl : eventId = none := h
  rfl

theorem outside_fresh {name : String} (hfresh : name ∉ Assoc.keys d.files)
    (h : ∀ n, n ∈ bufs'.map segName ↔ n = some name ∨ n ∈ bufs.map segName) :
    outside m d bufs' = outside m d bufs := by
  unfold outside
  congr 1
  apply List.filter_congr
  intro e he
  have hne : some e.1 ≠ some name := fun heq =>
    hfresh (Option.some.inj heq ▸ List.mem_map_of_mem he)
  simp only [h, hne, false_or]

theorem Opened.progress {tsMs : Int} {io : EventIo} (hdir : m.cfg.walDir ≠ none)
    (hio : io.dirSynced = true) (h : Logged m l.disk (l.buffers ++ away))
    (hopen : Opened m l key tsMs io l' buf) :
    Progress m away l l' ∧ Assoc.get? key l'.buffers = some buf := by
  cases hopen with
  | found hget => exact ⟨.refl h, hget⟩
  | plain _ hnone => exact absurd hnone hdir
  | @logged name hget _ hname _ hfree =>
    have hops : createOps name io = [.create name, .syncDir] := by
      rw [createOps, if_pos hio]
    have hseg : IsSegment name := hname ▸ isSegment_fileName _ _ _
    have hadds : l.disk.AddsAll [.create name, .syncDir] := ⟨⟨hseg, hfree⟩, trivial, trivial⟩
    obtain ⟨hfit, -⟩ := h.fit.addsAll (S := m.entries) hadds
    have hinsert : Assoc.insert key (m.freshBuf tsMs io (some ⟨name, false⟩)) l.buffers =
        l.buffers ++ [(key, m.freshBuf tsMs io (some ⟨name, false⟩))] :=
      Assoc.insert_of_notMem (Assoc.get?_eq_none.mp hget)
    have hperm : (Assoc.insert key (m.freshBuf tsMs io (some ⟨name, false⟩)) l.buffers ++ away).Perm
        ((key, m.freshBuf tsMs io (some ⟨name, false⟩)) :: (l.buffers ++ away)) := by
      rw [hinsert, List.append_assoc]
      exact List.perm_middle
    have hnames : ∀ n, n ∈ (Assoc.insert key (m.freshBuf tsMs io (some ⟨name, false⟩))
        l.buffers).map segName ↔ n = some name ∨ n ∈ l.buffers.map segName := by
      intro n
      rw [hinsert, List.map_append, List.mem_append, List.map_singleton, List.mem_singleton]
      exact or_comm
    have hnew : Mirrors m (l.disk.applyAll [.create name, .syncDir])
        (key, m.freshBuf tsMs io (some ⟨name, false⟩)) := by
      refine ⟨⟨name, false⟩, ⟨[], 0, true⟩, [], rfl, ?_, rfl, rfl, (bufEvents_new _ _ _ _).symm,
        fun _ => rfl⟩
      exact List.mem_map.mpr ⟨(name, ⟨[], 0, false⟩),
        List.mem_append_right _ (List.mem_singleton_self _), rfl⟩
    refine ⟨⟨⟨_, rfl, rfl, ?_⟩, ?_, ?_, fun n hn => ?_⟩, Assoc.get?_insert _ _ _⟩
    · rwa [hops]
    · show Logged m (l.disk.applyAll (createOps name io)) _
      rw [hops]
      have hall : Logged m (l.disk.applyAll [.create name, .syncDir])
          ((key, m.freshBuf tsMs io (some ⟨name, false⟩)) :: (l.buffers ++ away)) := by
        refine ⟨hfit, fun e he => ?_, ?_⟩
        · rcases List.mem_cons.mp he with rfl | he
          · exact hnew
          · exact ((h.mirrors e he).apply (.inl rfl : DiskOp.target (.create name) = none ∨ _)).apply
              (.inl rfl : DiskOp.target .syncDir = none ∨ _)
        · rw [List.map_cons, List.nodup_cons]
          refine ⟨fun hmem => ?_, h.names⟩
          obtain ⟨e, he, heq⟩ := List.mem_map.mp hmem
          exact hfree ((h.mirrors e he).mem_keys heq)
      exact hall.perm hperm.symm
    · show S4Logs.outside m (l.disk.applyAll (createOps name io)) _ = _
      rw [hops]
      show S4Logs.outside m ((l.disk.apply (.create name)).apply .syncDir)
        (Assoc.insert key _ l.buffers) = _
      rw [outside_syncDir, outside_create ((hnames _).mpr (.inl rfl)), outside_fresh hfree hnames]
    · rcases (hnames _).mp hn with heq | hn
      · cases heq
        exact .inr hfree
      · exact .inl hn

theorem PushMove.progress {ev : LogEvent} {io : EventIo} {pushed : Bool}
    {err : Option BufferError} (hdir : m.cfg.walDir ≠ none) (hio : io.Kept) (hplain : ev.Plain)
    (hsound : AllSound m.lib l.buffers) (h : Logged m l.disk (l.buffers ++ away))
    (hmove : PushMove m l ev io l' pushed err) : Progress m away l l' := by
  cases hmove with
  | unopened => exact .refl h
  | @torn l₁ buf seg n hopened hwal htorn =>
    obtain ⟨hprogress, hget⟩ := hopened.progress hdir hio.1 h
    have hn : n = 0 := by
      rcases hio.2 with hnone | hzero
      · rw [htorn] at hnone
        cases hnone
      · rw [htorn] at hzero
        exact Option.some.inj hzero
    subst hn
    refine hprogress.trans ?_
    rw [List.take_zero]
    exact .write hprogress.logged hget hwal hwal rfl
      (fun es hes => ⟨es, List.append_nil _, hes⟩) (fun hclean => ⟨rfl, hclean⟩)
  | unlogged hopened hwal =>
    obtain ⟨hprogress, hget⟩ := hopened.progress hdir hio.1 h
    obtain ⟨seg, -, -, hseg, -⟩ := hprogress.logged.mirrors _
      (List.mem_append_left _ (Assoc.mem_of_get? hget))
    rw [show _ = none from hwal] at hseg
    cases hseg
  | @logged l₁ buf seg writer err hopened hwal _ hwriter =>
    obtain ⟨hprogress, hget⟩ := hopened.progress hdir hio.1 h
    refine hprogress.trans (.write hprogress.logged hget hwal rfl rfl (fun es hes => ?_) nofun)
    refine ⟨es ++ [ev.record.toWalEntry ev.logGroup], ?_, ?_⟩
    · rw [SerdeLine.text_append, SerdeLine.text_singleton]
      rfl
    · have hpush := (Buf.push_spec ev.key (hopened.sound hsound) ev.record writer hwriter).2
      rw [List.map_append, List.map_singleton, ← Multiset.coe_add, hes, hplain.event]
      exact hpush.symm

theorem pushAll_progress (hdir : m.cfg.walDir ≠ none) {items : List (LogEvent × EventIo)} :
    ∀ {l l' : Locked} {pushed : List LogEvent} {err : Option BufferError},
    (∀ item ∈ items, item.1.Plain ∧ item.2.Kept) → AllSound m.lib l.buffers →
    Logged m l.disk (l.buffers ++ away) → m.pushAll l items = (l', pushed, err) →
    Progress m away l l' := by
  induction items with
  | nil =>
    intro l l' pushed err _ _ h hpush
    cases hpush
    exact .refl h
  | cons item items ih =>
    intro l l' pushed err hkept hsound h hpush
    obtain ⟨ev, io⟩ := item
    obtain ⟨hplain, hio⟩ := hkept _ List.mem_cons_self
    cases hone : m.pushOne l ev.logGroup ev.record io with
    | mk l₁ r =>
      obtain ⟨took, e⟩ := r
      have hprogress := (pushOne_move hone).progress hdir hio hplain hsound h
      simp only [BufferManager.pushAll, hone] at hpush
      cases e with
      | some e =>
        cases hpush
        exact hprogress
      | none =>
        cases hpush
        exact hprogress.trans (ih (fun item hitem => hkept item (List.mem_cons_of_mem _ hitem))
          (pushOne_spec hsound hone).1 hprogress.logged rfl)

end S4Logs
