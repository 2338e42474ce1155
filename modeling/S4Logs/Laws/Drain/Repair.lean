import S4Logs.Laws.Drain.Fidelity

/-!
# One repaired window

A reconcile reads the identities of what is archived, and then appends every event
of the pages that it has not seen (`Deduped`). So afterwards each event of the
window is known among the listed records, by its identity or by its content, and
what was appended is new and appended once. The next reconcile of the same events
knows all of them and writes nothing, since the identity of a record survives the
encoding.
-/

namespace S4Logs

variable {env : Env} {opts : DrainOptions} {shards : Option (List (List String))} {w : Window}
variable {a a₀ : Archive} {events : List CwEvent} {m : Manifest} {wk : Work}
variable {W : String → Window → Prop} {paged : List CwEvent} {before : List Nat}

/-! ## Identities -/

/-- The identities of the records of some listed objects. -/
def identities (lib : CodecLib) (objects : String → Option Bytes) (os : List ManifestObject) :
    List Nat :=
  (listedRecords lib objects os).map LogRecord.identity

theorem identities_append {lib : CodecLib} {objects : String → Option Bytes}
    (os os' : List ManifestObject) : identities lib objects (os ++ os') =
      identities lib objects os ++ identities lib objects os' := by
  rw [identities, listedRecords_append, List.map_append]
  rfl

theorem CwEvent.seenIn_iff {ev : CwEvent} {ids : List Nat} : ev.seenIn ids = true ↔
    ev.identity ∈ ids ∨ (ev.eventId.isSome = true ∧
      fallbackIdentity ev.timestamp ev.logStreamName ev.message ∈ ids) := by
  simp only [CwEvent.seenIn, Bool.or_eq_true, Bool.and_eq_true, List.contains_iff_mem]

/-- What is seen stays seen. -/
theorem CwEvent.seenIn_mono {ev : CwEvent} {ids ids' : List Nat} (h : ∀ id ∈ ids, id ∈ ids')
    (hseen : ev.seenIn ids = true) : ev.seenIn ids' = true := by
  rw [seenIn_iff] at hseen ⊢
  exact hseen.imp (h _) (And.imp_right (h _))

theorem CwEvent.seenIn_identity {ev : CwEvent} {ids : List Nat} (h : ev.identity ∈ ids) :
    ev.seenIn ids = true :=
  CwEvent.seenIn_iff.mpr (.inl h)

theorem lineIdentities_some (rs : List LogRecord) :
    lineIdentities (rs.map some) = some (rs.map LogRecord.identity) := by
  induction rs with
  | nil => rfl
  | cons r rs ih =>
    rw [List.map_cons, lineIdentities, ih]
    rfl

/-- What is decoded of a whole text is the text. -/
theorem decodeObject_text {Z : Zstd} {obj : ManifestObject} {body text raw : Bytes}
    (hdecode : Z.decode body = (text, true)) (h : decodeObject Z obj body = .ok raw) :
    raw = text := by
  unfold decodeObject at h
  split at h
  next size =>
    split at h
    next plain hplain =>
      cases h
      exact (decompressFrames_ok hdecode hplain).1
    next => cases h
  next =>
    rw [hdecode] at h
    dsimp only at h
    rw [if_neg fun hbroken : true = false ∧ _ => Bool.noConfusion hbroken.1] at h
    split at h
    next => cases h
    next hsize =>
      cases h
      rw [List.length_take, Nat.not_lt] at hsize
      exact List.take_of_length_le (by omega)

/-- The identities read from an object are those of its records. -/
theorem objectIdentities_made {lib : CodecLib} {obj : ManifestObject} {chunk : EncodedChunk}
    {rs : List LogRecord} {ids : List Nat} (hmade : chunk.Made lib rs)
    (h : objectIdentities lib obj chunk.body = .ok ids) : ids = rs.map LogRecord.identity := by
  unfold objectIdentities at h
  split at h
  next => cases h
  next raw hraw =>
    rw [decodeObject_text hmade.describes.decode hraw, recordLines_text, lineIdentities_some] at h
    exact (Except.ok.inj h).symm

/-! ## The books of a repair -/

/-- What came is known or appended. `before` are the identities that were archived. -/
structure Deduped (w : Window) (before : List Nat) (m : Manifest) (paged : List CwEvent) (wk : Work) :
    Prop where
  prior : wk.prior = some m
  seen : ∀ id, id ∈ wk.seen ↔ id ∈ before ∨ id ∈ wk.pushed.map CwEvent.identity
  fresh : ∀ ev ∈ wk.pushed, ev.seenIn before = false
  nodup : (wk.pushed.map CwEvent.identity).Nodup
  pushed : ∀ ev ∈ wk.pushed, ev ∈ wk.arrived
  came : paged.filter w.contains = wk.arrived ++ wk.inbox.filter w.contains
  known : ∀ ev ∈ wk.arrived, ev.seenIn wk.seen = true
  cwEvents : wk.cwEvents = wk.arrived.length
  already : wk.cwEvents = wk.already + wk.appended
  appended : wk.appended = wk.pushed.length

/-- The books of a repair are a tally. -/
theorem Deduped.tally (h : Deduped w before m paged wk) : Tally w wk where
  inside ev hev := by
    have hmem : ev ∈ paged.filter w.contains := by
      rw [h.came]
      exact List.mem_append_left _ (h.pushed ev hev)
    exact (List.mem_filter.mp hmem).2
  appended _ := h.appended

theorem Deduped.start {naming : ObjectNaming} {seen : List Nat}
    (hseen : ∀ id, id ∈ seen ↔ id ∈ before) :
    Deduped w before m [] (Work.start opts shards w (some m) naming seen events) where
  prior := rfl
  seen id := by
    rw [show (Work.start opts shards w (some m) naming seen events).seen = seen from rfl, hseen]
    exact (or_iff_left List.not_mem_nil).symm
  fresh _ h := absurd h List.not_mem_nil
  nodup := List.nodup_nil
  pushed _ h := absurd h List.not_mem_nil
  came := rfl
  known _ h := absurd h List.not_mem_nil
  cwEvents := rfl
  already := rfl
  appended := rfl

theorem Deduped.came_cons {ev : CwEvent} {rest : List CwEvent} (h : Deduped w before m paged wk)
    (hinbox : wk.inbox = ev :: rest) (hin : w.contains ev = true) :
    paged.filter w.contains = (wk.arrived ++ [ev]) ++ rest.filter w.contains := by
  rw [h.came, hinbox, List.filter_cons_of_pos hin, List.append_assoc]
  rfl

theorem deduped_rule (before : List Nat) (m : Manifest) (paged : List CwEvent) :
    BookRule w (fun _ l => l.pageEvents = []) (Deduped w before m paged) where
  writer _ h := { h with }
  move := by
    intro wk wk' l hempty move h
    cases move with
    | same => exact h
    | @page _ _ page hinbox =>
      have hpage : page.events = [] := hempty
      exact { h with
        came := by
          rw [h.came, hinbox, hpage] }
    | @dropped ev rest hinbox hout =>
      exact { h with
        came := by
          rw [h.came, hinbox, List.filter_cons_of_neg (by rw [hout]; exact Bool.false_ne_true)] }
    | drained _ _ hnone =>
      rw [h.prior] at hnone
      cases hnone
    | @already ev rest hinbox hin _ hseen =>
      exact { h with
        pushed := fun ev' hev' => List.mem_append_left _ (h.pushed ev' hev')
        came := h.came_cons hinbox hin
        known := by
          intro ev' hev'
          rcases List.mem_append.mp hev' with hev' | hev'
          · exact h.known ev' hev'
          · rwa [List.mem_singleton.mp hev']
        cwEvents := by
          rw [List.length_append, List.length_singleton, ← h.cwEvents]
        already := by
          show wk.cwEvents + 1 = wk.already + 1 + wk.appended
          rw [h.already]
          omega }
    | @appended ev rest hinbox hin _ hnew =>
      have hunseen : ev.identity ∉ wk.seen := fun hmem => by
        rw [CwEvent.seenIn_identity hmem] at hnew
        cases hnew
      have hgrown : ∀ id ∈ wk.seen, id ∈ ev.identity :: wk.seen := fun _ =>
        List.mem_cons_of_mem _
      exact {
        prior := h.prior
        seen := by
          intro id
          show id ∈ ev.identity :: wk.seen ↔ _
          rw [List.mem_cons, h.seen, List.map_append, List.mem_append, List.map_singleton,
            List.mem_singleton]
          exact ⟨fun hid => hid.elim (fun heq => .inr (.inr heq)) (Or.imp_right .inl), fun hid =>
            hid.elim (fun hb => .inr (.inl hb)) fun hid => hid.elim (fun hp => .inr (.inr hp)) .inl⟩
        fresh := by
          intro ev' hev'
          rcases List.mem_append.mp hev' with hev' | hev'
          · exact h.fresh ev' hev'
          · rw [List.mem_singleton.mp hev']
            by_contra hold
            have hold' : ev.seenIn wk.seen = true := CwEvent.seenIn_mono
              (fun id hid => (h.seen id).mpr (.inl hid)) (Bool.not_eq_false _ ▸ hold)
            rw [hold'] at hnew
            cases hnew
        nodup := by
          rw [List.map_append, List.map_singleton]
          refine List.nodup_append'.mpr ⟨h.nodup, List.nodup_singleton _, ?_⟩
          intro id hid hid'
          rw [List.mem_singleton.mp hid'] at hid
          exact hunseen ((h.seen _).mpr (.inr hid))
        pushed := by
          intro ev' hev'
          rcases List.mem_append.mp hev' with hev' | hev'
          · exact List.mem_append_left _ (h.pushed ev' hev')
          · exact List.mem_append_right _ hev'
        came := h.came_cons hinbox hin
        known := by
          intro ev' hev'
          rcases List.mem_append.mp hev' with hev' | hev'
          · exact CwEvent.seenIn_mono hgrown (h.known ev' hev')
          · rw [List.mem_singleton.mp hev']
            exact CwEvent.seenIn_identity List.mem_cons_self
        cwEvents := by
          rw [List.length_append, List.length_singleton, ← h.cwEvents]
        already := by
          show wk.cwEvents + 1 = wk.already + (wk.appended + 1)
          rw [h.already]
          omega
        appended := by
          rw [List.length_append, List.length_singleton, ← h.appended] }

/-- A page goes into the inbox. -/
theorem Deduped.page (page : CwEventPage) (cursors : List Cursor)
    (h : Deduped w before m paged wk) (hinbox : wk.inbox = []) :
    Deduped w before m (paged ++ page.events)
      { wk with cursors := cursors, inbox := page.events } :=
  { h with
    came := by
      have hcame := h.came
      rw [hinbox, List.filter_nil, List.append_nil] at hcame
      rw [List.filter_append, hcame] }

/-- Where everything that came is archived, nothing is appended. -/
theorem Deduped.idle (h : Deduped w before m paged wk)
    (hall : ∀ ev ∈ paged, w.contains ev = true → ev.seenIn before = true) : wk.pushed = [] := by
  rw [List.eq_nil_iff_forall_not_mem]
  intro ev hev
  have hmem : ev ∈ paged.filter w.contains := by
    rw [h.came]
    exact List.mem_append_left _ (h.pushed ev hev)
  obtain ⟨hpaged, hin⟩ := List.mem_filter.mp hmem
  have hnew := h.fresh ev hev
  rw [hall ev hpaged hin] at hnew
  cases hnew

/-! ## A repair from its look-up to its end -/

/-- A window that a reconcile has come to with these pages, from the archive `a₀` with
the manifest `m`. -/
def RepairHeld (env : Env) (opts : DrainOptions) (w : Window) (m : Manifest) (a₀ : Archive)
    (paged : List CwEvent) (a : Archive) : Phase → Prop
  | .look => Unmoved env opts a₀ a w ∧ paged = []
  | .read m' rest seen => Unmoved env opts a₀ a w ∧ m' = m ∧ paged = [] ∧
    ∃ got, m.objects = got ++ rest ∧ ∀ id, id ∈ seen ↔ id ∈ identities env.lib a₀.objects got
  | .work wk at_ => Unmoved env opts a₀ a w ∧
    Deduped w (identities env.lib a₀.objects m.objects) m paged wk ∧
    ∃ naming, NamedFor (some m) naming ∧ WorkFiled env anyEtag opts w naming a.objects wk at_
  | .done out => ∃ wk naming, out = wk.outcome ∧
    Deduped w (identities env.lib a₀.objects m.objects) m paged wk ∧
    (opts.dryRun = false → Finished env anyEtag opts w naming a.objects wk ∧ Concluded env opts a₀ a w wk)
  | .failed _ => True
  | .lookup => False

/-- The archive of a reconcile is sound and keeps what it lists; where everything that
came was archived, it is the archive that was found. -/
structure Repairing (env : Env) (opts : DrainOptions) (W : String → Window → Prop) (w : Window)
    (m : Manifest) (a₀ : Archive) (paged : List CwEvent) (a : Archive) (p : Phase) : Prop where
  sound : ArchiveSound env opts.logGroup W a
  kept : Extends env a₀ a
  idle : (∀ ev ∈ paged, w.contains ev = true →
    ev.seenIn (identities env.lib a₀.objects m.objects) = true) → a = a₀
  phase : RepairHeld env opts w m a₀ paged a p

/-- A sound manifest is read with the identities of its records. -/
theorem ManifestSound.identities {logGroup : String} {objects : String → Option Bytes}
    {filings : List Filing} {o : ManifestObject} {body : Bytes} {ids : List Nat}
    (h : ManifestSound env logGroup W objects m filings) (ho : o ∈ m.objects)
    (hbody : objects o.dataKey = some body) (hids : objectIdentities env.lib o body = .ok ids) :
    ids = identities env.lib objects [o] := by
  have hlisted := ho
  rw [h.listed] at hlisted
  obtain ⟨f, hf, rfl⟩ := List.mem_map.mp hlisted
  obtain ⟨cfg, hcfg⟩ := h.encoded f hf
  have hmade := encodeAll_made hcfg
  have hdata := (h.stored f hf).data
  have heq : body = f.piece.chunk.body := Option.some.inj (hbody.symm.trans hdata)
  subst heq
  rw [objectIdentities_made hmade hids, S4Logs.identities, listedRecords, List.flatMap_singleton,
    hbody, Option.elim_some, hmade.describes.objectRecords]

/-- A window that pushed nothing writes nothing. -/
theorem TaskMove.idle {naming : ObjectNaming} {at_ : Await} {l : TaskLabel} {p' : Phase}
    {writes : List StoreWrite} (move : TaskMove env opts shards w a events (.work wk at_) l p' writes)
    (hprior : wk.prior ≠ none) (hpushed : wk.pushed = []) (happended : wk.appended = 0)
    (h : WorkFiled env anyEtag opts w naming a.objects wk at_) : writes = [] := by
  have noput : ∀ chunk stage last,
      ¬ WorkFiled env anyEtag opts w naming a.objects wk (.put chunk stage last) := by
    rintro chunk stage last ⟨-, -, -, pieces, group, -, hencoded, -, hrotate, -⟩
    have hgroup := (encodeAll_made hencoded).ne_nil
    rw [Work.records, hpushed] at hrotate
    cases last with
    | true => exact hgroup (congrArg Prod.snd hrotate).symm
    | false =>
      have hnil := congrArg Prod.fst hrotate
      exact List.cons_ne_nil _ _ (List.append_eq_nil_iff.mp hnil.symm).2
  cases move with
  | fail => rfl
  | page => rfl
  | event => rfl
  | endPages => rfl
  | putNext => exact absurd h (noput _ _ _)
  | putDone => exact absurd h (noput _ _ _)
  | putManifest =>
    rcases (needsManifest_iff.mp h.1).2 with hnone | hpos
    · exact absurd hnone hprior
    · omega

/-- After an object is read, the reading goes on, ends in a repair or fails. -/
theorem readNext_repairHeld (got : List ManifestObject) {rest : List ManifestObject} {seen : List Nat}
    (hunmoved : Unmoved env opts a₀ a w) (hlisted : m.objects = got ++ rest)
    (hseen : ∀ id, id ∈ seen ↔ id ∈ identities env.lib a₀.objects got) :
    RepairHeld env opts w m a₀ [] a (readNext opts shards w m rest seen events) := by
  rcases readNext_spec (w := w) m rest seen
    with heq | ⟨e, heq⟩ | ⟨attempt, rfl, hnext, hlt, heq⟩
  · rw [heq]
    exact ⟨hunmoved, rfl, rfl, got, hlisted, hseen⟩
  · rw [heq]
    trivial
  · rw [heq]
    rw [List.append_nil] at hlisted
    refine ⟨hunmoved, Deduped.start fun id => ?_, _, ⟨attempt, rfl, hnext, hlt⟩,
      fun _ => ⟨[], [], Filed.new, rfl, rfl, rfl⟩⟩
    rw [hseen, hlisted]

/-- Where everything that has come was archived, nothing was written before either. -/
theorem Repairing.idle_concat {past : List TaskLabel} {l : TaskLabel} {p : Phase}
    (h : Repairing env opts W w m a₀ (pagedEvents past) a p)
    (hall : ∀ ev ∈ pagedEvents (past ++ [l]), w.contains ev = true →
      ev.seenIn (identities env.lib a₀.objects m.objects) = true) : a = a₀ := by
  refine h.idle fun ev hev => hall ev ?_
  rw [pagedEvents_concat]
  exact List.mem_append_left _ hev

/-- A step that writes nothing leaves only its phase to see to. -/
theorem Repairing.quiet {past : List TaskLabel} {l : TaskLabel} {p p' : Phase}
    (h : Repairing env opts W w m a₀ (pagedEvents past) a p)
    (hphase : RepairHeld env opts w m a₀ (pagedEvents (past ++ [l])) a p') :
    Repairing env opts W w m a₀ (pagedEvents (past ++ [l])) a p' :=
  ⟨h.sound, h.kept, h.idle_concat, hphase⟩

/-- A step of a window at work keeps the account of a reconcile. -/
theorem Repairing.work_step {past : List TaskLabel} {l : TaskLabel} {at_ : Await} {p' : Phase}
    {writes : List StoreWrite} {bytes : Bytes} (apart : Apart W) (hw : W opts.account w)
    (hbytes : a₀.manifests (taskKey env opts w) = some bytes)
    (hm : Manifest.fromJsonBytes env.serde bytes = .ok m)
    (h : Repairing env opts W w m a₀ (pagedEvents past) a (.work wk at_))
    (move : TaskMove env opts shards w a events (.work wk at_) l p' writes) :
    Repairing env opts W w m a₀ (pagedEvents (past ++ [l])) (applyWrites a writes) p' := by
  obtain ⟨hunmoved, hbooks, naming, hfor, hfiled⟩ := h.phase
  have hlooked : Looked env opts a w wk.prior := by
    rw [hbooks.prior]
    exact ⟨bytes, hunmoved.trans hbytes, hm⟩
  have hfor' : NamedFor wk.prior naming := by
    rw [hbooks.prior]
    exact hfor
  -- where everything that came was archived nothing is pushed, and so nothing written
  have hidle : (∀ ev ∈ pagedEvents (past ++ [l]), w.contains ev = true →
      ev.seenIn (identities env.lib a₀.objects m.objects) = true) → applyWrites a writes = a₀ := by
    intro hall
    have hpushed := hbooks.idle fun ev hev => hall ev (by
      rw [pagedEvents_concat]
      exact List.mem_append_left _ hev)
    have happended : wk.appended = 0 := by
      rw [hbooks.appended, hpushed, List.length_nil]
    have hprior : wk.prior ≠ none := by
      rw [hbooks.prior]
      exact Option.some_ne_none m
    rw [move.idle hprior hpushed happended hfiled]
    exact h.idle_concat hall
  by_cases hpage : l.pageEvents = []
  · rw [pagedEvents_concat, hpage, List.append_nil] at hidle ⊢
    rcases work_filed (deduped_rule _ m (pagedEvents past)) hpage (.any at_ l) move hbooks hfiled with
      ⟨hwrites, hphase⟩ | ⟨nowMs, hneeds, hfinished, rfl, rfl⟩
    · obtain ⟨hsound, hextends⟩ := h.sound.slotWrites apart hw rfl hlooked hfor' hwrites
      refine ⟨hsound, h.kept.trans hextends, hidle, ?_⟩
      have hunmoved' : Unmoved env opts a₀ (applyWrites a writes) w := by
        unfold Unmoved
        rw [SlotWrite.manifests hwrites]
        exact hunmoved
      cases p' with
      | work wk' at_' =>
        obtain ⟨-, hbooks', hfiled'⟩ := hphase
        exact ⟨hunmoved', hbooks', naming, hfor, hfiled'⟩
      | done out =>
        obtain ⟨wk', hout, hprior, hbooks', hdone⟩ := hphase
        refine ⟨wk', naming, hout, hbooks', fun hdry => ?_⟩
        obtain ⟨hsome, hzero, hfinished⟩ := hdone hdry
        exact ⟨hfinished, .inr ⟨hprior ▸ hsome, hzero, hunmoved'⟩⟩
      | failed e => trivial
      | look => exact hphase.elim
      | lookup => exact hphase.elim
      | read m rest seen => exact hphase.elim
    · obtain ⟨hsound, hextends⟩ := h.sound.manifestWrite nowMs apart hw rfl hlooked hfor'
        hbooks.tally hneeds hfinished
      exact ⟨hsound, h.kept.trans hextends, hidle, wk, naming, rfl, hbooks,
        fun _ => ⟨hfinished, .inl ⟨nowMs, applyWrites_manifest _ _ _⟩⟩⟩
  · -- only a page has events
    cases move with
    | fail => exact h.quiet trivial
    | @page _ i c page hinbox =>
      refine h.quiet ⟨hunmoved, ?_, naming, hfor, hfiled⟩
      rw [pagedEvents_concat]
      exact hbooks.page page _ hinbox
    | event => exact absurd rfl hpage
    | endPages => exact absurd rfl hpage
    | putNext => exact absurd rfl hpage
    | putDone => exact absurd rfl hpage
    | putManifest => exact absurd rfl hpage

/-- A step of a reconcile keeps its account. -/
theorem windowStep_repairing {past : List TaskLabel} {l : TaskLabel} {s t : Archive × Phase}
    {bytes : Bytes} (apart : Apart W) (hw : W opts.account w)
    (hbytes : a₀.manifests (taskKey env opts w) = some bytes)
    (hm : Manifest.fromJsonBytes env.serde bytes = .ok m)
    (h₀ : ArchiveSound env opts.logGroup W a₀)
    (h : Repairing env opts W w m a₀ (pagedEvents past) s.1 s.2)
    (hstep : windowStep env opts shards w events s l = some t) :
    Repairing env opts W w m a₀ (pagedEvents (past ++ [l])) t.1 t.2 := by
  obtain ⟨a, p⟩ := s
  obtain ⟨⟨p', writes⟩, htask, rfl⟩ := Option.map_eq_some_iff.mp hstep
  have move := taskStep_move htask
  cases p with
  | lookup => exact h.phase.elim
  | look =>
    obtain ⟨hunmoved, hpaged⟩ := h.phase
    have hnone : a.manifests (taskKey env opts w) ≠ none := by
      rw [hunmoved, hbytes]
      exact Option.some_ne_none bytes
    cases move with
    | fail => exact h.quiet trivial
    | absent habsent => exact absurd habsent hnone
    | found hbytes' hm' =>
      rw [hunmoved, hbytes] at hbytes'
      obtain rfl := Option.some.inj hbytes'
      rw [hm] at hm'
      obtain rfl := Except.ok.inj hm'
      refine h.quiet ?_
      rw [pagedEvents_concat, hpaged]
      exact readNext_repairHeld [] hunmoved rfl fun id => Iff.rfl
  | read m' rest seen =>
    obtain ⟨hunmoved, rfl, hpaged, got, hlisted, hseen⟩ := h.phase
    cases move with
    | fail => exact h.quiet trivial
    | @readObject _ obj rest _ ids body hbody hids =>
      refine h.quiet ?_
      rw [pagedEvents_concat, hpaged]
      have hmem : obj ∈ m'.objects := by
        rw [hlisted]
        exact List.mem_append_right _ List.mem_cons_self
      obtain ⟨-, -, -, -, -, hkept⟩ := h.kept _ bytes m' hbytes hm
      obtain ⟨-, -, filings, hsound⟩ := h₀.looked_some apart hw rfl ⟨bytes, hbytes, hm⟩
      rw [hkept obj hmem] at hbody
      have hnew := hsound.identities hmem hbody hids
      refine readNext_repairHeld (got ++ [obj]) hunmoved ?_ fun id => ?_
      · rw [hlisted, List.append_assoc]
        rfl
      · rw [List.mem_append, identities_append, List.mem_append, hseen, hnew]
        exact or_comm
  | work wk at_ => exact h.work_step apart hw hbytes hm move
  | done out =>
    rw [taskStep_ended (.inl ⟨out, rfl⟩)] at htask
    cases htask
  | failed e =>
    rw [taskStep_ended (.inr ⟨e, rfl⟩)] at htask
    cases htask

/-! ## What a repair leaves -/

/-- The objects a window lists hold the records it filed. -/
theorem Filed.listedRecords {E : EtagLaw} {naming : ObjectNaming} {objects : String → Option Bytes}
    {ww : WindowWriter} {pieces : List Piece} (h : Filed env E opts w naming objects ww pieces) :
    listedRecords env.lib objects ww.objects = (pieces.map Piece.records).flatten := by
  obtain ⟨hbodies, -⟩ := h.read
  have hlookup : S4Logs.listedRecords env.lib objects ww.objects =
      (ww.objects.map fun o => objects o.dataKey).flatMap fun body =>
        body.elim [] (objectRecords env.lib) := by
    rw [List.flatMap_map]
    rfl
  rw [hlookup, hbodies, List.flatMap_map, List.flatMap_map, ← List.flatMap_def]
  apply List.flatMap_congr
  intro p hp
  exact (encodeAll_made (h.encoded p hp)).describes.objectRecords

/-- What a reconcile of a window leaves where it found the manifest `m` in `a₀`. -/
structure Repaired (env : Env) (opts : DrainOptions) (w : Window) (a₀ : Archive) (m : Manifest)
    (a : Archive) (paged : List CwEvent) (out : WindowOutcome) (m' : Manifest)
    (new : List ManifestObject) : Prop where
  listed : m'.objects = m.objects ++ new
  unchanged : ∀ o ∈ m.objects, a.objects o.dataKey = a₀.objects o.dataKey
  complete : ∀ ev ∈ paged, w.contains ev = true →
    ev.identity ∈ identities env.lib a.objects m'.objects ∨ (ev.eventId.isSome = true ∧
      fallbackIdentity ev.timestamp ev.logStreamName ev.message ∈
        identities env.lib a.objects m'.objects)
  fresh : ∀ id ∈ identities env.lib a.objects new, id ∉ identities env.lib a₀.objects m.objects
  once : (identities env.lib a.objects new).Nodup
  appended : (listedRecords env.lib a.objects new).length = out.appended
  counted : out.alreadyArchived + out.appended = out.cwEvents
  cwEvents : out.cwEvents = (paged.filter w.contains).length
  recordCount : m'.recordCount = m.recordCount + out.appended

theorem Repairing.repaired {bytes : Bytes} {out : WindowOutcome} (hdry : opts.dryRun = false)
    (hbytes : a₀.manifests (taskKey env opts w) = some bytes)
    (hm : Manifest.fromJsonBytes env.serde bytes = .ok m)
    (h : Repairing env opts W w m a₀ paged a (.done out)) :
    ∃ bytes' m' new, a.manifests (taskKey env opts w) = some bytes' ∧
      Manifest.fromJsonBytes env.serde bytes' = .ok m' ∧
      Repaired env opts w a₀ m a paged out m' new := by
  obtain ⟨wk, naming, rfl, hbooks, hwet⟩ := h.phase
  obtain ⟨⟨⟨hinbox, -⟩, pieces, hfiled, hrotated, -⟩, hconcluded⟩ := hwet hdry
  obtain ⟨-, -, -, -, -, hkept⟩ := h.kept _ bytes m hbytes hm
  have hsome : wk.prior.isNone = false := by
    rw [hbooks.prior]
    rfl
  have hcame := hbooks.came
  rw [hinbox, List.filter_nil, List.append_nil] at hcame
  have hold : identities env.lib a.objects m.objects = identities env.lib a₀.objects m.objects := by
    rw [identities, identities, listedRecords_congr hkept]
  have hrecords : listedRecords env.lib a.objects wk.ww.objects = wk.records := by
    rw [hfiled.listedRecords, hrotated, rotated_flatten]
  have hnew : identities env.lib a.objects wk.ww.objects = wk.pushed.map CwEvent.identity := by
    rw [identities, hrecords, Work.records, List.map_map]
    rfl
  -- the manifest lists what the window filed, also where that is nothing
  have hmanifest : ∃ bytes' m', a.manifests (taskKey env opts w) = some bytes' ∧
      Manifest.fromJsonBytes env.serde bytes' = .ok m' ∧
      m'.objects = m.objects ++ wk.ww.objects ∧ m'.recordCount = m.recordCount + wk.appended := by
    rcases hconcluded with ⟨nowMs, hstored⟩ | ⟨-, hzero, hunmoved⟩
    · obtain ⟨hdecoded, -⟩ := manifest_written env opts w wk nowMs
        fun m' hm' => by
          rw [hbooks.prior] at hm'
          obtain rfl := Option.some.inj hm'
          exact fromJsonBytes_version hm
      refine ⟨_, _, hstored, hdecoded, ?_, ?_⟩
      · simp only [Work.manifest, hbooks.prior]
      · simp only [Work.manifest, hbooks.prior]
    · have hpushed : wk.pushed = [] := by
        rw [← List.length_eq_zero_iff, ← hbooks.appended]
        exact hzero
      have hnone : wk.ww.objects = [] := by
        have hpieces : pieces = [] := by
          rw [Work.records, hpushed] at hrotated
          exact List.map_eq_nil_iff.mp hrotated
        rw [hfiled.listed, hpieces]
        rfl
      refine ⟨bytes, m, hunmoved.trans hbytes, hm, ?_, ?_⟩
      · rw [hnone, List.append_nil]
      · rw [hzero, Nat.add_zero]
  obtain ⟨bytes', m', hbytes', hm', hlisted, hcount⟩ := hmanifest
  have houtcome : wk.outcome.appended = wk.appended ∧ wk.outcome.cwEvents = wk.cwEvents := by
    simp only [Work.outcome, hsome, Bool.false_eq_true, if_false, and_self]
  refine ⟨bytes', m', wk.ww.objects, hbytes', hm', ?_⟩
  exact {
    listed := hlisted
    unchanged := hkept
    complete := by
      intro ev hev hin
      rw [hlisted, identities_append, hold, hnew, ← CwEvent.seenIn_iff]
      have hmem : ev ∈ wk.arrived := hcame ▸ List.mem_filter.mpr ⟨hev, hin⟩
      refine CwEvent.seenIn_mono (fun id hid => ?_) (hbooks.known ev hmem)
      exact List.mem_append.mpr ((hbooks.seen id).mp hid)
    fresh := by
      intro id hid hbefore
      rw [hnew] at hid
      obtain ⟨ev, hev, rfl⟩ := List.mem_map.mp hid
      have hfresh := hbooks.fresh ev hev
      rw [CwEvent.seenIn_identity hbefore] at hfresh
      cases hfresh
    once := hnew ▸ hbooks.nodup
    appended := by
      rw [hrecords, houtcome.1, hbooks.appended, Work.records, List.length_map]
    counted := by
      rw [houtcome.1, houtcome.2]
      exact hbooks.already.symm
    cwEvents := by
      rw [houtcome.2, hcame, hbooks.cwEvents]
    recordCount := by
      rw [houtcome.1, hcount] }

/-- A reconcile of a window that earlier runs have left, with a manifest, appends what
is not known of its pages and nothing else, and the next one, of the same events,
leaves the archive as it is. -/
theorem reconcile_complete (env : Env) (logGroup : String) (windowMs : Int) (s₀ s : Sys)
    (hidle : s₀.run = none) (hempty : s₀.archive = Archive.empty)
    (hreach : LTS.Reaches (sysStep env) (OneGrid logGroup windowMs) s₀ s) (opts : DrainOptions)
    (hgroup : opts.logGroup = logGroup) (hdry : opts.dryRun = false) (w : Window)
    (hw : GridWindow windowMs w) (shards : Option (List (List String))) (events : List CwEvent)
    (bytes : Bytes) (m : Manifest) (hbytes : s.archive.manifests (taskKey env opts w) = some bytes)
    (hm : Manifest.fromJsonBytes env.serde bytes = .ok m) (labels : List TaskLabel) (a : Archive)
    (out : WindowOutcome)
    (hrun : LTS.exec (windowStep env opts shards w events) (s.archive, .look) labels =
      some (a, .done out)) :
    ∃ bytes' m' new, a.manifests (taskKey env opts w) = some bytes' ∧
      Manifest.fromJsonBytes env.serde bytes' = .ok m' ∧
      Repaired env opts w s.archive m a (pagedEvents labels) out m' new ∧
      ∀ shards' events' labels' a' p',
        LTS.exec (windowStep env opts shards' w events') (a, .look) labels' = some (a', p') →
        (∀ ev ∈ pagedEvents labels', w.contains ev = true → ev ∈ pagedEvents labels) →
        a' = a ∧ ∀ out', p' = .done out' → out'.appended = 0 := by
  subst hgroup
  have apart := GridWindow.apart windowMs
  obtain ⟨hsound, -⟩ := (SysSound.start env opts.logGroup hidle hempty).reaches apart
    (hreach.mono fun _ _ h => h.jobsOn)
  -- the account of a reconcile, from any sound archive with a manifest of the window
  have account : ∀ {shards events a₀ bytes m labels a p},
      ArchiveSound env opts.logGroup (fun _ w => GridWindow windowMs w) a₀ →
      a₀.manifests (taskKey env opts w) = some bytes →
      Manifest.fromJsonBytes env.serde bytes = .ok m →
      LTS.exec (windowStep env opts shards w events) (a₀, .look) labels = some (a, p) →
      Repairing env opts (fun _ w => GridWindow windowMs w) w m a₀ (pagedEvents labels) a p := by
    intro shards events a₀ bytes m labels a p h₀ hbytes hm hrun
    have hstart : Repairing env opts (fun _ w => GridWindow windowMs w) w m a₀ (pagedEvents []) a₀
        .look := ⟨h₀, .refl _, fun _ => rfl, rfl, rfl⟩
    refine LTS.exec_invariant (I := fun past s => Repairing env opts
      (fun _ w => GridWindow windowMs w) w m a₀ (pagedEvents past) s.1 s.2) (t := (a, p))
      hstart ?_ hrun
    intro past l s t h hstep
    exact windowStep_repairing apart hw hbytes hm h₀ h hstep
  have hfirst := account hsound.archive hbytes hm hrun
  obtain ⟨bytes', m', new, hbytes', hm', hrepaired⟩ := hfirst.repaired hdry hbytes hm
  refine ⟨bytes', m', new, hbytes', hm', hrepaired, ?_⟩
  intro shards' events' labels' a' p' hrun' hsame
  have hsecond := account hfirst.sound hbytes' hm' hrun'
  have hknown : ∀ ev ∈ pagedEvents labels', w.contains ev = true →
      ev.seenIn (identities env.lib a.objects m'.objects) = true := fun ev hev hin =>
    CwEvent.seenIn_iff.mpr (hrepaired.complete ev (hsame ev hev hin) hin)
  refine ⟨hsecond.idle hknown, ?_⟩
  rintro out' rfl
  obtain ⟨wk, naming, rfl, hbooks, -⟩ := hsecond.phase
  have hpushed := hbooks.idle hknown
  have hsome : wk.prior.isNone = false := by
    rw [hbooks.prior]
    rfl
  simp only [Work.outcome, hsome, Bool.false_eq_true, if_false, hbooks.appended, hpushed,
    List.length_nil]

/-- A reconcile has ended with these counts. -/
def Phase.repaired (already appended : Nat) : Phase → Bool
  | .done out => out.alreadyArchived == already && out.appended == appended
  | _ => false

namespace Concrete

/-- An event with an event id. -/
def namedEvent (timestamp : Int) (message eventId : String) : CwEvent :=
  { eventAt timestamp message with eventId := some eventId }

/-- Reconcile reads one object and pages an archived event, now with an event id, and a
late one twice. -/
def lateEvent : List TaskLabel :=
  [.get true, .readObject true, .page 0 (some
    ⟨[namedEvent 5 "a" "1", namedEvent 3 "b" "2", namedEvent 3 "b" "2"], none⟩)] ++
    List.replicate 3 .event ++ [.endPages] ++ List.replicate 3 (.put (some none)) ++
    [.putManifest true 2]

/-- The manifest is there, and reconcile knows two events and appends one. -/
def repairs (s : Sys) : Bool :=
  s.holdsManifest jobEnv (windowKey "s4logs" "123456789012" "/g" ⟨0, dayMs⟩) (fun _ => true) &&
    ((LTS.exec (windowStep jobEnv (jobOptions 1) none ⟨0, dayMs⟩ []) (s.archive, .look)
      lateEvent).map fun t => t.2.repaired 2 1) == some true

end Concrete

open Concrete in
/-- A late event that is paged twice, beside one that is archived. -/
theorem reconcile_complete_late : ∃ (a₀ a : Archive) (m m' : Manifest) (out : WindowOutcome)
    (new : List ManifestObject), out.alreadyArchived = 2 ∧ out.appended = 1 ∧
      Repaired jobEnv (jobOptions 1) ⟨0, dayMs⟩ a₀ m a
        [namedEvent 5 "a" "1", namedEvent 3 "b" "2", namedEvent 3 "b" "2"] out m' new := by
  obtain ⟨s, hreach, hboth⟩ := LTS.replay_spec (by decide +kernel :
    LTS.replay (sysStep jobEnv) (OneGrid "/g" dayMs) (system [] [])
      (drainEvents [eventAt 5 "a"]) repairs = true)
  simp only [repairs, Bool.and_eq_true, beq_iff_eq] at hboth
  obtain ⟨bytes, m, hbytes, hm, -⟩ := Sys.holdsManifest_spec hboth.1
  obtain ⟨⟨a, p⟩, hrun, hout⟩ := Option.map_eq_some_iff.mp hboth.2
  have hw : GridWindow dayMs ⟨0, dayMs⟩ := ⟨by decide, by decide, by decide, by decide⟩
  cases p with
  | done out =>
    simp only [Phase.repaired, Bool.and_eq_true, beq_iff_eq] at hout
    obtain ⟨bytes', m', new, -, -, hrepaired, -⟩ := reconcile_complete jobEnv "/g" dayMs _ s rfl rfl
      hreach (jobOptions 1) rfl rfl _ hw none [] bytes m hbytes hm _ a out hrun
    exact ⟨s.archive, a, m, m', out, new, hout.1, hout.2, hrepaired⟩
  | look => cases hout
  | lookup => cases hout
  | read m rest seen => cases hout
  | work wk at_ => cases hout
  | failed e => cases hout

end S4Logs
