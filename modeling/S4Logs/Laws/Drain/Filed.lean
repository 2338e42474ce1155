import S4Logs.Laws.Core.Frames
import S4Logs.Laws.Drain.Paging
import S4Logs.Laws.Drain.Slots
import Mathlib.Data.List.Induction

/-!
# What a window has filed

A window splits the records it pushes into groups by their length alone
(`rotate`), encodes each full group and puts it into the next slot. So what the
window has stored is computed from what it has pushed: group `i` is in slot `i`,
its entry is item `i` of the list, and the rest is in the writer (`WorkFiled`).

The books of a window are everything but its writer. `BooksMove` says once what a
step can do to them, and a property that these moves keep is carried along
(`BookRule`).
-/

namespace S4Logs

variable {env : Env} {opts : DrainOptions} {shards : Option (List (List String))} {w : Window}
variable {a : Archive} {events : List CwEvent} {naming : ObjectNaming}
variable {objects objects' : String → Option Bytes}

/-! ## Rotation -/

/-- One more record: close the open group where it is long enough. -/
def rotateStep (lib : CodecLib) (target : Nat) (st : List (List LogRecord) × List LogRecord)
    (rec : LogRecord) : List (List LogRecord) × List LogRecord :=
  if target ≤ (lib.records.text (st.2 ++ [rec])).length then (st.1 ++ [st.2 ++ [rec]], [])
  else (st.1, st.2 ++ [rec])

/-- The closed groups of some records, and the open one. -/
def rotate (lib : CodecLib) (target : Nat) (rs : List LogRecord) :
    List (List LogRecord) × List LogRecord :=
  rs.foldl (rotateStep lib target) ([], [])

/-- The groups of all of some records: the open one is closed if it has any. -/
def rotated (lib : CodecLib) (target : Nat) (rs : List LogRecord) : List (List LogRecord) :=
  (rotate lib target rs).1 ++
    if (rotate lib target rs).2 = [] then [] else [(rotate lib target rs).2]

variable {lib : CodecLib} {target : Nat}

theorem rotate_concat (rs : List LogRecord) (rec : LogRecord) :
    rotate lib target (rs ++ [rec]) = rotateStep lib target (rotate lib target rs) rec := by
  rw [rotate, List.foldl_append]
  rfl

/-- Rotation keeps the records and their order. -/
theorem rotate_flatten (lib : CodecLib) (target : Nat) (rs : List LogRecord) :
    (rotate lib target rs).1.flatten ++ (rotate lib target rs).2 = rs := by
  induction rs using List.reverseRecOn with
  | nil => rfl
  | append_singleton rs rec ih =>
    rw [rotate_concat, rotateStep]
    split
    next =>
      rw [List.flatten_append, List.flatten_singleton, List.append_nil, ← List.append_assoc, ih]
    next => rw [← List.append_assoc, ih]

theorem rotated_flatten (rs : List LogRecord) : (rotated lib target rs).flatten = rs := by
  have h := rotate_flatten lib target rs
  unfold rotated
  split
  next hnil =>
    rw [hnil] at h
    rwa [List.append_nil] at h ⊢
  next => rwa [List.flatten_append, List.flatten_singleton]

/-- Every group has some record. -/
theorem rotate_ne_nil (lib : CodecLib) (target : Nat) (rs : List LogRecord) : ∀ g ∈ (rotate lib target rs).1, g ≠ [] := by
  induction rs using List.reverseRecOn with
  | nil => exact fun g hg => absurd hg List.not_mem_nil
  | append_singleton rs rec ih =>
    rw [rotate_concat, rotateStep]
    split
    next =>
      intro g hg
      rcases List.mem_append.mp hg with hg | hg
      · exact ih g hg
      · rw [List.mem_singleton.mp hg]
        exact fun hnil => List.cons_ne_nil _ _ (List.append_eq_nil_iff.mp hnil).2
    next => exact ih

/-- More records leave the closed groups as they are. -/
theorem rotate_append (lib : CodecLib) (target : Nat) (rs more : List LogRecord) :
    (rotate lib target rs).1 <+: (rotate lib target (rs ++ more)).1 := by
  induction more using List.reverseRecOn with
  | nil => exact (List.append_nil rs).symm ▸ List.prefix_refl _
  | append_singleton more rec ih =>
    rw [← List.append_assoc, rotate_concat, rotateStep]
    split
    next => exact ih.trans (List.prefix_append _ _)
    next => exact ih

/-- The closed groups of the first records are the first groups of all of them. -/
theorem rotate_prefix (lib : CodecLib) (target : Nat) {rs all : List LogRecord} (h : rs <+: all) :
    (rotate lib target rs).1 <+: rotated lib target all := by
  obtain ⟨more, rfl⟩ := h
  exact (rotate_append lib target rs more).trans (List.prefix_append _ _)

/-! ## Pieces -/

/-- One stored object: the chunk, the etag it got and the records it was made of. -/
structure Piece where
  chunk : EncodedChunk
  etag : Option String
  records : List LogRecord

/-- The manifest entry of a piece at a place. -/
def Piece.entry (env : Env) (p : Piece) (loc : ChunkLocation) : ManifestObject :=
  WindowWriter.entry p.chunk (receiptFor env.store loc p.chunk p.etag)

/-- The place holds the chunk and the sidecars encoded for it. -/
structure Piece.StoredAt (env : Env) (objects : String → Option Bytes) (p : Piece)
    (loc : ChunkLocation) : Prop where
  data : objects (loc.dataKey env.store.keyPrefix) = some p.chunk.body
  index : objects (loc.indexKey env.store.keyPrefix) =
    some (encodeSidecars env.lib p.chunk p.etag).1
  tsIndex : objects (loc.tsIndexKey env.store.keyPrefix) =
    some (encodeSidecars env.lib p.chunk p.etag).2

theorem Piece.StoredAt.frame {p : Piece} {loc : ChunkLocation} (h : p.StoredAt env objects loc)
    (heq : ∀ key ∈ loc.keys env.store.keyPrefix, objects' key = objects key) :
    p.StoredAt env objects' loc where
  data := by rw [heq _ List.mem_cons_self, h.data]
  index := by rw [heq _ (List.mem_cons_of_mem _ List.mem_cons_self), h.index]
  tsIndex := by
    rw [heq _ (List.mem_cons_of_mem _ (List.mem_cons_of_mem _ List.mem_cons_self)), h.tsIndex]

/-- The etags that a store may answer for some octets. -/
abbrev EtagLaw := Bytes → Option String → Prop

/-- Any etag for any octets. -/
def anyEtag : EtagLaw := fun _ _ => True

/-- The etag of a data object obeys the law. -/
def EtagAnswers (E : EtagLaw) : Await → TaskLabel → Prop
  | .put chunk .data _, .put (some etag) => E chunk.body etag
  | _, _ => True

instance EtagAnswers.decidable {E : EtagLaw} [∀ body etag, Decidable (E body etag)] :
    ∀ at_ l, Decidable (EtagAnswers E at_ l) := by
  intro at_ l
  unfold EtagAnswers
  split <;> infer_instance

theorem EtagAnswers.any (at_ : Await) (l : TaskLabel) : EtagAnswers anyEtag at_ l := by
  unfold EtagAnswers
  split
  next => trivial
  next => trivial

variable {E : EtagLaw}

/-- How far a chunk is put. -/
def PutStored (env : Env) (E : EtagLaw) (objects : String → Option Bytes) (loc : ChunkLocation)
    (chunk : EncodedChunk) : PutStage → Prop
  | .data => True
  | .index etag => E chunk.body etag ∧ objects (loc.dataKey env.store.keyPrefix) = some chunk.body
  | .tsIndex etag => E chunk.body etag ∧ objects (loc.dataKey env.store.keyPrefix) = some chunk.body ∧
    objects (loc.indexKey env.store.keyPrefix) = some (encodeSidecars env.lib chunk etag).1

theorem PutStored.frame {loc : ChunkLocation} {chunk : EncodedChunk} {stage : PutStage}
    (h : PutStored env E objects loc chunk stage)
    (heq : ∀ key ∈ loc.keys env.store.keyPrefix, objects' key = objects key) :
    PutStored env E objects' loc chunk stage := by
  have hdata := heq _ List.mem_cons_self
  have hindex := heq _ (List.mem_cons_of_mem _ List.mem_cons_self)
  cases stage with
  | data => trivial
  | index etag => exact ⟨h.1, hdata.trans h.2⟩
  | tsIndex etag => exact ⟨h.1, hdata.trans h.2.1, hindex.trans h.2.2⟩

/-! ## The books -/

/-- What a step can do to the books. -/
inductive BooksMove (w : Window) (wk : Work) : TaskLabel → Work → Prop
  | same {l : TaskLabel} : BooksMove w wk l wk
  | page {i : Nat} {c : Cursor} {page : CwEventPage} : wk.inbox = [] →
      wk.cursors[i]? = some c → c.exhausted = false →
      BooksMove w wk (.page i (some page))
        { wk with cursors := wk.cursors.set i (c.advance page), inbox := page.events }
  | dropped {ev : CwEvent} {rest : List CwEvent} : wk.inbox = ev :: rest →
      w.contains ev = false → BooksMove w wk .event
        { wk with
            inbox := rest
            dropped := if wk.prior.isNone then wk.dropped + 1 else wk.dropped }
  | drained {ev : CwEvent} {rest : List CwEvent} : wk.inbox = ev :: rest →
      w.contains ev = true → wk.prior = none → BooksMove w wk .event
        { wk with
            inbox := rest
            arrived := wk.arrived ++ [ev]
            pushed := wk.pushed ++ [ev] }
  | already {ev : CwEvent} {rest : List CwEvent} : wk.inbox = ev :: rest →
      w.contains ev = true → wk.prior ≠ none → ev.seenIn wk.seen = true →
      BooksMove w wk .event
        { wk with
            inbox := rest
            arrived := wk.arrived ++ [ev]
            cwEvents := wk.cwEvents + 1
            already := wk.already + 1 }
  | appended {ev : CwEvent} {rest : List CwEvent} : wk.inbox = ev :: rest →
      w.contains ev = true → wk.prior ≠ none → ev.seenIn wk.seen = false →
      BooksMove w wk .event
        { wk with
            inbox := rest
            arrived := wk.arrived ++ [ev]
            cwEvents := wk.cwEvents + 1
            seen := ev.identity :: wk.seen
            appended := wk.appended + 1
            pushed := wk.pushed ++ [ev] }

/-- A property of the books that every move keeps. `guard` is what is assumed of the
answers. -/
structure BookRule (w : Window) (guard : Work → TaskLabel → Prop) (B : Work → Prop) : Prop where
  writer : ∀ {wk : Work} (ww : WindowWriter), B wk → B { wk with ww := ww }
  move : ∀ {wk wk' : Work} {l : TaskLabel}, guard wk l → BooksMove w wk l wk' → B wk → B wk'

/-! ## What is filed -/

/-- The slots of a window. -/
def Slot.of (opts : DrainOptions) (w : Window) (naming : ObjectNaming) (seq : Nat) : Slot where
  account := opts.account
  window := w
  naming := naming
  seq := seq

/-- The places of one window and naming tell their numbers apart. -/
theorem Slot.seq_of_tail {logGroup : String} {i j : Nat}
    (h : ((Slot.of opts w naming i).location logGroup).tail =
      ((Slot.of opts w naming j).location logGroup).tail) : i = j := by
  have hlist := congrArg String.toList h
  rw [toList_tail, toList_tail] at hlist
  have hname := (List.cons.inj (List.append_cancel_left hlist)).2
  exact ObjectNaming.seq_of_name (String.toList_inj.mp (List.append_cancel_right hname))

/-- The first pieces are in the first slots, and listed. -/
structure Filed (env : Env) (E : EtagLaw) (opts : DrainOptions) (w : Window) (naming : ObjectNaming)
    (objects : String → Option Bytes) (ww : WindowWriter) (pieces : List Piece) : Prop where
  start : ww.windowStartMs = w.startMs
  date : ww.date = dateFromTsMs w.startMs
  named : ww.naming = naming
  seq : ww.seq = pieces.length
  listed : ww.objects = pieces.mapIdx fun i p =>
    p.entry env ((Slot.of opts w naming i).location opts.logGroup)
  stored : ∀ (i : Nat) (p : Piece), pieces[i]? = some p →
    p.StoredAt env objects ((Slot.of opts w naming i).location opts.logGroup)
  encoded : ∀ p ∈ pieces,
    ChunkWriter.encodeAll env.lib opts.chunk p.records = .ok (some p.chunk)
  tagged : ∀ p ∈ pieces, E p.chunk.body p.etag

/-- The pushed events as records. -/
def Work.records (wk : Work) : List LogRecord := wk.pushed.map CwEvent.toRecord

/-- Nothing is left to page, and everything pushed is filed. -/
def Finished (env : Env) (E : EtagLaw) (opts : DrainOptions) (w : Window) (naming : ObjectNaming)
    (objects : String → Option Bytes) (wk : Work) : Prop :=
  Ended wk ∧ ∃ pieces : List Piece, Filed env E opts w naming objects wk.ww pieces ∧
    pieces.map Piece.records = rotated env.lib opts.chunkTargetBytes wk.records ∧
    wk.ww.records = wk.records.length

/-- What a window has filed at an await, as far as it is no dry run. -/
def WorkFiled (env : Env) (E : EtagLaw) (opts : DrainOptions) (w : Window) (naming : ObjectNaming)
    (objects : String → Option Bytes) (wk : Work) : Await → Prop
  | .pages => opts.dryRun = false → ∃ (pieces : List Piece) (held : List LogRecord),
    Filed env E opts w naming objects wk.ww pieces ∧
    (ChunkWriter.new opts.chunk).pushAll env.lib held = (wk.ww.writer, .ok ()) ∧
    rotate env.lib opts.chunkTargetBytes wk.records = (pieces.map Piece.records, held) ∧
    wk.ww.records + held.length = wk.records.length
  | .put chunk stage last => opts.dryRun = false ∧ (last = true → Ended wk) ∧
    wk.ww.writer = ChunkWriter.new opts.chunk ∧ ∃ (pieces : List Piece)
    (group : List LogRecord),
    Filed env E opts w naming objects wk.ww pieces ∧
    ChunkWriter.encodeAll env.lib opts.chunk group = .ok (some chunk) ∧
    PutStored env E objects ((Slot.of opts w naming pieces.length).location opts.logGroup)
      chunk stage ∧
    rotate env.lib opts.chunkTargetBytes wk.records =
      (if last then (pieces.map Piece.records, group) else (pieces.map Piece.records ++ [group], [])) ∧
    wk.ww.records = wk.records.length
  | .manifest => wk.needsManifest opts = true ∧ Finished env E opts w naming objects wk

/-- What a window has come to after some code between two awaits. `B` holds of its
books. -/
def PhaseFiled (env : Env) (E : EtagLaw) (opts : DrainOptions) (w : Window) (naming : ObjectNaming)
    (objects : String → Option Bytes) (B : Work → Prop) (prior : Option Manifest) : Phase → Prop
  | .work wk at_ => wk.prior = prior ∧ B wk ∧ WorkFiled env E opts w naming objects wk at_
  | .done out => ∃ wk : Work, out = wk.outcome ∧ wk.prior = prior ∧ B wk ∧
    (opts.dryRun = false → prior ≠ none ∧ wk.appended = 0 ∧
      Finished env E opts w naming objects wk)
  | .failed _ => True
  | _ => False

namespace Filed

variable {ww : WindowWriter} {pieces : List Piece}

theorem new : Filed env E opts w naming objects (.new opts w naming) [] where
  start := rfl
  date := rfl
  named := rfl
  seq := rfl
  listed := rfl
  stored i p hp := by cases hp
  encoded p hp := absurd hp List.not_mem_nil
  tagged p hp := absurd hp List.not_mem_nil

/-- The next object goes into the next slot. -/
theorem location (h : Filed env E opts w naming objects ww pieces) :
    ww.location opts = (Slot.of opts w naming pieces.length).location opts.logGroup := by
  simp only [WindowWriter.location, Slot.location, Slot.of, objectLocation, h.start, h.date,
    h.named, h.seq]

/-- Only the names and the list matter. -/
theorem congr {ww' : WindowWriter} (h : Filed env E opts w naming objects ww pieces)
    (hstart : ww'.windowStartMs = ww.windowStartMs) (hdate : ww'.date = ww.date)
    (hnaming : ww'.naming = ww.naming) (hobjects : ww'.objects = ww.objects)
    (hseq : ww'.seq = ww.seq) : Filed env E opts w naming objects ww' pieces where
  start := hstart.trans h.start
  date := hdate.trans h.date
  named := hnaming.trans h.named
  seq := hseq.trans h.seq
  listed := hobjects.trans h.listed
  stored := h.stored
  encoded := h.encoded
  tagged := h.tagged

/-- A write beside the slots used so far changes nothing. -/
theorem frame (h : Filed env E opts w naming objects ww pieces)
    (heq : ∀ i < pieces.length, ∀ key ∈ ((Slot.of opts w naming i).location opts.logGroup).keys
      env.store.keyPrefix, objects' key = objects key) :
    Filed env E opts w naming objects' ww pieces where
  start := h.start
  date := h.date
  named := h.named
  seq := h.seq
  listed := h.listed
  stored i p hp := by
    obtain ⟨hi, -⟩ := List.getElem?_eq_some_iff.mp hp
    exact (h.stored i p hp).frame (heq i hi)
  encoded := h.encoded
  tagged := h.tagged

/-- A chunk that is stored in the next slot can be listed. -/
theorem concat {p : Piece} (h : Filed env E opts w naming objects ww pieces)
    (hencoded : ChunkWriter.encodeAll env.lib opts.chunk p.records = .ok (some p.chunk))
    (htagged : E p.chunk.body p.etag) (hstored : p.StoredAt env objects
      ((Slot.of opts w naming pieces.length).location opts.logGroup)) :
    Filed env E opts w naming objects
      (ww.stored p.chunk (receiptFor env.store (ww.location opts) p.chunk p.etag))
      (pieces ++ [p]) where
  start := h.start
  date := h.date
  named := h.named
  seq := by
    show ww.seq + 1 = _
    rw [h.seq, List.length_append, List.length_singleton]
  listed := by
    show ww.objects ++ [_] = _
    rw [h.listed, List.mapIdx_append, h.location]
    simp only [List.mapIdx_cons, List.mapIdx_nil, Nat.zero_add]
    rfl
  stored i q hq := by
    by_cases hi : i < pieces.length
    · rw [List.getElem?_append_left hi] at hq
      exact h.stored i q hq
    · rw [List.getElem?_append_right (Nat.le_of_not_lt hi)] at hq
      have hzero : i - pieces.length = 0 := by
        by_contra hne
        rw [List.getElem?_eq_none (by rw [List.length_singleton]; omega)] at hq
        cases hq
      rw [hzero] at hq
      obtain rfl := Option.some.inj hq
      rw [show i = pieces.length by omega]
      exact hstored
  encoded q hq := by
    rcases List.mem_append.mp hq with hq | hq
    · exact h.encoded q hq
    · rwa [List.mem_singleton.mp hq]
  tagged q hq := by
    rcases List.mem_append.mp hq with hq | hq
    · exact h.tagged q hq
    · rwa [List.mem_singleton.mp hq]

end Filed

/-! ## What a step keeps -/

variable {wk : Work} {B : Work → Prop} {guard : Work → TaskLabel → Prop} {prior : Option Manifest}

/-- A window ends with a manifest unless it runs dry or repairs nothing. -/
theorem resume_filed {last : Bool} (hprior : wk.prior = prior) (hbooks : B wk)
    (hpages : last = false → WorkFiled env E opts w naming objects wk .pages)
    (hlast : last = true → opts.dryRun = false → Finished env E opts w naming objects wk) :
    PhaseFiled env E opts w naming objects B prior (wk.resume opts last) := by
  refine resume_rule (fun hl => ⟨hprior, hbooks, hpages hl⟩)
    (fun hl hneeds => ⟨hprior, hbooks, hneeds, hlast hl (needsManifest_iff.mp hneeds).1⟩)
    fun hl hneeds => ⟨wk, rfl, hprior, hbooks, fun hdry => ?_⟩
  rw [needsManifest_iff, not_and, not_or, Nat.not_lt, Nat.le_zero, hprior] at hneeds
  exact ⟨(hneeds hdry).1, (hneeds hdry).2, hlast hl hdry⟩

theorem flush_filed {writer : ChunkWriter} {last : Bool} (rule : BookRule w guard B)
    (hprior : wk.prior = prior) (hbooks : B wk)
    (hnew : wk.ww.writer = ChunkWriter.new opts.chunk) (hend : last = true → Ended wk)
    (h : opts.dryRun = false → ∃ (pieces : List Piece) (held : List LogRecord),
      Filed env E opts w naming objects wk.ww pieces ∧
      (ChunkWriter.new opts.chunk).pushAll env.lib held = (writer, .ok ()) ∧
      rotate env.lib opts.chunkTargetBytes wk.records =
        (if last then (pieces.map Piece.records, held)
          else (pieces.map Piece.records ++ [held], [])) ∧
      wk.ww.records + held.length = wk.records.length) :
    PhaseFiled env E opts w naming objects B prior (wk.flush env opts writer last) := by
  cases hdry : opts.dryRun with
  | true =>
    rcases flush_dryRun hdry wk writer last with ⟨e, hflush⟩ | ⟨ww, hflush⟩
    · rw [hflush]
      trivial
    · rw [hflush]
      exact resume_filed (by exact hprior) (rule.writer ww hbooks)
        (fun _ h => absurd (hdry.symm.trans h) Bool.noConfusion)
        (fun _ h => absurd (hdry.symm.trans h) Bool.noConfusion)
  | false =>
    obtain ⟨pieces, held, hfiled, hpushed, hrotate, hrecords⟩ := h hdry
    unfold Work.flush WindowWriter.flush
    rw [hdry]
    have hall : ChunkWriter.encodeAll env.lib opts.chunk held = writer.finish env.lib := by
      rw [ChunkWriter.encodeAll, hpushed]
    rcases ChunkWriter.encodeAll_spec env.lib opts.chunk held with
      ⟨hnone, rfl⟩ | ⟨chunk, hsome, hmade⟩ | ⟨hfail, -⟩
    · rw [← hall, hnone]
      refine resume_filed hprior hbooks (fun hl => ?_) (fun hl _ => ⟨hend hl, pieces, hfiled, ?_, ?_⟩)
      · rw [hl] at hrotate
        have hgroup := rotate_ne_nil env.lib opts.chunkTargetBytes wk.records []
        rw [hrotate] at hgroup
        exact absurd rfl (hgroup (List.mem_append_right _ (List.mem_singleton_self _)))
      · rw [hl] at hrotate
        rw [rotated, hrotate]
        exact (List.append_nil _).symm
      · exact hrecords
    · rw [← hall, hsome]
      refine ⟨hprior, rule.writer _ hbooks, hdry, hend, hnew, pieces, held,
        hfiled.congr rfl rfl rfl rfl rfl, hsome, trivial, hrotate, ?_⟩
      obtain ⟨frames, -, -, hheld, rfl⟩ := hmade
      show wk.ww.records + (frameRecords frames).length = _
      rw [← hheld]
      exact hrecords
    · rw [← hall, hfail]
      exact trivial

theorem push_filed {ev : CwEvent} (rule : BookRule w guard B) (hprior : wk.prior = prior)
    (hbooks : B { wk with pushed := wk.pushed ++ [ev] })
    (h : WorkFiled env E opts w naming objects wk .pages) :
    PhaseFiled env E opts w naming objects B prior (wk.push env opts ev) := by
  have hrec : ({ wk with pushed := wk.pushed ++ [ev] } : Work).records =
      wk.records ++ [ev.toRecord] := List.map_append
  -- the account of the pushed event, whether or not it fills the writer
  have hheld : ∀ writer, wk.ww.writer.push env.lib ev.toRecord = (writer, .ok ()) →
      opts.dryRun = false → ∃ (pieces : List Piece) (held : List LogRecord),
        Filed env E opts w naming objects wk.ww pieces ∧
        (ChunkWriter.new opts.chunk).pushAll env.lib held = (writer, .ok ()) ∧
        rotate env.lib opts.chunkTargetBytes (wk.records ++ [ev.toRecord]) =
          (if opts.chunkTargetBytes ≤ writer.uncompressedLen then
            (pieces.map Piece.records ++ [held], []) else (pieces.map Piece.records, held)) ∧
        wk.ww.records + held.length = (wk.records ++ [ev.toRecord]).length := by
    intro writer hpush hdry
    obtain ⟨pieces, held, hfiled, hpushed, hrotate, hrecords⟩ := h hdry
    have hok : ((ChunkWriter.new opts.chunk).pushAll env.lib held).2 = .ok () := by rw [hpushed]
    have hnext : (ChunkWriter.new opts.chunk).pushAll env.lib (held ++ [ev.toRecord]) =
        (writer, .ok ()) := by
      rw [ChunkWriter.pushAll_concat hok, hpushed]
      exact hpush
    have hlen : writer.uncompressedLen =
        (env.lib.records.text (held ++ [ev.toRecord])).length := by
      rcases (ChunkWriter.made_new env.lib opts.chunk).pushAll
        (held ++ [ev.toRecord]) with ⟨-, hmade⟩ | ⟨hfail, -⟩
      · rw [hnext, List.nil_append] at hmade
        exact hmade.holds.uncompressedLen
      · rw [hnext] at hfail
        cases hfail
    refine ⟨pieces, held ++ [ev.toRecord], hfiled, hnext, ?_, ?_⟩
    · rw [rotate_concat, hrotate, rotateStep, hlen]
    · rw [List.length_append, List.length_append, ← hrecords, Nat.add_assoc]
  refine push_rule (fun _ => trivial) (fun writer hpush hfull => ?_) fun writer hpush hopen => ?_
  · refine flush_filed rule hprior (rule.writer _ hbooks) rfl (fun h => by cases h) fun hdry => ?_
    obtain ⟨pieces, held, hfiled, hpushed, hrotate, hrecords⟩ := hheld writer hpush hdry
    rw [if_pos hfull] at hrotate
    exact ⟨pieces, held, hfiled.congr rfl rfl rfl rfl rfl, hpushed, hrec ▸ hrotate,
      hrec ▸ hrecords⟩
  · refine ⟨hprior, rule.writer _ hbooks, fun hdry => ?_⟩
    obtain ⟨pieces, held, hfiled, hpushed, hrotate, hrecords⟩ := hheld writer hpush hdry
    rw [if_neg hopen] at hrotate
    exact ⟨pieces, held, hfiled.congr rfl rfl rfl rfl rfl, hpushed, hrec ▸ hrotate,
      hrec ▸ hrecords⟩

/-- An event is dropped, recognised or pushed. -/
theorem event_filed {ev : CwEvent} {rest : List CwEvent} (rule : BookRule w guard B)
    (answers : guard wk .event) (hinbox : wk.inbox = ev :: rest) (hprior : wk.prior = prior)
    (hbooks : B wk) (h : WorkFiled env E opts w naming objects wk .pages) :
    PhaseFiled env E opts w naming objects B prior (wk.event env opts w ev rest) := by
  refine event_rule (fun hout => ?_) (fun hin hnone => ?_) (fun hin hsome hseen => ?_)
    fun hin hsome hnew => ?_
  · exact ⟨hprior, rule.move answers (.dropped hinbox hout) hbooks, h⟩
  · exact push_filed rule hprior (rule.move answers (.drained hinbox hin hnone) hbooks) h
  · exact ⟨hprior, rule.move answers (.already hinbox hin hsome hseen) hbooks, h⟩
  · exact push_filed rule hprior (rule.move answers (.appended hinbox hin hsome hnew) hbooks) h

theorem start_filed {seen : List Nat} (env : Env) (objects : String → Option Bytes)
    (hbooks : B (Work.start opts shards w prior naming seen events)) :
    PhaseFiled env E opts w naming objects B prior
      (.work (Work.start opts shards w prior naming seen events) .pages) :=
  ⟨rfl, hbooks, fun _ => ⟨[], [], Filed.new, rfl, rfl, rfl⟩⟩

/-- A write into a slot of the window. -/
def SlotWrite (env : Env) (opts : DrainOptions) (w : Window) (naming : ObjectNaming)
    (write : StoreWrite) : Prop :=
  ∃ seq key body, write = .object key body ∧
    key ∈ ((Slot.of opts w naming seq).location opts.logGroup).keys env.store.keyPrefix

theorem putRequest_mem_keys (env : Env) (loc : ChunkLocation) (chunk : EncodedChunk)
    (stage : PutStage) :
    (putRequest env.lib env.store loc chunk stage).1 ∈ loc.keys env.store.keyPrefix := by
  cases stage with
  | data => exact List.mem_cons_self
  | index etag => exact List.mem_cons_of_mem _ List.mem_cons_self
  | tsIndex etag => exact List.mem_cons_of_mem _ (List.mem_cons_of_mem _ List.mem_cons_self)

theorem applyWrites_object (a : Archive) (key : String) (body : Bytes) :
    (applyWrites a [.object key body]).objects key = some body :=
  if_pos rfl

theorem applyWrites_object_ne {key key' : String} (a : Archive) (body : Bytes) (h : key' ≠ key) :
    (applyWrites a [.object key body]).objects key' = a.objects key' :=
  if_neg h

/-- A write into a slot leaves every manifest alone. -/
theorem SlotWrite.manifests {writes : List StoreWrite}
    (h : ∀ write ∈ writes, SlotWrite env opts w naming write) :
    (applyWrites a writes).manifests = a.manifests := by
  ext1 key
  refine applyWrites_manifests fun write hwrite body heq => ?_
  obtain ⟨_, _, _, rfl, -⟩ := h write hwrite
  cases heq

/-- A PUT of the next chunk leaves the slots before it alone. -/
theorem Filed.putFrame {ww : WindowWriter} {pieces : List Piece} {key : String} (body : Bytes)
    (h : Filed env E opts w naming a.objects ww pieces)
    (hkey : key ∈ ((Slot.of opts w naming pieces.length).location opts.logGroup).keys
      env.store.keyPrefix) :
    Filed env E opts w naming (applyWrites a [.object key body]).objects ww pieces := by
  refine h.frame fun i hi key' hkey' => applyWrites_object_ne a body ?_
  rintro rfl
  exact keys_apart (fun heq => Nat.ne_of_lt hi (Slot.seq_of_tail heq)) hkey' hkey

/-- A window that pages or puts files what it pushes, and writes into its own slots.
Only its last step writes a manifest, of all it has filed. -/
theorem work_filed {at_ : Await} {l : TaskLabel} {p' : Phase} {writes : List StoreWrite}
    (rule : BookRule w guard B) (answers : guard wk l) (etags : EtagAnswers E at_ l)
    (move : TaskMove env opts shards w a events (.work wk at_) l p' writes) (hbooks : B wk)
    (h : WorkFiled env E opts w naming a.objects wk at_) :
    ((∀ write ∈ writes, SlotWrite env opts w naming write) ∧
        PhaseFiled env E opts w naming (applyWrites a writes).objects B wk.prior p') ∨
      ∃ nowMs, wk.needsManifest opts = true ∧ Finished env E opts w naming a.objects wk ∧
        p' = .done wk.outcome ∧ writes =
          [.manifest (taskKey env opts w)
            ((Work.manifest opts w wk nowMs).toJsonBytes env.serde)] := by
  cases move with
  | fail => exact .inl ⟨fun _ h => absurd h List.not_mem_nil, trivial⟩
  | page hinbox hc hopen =>
    exact .inl ⟨fun _ h => absurd h List.not_mem_nil,
      rfl, rule.move answers (.page hinbox hc hopen) hbooks, h⟩
  | event hinbox =>
    exact .inl ⟨fun _ h => absurd h List.not_mem_nil,
      event_filed rule answers hinbox rfl hbooks h⟩
  | endPages hinbox hall =>
    refine .inl ⟨fun _ h => absurd h List.not_mem_nil,
      flush_filed rule rfl (rule.writer _ hbooks) rfl (fun _ => ⟨hinbox, hall⟩) fun hdry => ?_⟩
    obtain ⟨pieces, held, hfiled, hpushed, hrotate, hrecords⟩ := h hdry
    exact ⟨pieces, held, hfiled.congr rfl rfl rfl rfl rfl, hpushed, hrotate, hrecords⟩
  | @putNext _ chunk stage stage' last etag hnext =>
    obtain ⟨hdry, hend, hnew, pieces, group, hfiled, hencoded, hput, hrotate, hrecords⟩ := h
    have hkey := putRequest_mem_keys env (wk.ww.location opts) chunk stage
    rw [hfiled.location] at hkey ⊢
    refine .inl ⟨fun write hwrite => ?_, rfl, hbooks, hdry, hend, hnew, pieces, group,
      hfiled.putFrame _ hkey, hencoded, ?_, hrotate, hrecords⟩
    · rw [List.mem_singleton.mp hwrite]
      exact ⟨_, _, _, rfl, hkey⟩
    · cases stage with
      | data =>
        cases hnext
        exact ⟨etags, applyWrites_object _ _ _⟩
      | index etag =>
        cases hnext
        refine ⟨hput.1, ?_, applyWrites_object _ _ _⟩
        refine (applyWrites_object_ne a _ ?_).trans hput.2
        exact (dataKey_ne_sidecar _ _ _).1
      | tsIndex etag => cases hnext
  | @putDone _ chunk stage last etag receipt hnext =>
    obtain ⟨hdry, hend, hnew, pieces, group, hfiled, hencoded, hput, hrotate, hrecords⟩ := h
    cases stage with
    | data => cases hnext
    | index etag => cases hnext
    | tsIndex etag =>
      obtain rfl : receiptFor env.store (wk.ww.location opts) chunk etag = receipt :=
        Sum.inr.inj hnext
      have hkey := putRequest_mem_keys env (wk.ww.location opts) chunk (.tsIndex etag)
      have hloc := hfiled.location
      rw [hloc] at hkey
      have hframe := hfiled.putFrame (putRequest env.lib env.store (wk.ww.location opts) chunk
        (.tsIndex etag)).2 hkey
      have hfiled' := hframe.concat (p := ⟨chunk, etag, group⟩) hencoded hput.1 ?stored
      case stored =>
        constructor
        · exact (applyWrites_object_ne a _ (dataKey_ne_sidecar _ _ _).2).trans hput.2.1
        · exact (applyWrites_object_ne a _ (indexKey_ne_tsIndexKey _ _ _)).trans hput.2.2
        · rw [hloc]
          exact applyWrites_object _ _ _
      have hmap : (pieces ++ [(⟨chunk, etag, group⟩ : Piece)]).map Piece.records =
          pieces.map Piece.records ++ [group] := List.map_append
      rw [hloc] at hfiled' ⊢
      refine .inl ⟨fun write hwrite => ?_, resume_filed rfl (rule.writer _ hbooks)
        (fun hl _ => ⟨_, [], hfiled', ?_, ?_, ?_⟩) (fun hl _ => ⟨hend hl, _, hfiled', ?_, ?_⟩)⟩
      · rw [List.mem_singleton.mp hwrite]
        exact ⟨_, _, _, rfl, hkey⟩
      · exact congrArg (fun writer => (writer, Except.ok ())) hnew.symm
      · rw [hl] at hrotate
        rw [hmap]
        exact hrotate
      · exact hrecords
      · rw [hl] at hrotate
        have hgroup : group ≠ [] := by
          rcases ChunkWriter.encodeAll_spec env.lib opts.chunk group with
            ⟨hnone, -⟩ | ⟨chunk', hsome, hmade⟩ | ⟨hfail, -⟩
          · rw [hencoded] at hnone
            cases hnone
          · exact hmade.ne_nil
          · rw [hencoded] at hfail
            cases hfail
        rw [hmap]
        show _ = rotated env.lib opts.chunkTargetBytes wk.records
        rw [rotated, hrotate]
        rw [if_pos rfl, if_neg hgroup]
      · exact hrecords
  | putManifest => exact .inr ⟨_, h.1, h.2, rfl, rfl⟩

end S4Logs
