import S4Logs.Laws.Drain.Sound

/-!
# What fixed contents are laid out as

Where CloudWatch answers the same events for a window whenever it is asked, by
one cursor, and a store answers an etag that depends on the octets alone, all
that a drain of the window ever puts is fixed beforehand: piece `i` is group `i`
of the rotation of all its events, whichever run gets as far as that (`PieceOf`).
So what is put under a key is a function of the key (`Laid.functional`), and to
put it again changes nothing.
-/

namespace S4Logs

variable {env : Env} {opts : DrainOptions} {shards : Option (List (List String))} {w w' : Window}
variable {a : Archive} {events : List CwEvent} {wk : Work}

/-- What CloudWatch answers for each window, in any number of pages, and what a store
answers to the PUT of some octets. -/
structure FixedCloud where
  pages : Window → List CwEvent
  etag : Bytes → Option String

namespace FixedCloud

variable {C : FixedCloud}

/-- The events of a window that lie in it, as records. -/
def records (C : FixedCloud) (w : Window) : List LogRecord :=
  ((C.pages w).filter w.contains).map CwEvent.toRecord

/-- The etag is the one of the octets. -/
def law (C : FixedCloud) : EtagLaw := fun body etag => etag = C.etag body

/-- The pages of a cursor are a division of the events of the window. -/
def PageAnswers (C : FixedCloud) (w : Window) (wk : Work) : TaskLabel → Prop
  | .page i (some page) => ∀ c ∈ wk.cursors[i]?, c.returned ++ page.events <+: C.pages w ∧
    (page.nextToken = none → c.returned ++ page.events = C.pages w)
  | _ => True

instance PageAnswers.decidable (wk : Work) : ∀ l, Decidable (C.PageAnswers w wk l)
  | .page i (some page) => inferInstanceAs (Decidable (∀ c ∈ wk.cursors[i]?,
      c.returned ++ page.events <+: C.pages w ∧
      (page.nextToken = none → c.returned ++ page.events = C.pages w)))
  | .page _ none => .isTrue trivial
  | .get _ => .isTrue trivial
  | .readObject _ => .isTrue trivial
  | .event => .isTrue trivial
  | .endPages => .isTrue trivial
  | .put _ => .isTrue trivial
  | .putManifest _ _ => .isTrue trivial

instance law.decidable (body : Bytes) (etag : Option String) : Decidable (C.law body etag) :=
  inferInstanceAs (Decidable (etag = C.etag body))

/-- The answers a task gets. -/
def Answers (C : FixedCloud) (w : Window) : Phase → TaskLabel → Prop
  | .work wk at_, l => C.PageAnswers w wk l ∧ EtagAnswers C.law at_ l
  | _, _ => True

instance Answers.decidable : ∀ p l, Decidable (C.Answers w p l)
  | .work wk at_, l => inferInstanceAs (Decidable (C.PageAnswers w wk l ∧ EtagAnswers C.law at_ l))
  | .look, _ => .isTrue trivial
  | .lookup, _ => .isTrue trivial
  | .read _ _ _, _ => .isTrue trivial
  | .done _, _ => .isTrue trivial
  | .failed _, _ => .isTrue trivial

end FixedCloud

variable {C : FixedCloud}

/-! ## Pieces that are known beforehand -/

/-- The piece is the one that goes into slot `i` of the window. -/
structure PieceOf (env : Env) (opts : DrainOptions) (C : FixedCloud) (w : Window) (i : Nat)
    (p : Piece) : Prop where
  group : (rotated env.lib opts.chunkTargetBytes (C.records w))[i]? = some p.records
  encoded : ChunkWriter.encodeAll env.lib opts.chunk p.records = .ok (some p.chunk)
  etag : p.etag = C.etag p.chunk.body

/-- There is one piece for a slot. -/
theorem PieceOf.unique {i : Nat} {p p' : Piece} (h : PieceOf env opts C w i p)
    (h' : PieceOf env opts C w i p') : p = p' := by
  obtain ⟨chunk, etag, records⟩ := p
  obtain ⟨chunk', etag', records'⟩ := p'
  obtain rfl : records = records' := Option.some.inj (h.group.symm.trans h'.group)
  have hchunk : some chunk = some chunk' := Except.ok.inj (h.encoded.symm.trans h'.encoded)
  obtain rfl := Option.some.inj hchunk
  obtain rfl : etag = etag' := h.etag.trans h'.etag.symm
  rfl

/-- The three PUTs of a piece. -/
def Piece.puts (env : Env) (p : Piece) (loc : ChunkLocation) : List (String × Bytes) :=
  [PutStage.data, .index p.etag, .tsIndex p.etag].map (putRequest env.lib env.store loc p.chunk)

theorem Piece.mem_puts {p : Piece} {loc : ChunkLocation} {key : String} {body : Bytes} :
    (key, body) ∈ p.puts env loc ↔
      (key = loc.dataKey env.store.keyPrefix ∧ body = p.chunk.body) ∨
      (key = loc.indexKey env.store.keyPrefix ∧ body = (encodeSidecars env.lib p.chunk p.etag).1) ∨
      (key = loc.tsIndexKey env.store.keyPrefix ∧
        body = (encodeSidecars env.lib p.chunk p.etag).2) := by
  simp only [Piece.puts, List.map_cons, List.map_nil, putRequest, List.mem_cons, List.not_mem_nil,
    or_false, Prod.mk.injEq]

theorem Piece.key_of_puts {p : Piece} {loc : ChunkLocation} {key : String} {body : Bytes}
    (h : (key, body) ∈ p.puts env loc) : key ∈ loc.keys env.store.keyPrefix := by
  simp only [ChunkLocation.keys, List.mem_cons, List.not_mem_nil, or_false]
  exact (Piece.mem_puts.mp h).imp And.left (Or.imp And.left And.left)

/-- A key gets one body of a piece. -/
theorem Piece.puts_functional {p : Piece} {loc : ChunkLocation} {key : String} {body body' : Bytes}
    (h : (key, body) ∈ p.puts env loc) (h' : (key, body') ∈ p.puts env loc) : body = body' := by
  have hdata := dataKey_ne_sidecar loc loc env.store.keyPrefix
  have hindex := indexKey_ne_tsIndexKey loc loc env.store.keyPrefix
  rw [Piece.mem_puts] at h h'
  rcases h with ⟨rfl, rfl⟩ | ⟨rfl, rfl⟩ | ⟨rfl, rfl⟩
  · rcases h' with ⟨-, rfl⟩ | ⟨heq, -⟩ | ⟨heq, -⟩
    · rfl
    · exact absurd heq hdata.1
    · exact absurd heq hdata.2
  · rcases h' with ⟨heq, -⟩ | ⟨-, rfl⟩ | ⟨heq, -⟩
    · exact absurd heq.symm hdata.1
    · rfl
    · exact absurd heq hindex
  · rcases h' with ⟨heq, -⟩ | ⟨heq, -⟩ | ⟨-, rfl⟩
    · exact absurd heq.symm hdata.2
    · exact absurd heq.symm hindex
    · rfl

/-- A piece is stored where its three PUTs are. -/
theorem Piece.storedAt_iff {p : Piece} {loc : ChunkLocation} {objects : String → Option Bytes} :
    p.StoredAt env objects loc ↔ ∀ key body, (key, body) ∈ p.puts env loc →
      objects key = some body := by
  constructor
  · intro h key body hput
    rcases Piece.mem_puts.mp hput with ⟨rfl, rfl⟩ | ⟨rfl, rfl⟩ | ⟨rfl, rfl⟩
    · exact h.data
    · exact h.index
    · exact h.tsIndex
  · intro h
    constructor
    · exact h _ _ (Piece.mem_puts.mpr (.inl ⟨rfl, rfl⟩))
    · exact h _ _ (Piece.mem_puts.mpr (.inr (.inl ⟨rfl, rfl⟩)))
    · exact h _ _ (Piece.mem_puts.mpr (.inr (.inr ⟨rfl, rfl⟩)))

/-- What a drain of the window puts under a key. -/
def Laid (env : Env) (opts : DrainOptions) (C : FixedCloud) (w : Window) (key : String)
    (body : Bytes) : Prop :=
  ∃ i p, PieceOf env opts C w i p ∧
    (key, body) ∈ p.puts env ((Slot.of opts w .base i).location opts.logGroup)

/-- A key gets one body, whichever grid window puts it. -/
theorem Laid.functional {windowMs : Int} {key : String} {body body' : Bytes}
    (hw : GridWindow windowMs w) (hw' : GridWindow windowMs w') (h : Laid env opts C w key body)
    (h' : Laid env opts C w' key body') : body = body' := by
  obtain ⟨i, p, hp, hput⟩ := h
  obtain ⟨i', p', hp', hput'⟩ := h'
  have hslot : Slot.of opts w .base i = Slot.of opts w' .base i' := by
    by_contra hne
    have hin : (Slot.of opts w .base i).In fun _ w => GridWindow windowMs w := ⟨hw, trivial⟩
    have hin' : (Slot.of opts w' .base i').In fun _ w => GridWindow windowMs w := ⟨hw', trivial⟩
    exact Slot.keys_apart (GridWindow.apart windowMs) hin hin' hne (Piece.key_of_puts hput)
      (Piece.key_of_puts hput')
  obtain rfl : w = w' := congrArg Slot.window hslot
  obtain rfl : i = i' := congrArg Slot.seq hslot
  obtain rfl := hp.unique hp'
  exact Piece.puts_functional hput hput'

/-! ## A drain of fixed contents -/

/-- The window has one cursor, which has returned the first of its events, and what it
has returned is pushed, dropped or waits in the inbox. -/
structure Sequenced (C : FixedCloud) (w : Window) (wk : Work) : Prop where
  prior : wk.prior = none
  cursor : ∃ c, wk.cursors = [c] ∧ c.returned <+: C.pages w ∧
    (c.exhausted = true → c.returned = C.pages w) ∧
    c.returned.filter w.contains = wk.pushed ++ wk.inbox.filter w.contains

theorem Sequenced.start (C : FixedCloud) (w : Window) (events : List CwEvent) :
    Sequenced C w (Work.start opts none w none .base [] events) where
  prior := rfl
  cursor := by
    refine ⟨.start none, rfl, List.nil_prefix, ?_, rfl⟩
    intro h
    cases h

theorem sequenced_rule (C : FixedCloud) (w : Window) :
    BookRule w (C.PageAnswers w) (Sequenced C w) where
  writer _ h := ⟨h.prior, h.cursor⟩
  move := by
    intro wk wk' l answers move h
    obtain ⟨hprior, c, hcursors, hreturned, hend, hpushed⟩ := h
    cases move with
    | same => exact ⟨hprior, c, hcursors, hreturned, hend, hpushed⟩
    | @page i c' page hinbox hc =>
      obtain ⟨hnext, hlast⟩ := answers c' hc
      rw [hcursors] at hc
      have hi : i = 0 := by
        obtain ⟨hlt, -⟩ := List.getElem?_eq_some_iff.mp hc
        simpa using hlt
      subst hi
      obtain rfl : c = c' := Option.some.inj hc
      refine ⟨hprior, c.advance page, ?_, hnext, fun hex => hlast ?_, ?_⟩
      · rw [hcursors]
        rfl
      · simpa only [Cursor.exhausted, Cursor.advance, Option.isNone_iff_eq_none,
          Option.map_eq_none_iff] using hex
      · rw [hinbox, List.filter_nil, List.append_nil] at hpushed
        show (c.returned ++ page.events).filter w.contains = _
        rw [List.filter_append, hpushed]
    | @dropped ev rest hinbox hout =>
      refine ⟨hprior, c, hcursors, hreturned, hend, ?_⟩
      rw [hpushed, hinbox, List.filter_cons_of_neg (by rw [hout]; exact Bool.false_ne_true)]
    | @drained ev rest hinbox hin =>
      refine ⟨hprior, c, hcursors, hreturned, hend, ?_⟩
      rw [hpushed, hinbox, List.filter_cons_of_pos hin, List.append_assoc]
      rfl
    | already _ _ hsome => exact absurd hprior hsome
    | appended _ _ hsome => exact absurd hprior hsome

/-- What is pushed comes first among the records of the window. -/
theorem Sequenced.pushed (h : Sequenced C w wk) : wk.records <+: C.records w := by
  obtain ⟨-, c, -, ⟨more, hmore⟩, -, hpushed⟩ := h
  refine List.IsPrefix.map _ ?_
  rw [← hmore, List.filter_append, hpushed, List.append_assoc]
  exact List.prefix_append _ _

/-- Where nothing is left to page everything is pushed. -/
theorem Sequenced.ended (h : Sequenced C w wk) (hend : Ended wk) : wk.records = C.records w := by
  obtain ⟨-, c, hcursors, -, hall, hpushed⟩ := h
  obtain ⟨hinbox, hexhausted⟩ := hend
  rw [hcursors] at hexhausted
  have hex : c.exhausted = true := by
    simpa using hexhausted
  rw [hinbox, List.filter_nil, List.append_nil, hall hex] at hpushed
  rw [FixedCloud.records, hpushed]
  rfl

/-- The octets that a window is about to put are laid out beforehand. -/
theorem WorkFiled.laid {objects : String → Option Bytes} {chunk : EncodedChunk} {stage : PutStage}
    {last : Bool} (h : WorkFiled env C.law opts w .base objects wk (.put chunk stage last))
    (hseq : Sequenced C w wk) :
    Laid env opts C w (putRequest env.lib env.store (wk.ww.location opts) chunk stage).1
      (putRequest env.lib env.store (wk.ww.location opts) chunk stage).2 := by
  obtain ⟨-, hend, -, pieces, group, hfiled, hencoded, hput, hrotate, -⟩ := h
  have hgroup : (rotated env.lib opts.chunkTargetBytes (C.records w))[pieces.length]? =
      some group := by
    cases last with
    | true =>
      have hne := (encodeAll_made hencoded).ne_nil
      rw [← hseq.ended (hend rfl), rotated, hrotate, if_pos rfl, if_neg hne,
        List.getElem?_append_right (by rw [List.length_map]), List.length_map, Nat.sub_self]
      rfl
    | false =>
      obtain ⟨more, hmore⟩ := rotate_prefix env.lib opts.chunkTargetBytes hseq.pushed
      rw [hrotate] at hmore
      rw [← hmore, if_neg Bool.false_ne_true, List.append_assoc,
        List.getElem?_append_right (by rw [List.length_map]), List.length_map, Nat.sub_self]
      rfl
  refine ⟨pieces.length, ⟨chunk, C.etag chunk.body, group⟩, ⟨hgroup, hencoded, rfl⟩, ?_⟩
  rw [← hfiled.location]
  cases stage with
  | data => exact List.mem_cons_self
  | index etag =>
    rw [show etag = C.etag chunk.body from hput.1]
    exact List.mem_cons_of_mem _ List.mem_cons_self
  | tsIndex etag =>
    rw [show etag = C.etag chunk.body from hput.1]
    exact List.mem_cons_of_mem _ (List.mem_cons_of_mem _ List.mem_cons_self)

end S4Logs
