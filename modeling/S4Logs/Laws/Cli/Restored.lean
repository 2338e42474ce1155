import S4Logs.Laws.Cli.Exact
import S4Logs.Laws.Cli.Reingest

/-!
# A restore of an archive

A CloudWatch that takes every batch within the attempts ends no restore, so a restore of a
sound archive into it comes to its end, and what it took reads back as the matching records of
the groups.
-/

namespace S4Logs

variable {cw : CwTarget}

/-! ## A willing CloudWatch -/

/-- CloudWatch makes the group and the stream, and takes every batch before the attempts are
spent. -/
structure CwTarget.Willing (cw : CwTarget) : Prop where
  group : cw.createGroup ≠ .failed
  stream : cw.createStream ≠ .failed
  put : ∀ number, ∃ attempt, Attempted cw number attempt ∧
    ∃ tooNewStart tooOldEnd expiredEnd,
      cw.put number attempt = .ok tooNewStart tooOldEnd expiredEnd

namespace CwTarget.Willing

theorem putAttempt_of_throttled {number batchLen attempt : Nat}
    (h : (cw.put number attempt).throttled = true) :
    ∃ u, putAttempt cw number batchLen attempt = .again u := by
  unfold putAttempt
  cases hput : cw.put number attempt with
  | ok tooNewStart tooOldEnd expiredEnd =>
    rw [hput] at h
    cases h
  | err code =>
    rw [hput] at h
    exact ⟨(), if_pos h⟩

theorem put_ok (h : cw.Willing) (number batchLen : Nat) :
    ∃ r, (putBatchWithBackoff cw number batchLen).result = .ok r := by
  obtain ⟨attempt, ⟨hfirst, hlast, hthrottled⟩, tooNewStart, tooOldEnd, expiredEnd, hput⟩ :=
    h.put number
  have hsettled : putAttempt cw number batchLen attempt =
      .settled (.ok (.fromIndexes tooNewStart tooOldEnd expiredEnd batchLen)) := by
    unfold putAttempt
    rw [hput]
  have htried : Retry.Tried (putAttempt cw number batchLen) putDelayMs
      (fun attempt _ => .error (.put number attempt)) (putMaxAttempts - 1) 1
      (putBatchWithBackoff cw number batchLen) := Retry.try_spec _ _
  have hbound : attempt ≤ 1 + (putMaxAttempts - 1) := hlast
  obtain ⟨-, hresult⟩ := htried.settles hfirst hbound hsettled fun k hk hlt =>
    putAttempt_of_throttled (hthrottled k hk hlt)
  exact ⟨_, hresult⟩

theorem send_ok (h : cw.Willing) (s : BatchSender) (batch : List BatchEvent) :
    (s.send cw batch).2 = .ok () := by
  have hensure : (s.ensureGroupAndStream cw).2 = .ok () := by
    unfold BatchSender.ensureGroupAndStream
    split
    next => rfl
    next =>
      split
      next hgroup => exact absurd hgroup h.group
      next =>
        split
        next hstream => exact absurd hstream h.stream
        next => rfl
  unfold BatchSender.send
  split
  next s₁ e heq =>
    rw [heq] at hensure
    cases hensure
  next s₁ heq =>
    obtain ⟨r, hr⟩ := h.put_ok (s₁.batches + 1) batch.length
    dsimp only
    rw [hr]

theorem sendAll_ok (h : cw.Willing) : ∀ (batches : List (List BatchEvent)) (s : BatchSender),
    (BatchSender.sendAll cw batches s).2 = .ok ()
  | [], _ => rfl
  | batch :: batches, s => by
    have hsend := h.send_ok s batch
    unfold BatchSender.sendAll
    split
    next s₁ e heq =>
      rw [heq] at hsend
      cases hsend
    next s₁ heq => exact h.sendAll_ok batches s₁

/-- Where CloudWatch is willing, a restore ends as the scan does. -/
theorem run_ok (h : cw.Willing) (J : JsonText) (raw tagGroup : Bool) (now : Int)
    (out : List (LogRecord × String)) :
    (Reingest.run J cw raw tagGroup now out (.ok ())).2 = .ok () := by
  obtain ⟨st, res, hall, hsends, -⟩ := Reingest.takeAll_sends cw J raw tagGroup now out .new
  have hres : res = .ok () := (congrArg Prod.snd hsends).trans (h.sendAll_ok _ _)
  unfold Reingest.run
  rw [hall, hres]
  dsimp only
  unfold Reingest.finish
  split
  next => rfl
  next batch hbatch => exact h.send_ok st.sender batch

end CwTarget.Willing

/-! ## Wrapped messages -/

/-- What a wrapped message says of a record. -/
structure Wrapped where
  timestamp : Int
  stream : String
  message : String
  logGroup : Option String
deriving DecidableEq

/-- Read a wrapped message, its fields in any order. -/
def unwrapMessage (J : JsonText) (text : String) : Option Wrapped := do
  let fields ← J.read text
  let .num timestamp ← Assoc.get? "original_timestamp" fields | none
  let .str stream ← Assoc.get? "original_stream" fields | none
  let .str message ← Assoc.get? "message" fields | none
  match Assoc.get? "original_log_group" fields with
  | none => some ⟨timestamp, stream, message, none⟩
  | some (.str logGroup) => some ⟨timestamp, stream, message, some logGroup⟩
  | some _ => none

/-- A wrapped message is read back. -/
theorem unwrap_wrap (J : JsonText) (rec : LogRecord) (group : Option String) :
    unwrapMessage J (wrapMessage J rec group) =
      some ⟨rec.timestamp, rec.stream, rec.message, group⟩ := by
  have hsorted : ((wrapFields rec group).map Prod.fst).Pairwise (· < ·) := by
    cases group with
    | none =>
      show ["message", "original_stream", "original_timestamp"].Pairwise (· < ·)
      decide
    | some logGroup =>
      show ["message", "original_log_group", "original_stream",
        "original_timestamp"].Pairwise (· < ·)
      decide
  rw [unwrapMessage, wrapMessage, J.read_write _ hsorted]
  cases group with
  | none => rfl
  | some logGroup => rfl

/-- What is to be read of a record that was wrapped. -/
def Wrapped.of (tagGroup : Bool) (x : LogRecord × String) : Wrapped where
  timestamp := x.1.timestamp
  stream := x.1.stream
  message := x.1.message
  logGroup := if tagGroup then some x.2 else none

namespace Reingest

variable (J : JsonText) (raw tagGroup : Bool) (now : Int)

/-- A record whose event is not too large for any batch. -/
def fits (x : LogRecord × String) : Bool :=
  decide (eventCost (eventOf J raw tagGroup now x).message ≤ maxBatchBytes)

/-- Events that are these records: as they were, or of now and read back as they were. -/
def Shows (events : List BatchEvent) (recs : List (LogRecord × String)) : Prop :=
  if raw then events = recs.map fun x => ⟨x.1.timestamp, x.1.message⟩
  else (events.map fun e => (e.timestamp, unwrapMessage J e.message)) =
    recs.map fun x => (now, some (.of tagGroup x))

theorem shows_eventOf (recs : List (LogRecord × String)) :
    Shows J raw tagGroup now (recs.map (eventOf J raw tagGroup now)) recs := by
  cases raw with
  | true => rfl
  | false =>
    show _ = _
    rw [List.map_map]
    refine List.map_congr_left fun x _ => Prod.ext rfl ?_
    exact unwrap_wrap J _ _

theorem kept_eq (out : List (LogRecord × String)) : kept J raw tagGroup now out =
    (out.filter (fits J raw tagGroup now)).map (eventOf J raw tagGroup now) := List.filter_map

end Reingest

/-! ## Scans restored -/

section Restores

variable {lib : ReaderLib} {store : ObjectStore} {n : Nat} {account : String}
  {sourceGroups : List String} {range : TimeRange} {J : JsonText} {raw : Bool} {now : Int}

/-- A restore ends where its scan does. -/
theorem restoreToLogGroup_isSome (cw : CwTarget) :
    (restoreToLogGroup lib store n account sourceGroups range J cw raw now).isSome =
      (scanLogGroups lib store n account sourceGroups range none).2.isSome := by
  unfold restoreToLogGroup
  exact Option.isSome_map

/-- More pulls do not change a restore that came to its end. -/
theorem restoreToLogGroup_add {cw : CwTarget} (k : Nat) {r : Reingest × Except RestoreError Unit}
    (h : restoreToLogGroup lib store n account sourceGroups range J cw raw now = some r) :
    restoreToLogGroup lib store (n + k) account sourceGroups range J cw raw now = some r := by
  obtain ⟨ended, hended, hr⟩ := Option.map_eq_some_iff.mp h
  have hscan : scanLogGroups lib store (n + k) account sourceGroups range none =
      scanLogGroups lib store n account sourceGroups range none := by
    unfold scanLogGroups
    split
    next => rfl
    next scan hopen =>
      rw [hopen] at hended
      dsimp only at hended ⊢
      rw [KWayMerge.pulls_add k (Prod.ext rfl hended), ← hended]
  unfold restoreToLogGroup at h ⊢
  rwa [hscan]

/-- However many pulls it took, a restore came to the same. -/
theorem restoreToLogGroup_unique {cw : CwTarget} {n' : Nat}
    {r r' : Reingest × Except RestoreError Unit}
    (h : restoreToLogGroup lib store n account sourceGroups range J cw raw now = some r)
    (h' : restoreToLogGroup lib store n' account sourceGroups range J cw raw now = some r') :
    r = r' := by
  have hmore := restoreToLogGroup_add n' h
  rw [Nat.add_comm, restoreToLogGroup_add n h'] at hmore
  exact (Option.some.inj hmore).symm

/-- Whatever the bucket holds and whatever CloudWatch answers, a restore makes the group and the
stream before anything else and attempts batches within the limits, one after the other, each a
few times at most and only after a throttle again. They hold the first records that the scan
emits, in its order and each once. Where the restore ends well CloudWatch took all of them, and
each is counted as sent or as too large. Where there is nothing to send, nothing is called. If
records are sent as they were, what is asked of the scan is that it goes by timestamp. -/
theorem restore_in_order {r : Reingest × Except RestoreError Unit}
    (h : restoreToLogGroup lib store n account sourceGroups range J cw raw now = some r)
    (hnow : i64Min ≤ now ∧ now ≤ i64Max)
    (hraw : raw = true →
      (scanLogGroups lib store n account sourceGroups range none).1.Pairwise
        (fun x y => x.1.timestamp ≤ y.1.timestamp) ∧
      ∀ x ∈ (scanLogGroups lib store n account sourceGroups range none).1,
        i64Min ≤ x.1.timestamp ∧ x.1.timestamp ≤ i64Max) :
    ∃ tries, Reingest.InOrder J cw raw (decide (1 < sourceGroups.length)) now
      (scanLogGroups lib store n account sourceGroups range none).1 tries r := by
  obtain ⟨ended, -, rfl⟩ := Option.map_eq_some_iff.mp h
  exact Reingest.run_in_order cw J raw _ hnow (fun hr => (hraw hr).1) (fun hr => (hraw hr).2) ended

namespace Concrete

/-- A text of octets, each as a character. -/
def octetsText (bs : Bytes) : String := String.ofList (bs.map fun b => Char.ofNat b.toNat)

def textOctets (s : String) : Bytes := s.toList.map fun c => UInt8.ofNat c.toNat

theorem textOctets_octetsText (bs : Bytes) : textOctets (octetsText bs) = bs := by
  unfold textOctets octetsText
  rw [String.toList_ofList, List.map_map]
  refine (List.map_congr_left fun b _ => ?_).trans (List.map_id bs)
  have hchar : ∀ n < 256, UInt8.ofNat (Char.ofNat n).toNat = UInt8.ofNat n := by decide +kernel
  exact (hchar b.toNat b.toNat_lt).trans UInt8.ofNat_toNat

def fieldsOf? : Json → Option (List (String × Json))
  | .obj fields => some fields
  | _ => none

/-- Compact JSON. A text of ASCII is what `serde_json` writes. -/
def jsonText : JsonText where
  write fs := octetsText (Json.compact noExtra (.obj fs))
  read text := (Json.parse (textOctets text)).bind fieldsOf?
  read_write fs _ := by
    rw [textOctets_octetsText, Json.parse_compact]
    rfl

/-- The group is there, and the first attempt at every batch is throttled. -/
def throttledOnce : CwTarget where
  createGroup := .alreadyExists
  createStream := .created
  put _ attempt := if attempt = 1 then .err (some "Throttling") else .ok none none none

end Concrete

namespace Concrete

/-- Two records of one day. -/
def pairChunk : EncodedChunk := oneFrame [tieRecord 5 "a", tieRecord 7 "b"]

/-- A record of another group, three days later. -/
def farChunk : EncodedChunk := oneFrame [tieRecord 259200005 "c"]

def farShelf : ChunkLocation := ⟨"1", "h", "1970-01-04", "n"⟩

/-- Both, without sidecars. -/
def apartShelf : ObjectStore :=
  (emptyShelf.putChunk reader.toCodecLib shelf ⟨pairChunk, none, 1⟩).putChunk reader.toCodecLib
    farShelf ⟨farChunk, none, 1⟩

/-- The four days, restored as they were into a CloudWatch that takes each batch the second
time. -/
def restoreApart (n : Nat) : Option (Reingest × Except RestoreError Unit) :=
  restoreToLogGroup reader apartShelf n "1" ["h", "g"] ⟨0, 345600000⟩ jsonText throttledOnce true 7

/-- Two batches, as one holds one day at most, and a wait before each is taken. -/
theorem restoreApart_done : (restoreApart 4).map (fun r =>
    (r.1.sender.taken.map List.length, r.1.sender.slept, r.1.sender.sent)) =
      some ([2, 1], [500, 500], 3) := by decide +kernel

end Concrete

open Concrete in
/-- Three records of two groups. -/
theorem restore_in_order_throttled : ∃ r tries, restoreApart 4 = some r ∧
    r.1.sender.taken.map List.length = [2, 1] ∧ r.1.sender.slept = [500, 500] ∧
    Reingest.InOrder jsonText throttledOnce true true 7
      (scanLogGroups reader apartShelf 4 "1" ["h", "g"] ⟨0, 345600000⟩ none).1 tries r := by
  have hsorted : (scanLogGroups reader apartShelf 4 "1" ["h", "g"] ⟨0, 345600000⟩ none).1.Pairwise
      (fun x y => x.1.timestamp ≤ y.1.timestamp) := by decide +kernel
  have hin : ∀ x ∈ (scanLogGroups reader apartShelf 4 "1" ["h", "g"] ⟨0, 345600000⟩ none).1,
      i64Min ≤ x.1.timestamp ∧ x.1.timestamp ≤ i64Max := by decide +kernel
  obtain ⟨r, hr, hcounts⟩ := Option.map_eq_some_iff.mp restoreApart_done
  rw [Prod.mk.injEq, Prod.mk.injEq] at hcounts
  obtain ⟨hbatches, hslept, -⟩ := hcounts
  obtain ⟨tries, htries⟩ := restore_in_order hr (by decide) fun _ => ⟨hsorted, hin⟩
  exact ⟨r, tries, hr, hbatches, hslept, htries⟩

/-- What goes by timestamp and stream goes by timestamp. -/
theorem timestamp_le_of_key {a b : LogRecord} (h : a.key ≤ b.key) : a.timestamp ≤ b.timestamp := by
  rcases Prod.Lex.toLex_le_toLex.mp h with hlt | ⟨heq, -⟩
  · exact le_of_lt hlt
  · exact le_of_eq heq

/-- Where the sources of some groups ascend and do not fail, a scan comes to its end with all
they hand out, in the order of timestamp and stream. -/
theorem scan_merges {pattern : Pattern} {sources : List (ChunkSource × Nat)}
    (hsources : buildSources lib store account range pattern 0 sourceGroups = .ok sources)
    (hspec : ∀ s ∈ sources, Sorting.Ascending LogRecord.key (handed (s.1.batches lib store)) ∧
      ∀ e, .error e ∉ s.1.batches lib store) :
    ∃ n out, scanLogGroups lib store n account sourceGroups range pattern =
        (out, some (.ok ())) ∧
      out.Pairwise (fun x y => x.1.key ≤ y.1.key) ∧
      out.Perm (namedRecords lib store sourceGroups sources) := by
  have hbatches : ∀ source ∈ sources.map fun s => s.1.batches lib store,
      Sorting.Ascending LogRecord.key (handed source) ∧ ∀ e, .error e ∉ source := by
    intro source hsource
    obtain ⟨s, hs, rfl⟩ := List.mem_map.mp hsource
    exact hspec s hs
  obtain ⟨n, out, hpulls, htaken, hbound, hsorted⟩ := KWayMerge.pulls_merged
    (fun source hsource => (hbatches source hsource).1)
    (fun source hsource => (hbatches source hsource).2)
  refine ⟨n, _, ?_, ?_, merged_perm htaken hbound⟩
  · rw [scanLogGroups, openScanMulti, hsources]
    dsimp only [Except.map]
    rw [hpulls]
    rfl
  · rw [List.pairwise_map]
    exact hsorted.imp fun h => key_le_of_tagKey h

/-- A restore of some groups of an archive whose data objects lie in the partitions of their
records, beside their own sidecars or none that are of use. Restored to a file, the lines are
the records of the range, and no others, in the order of timestamp and stream. Restored to a log
group, CloudWatch takes the first of the same records, as they were or in messages that read
back as they were, and where the restore ends well it takes all but those that are too large.
Where CloudWatch is willing, the restore ends well. -/
theorem restore_exact (hup : store.Up) (hdistinct : store.Distinct)
    (harchive : ∀ logGroup ∈ sourceGroups, store.GroupArchived lib account logGroup)
    (hrange : range.fromMs < range.toMsExclusive)
    (hrep : ∀ t, range.fromMs ≤ t → t < range.toMsExclusive → Representable t)
    (hends : i64Min ≤ range.fromMs ∧ range.toMsExclusive ≤ i64Max)
    (hnow : i64Min ≤ now ∧ now ≤ i64Max) (J : JsonText) (cw : CwTarget) (raw : Bool) :
    ∃ (n : Nat) (out : List (LogRecord × String)) (text : Bytes)
      (r : Reingest × Except RestoreError Unit),
      out.Pairwise (fun x y => x.1.key ≤ y.1.key) ∧
      out.Perm (matchingOf lib store account range none sourceGroups) ∧
      writeJsonl lib store n account sourceGroups range = some (text, .ok ()) ∧
      lib.records.intact text = out.map Prod.fst ∧
      restoreToLogGroup lib store n account sourceGroups range J cw raw now = some r ∧
      (∃ taken left,
        out.filter (Reingest.fits J raw (decide (1 < sourceGroups.length)) now) = taken ++ left ∧
        Reingest.Shows J raw (decide (1 < sourceGroups.length)) now r.1.sender.taken.flatten taken ∧
        (r.2 = .ok () → left = [] ∧ r.1.sender.sent + r.1.oversized = out.length)) ∧
      (cw.Willing → r.2 = .ok ()) := by
  obtain ⟨sources, hsources, hspec, hnamed⟩ := buildSources_yields hup hdistinct hrange hrep none
    (List.drop_zero (l := sourceGroups)) harchive
  obtain ⟨n, out, hscan, hsorted, hperm⟩ := scan_merges hsources hspec
  have hmatching := hperm.trans hnamed
  have hrun : restoreToLogGroup lib store n account sourceGroups range J cw raw now =
      some (Reingest.run J cw raw (decide (1 < sourceGroups.length)) now out (.ok ())) := by
    rw [restoreToLogGroup, hscan]
    rfl
  have hfile : writeJsonl lib store n account sourceGroups range =
      some (lib.records.text (out.map Prod.fst), .ok ()) := by
    rw [writeJsonl, hscan]
    rfl
  have htime : out.Pairwise fun x y => x.1.timestamp ≤ y.1.timestamp :=
    hsorted.imp fun hle => timestamp_le_of_key hle
  have hin : ∀ x ∈ out, i64Min ≤ x.1.timestamp ∧ x.1.timestamp ≤ i64Max := by
    intro x hx
    obtain ⟨logGroup, -, hx⟩ := List.mem_flatMap.mp (hmatching.mem_iff.mp hx)
    obtain ⟨rec, hrec, rfl⟩ := List.mem_map.mp hx
    have hmatch := (List.mem_filter.mp hrec).2
    unfold recordMatches at hmatch
    rw [Bool.and_eq_true, Bool.and_eq_true, decide_eq_true_iff, decide_eq_true_iff] at hmatch
    dsimp only
    omega
  obtain ⟨tries, h⟩ := Reingest.run_in_order cw J raw (decide (1 < sourceGroups.length)) hnow
    (fun _ => htime) (fun _ => hin) (.ok ())
  have hkept := Reingest.kept_eq J raw (decide (1 < sourceGroups.length)) now out
  refine ⟨n, out, _, _, hsorted, hmatching, hfile, lib.records.intact_text _, hrun, ?_,
    fun hwilling => hwilling.run_ok J raw _ now out⟩
  have hpre := h.did.taken.flatten.trans h.inOrder
  rw [hkept] at hpre
  obtain ⟨taken, ⟨left, hleft⟩, htaken⟩ := List.prefix_map_iff.mp hpre
  refine ⟨taken, left, hleft.symm, ?_, fun hres => ⟨?_, h.counted hres⟩⟩
  · rw [htaken]
    exact Reingest.shows_eventOf J raw _ now taken
  · have hall := congrArg List.length (h.all hres)
    rw [htaken, hkept, List.length_map, List.length_map, ← hleft, List.length_append] at hall
    exact List.eq_nil_of_length_eq_zero (by omega)

theorem Concrete.throttledOnce_willing : throttledOnce.Willing where
  group := nofun
  stream := nofun
  put number := by
    refine ⟨2, ⟨by decide, by decide, fun k hk hlt => ?_⟩, none, none, none, rfl⟩
    obtain rfl : k = 1 := by omega
    rfl

namespace Concrete

/-- An object beside no sidecars that holds a chunk of one frame. -/
theorem oneFrame_archivedAs {store : ObjectStore} {loc : ChunkLocation} {rs : List LogRecord}
    (hne : rs ≠ []) (hpartition : ∀ r ∈ rs, dateFromTsMs r.timestamp = loc.date)
    (hsmall : (oneFrame rs).uncompressedBytes ≤ fallbackDecodeCapBytes)
    (hindex : ObjectStore.storedIndex reader store loc = none)
    (htsIndex : ObjectStore.storedTsIndex store loc = none) :
    store.ArchivedAs reader loc (oneFrame rs).body (oneFrame rs) rs where
  body := rfl
  made := oneFrame_made hne
  partition := hpartition
  small := hsmall
  index idx hidx := by
    rw [hindex] at hidx
    cases hidx
  tsIndex ts hts := by
    rw [htsIndex] at hts
    cases hts

theorem apartShelf_archived (logGroup : String) (h : logGroup ∈ ["h", "g"]) :
    apartShelf.GroupArchived reader "1" logGroup := by
  have hone : ∀ (logGroup : String) (loc : ChunkLocation) (rs : List LogRecord),
      apartShelf.groupObjects "1" logGroup = [(loc.dataKey "", (oneFrame rs).body)] →
      ChunkLocation.parseDataKey "" (loc.dataKey "") = some loc →
      apartShelf.ArchivedAs reader loc (oneFrame rs).body (oneFrame rs) rs →
      apartShelf.GroupArchived reader "1" logGroup := by
    intro logGroup loc rs hobjects hparse harchived o ho loc' hloc
    rw [hobjects] at ho
    rw [List.mem_singleton.mp ho] at hloc ⊢
    obtain rfl := Option.some.inj (hparse.symm.trans hloc)
    exact ⟨_, _, harchived⟩
  rcases List.mem_cons.mp h with rfl | h
  · exact hone "h" farShelf [tieRecord 259200005 "c"] (by decide +kernel) (by decide +kernel)
      (oneFrame_archivedAs (by decide) (by decide +kernel) (by decide +kernel) (by decide +kernel)
        (by decide +kernel))
  · rw [List.mem_singleton.mp h]
    exact hone "g" shelf [tieRecord 5 "a", tieRecord 7 "b"] (by decide +kernel) (by decide +kernel)
      (oneFrame_archivedAs (by decide) (by decide +kernel) (by decide +kernel) (by decide +kernel)
        (by decide +kernel))

end Concrete

open Concrete in
/-- Three records of two groups, into a CloudWatch that takes a batch the second time. -/
theorem restore_exact_throttled : ∃ n r taken, restoreApart n = some r ∧ r.2 = .ok () ∧
    r.1.sender.taken.map List.length = [2, 1] ∧ r.1.sender.sent = 3 ∧
    Reingest.Shows jsonText true true 7 r.1.sender.taken.flatten taken := by
  have hrep : ∀ t : Int, 0 ≤ t → t < 345600000 → Representable t := by
    unfold Representable chronoMinMs chronoMaxMs
    omega
  have hdistinct : apartShelf.Distinct := by
    unfold ObjectStore.Distinct
    decide +kernel
  have hrange : (⟨0, 345600000⟩ : TimeRange).fromMs < (⟨0, 345600000⟩ : TimeRange).toMsExclusive := by
    decide
  have hends : i64Min ≤ (⟨0, 345600000⟩ : TimeRange).fromMs ∧
      (⟨0, 345600000⟩ : TimeRange).toMsExclusive ≤ i64Max := by decide
  have hnow : i64Min ≤ 7 ∧ 7 ≤ i64Max := by decide
  obtain ⟨n, -, -, r, -, -, -, -, hr, ⟨taken, -, -, hshows, -⟩, hok⟩ :=
    restore_exact (fun _ => rfl) hdistinct apartShelf_archived hrange hrep hends hnow jsonText
      throttledOnce true
  obtain ⟨r', hr', hcounts⟩ := Option.map_eq_some_iff.mp restoreApart_done
  obtain rfl : r = r' := restoreToLogGroup_unique hr hr'
  rw [Prod.mk.injEq, Prod.mk.injEq] at hcounts
  obtain ⟨hbatches, -, hsent⟩ := hcounts
  exact ⟨n, r, taken, hr, hok throttledOnce_willing, hbatches, hsent, hshows⟩

end Restores

end S4Logs
