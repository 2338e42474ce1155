import S4Logs.Lib.Fallible
import S4Logs.Laws.Core.Frames

/-!
# The timestamp sidecar read back

The entries of a sidecar are read through windows of sixteen octets, which are as many as
its count says. So what decodes is exactly what encodes a valid index, and the header of a
file is that of its count.
-/

namespace S4Logs

/-- An entry the format has room for. -/
def TsEntry.Fits (e : TsEntry) : Prop :=
  (i64Min ≤ e.minTs ∧ e.minTs ≤ i64Max) ∧ i64Min ≤ e.maxTs ∧ e.maxTs ≤ i64Max

/-- Entries of `i64`, each of which ends no earlier than it begins, and no more of them
than a reader takes. -/
structure TsIndex.Valid (idx : TsIndex) : Prop where
  fits : ∀ e ∈ idx.entries, e.Fits
  count : idx.entries.length ≤ maxFrames
  ordered : ∀ e ∈ idx.entries, e.minTs ≤ e.maxTs

/-! ## Numbers -/

theorem length_putI64Le (n : Int) : (putI64Le n).length = 8 := Bytes.length_littleEndian 8 _

theorem getI64Le_putI64Le {n : Int} (hlo : i64Min ≤ n) (hhi : n ≤ i64Max) :
    getI64Le (putI64Le n) = n := by
  have hwrap : Bytes.ofLittleEndian (putI64Le n) = (n % 18446744073709551616).toNat := by
    rw [putI64Le, Bytes.ofLittleEndian_littleEndian]
    exact Nat.mod_eq_of_lt (by omega)
  unfold i64Min at hlo
  unfold i64Max at hhi
  unfold getI64Le
  dsimp only
  rw [hwrap]
  by_cases hneg : n < 0
  · rw [if_neg (by omega)]
    omega
  · rw [if_pos (by omega)]
    omega

/-- Eight octets are those of an `i64`. -/
theorem getI64Le_spec {bs : Bytes} (hlen : bs.length = 8) :
    (i64Min ≤ getI64Le bs ∧ getI64Le bs ≤ i64Max) ∧ putI64Le (getI64Le bs) = bs := by
  have hbound : Bytes.ofLittleEndian bs < 18446744073709551616 := by
    have hlt := Bytes.ofLittleEndian_lt bs
    rwa [hlen] at hlt
  have hback : Bytes.littleEndian 8 (Bytes.ofLittleEndian bs) = bs :=
    Bytes.littleEndian_ofLittleEndian hlen
  have hwrap : (getI64Le bs % 18446744073709551616).toNat = Bytes.ofLittleEndian bs := by
    unfold getI64Le
    dsimp only
    split <;> omega
  refine ⟨?_, ?_⟩
  · unfold i64Min i64Max getI64Le
    dsimp only
    split <;> omega
  · rw [putI64Le, hwrap, hback]

/-! ## Entries -/

/-- The octets of one entry. -/
theorem length_tsEntry (e : TsEntry) : (putI64Le e.minTs ++ putI64Le e.maxTs).length = 16 := by
  rw [List.length_append, length_putI64Le, length_putI64Le]

theorem length_tsEntries (es : List TsEntry) :
    (es.flatMap fun e => putI64Le e.minTs ++ putI64Le e.maxTs).length = es.length * 16 := by
  induction es with
  | nil => rfl
  | cons e es ih =>
    rw [List.flatMap_cons, List.length_append, length_tsEntry, ih, List.length_cons]
    omega

/-- Entries that were written are read back. -/
theorem decodeTsEntries_encoded {es : List TsEntry} {idx : Nat} (hfit : ∀ e ∈ es, e.Fits)
    (hordered : ∀ e ∈ es, e.minTs ≤ e.maxTs) :
    decodeTsEntries es.length idx
      (es.flatMap fun e => putI64Le e.minTs ++ putI64Le e.maxTs) = .ok es := by
  induction es generalizing idx with
  | nil => rfl
  | cons e es ih =>
    obtain ⟨⟨hmin, hmin'⟩, hmax, hmax'⟩ := hfit e List.mem_cons_self
    have hfirst : (putI64Le e.minTs).length = 8 := length_putI64Le _
    have hsecond : (putI64Le e.maxTs).length = 8 := length_putI64Le _
    have hrest := @ih (idx + 1) (fun e he => hfit e (List.mem_cons_of_mem _ he))
      fun e he => hordered e (List.mem_cons_of_mem _ he)
    rw [List.flatMap_cons, List.length_cons, decodeTsEntries, List.append_assoc, List.take_left' hfirst, List.drop_left' hfirst,
      List.take_left' hsecond, getI64Le_putI64Le hmin hmin', getI64Le_putI64Le hmax hmax',
      ← List.append_assoc, List.drop_left' (length_tsEntry e), hrest,
      if_neg (not_lt.mpr (hordered e List.mem_cons_self))]
    rfl

theorem putI64Le_inj {m n : Int} (hm : i64Min ≤ m ∧ m ≤ i64Max) (hn : i64Min ≤ n ∧ n ≤ i64Max)
    (h : putI64Le m = putI64Le n) : m = n := by
  rw [← getI64Le_putI64Le hm.1 hm.2, h, getI64Le_putI64Le hn.1 hn.2]

/-- Entries are known by their octets. -/
theorem tsEntries_inj : ∀ {es es' : List TsEntry}, (∀ e ∈ es, e.Fits) → (∀ e ∈ es', e.Fits) →
    (es.flatMap fun e => putI64Le e.minTs ++ putI64Le e.maxTs) =
      (es'.flatMap fun e => putI64Le e.minTs ++ putI64Le e.maxTs) → es = es'
  | [], [], _, _, _ => rfl
  | [], e :: es, _, _, h => by
    have hlen := congrArg List.length h
    rw [length_tsEntries, length_tsEntries, List.length_cons, List.length_nil] at hlen
    omega
  | e :: es, [], _, _, h => by
    have hlen := congrArg List.length h
    rw [length_tsEntries, length_tsEntries, List.length_cons, List.length_nil] at hlen
    omega
  | e :: es, e' :: es', hfit, hfit', h => by
    obtain ⟨hmin, hmax⟩ := hfit e List.mem_cons_self
    obtain ⟨hmin', hmax'⟩ := hfit' e' List.mem_cons_self
    rw [List.flatMap_cons, List.flatMap_cons] at h
    obtain ⟨hentry, hrest⟩ := List.append_inj h (by rw [length_tsEntry, length_tsEntry])
    obtain ⟨hfirst, hsecond⟩ :=
      List.append_inj hentry (by rw [length_putI64Le, length_putI64Le])
    have htail := tsEntries_inj (fun e he => hfit e (List.mem_cons_of_mem _ he))
      (fun e he => hfit' e (List.mem_cons_of_mem _ he)) hrest
    have hhead : e = e' := by
      cases e
      cases e'
      rw [TsEntry.mk.injEq]
      exact ⟨putI64Le_inj hmin hmin' hfirst, putI64Le_inj hmax hmax' hsecond⟩
    rw [hhead, htail]

/-- What is read was written. -/
theorem of_decodeTsEntries {n idx : Nat} {bs : Bytes} {es : List TsEntry}
    (hlen : bs.length = n * 16) (h : decodeTsEntries n idx bs = .ok es) :
    es.length = n ∧ (∀ e ∈ es, e.Fits) ∧ (∀ e ∈ es, e.minTs ≤ e.maxTs) ∧
      (es.flatMap fun e => putI64Le e.minTs ++ putI64Le e.maxTs) = bs := by
  induction n generalizing idx bs es with
  | zero =>
    cases h
    rw [Nat.zero_mul] at hlen
    exact ⟨rfl, nofun, nofun, (List.length_eq_zero_iff.mp hlen).symm⟩
  | succ n ih =>
    rw [decodeTsEntries] at h
    split at h
    next => cases h
    next hordered =>
      obtain ⟨rest, hrest, rfl⟩ := Fallible.map_eq_ok.mp h
      have hlow : (bs.take 8).length = 8 := by
        rw [List.length_take]
        omega
      have hhigh : ((bs.drop 8).take 8).length = 8 := by
        rw [List.length_take, List.length_drop]
        omega
      obtain ⟨hmin, hminBack⟩ := getI64Le_spec hlow
      obtain ⟨hmax, hmaxBack⟩ := getI64Le_spec hhigh
      obtain ⟨hn, hfit, hord, hback⟩ := ih (by
        rw [List.length_drop]
        omega) hrest
      refine ⟨by rw [List.length_cons, hn], ?_, ?_, ?_⟩
      · intro e he
        rcases List.mem_cons.mp he with rfl | he
        · exact ⟨hmin, hmax⟩
        · exact hfit e he
      · intro e he
        rcases List.mem_cons.mp he with rfl | he
        · exact not_lt.mp hordered
        · exact hord e he
      · have hdrop : bs.drop 16 = (bs.drop 8).drop 8 := by rw [List.drop_drop]
        rw [List.flatMap_cons, hminBack, hmaxBack, hback, hdrop, List.append_assoc,
          List.take_append_drop, List.take_append_drop]

/-! ## Files -/

/-- The octets before the entries. -/
def tsHeader (idx : TsIndex) : Bytes :=
  tsIndexMagic ++ Bytes.littleEndian 4 tsIndexVersion ++ Bytes.littleEndian 8 idx.entries.length

theorem length_tsHeader (idx : TsIndex) : (tsHeader idx).length = tsHeaderBytes := by
  rw [tsHeader, List.length_append, List.length_append, Bytes.length_littleEndian,
    Bytes.length_littleEndian]
  rfl

theorem encodeTsIndex_eq (idx : TsIndex) :
    encodeTsIndex idx =
      tsHeader idx ++ idx.entries.flatMap fun e => putI64Le e.minTs ++ putI64Le e.maxTs := rfl

theorem length_encodeTsIndex (idx : TsIndex) :
    (encodeTsIndex idx).length = tsHeaderBytes + idx.entries.length * 16 := by
  rw [encodeTsIndex_eq, List.length_append, length_tsHeader, length_tsEntries]

/-- A file of its own header is read on. -/
theorem decodeTsIndex_header (idx : TsIndex) (rest : Bytes)
    (hcount : idx.entries.length ≤ maxFrames) :
    decodeTsIndex (tsHeader idx ++ rest) =
      if rest.length ≠ saturatingMulUsize idx.entries.length tsEntryBytes then
        .error (.entryCountMismatch idx.entries.length rest.length)
      else (decodeTsEntries idx.entries.length 0 rest).map TsIndex.mk := by
  have hmagic : tsIndexMagic.length = 4 := rfl
  have hversion : (Bytes.littleEndian 4 tsIndexVersion).length = 4 := Bytes.length_littleEndian _ _
  have hnumber : (Bytes.littleEndian 8 idx.entries.length).length = 8 := Bytes.length_littleEndian _ _
  have hpre : (tsIndexMagic ++ Bytes.littleEndian 4 tsIndexVersion).length = 8 := by
    rw [List.length_append, hmagic, hversion]
  have hlong : ¬ (tsHeader idx ++ rest).length < tsHeaderBytes := by
    rw [List.length_append, length_tsHeader]
    omega
  have hfour : (tsHeader idx ++ rest).take 4 = tsIndexMagic := by
    rw [tsHeader, List.append_assoc, List.append_assoc, List.take_left' hmagic]
  have hversionRead :
      Bytes.ofLittleEndian (((tsHeader idx ++ rest).drop 4).take 4) = tsIndexVersion := by
    rw [tsHeader, List.append_assoc, List.append_assoc, List.drop_left' hmagic,
      List.take_left' hversion]
    rfl
  have hcountRead :
      Bytes.ofLittleEndian (((tsHeader idx ++ rest).drop 8).take 8) = idx.entries.length := by
    rw [tsHeader, List.append_assoc, List.drop_left' hpre, List.take_left' hnumber,
      Bytes.ofLittleEndian_littleEndian]
    apply Nat.mod_eq_of_lt
    unfold maxFrames at hcount
    omega
  unfold decodeTsIndex
  dsimp only
  rw [if_neg hlong, hfour, if_neg (not_not.mpr rfl), hversionRead, if_neg (not_not.mpr rfl),
    hcountRead, if_neg (not_lt.mpr hcount), List.drop_left' (length_tsHeader idx)]

/-- The product of a count a reader takes does not saturate. -/
theorem saturatingMulUsize_count {n : Nat} (h : n ≤ maxFrames) :
    saturatingMulUsize n tsEntryBytes = n * tsEntryBytes := by
  apply min_eq_right
  unfold maxFrames at h
  unfold tsEntryBytes usizeMax
  omega

/-- A file that decodes begins with the header of its count. -/
theorem of_decodeTsIndex {bs : Bytes} {idx : TsIndex} (h : decodeTsIndex bs = .ok idx) :
    idx.entries.length ≤ maxFrames ∧ ∃ rest, bs = tsHeader idx ++ rest := by
  unfold decodeTsIndex at h
  dsimp only at h
  split at h
  next => cases h
  next hlong =>
  split at h
  next => cases h
  next hmagic =>
  split at h
  next => cases h
  next hversion =>
  split at h
  next => cases h
  next hcount =>
  split at h
  next => cases h
  next hlength =>
    rw [not_not] at hmagic hversion hlength
    rw [saturatingMulUsize_count (not_lt.mp hcount)] at hlength
    obtain ⟨es, hes, rfl⟩ := Fallible.map_eq_ok.mp h
    obtain ⟨hn, -⟩ := of_decodeTsEntries hlength hes
    have hfour : ((bs.drop 4).take 4).length = 4 := by
      rw [List.length_take, List.length_drop]
      unfold tsHeaderBytes at hlong
      omega
    have height : ((bs.drop 8).take 8).length = 8 := by
      rw [List.length_take, List.length_drop]
      unfold tsHeaderBytes at hlong
      omega
    have hversionBack : Bytes.littleEndian 4 tsIndexVersion = (bs.drop 4).take 4 := by
      rw [← hversion, Bytes.littleEndian_ofLittleEndian hfour]
    have hcountBack : Bytes.littleEndian 8 es.length = (bs.drop 8).take 8 := by
      rw [hn, Bytes.littleEndian_ofLittleEndian height]
    have hsplit : bs = bs.take 4 ++ ((bs.drop 4).take 4 ++ ((bs.drop 8).take 8 ++ bs.drop 16)) := by
      rw [show bs.drop 16 = (bs.drop 8).drop 8 by rw [List.drop_drop], List.take_append_drop,
        show bs.drop 8 = (bs.drop 4).drop 4 by rw [List.drop_drop], List.take_append_drop,
        List.take_append_drop]
    refine ⟨hn ▸ not_lt.mp hcount, bs.drop 16, ?_⟩
    rw [tsHeader, hversionBack, hcountBack, ← hmagic, List.append_assoc, List.append_assoc]
    exact hsplit

/-- What decodes is exactly what encodes a valid index. -/
theorem decodeTsIndex_eq_ok {bs : Bytes} {idx : TsIndex} :
    decodeTsIndex bs = .ok idx ↔ bs = encodeTsIndex idx ∧ idx.Valid := by
  constructor
  · intro h
    obtain ⟨hcount, rest, rfl⟩ := of_decodeTsIndex h
    rw [decodeTsIndex_header idx rest hcount, saturatingMulUsize_count hcount] at h
    split at h
    next => cases h
    next hlength =>
      obtain ⟨es, hes, rfl⟩ := Fallible.map_eq_ok.mp h
      obtain ⟨-, hfit, hordered, hback⟩ := of_decodeTsEntries (not_not.mp hlength) hes
      exact ⟨by rw [encodeTsIndex_eq, hback], hfit, hcount, hordered⟩
  · rintro ⟨rfl, hvalid⟩
    have hlength : (idx.entries.flatMap fun e => putI64Le e.minTs ++ putI64Le e.maxTs).length =
        idx.entries.length * tsEntryBytes := length_tsEntries _
    rw [encodeTsIndex_eq, decodeTsIndex_header idx _ hvalid.count,
      saturatingMulUsize_count hvalid.count, if_neg (not_not.mpr hlength),
      decodeTsEntries_encoded hvalid.fits hvalid.ordered]
    rfl

/-- A header tells the count. -/
theorem tsHeader_count {idx idx' : TsIndex} (hcount : idx.entries.length ≤ maxFrames)
    (hcount' : idx'.entries.length ≤ maxFrames) (h : tsHeader idx = tsHeader idx') :
    idx.entries.length = idx'.entries.length := by
  unfold maxFrames at hcount hcount'
  have hnumber := congrArg Bytes.ofLittleEndian (List.append_cancel_left h)
  rw [Bytes.ofLittleEndian_littleEndian, Bytes.ofLittleEndian_littleEndian,
    Nat.mod_eq_of_lt (by omega), Nat.mod_eq_of_lt (by omega)] at hnumber
  exact hnumber

/-- No valid file goes on where another ends. -/
theorem encodeTsIndex_prefixFree {idx idx' : TsIndex} (hvalid : idx.Valid) (hvalid' : idx'.Valid)
    {rest : Bytes} (h : encodeTsIndex idx ++ rest = encodeTsIndex idx') : rest = [] := by
  have hheader : tsHeader idx = tsHeader idx' := by
    rw [encodeTsIndex_eq, encodeTsIndex_eq, List.append_assoc] at h
    exact (List.append_inj h (by rw [length_tsHeader, length_tsHeader])).1
  have hlen := congrArg List.length h
  rw [List.length_append, length_encodeTsIndex, length_encodeTsIndex,
    tsHeader_count hvalid.count hvalid'.count hheader] at hlen
  apply List.eq_nil_of_length_eq_zero
  omega

/-- An index is known by its octets. -/
theorem encodeTsIndex_inj {idx idx' : TsIndex} (hfit : ∀ e ∈ idx.entries, e.Fits)
    (hfit' : ∀ e ∈ idx'.entries, e.Fits) (h : encodeTsIndex idx = encodeTsIndex idx') :
    idx = idx' := by
  have hcount : idx.entries.length = idx'.entries.length := by
    have hlen := congrArg List.length h
    rw [length_encodeTsIndex, length_encodeTsIndex] at hlen
    omega
  rw [encodeTsIndex_eq, encodeTsIndex_eq, tsHeader, tsHeader, hcount] at h
  have hentries := tsEntries_inj hfit hfit' (List.append_cancel_left h)
  cases idx
  cases idx'
  exact congrArg _ hentries

/-- A sidecar that decodes is the one that was encoded. -/
theorem decodeTsIndex_encodeTsIndex {idx idx' : TsIndex} (hfit : ∀ e ∈ idx.entries, e.Fits)
    (h : decodeTsIndex (encodeTsIndex idx) = .ok idx') : idx' = idx := by
  obtain ⟨heq, hvalid⟩ := decodeTsIndex_eq_ok.mp h
  exact (encodeTsIndex_inj hfit hvalid.fits heq).symm

theorem decodeTsIndex_rejected {bs : Bytes}
    (h : ∀ idx, idx.Valid → bs ≠ encodeTsIndex idx) : ∃ e, decodeTsIndex bs = .error e := by
  cases hdec : decodeTsIndex bs with
  | error e => exact ⟨e, rfl⟩
  | ok idx =>
    obtain ⟨heq, hvalid⟩ := decodeTsIndex_eq_ok.mp hdec
    exact absurd heq (h idx hvalid)

/-- Decoding is exact: what decodes is what encodes a valid index, so the two are inverse
to each other, a file that is cut, continued or given another header is rejected, and the
length that a count asks for is not saturated. -/
theorem decodeTsIndex_exact :
    (∀ (bs : Bytes) (idx : TsIndex),
      decodeTsIndex bs = .ok idx ↔ bs = encodeTsIndex idx ∧ idx.Valid) ∧
    (∀ idx : TsIndex, idx.Valid → decodeTsIndex (encodeTsIndex idx) = .ok idx) ∧
    (∀ (bs : Bytes) (idx : TsIndex), decodeTsIndex bs = .ok idx → encodeTsIndex idx = bs) ∧
    (∀ (bs bs' : Bytes) (idx : TsIndex),
      decodeTsIndex bs = .ok idx → decodeTsIndex bs' = .ok idx → bs = bs') ∧
    (∀ idx : TsIndex, idx.Valid → ∀ cut : Bytes, cut <+: encodeTsIndex idx →
      cut ≠ encodeTsIndex idx → ∃ e, decodeTsIndex cut = .error e) ∧
    (∀ idx : TsIndex, idx.Valid → ∀ more : Bytes, more ≠ [] →
      ∃ e, decodeTsIndex (encodeTsIndex idx ++ more) = .error e) ∧
    (∀ idx : TsIndex, idx.Valid → ∀ header : Bytes, header.length = tsHeaderBytes →
      header ≠ (encodeTsIndex idx).take tsHeaderBytes →
      ∃ e, decodeTsIndex (header ++ (encodeTsIndex idx).drop tsHeaderBytes) = .error e) ∧
    (∀ n : Nat, n ≤ maxFrames → saturatingMulUsize n tsEntryBytes = n * tsEntryBytes) := by
  refine ⟨fun _ _ => decodeTsIndex_eq_ok, fun idx hvalid => decodeTsIndex_eq_ok.mpr ⟨rfl, hvalid⟩,
    ?_, ?_, ?_, ?_, ?_, fun _ h => saturatingMulUsize_count h⟩
  · intro bs idx h
    exact (decodeTsIndex_eq_ok.mp h).1.symm
  · intro bs bs' idx h h'
    rw [(decodeTsIndex_eq_ok.mp h).1, (decodeTsIndex_eq_ok.mp h').1]
  · rintro idx hvalid cut ⟨rest, hrest⟩ hcut
    apply decodeTsIndex_rejected
    rintro idx' hvalid' rfl
    have hnil := encodeTsIndex_prefixFree hvalid' hvalid hrest
    rw [hnil, List.append_nil] at hrest
    exact hcut hrest
  · intro idx hvalid more hmore
    apply decodeTsIndex_rejected
    intro idx' hvalid' heq
    exact hmore (encodeTsIndex_prefixFree hvalid hvalid' heq)
  · intro idx hvalid header hheader hother
    apply decodeTsIndex_rejected
    intro idx' hvalid' heq
    have hsame : ∀ idx : TsIndex, (encodeTsIndex idx).take tsHeaderBytes = tsHeader idx :=
      fun idx => List.take_left' (length_tsHeader idx)
    have hdrop : (encodeTsIndex idx).drop tsHeaderBytes =
        idx.entries.flatMap fun e => putI64Le e.minTs ++ putI64Le e.maxTs :=
      List.drop_left' (length_tsHeader idx)
    rw [hdrop, encodeTsIndex_eq idx'] at heq
    obtain ⟨rfl, hentries⟩ := List.append_inj heq (by rw [hheader, length_tsHeader])
    -- the entries are as many, so the count and with it the header are the same
    have hcount : idx.entries.length = idx'.entries.length := by
      have hlen := congrArg List.length hentries
      rw [length_tsEntries, length_tsEntries] at hlen
      omega
    rw [hsame, tsHeader, tsHeader, hcount] at hother
    exact hother rfl

/-- The entries of a chunk fit where its timestamps do. -/
theorem EncodedChunk.Made.fits {lib : CodecLib} {chunk : EncodedChunk} {rs : List LogRecord}
    (h : chunk.Made lib rs) (hrange : InI64 rs) : ∀ e ∈ chunk.tsIndex.entries, e.Fits := by
  obtain ⟨frames, -, hok, rfl, rfl⟩ := h
  intro e he
  obtain ⟨f, hf, rfl⟩ := List.mem_map.mp he
  have hsub : ∀ r ∈ f.records, i64Min ≤ r.timestamp ∧ r.timestamp ≤ i64Max :=
    fun r hr => hrange r (List.mem_flatMap.mpr ⟨f, hf, hr⟩)
  obtain ⟨⟨hmin, -⟩, hmax, -⟩ := timeSpan_spans (hok f hf).1 hsub
  obtain ⟨r, hr, hrmin⟩ := List.mem_map.mp hmin
  obtain ⟨r', hr', hrmax⟩ := List.mem_map.mp hmax
  exact ⟨hrmin ▸ hsub r hr, hrmax ▸ hsub r' hr'⟩

end S4Logs
