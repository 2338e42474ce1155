import S4Logs.Gateway.Concrete
import Mathlib.Tactic.Tauto

/-!
# Failed appends and the lines after them

An append that fails part-way leaves the beginning of a line in the file, and the
next append that succeeds continues that line. The joined line does not decode,
so the entry is lost though its append returned well and a sync followed.

`wal_recovers_iff` says exactly when a sequence of appends is recovered: when no
append succeeds on top of octets that a failed one left. Until then the file is a
text of whole entries, and whatever a crash puts after it is read on its own.
-/

namespace S4Logs

variable {S : SerdeLine WalEntry}

/-- One call of `append` and where its write stops, if it fails. -/
structure AppendCall where
  entry : WalEntry
  torn : Option Nat
deriving DecidableEq

/-- The calls one after the other. -/
def runAppends (S : SerdeLine WalEntry) : WalSegment × Disk → List AppendCall → WalSegment × Disk
  | s, [] => s
  | (seg, d), c :: calls =>
    let r := seg.append S c.entry c.torn
    runAppends S (r.1, d.applyAll r.2.1) calls

/-- The entries whose append returned well. -/
def returnedEntries : List AppendCall → List WalEntry
  | [] => []
  | ⟨entry, none⟩ :: calls => entry :: returnedEntries calls
  | ⟨_, some _⟩ :: calls => returnedEntries calls

/-- No append succeeds on top of octets that a failed one left. `torn` says that there
are such octets. -/
def NoMerge : Bool → List AppendCall → Prop
  | _, [] => True
  | torn, ⟨_, none⟩ :: calls => torn = false ∧ NoMerge false calls
  | torn, ⟨_, some n⟩ :: calls => NoMerge (torn || n != 0) calls

/-- A write that fails stops before the end of its line. -/
def Strict (S : SerdeLine WalEntry) (calls : List AppendCall) : Prop :=
  ∀ c ∈ calls, ∀ n ∈ c.torn, n < (WalSegment.line S c.entry).length

/-- Octets that are the beginnings of some encodings and then a whole one do not
decode, unless the beginnings are empty: an object that was begun is not closed by
another. -/
def Rejects (S : SerdeLine WalEntry) : Prop :=
  ∀ (begun : List Bytes) (entry : WalEntry), (∀ p ∈ begun, ∃ e, p <+: S.toVec e) →
    begun.flatten ≠ [] → S.fromSlice (begun.flatten ++ S.toVec entry) = none

/-! ## What the file holds -/

/-- What the calls write. -/
def written (S : SerdeLine WalEntry) : List AppendCall → Bytes
  | [] => []
  | ⟨entry, none⟩ :: calls => WalSegment.line S entry ++ written S calls
  | ⟨entry, some n⟩ :: calls => (WalSegment.line S entry).take n ++ written S calls

theorem runAppends_spec (name : String) (calls : List AppendCall) : ∀ (data : Bytes) (dirty : Bool),
    runAppends S (⟨name, dirty⟩, ⟨[(name, ⟨data, 0, true⟩)], []⟩) calls =
      (⟨name, dirty || !(returnedEntries calls).isEmpty⟩,
        ⟨[(name, ⟨data ++ written S calls, 0, true⟩)], []⟩) := by
  induction calls with
  | nil =>
    intro data dirty
    simp only [runAppends, returnedEntries, List.isEmpty_nil, Bool.not_true, Bool.or_false, written,
      List.append_nil]
  | cons c calls ih =>
    intro data dirty
    obtain ⟨entry, torn⟩ := c
    cases torn with
    | none =>
      have := ih (data ++ WalSegment.line S entry) true
      simp only [runAppends, WalSegment.append, Disk.applyAll, List.foldl_cons, List.foldl_nil,
        Disk.apply, Disk.modify, List.map_cons, List.map_nil, if_true, this, written,
        returnedEntries, List.append_assoc, Bool.true_or, List.isEmpty_cons, Bool.not_false,
        Bool.or_true]
    | some n =>
      have := ih (data ++ (WalSegment.line S entry).take n) dirty
      simp only [runAppends, WalSegment.append, Disk.applyAll, List.foldl_cons, List.foldl_nil,
        Disk.apply, Disk.modify, List.map_cons, List.map_nil, if_true, this, written,
        returnedEntries, List.append_assoc]

theorem scanDir_single {name : String} (hname : ∃ stem, name = stem ++ walSuffix) (b : Bytes) :
    scanDir S (.crashed [(name, b)]) = [⟨name, S.intact b⟩] := by
  obtain ⟨stem, rfl⟩ := hname
  simp only [scanDir, Disk.crashed, List.map_cons, List.map_nil, String.toList_append,
    Text.stripSuffix_append, Option.isSome_some, List.filter_cons, if_true, List.filter_nil,
    List.mergeSort_singleton]

/-- A crash of a disk with one durable file leaves that file, and what was synced of it. -/
theorem CrashLaw.single {name : String} {f : DiskFile} {after : List (String × Bytes)}
    (h : CrashLaw ⟨[(name, f)], []⟩ after) (hlinked : f.linked = true) :
    ∃ b, after = [(name, b)] ∧ f.data.take f.synced <+: b := by
  obtain ⟨b, hb, hpre⟩ := h.kept (name, f) List.mem_cons_self hlinked
  refine ⟨b, ?_, hpre⟩
  have hnames : ∀ e ∈ after, e.1 = name := by
    intro e he
    obtain ⟨f', hf', -⟩ := h.origin e he
    rw [List.append_nil] at hf'
    exact congrArg Prod.fst (List.mem_singleton.mp hf')
  match after, hb, hnames, h.nodup with
  | [e], hb, _, _ => rw [List.mem_singleton.mp hb]
  | e :: e' :: rest, _, hnames, hnodup =>
    refine absurd ?_ (List.nodup_cons.mp hnodup).1
    rw [hnames e List.mem_cons_self, ← hnames e' (List.mem_cons_of_mem _ List.mem_cons_self)]
    exact List.mem_cons_self

/-! ## Appends that do not merge -/

theorem NoMerge.returned_of_torn {calls : List AppendCall} (h : NoMerge true calls) :
    returnedEntries calls = [] := by
  induction calls with
  | nil => rfl
  | cons c calls ih =>
    obtain ⟨entry, torn⟩ := c
    cases torn with
    | none => exact absurd h.1 Bool.noConfusion
    | some n =>
      simp only [NoMerge, Bool.true_or] at h
      exact ih h

/-- The file is the text of the entries, and then what failed appends left. -/
theorem NoMerge.written {calls : List AppendCall} (h : NoMerge false calls) :
    ∃ junk, written S calls = S.text (returnedEntries calls) ++ junk := by
  induction calls with
  | nil => exact ⟨[], rfl⟩
  | cons c calls ih =>
    obtain ⟨entry, torn⟩ := c
    cases torn with
    | none =>
      obtain ⟨junk, hjunk⟩ := ih h.2
      refine ⟨junk, ?_⟩
      have hcons : entry :: returnedEntries calls = [entry] ++ returnedEntries calls := rfl
      rw [S4Logs.written, hjunk, returnedEntries, hcons, SerdeLine.text_append,
        SerdeLine.text_singleton, List.append_assoc]
      rfl
    | some n =>
      simp only [NoMerge, Bool.false_or] at h
      cases n with
      | zero =>
        simp only [bne_self_eq_false] at h
        obtain ⟨junk, hjunk⟩ := ih h
        exact ⟨junk, by rw [S4Logs.written, hjunk, List.take_zero, List.nil_append, returnedEntries]⟩
      | succ n =>
        have h : NoMerge true calls := h
        refine ⟨(WalSegment.line S entry).take (n + 1) ++ S4Logs.written S calls, ?_⟩
        rw [S4Logs.written, returnedEntries, h.returned_of_torn, SerdeLine.text_nil, List.nil_append]

theorem noMerge_of_none {calls : List AppendCall} : ∀ {torn : Bool},
    returnedEntries calls = [] → NoMerge torn calls := by
  induction calls with
  | nil => exact fun _ => trivial
  | cons c calls ih =>
    intro torn h
    obtain ⟨entry, result⟩ := c
    cases result with
    | none => cases h
    | some n => exact ih h

/-! ## Appends that merge -/

/-- The beginnings of some encodings. -/
def Begun (S : SerdeLine WalEntry) (b : Bytes) : Prop :=
  ∃ ps : List Bytes, (∀ p ∈ ps, ∃ e, p <+: S.toVec e) ∧ b = ps.flatten

theorem Begun.nil : Begun S [] := ⟨[], fun _ h => absurd h List.not_mem_nil, rfl⟩

theorem Begun.take {b : Bytes} (h : Begun S b) {entry : WalEntry} {n : Nat}
    (hn : n < (WalSegment.line S entry).length) :
    Begun S (b ++ (WalSegment.line S entry).take n) := by
  obtain ⟨ps, hps, rfl⟩ := h
  refine ⟨ps ++ [(S.toVec entry).take n], fun p hp => ?_, ?_⟩
  · rcases List.mem_append.mp hp with hp | hp
    · exact hps p hp
    · rw [List.mem_singleton.mp hp]
      exact ⟨entry, List.take_prefix _ _⟩
  · have hle : n ≤ (S.toVec entry).length := by
      simp only [WalSegment.line, List.length_append, List.length_singleton] at hn
      omega
    rw [List.flatten_append, List.flatten_singleton, WalSegment.line,
      List.take_append_of_le_length hle]

theorem Begun.newline_notMem {b : Bytes} (h : Begun S b) : Bytes.newline ∉ b := by
  obtain ⟨ps, hps, rfl⟩ := h
  intro hmem
  obtain ⟨p, hp, hin⟩ := List.mem_flatten.mp hmem
  obtain ⟨e, hpre⟩ := hps p hp
  exact S.newline_notMem e (hpre.mem hin)

/-- A line that was begun before is lost, and one that was not is read. -/
theorem Begun.intact_line {b : Bytes} (h : Begun S b) (hrejects : Rejects S) (entry : WalEntry)
    (rest : Bytes) : S.intact (b ++ (WalSegment.line S entry ++ rest)) =
      (if b = [] then [entry] else []) ++ S.intact rest := by
  have hsplit : b ++ (WalSegment.line S entry ++ rest) =
      (b ++ S.toVec entry) ++ Bytes.newline :: rest := by
    simp only [WalSegment.line, List.append_assoc, List.singleton_append]
  have hnl : Bytes.newline ∉ b ++ S.toVec entry := fun hmem =>
    (List.mem_append.mp hmem).elim h.newline_notMem (S.newline_notMem entry)
  have hne : b ++ S.toVec entry ≠ [] := fun hnil =>
    S.toVec_ne_nil entry (List.append_eq_nil_iff.mp hnil).2
  rw [hsplit]
  simp only [SerdeLine.intact, Bytes.lines_append, Bytes.lines_eq_singleton hnl hne,
    List.filterMap_append, List.filterMap_cons, List.filterMap_nil]
  by_cases hb : b = []
  · subst hb
    rw [if_pos rfl, List.nil_append, S.fromSlice_toVec]
  · obtain ⟨ps, hps, rfl⟩ := h
    rw [if_neg hb, hrejects ps entry hps hb]

/-- What failed appends leave after the last newline. -/
def leftover (S : SerdeLine WalEntry) : Bytes → List AppendCall → Bytes
  | b, [] => b
  | _, ⟨_, none⟩ :: calls => leftover S [] calls
  | b, ⟨entry, some n⟩ :: calls => leftover S (b ++ (WalSegment.line S entry).take n) calls

theorem leftover_begun {calls : List AppendCall} : ∀ {b : Bytes}, Strict S calls → Begun S b →
    Begun S (leftover S b calls) := by
  induction calls with
  | nil => exact fun _ h => h
  | cons c calls ih =>
    intro b hstrict h
    have htail : Strict S calls := fun c hc => hstrict c (List.mem_cons_of_mem _ hc)
    obtain ⟨entry, torn⟩ := c
    cases torn with
    | none => exact ih htail .nil
    | some n => exact ih htail (h.take (hstrict _ List.mem_cons_self n rfl))

/-- Nothing is read of what was begun, if one more line is begun after it. -/
theorem Begun.lost {b : Bytes} (h : Begun S b) (hrejects : Rejects S) (entry : WalEntry) :
    ∃ tail, S.intact (b ++ tail) = [] := by
  by_cases hb : b = []
  · exact ⟨[], by rw [hb, List.nil_append, SerdeLine.intact, Bytes.lines_nil, List.filterMap_nil]⟩
  · refine ⟨WalSegment.line S entry, ?_⟩
    have hline := h.intact_line hrejects entry []
    rw [List.append_nil, if_neg hb, List.nil_append] at hline
    rw [hline, SerdeLine.intact, Bytes.lines_nil, List.filterMap_nil]

/-- Each line that was begun before costs one entry. -/
theorem length_intact_written (hrejects : Rejects S) (tail : Bytes) {calls : List AppendCall} :
    ∀ {b : Bytes}, Strict S calls → Begun S b →
      (S.intact (b ++ (written S calls ++ tail))).length ≤
          (returnedEntries calls).length + (S.intact (leftover S b calls ++ tail)).length ∧
        (¬ NoMerge (b != []) calls → (S.intact (b ++ (written S calls ++ tail))).length <
          (returnedEntries calls).length + (S.intact (leftover S b calls ++ tail)).length) := by
  induction calls with
  | nil =>
    intro b _ _
    exact ⟨by simp only [written, List.nil_append, returnedEntries, List.length_nil, Nat.zero_add,
      leftover, Nat.le_refl], fun h => absurd trivial h⟩
  | cons c calls ih =>
    intro b hstrict hb
    have htail : Strict S calls := fun c hc => hstrict c (List.mem_cons_of_mem _ hc)
    obtain ⟨entry, torn⟩ := c
    cases torn with
    | none =>
      obtain ⟨hle, hlt⟩ := ih (b := []) htail .nil
      simp only [List.nil_append] at hle hlt
      rw [written, List.append_assoc, hb.intact_line hrejects, List.length_append, returnedEntries,
        List.length_cons, leftover]
      by_cases hnil : b = []
      · rw [if_pos hnil, List.length_singleton]
        refine ⟨by omega, fun h => ?_⟩
        have := hlt fun hno => h ⟨by rw [hnil]; rfl, hno⟩
        omega
      · rw [if_neg hnil, List.length_nil]
        exact ⟨by omega, fun _ => by omega⟩
    | some n =>
      have hn := hstrict _ List.mem_cons_self n rfl
      have := ih htail (hb.take hn)
      rw [written, returnedEntries, leftover]
      simp only [List.append_assoc] at this ⊢
      refine ⟨this.1, fun h => this.2 fun hno => h ?_⟩
      have hline : WalSegment.line S entry ≠ [] := fun hnil =>
        List.cons_ne_nil _ _ (List.append_eq_nil_iff.mp hnil).2
      have hflag : (b != [] || n != 0) = (b ++ (WalSegment.line S entry).take n != []) := by
        rw [Bool.eq_iff_iff]
        simp only [Bool.or_eq_true, bne_iff_ne, ne_eq, List.append_eq_nil_iff, List.take_eq_nil_iff,
          hline, or_false]
        tauto
      rw [NoMerge, hflag]
      exact hno

/-! ## Recovery -/

/-- A segment as `create` leaves it, with its entry durable. -/
def freshSegment (logGroup date uuid : String) : WalSegment × Disk :=
  (⟨WalSegment.fileName logGroup date uuid, false⟩,
    Disk.empty.applyAll [.create (WalSegment.fileName logGroup date uuid), .syncDir])

/-- After the calls, a sync that succeeds and a crash, a scan returns every entry whose
append returned well, in order. -/
def Recovers (S : SerdeLine WalEntry) (logGroup date uuid : String) (calls : List AppendCall) :
    Prop :=
  let (seg, d) := runAppends S (freshSegment logGroup date uuid) calls
  ∀ after, CrashLaw (d.applyAll (seg.sync false).2.1) after →
    ∃ entries, scanDir S (.crashed after) = [⟨seg.name, entries⟩] ∧
      (returnedEntries calls).Sublist entries

/-- What is recovered is what the crash left of the file. -/
theorem recovers_iff {logGroup date uuid : String} {calls : List AppendCall} :
    Recovers S logGroup date uuid calls ↔ ∀ tail, (returnedEntries calls).Sublist
      (S.intact ((if (returnedEntries calls).isEmpty then [] else written S calls) ++ tail)) := by
  have hname : ∃ stem, WalSegment.fileName logGroup date uuid = stem ++ walSuffix := ⟨_, rfl⟩
  have hrun := runAppends_spec (S := S) (WalSegment.fileName logGroup date uuid) calls [] false
  simp only [List.nil_append, Bool.false_or] at hrun
  have hfresh : freshSegment logGroup date uuid =
      (⟨WalSegment.fileName logGroup date uuid, false⟩,
        ⟨[(WalSegment.fileName logGroup date uuid, ⟨[], 0, true⟩)], []⟩) := rfl
  unfold Recovers
  rw [hfresh, hrun]
  generalize WalSegment.fileName logGroup date uuid = name at hname
  generalize hkept : (if (returnedEntries calls).isEmpty then [] else written S calls) = kept
  obtain ⟨f, hdisk, hlinked, hf⟩ : ∃ f : DiskFile,
      (Disk.applyAll ⟨[(name, ⟨written S calls, 0, true⟩)], []⟩
        (WalSegment.sync ⟨name, !(returnedEntries calls).isEmpty⟩ false).2.1) =
          ⟨[(name, f)], []⟩ ∧ f.linked = true ∧ f.data.take f.synced = kept := by
    cases hempty : (returnedEntries calls).isEmpty with
    | true =>
      rw [hempty] at hkept
      exact ⟨_, rfl, rfl, hkept⟩
    | false =>
      rw [hempty] at hkept
      refine ⟨⟨written S calls, (written S calls).length, true⟩, ?_, rfl, ?_⟩
      · simp only [WalSegment.sync, Bool.not_false, Bool.true_eq_false, if_false, Disk.applyAll,
          List.foldl_cons, List.foldl_nil, Disk.apply, Disk.modify, List.map_cons, List.map_nil,
          if_true, Bool.false_eq_true]
      · rw [List.take_length]
        exact hkept
  dsimp only
  rw [hdisk]
  constructor
  · intro h tail
    obtain ⟨entries, hscan, hsub⟩ := h [(name, kept ++ tail)] {
      nodup := List.nodup_singleton _
      kept := fun e he _ => by
        rw [List.mem_singleton.mp he]
        exact ⟨_, List.mem_singleton_self _, hf ▸ List.prefix_append _ _⟩
      origin := fun e he => by
        rw [List.mem_singleton.mp he]
        exact ⟨f, List.mem_singleton_self _, hf ▸ List.prefix_append _ _⟩ }
    rw [scanDir_single hname] at hscan
    cases hscan
    exact hsub
  · intro h after hlaw
    obtain ⟨b, rfl, hpre⟩ := hlaw.single hlinked
    obtain ⟨tail, rfl⟩ := hpre
    rw [hf]
    exact ⟨_, scanDir_single hname _, h tail⟩

/-- What was acknowledged is recovered exactly where no append succeeded on top of
octets that a failed one left. -/
theorem wal_recovers_iff (S : SerdeLine WalEntry) (hrejects : Rejects S)
    (logGroup date uuid : String) (calls : List AppendCall) (hstrict : Strict S calls) :
    Recovers S logGroup date uuid calls ↔ NoMerge false calls := by
  rw [recovers_iff]
  constructor
  · intro h
    by_contra hmerge
    obtain ⟨entry, rest, hentries⟩ := List.exists_cons_of_ne_nil fun hnil =>
      hmerge (noMerge_of_none hnil)
    -- a crash after the beginning of one more line costs what the last failed append left
    obtain ⟨tail, htail⟩ := (leftover_begun hstrict .nil).lost hrejects entry
    have hlt := (length_intact_written hrejects tail hstrict .nil).2 hmerge
    have hle := (h tail).length_le
    rw [hentries, if_neg (by simp), ← hentries] at hle
    rw [htail, List.nil_append, List.length_nil] at hlt
    omega
  · intro h tail
    cases hempty : (returnedEntries calls).isEmpty with
    | true =>
      rw [List.isEmpty_iff.mp hempty]
      exact List.nil_sublist _
    | false =>
      obtain ⟨junk, hjunk⟩ := h.written (S := S)
      rw [if_neg Bool.false_ne_true, hjunk, List.append_assoc, S.intact_text_append]
      exact List.sublist_append_left _ _

namespace Concrete

theorem entries_rejects : Rejects entries := fun _ entry _ hbegun =>
  entryFromSlice_begun hbegun entry

/-- An entry of the first day. -/
def dayEntry (message : String) : WalEntry where
  logGroup := "/g"
  timestamp := 5
  stream := "s"
  message := message
  ingestionTime := none

instance Strict.decidable (calls : List AppendCall) : Decidable (Strict entries calls) :=
  inferInstanceAs (Decidable (∀ c ∈ calls, ∀ n ∈ c.torn, n < _))

end Concrete

open Concrete in
/-- An append that leaves nothing costs nothing, and one that leaves a piece is
harmless where none follows. -/
theorem wal_recovers_unmerged : Recovers entries "/g" "1970-01-01" "0a1b2c3d"
    [⟨dayEntry "a", none⟩, ⟨dayEntry "b", some 0⟩, ⟨dayEntry "c", none⟩, ⟨dayEntry "d", some 7⟩] :=
  (wal_recovers_iff entries entries_rejects "/g" "1970-01-01" "0a1b2c3d"
    [⟨dayEntry "a", none⟩, ⟨dayEntry "b", some 0⟩, ⟨dayEntry "c", none⟩, ⟨dayEntry "d", some 7⟩]
    (by decide +kernel)).mpr ⟨rfl, rfl, trivial⟩

open Concrete in
/-- One octet of a failed append takes the next entry with it. -/
theorem wal_loses_merged : ¬ ∀ (S : SerdeLine WalEntry), Rejects S →
    ∀ (logGroup date uuid : String) (calls : List AppendCall), Strict S calls →
      Recovers S logGroup date uuid calls := by
  intro h
  have hrecovers := h entries entries_rejects "/g" "1970-01-01" "0a1b2c3d"
    [⟨dayEntry "a", some 1⟩, ⟨dayEntry "b", none⟩] (by decide +kernel)
  exact absurd (recovers_iff.mp hrecovers []) (by decide +kernel)

end S4Logs
