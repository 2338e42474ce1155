import Mathlib.Algebra.BigOperators.Group.List.Basic
import S4Logs.Lib.Fallible
import S4Logs.Lib.Intervals
import S4Logs.Cli.Report

/-!
# The coverage of a report

A group has a report unless its sums are checked and do not fit: whether the totals fit
decides all additions on the way. The report does not depend on the order of the manifests.
Its gaps are counted between neighbours in the order of their starts, so it is the coverage
of the union where no window that ends late hides behind one that ends early: each window
that begins after its neighbour's end begins after all ends before it, and the last ends
last.
-/

namespace S4Logs

open Intervals (Covers IsGap gapsAfter)

/-! ## The sums -/

/-- A sum below 2^64 is exact. -/
theorem toNat_add_ofNat {a : UInt64} {n : Nat} (h : a.toNat + n < 2 ^ 64) :
    (a + UInt64.ofNat n).toNat = a.toNat + n := by
  rw [UInt64.toNat_add, UInt64.toNat_ofNat', Nat.add_mod_mod, Nat.mod_eq_of_lt h]

theorem add_ofNat_comm (a : UInt64) (m n : Nat) :
    a + UInt64.ofNat m + UInt64.ofNat n = a + UInt64.ofNat n + UInt64.ofNat m := by
  rw [UInt64.add_assoc, UInt64.add_comm (UInt64.ofNat m), ← UInt64.add_assoc]

/-- There is no sum only where it is checked and does not fit. -/
theorem addU64_eq_some {checks : Bool} {a b : UInt64} {n : Nat} :
    addU64 checks a n = some b ↔
      b = a + UInt64.ofNat n ∧ (checks = true → a.toNat + n < 2 ^ 64) := by
  unfold addU64
  split
  next h => exact iff_of_false nofun fun hb => absurd (hb.2 h.1) (Nat.not_lt.mpr h.2)
  next h =>
    rw [Option.some.injEq, eq_comm]
    exact (and_iff_left fun hc => Nat.lt_of_not_le fun hle => h ⟨hc, hle⟩).symm

/-- One object more, with sums that wrap. -/
def GroupReport.wrapObject (g : GroupReport) (o : ManifestObject) : GroupReport :=
  { g with
    objects := g.objects + 1
    compressedBytes := g.compressedBytes + UInt64.ofNat o.bodyLen
    bytesByClass := g.bytesByClass.alter (o.storageClass.getD "STANDARD") fun bytes =>
      bytes.getD 0 + UInt64.ofNat o.bodyLen
    objectsAssumedStandard := g.objectsAssumedStandard + if o.storageClass.isNone then 1 else 0
    rawBytes := g.rawBytes + UInt64.ofNat (o.rawBytes.getD 0)
    objectsMissingRaw := g.objectsMissingRaw + if o.rawBytes.isNone then 1 else 0 }

def GroupReport.wrapManifest (g : GroupReport) (m : Manifest) : GroupReport :=
  m.objects.foldl wrapObject { g with records := g.records + UInt64.ofNat m.recordCount }

/-- No class has more octets than all have together. -/
def GroupReport.ClassesWithin (g : GroupReport) : Prop :=
  ∀ storageClass, ((g.bytesByClass.get? storageClass).getD 0).toNat ≤ g.compressedBytes.toNat

/-- What objects add to these sums fits. -/
structure ObjectsFit (compressedBytes rawBytes : UInt64) (os : List ManifestObject) : Prop where
  compressed : compressedBytes.toNat + (os.map ManifestObject.bodyLen).sum < 2 ^ 64
  raw : rawBytes.toNat + (os.map fun o => o.rawBytes.getD 0).sum < 2 ^ 64

theorem objectsFit_append {compressedBytes rawBytes : UInt64} {os os' : List ManifestObject} :
    ObjectsFit compressedBytes rawBytes (os ++ os') ↔
      ObjectsFit compressedBytes rawBytes os ∧
        ObjectsFit (compressedBytes + UInt64.ofNat (os.map ManifestObject.bodyLen).sum)
          (rawBytes + UInt64.ofNat (os.map fun o => o.rawBytes.getD 0).sum) os' := by
  constructor
  · rintro ⟨hcompressed, hraw⟩
    rw [List.map_append, List.sum_append, ← Nat.add_assoc] at hcompressed hraw
    have hc := (Nat.le_add_right _ _).trans_lt hcompressed
    have hr := (Nat.le_add_right _ _).trans_lt hraw
    refine ⟨⟨hc, hr⟩, ?_, ?_⟩
    · rwa [toNat_add_ofNat hc]
    · rwa [toNat_add_ofNat hr]
  · rintro ⟨⟨hc, hr⟩, hcompressed, hraw⟩
    rw [toNat_add_ofNat hc] at hcompressed
    rw [toNat_add_ofNat hr] at hraw
    constructor
    · rwa [List.map_append, List.sum_append, ← Nat.add_assoc]
    · rwa [List.map_append, List.sum_append, ← Nat.add_assoc]

theorem objectsFit_cons {compressedBytes rawBytes : UInt64} {o : ManifestObject}
    {os : List ManifestObject} :
    ObjectsFit compressedBytes rawBytes (o :: os) ↔
      ObjectsFit compressedBytes rawBytes [o] ∧
        ObjectsFit (compressedBytes + UInt64.ofNat o.bodyLen)
          (rawBytes + UInt64.ofNat (o.rawBytes.getD 0)) os := by
  rw [← List.singleton_append, objectsFit_append]
  rfl

theorem wrapObject_classesWithin {g : GroupReport} {o : ManifestObject} (h : g.ClassesWithin)
    (hfit : ObjectsFit g.compressedBytes g.rawBytes [o]) : (g.wrapObject o).ClassesWithin := by
  intro storageClass
  have hcompressed : g.compressedBytes.toNat + o.bodyLen < 2 ^ 64 := hfit.compressed
  show (((g.bytesByClass.alter _ _).get? storageClass).getD 0).toNat ≤
    (g.compressedBytes + UInt64.ofNat o.bodyLen).toNat
  rw [OrdMap.get?_alter, toNat_add_ofNat hcompressed]
  split
  next =>
    have hclass := h (o.storageClass.getD "STANDARD")
    rw [Option.getD_some, toNat_add_ofNat (by omega)]
    omega
  next => exact (h storageClass).trans (Nat.le_add_right _ _)

theorem foldl_wrapObject {os : List ManifestObject} {g : GroupReport} :
    (os.foldl GroupReport.wrapObject g).records = g.records ∧
      (os.foldl GroupReport.wrapObject g).compressedBytes =
        g.compressedBytes + UInt64.ofNat (os.map ManifestObject.bodyLen).sum ∧
      (os.foldl GroupReport.wrapObject g).rawBytes =
        g.rawBytes + UInt64.ofNat (os.map fun o => o.rawBytes.getD 0).sum := by
  induction os generalizing g with
  | nil => exact ⟨rfl, (UInt64.add_zero _).symm, (UInt64.add_zero _).symm⟩
  | cons o os ih =>
    obtain ⟨hrecords, hcompressed, hraw⟩ := @ih (g.wrapObject o)
    refine ⟨hrecords, hcompressed.trans ?_, hraw.trans ?_⟩
    · rw [List.map_cons, List.sum_cons, UInt64.ofNat_add, ← UInt64.add_assoc]
      rfl
    · rw [List.map_cons, List.sum_cons, UInt64.ofNat_add, ← UInt64.add_assoc]
      rfl

theorem foldl_wrapObject_classesWithin {os : List ManifestObject} {g : GroupReport}
    (h : g.ClassesWithin) (hfit : ObjectsFit g.compressedBytes g.rawBytes os) :
    (os.foldl GroupReport.wrapObject g).ClassesWithin := by
  induction os generalizing g with
  | nil => exact h
  | cons o os ih =>
    obtain ⟨hfirst, hrest⟩ := objectsFit_cons.mp hfit
    exact ih (wrapObject_classesWithin h hfirst) hrest

/-- An object is counted unless a checked sum does not fit. No class needs more room than the
sum of all. -/
theorem addObject_eq_some {checks : Bool} {g g' : GroupReport} {o : ManifestObject}
    (h : checks = true → g.ClassesWithin) :
    g.addObject checks o = some g' ↔
      g' = g.wrapObject o ∧ (checks = true → ObjectsFit g.compressedBytes g.rawBytes [o]) := by
  unfold GroupReport.addObject
  simp only [Option.bind_eq_bind, Option.bind_eq_some_iff, addU64_eq_some]
  constructor
  · rintro ⟨_, ⟨rfl, hcompressed⟩, _, ⟨rfl, -⟩, _, ⟨rfl, hraw⟩, heq⟩
    rw [← Option.some.inj heq]
    refine ⟨?_, fun hc => ⟨hcompressed hc, hraw hc⟩⟩
    rw [OrdMap.alter_get? _ _ fun bytes => bytes.getD 0 + UInt64.ofNat o.bodyLen]
    rfl
  · rintro ⟨rfl, hfit⟩
    refine ⟨_, ⟨rfl, fun hc => (hfit hc).compressed⟩, _, ⟨rfl, fun hc => ?_⟩, _,
      ⟨rfl, fun hc => (hfit hc).raw⟩, ?_⟩
    · exact (Nat.add_le_add_right (h hc _) _).trans_lt (hfit hc).compressed
    · rw [OrdMap.alter_get? _ _ fun bytes => bytes.getD 0 + UInt64.ofNat o.bodyLen]
      rfl

theorem foldlM_addObject_eq_some {checks : Bool} {os : List ManifestObject} {g g' : GroupReport}
    (h : checks = true → g.ClassesWithin) :
    os.foldlM (GroupReport.addObject checks) g = some g' ↔
      g' = os.foldl GroupReport.wrapObject g ∧
        (checks = true → ObjectsFit g.compressedBytes g.rawBytes os) := by
  refine Fallible.foldlM_eq_some (fun g : GroupReport => checks = true → g.ClassesWithin)
    (fun g os => checks = true → ObjectsFit g.compressedBytes g.rawBytes os)
    (fun hwithin => addObject_eq_some hwithin) ?_ ?_ ?_ h
  · exact fun hwithin hfit hc => wrapObject_classesWithin (hwithin hc) (hfit hc)
  · exact fun g _ => ⟨g.compressedBytes.toNat_lt, g.rawBytes.toNat_lt⟩
  · intro g o os
    rw [objectsFit_cons, imp_and]
    rfl

/-- What manifests add to the sums of a report fits. -/
structure ManifestsFit (g : GroupReport) (ms : List Manifest) : Prop where
  records : g.records.toNat + (ms.map Manifest.recordCount).sum < 2 ^ 64
  objects : ObjectsFit g.compressedBytes g.rawBytes (ms.flatMap Manifest.objects)

theorem manifestsFit_cons {g : GroupReport} {m : Manifest} {ms : List Manifest} :
    ManifestsFit g (m :: ms) ↔
      (g.records.toNat + m.recordCount < 2 ^ 64 ∧
        ObjectsFit g.compressedBytes g.rawBytes m.objects) ∧
      ManifestsFit (g.wrapManifest m) ms := by
  obtain ⟨hrecords, hcompressed, hraw⟩ := @foldl_wrapObject m.objects
    { g with records := g.records + UInt64.ofNat m.recordCount }
  have hcons : ObjectsFit g.compressedBytes g.rawBytes ((m :: ms).flatMap Manifest.objects) ↔
      ObjectsFit g.compressedBytes g.rawBytes m.objects ∧
        ObjectsFit (g.wrapManifest m).compressedBytes (g.wrapManifest m).rawBytes
          (ms.flatMap Manifest.objects) := by
    rw [List.flatMap_cons, objectsFit_append, GroupReport.wrapManifest, hcompressed, hraw]
  have hexact : g.records.toNat + m.recordCount < 2 ^ 64 →
      (g.wrapManifest m).records.toNat = g.records.toNat + m.recordCount := by
    intro h
    rw [GroupReport.wrapManifest, hrecords, toNat_add_ofNat h]
  constructor
  · rintro ⟨hsum, hobjects⟩
    rw [List.map_cons, List.sum_cons, ← Nat.add_assoc] at hsum
    have hfirst := (Nat.le_add_right _ _).trans_lt hsum
    obtain ⟨hhead, htail⟩ := hcons.mp hobjects
    exact ⟨⟨hfirst, hhead⟩, by rwa [hexact hfirst], htail⟩
  · rintro ⟨⟨hfirst, hhead⟩, hsum, htail⟩
    rw [hexact hfirst] at hsum
    refine ⟨?_, hcons.mpr ⟨hhead, htail⟩⟩
    rwa [List.map_cons, List.sum_cons, ← Nat.add_assoc]

theorem addManifest_eq_some {checks : Bool} {g g' : GroupReport} {m : Manifest}
    (h : checks = true → g.ClassesWithin) :
    g.addManifest checks m = some g' ↔
      g' = g.wrapManifest m ∧ (checks = true → g.records.toNat + m.recordCount < 2 ^ 64 ∧
        ObjectsFit g.compressedBytes g.rawBytes m.objects) := by
  have hfold : ∀ records,
      m.objects.foldlM (GroupReport.addObject checks) { g with records := records } = some g' ↔
        g' = m.objects.foldl GroupReport.wrapObject { g with records := records } ∧
          (checks = true → ObjectsFit g.compressedBytes g.rawBytes m.objects) :=
    fun records => foldlM_addObject_eq_some (g := { g with records := records }) h
  unfold GroupReport.addManifest
  rw [Option.bind_eq_bind, Option.bind_eq_some_iff]
  simp only [addU64_eq_some, hfold]
  constructor
  · rintro ⟨_, ⟨rfl, hrecords⟩, rfl, hobjects⟩
    exact ⟨rfl, fun hc => ⟨hrecords hc, hobjects hc⟩⟩
  · rintro ⟨rfl, hfit⟩
    exact ⟨_, ⟨rfl, fun hc => (hfit hc).1⟩, rfl, fun hc => (hfit hc).2⟩

theorem wrapManifest_classesWithin {g : GroupReport} {m : Manifest} (h : g.ClassesWithin)
    (hfit : ObjectsFit g.compressedBytes g.rawBytes m.objects) :
    (g.wrapManifest m).ClassesWithin :=
  foldl_wrapObject_classesWithin
    (g := { g with records := g.records + UInt64.ofNat m.recordCount }) h hfit

theorem foldlM_addManifest_eq_some {checks : Bool} {ms : List Manifest} {g g' : GroupReport}
    (h : checks = true → g.ClassesWithin) :
    ms.foldlM (GroupReport.addManifest checks) g = some g' ↔
      g' = ms.foldl GroupReport.wrapManifest g ∧ (checks = true → ManifestsFit g ms) := by
  refine Fallible.foldlM_eq_some (fun g => checks = true → g.ClassesWithin)
    (fun g ms => checks = true → ManifestsFit g ms)
    (fun hwithin => addManifest_eq_some hwithin) ?_ ?_ ?_ h
  · exact fun hwithin hfit hc => wrapManifest_classesWithin (hwithin hc) (hfit hc).2
  · exact fun g _ =>
      ⟨g.records.toNat_lt, g.compressedBytes.toNat_lt, g.rawBytes.toNat_lt⟩
  · intro g m ms
    rw [manifestsFit_cons, imp_and]

/-- What the manifests store adds up to less than 2^64. -/
structure SumsFit (ms : List Manifest) : Prop where
  records : (ms.map Manifest.recordCount).sum < 2 ^ 64
  compressed : ((ms.flatMap Manifest.objects).map ManifestObject.bodyLen).sum < 2 ^ 64
  raw : ((ms.flatMap Manifest.objects).map fun o => o.rawBytes.getD 0).sum < 2 ^ 64

/-- The report of a group, with sums that wrap. -/
def wrapGroup (logGroup : String) (ms : List Manifest) : GroupReport :=
  let g := ms.foldl GroupReport.wrapManifest (.new logGroup ms.length)
  let windows := byBounds (ms.map Manifest.bounds)
  { g with
    coverageFromMs := windows.head?.map Prod.fst
    coverageToMs := windows.getLast?.map Prod.snd
    coverageGaps := neighbourGaps windows }

/-- A group has its report unless the sums are checked and do not fit. -/
theorem aggregateGroup_eq_some {checks : Bool} {logGroup : String} {ms : List Manifest}
    {g : GroupReport} :
    aggregateGroup checks logGroup ms = some g ↔
      g = wrapGroup logGroup ms ∧ (checks = true → SumsFit ms) := by
  have hnew : (GroupReport.new logGroup ms.length).ClassesWithin := fun _ => Nat.le_refl 0
  have hfit : ManifestsFit (.new logGroup ms.length) ms ↔ SumsFit ms := by
    constructor
    · rintro ⟨hrecords, hcompressed, hraw⟩
      exact ⟨(Nat.zero_add _).symm.trans_lt hrecords, (Nat.zero_add _).symm.trans_lt hcompressed,
        (Nat.zero_add _).symm.trans_lt hraw⟩
    · rintro ⟨hrecords, hcompressed, hraw⟩
      exact ⟨(Nat.zero_add _).trans_lt hrecords, (Nat.zero_add _).trans_lt hcompressed,
        (Nat.zero_add _).trans_lt hraw⟩
  unfold aggregateGroup
  rw [Option.bind_eq_bind, Option.bind_eq_some_iff]
  simp only [foldlM_addManifest_eq_some fun _ => hnew, hfit]
  constructor
  · rintro ⟨_, ⟨rfl, hsums⟩, heq⟩
    exact ⟨(Option.some.inj heq).symm, hsums⟩
  · rintro ⟨rfl, hsums⟩
    exact ⟨_, ⟨rfl, hsums⟩, rfl⟩

/-! ## The order of the manifests -/

theorem wrapObject_comm (g : GroupReport) (o o' : ManifestObject) :
    (g.wrapObject o).wrapObject o' = (g.wrapObject o').wrapObject o := by
  have hclass : (g.bytesByClass.alter (o.storageClass.getD "STANDARD") fun bytes =>
        bytes.getD 0 + UInt64.ofNat o.bodyLen).alter (o'.storageClass.getD "STANDARD")
          (fun bytes => bytes.getD 0 + UInt64.ofNat o'.bodyLen) =
      (g.bytesByClass.alter (o'.storageClass.getD "STANDARD") fun bytes =>
        bytes.getD 0 + UInt64.ofNat o'.bodyLen).alter (o.storageClass.getD "STANDARD")
          (fun bytes => bytes.getD 0 + UInt64.ofNat o.bodyLen) := by
    apply OrdMap.alter_comm
    intro _ v
    exact add_ofNat_comm _ _ _
  unfold GroupReport.wrapObject
  dsimp only
  rw [hclass, add_ofNat_comm g.compressedBytes, Nat.add_right_comm g.objectsAssumedStandard,
    add_ofNat_comm g.rawBytes, Nat.add_right_comm g.objectsMissingRaw]

/-- The objects of all manifests are counted one after the other. -/
theorem foldl_wrapManifest (ms : List Manifest) (g : GroupReport) :
    ms.foldl GroupReport.wrapManifest g =
      (ms.flatMap Manifest.objects).foldl GroupReport.wrapObject
        { g with records := g.records + UInt64.ofNat (ms.map Manifest.recordCount).sum } := by
  have hrecords : ∀ (os : List ManifestObject) (g : GroupReport) (n : UInt64),
      { os.foldl GroupReport.wrapObject g with
        records := (os.foldl GroupReport.wrapObject g).records + n } =
      os.foldl GroupReport.wrapObject { g with records := g.records + n } := by
    intro os
    induction os with
    | nil => exact fun _ _ => rfl
    | cons o os ih => exact fun g n => ih (g.wrapObject o) n
  induction ms generalizing g with
  | nil =>
    show g = { g with records := g.records + 0 }
    rw [UInt64.add_zero]
  | cons m ms ih =>
    rw [List.foldl_cons, ih, List.flatMap_cons, List.foldl_append, GroupReport.wrapManifest,
      hrecords, List.map_cons, List.sum_cons, UInt64.ofNat_add, UInt64.add_assoc]

theorem byBounds_perm {ws ws' : List (Int × Int)} (h : ws.Perm ws') :
    byBounds ws = byBounds ws' := by
  have hperm : (byBounds ws).Perm (byBounds ws') :=
    (Sorting.sortBy_perm ws).trans (h.trans (Sorting.sortBy_perm ws').symm)
  refine hperm.eq_of_pairwise (fun v w _ _ hvw hwv => ?_) (Sorting.sortBy_ascending ws)
    (Sorting.sortBy_ascending ws')
  exact toLex.injective (le_antisymm hvw hwv)

theorem wrapGroup_perm (logGroup : String) {ms ms' : List Manifest} (h : ms.Perm ms') :
    wrapGroup logGroup ms = wrapGroup logGroup ms' := by
  have hfold : ms.foldl GroupReport.wrapManifest (.new logGroup ms.length) =
      ms'.foldl GroupReport.wrapManifest (.new logGroup ms'.length) := by
    have hobjects : (ms.flatMap Manifest.objects).Perm (ms'.flatMap Manifest.objects) :=
      h.flatMap_right _
    rw [foldl_wrapManifest, foldl_wrapManifest, h.length_eq,
      (h.map Manifest.recordCount).sum_eq]
    exact hobjects.foldl_eq' (fun o _ o' _ g => wrapObject_comm g o o') _
  unfold wrapGroup
  dsimp only
  rw [hfold, byBounds_perm (h.map Manifest.bounds)]

theorem sumsFit_perm {ms ms' : List Manifest} (h : ms.Perm ms') : SumsFit ms ↔ SumsFit ms' := by
  have hall : ∀ {ms ms' : List Manifest}, ms.Perm ms' → SumsFit ms → SumsFit ms' := by
    intro ms ms' h hfit
    have hobjects : (ms.flatMap Manifest.objects).Perm (ms'.flatMap Manifest.objects) :=
      h.flatMap_right _
    obtain ⟨hrecords, hcompressed, hraw⟩ := hfit
    rw [(h.map Manifest.recordCount).sum_eq] at hrecords
    rw [(hobjects.map ManifestObject.bodyLen).sum_eq] at hcompressed
    rw [(hobjects.map fun o => o.rawBytes.getD 0).sum_eq] at hraw
    exact ⟨hrecords, hcompressed, hraw⟩
  exact ⟨hall h, hall h.symm⟩

/-- The report does not depend on the order of the manifests. -/
theorem aggregateGroup_perm (checks : Bool) (logGroup : String) {ms ms' : List Manifest}
    (h : ms.Perm ms') : aggregateGroup checks logGroup ms = aggregateGroup checks logGroup ms' := by
  apply Option.ext
  intro g
  rw [aggregateGroup_eq_some, aggregateGroup_eq_some, wrapGroup_perm logGroup h, sumsFit_perm h]

/-! ## Gaps between neighbours -/

theorem neighbourGaps_cons (v w : Int × Int) (rest : List (Int × Int)) :
    neighbourGaps (v :: w :: rest) =
      (if v.2 < w.1 then 1 else 0) + neighbourGaps (w :: rest) := by
  unfold neighbourGaps
  rw [List.tail_cons, List.tail_cons, List.zip_cons_cons, List.filter_cons]
  split
  next h =>
    rw [if_pos (of_decide_eq_true h), List.length_cons, Nat.add_comm]
  next h =>
    rw [if_neg (fun hlt => h (decide_eq_true hlt)), Nat.zero_add]

/-- Each window that begins after the end of its neighbour begins after all ends before
it. -/
def AfterAll (done ws : List (Int × Int)) : Prop :=
  ∀ before w w' rest, ws = before ++ w :: w' :: rest → w.2 < w'.1 →
    ∀ v ∈ done ++ before, v.2 < w'.1

theorem afterAll_singleton (done : List (Int × Int)) (v : Int × Int) : AfterAll done [v] := by
  intro before w w' rest heq
  have hlen := congrArg List.length heq
  rw [List.length_singleton, List.length_append, List.length_cons, List.length_cons] at hlen
  omega

theorem afterAll_cons {done : List (Int × Int)} {v w : Int × Int} {rest : List (Int × Int)} :
    AfterAll done (v :: w :: rest) ↔
      (v.2 < w.1 → ∀ u ∈ done, u.2 < w.1) ∧ AfterAll (done ++ [v]) (w :: rest) := by
  constructor
  · intro h
    refine ⟨fun hlt u hu => ?_, fun before x x' after heq hlt u hu => ?_⟩
    · exact h [] v w rest rfl hlt u (List.mem_append_left _ hu)
    · rw [List.append_assoc, List.singleton_append] at hu
      exact h (v :: before) x x' after (congrArg (v :: ·) heq) hlt u hu
  · rintro ⟨hfirst, hrest⟩ before x x' after heq hlt u hu
    cases before with
    | nil =>
      obtain ⟨rfl, htail⟩ := List.cons.inj heq
      obtain ⟨rfl, -⟩ := List.cons.inj htail
      rw [List.append_nil] at hu
      exact hfirst hlt u hu
    | cons y before =>
      obtain ⟨rfl, htail⟩ := List.cons.inj heq
      refine hrest before x x' after htail hlt u ?_
      rwa [List.append_assoc, List.singleton_append]

/-- Neighbours have at least as many gaps as the union, and as many only where each window
after a gap begins after all ends before it. -/
theorem gapsAfter_le_neighbourGaps {done : List (Int × Int)} {v : Int × Int} {reach : Int}
    {rest : List (Int × Int)} (hbound : ∀ u ∈ done ++ [v], u.2 ≤ reach)
    (hattained : ∃ u ∈ done ++ [v], u.2 = reach) :
    (gapsAfter reach rest).length ≤ neighbourGaps (v :: rest) ∧
      ((gapsAfter reach rest).length = neighbourGaps (v :: rest) ↔ AfterAll done (v :: rest)) := by
  induction rest generalizing done v reach with
  | nil =>
    exact ⟨Nat.zero_le _, iff_of_true rfl (afterAll_singleton done v)⟩
  | cons w rest ih =>
    obtain ⟨hle, hiff⟩ := @ih (done ++ [v]) w (max reach w.2)
      (fun u hu => by
        rcases List.mem_append.mp hu with hu | hu
        · exact (hbound u hu).trans (le_max_left _ _)
        · rw [List.mem_singleton.mp hu]
          exact le_max_right _ _)
      (by
        obtain ⟨u, hu, hreach⟩ := hattained
        rcases le_total reach w.2 with hle | hle
        · exact ⟨w, List.mem_append_right _ List.mem_cons_self, (max_eq_right hle).symm⟩
        · exact ⟨u, List.mem_append_left _ hu, hreach.trans (max_eq_left hle).symm⟩)
    have hv : v.2 ≤ reach := hbound v (List.mem_append_right _ List.mem_cons_self)
    have hreach : reach < w.1 ↔ v.2 < w.1 ∧ ∀ u ∈ done, u.2 < w.1 := by
      constructor
      · exact fun hlt => ⟨hv.trans_lt hlt, fun u hu =>
          (hbound u (List.mem_append_left _ hu)).trans_lt hlt⟩
      · rintro ⟨hvw, hdone⟩
        obtain ⟨u, hu, rfl⟩ := hattained
        rcases List.mem_append.mp hu with hu | hu
        · exact hdone u hu
        · rwa [List.mem_singleton.mp hu]
    rw [neighbourGaps_cons, afterAll_cons, gapsAfter, ← hiff]
    by_cases hlt : reach < w.1
    · obtain ⟨hvw, hdone⟩ := hreach.mp hlt
      rw [if_pos hlt, if_pos hvw, List.length_cons]
      refine ⟨by omega, ?_⟩
      rw [Nat.add_comm 1, Nat.add_right_cancel_iff]
      exact ⟨fun heq => ⟨fun _ => hdone, heq⟩, And.right⟩
    · rw [if_neg hlt]
      by_cases hvw : v.2 < w.1
      · rw [if_pos hvw]
        refine ⟨by omega, ⟨fun heq => by omega, fun hboth => ?_⟩⟩
        exact absurd (hreach.mpr ⟨hvw, hboth.1 hvw⟩) hlt
      · rw [if_neg hvw, Nat.zero_add]
        exact ⟨hle, ⟨fun heq => ⟨fun h => absurd h hvw, heq⟩, And.right⟩⟩

/-! ## The coverage -/

/-- The least start of the windows. -/
def LeastStart (ws : List (Int × Int)) (t : Int) : Prop :=
  (∃ w ∈ ws, w.1 = t) ∧ ∀ w ∈ ws, t ≤ w.1

/-- The greatest end of the windows. -/
def GreatestEnd (ws : List (Int × Int)) (t : Int) : Prop :=
  (∃ w ∈ ws, w.2 = t) ∧ ∀ w ∈ ws, w.2 ≤ t

/-- The coverage of the union of the windows: its ends, and the number of its gaps between
them. -/
structure IsCoverage (ws : List (Int × Int)) (g : GroupReport) : Prop where
  first : ∀ t, g.coverageFromMs = some t ↔ LeastStart ws t
  last : ∀ t, g.coverageToMs = some t ↔ GreatestEnd ws t
  gaps : ∃ gaps : List (Int × Int), gaps.Nodup ∧ gaps.length = g.coverageGaps ∧
    ∀ a b, (a, b) ∈ gaps ↔ ∃ lo hi, LeastStart ws lo ∧ GreatestEnd ws hi ∧ IsGap ws lo hi a b

/-- The last of the windows ends last. -/
def LastEndsLast (ws : List (Int × Int)) : Prop :=
  ∀ w ∈ ws.getLast?, ∀ v ∈ ws, v.2 ≤ w.2

/-- What the windows hide from their neighbours. -/
structure NeighboursSuffice (ws : List (Int × Int)) : Prop where
  after : AfterAll [] ws
  last : LastEndsLast ws

theorem byBounds_ordered (ws : List (Int × Int)) :
    (byBounds ws).Pairwise fun v w => v.1 ≤ w.1 := by
  have hasc : Sorting.Ascending (fun w => (toLex w : Int ×ₗ Int)) (byBounds ws) :=
    Sorting.sortBy_ascending ws
  refine hasc.imp fun hvw => ?_
  rcases Prod.Lex.toLex_le_toLex.mp hvw with hlt | ⟨heq, -⟩
  · exact hlt.le
  · exact heq.le

theorem leastStart_congr {ws ws' : List (Int × Int)} (h : ∀ w, w ∈ ws ↔ w ∈ ws') {t : Int}
    (ht : LeastStart ws t) : LeastStart ws' t := by
  obtain ⟨⟨w, hw, hwt⟩, hall⟩ := ht
  exact ⟨⟨w, (h w).mp hw, hwt⟩, fun v hv => hall v ((h v).mpr hv)⟩

theorem greatestEnd_congr {ws ws' : List (Int × Int)} (h : ∀ w, w ∈ ws ↔ w ∈ ws') {t : Int}
    (ht : GreatestEnd ws t) : GreatestEnd ws' t := by
  obtain ⟨⟨w, hw, hwt⟩, hall⟩ := ht
  exact ⟨⟨w, (h w).mp hw, hwt⟩, fun v hv => hall v ((h v).mpr hv)⟩

theorem LeastStart.unique {ws : List (Int × Int)} {s t : Int} (hs : LeastStart ws s)
    (ht : LeastStart ws t) : s = t := by
  obtain ⟨⟨v, hv, rfl⟩, hleast⟩ := hs
  obtain ⟨⟨w, hw, rfl⟩, hleast'⟩ := ht
  exact le_antisymm (hleast w hw) (hleast' v hv)

theorem GreatestEnd.unique {ws : List (Int × Int)} {s t : Int} (hs : GreatestEnd ws s)
    (ht : GreatestEnd ws t) : s = t := by
  obtain ⟨⟨v, hv, rfl⟩, hgreatest⟩ := hs
  obtain ⟨⟨w, hw, rfl⟩, hgreatest'⟩ := ht
  exact le_antisymm (hgreatest' v hv) (hgreatest w hw)

/-- The coverage of windows does not depend on their order. -/
theorem IsCoverage.congr {ws ws' : List (Int × Int)} (h : ∀ w, w ∈ ws ↔ w ∈ ws') {g : GroupReport}
    (hg : IsCoverage ws g) : IsCoverage ws' g := by
  have h' : ∀ w, w ∈ ws' ↔ w ∈ ws := fun w => (h w).symm
  refine ⟨fun t => (hg.first t).trans ⟨leastStart_congr h, leastStart_congr h'⟩,
    fun t => (hg.last t).trans ⟨greatestEnd_congr h, greatestEnd_congr h'⟩, ?_⟩
  obtain ⟨gaps, hnodup, hlen, hgaps⟩ := hg.gaps
  refine ⟨gaps, hnodup, hlen, fun a b => (hgaps a b).trans ?_⟩
  constructor
  · rintro ⟨lo, hi, hlo, hhi, hgap⟩
    exact ⟨lo, hi, leastStart_congr h hlo, greatestEnd_congr h hhi, hgap.congr h⟩
  · rintro ⟨lo, hi, hlo, hhi, hgap⟩
    exact ⟨lo, hi, leastStart_congr h' hlo, greatestEnd_congr h' hhi, hgap.congr h'⟩

theorem exists_greatestEnd : ∀ (w : Int × Int) (ws : List (Int × Int)),
    ∃ t, GreatestEnd (w :: ws) t
  | w, [] => by
    refine ⟨w.2, ⟨w, List.mem_cons_self, rfl⟩, fun v hv => ?_⟩
    rw [List.mem_singleton.mp hv]
  | w, v :: ws => by
    obtain ⟨t, ⟨u, hu, rfl⟩, hall⟩ := exists_greatestEnd v ws
    rcases le_total u.2 w.2 with hle | hle
    · refine ⟨w.2, ⟨w, List.mem_cons_self, rfl⟩, fun x hx => ?_⟩
      rcases List.mem_cons.mp hx with rfl | hx
      · exact le_rfl
      · exact (hall x hx).trans hle
    · refine ⟨u.2, ⟨u, List.mem_cons_of_mem _ hu, rfl⟩, fun x hx => ?_⟩
      rcases List.mem_cons.mp hx with rfl | hx
      · exact hle
      · exact hall x hx

/-- Of windows by their start, the first has the least. -/
theorem leastStart_cons {w : Int × Int} {ws : List (Int × Int)}
    (hordered : (w :: ws).Pairwise fun u v => u.1 ≤ v.1) : LeastStart (w :: ws) w.1 := by
  refine ⟨⟨w, List.mem_cons_self, rfl⟩, fun v hv => ?_⟩
  rcases List.mem_cons.mp hv with rfl | hv
  · exact le_rfl
  · exact (List.pairwise_cons.mp hordered).1 v hv

/-- The gaps of windows by their start are those of the scan. -/
theorem mem_gaps_iff {w : Int × Int} {ws : List (Int × Int)} (hproper : ∀ v ∈ w :: ws, v.1 < v.2)
    (hordered : (w :: ws).Pairwise fun u v => u.1 ≤ v.1) (a b : Int) :
    (∃ lo hi, LeastStart (w :: ws) lo ∧ GreatestEnd (w :: ws) hi ∧ IsGap (w :: ws) lo hi a b) ↔
      (a, b) ∈ gapsAfter w.2 ws := by
  have hleast := leastStart_cons hordered
  obtain ⟨hi, hhi⟩ := exists_greatestEnd w ws
  have hscan : (a, b) ∈ gapsAfter w.2 ws ↔ IsGap (w :: ws) w.1 hi a b :=
    Intervals.mem_gapsAfter_head hproper hordered hhi.1 hhi.2
  rw [hscan]
  constructor
  · rintro ⟨lo, hi', hlo, hhi', hgap⟩
    rwa [hlo.unique hleast, hhi'.unique hhi] at hgap
  · exact fun hgap => ⟨w.1, hi, hleast, hhi, hgap⟩

/-- Of windows by their bounds, the first has the least start. -/
theorem head_leastStart {ws : List (Int × Int)}
    (hordered : ws.Pairwise fun u v => u.1 ≤ v.1) (t : Int) :
    ws.head?.map Prod.fst = some t ↔ LeastStart ws t := by
  cases ws with
  | nil => exact ⟨nofun, fun ⟨⟨w, hw, _⟩, _⟩ => absurd hw List.not_mem_nil⟩
  | cons w ws =>
    have hleast := leastStart_cons hordered
    rw [List.head?_cons, Option.map_some, Option.some.injEq]
    exact ⟨fun heq => heq ▸ hleast, fun ht => hleast.unique ht⟩

/-- The end of the last is the greatest exactly where the last ends last. -/
theorem last_greatestEnd (ws : List (Int × Int)) :
    (∀ t, ws.getLast?.map Prod.snd = some t ↔ GreatestEnd ws t) ↔ LastEndsLast ws := by
  unfold LastEndsLast
  cases hlast : ws.getLast? with
  | none =>
    obtain rfl := List.getLast?_eq_none_iff.mp hlast
    refine iff_of_true (fun t => ⟨nofun, ?_⟩) nofun
    exact fun ⟨⟨w, hw, _⟩, _⟩ => absurd hw List.not_mem_nil
  | some w =>
    have hw : w ∈ ws := List.mem_of_getLast? hlast
    rw [Option.map_some]
    constructor
    · intro h v hv u hu
      obtain rfl := Option.some.inj hv
      exact ((h w.2).mp rfl).2 u hu
    · intro h t
      have hgreatest : GreatestEnd ws w.2 := ⟨⟨w, hw, rfl⟩, h w rfl⟩
      rw [Option.some.injEq]
      exact ⟨fun heq => heq ▸ hgreatest, fun ht => hgreatest.unique ht⟩

/-- The gaps between neighbours are those of the union exactly where each window that begins
after its neighbour begins after all before it. -/
theorem gaps_iff {ws : List (Int × Int)} (hproper : ∀ w ∈ ws, w.1 < w.2)
    (hordered : ws.Pairwise fun u v => u.1 ≤ v.1) :
    (∃ gaps : List (Int × Int), gaps.Nodup ∧ gaps.length = neighbourGaps ws ∧
      ∀ a b, (a, b) ∈ gaps ↔ ∃ lo hi, LeastStart ws lo ∧ GreatestEnd ws hi ∧ IsGap ws lo hi a b) ↔
      AfterAll [] ws := by
  cases ws with
  | nil =>
    refine iff_of_true ⟨[], List.nodup_nil, rfl, fun a b => ⟨nofun, ?_⟩⟩ ?_
    · rintro ⟨lo, hi, ⟨⟨w, hw, -⟩, -⟩, -⟩
      exact absurd hw List.not_mem_nil
    · intro before w w' rest heq
      exact absurd heq.symm (List.append_ne_nil_of_right_ne_nil _ (List.cons_ne_nil _ _))
  | cons w ws =>
    have hnodup : (gapsAfter w.2 ws).Nodup :=
      (Intervals.gapsAfter_nodup fun v hv => hproper v (List.mem_cons_of_mem _ hv)).1
    have hcount : (gapsAfter w.2 ws).length = neighbourGaps (w :: ws) ↔ AfterAll [] (w :: ws) :=
      (gapsAfter_le_neighbourGaps (fun u hu => by rw [List.mem_singleton.mp hu])
        ⟨w, List.mem_cons_self, rfl⟩).2
    rw [← hcount]
    simp only [mem_gaps_iff hproper hordered]
    constructor
    · rintro ⟨gaps, hgaps, hlen, hmem⟩
      rw [← hlen]
      exact ((List.perm_ext_iff_of_nodup hnodup hgaps).mpr fun g => (hmem g.1 g.2).symm).length_eq
    · exact fun heq => ⟨gapsAfter w.2 ws, hnodup, heq, fun a b => Iff.rfl⟩

/-- A group has a report that is the coverage of the union of its windows, in whatever order the
manifests come, exactly where no window hides another's end from its neighbour and the sums,
where they are checked, fit. -/
theorem aggregateGroup_coverage_iff (checks : Bool) (logGroup : String) {ms : List Manifest}
    (h : ∀ m ∈ ms, m.windowStartMs < m.windowEndMs) :
    ((∃ g, aggregateGroup checks logGroup ms = some g ∧ IsCoverage (ms.map Manifest.bounds) g) ∧
      ∀ ms', ms.Perm ms' →
        aggregateGroup checks logGroup ms' = aggregateGroup checks logGroup ms) ↔
      NeighboursSuffice (byBounds (ms.map Manifest.bounds)) ∧ (checks = true → SumsFit ms) := by
  have hmem : ∀ w, w ∈ ms.map Manifest.bounds ↔ w ∈ byBounds (ms.map Manifest.bounds) :=
    fun w => Sorting.mem_sortBy.symm
  have hproper : ∀ w ∈ byBounds (ms.map Manifest.bounds), w.1 < w.2 := by
    intro w hw
    obtain ⟨m, hm, rfl⟩ := List.mem_map.mp ((hmem w).mpr hw)
    exact h m hm
  have hordered := byBounds_ordered (ms.map Manifest.bounds)
  have hgaps := gaps_iff hproper hordered
  have hlast := last_greatestEnd (byBounds (ms.map Manifest.bounds))
  constructor
  · rintro ⟨⟨g, hg, hcoverage⟩, -⟩
    obtain ⟨rfl, hsums⟩ := aggregateGroup_eq_some.mp hg
    have hsorted := hcoverage.congr hmem
    exact ⟨⟨hgaps.mp hsorted.gaps, hlast.mp hsorted.last⟩, hsums⟩
  · rintro ⟨hsuffice, hsums⟩
    refine ⟨⟨wrapGroup logGroup ms, aggregateGroup_eq_some.mpr ⟨rfl, hsums⟩,
      IsCoverage.congr (fun w => (hmem w).symm) ?_⟩, fun ms' hperm =>
        (aggregateGroup_perm checks logGroup hperm).symm⟩
    exact ⟨head_leastStart hordered, hlast.mpr hsuffice.last, hgaps.mpr hsuffice.after⟩

/-- A manifest of nothing but a window. -/
def Manifest.emptyWindow (startMs endMs : Int) : Manifest where
  version := manifestVersion
  account := "1"
  logGroup := "g"
  windowStartMs := startMs
  windowEndMs := endMs
  objects := []
  recordCount := 0
  completedAtMs := 0
  drainVersion := S4Logs.drainVersion
  reconciledAtMs := none
  reconciledAdded := none

/-- Two windows side by side and one after a gap, with all sums checked. -/
theorem aggregateGroup_coverage_hours :
    ∃ g, aggregateGroup true "g" [.emptyWindow 10800000 14400000, .emptyWindow 0 3600000,
        .emptyWindow 3600000 7200000] = some g ∧
      IsCoverage [(10800000, 14400000), (0, 3600000), (3600000, 7200000)] g := by
  have hsorted : byBounds ([Manifest.emptyWindow 10800000 14400000, .emptyWindow 0 3600000,
      .emptyWindow 3600000 7200000].map Manifest.bounds) =
        [(0, 3600000), (3600000, 7200000), (10800000, 14400000)] := by decide +kernel
  have hproper : ∀ m ∈ [Manifest.emptyWindow 10800000 14400000, .emptyWindow 0 3600000,
      .emptyWindow 3600000 7200000], m.windowStartMs < m.windowEndMs := by decide
  refine ((aggregateGroup_coverage_iff true "g" hproper).mpr ⟨?_, fun _ => ?_⟩).1
  · rw [hsorted]
    constructor
    · exact afterAll_cons.mpr ⟨by decide, afterAll_cons.mpr ⟨by decide, afterAll_singleton _ _⟩⟩
    · intro w hw
      obtain rfl := Option.some.inj hw
      decide
  · exact ⟨by decide, by decide, by decide⟩

/-- Two short windows inside a long one: the end of the last is not the greatest. -/
theorem nested_windows_miscounted :
    ¬ ∀ (logGroup : String) (ms : List Manifest), (∀ m ∈ ms, m.windowStartMs < m.windowEndMs) →
      (∃ g, aggregateGroup false logGroup ms = some g ∧ IsCoverage (ms.map Manifest.bounds) g) ∧
        ∀ ms', ms.Perm ms' →
          aggregateGroup false logGroup ms' = aggregateGroup false logGroup ms := by
  intro h
  obtain ⟨⟨g, hg, hcoverage⟩, -⟩ :=
    h "g" [.emptyWindow 0 10, .emptyWindow 1 2, .emptyWindow 3 4] (by decide)
  obtain ⟨rfl, -⟩ := aggregateGroup_eq_some.mp hg
  have hlast := (hcoverage.last 4).mp (by decide +kernel)
  exact absurd (hlast.2 (0, 10) (by decide)) (by decide)

end S4Logs
