import S4Logs.Drain.Concrete
import S4Logs.Laws.Drain.Covered
import S4Logs.Laws.Drain.Naming

/-!
# The next attempt

The scan of the listed names reads an attempt off the six octets that follow the `r` of a
name. Where the writer's numbers are wider than that the name is passed over, but the first
object of each attempt is not, so the next attempt is above all of them. It cuts the six
octets after the second, whatever they are, and panics where no character ends there.
-/

namespace S4Logs

variable {m : Manifest}

/-! ## Names the scan cannot cut -/

/-- After the `r` of the name stand six octets, and no character ends after the second. -/
def TornName (dataKey : String) : Prop :=
  ∃ start digits : List Char,
    Text.lastSegment '/' dataKey.toList = start ++ '-' :: 'r' :: digits ++ dataSuffix.toList ∧
      '-' ∉ digits ∧ Text.byteLen digits = 6 ∧ ∀ front, front <+: digits → Text.byteLen front ≠ 2

theorem attemptOf_eq_none {dataKey : String} : attemptOf dataKey = none ↔ TornName dataKey := by
  constructor
  · intro h
    unfold attemptOf at h
    cases hname : Text.stripSuffix dataSuffix.toList (Text.lastSegment '/' dataKey.toList) with
    | none => simp only [hname, reduceCtorEq] at h
    | some name =>
      cases hsplit : Text.rsplitOnce '-' name with
      | none => simp only [hname, hsplit, reduceCtorEq] at h
      | some parts =>
        obtain ⟨start, suffix⟩ := parts
        cases hdigits : Text.stripPrefix ['r'] suffix with
        | none => simp only [hname, hsplit, hdigits, reduceCtorEq] at h
        | some digits =>
          simp only [hname, hsplit, hdigits] at h
          split at h
          next => cases h
          next hsix =>
            obtain ⟨rfl, hdash⟩ := Text.eq_append_of_rsplitOnce hsplit
            obtain rfl := Text.eq_append_of_stripPrefix hdigits
            refine ⟨start, digits, Text.eq_append_of_stripSuffix hname, ?_, not_not.mp hsix, ?_⟩
            · exact fun hmem => hdash (List.mem_cons_of_mem _ hmem)
            · exact Text.takeBytes_eq_none.mp (Option.map_eq_none_iff.mp h)
  · rintro ⟨start, digits, hname, hdash, hsix, hfront⟩
    have hsuffix : '-' ∉ 'r' :: digits := by
      intro hmem
      rcases List.mem_cons.mp hmem with hmem | hmem
      · exact absurd hmem (by decide)
      · exact hdash hmem
    have hstrip : Text.stripPrefix ['r'] ('r' :: digits) = some digits :=
      Text.stripPrefix_append ['r'] digits
    unfold attemptOf
    rw [hname, Text.stripSuffix_append]
    dsimp only
    rw [Text.rsplitOnce_append '-' hsuffix]
    dsimp only
    rw [hstrip]
    dsimp only
    rw [if_neg (not_not_intro hsix), Text.takeBytes_eq_none.mpr hfront, Option.map_none]

theorem highestAttempt_eq_none {objects : List ManifestObject} : ∀ {low : Nat},
    highestAttempt low objects = none ↔ ∃ o ∈ objects, attemptOf o.dataKey = none := by
  induction objects with
  | nil =>
    refine fun {low} => iff_of_false (fun h => by cases h) ?_
    rintro ⟨o, ho, -⟩
    exact List.not_mem_nil ho
  | cons o objects ih =>
    intro low
    rw [List.exists_mem_cons_iff]
    unfold highestAttempt
    cases hread : attemptOf o.dataKey with
    | none => exact iff_of_true rfl (.inl rfl)
    | some found =>
      have hother : ¬ some found = none := Option.some_ne_none found
      cases found with
      | none => rw [ih, or_iff_right hother]
      | some a => rw [ih, or_iff_right hother]

/-- The scan panics just where it meets a name it cannot cut. -/
theorem nextAttempt_eq_none : nextAttempt m = none ↔ ∃ o ∈ m.objects, TornName o.dataKey := by
  rw [nextAttempt, Option.map_eq_none_iff, highestAttempt_eq_none]
  simp only [attemptOf_eq_none]

/-! ## Names of the writer -/

/-- The objects were named by the writer, in attempts from 1 to 99 each of which has its first
object listed. -/
structure NamedByWriter (m : Manifest) (nameOf : ManifestObject → ObjectNaming × Nat) : Prop where
  key : ∀ o ∈ m.objects, ∃ (keyPrefix : String) (loc : ChunkLocation),
    loc.name = (nameOf o).1.name m.windowStartMs (nameOf o).2 ∧ o.dataKey = loc.dataKey keyPrefix
  attempt : ∀ o ∈ m.objects, ∀ attempt, (nameOf o).1 = .reconcile attempt →
    1 ≤ attempt ∧ attempt ≤ 99
  first : ∀ o ∈ m.objects, ∀ attempt, (nameOf o).1 = .reconcile attempt →
    ∃ o' ∈ m.objects, nameOf o' = (.reconcile attempt, 0)

/-- A new attempt: above those that are there, and with names that none of theirs is. -/
def FreshAttempt (m : Manifest) (nameOf : ManifestObject → ObjectNaming × Nat) (next : Nat) : Prop :=
  (∀ o ∈ m.objects, ∀ attempt, (nameOf o).1 = .reconcile attempt → attempt < next) ∧
  ∀ o ∈ m.objects, ∀ seq, (ObjectNaming.reconcile next).name m.windowStartMs seq ≠
    (nameOf o).1.name m.windowStartMs (nameOf o).2

/-- An attempt of three digits has no suffix of one of two: a longer number has no zero in
front. -/
theorem suffix_ne_of_wide {attempt seq seq' : Nat} (ha : attempt < 100) :
    ObjectNaming.suffix (.reconcile 100) seq ≠ ObjectNaming.suffix (.reconcile attempt) seq' := by
  intro heq
  have htail := (List.cons.inj heq).2
  have hhundred : Text.padded 2 100 = ['1', '0'] ++ ['0'] := by decide
  rw [hhundred, List.append_assoc] at htail
  have hlen : (['1', '0'] : List Char).length = (Text.padded 2 attempt).length := by
    rw [Text.length_padded (by decide) ha]
    rfl
  obtain ⟨-, hseq⟩ := List.append_inj htail hlen
  have hvalue : seq = seq' := by
    calc seq = Nat.ofDigitChars 10 (['0'] ++ Text.padded 4 seq) 0 := (Text.value_padded 4 seq).symm
      _ = Nat.ofDigitChars 10 (Text.padded 4 seq') 0 := by rw [hseq]
      _ = seq' := Text.value_padded 4 seq'
  subst hvalue
  have hlength := congrArg List.length hseq
  rw [List.length_append, List.length_singleton] at hlength
  omega

variable {nameOf : ManifestObject → ObjectNaming × Nat} {next : Nat}

/-- A suffix of a new attempt is that of no other. -/
theorem suffix_fresh {naming : ObjectNaming} {seq seq' : Nat} (hnext : next ≤ 100)
    (hbelow : ∀ attempt, naming = .reconcile attempt → attempt < next) :
    ObjectNaming.suffix (.reconcile next) seq ≠ naming.suffix seq' := by
  intro heq
  have hfit : naming.Fits := by
    cases naming with
    | base => trivial
    | reconcile attempt => exact Nat.lt_of_lt_of_le (hbelow attempt rfl) hnext
  rcases Nat.lt_or_eq_of_le hnext with hlt | rfl
  · obtain ⟨hnaming, -⟩ := ObjectNaming.suffix_injective
      (show (ObjectNaming.reconcile next).Fits from hlt) hfit heq
    exact Nat.lt_irrefl _ (hbelow next hnaming.symm)
  · cases naming with
    | base =>
      have hr : 'r' ∈ Text.padded 6 seq' := by
        rw [← show _ = Text.padded 6 seq' from heq]
        exact List.mem_cons_self
      exact Text.notMem_padded (by decide) _ _ hr
    | reconcile attempt => exact suffix_ne_of_wide hfit heq

/-- What the scan reads off a name of the writer, if anything, is its attempt. -/
theorem attempt_of_read {loc : ChunkLocation} {naming : ObjectNaming} {s : Int} {seq read : Nat}
    (hname : loc.name = naming.name s seq) (hfit : naming.Fits) {keyPrefix : String}
    (h : attemptOf (loc.dataKey keyPrefix) = some (some read)) : naming = .reconcile read := by
  rw [attemptOf_dataKey hname] at h
  cases naming with
  | base =>
    have hnone : Text.stripPrefix ['r'] (Text.padded 6 seq) = none := by
      unfold Text.stripPrefix
      rw [if_neg]
      rintro ⟨rest, hrest⟩
      have hr : 'r' ∈ Text.padded 6 seq := hrest ▸ List.mem_cons_self
      exact Text.notMem_padded (by decide) _ _ hr
    rw [show ObjectNaming.suffix .base seq = Text.padded 6 seq from rfl, hnone] at h
    cases h
  | reconcile attempt =>
    have hstrip : Text.stripPrefix ['r'] (ObjectNaming.suffix (.reconcile attempt) seq) =
        some (Text.padded 2 attempt ++ Text.padded 4 seq) := Text.stripPrefix_append ['r'] _
    have htake := takeBytes_digits (Text.padded 4 seq) fun c (hc : c ∈ Text.padded 2 attempt) =>
      Text.isDigit_of_mem_padded hc
    have hattempt : attempt < 100 := hfit
    rw [Text.length_padded (by decide) hattempt] at htake
    rw [hstrip] at h
    dsimp only at h
    split at h
    next => cases h
    next =>
      rw [htake, Option.map_some, parseUnsigned_padded (by decide) (by omega)] at h
      cases h
      rfl

/-- The highest attempt is one that is read, where there is any. -/
theorem highestAttempt_mem {objects : List ManifestObject} : ∀ {low high : Nat},
    highestAttempt low objects = some high →
      high = low ∨ ∃ o ∈ objects, attemptOf o.dataKey = some (some high) := by
  induction objects with
  | nil =>
    intro low high h
    exact .inl (Option.some.inj h).symm
  | cons o objects ih =>
    intro low high h
    rw [List.exists_mem_cons_iff]
    unfold highestAttempt at h
    cases hread : attemptOf o.dataKey with
    | none => simp only [hread, reduceCtorEq] at h
    | some found =>
      cases found with
      | none =>
        simp only [hread] at h
        exact (ih h).imp_right .inr
      | some a =>
        simp only [hread] at h
        rcases ih h with rfl | hmem
        · rcases Nat.le_total low a with hle | hle
          · rw [Nat.max_eq_right hle]
            exact .inr (.inl rfl)
          · exact .inl (Nat.max_eq_left hle)
        · exact .inr (.inr hmem)

/-- The next attempt of a manifest whose objects the writer named is new. -/
theorem NamedByWriter.fresh (h : NamedByWriter m nameOf) (hnext : nextAttempt m = some next) :
    FreshAttempt m nameOf next := by
  obtain ⟨-, hall⟩ := nextAttempt_spec hnext
  have habove : ∀ o ∈ m.objects, ∀ attempt, (nameOf o).1 = .reconcile attempt → attempt < next := by
    intro o ho attempt hattempt
    obtain ⟨o', ho', hfirst⟩ := h.first o ho attempt hattempt
    obtain ⟨keyPrefix, loc, hname, hkey⟩ := h.key o' ho'
    rw [hfirst] at hname
    have hlimit := (h.attempt o ho attempt hattempt).2
    refine hall o' ho' attempt ?_
    rw [hkey]
    exact attemptOf_named (Nat.lt_succ_of_le hlimit) hname keyPrefix
  have hhundred : next ≤ 100 := by
    obtain ⟨high, hhigh, rfl⟩ := Option.map_eq_some_iff.mp hnext
    rcases highestAttempt_mem hhigh with rfl | ⟨o, ho, hread⟩
    · exact Nat.le_of_ble_eq_true rfl
    · obtain ⟨keyPrefix, loc, hname, hkey⟩ := h.key o ho
      have hfits : (nameOf o).1.Fits := by
        cases hnaming : (nameOf o).1 with
        | base => trivial
        | reconcile attempt => exact Nat.lt_succ_of_le (h.attempt o ho attempt hnaming).2
      rw [hkey] at hread
      have hnaming := attempt_of_read hname hfits hread
      exact Nat.succ_le_succ (h.attempt o ho high hnaming).2
  refine ⟨habove, fun o ho seq heq => ?_⟩
  have hlist := congrArg String.toList heq
  rw [ObjectNaming.toList_name_append, ObjectNaming.toList_name_append] at hlist
  have hsuffix := (List.cons.inj (List.append_cancel_left hlist)).2
  exact suffix_fresh hhundred (habove o ho) hsuffix

/-- What a reconcile needs of the scan: it returns, and for objects that the writer named its
result is a new attempt. -/
def AttemptSafe (m : Manifest) : Prop :=
  (∃ next, nextAttempt m = some next) ∧
  ∀ nameOf next, NamedByWriter m nameOf → nextAttempt m = some next → FreshAttempt m nameOf next

/-- The scan is safe just where the manifest lists no name it cannot cut. -/
theorem attemptSafe_iff (m : Manifest) : AttemptSafe m ↔ ∀ o ∈ m.objects, ¬ TornName o.dataKey := by
  have hnone := nextAttempt_eq_none (m := m)
  constructor
  · rintro ⟨⟨next, hnext⟩, -⟩ o ho htorn
    rw [hnone.mpr ⟨o, ho, htorn⟩] at hnext
    cases hnext
  · intro hcut
    refine ⟨Option.ne_none_iff_exists'.mp fun heq => ?_, fun nameOf next h hnext => h.fresh hnext⟩
    obtain ⟨o, ho, htorn⟩ := hnone.mp heq
    exact hcut o ho htorn

namespace Concrete

/-- A manifest of one object. -/
def listing (dataKey : String) : Manifest where
  version := manifestVersion
  account := "1"
  logGroup := "/g"
  windowStartMs := 0
  windowEndMs := dayMs
  objects := [⟨dataKey, none, 0, 0, none, none, 0, 0, 0⟩]
  recordCount := 0
  completedAtMs := 0
  drainVersion := S4Logs.drainVersion
  reconciledAtMs := none
  reconciledAdded := none

/-- Two characters of three octets each after the `r`. -/
def tornKey : String := "data/0-r€€.jsonl.zst"

end Concrete

/-- A manifest that decodes, at which the scan panics. -/
theorem attempt_torn : ∃ bytes, Manifest.fromJsonBytes Concrete.manifests bytes =
    .ok (Concrete.listing Concrete.tornKey) ∧ nextAttempt (Concrete.listing Concrete.tornKey) = none ∧
      ¬ ∀ (bytes : Bytes) (m : Manifest), Manifest.fromJsonBytes Concrete.manifests bytes = .ok m →
        AttemptSafe m := by
  have hread : Manifest.fromJsonBytes Concrete.manifests
      ((Concrete.listing Concrete.tornKey).toJsonBytes Concrete.manifests) =
        .ok (Concrete.listing Concrete.tornKey) := fromJsonBytes_toJsonBytes rfl
  have hnone : nextAttempt (Concrete.listing Concrete.tornKey) = none := by decide +kernel
  refine ⟨_, hread, hnone, fun h => ?_⟩
  obtain ⟨⟨next, hnext⟩, -⟩ := h _ _ hread
  rw [hnone] at hnext
  cases hnext

end S4Logs
