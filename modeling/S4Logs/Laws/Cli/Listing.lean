import S4Logs.Laws.Cli.Dates

/-!
# What a scan lists

The listing of a day gives the locations of the group with that date, each once, and so do
the listings of days with different labels. One listing of the whole group, cut down to
the dates of the range, gives the same.
-/

namespace S4Logs

variable {store : ObjectStore} {account logGroup : String} {keyPrefix : String}

namespace ObjectStore

/-- S3 answers every request. -/
def Up (store : ObjectStore) : Prop := ∀ key, store.answers key = true

/-- A bucket has one object for a key. -/
def Distinct (store : ObjectStore) : Prop := (Assoc.keys store.objects).Nodup

/-- The location has a data object of the group. -/
def Holds (store : ObjectStore) (account logGroup : String) (loc : ChunkLocation) : Prop :=
  ∃ key ∈ Assoc.keys store.objects,
    (dataGroupPrefix store.keyPrefix account logGroup).toList <+: key.toList ∧
      ChunkLocation.parseDataKey store.keyPrefix key = some loc

/-- A listing has the keys that start with its text, each once. -/
theorem listKeys_ok {pre : String} {keys : List String} (h : store.listKeys pre = .ok keys) :
    (∀ key, key ∈ keys ↔ key ∈ Assoc.keys store.objects ∧ pre.toList <+: key.toList) ∧
      (store.Distinct → keys.Nodup) := by
  unfold listKeys at h
  split at h
  next => cases h
  next =>
    cases h
    refine ⟨fun key => ?_, fun hdistinct => ?_⟩
    · rw [Sorting.mem_sortBy, List.mem_filter, List.isPrefixOf_iff_prefix]
    · exact (Sorting.sortBy_perm _).nodup_iff.mpr (hdistinct.filter _)

theorem listKeys_up (hup : store.Up) (pre : String) : ∃ keys, store.listKeys pre = .ok keys := by
  unfold listKeys
  rw [hup pre, if_neg (by decide)]
  exact ⟨_, rfl⟩

end ObjectStore

/-- The locations that keys under a group's prefix parse to are as distinct as the keys. -/
theorem parse_nodup {keys : List String} (hnodup : keys.Nodup)
    (hpre : ∀ key ∈ keys, (dataGroupPrefix keyPrefix account logGroup).toList <+: key.toList) :
    (keys.filterMap (ChunkLocation.parseDataKey keyPrefix)).Nodup := by
  induction keys with
  | nil => exact List.nodup_nil
  | cons key keys ih =>
    obtain ⟨hnew, hnodup⟩ := List.nodup_cons.mp hnodup
    have htail := ih hnodup fun key hkey => hpre key (List.mem_cons_of_mem _ hkey)
    rw [List.filterMap_cons]
    split
    next => exact htail
    next loc hloc =>
      refine List.nodup_cons.mpr ⟨fun hmem => hnew ?_, htail⟩
      obtain ⟨key', hkey', hloc'⟩ := List.mem_filterMap.mp hmem
      have h₁ := ChunkLocation.of_parseDataKey (hpre key List.mem_cons_self) hloc
      have h₂ := ChunkLocation.of_parseDataKey (hpre key' (List.mem_cons_of_mem _ hkey')) hloc'
      rwa [← h₁.2.2, h₂.2.2]

/-- A key under the prefix of a day of the group, that parses, has this date; and a key of
the group with this date is under it. -/
theorem datePrefix_iff {key date : String} {loc : ChunkLocation}
    (hdate : '/' ∉ date.toList)
    (hloc : ChunkLocation.parseDataKey keyPrefix key = some loc) :
    (dataGroupPrefix keyPrefix account logGroup ++ "dt=" ++ date ++ "/").toList <+: key.toList ↔
      (dataGroupPrefix keyPrefix account logGroup).toList <+: key.toList ∧ loc.date = date := by
  have hshape : ∀ t, (dataGroupPrefix keyPrefix account logGroup ++ "dt=" ++ date ++ "/").toList ++ t =
      (dataGroupPrefix keyPrefix account logGroup).toList ++
        (("dt=".toList ++ date.toList) ++ '/' :: t) := by
    intro t
    simp only [String.toList_append, List.append_assoc]
    rfl
  have hsegment : '/' ∉ "dt=".toList ++ date.toList := by
    intro hmem
    rcases List.mem_append.mp hmem with hmem | hmem
    · exact absurd hmem (by decide)
    · exact hdate hmem
  constructor
  · rintro ⟨t, ht⟩
    rw [hshape] at ht
    obtain ⟨-, -, hsplit⟩ := ChunkLocation.split_of_parseDataKey ht hloc
    rw [List.splitOn_append_cons_self_of_not_mem hsegment] at hsplit
    have hhead := (List.cons.inj hsplit).1
    exact ⟨⟨_, ht⟩, (String.toList_inj.mp (List.append_cancel_left hhead)).symm⟩
  · rintro ⟨⟨t, ht⟩, rfl⟩
    obtain ⟨-, -, hsplit⟩ := ChunkLocation.split_of_parseDataKey ht hloc
    have htail : List.intercalate ['/'] (t.splitOn '/') = t := List.intercalate_splitOn '/'
    rw [hsplit] at htail
    refine ⟨loc.name.toList ++ dataSuffix.toList, ?_⟩
    rw [hshape, ← ht, ← htail]
    simp only [List.intercalate, List.intersperse, List.flatten_cons, List.flatten_nil,
      List.append_nil, List.append_assoc, List.nil_append, List.cons_append]

/-- The listings of some days give the locations of the group with these dates. -/
theorem listDates_ok {dates : List String} {locs : List ChunkLocation}
    (hdates : ∀ date ∈ dates, '/' ∉ date.toList)
    (h : listDates store account logGroup dates = .ok locs) :
    (∀ loc, loc ∈ locs ↔ store.Holds account logGroup loc ∧ loc.date ∈ dates) ∧
      (store.Distinct → dates.Nodup → locs.Nodup) := by
  induction dates generalizing locs with
  | nil =>
    cases h
    refine ⟨fun loc => ?_, fun _ _ => List.nodup_nil⟩
    exact ⟨fun h => absurd h List.not_mem_nil, fun h => absurd h.2 List.not_mem_nil⟩
  | cons date dates ih =>
    unfold listDates at h
    split at h
    next => cases h
    next keys hkeys =>
      cases hrest : listDates store account logGroup dates with
      | error e => simp only [hrest, Except.map, reduceCtorEq] at h
      | ok rest =>
        simp only [hrest, Except.map, Except.ok.injEq] at h
        subst h
        obtain ⟨hmem, hnodup⟩ := ObjectStore.listKeys_ok hkeys
        obtain ⟨hmemRest, hnodupRest⟩ :=
          ih (fun date hd => hdates date (List.mem_cons_of_mem _ hd)) hrest
        have hslash := hdates date List.mem_cons_self
        have hfirst : ∀ loc, loc ∈ keys.filterMap (ChunkLocation.parseDataKey store.keyPrefix) ↔
            store.Holds account logGroup loc ∧ loc.date = date := by
          intro loc
          rw [List.mem_filterMap]
          constructor
          · rintro ⟨key, hkey, hloc⟩
            obtain ⟨hstored, hpre⟩ := (hmem key).mp hkey
            obtain ⟨hgroup, hdate⟩ := (datePrefix_iff hslash hloc).mp hpre
            exact ⟨⟨key, hstored, hgroup, hloc⟩, hdate⟩
          · rintro ⟨⟨key, hstored, hgroup, hloc⟩, hdate⟩
            exact ⟨key, (hmem key).mpr ⟨hstored, (datePrefix_iff hslash hloc).mpr
              ⟨hgroup, hdate⟩⟩, hloc⟩
        refine ⟨fun loc => ?_, fun hdistinct hdates' => ?_⟩
        · rw [List.mem_append, hfirst, hmemRest, ← and_or_left, List.mem_cons]
        · obtain ⟨hnew, hdates'⟩ := List.nodup_cons.mp hdates'
          have hpre : ∀ key ∈ keys,
              (dataGroupPrefix store.keyPrefix account logGroup).toList <+: key.toList := by
            intro key hkey
            obtain ⟨t, ht⟩ := ((hmem key).mp hkey).2
            rw [String.toList_append, String.toList_append, String.toList_append,
              List.append_assoc, List.append_assoc, List.append_assoc] at ht
            exact ⟨_, ht⟩
          refine List.nodup_append.mpr ⟨parse_nodup (hnodup hdistinct) hpre,
            hnodupRest hdistinct hdates', fun loc hloc loc' hloc' heq => ?_⟩
          · subst heq
            exact hnew (((hfirst loc).mp hloc).2 ▸ ((hmemRest loc).mp hloc').2)

theorem listDates_up (hup : store.Up) (account logGroup : String) (dates : List String) :
    ∃ locs, listDates store account logGroup dates = .ok locs := by
  induction dates with
  | nil => exact ⟨[], rfl⟩
  | cons date dates ih =>
    obtain ⟨locs, hlocs⟩ := ih
    obtain ⟨keys, hkeys⟩ := ObjectStore.listKeys_up hup
      (dataGroupPrefix store.keyPrefix account logGroup ++ "dt=" ++ date ++ "/")
    exact ⟨_, by rw [listDates, hkeys, hlocs]; rfl⟩

/-- The one listing gives the locations of the group. -/
theorem listChunks_ok {locs : List ChunkLocation}
    (h : store.listChunks account logGroup = .ok locs) :
    (∀ loc, loc ∈ locs ↔ store.Holds account logGroup loc) ∧ (store.Distinct → locs.Nodup) := by
  unfold ObjectStore.listChunks at h
  cases hkeys : store.listKeys (dataGroupPrefix store.keyPrefix account logGroup) with
  | error e => simp only [hkeys, Except.map, reduceCtorEq] at h
  | ok keys =>
    simp only [hkeys, Except.map, Except.ok.injEq] at h
    subst h
    obtain ⟨hmem, hnodup⟩ := ObjectStore.listKeys_ok hkeys
    refine ⟨fun loc => ?_, fun hdistinct => ?_⟩
    · rw [List.mem_filterMap]
      constructor
      · rintro ⟨key, hkey, hloc⟩
        obtain ⟨hstored, hpre⟩ := (hmem key).mp hkey
        exact ⟨key, hstored, hpre, hloc⟩
      · rintro ⟨key, hstored, hpre, hloc⟩
        exact ⟨key, (hmem key).mpr ⟨hstored, hpre⟩, hloc⟩
    · exact parse_nodup (hnodup hdistinct) fun key hkey => ((hmem key).mp hkey).2

theorem slash_notMem_datesInRange {fromMs toMs : Int} :
    ∀ date ∈ datesInRange fromMs toMs, '/' ∉ date.toList := by
  intro date hdate
  unfold datesInRange at hdate
  split at hdate
  · exact absurd hdate List.not_mem_nil
  · obtain ⟨i, -, rfl⟩ := List.mem_map.mp hdate
    exact slash_notMem_date _

/-- Where no label repeats, a scan lists the locations of the group with a date of the
range, each once, whichever way it lists them. -/
theorem listRangeChunks_ok (hup : store.Up) (hdistinct : store.Distinct) {range : TimeRange}
    (hnodup : (datesInRange range.fromMs range.toMsExclusive).Nodup) :
    ∃ locs, listRangeChunks store account logGroup range = .ok locs ∧ locs.Nodup ∧
      ∀ loc, loc ∈ locs ↔ store.Holds account logGroup loc ∧
        loc.date ∈ datesInRange range.fromMs range.toMsExclusive := by
  unfold listRangeChunks
  dsimp only
  split
  next =>
    obtain ⟨locs, hlocs⟩ := listDates_up hup account logGroup
      (datesInRange range.fromMs range.toMsExclusive)
    obtain ⟨hmem, hnodup'⟩ := listDates_ok slash_notMem_datesInRange hlocs
    rw [hlocs]
    refine ⟨_, rfl, (Sorting.sortBy_perm _).nodup_iff.mpr (hnodup' hdistinct hnodup), fun loc => ?_⟩
    rw [Sorting.mem_sortBy, hmem]
  next =>
    obtain ⟨keys, hkeys⟩ := ObjectStore.listKeys_up hup
      (dataGroupPrefix store.keyPrefix account logGroup)
    have hlist : store.listChunks account logGroup =
        .ok (keys.filterMap (ChunkLocation.parseDataKey store.keyPrefix)) := by
      rw [ObjectStore.listChunks, hkeys]
      rfl
    obtain ⟨hmem, hnodup'⟩ := listChunks_ok hlist
    rw [hlist]
    refine ⟨_, rfl, (Sorting.sortBy_perm _).nodup_iff.mpr ((hnodup' hdistinct).filter _),
      fun loc => ?_⟩
    rw [Sorting.mem_sortBy, List.mem_filter, hmem, List.contains_iff_mem]

/-- The labels of a range are those of its timestamps, each once, and the listings of its
days give each object once. -/
def PartitionsOnce (fromMs toMs : Int) : Prop :=
  ListedOnce fromMs toMs ∧ ∀ (store : ObjectStore) (account logGroup : String)
    (locs : List ChunkLocation), store.Distinct →
      listDates store account logGroup (datesInRange fromMs toMs) = .ok locs → locs.Nodup

/-- Partitions are listed once just where the range has one day at most of those with the
label of the epoch. -/
theorem partitions_once_iff (fromMs toMs : Int) (h : fromMs < toMs) :
    PartitionsOnce fromMs toMs ↔ EpochOnce fromMs toMs := by
  constructor
  · rintro ⟨honce, -⟩
    exact (listedOnce_iff h).mp honce
  · intro honce
    refine ⟨(listedOnce_iff h).mpr honce, fun store account logGroup locs hdistinct hlist => ?_⟩
    exact (listDates_ok slash_notMem_datesInRange hlist).2 hdistinct (honce.nodup h)

/-- The last milliseconds before the epoch and the first of it. -/
theorem partitions_once_epoch : PartitionsOnce (-1) 1 := by
  refine (partitions_once_iff (-1) 1 (by decide)).mpr fun t t' hlo hhi _ _ hrep _ => ?_
  refine absurd ?_ hrep
  unfold Representable chronoMinMs chronoMaxMs
  omega

/-- A range in a future that `chrono` does not represent has one label for its days. -/
theorem future_label_repeats :
    (datesInRange 9000000000000000 9000000200000000).count (dateFromTsMs 9000000000000000) = 3 ∧
      ¬ ∀ fromMs toMs : Int, i64Min ≤ fromMs → fromMs < toMs → toMs ≤ i64Max →
        ListedOnce fromMs toMs := by
  have hcount : (datesInRange 9000000000000000 9000000200000000).count
      (dateFromTsMs 9000000000000000) = 3 := by decide +kernel
  refine ⟨hcount, fun h => ?_⟩
  have hone := (h 9000000000000000 9000000200000000 (by decide) (by decide) (by decide)).1
    9000000000000000 (by decide) (by decide)
  rw [hcount] at hone
  exact absurd hone (by decide)

end S4Logs
