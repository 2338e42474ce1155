import S4Logs.Core.Layout

/-!
# Keys tell what they name apart

A data key ends in the name of its object, and no sidecar lies at a data key.
-/

namespace S4Logs

theorem toList_toString {n : Int} (h : 0 ≤ n) : (toString n).toList = Nat.toDigits 10 n.toNat := by
  have hrepr : toString n = n.toNat.repr := by
    show Int.repr n = _
    rw [Int.repr_eq_if, if_pos h]
  rw [hrepr, Nat.toList_repr]

/-- The text of a number has a minus and digits, and nothing else. -/
theorem notMem_toString {c : Char} (hc : c.isDigit = false) (hminus : c ≠ '-') (n : Int) :
    c ∉ (toString n).toList := by
  have hrepr : toString n = if 0 ≤ n then n.toNat.repr else "-" ++ (-n).toNat.repr :=
    Int.repr_eq_if
  rw [hrepr]
  split
  · rw [Nat.toList_repr]
    exact Text.notMem_toDigits hc _
  · rw [String.toList_append, Nat.toList_repr]
    intro hmem
    rcases List.mem_append.mp hmem with hmem | hmem
    · exact hminus (List.mem_singleton.mp hmem)
    · exact Text.notMem_toDigits hc _ hmem

theorem toList_manifestKey (keyPrefix account logGroup : String) {s e : Int} (hs : 0 ≤ s)
    (he : 0 ≤ e) :
    (manifestKey keyPrefix account logGroup s e).toList =
      ((normPrefix keyPrefix).toList ++ manifestSeg.toList ++ "/account=".toList ++
        account.toList ++ "/loggroup=".toList ++ (sanitizeLogGroup logGroup).toList ++
        "/window=".toList) ++
      (Nat.toDigits 10 s.toNat ++ '-' :: (Nat.toDigits 10 e.toNat ++ ".json".toList)) := by
  simp only [manifestKey, String.toList_append, toList_toString hs, toList_toString he,
    List.append_assoc]
  rfl

/-- A name without a slash is what the data key ends in. -/
theorem lastSegment_dataKey (loc : ChunkLocation) (keyPrefix : String)
    (hname : '/' ∉ loc.name.toList) :
    Text.lastSegment '/' (loc.dataKey keyPrefix).toList =
      loc.name.toList ++ dataSuffix.toList := by
  have hsuffix : '/' ∉ loc.name.toList ++ dataSuffix.toList := by
    intro hmem
    rcases List.mem_append.mp hmem with hmem | hmem
    · exact hname hmem
    · exact absurd hmem (by decide)
  have hkey : (loc.dataKey keyPrefix).toList =
      ((normPrefix keyPrefix).toList ++ dataSeg.toList ++ "/".toList ++ "account=".toList ++
        loc.account.toList ++ "/loggroup=".toList ++ (sanitizeLogGroup loc.logGroup).toList ++
        "/dt=".toList ++ loc.date.toList) ++ '/' :: (loc.name.toList ++ dataSuffix.toList) := by
    simp only [ChunkLocation.dataKey, ChunkLocation.tail, String.toList_append,
      List.append_assoc]
    rfl
  rw [hkey, Text.lastSegment_append hsuffix]

/-- Data keys under one prefix tell names apart. -/
theorem dataKey_name {loc loc' : ChunkLocation} {keyPrefix : String}
    (hname : '/' ∉ loc.name.toList) (hname' : '/' ∉ loc'.name.toList)
    (h : loc.dataKey keyPrefix = loc'.dataKey keyPrefix) : loc.name = loc'.name := by
  have hseg := congrArg (fun k => Text.lastSegment '/' k.toList) h
  simp only [lastSegment_dataKey _ keyPrefix hname, lastSegment_dataKey _ keyPrefix hname'] at hseg
  exact String.toList_inj.mp (List.append_cancel_right hseg)

/-- No sidecar lies at a data key. -/
theorem dataKey_ne_sidecar (loc loc' : ChunkLocation) (keyPrefix : String) :
    loc.dataKey keyPrefix ≠ loc'.indexKey keyPrefix ∧
      loc.dataKey keyPrefix ≠ loc'.tsIndexKey keyPrefix := by
  have key : ∀ rest, loc.dataKey keyPrefix ≠ normPrefix keyPrefix ++ indexSeg ++ rest := by
    intro rest h
    have hlist := congrArg String.toList h
    simp only [ChunkLocation.dataKey, String.toList_append, List.append_assoc] at hlist
    have hseg := List.append_cancel_left hlist
    exact absurd (List.cons.inj hseg).1 (by decide)
  refine ⟨fun h => key ("/" ++ loc'.tail ++ indexSidecarSuffix) ?_,
    fun h => key ("/" ++ loc'.tail ++ tsSidecarSuffix) ?_⟩
  · rw [h]
    simp only [ChunkLocation.indexKey, String.append_assoc]
  · rw [h]
    simp only [ChunkLocation.tsIndexKey, String.append_assoc]

theorem toList_tail (loc : ChunkLocation) : loc.tail.toList =
    ("account=".toList ++ (loc.account.toList ++ ("/loggroup=".toList ++
      ((sanitizeLogGroup loc.logGroup).toList ++ ("/dt=".toList ++ loc.date.toList))))) ++
      '/' :: (loc.name.toList ++ dataSuffix.toList) := by
  simp only [ChunkLocation.tail, String.toList_append, List.append_assoc]
  rfl

/-! ## The keys of a place -/

/-- The data object and the sidecars. -/
def ChunkLocation.keys (loc : ChunkLocation) (keyPrefix : String) : List String :=
  [loc.dataKey keyPrefix, loc.indexKey keyPrefix, loc.tsIndexKey keyPrefix]

theorem dataKey_inj {loc loc' : ChunkLocation} {keyPrefix : String}
    (h : loc.dataKey keyPrefix = loc'.dataKey keyPrefix) : loc.tail = loc'.tail := by
  have hlist := congrArg String.toList h
  simp only [ChunkLocation.dataKey, String.toList_append] at hlist
  exact String.toList_inj.mp (List.append_cancel_left hlist)

theorem dataKey_congr {loc loc' : ChunkLocation} (keyPrefix : String) (h : loc.tail = loc'.tail) :
    loc.dataKey keyPrefix = loc'.dataKey keyPrefix := by
  rw [ChunkLocation.dataKey, ChunkLocation.dataKey, h]

theorem indexKey_inj {loc loc' : ChunkLocation} {keyPrefix : String}
    (h : loc.indexKey keyPrefix = loc'.indexKey keyPrefix) : loc.tail = loc'.tail := by
  have hlist := congrArg String.toList h
  simp only [ChunkLocation.indexKey, String.toList_append] at hlist
  exact String.toList_inj.mp (List.append_cancel_left (List.append_cancel_right hlist))

theorem tsIndexKey_inj {loc loc' : ChunkLocation} {keyPrefix : String}
    (h : loc.tsIndexKey keyPrefix = loc'.tsIndexKey keyPrefix) : loc.tail = loc'.tail := by
  have hlist := congrArg String.toList h
  simp only [ChunkLocation.tsIndexKey, String.toList_append] at hlist
  exact String.toList_inj.mp (List.append_cancel_left (List.append_cancel_right hlist))

/-- The two sidecars end in different letters. -/
theorem indexKey_ne_tsIndexKey (loc loc' : ChunkLocation) (keyPrefix : String) :
    loc.indexKey keyPrefix ≠ loc'.tsIndexKey keyPrefix := by
  intro h
  have hlast := congrArg (fun key => key.toList.getLast?) h
  have hindex : indexSidecarSuffix.toList = ['.', 's', '4', 'i', 'n', 'd', 'e'] ++ ['x'] := rfl
  have hts : tsSidecarSuffix.toList = ['.', 's', '4', 'l', 't'] ++ ['s'] := rfl
  simp only [ChunkLocation.indexKey, ChunkLocation.tsIndexKey, String.toList_append, hindex, hts,
    ← List.append_assoc, List.getLast?_append, List.getLast?_singleton, Option.some_or] at hlast
  exact absurd hlast (by decide)

/-- The keys of places that are apart are apart. -/
theorem keys_apart {loc loc' : ChunkLocation} {keyPrefix key : String} (h : loc.tail ≠ loc'.tail)
    (hkey : key ∈ loc.keys keyPrefix) : key ∉ loc'.keys keyPrefix := by
  intro hkey'
  simp only [ChunkLocation.keys, List.mem_cons, List.not_mem_nil, or_false] at hkey hkey'
  rcases hkey with rfl | rfl | rfl
  · rcases hkey' with heq | heq | heq
    · exact h (dataKey_inj heq)
    · exact (dataKey_ne_sidecar loc loc' keyPrefix).1 heq
    · exact (dataKey_ne_sidecar loc loc' keyPrefix).2 heq
  · rcases hkey' with heq | heq | heq
    · exact (dataKey_ne_sidecar loc' loc keyPrefix).1 heq.symm
    · exact h (indexKey_inj heq)
    · exact indexKey_ne_tsIndexKey loc loc' keyPrefix heq
  · rcases hkey' with heq | heq | heq
    · exact (dataKey_ne_sidecar loc' loc keyPrefix).2 heq.symm
    · exact indexKey_ne_tsIndexKey loc' loc keyPrefix heq.symm
    · exact h (tsIndexKey_inj heq)

end S4Logs
