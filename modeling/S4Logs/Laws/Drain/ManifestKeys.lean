import S4Logs.Drain.Manifest
import S4Logs.Laws.Core.Keys

/-!
# Manifest keys read back

A manifest key is taken apart from both ends: the window stands behind the last slash, and
the log group in the first segment that names one. The first such segment is the key's own
unless the prefix has one, so the log group is read back exactly where no segment of the
prefix names another.
-/

namespace S4Logs

/-! ## Segments -/

theorem normPrefix_ended (keyPrefix : String) :
    (normPrefix keyPrefix).toList = [] ∨
      ∃ trimmed, (normPrefix keyPrefix).toList = trimmed ++ ['/'] := by
  unfold normPrefix
  dsimp only
  split
  · exact .inl rfl
  · refine .inr ⟨Text.trimMatches '/' keyPrefix.toList, ?_⟩
    rw [String.toList_append, String.toList_ofList]
    rfl

/-- The segments of a key are those of its prefix and those that come after. -/
theorem logGroupSegment_prefix (keyPrefix : String) (rest : List Char) :
    logGroupSegment ((normPrefix keyPrefix).toList ++ rest) =
      (logGroupSegment (normPrefix keyPrefix).toList).or (logGroupSegment rest) := by
  have hempty : (([] : List Char).splitOn '/').findSome? (Text.stripPrefix "loggroup=".toList) =
      none := by
    rw [List.splitOn_nil]
    rfl
  unfold logGroupSegment
  rcases normPrefix_ended keyPrefix with hnil | ⟨trimmed, htrimmed⟩
  · rw [hnil, List.nil_append, hempty, Option.none_or]
  · rw [htrimmed, List.append_assoc, List.singleton_append, List.splitOn_append_cons_self,
      List.splitOn_append_cons_self, List.findSome?_append, List.findSome?_append, hempty,
      Option.or_none]

/-- What a manifest key has after its prefix. -/
theorem toList_manifestKey_segments (keyPrefix account logGroup : String) (s e : Int) :
    (manifestKey keyPrefix account logGroup s e).toList =
      (normPrefix keyPrefix).toList ++ (manifestSeg.toList ++ '/' ::
        (("account=".toList ++ account.toList) ++ '/' ::
          (("loggroup=".toList ++ (sanitizeLogGroup logGroup).toList) ++ '/' ::
            ("window=".toList ++ (toString s).toList ++ '-' ::
              ((toString e).toList ++ ".json".toList))))) := by
  simp only [manifestKey, String.toList_append, List.append_assoc]
  rfl

theorem stripPrefix_of_head {pre cs : List Char} {c d : Char} (hne : c ≠ d) :
    Text.stripPrefix (c :: pre) (d :: cs) = none := by
  unfold Text.stripPrefix
  rw [if_neg]
  rintro ⟨t, ht⟩
  exact hne (List.cons.inj ht).1

theorem slash_notMem_accountSegment {account : String} (hacc : '/' ∉ account.toList) :
    '/' ∉ "account=".toList ++ account.toList := by
  intro h
  rcases List.mem_append.mp h with h | h
  · exact absurd h (by decide)
  · exact hacc h

/-- The first segment of a manifest key that names a log group. -/
theorem logGroupSegment_manifestKey {keyPrefix account logGroup : String} {s e : Int}
    (hacc : '/' ∉ account.toList) :
    logGroupSegment (manifestKey keyPrefix account logGroup s e).toList =
      (logGroupSegment (normPrefix keyPrefix).toList).or
        (some (sanitizeLogGroup logGroup).toList) := by
  have haccount := slash_notMem_accountSegment hacc
  rw [toList_manifestKey_segments, logGroupSegment_prefix]
  congr 1
  unfold logGroupSegment
  rw [List.splitOn_append_cons_self_of_not_mem (by decide),
    List.splitOn_append_cons_self_of_not_mem haccount,
    List.splitOn_append_cons_self_of_not_mem (slash_notMem_loggroup logGroup),
    List.findSome?_cons_of_isNone, List.findSome?_cons_of_isNone, List.findSome?_cons,
    Text.stripPrefix_append]
  · exact Option.isNone_iff_eq_none.mpr (stripPrefix_of_head (by decide))
  · rfl

/-- The log group of a manifest key is read back exactly where the first segment of the
prefix that names a log group, if there is one, names this one. -/
theorem parseManifestKeyLogGroup_manifestKey {keyPrefix account logGroup : String} {s e : Int}
    (hacc : '/' ∉ account.toList) :
    parseManifestKeyLogGroup (manifestKey keyPrefix account logGroup s e) = some logGroup ↔
      ∀ seg, logGroupSegment (normPrefix keyPrefix).toList = some seg →
        unsanitizeLogGroup (String.ofList seg) = some logGroup := by
  unfold parseManifestKeyLogGroup
  rw [logGroupSegment_manifestKey hacc]
  cases logGroupSegment (normPrefix keyPrefix).toList with
  | none =>
    rw [Option.none_or, Option.bind_some, String.ofList_toList]
    exact ⟨nofun, fun _ => unsanitize_sanitize logGroup⟩
  | some seg =>
    rw [Option.some_or, Option.bind_some]
    exact ⟨fun h _ hseg => Option.some.inj hseg ▸ h, fun h => h seg rfl⟩

/-- The window of a manifest key is read back. -/
theorem parseManifestKeyWindow_manifestKey (keyPrefix account logGroup : String) {s e : Int}
    (hs : 0 ≤ s ∧ s ≤ i64Max) (he : 0 ≤ e ∧ e ≤ i64Max) :
    parseManifestKeyWindow (manifestKey keyPrefix account logGroup s e) = some ⟨s, e⟩ := by
  have hlast : '/' ∉ "window=".toList ++ ((Nat.toDigits 10 s.toNat ++ '-' ::
      Nat.toDigits 10 e.toNat) ++ ".json".toList) := by
    rw [List.append_assoc, List.cons_append]
    exact slash_notMem_window _ _
  have hkey : (manifestKey keyPrefix account logGroup s e).toList =
      ((normPrefix keyPrefix).toList ++ manifestSeg.toList ++ "/account=".toList ++
        account.toList ++ "/loggroup=".toList ++ (sanitizeLogGroup logGroup).toList) ++
      '/' :: ("window=".toList ++ ((Nat.toDigits 10 s.toNat ++ '-' ::
        Nat.toDigits 10 e.toNat) ++ ".json".toList)) := by
    rw [toList_manifestKey _ _ _ hs.1 he.1]
    simp only [List.append_assoc]
    rfl
  have hread : ∀ n : Int, 0 ≤ n ∧ n ≤ i64Max →
      Text.parseSigned i64Min i64Max (Nat.toDigits 10 n.toNat) = some n := by
    intro n hn
    have hcast : (n.toNat : Int) = n := Int.toNat_of_nonneg hn.1
    rw [Text.parseSigned_toDigits (by unfold i64Min; omega) (by omega), hcast]
  unfold parseManifestKeyWindow
  rw [hkey, Text.lastSegment_append hlast, Text.stripPrefix_append, Option.bind_eq_bind,
    Option.bind_some, Text.stripSuffix_append, Option.bind_some,
    Text.splitOnce_append (Text.notMem_toDigits (by decide) _)]
  dsimp only [Option.bind_eq_bind, Option.bind_some]
  rw [hread s hs, hread e he]
  rfl

/-! ## Prefixes -/

/-- The prefix of an account starts its manifest keys and no others. -/
theorem manifestAccountPrefix_iff {keyPrefix account account' logGroup : String} {s e : Int}
    (hacc : '/' ∉ account.toList) (hacc' : '/' ∉ account'.toList) :
    (manifestAccountPrefix keyPrefix account).toList <+:
      (manifestKey keyPrefix account' logGroup s e).toList ↔ account' = account := by
  have hpre : (manifestAccountPrefix keyPrefix account).toList =
      (normPrefix keyPrefix).toList ++ (manifestSeg.toList ++ '/' ::
        (("account=".toList ++ account.toList) ++ '/' :: [])) := by
    simp only [manifestAccountPrefix, String.toList_append, List.append_assoc]
    rfl
  rw [hpre, toList_manifestKey_segments, List.prefix_append_right_inj,
    Text.append_cons_prefix '/' (by decide) (by decide),
    Text.append_cons_prefix '/' (slash_notMem_accountSegment hacc)
      (slash_notMem_accountSegment hacc')]
  constructor
  · rintro ⟨-, heq, -⟩
    exact String.toList_inj.mp (List.append_cancel_left heq).symm
  · rintro rfl
    exact ⟨rfl, rfl, List.nil_prefix⟩

/-- The prefix of a log group starts its manifest keys and no others. -/
theorem manifestGroupPrefix_iff {keyPrefix account account' logGroup logGroup' : String} {s e : Int}
    (hacc : '/' ∉ account.toList) (hacc' : '/' ∉ account'.toList) :
    (manifestGroupPrefix keyPrefix account logGroup).toList <+:
      (manifestKey keyPrefix account' logGroup' s e).toList ↔
        account' = account ∧ logGroup' = logGroup := by
  have hpre : (manifestGroupPrefix keyPrefix account logGroup).toList =
      (normPrefix keyPrefix).toList ++ (manifestSeg.toList ++ '/' ::
        (("account=".toList ++ account.toList) ++ '/' ::
          (("loggroup=".toList ++ (sanitizeLogGroup logGroup).toList) ++ '/' :: []))) := by
    simp only [manifestGroupPrefix, String.toList_append, List.append_assoc]
    rfl
  rw [hpre, toList_manifestKey_segments, List.prefix_append_right_inj,
    Text.append_cons_prefix '/' (by decide) (by decide),
    Text.append_cons_prefix '/' (slash_notMem_accountSegment hacc)
      (slash_notMem_accountSegment hacc'),
    Text.append_cons_prefix '/' (slash_notMem_loggroup logGroup) (slash_notMem_loggroup logGroup')]
  constructor
  · rintro ⟨-, heq, hgroup, -⟩
    refine ⟨String.toList_inj.mp (List.append_cancel_left heq).symm, ?_⟩
    exact sanitizeLogGroup_injective
      (String.toList_inj.mp (List.append_cancel_left hgroup).symm)
  · rintro ⟨rfl, rfl⟩
    exact ⟨rfl, rfl, rfl, List.nil_prefix⟩

/-! ## Keys that parse back -/

/-- The key of a window gives the window and the group back, and the prefixes of its group
and its account start exactly their own manifest keys. -/
structure ParsesBack (keyPrefix account logGroup : String) (s e : Int) : Prop where
  window : parseManifestKeyWindow (manifestKey keyPrefix account logGroup s e) = some ⟨s, e⟩
  group : parseManifestKeyLogGroup (manifestKey keyPrefix account logGroup s e) = some logGroup
  groupPrefix : ∀ (account' logGroup' : String) (s' e' : Int), '/' ∉ account'.toList →
    ((manifestGroupPrefix keyPrefix account logGroup).toList <+:
      (manifestKey keyPrefix account' logGroup' s' e').toList ↔
        account' = account ∧ logGroup' = logGroup)
  accountPrefix : ∀ (account' logGroup' : String) (s' e' : Int), '/' ∉ account'.toList →
    ((manifestAccountPrefix keyPrefix account).toList <+:
      (manifestKey keyPrefix account' logGroup' s' e').toList ↔ account' = account)

/-- A manifest key parses back exactly where the first segment of the prefix that names a
log group, if there is one, names this one. -/
theorem manifestKey_parsesBack_iff {keyPrefix account logGroup : String} {s e : Int}
    (hacc : '/' ∉ account.toList) (hs : 0 ≤ s ∧ s ≤ i64Max) (he : 0 ≤ e ∧ e ≤ i64Max) :
    ParsesBack keyPrefix account logGroup s e ↔
      ∀ seg, logGroupSegment (normPrefix keyPrefix).toList = some seg →
        unsanitizeLogGroup (String.ofList seg) = some logGroup := by
  rw [← parseManifestKeyLogGroup_manifestKey (s := s) (e := e) hacc]
  exact ⟨fun h => h.group, fun h =>
    ⟨parseManifestKeyWindow_manifestKey keyPrefix account logGroup hs he, h,
      fun _ _ _ _ => manifestGroupPrefix_iff hacc, fun _ _ _ _ => manifestAccountPrefix_iff hacc⟩⟩

/-- The key of a group under a plain prefix. -/
theorem manifestKey_parsesBack_payments :
    ParsesBack "s4logs" "123456789012" "/aws/payments" 3600000 7200000 :=
  (manifestKey_parsesBack_iff (by decide) (by decide) (by decide)).mpr fun seg hseg => by
    have hnone : logGroupSegment (normPrefix "s4logs").toList = none := by decide
    rw [hnone] at hseg
    cases hseg

/-- Under a prefix that names a log group, the key of another group gives the prefix's. -/
theorem manifestKey_misread :
    ¬ ∀ (keyPrefix account logGroup : String) (s e : Int), '/' ∉ account.toList →
      0 ≤ s ∧ s ≤ i64Max → 0 ≤ e ∧ e ≤ i64Max → ParsesBack keyPrefix account logGroup s e := by
  intro h
  have hback := (h "logs/loggroup=old" "1" "new" 0 1 (by decide) (by decide) (by decide)).group
  rw [parseManifestKeyLogGroup_manifestKey (by decide)] at hback
  exact absurd (hback "old".toList (by decide)) (by decide)

end S4Logs
