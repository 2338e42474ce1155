import S4Logs.Laws.Core.Layout

/-!
# Keys are read back

A sanitized log group is plain text without a slash and stands for one group. So the
segments of a data key are what it was made of: parsing gives the location back, and
a key that starts with a group's prefix is of that group.
-/

namespace S4Logs

/-! ## Log groups -/

/-- The octet of a plain character. -/
def plainOctet (c : Char) : UInt8 := UInt8.ofNat c.toNat

/-- The octets of plain text are its characters. -/
theorem ofString_ofList {cs : List Char} (h : ∀ c ∈ cs, c.toNat < 128) :
    Bytes.ofString (String.ofList cs) = cs.map plainOctet := by
  have hchar : ∀ c ∈ cs, String.utf8EncodeChar c = [plainOctet c] := by
    intro c hc
    have hsize : c.utf8Size = 1 := by
      rw [Char.utf8Size_eq_one_iff, UInt32.le_iff_toNat_le]
      exact Nat.le_of_lt_succ (h c hc)
    rw [String.utf8EncodeChar_eq_singleton hsize]
    refine congrArg (fun b => [b]) (UInt8.toNat_inj.mp ?_)
    rw [UInt32.toNat_toUInt8, plainOctet, UInt8.toNat_ofNat']
    rfl
  show (cs.flatMap String.utf8EncodeChar).toByteArray.data.toList = _
  rw [List.toList_data_toByteArray]
  induction cs with
  | nil => rfl
  | cons c cs ih =>
    rw [List.flatMap_cons, List.map_cons, hchar c List.mem_cons_self, List.singleton_append,
      ih (fun c hc => h c (List.mem_cons_of_mem _ hc))
        (fun c hc => hchar c (List.mem_cons_of_mem _ hc))]

/-- What an octet is sanitized to. -/
def sanitizeByte (b : UInt8) : List Char :=
  if keptInLogGroup b then [Char.ofNat b.toNat]
  else ['%', upperHexDigit (b.toNat / 16), upperHexDigit (b.toNat % 16)]

theorem toList_sanitizeLogGroup (group : String) :
    (sanitizeLogGroup group).toList = (Bytes.ofString group).flatMap sanitizeByte :=
  String.toList_ofList

/-- A character of `[A-Za-z0-9_.%-]`. -/
def isSanitized (c : Char) : Bool := c.isAlphanum || c == '_' || c == '.' || c == '%' || c == '-'

theorem sanitizeByte_chars : ∀ n < 256, (sanitizeByte (UInt8.ofNat n)).all
    (fun c => decide (isSanitized c = true ∧ c.toNat < 128 ∧ c ≠ '/')) = true :=
  Bytes.forall_octet (by decide +kernel)

theorem sanitizeLogGroup_chars {group : String} {c : Char}
    (h : c ∈ (sanitizeLogGroup group).toList) :
    isSanitized c = true ∧ c.toNat < 128 ∧ c ≠ '/' := by
  rw [toList_sanitizeLogGroup] at h
  obtain ⟨b, -, hc⟩ := List.mem_flatMap.mp h
  have hb := sanitizeByte_chars b.toNat b.toNat_lt
  rw [UInt8.ofNat_toNat] at hb
  exact decide_eq_true_iff.mp (List.all_eq_true.mp hb c hc)

theorem slash_notMem_sanitizeLogGroup (group : String) :
    '/' ∉ (sanitizeLogGroup group).toList :=
  fun h => (sanitizeLogGroup_chars h).2.2 rfl

/-- The two digits of an escape stand for the octet, and a kept octet is no percent sign. -/
theorem sanitizeByte_octets : ∀ n < 256,
    (keptInLogGroup (UInt8.ofNat n) = true →
      plainOctet (Char.ofNat n) = UInt8.ofNat n ∧ UInt8.ofNat n ≠ 37) ∧
    hexDigitValue (plainOctet (upperHexDigit (n / 16))) = some (n / 16) ∧
    hexDigitValue (plainOctet (upperHexDigit (n % 16))) = some (n % 16) :=
  Bytes.forall_octet (by decide +kernel)

theorem percentDecode_sanitizeByte (b : UInt8) (rest : Bytes) :
    percentDecode ((sanitizeByte b).map plainOctet ++ rest) =
      (percentDecode rest).map (b :: ·) := by
  obtain ⟨hkept, hhi, hlo⟩ := sanitizeByte_octets b.toNat b.toNat_lt
  rw [UInt8.ofNat_toNat] at hkept
  unfold sanitizeByte
  by_cases hb : keptInLogGroup b = true
  · obtain ⟨hoctet, hne⟩ := hkept hb
    rw [if_pos hb, List.map_singleton, List.singleton_append, hoctet, percentDecode.eq_def]
    simp only [if_neg hne]
  · have hpercent : plainOctet '%' = 37 := by decide
    have hvalue : b.toNat / 16 * 16 + b.toNat % 16 = b.toNat := Nat.div_add_mod' _ _
    rw [if_neg hb, percentDecode.eq_def]
    simp only [List.map_cons, List.map_nil, List.cons_append, List.nil_append, hpercent, if_true,
      hhi, hlo, Option.bind_eq_bind, Option.bind_some, hvalue, UInt8.ofNat_toNat]

theorem percentDecode_flatMap (bs : Bytes) :
    percentDecode ((bs.flatMap sanitizeByte).map plainOctet) = some bs := by
  induction bs with
  | nil => rfl
  | cons b bs ih =>
    rw [List.flatMap_cons, List.map_append, percentDecode_sanitizeByte, ih]
    rfl

/-- A log group is read back from its sanitized form. -/
theorem unsanitize_sanitize (group : String) :
    unsanitizeLogGroup (sanitizeLogGroup group) = some group := by
  have hplain : Bytes.ofString (sanitizeLogGroup group) =
      ((Bytes.ofString group).flatMap sanitizeByte).map plainOctet := by
    rw [← toList_sanitizeLogGroup, ← ofString_ofList, String.ofList_toList]
    exact fun c hc => (sanitizeLogGroup_chars hc).2.1
  rw [unsanitizeLogGroup, hplain, percentDecode_flatMap, Option.bind_some,
    Bytes.toString?_ofString]

theorem sanitizeLogGroup_injective {group group' : String}
    (h : sanitizeLogGroup group = sanitizeLogGroup group') : group = group' := by
  have hread := unsanitize_sanitize group
  rw [h, unsanitize_sanitize] at hread
  exact (Option.some.inj hread).symm

/-! ## Data keys -/

/-- No part of the location holds a slash, as no part of a written one does. -/
structure ChunkLocation.Plain (loc : ChunkLocation) : Prop where
  account : '/' ∉ loc.account.toList
  date : '/' ∉ loc.date.toList
  name : '/' ∉ loc.name.toList

/-- The segments of a data key after the prefix. -/
def ChunkLocation.segments (loc : ChunkLocation) : List (List Char) :=
  ["account=".toList ++ loc.account.toList,
    "loggroup=".toList ++ (sanitizeLogGroup loc.logGroup).toList,
    "dt=".toList ++ loc.date.toList, loc.name.toList ++ dataSuffix.toList]

/-- What every data key under a prefix starts with. -/
def dataRoot (keyPrefix : String) : List Char := (normPrefix keyPrefix ++ dataSeg ++ "/").toList

theorem toList_dataKey (loc : ChunkLocation) (keyPrefix : String) :
    (loc.dataKey keyPrefix).toList = dataRoot keyPrefix ++ ['/'].intercalate loc.segments := by
  simp only [ChunkLocation.dataKey, toList_tail, dataRoot, ChunkLocation.segments,
    String.toList_append, List.append_assoc, List.append_cancel_left_eq, List.intercalate,
    List.intersperse, List.flatten_cons, List.flatten_nil, List.append_nil]
  rfl

/-- What stands after a group's prefix stands after two segments. -/
theorem dataGroupPrefix_append (keyPrefix account logGroup : String) (t : List Char) :
    (dataGroupPrefix keyPrefix account logGroup).toList ++ t = dataRoot keyPrefix ++
      (("account=".toList ++ account.toList) ++
        '/' :: (("loggroup=".toList ++ (sanitizeLogGroup logGroup).toList) ++ '/' :: t)) := by
  simp only [dataGroupPrefix, dataRoot, String.toList_append, List.append_assoc,
    List.append_cancel_left_eq]
  rfl

theorem slash_notMem_loggroup (logGroup : String) :
    '/' ∉ "loggroup=".toList ++ (sanitizeLogGroup logGroup).toList := by
  intro h
  rcases List.mem_append.mp h with h | h
  · exact absurd h (by decide)
  · exact slash_notMem_sanitizeLogGroup logGroup h

theorem slash_notMem_window (a b : Nat) : '/' ∉ "window=".toList ++
    (Nat.toDigits 10 a ++ '-' :: (Nat.toDigits 10 b ++ ".json".toList)) := by
  intro hmem
  simp only [List.mem_append, List.mem_cons] at hmem
  rcases hmem with hmem | hmem | hmem | hmem | hmem
  · exact absurd hmem (by decide)
  · exact Text.notMem_toDigits (by decide) _ hmem
  · exact absurd hmem (by decide)
  · exact Text.notMem_toDigits (by decide) _ hmem
  · exact absurd hmem (by decide)

namespace ChunkLocation

variable {loc loc' : ChunkLocation} {keyPrefix : String}

theorem Plain.segments (h : loc.Plain) : ∀ seg ∈ loc.segments, '/' ∉ seg := by
  intro seg hseg hmem
  simp only [ChunkLocation.segments, List.mem_cons, List.not_mem_nil, or_false] at hseg
  rcases hseg with rfl | rfl | rfl | rfl
  · rcases List.mem_append.mp hmem with hmem | hmem
    · exact absurd hmem (by decide)
    · exact h.account hmem
  · exact slash_notMem_loggroup loc.logGroup hmem
  · rcases List.mem_append.mp hmem with hmem | hmem
    · exact absurd hmem (by decide)
    · exact h.date hmem
  · rcases List.mem_append.mp hmem with hmem | hmem
    · exact h.name hmem
    · exact absurd hmem (by decide)

/-- The segments are read off the key. -/
theorem Plain.splitOn (h : loc.Plain) :
    (['/'].intercalate loc.segments).splitOn '/' = loc.segments :=
  List.splitOn_intercalate '/' h.segments (List.cons_ne_nil _ _)

/-- A location is read back from its data key. -/
theorem parseDataKey_dataKey (h : loc.Plain) :
    parseDataKey keyPrefix (loc.dataKey keyPrefix) = some loc := by
  unfold parseDataKey
  rw [toList_dataKey]
  change (Text.stripPrefix (dataRoot keyPrefix) _).bind _ = _
  rw [Text.stripPrefix_append, Option.bind_some, h.splitOn]
  simp only [ChunkLocation.segments, Text.stripPrefix_append, Text.stripSuffix_append,
    Option.bind_eq_bind, Option.bind_some, String.ofList_toList, unsanitize_sanitize]

/-- No key under the prefix of an account with a slash parses. -/
theorem slash_notMem_account {account logGroup key : String} {t : List Char}
    (hkey : (dataGroupPrefix keyPrefix account logGroup).toList ++ t = key.toList)
    (h : parseDataKey keyPrefix key = some loc) : '/' ∉ account.toList := by
  intro hslash
  obtain ⟨x, y, haccount, hx⟩ := List.eq_append_cons_of_mem hslash
  have hfirst : '/' ∉ "account=".toList ++ x := by
    intro hmem
    rcases List.mem_append.mp hmem with hmem | hmem
    · exact absurd hmem (by decide)
    · exact hx hmem
  rw [dataGroupPrefix_append, haccount, ← List.append_assoc "account=".toList, List.append_assoc _ _
    ('/' :: _), List.cons_append] at hkey
  unfold parseDataKey at h
  rw [← hkey] at h
  change (Text.stripPrefix (dataRoot keyPrefix) _).bind _ = _ at h
  rw [Text.stripPrefix_append, Option.bind_some, List.splitOn_append_cons_self_of_not_mem hfirst,
    List.splitOn_append_cons_self,
    List.splitOn_append_cons_self_of_not_mem (slash_notMem_loggroup logGroup)] at h
  -- of the four segments, the third is the log group, and not a date
  match hy : y.splitOn '/', ht : t.splitOn '/', h with
  | [], _, _ => exact absurd hy (List.splitOn_ne_nil _ _)
  | _, [], _ => exact absurd ht (List.splitOn_ne_nil _ _)
  | [g], [file], h =>
    simp only [List.singleton_append, Option.bind_eq_bind, Option.bind_eq_some_iff] at h
    obtain ⟨-, -, -, -, date, hdate, -⟩ := h
    exact absurd (List.cons.inj (Text.eq_append_of_stripPrefix hdate)).1 (by decide)
  | [_], _ :: _ :: _, h => cases h
  | _ :: _ :: _, _ :: _, h =>
    simp only [List.cons_append] at h
    split at h
    next heq =>
      have hlen := congrArg List.length heq
      simp only [List.length_cons, List.length_append, List.length_nil] at hlen
      omega
    next => cases h

/-- A key under a group's prefix that parses is of the group, and what follows the prefix are
the date and the file. -/
theorem split_of_parseDataKey {account logGroup key : String} {t : List Char}
    (hkey : (dataGroupPrefix keyPrefix account logGroup).toList ++ t = key.toList)
    (h : parseDataKey keyPrefix key = some loc) :
    loc.account = account ∧ loc.logGroup = logGroup ∧
      t.splitOn '/' = ["dt=".toList ++ loc.date.toList, loc.name.toList ++ dataSuffix.toList] := by
  have ha := slash_notMem_account hkey h
  rw [dataGroupPrefix_append] at hkey
  have haccount : '/' ∉ "account=".toList ++ account.toList := by
    intro hmem
    rcases List.mem_append.mp hmem with hmem | hmem
    · exact absurd hmem (by decide)
    · exact ha hmem
  unfold parseDataKey at h
  rw [← hkey] at h
  change (Text.stripPrefix (dataRoot keyPrefix) _).bind _ = _ at h
  rw [Text.stripPrefix_append, Option.bind_some,
    List.splitOn_append_cons_self_of_not_mem haccount,
    List.splitOn_append_cons_self_of_not_mem (slash_notMem_loggroup logGroup)] at h
  match hsplit : t.splitOn '/', h with
  | [], h => exact absurd hsplit (List.splitOn_ne_nil _ _)
  | [_], h => cases h
  | _ :: _ :: _ :: _, h => cases h
  | [date, file], h =>
    simp only [Text.stripPrefix_append, Option.bind_eq_bind, Option.bind_some,
      String.ofList_toList, unsanitize_sanitize, Option.bind_eq_some_iff] at h
    obtain ⟨date', hdate, name, hname, heq⟩ := h
    cases heq
    refine ⟨rfl, rfl, ?_⟩
    simp only [Text.eq_append_of_stripPrefix hdate, Text.eq_append_of_stripSuffix hname,
      String.toList_ofList]

/-- Such a key is the data key of the location. -/
theorem of_parseDataKey {account logGroup key : String}
    (hpre : (dataGroupPrefix keyPrefix account logGroup).toList <+: key.toList)
    (h : parseDataKey keyPrefix key = some loc) :
    loc.account = account ∧ loc.logGroup = logGroup ∧ loc.dataKey keyPrefix = key := by
  obtain ⟨t, hkey⟩ := hpre
  obtain ⟨rfl, rfl, hsplit⟩ := split_of_parseDataKey hkey h
  have htail : List.intercalate ['/'] (t.splitOn '/') = t := List.intercalate_splitOn '/'
  rw [hsplit] at htail
  refine ⟨rfl, rfl, ?_⟩
  rw [← String.toList_inj, ← hkey, dataGroupPrefix_append, toList_dataKey, ← htail]
  simp only [ChunkLocation.segments, List.intercalate, List.intersperse, List.flatten_cons,
    List.flatten_nil, List.append_nil, List.append_assoc, List.nil_append, List.cons_append]

/-- A group's prefix starts the data keys of the group and no others. -/
theorem dataGroupPrefix_iff (h : loc.Plain) (account logGroup : String) :
    (dataGroupPrefix keyPrefix account logGroup).toList <+: (loc.dataKey keyPrefix).toList ↔
      loc.account = account ∧ loc.logGroup = logGroup := by
  rw [toList_dataKey]
  constructor
  · rintro ⟨t, ht⟩
    rw [dataGroupPrefix_append] at ht
    have hsplit := congrArg (List.splitOn '/') (List.append_cancel_left ht)
    rw [h.splitOn, List.splitOn_append_cons_self,
      List.splitOn_append_cons_self_of_not_mem (slash_notMem_loggroup logGroup)] at hsplit
    have hjoin : List.intercalate ['/'] (("account=".toList ++ account.toList).splitOn '/') =
        "account=".toList ++ account.toList := List.intercalate_splitOn '/'
    have htail : t.splitOn '/' ≠ [] := List.splitOn_ne_nil _ _
    -- the group is the second segment, or the third, which is the date
    match hfirst : ("account=".toList ++ account.toList).splitOn '/', hsplit with
    | [], hsplit => exact absurd hfirst (List.splitOn_ne_nil _ _)
    | [seg], hsplit =>
      rw [hfirst] at hjoin
      obtain ⟨hacc, hrest⟩ := List.cons.inj hsplit
      obtain ⟨hgroup, -⟩ := List.cons.inj hrest
      have hseg : seg = "account=".toList ++ account.toList := by
        rw [← hjoin]
        simp only [List.intercalate, List.intersperse, List.flatten_cons, List.flatten_nil,
          List.append_nil]
      rw [hseg] at hacc
      refine ⟨String.toList_inj.mp (List.append_cancel_left hacc).symm, ?_⟩
      exact sanitizeLogGroup_injective
        (String.toList_inj.mp (List.append_cancel_left hgroup).symm)
    | [_, _], hsplit =>
      obtain ⟨-, hrest⟩ := List.cons.inj hsplit
      obtain ⟨-, hrest⟩ := List.cons.inj hrest
      obtain ⟨hdate, -⟩ := List.cons.inj hrest
      exact absurd (List.cons.inj hdate).1 (by decide)
    | _ :: _ :: _ :: _, hsplit =>
      have hlen := congrArg List.length hsplit
      have hpos := List.length_pos_iff.mpr htail
      simp only [ChunkLocation.segments, List.length_append, List.length_cons, List.length_nil]
        at hlen
      omega
  · rintro ⟨rfl, rfl⟩
    refine ⟨("dt=".toList ++ loc.date.toList) ++ '/' :: (loc.name.toList ++ dataSuffix.toList), ?_⟩
    rw [dataGroupPrefix_append]
    simp only [ChunkLocation.segments, List.intercalate, List.intersperse, List.flatten_cons,
      List.flatten_nil, List.append_nil, List.append_assoc, List.nil_append, List.cons_append]

theorem dataKey_injective (h : loc.Plain) (h' : loc'.Plain)
    (heq : loc.dataKey keyPrefix = loc'.dataKey keyPrefix) : loc = loc' := by
  have hread : parseDataKey keyPrefix (loc.dataKey keyPrefix) = some loc :=
    parseDataKey_dataKey h
  rw [heq, parseDataKey_dataKey h'] at hread
  exact (Option.some.inj hread).symm

end ChunkLocation

/-! ## The families -/

/-- The key lies under a segment. -/
def UnderSeg (keyPrefix seg key : String) : Prop :=
  ∃ rest, key = normPrefix keyPrefix ++ seg ++ rest

/-- Segments that begin with different letters part their keys. -/
theorem UnderSeg.ne {keyPrefix seg seg' key key' : String} (h : UnderSeg keyPrefix seg key)
    (h' : UnderSeg keyPrefix seg' key') (hhead : seg.toList.head? ≠ seg'.toList.head?)
    (hne : seg.toList ≠ []) (hne' : seg'.toList ≠ []) : key ≠ key' := by
  obtain ⟨rest, rfl⟩ := h
  obtain ⟨rest', rfl⟩ := h'
  intro heq
  have hlist := congrArg String.toList heq
  simp only [String.toList_append, List.append_assoc] at hlist
  have hfirst := congrArg List.head? (List.append_cancel_left hlist)
  rw [List.head?_append_of_ne_nil _ hne, List.head?_append_of_ne_nil _ hne'] at hfirst
  exact hhead hfirst

/-- A manifest lies at no key of an object. -/
theorem manifestKey_ne (loc : ChunkLocation) (keyPrefix account logGroup : String) (s e : Int) :
    manifestKey keyPrefix account logGroup s e ≠ loc.dataKey keyPrefix ∧
      manifestKey keyPrefix account logGroup s e ≠ loc.indexKey keyPrefix ∧
      manifestKey keyPrefix account logGroup s e ≠ loc.tsIndexKey keyPrefix := by
  have hmanifest : UnderSeg keyPrefix manifestSeg (manifestKey keyPrefix account logGroup s e) :=
    ⟨"/account=" ++ account ++ "/loggroup=" ++ sanitizeLogGroup logGroup ++ "/window=" ++
      toString s ++ "-" ++ toString e ++ ".json", by simp only [manifestKey, String.append_assoc]⟩
  have hdata : UnderSeg keyPrefix dataSeg (loc.dataKey keyPrefix) :=
    ⟨"/" ++ loc.tail, by simp only [ChunkLocation.dataKey, String.append_assoc]⟩
  have hindex : UnderSeg keyPrefix indexSeg (loc.indexKey keyPrefix) :=
    ⟨"/" ++ loc.tail ++ indexSidecarSuffix,
      by simp only [ChunkLocation.indexKey, String.append_assoc]⟩
  have htsIndex : UnderSeg keyPrefix indexSeg (loc.tsIndexKey keyPrefix) :=
    ⟨"/" ++ loc.tail ++ tsSidecarSuffix,
      by simp only [ChunkLocation.tsIndexKey, String.append_assoc]⟩
  refine ⟨hmanifest.ne hdata ?_ ?_ ?_, hmanifest.ne hindex ?_ ?_ ?_, hmanifest.ne htsIndex ?_ ?_ ?_⟩
  all_goals decide

/-- Account, group and window can be read off a manifest key. -/
theorem manifestKey_inj {keyPrefix account account' logGroup logGroup' : String}
    {s e s' e' : Int} (hs : 0 ≤ s) (he : 0 ≤ e) (hs' : 0 ≤ s') (he' : 0 ≤ e')
    (h : manifestKey keyPrefix account logGroup s e =
      manifestKey keyPrefix account' logGroup' s' e') :
    account = account' ∧ logGroup = logGroup' ∧ s = s' ∧ e = e' := by
  have hshape : ∀ (acc group : String) (a b : Int), 0 ≤ a → 0 ≤ b →
      (manifestKey keyPrefix acc group a b).toList =
        (((normPrefix keyPrefix ++ manifestSeg ++ "/account=").toList ++ acc.toList) ++
          '/' :: ("loggroup=".toList ++ (sanitizeLogGroup group).toList)) ++
        '/' :: ("window=".toList ++ (Nat.toDigits 10 a.toNat ++
          '-' :: (Nat.toDigits 10 b.toNat ++ ".json".toList))) := by
    intro acc group a b ha hb
    rw [toList_manifestKey _ _ _ ha hb]
    simp only [String.toList_append, List.append_assoc]
    rfl
  have hlist := congrArg String.toList h
  rw [hshape _ _ _ _ hs he, hshape _ _ _ _ hs' he'] at hlist
  obtain ⟨hfront, hback⟩ := Text.append_cons_inj_last (slash_notMem_window _ _)
    (slash_notMem_window _ _) hlist
  obtain ⟨hacc, hgroup⟩ := Text.append_cons_inj_last (slash_notMem_loggroup _)
    (slash_notMem_loggroup _) hfront
  obtain ⟨hstart, hrest⟩ := Text.append_cons_inj '-' (Text.notMem_toDigits (by decide) _)
    (Text.notMem_toDigits (by decide) _) (List.append_cancel_left hback)
  have h₁ := Text.toDigits_injective hstart
  have h₂ := Text.toDigits_injective (List.append_cancel_right hrest)
  refine ⟨String.toList_inj.mp (List.append_cancel_left hacc), ?_, by omega, by omega⟩
  exact sanitizeLogGroup_injective (String.toList_inj.mp (List.append_cancel_left hgroup))

/-- The keys of the layout are a code: the parts are read back, a group's prefix finds the
group's objects, and no key serves two purposes. -/
theorem layout_keys_faithful (keyPrefix : String) :
    (∀ group, (∀ c ∈ (sanitizeLogGroup group).toList, isSanitized c = true) ∧
      unsanitizeLogGroup (sanitizeLogGroup group) = some group) ∧
    (∀ loc : ChunkLocation, loc.Plain →
      ChunkLocation.parseDataKey keyPrefix (loc.dataKey keyPrefix) = some loc ∧
      ∀ account logGroup,
        ((dataGroupPrefix keyPrefix account logGroup).toList <+: (loc.dataKey keyPrefix).toList ↔
          loc.account = account ∧ loc.logGroup = logGroup)) ∧
    (∀ (loc loc' : ChunkLocation) (account logGroup : String) (s e : Int),
      loc.dataKey keyPrefix ≠ loc'.indexKey keyPrefix ∧
      loc.dataKey keyPrefix ≠ loc'.tsIndexKey keyPrefix ∧
      loc.indexKey keyPrefix ≠ loc'.tsIndexKey keyPrefix ∧
      manifestKey keyPrefix account logGroup s e ≠ loc.dataKey keyPrefix ∧
      manifestKey keyPrefix account logGroup s e ≠ loc.indexKey keyPrefix ∧
      manifestKey keyPrefix account logGroup s e ≠ loc.tsIndexKey keyPrefix) ∧
    (∀ loc loc' : ChunkLocation, loc.Plain → loc'.Plain →
      (loc.dataKey keyPrefix = loc'.dataKey keyPrefix → loc = loc') ∧
      (loc.indexKey keyPrefix = loc'.indexKey keyPrefix → loc = loc') ∧
      (loc.tsIndexKey keyPrefix = loc'.tsIndexKey keyPrefix → loc = loc')) ∧
    (∀ (account account' logGroup logGroup' : String) (s e s' e' : Int),
      0 ≤ s → 0 ≤ e → 0 ≤ s' → 0 ≤ e' →
      manifestKey keyPrefix account logGroup s e = manifestKey keyPrefix account' logGroup' s' e' →
      account = account' ∧ logGroup = logGroup' ∧ s = s' ∧ e = e') ∧
    ∀ (account logGroup key : String) (loc : ChunkLocation), '/' ∉ account.toList →
      (dataGroupPrefix keyPrefix account logGroup).toList <+: key.toList →
      ChunkLocation.parseDataKey keyPrefix key = some loc →
      loc.account = account ∧ loc.logGroup = logGroup ∧ loc.dataKey keyPrefix = key := by
  refine ⟨fun group => ⟨fun c hc => (sanitizeLogGroup_chars hc).1, unsanitize_sanitize group⟩,
    fun loc h => ⟨ChunkLocation.parseDataKey_dataKey h, ChunkLocation.dataGroupPrefix_iff h⟩,
    fun loc loc' account logGroup s e => ?_, fun loc loc' h h' => ⟨?_, ?_, ?_⟩,
    fun _ _ _ _ _ _ _ _ => manifestKey_inj,
    fun _ _ _ _ _ => ChunkLocation.of_parseDataKey⟩
  · obtain ⟨hindex, htsIndex⟩ := dataKey_ne_sidecar loc loc' keyPrefix
    exact ⟨hindex, htsIndex, indexKey_ne_tsIndexKey loc loc' keyPrefix,
      manifestKey_ne loc keyPrefix account logGroup s e⟩
  · exact ChunkLocation.dataKey_injective h h'
  · exact fun heq => ChunkLocation.dataKey_injective h h' (dataKey_congr keyPrefix (indexKey_inj heq))
  · exact fun heq =>
      ChunkLocation.dataKey_injective h h' (dataKey_congr keyPrefix (tsIndexKey_inj heq))

/-- A group and one whose name goes on after it. -/
theorem layout_keys_faithful_payments :
    let loc : ChunkLocation := ⟨"123456789012", "/aws/pay", "2025-12-11", "1765411200000-000001"⟩
    ChunkLocation.parseDataKey "s4logs" (loc.dataKey "s4logs") = some loc ∧
      ¬ (dataGroupPrefix "s4logs" "123456789012" "/aws/payments").toList <+:
        (loc.dataKey "s4logs").toList := by
  obtain ⟨hread, hgroup⟩ := (layout_keys_faithful "s4logs").2.1
    ⟨"123456789012", "/aws/pay", "2025-12-11", "1765411200000-000001"⟩
    ⟨by decide, by decide, by decide⟩
  exact ⟨hread, fun h => absurd ((hgroup _ _).mp h).2 (by decide)⟩

end S4Logs
