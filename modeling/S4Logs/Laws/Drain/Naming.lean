import S4Logs.Drain.Reconcile
import S4Logs.Laws.Core.Layout

/-!
# Object names

A name begins with the start of its window, so objects of different windows never
share a key. Inside a window a base name is never a reconcile name, and names of
one kind tell their numbers apart, for attempts of two digits.

`nextAttempt` is above every attempt whose first object is listed: that object
has a name of exactly six digits, which the scan does not pass over.
-/

namespace S4Logs

/-- What a name has after the window start. -/
def ObjectNaming.suffix : ObjectNaming → Nat → List Char
  | .base, seq => Text.padded 6 seq
  | .reconcile attempt, seq => 'r' :: (Text.padded 2 attempt ++ Text.padded 4 seq)

namespace ObjectNaming

/-- A name is the window start, a dash and the suffix. -/
theorem toList_name_append (naming : ObjectNaming) (s : Int) (seq : Nat) :
    (naming.name s seq).toList = (toString s).toList ++ '-' :: naming.suffix seq := by
  cases naming with
  | base =>
    simp only [name, suffix, String.toList_append, String.toList_ofList, List.append_assoc]
    rfl
  | reconcile attempt =>
    simp only [name, suffix, String.toList_append, String.toList_ofList, List.append_assoc]
    rfl

theorem toList_name (naming : ObjectNaming) {s : Int} (hs : 0 ≤ s) (seq : Nat) :
    (naming.name s seq).toList = Nat.toDigits 10 s.toNat ++ '-' :: naming.suffix seq := by
  rw [toList_name_append, toList_toString hs]

theorem notMem_suffix {c : Char} (hc : c.isDigit = false) (hr : c ≠ 'r') (naming : ObjectNaming)
    (seq : Nat) : c ∉ naming.suffix seq := by
  cases naming with
  | base => exact Text.notMem_padded hc _ _
  | reconcile attempt =>
    intro h
    rcases List.mem_cons.mp h with h | h
    · exact hr h
    · rcases List.mem_append.mp h with h | h
      · exact Text.notMem_padded hc _ _ h
      · exact Text.notMem_padded hc _ _ h

theorem slash_notMem_name (naming : ObjectNaming) (s : Int) (seq : Nat) :
    '/' ∉ (naming.name s seq).toList := by
  rw [toList_name_append]
  intro h
  rcases List.mem_append.mp h with h | h
  · exact notMem_toString (by decide) (by decide) s h
  · rcases List.mem_cons.mp h with h | h
    · exact absurd h (by decide)
    · exact notMem_suffix (by decide) (by decide) naming seq h

/-- The start and the suffix can be read off a name. -/
theorem name_injective {naming naming' : ObjectNaming} {s s' : Int} {seq seq' : Nat} (hs : 0 ≤ s)
    (hs' : 0 ≤ s') (h : naming.name s seq = naming'.name s' seq') :
    s = s' ∧ naming.suffix seq = naming'.suffix seq' := by
  have hlist := congrArg String.toList h
  rw [toList_name naming hs, toList_name naming' hs'] at hlist
  obtain ⟨hstart, hsuffix⟩ := Text.append_cons_inj '-'
    (Text.notMem_toDigits (by decide) _) (Text.notMem_toDigits (by decide) _) hlist
  have := Text.toDigits_injective hstart
  exact ⟨by omega, hsuffix⟩

/-- The names of one window and kind tell their numbers apart. -/
theorem seq_of_name {naming : ObjectNaming} {s : Int} {i j : Nat}
    (h : naming.name s i = naming.name s j) : i = j := by
  have hlist := congrArg String.toList h
  cases naming with
  | base =>
    simp only [name, String.toList_append, String.toList_ofList] at hlist
    exact Text.padded_injective (List.append_cancel_left hlist)
  | reconcile attempt =>
    simp only [name, String.toList_append, String.toList_ofList] at hlist
    exact Text.padded_injective (List.append_cancel_left hlist)

/-- A number of a name that its suffix can be read back to. -/
def Fits : ObjectNaming → Prop
  | .base => True
  | .reconcile attempt => attempt < 100

theorem suffix_injective {naming naming' : ObjectNaming} {seq seq' : Nat} (hfit : naming.Fits)
    (hfit' : naming'.Fits) (h : naming.suffix seq = naming'.suffix seq') :
    naming = naming' ∧ seq = seq' := by
  cases naming with
  | base =>
    cases naming' with
    | base => exact ⟨rfl, Text.padded_injective h⟩
    | reconcile attempt =>
      have hr : 'r' ∈ Text.padded 6 seq := by
        rw [show Text.padded 6 seq = _ from h]
        exact List.mem_cons_self
      exact absurd hr (Text.notMem_padded (by decide) _ _)
  | reconcile attempt =>
    cases naming' with
    | base =>
      have hr : 'r' ∈ Text.padded 6 seq' := by
        rw [← show _ = Text.padded 6 seq' from h]
        exact List.mem_cons_self
      exact absurd hr (Text.notMem_padded (by decide) _ _)
    | reconcile attempt' =>
      have hlen : (Text.padded 2 attempt).length = (Text.padded 2 attempt').length := by
        rw [Text.length_padded (by decide) hfit, Text.length_padded (by decide) hfit']
      obtain ⟨ha, hseq⟩ := List.append_inj (List.cons.inj h).2 hlen
      exact ⟨by rw [Text.padded_injective ha], Text.padded_injective hseq⟩

end ObjectNaming

/-- Where the object of a window goes that has this kind and number. -/
def objectLocation (account logGroup : String) (w : Window) (naming : ObjectNaming) (seq : Nat) :
    ChunkLocation where
  account := account
  logGroup := logGroup
  date := dateFromTsMs w.startMs
  name := naming.name w.startMs seq

/-- The data key of that object. -/
def objectKey (keyPrefix account logGroup : String) (w : Window) (naming : ObjectNaming)
    (seq : Nat) : String :=
  (objectLocation account logGroup w naming seq).dataKey keyPrefix

/-- Objects of different windows never share a key, and in a window a key tells
what it numbers apart. -/
theorem objectKey_injective {keyPrefix account logGroup : String} {w w' : Window}
    {naming naming' : ObjectNaming} {seq seq' : Nat} (hw : 0 ≤ w.startMs) (hw' : 0 ≤ w'.startMs)
    (h : objectKey keyPrefix account logGroup w naming seq =
      objectKey keyPrefix account logGroup w' naming' seq') :
    w.startMs = w'.startMs ∧ (naming.Fits → naming'.Fits → naming = naming' ∧ seq = seq') := by
  have hname := dataKey_name (ObjectNaming.slash_notMem_name naming _ seq)
    (ObjectNaming.slash_notMem_name naming' _ seq') h
  obtain ⟨hstart, hsuffix⟩ := ObjectNaming.name_injective hw hw' hname
  exact ⟨hstart, fun hfit hfit' => ObjectNaming.suffix_injective hfit hfit' hsuffix⟩

/-! ## Attempts -/

theorem takeBytes_digits {ds : List Char} (rest : List Char) (h : ∀ c ∈ ds, c.isDigit = true) :
    Text.takeBytes ds.length (ds ++ rest) = some ds := by
  induction ds with
  | nil => cases rest <;> rfl
  | cons c ds ih =>
    have hc : c.utf8Size = 1 := by
      have hlen := Text.byteLen_digits fun d (hd : d ∈ [c]) =>
        h d (by rw [List.mem_singleton.mp hd]; exact List.mem_cons_self)
      simpa only [Text.byteLen, List.map_cons, List.map_nil, List.sum_cons, List.sum_nil,
        Nat.add_zero, List.length_singleton] using hlen
    simp only [List.length_cons, List.cons_append, Text.takeBytes, hc, Nat.le_add_left, if_true,
      Nat.add_sub_cancel, ih fun d hd => h d (List.mem_cons_of_mem _ hd), Option.map_some]

/-- A number read back from its padded digits. -/
theorem parseUnsigned_padded {bound width n : Nat} (hw : 0 < width) (hn : n < bound) :
    Text.parseUnsigned bound (Text.padded width n) = some n := by
  have hne : Text.padded width n ≠ [] := by
    intro hnil
    have hlen := congrArg List.length hnil
    rw [Text.padded, List.length_leftpad, List.length_nil] at hlen
    omega
  have hvalue := Text.value_padded width n
  rw [Text.parseUnsigned_digits hne (fun c hc => Text.isDigit_of_mem_padded hc)
    (hvalue.symm ▸ hn), hvalue]

/-- The scan cuts a name into the window start and the suffix. -/
theorem attemptOf_dataKey {loc : ChunkLocation} {naming : ObjectNaming} {s : Int} {seq : Nat}
    (hname : loc.name = naming.name s seq) (keyPrefix : String) :
    attemptOf (loc.dataKey keyPrefix) = match Text.stripPrefix ['r'] (naming.suffix seq) with
      | none => some none
      | some digits =>
        if Text.byteLen digits ≠ 6 then some none
        else (Text.takeBytes 2 digits).map (Text.parseUnsigned (2 ^ 32)) := by
  have hslash : '/' ∉ loc.name.toList := hname ▸ ObjectNaming.slash_notMem_name naming s seq
  have hsplit := Text.rsplitOnce_append '-'
    (ObjectNaming.notMem_suffix (by decide) (by decide) naming seq) (toString s).toList
  unfold attemptOf
  rw [lastSegment_dataKey loc keyPrefix hslash, Text.stripSuffix_append, hname,
    ObjectNaming.toList_name_append]
  dsimp only
  rewrite [hsplit]
  rfl

/-- The first object of an attempt has a name the scan reads. -/
theorem attemptOf_named {loc : ChunkLocation} {s : Int} {attempt : Nat} (ha : attempt < 100)
    (hname : loc.name = (ObjectNaming.reconcile attempt).name s 0) (keyPrefix : String) :
    attemptOf (loc.dataKey keyPrefix) = some (some attempt) := by
  have hstrip : Text.stripPrefix ['r'] (ObjectNaming.suffix (.reconcile attempt) 0) =
      some (Text.padded 2 attempt ++ Text.padded 4 0) :=
    Text.stripPrefix_append ['r'] _
  have hdigits : ∀ c ∈ Text.padded 2 attempt ++ Text.padded 4 0, c.isDigit = true := by
    intro c hc
    rcases List.mem_append.mp hc with hc | hc
    · exact Text.isDigit_of_mem_padded hc
    · exact Text.isDigit_of_mem_padded hc
  have hlen : Text.byteLen (Text.padded 2 attempt ++ Text.padded 4 0) = 6 := by
    rw [Text.byteLen_digits hdigits, List.length_append, Text.length_padded (by decide) ha,
      Text.length_padded (by decide) (by decide)]
  have htake : Text.takeBytes 2 (Text.padded 2 attempt ++ Text.padded 4 0) =
      some (Text.padded 2 attempt) := by
    have := takeBytes_digits (Text.padded 4 0) fun c (hc : c ∈ Text.padded 2 attempt) =>
      Text.isDigit_of_mem_padded hc
    rwa [Text.length_padded (by decide) ha] at this
  rw [attemptOf_dataKey hname, hstrip]
  simp only [hlen, ne_eq, not_true_eq_false, if_false, htake, Option.map_some]
  rw [parseUnsigned_padded (by decide) (by omega)]

theorem attemptOf_first (keyPrefix account logGroup : String) (w : Window) {attempt : Nat}
    (ha : attempt < 100) :
    attemptOf (objectKey keyPrefix account logGroup w (.reconcile attempt) 0) =
      some (some attempt) :=
  attemptOf_named ha rfl keyPrefix

/-- The scan never goes down. -/
theorem highestAttempt_spec {objects : List ManifestObject} : ∀ {low high : Nat},
    highestAttempt low objects = some high → low ≤ high ∧
      ∀ o ∈ objects, ∀ a, attemptOf o.dataKey = some (some a) → a ≤ high := by
  induction objects with
  | nil =>
    intro low high h
    cases h
    exact ⟨Nat.le_refl _, fun o ho => absurd ho List.not_mem_nil⟩
  | cons o objects ih =>
    intro low high h
    unfold highestAttempt at h
    cases ho : attemptOf o.dataKey with
    | none => simp only [ho, reduceCtorEq] at h
    | some found =>
      cases found with
      | none =>
        simp only [ho] at h
        obtain ⟨hle, hall⟩ := ih h
        refine ⟨hle, fun o' ho' a ha => ?_⟩
        rcases List.mem_cons.mp ho' with rfl | ho'
        · rw [ho] at ha
          cases ha
        · exact hall o' ho' a ha
      | some b =>
        simp only [ho] at h
        obtain ⟨hle, hall⟩ := ih h
        refine ⟨Nat.le_trans (Nat.le_max_left _ _) hle, fun o' ho' a ha => ?_⟩
        rcases List.mem_cons.mp ho' with rfl | ho'
        · rw [ho] at ha
          cases ha
          exact Nat.le_trans (Nat.le_max_right _ _) hle
        · exact hall o' ho' a ha

/-- The next attempt is at least one and above every attempt the scan reads. -/
theorem nextAttempt_spec {m : Manifest} {next : Nat} (h : nextAttempt m = some next) :
    0 < next ∧ ∀ o ∈ m.objects, ∀ a, attemptOf o.dataKey = some (some a) → a < next := by
  obtain ⟨high, hhigh, rfl⟩ := Option.map_eq_some_iff.mp h
  obtain ⟨-, hall⟩ := highestAttempt_spec hhigh
  exact ⟨Nat.succ_pos _, fun o ho a ha => Nat.lt_succ_of_le (hall o ho a ha)⟩

end S4Logs
