import S4Logs.Gateway.Auth
import S4Logs.Lib.Fallible

/-!
# What a signature binds

Where hashes do not collide, one signature fits one canonical request, and the canonical
request spells what it was made of: its lines end where the parts hold no newline, the
lines of the headers begin with names that both requests were signed with, the query is
taken apart at its separators, and the last line is the word of an unsigned payload or the
hash of the body. So two accepted requests with one `Authorization` header and one date
agree on every signed part.
-/

namespace S4Logs

open Fallible (bind_eq_ok mem_of_mapM_ok)

/-! ## Texts -/

theorem hexDigits_injective {b b' : UInt8}
    (hhi : Nat.digitChar (b.toNat / 16) = Nat.digitChar (b'.toNat / 16))
    (hlo : Nat.digitChar (b.toNat % 16) = Nat.digitChar (b'.toNat % 16)) : b = b' := by
  have hdigit : ∀ m < 16, ∀ n < 16, Nat.digitChar m = Nat.digitChar n → m = n := by decide
  have hb := b.toNat_lt
  have hb' := b'.toNat_lt
  have h₁ := hdigit _ (by omega) _ (by omega) hhi
  have h₂ := hdigit _ (by omega) _ (by omega) hlo
  exact UInt8.toNat_inj.mp (by omega)

theorem hexEncode_injective : ∀ {bs bs' : Bytes}, hexEncode bs = hexEncode bs' → bs = bs'
  | [], [], _ => rfl
  | [], _ :: _, h => by cases h
  | _ :: _, [], h => by cases h
  | b :: bs, b' :: bs', h => by
    obtain ⟨hhi, h⟩ := List.cons.inj h
    obtain ⟨hlo, h⟩ := List.cons.inj h
    rw [hexDigits_injective hhi hlo, hexEncode_injective h]

/-- No digit is an upper-case `U`. -/
theorem upperU_notMem_hexEncode (bs : Bytes) : 'U' ∉ hexEncode bs := by
  have hdigit : ∀ n < 16, Nat.digitChar n ≠ 'U' := by decide
  intro h
  obtain ⟨b, -, hb⟩ := List.mem_flatMap.mp h
  have hlt := b.toNat_lt
  rcases List.mem_cons.mp hb with heq | hb
  · exact hdigit _ (by omega) heq.symm
  · exact hdigit _ (by omega) (List.mem_singleton.mp hb).symm

/-- Joined parts are read back where they are not empty and hold no separator. -/
theorem intercalate_injective {sep : Char} {parts parts' : List (List Char)}
    (h : ∀ p ∈ parts, sep ∉ p ∧ p ≠ []) (h' : ∀ p ∈ parts', sep ∉ p ∧ p ≠ [])
    (heq : List.intercalate [sep] parts = List.intercalate [sep] parts') : parts = parts' := by
  -- only of no parts is nothing made
  have hnil : ∀ ps : List (List Char), (∀ p ∈ ps, sep ∉ p ∧ p ≠ []) →
      List.intercalate [sep] ps = [] → ps = [] := by
    intro ps hps hempty
    by_contra hne
    have hsplit := List.splitOn_intercalate sep (fun p hp => (hps p hp).1) hne
    rw [hempty, List.splitOn_nil] at hsplit
    exact (hps [] (hsplit ▸ List.mem_cons_self)).2 rfl
  by_cases hparts : parts = []
  · subst hparts
    exact (hnil parts' h' heq.symm).symm
  · by_cases hparts' : parts' = []
    · subst hparts'
      exact hnil parts h heq
    · rw [← List.splitOn_intercalate sep (fun p hp => (h p hp).1) hparts, heq,
        List.splitOn_intercalate sep (fun p hp => (h' p hp).1) hparts']

/-- The parts of a split text are made of it, and do not hold the separator. -/
theorem part_of_mem_splitOn {sep : Char} : ∀ (cs : List Char),
    ∀ p ∈ cs.splitOn sep, sep ∉ p ∧ p ⊆ cs
  | cs, p, hp => by
    by_cases hmem : sep ∈ cs
    · obtain ⟨before, after, rfl, hbefore⟩ := List.eq_append_cons_of_mem hmem
      have hshort : after.length < (before ++ sep :: after).length := by
        rw [List.length_append, List.length_cons]
        omega
      rw [List.splitOn_append_cons_self_of_not_mem hbefore] at hp
      rcases List.mem_cons.mp hp with rfl | hp
      · exact ⟨hbefore, List.subset_append_left _ _⟩
      · obtain ⟨hsep, hsub⟩ := part_of_mem_splitOn after p hp
        refine ⟨hsep, fun c hc => ?_⟩
        exact List.mem_append_right _ (List.mem_cons_of_mem _ (hsub hc))
    · rw [List.splitOn_eq_singleton hmem] at hp
      rw [List.mem_singleton.mp hp]
      exact ⟨hmem, List.Subset.refl _⟩
termination_by cs => cs.length

theorem mem_trim {c : Char} {cs : List Char} (h : c ∈ Text.trim cs) : c ∈ cs := by
  have h₁ := (List.dropWhile_sublist _).subset (List.mem_reverse.mp h)
  exact (List.dropWhile_sublist _).subset (List.mem_reverse.mp h₁)

theorem mem_collapseSpaces {c : Char} : ∀ {inSpace : Bool} {cs : List Char},
    c ∈ collapseSpaces inSpace cs → c = ' ' ∨ c ∈ cs
  | _, [], h => absurd h List.not_mem_nil
  | inSpace, d :: cs, h => by
    unfold collapseSpaces at h
    split at h
    next =>
      split at h
      next => exact (mem_collapseSpaces h).imp_right (List.mem_cons_of_mem _)
      next =>
        rcases List.mem_cons.mp h with rfl | h
        · exact .inl rfl
        · exact (mem_collapseSpaces h).imp_right (List.mem_cons_of_mem _)
    next =>
      rcases List.mem_cons.mp h with rfl | h
      · exact .inr List.mem_cons_self
      · exact (mem_collapseSpaces h).imp_right (List.mem_cons_of_mem _)

/-- The text of a header value has no newline. -/
theorem newline_notMem_headerText {v : Bytes} {s : String} (h : headerText v = some s) :
    '\n' ∉ s.toList := by
  unfold headerText at h
  split at h
  next hall =>
    cases h
    rw [String.toList_ofList]
    intro hmem
    obtain ⟨b, hb, heq⟩ := List.mem_map.mp hmem
    have hchar : ∀ n < 256, Char.ofNat n = '\n' → n = 10 :=
      Bytes.forall_octet (by decide +kernel)
    obtain rfl : b = 10 := UInt8.toNat_inj.mp (hchar _ b.toNat_lt heq)
    exact absurd (List.all_eq_true.mp hall 10 hb) (by decide)
  next => cases h

theorem newline_notMem_normalized {v : Bytes} {s : String} (h : headerText v = some s) :
    '\n' ∉ normalizeHeaderValue s := by
  intro hmem
  rcases mem_collapseSpaces hmem with heq | hin
  · exact absurd heq (by decide)
  · exact newline_notMem_headerText h (mem_trim hin)

/-! ## Signed headers -/

variable {H : Hashes} {r r' : RequestView}

theorem okOr_eq_ok {ε α : Type} {e : ε} {x : Option α} {a : α} : okOr e x = .ok a ↔ x = some a := by
  cases x with
  | none => exact ⟨nofun, nofun⟩
  | some b => exact ⟨fun h => congrArg _ (Except.ok.inj h), fun h => congrArg _ (Option.some.inj h)⟩

theorem ensure_eq_ok {p : Prop} [Decidable p] {reason : String} {u : Unit} :
    ensure p reason = .ok u ↔ p := by
  unfold ensure
  by_cases h : p
  · rw [if_pos h]
    exact ⟨fun _ => h, fun _ => rfl⟩
  · rw [if_neg h]
    exact ⟨nofun, fun hp => absurd hp h⟩

/-- Joined parts hold what their parts do, and the separator. -/
theorem mem_intercalate {c sep : Char} : ∀ {parts : List (List Char)},
    c ∈ List.intercalate [sep] parts → c = sep ∨ ∃ p ∈ parts, c ∈ p
  | [], h => absurd h List.not_mem_nil
  | [p], h => by
    rw [List.intercalate_singleton] at h
    exact .inr ⟨p, List.mem_cons_self, h⟩
  | p :: q :: parts, h => by
    rw [List.intercalate_cons_cons, List.append_assoc, List.mem_append, List.mem_append,
      List.mem_singleton] at h
    rcases h with h | rfl | h
    · exact .inr ⟨p, List.mem_cons_self, h⟩
    · exact .inl rfl
    · exact (mem_intercalate h).imp_right fun ⟨t, ht, hc⟩ => ⟨t, List.mem_cons_of_mem _ ht, hc⟩

/-- The joined values of a header have no newline. -/
theorem newline_notMem_signedValue {name : String} {joined : List Char}
    (h : signedValue r name = .ok joined) : '\n' ∉ joined := by
  unfold signedValue at h
  dsimp only at h
  split at h
  next => cases h
  next =>
    obtain ⟨texts, htexts, hjoined⟩ := bind_eq_ok.mp h
    cases hjoined
    intro hmem
    rcases mem_intercalate hmem with heq | ⟨p, hp, hin⟩
    · exact absurd heq (by decide)
    · obtain ⟨v, -, hv⟩ := mem_of_mapM_ok htexts p hp
      obtain ⟨text, htext, rfl⟩ := Option.map_eq_some_iff.mp (okOr_eq_ok.mp hv)
      exact newline_notMem_normalized htext hin

/-- The lines of signed headers are read back, whatever follows them. -/
theorem canonicalHeaders_injective : ∀ {names : List String} {lines lines' rest rest' : List Char},
    canonicalHeaders r names = .ok lines → canonicalHeaders r' names = .ok lines' →
    lines ++ rest = lines' ++ rest' →
    (∀ name ∈ names, signedValue r name = signedValue r' name) ∧ rest = rest'
  | [], _, _, _, _, h, h', heq => by
    cases h
    cases h'
    exact ⟨fun _ hmem => absurd hmem List.not_mem_nil, heq⟩
  | name :: names, _, _, rest, rest', h, h', heq => by
    obtain ⟨joined, hjoined, h⟩ := bind_eq_ok.mp h
    obtain ⟨joined', hjoined', h'⟩ := bind_eq_ok.mp h'
    obtain ⟨lines, hlines, h⟩ := bind_eq_ok.mp h
    obtain ⟨lines', hlines', h'⟩ := bind_eq_ok.mp h'
    cases h
    cases h'
    simp only [List.append_assoc, List.cons_append] at heq
    obtain ⟨-, heq⟩ := List.cons.inj (List.append_cancel_left heq)
    obtain ⟨hvalue, heq⟩ := Text.append_cons_inj '\n' (newline_notMem_signedValue hjoined)
      (newline_notMem_signedValue hjoined') heq
    obtain ⟨hvalues, hrest⟩ := canonicalHeaders_injective hlines hlines' heq
    refine ⟨fun n hn => ?_, hrest⟩
    rcases List.mem_cons.mp hn with rfl | hn
    · rw [hjoined, hjoined', hvalue]
    · exact hvalues n hn

/-! ## The query -/

/-- A part of a query is spelled by its pair, and a bare name as that name with an empty
value. -/
theorem queryPair_spec {part : List Char} (h : '&' ∉ part) :
    '=' ∉ (queryPair part).1.toList ∧ '&' ∉ (queryPair part).1.toList ∧
      '&' ∉ (queryPair part).2.toList := by
  unfold queryPair
  dsimp only
  rw [String.toList_ofList, String.toList_ofList]
  refine ⟨fun hmem => ?_, fun hmem => ?_, fun hmem => ?_⟩
  · have hne := List.all_eq_true.mp List.all_takeWhile _ hmem
    exact absurd rfl (decide_eq_true_iff.mp hne)
  · exact h ((List.takeWhile_sublist _).subset hmem)
  · exact h ((List.dropWhile_sublist _).subset (List.mem_of_mem_tail hmem))

theorem queryPairs_spec {p : String × String} (hp : p ∈ queryPairs r) :
    '=' ∉ p.1.toList ∧ '&' ∉ p.1.toList ∧ '&' ∉ p.2.toList := by
  obtain ⟨part, hpart, rfl⟩ := List.mem_map.mp hp
  exact queryPair_spec (part_of_mem_splitOn _ part (List.mem_filter.mp hpart).1).1

theorem queryPair_spelled {p : String × String} (h : '=' ∉ p.1.toList) :
    queryPair (p.1.toList ++ '=' :: p.2.toList) = p := by
  have hname : ∀ c ∈ p.1.toList, decide (c ≠ '=') = true := by
    intro c hc
    exact decide_eq_true fun heq => h (heq ▸ hc)
  unfold queryPair
  rw [List.takeWhile_append_of_pos hname, List.dropWhile_append_of_pos hname,
    List.takeWhile_cons_of_neg (by decide), List.dropWhile_cons_of_neg (by decide),
    List.append_nil, List.tail_cons, String.ofList_toList, String.ofList_toList]

/-- The canonical query spells the pairs. -/
theorem canonicalQuery_injective (h : canonicalQuery r = canonicalQuery r') :
    (queryPairs r).Perm (queryPairs r') := by
  have hparts : ∀ req : RequestView,
      ∀ t ∈ (Sorting.sortBy (fun p : String × String => toLex p) (queryPairs req)).map
        fun p => p.1.toList ++ '=' :: p.2.toList, '&' ∉ t ∧ t ≠ [] := by
    intro req t ht
    obtain ⟨p, hp, rfl⟩ := List.mem_map.mp ht
    obtain ⟨-, hname, hvalue⟩ := queryPairs_spec (Sorting.mem_sortBy.mp hp)
    refine ⟨fun hmem => ?_, List.append_ne_nil_of_right_ne_nil _ (List.cons_ne_nil _ _)⟩
    rcases List.mem_append.mp hmem with hmem | hmem
    · exact hname hmem
    · exact (List.mem_cons.mp hmem).elim (fun heq => absurd heq (by decide)) hvalue
  have hread : ∀ req : RequestView,
      ((Sorting.sortBy (fun p : String × String => toLex p) (queryPairs req)).map
        fun p => p.1.toList ++ '=' :: p.2.toList).map queryPair =
          Sorting.sortBy (fun p : String × String => toLex p) (queryPairs req) := by
    intro req
    rw [List.map_map]
    refine (List.map_congr_left fun p hp => ?_).trans (List.map_id _)
    exact queryPair_spelled (queryPairs_spec (Sorting.mem_sortBy.mp hp)).1
  have hsorted := congrArg (List.map queryPair) (intercalate_injective (hparts r) (hparts r') h)
  rw [hread, hread] at hsorted
  have hperm : ∀ req : RequestView,
      (Sorting.sortBy (fun p : String × String => toLex p) (queryPairs req)).Perm
        (queryPairs req) := fun _ => Sorting.sortBy_perm _
  exact (hperm r).symm.trans (hsorted ▸ hperm r')

/-! ## The canonical request -/

/-- What a request holds where it came through `http`: no newline before its headers. -/
structure RequestView.FromHttp (req : RequestView) : Prop where
  method : '\n' ∉ req.method.toList
  path : '\n' ∉ req.path.toList
  query : ∀ q, req.query = some q → '\n' ∉ q.toList

theorem newline_notMem_canonicalUri (h : r.FromHttp) : '\n' ∉ (canonicalUri r).toList := by
  unfold canonicalUri
  split
  next => decide
  next => exact h.path

theorem newline_notMem_canonicalQuery (h : r.FromHttp) : '\n' ∉ canonicalQuery r := by
  have hquery : '\n' ∉ (r.query.getD "").toList := by
    cases hq : r.query with
    | none => exact List.not_mem_nil
    | some q => exact h.query q hq
  intro hmem
  rcases mem_intercalate hmem with heq | ⟨t, ht, hin⟩
  · exact absurd heq (by decide)
  · obtain ⟨p, hp, rfl⟩ := List.mem_map.mp ht
    obtain ⟨part, hpart, rfl⟩ := List.mem_map.mp (Sorting.mem_sortBy.mp hp)
    refine hquery ?_
    have hsub : '\n' ∈ part := by
      rcases List.mem_append.mp hin with hin | hin
      · rw [queryPair, String.toList_ofList] at hin
        exact (List.takeWhile_sublist _).subset hin
      · rcases List.mem_cons.mp hin with heq | hin
        · exact absurd heq (by decide)
        · rw [queryPair, String.toList_ofList] at hin
          exact (List.dropWhile_sublist _).subset (List.mem_of_mem_tail hin)
    exact (part_of_mem_splitOn _ part (List.mem_filter.mp hpart).1).2 hsub

/-- No hash is the word of an unsigned payload. -/
theorem payloadHash_injective (hsha : Function.Injective H.sha256)
    (h : payloadHash H r = payloadHash H r') :
    r.body = r'.body ∨ UnsignedPayload r ∧ UnsignedPayload r' := by
  have hword : 'U' ∈ unsignedPayload.toList := by decide
  unfold payloadHash at h
  by_cases hr : UnsignedPayload r <;> by_cases hr' : UnsignedPayload r'
  · exact .inr ⟨hr, hr'⟩
  · rw [if_pos hr, if_neg hr'] at h
    exact absurd (h ▸ hword) (upperU_notMem_hexEncode _)
  · rw [if_neg hr, if_pos hr'] at h
    exact absurd (h ▸ hword) (upperU_notMem_hexEncode _)
  · rw [if_neg hr, if_neg hr'] at h
    exact .inl (hsha (hexEncode_injective h))

/-- Two requests agree on what is signed of them, under the headers that are named. -/
structure SignedAlike (names : List String) (r r' : RequestView) : Prop where
  method : r.method = r'.method
  path : canonicalUri r = canonicalUri r'
  query : (queryPairs r).Perm (queryPairs r')
  headers : ∀ name ∈ names, signedValue r name = signedValue r' name
  body : r.body = r'.body ∨ UnsignedPayload r ∧ UnsignedPayload r'

/-- A canonical request spells the signed parts. -/
theorem canonicalRequest_injective (hsha : Function.Injective H.sha256) (hr : r.FromHttp)
    (hr' : r'.FromHttp) {names : List String} {text : String}
    (h : canonicalRequest H r names = .ok text) (h' : canonicalRequest H r' names = .ok text) :
    SignedAlike names r r' := by
  obtain ⟨lines, hlines, h⟩ := bind_eq_ok.mp h
  obtain ⟨lines', hlines', h'⟩ := bind_eq_ok.mp h'
  have hsame := String.ofList_injective (Except.ok.inj (h.trans h'.symm))
  obtain ⟨hmethod, hsame⟩ := Text.append_cons_inj '\n' hr.method hr'.method hsame
  obtain ⟨hpath, hsame⟩ := Text.append_cons_inj '\n' (newline_notMem_canonicalUri hr)
    (newline_notMem_canonicalUri hr') hsame
  obtain ⟨hquery, hsame⟩ := Text.append_cons_inj '\n' (newline_notMem_canonicalQuery hr)
    (newline_notMem_canonicalQuery hr') hsame
  obtain ⟨hheaders, hsame⟩ := canonicalHeaders_injective hlines hlines' hsame
  have hpayload := (List.cons.inj (List.append_cancel_left (List.cons.inj hsame).2)).2
  exact {
    method := String.toList_injective hmethod
    path := String.toList_injective hpath
    query := canonicalQuery_injective hquery
    headers := hheaders
    body := payloadHash_injective hsha hpayload }

/-! ## Verification -/

/-- SHA-256 and, under each key, HMAC-SHA256 do not collide. -/
structure Hashes.Injective (H : Hashes) : Prop where
  sha256 : Function.Injective H.sha256
  hmac256 : ∀ key, Function.Injective (H.hmac256 key)

/-- The text that is signed holds the hash of the canonical request. -/
theorem stringToSign_injective (hsha : Function.Injective H.sha256) {amzDate : String}
    {parsed : ParsedAuthorization} {text text' : String}
    (h : stringToSign H amzDate parsed text = stringToSign H amzDate parsed text') :
    text = text' := by
  have hhash := String.ofList_injective (String.append_right_inj _ |>.mp h)
  exact Bytes.ofString_injective (hsha (hexEncode_injective hhash))

/-- What an accepted request was checked against. -/
structure Accepted (H : Hashes) (accessKey secretKey : String) (req : RequestView)
    (authorization amzDate : String) (parsed : ParsedAuthorization) (canonical : String) :
    Prop where
  authorized : (req.headers.get "authorization").bind headerText = some authorization
  parses : parseAuthorization authorization = .ok parsed
  keyed : parsed.accessKey = accessKey
  dated : (req.headers.get "x-amz-date").bind headerText = some amzDate
  rebuilt : canonicalRequest H req parsed.signedHeaders = .ok canonical
  signed : hexDecode (Bytes.ofString parsed.signature) = some
    (H.hmac256 (signingKey H secretKey parsed)
      (Bytes.ofString (stringToSign H amzDate parsed canonical)))

theorem verify_ok {accessKey secretKey : String} {nowNs : Int}
    (h : verify H accessKey secretKey r nowNs = .ok ()) :
    ∃ authorization amzDate parsed canonical,
      Accepted H accessKey secretKey r authorization amzDate parsed canonical := by
  obtain ⟨authorization, hauth, h⟩ := bind_eq_ok.mp h
  obtain ⟨parsed, hparsed, h⟩ := bind_eq_ok.mp h
  obtain ⟨_, hkey, h⟩ := bind_eq_ok.mp h
  obtain ⟨amzDate, hdate, h⟩ := bind_eq_ok.mp h
  -- the time of the request, its skew and the day of its scope
  obtain ⟨_, _, h⟩ := bind_eq_ok.mp h
  obtain ⟨_, _, h⟩ := bind_eq_ok.mp h
  obtain ⟨_, _, h⟩ := bind_eq_ok.mp h
  obtain ⟨canonical, hcanonical, h⟩ := bind_eq_ok.mp h
  obtain ⟨provided, hprovided, h⟩ := bind_eq_ok.mp h
  have hsigned := okOr_eq_ok.mp hprovided
  rw [← ensure_eq_ok.mp h] at hsigned
  exact ⟨authorization, amzDate, parsed, canonical, {
    authorized := okOr_eq_ok.mp hauth
    parses := hparsed
    keyed := ensure_eq_ok.mp hkey
    dated := okOr_eq_ok.mp hdate
    rebuilt := hcanonical
    signed := hsigned }⟩

/-- One signature under one key: one text was signed, and one canonical request hashed. -/
theorem Accepted.same_canonical (hH : H.Injective) {accessKey secretKey : String}
    {authorization amzDate : String} {parsed : ParsedAuthorization} {text text' : String}
    (h : Accepted H accessKey secretKey r authorization amzDate parsed text)
    (h' : Accepted H accessKey secretKey r' authorization amzDate parsed text') :
    text = text' := by
  have hmac := Option.some.inj (h.signed.symm.trans h'.signed)
  have hsigned := Bytes.ofString_injective (hH.hmac256 _ hmac)
  exact stringToSign_injective hH.sha256 hsigned

/-- Accepted requests with one `Authorization` header and one date have one canonical
request, and agree on every part that it spells. -/
theorem request_integrity (hH : H.Injective) (hr : r.FromHttp) (hr' : r'.FromHttp)
    {accessKey secretKey : String} {nowNs nowNs' : Int}
    (hauth : r.headers.get "authorization" = r'.headers.get "authorization")
    (hdate : r.headers.get "x-amz-date" = r'.headers.get "x-amz-date")
    (h : verify H accessKey secretKey r nowNs = .ok ())
    (h' : verify H accessKey secretKey r' nowNs' = .ok ()) :
    ∃ authorization parsed,
      (r.headers.get "authorization").bind headerText = some authorization ∧
        parseAuthorization authorization = .ok parsed ∧
        SignedAlike parsed.signedHeaders r r' := by
  obtain ⟨authorization, amzDate, parsed, text, hok⟩ := verify_ok h
  obtain ⟨authorization', amzDate', parsed', text', hok'⟩ := verify_ok h'
  obtain rfl : authorization = authorization' := by
    have hsame := hok'.authorized
    rw [← hauth, hok.authorized] at hsame
    exact Option.some.inj hsame
  obtain rfl : amzDate = amzDate' := by
    have hsame := hok'.dated
    rw [← hdate, hok.dated] at hsame
    exact Option.some.inj hsame
  obtain rfl : parsed = parsed' := Except.ok.inj (hok.parses.symm.trans hok'.parses)
  obtain rfl := hok.same_canonical hH hok'
  exact ⟨authorization, parsed, hok.authorized, hok.parses,
    canonicalRequest_injective hH.sha256 hr hr' hok.rebuilt hok'.rebuilt⟩

/-! ## The published example -/

namespace Concrete

/-- The values of a table, and longer ones elsewhere. -/
def tabled : List (Bytes × Bytes) → Bytes → Bytes
  | [], x => List.replicate 33 0 ++ x
  | (arg, val) :: table, x => if x = arg then val else tabled table x

theorem tabled_or (x : Bytes) : ∀ table : List (Bytes × Bytes),
    tabled table x ∈ table.map Prod.snd ∨ tabled table x = List.replicate 33 0 ++ x
  | [] => .inr rfl
  | (arg, val) :: table => by
    unfold tabled
    split
    next => exact .inl List.mem_cons_self
    next => exact (tabled_or x table).imp_left (List.mem_cons_of_mem _)

/-- Short values, each once, make an injective table. -/
theorem tabled_injective : ∀ {table : List (Bytes × Bytes)},
    (table.map Prod.snd).Nodup → (∀ v ∈ table.map Prod.snd, v.length ≤ 32) →
      Function.Injective (tabled table)
  | [], _, _, _, _, h => List.append_cancel_left h
  | (arg, val) :: table, hnodup, hshort, x, y, h => by
    obtain ⟨hval, hrest⟩ := List.nodup_cons.mp hnodup
    have hnew : ∀ z, val ≠ tabled table z := by
      intro z heq
      rcases tabled_or z table with hmem | hlong
      · exact hval (heq ▸ hmem)
      · have hlen := hshort val List.mem_cons_self
        rw [heq, hlong, List.length_append, List.length_replicate] at hlen
        omega
    unfold tabled at h
    split at h <;> split at h
    next hx hy => rw [hx, hy]
    next => exact absurd h (hnew _)
    next => exact absurd h.symm (hnew _)
    next => exact tabled_injective hrest (fun v hv => hshort v (List.mem_cons_of_mem _ hv)) h

def unhex (s : String) : Bytes := (hexDecode (Bytes.ofString s)).getD []

def docSecret : String := "wJalrXUtnFEMI/K7MDENG+bPxRfiCYEXAMPLEKEY"

/-- The request of the signing documentation, as it is hashed and signed. -/
def docCanonical : String :=
  "GET\n/\nAction=ListUsers&Version=2010-05-08\n" ++
    "content-type:application/x-www-form-urlencoded; charset=utf-8\n" ++
    "host:iam.amazonaws.com\nx-amz-date:20150830T123600Z\n\n" ++
    "content-type;host;x-amz-date\n" ++
    "e3b0c44298fc1c149afbf4c8996fb92427ae41e4649b934ca495991b7852b855"

def docSigned : String :=
  "AWS4-HMAC-SHA256\n20150830T123600Z\n20150830/us-east-1/iam/aws4_request\n" ++
    "f536975d06c0309214f805bb90ccff089219ecd68b2577efef23edd43b7e1a59"

def docDigests : List (Bytes × Bytes) :=
  [([], unhex "e3b0c44298fc1c149afbf4c8996fb92427ae41e4649b934ca495991b7852b855"),
    (Bytes.ofString docCanonical,
      unhex "f536975d06c0309214f805bb90ccff089219ecd68b2577efef23edd43b7e1a59")]

/-- Key, message and code, from the secret to the signature. -/
def docMacs : List (Bytes × Bytes × Bytes) :=
  [(Bytes.ofString ("AWS4" ++ docSecret), Bytes.ofString "20150830",
      unhex "0138c7a6cbd60aa727b2f653a522567439dfb9f3e72b21f9b25941a42f04a7cd"),
    (unhex "0138c7a6cbd60aa727b2f653a522567439dfb9f3e72b21f9b25941a42f04a7cd",
      Bytes.ofString "us-east-1",
      unhex "f33d5808504bf34812e5fade63308b424b244c59189be2a591dd2282c7cb563f"),
    (unhex "f33d5808504bf34812e5fade63308b424b244c59189be2a591dd2282c7cb563f",
      Bytes.ofString "iam",
      unhex "199e1f48c602a5ae77ce26a46906920e76fc8427aeaa53da643646fcda1ccfb0"),
    (unhex "199e1f48c602a5ae77ce26a46906920e76fc8427aeaa53da643646fcda1ccfb0",
      Bytes.ofString "aws4_request",
      unhex "c4afb1cc5771d871763a393e44b703571b55cc28424d1a5e86da6ed3c154a4b9"),
    (unhex "c4afb1cc5771d871763a393e44b703571b55cc28424d1a5e86da6ed3c154a4b9",
      Bytes.ofString docSigned,
      unhex "5d672d79c15b13162d9279b0855cfba6789a8edb4c82c400e06b5924a6f2b5d7")]

/-- The two hashes, with their own values where the example takes them. -/
def docHashes : Hashes where
  sha256 := tabled docDigests
  hmac256 key := tabled ((docMacs.filter fun e => e.1 = key).map Prod.snd)

theorem docHashes_injective : docHashes.Injective where
  sha256 := tabled_injective (by decide +kernel) (by decide +kernel)
  hmac256 key := by
    have hsub : ((docMacs.filter fun e => e.1 = key).map Prod.snd).map Prod.snd |>.Sublist
        ((docMacs.map Prod.snd).map Prod.snd) := (List.filter_sublist.map _).map _
    have hnodup : ((docMacs.map Prod.snd).map Prod.snd).Nodup := by decide +kernel
    have hshort : ∀ v ∈ (docMacs.map Prod.snd).map Prod.snd, v.length ≤ 32 := by decide +kernel
    exact tabled_injective (hnodup.sublist hsub) fun v hv => hshort v (hsub.subset hv)

def docAuthorization : String :=
  "AWS4-HMAC-SHA256 Credential=AKIDEXAMPLE/20150830/us-east-1/iam/aws4_request, " ++
    "SignedHeaders=content-type;host;x-amz-date, " ++
    "Signature=5d672d79c15b13162d9279b0855cfba6789a8edb4c82c400e06b5924a6f2b5d7"

/-- The example, with its host, its path and its query as given. -/
def docRequest (host path query : String) : RequestView where
  method := "GET"
  path := path
  query := some query
  headers := [
    ("content-type", Bytes.ofString "application/x-www-form-urlencoded; charset=utf-8"),
    ("host", Bytes.ofString host),
    ("x-amz-date", Bytes.ofString "20150830T123600Z"),
    ("authorization", Bytes.ofString docAuthorization)]
  body := []

def docSent : RequestView :=
  docRequest "iam.amazonaws.com" "/" "Action=ListUsers&Version=2010-05-08"

/-- The same, in another order and with other blanks. -/
def docRespelled : RequestView :=
  docRequest " iam.amazonaws.com\t" "" "&Version=2010-05-08&Action=ListUsers"

end Concrete

/-- A request, and the same spelled otherwise. -/
theorem request_integrity_example : ∃ authorization parsed,
    (Concrete.docSent.headers.get "authorization").bind headerText = some authorization ∧
      parseAuthorization authorization = .ok parsed ∧
      SignedAlike parsed.signedHeaders Concrete.docSent Concrete.docRespelled := by
  have hsent : verify Concrete.docHashes "AKIDEXAMPLE" Concrete.docSecret Concrete.docSent
      1440938160000000000 = .ok () := by decide +kernel
  have hrespelled : verify Concrete.docHashes "AKIDEXAMPLE" Concrete.docSecret
      Concrete.docRespelled 1440939060000000000 = .ok () := by decide +kernel
  have hnewline : ∀ q ∈ ["Action=ListUsers&Version=2010-05-08",
      "&Version=2010-05-08&Action=ListUsers"], '\n' ∉ q.toList := by decide +kernel
  refine request_integrity Concrete.docHashes_injective
    ⟨by decide, by decide, fun q hq => hnewline q ?_⟩
    ⟨by decide, by decide, fun q hq => hnewline q ?_⟩ rfl rfl hsent hrespelled
  · exact Option.some.inj hq ▸ List.mem_cons_self
  · exact Option.some.inj hq ▸ List.mem_cons_of_mem _ List.mem_cons_self

end S4Logs
