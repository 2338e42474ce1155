import S4Logs.Core.Deps
import S4Logs.Laws.Core.Keys
import S4Logs.Laws.Gateway.Civil
import S4Logs.Lib.Fallible

/-!
# The time of a request

`daysFromCivil` counts the days of the calendar, so where the text is digits and its date is
one of the calendar the instant is read. The parser takes more than that: a number with a
sign, a day beyond its month, and the second before the epoch that is the epoch itself.
These are all it takes beyond its grammar.
-/

namespace S4Logs

open Calendar (monthLength dayNumber IsDate monthLength_le)

/-! ## The grammar -/

/-- `YYYYMMDD'T'HHMMSS'Z'`. -/
def amzDateText (y m d hh mm ss : Nat) : String :=
  String.ofList (Text.padded 4 y ++ Text.padded 2 m ++ Text.padded 2 d ++ 'T' ::
    (Text.padded 2 hh ++ Text.padded 2 mm ++ Text.padded 2 ss ++ ['Z']))

/-- The text is a date of the calendar from 1970 on and a time of day, in digits, and these
are the seconds from the epoch. A sixtieth second is the start of the next minute. -/
def IsAmzDate (s : String) (t : Int) : Prop :=
  ∃ y m d hh mm ss : Nat, s = amzDateText y m d hh mm ss ∧ (1970 ≤ y ∧ y ≤ 9999) ∧ IsDate y m d ∧
    hh ≤ 23 ∧ mm ≤ 59 ∧ ss ≤ 60 ∧ t = dayNumber y m d * 86400 + hh * 3600 + mm * 60 + ss

/-! ## Numbers -/

theorem plainOctet_toNat {c : Char} (h : c.isDigit = true) : (plainOctet c).toNat = c.toNat := by
  have hc := Text.digit_bounds h
  rw [plainOctet, UInt8.toNat_ofNat']
  omega

theorem foldl_digits : ∀ {cs : List Char}, (∀ c ∈ cs, c.isDigit = true) → ∀ n : Nat,
    (cs.map plainOctet).foldl (fun (n : Int) b => n * 10 + (b.toNat - 48 : Nat)) n =
      (Nat.ofDigitChars 10 cs n : Int)
  | [], _, _ => rfl
  | c :: cs, h, n => by
    have hc := plainOctet_toNat (h c List.mem_cons_self)
    have hstep : (n : Int) * 10 + ((c.toNat - 48 : Nat) : Int) =
        ((10 * n + (c.toNat - 48) : Nat) : Int) := by omega
    rw [List.map_cons, List.foldl_cons, hc, hstep,
      foldl_digits (fun c hc => h c (List.mem_cons_of_mem _ hc)), Nat.ofDigitChars_cons]
    rfl

/-- The octets of digits are a number. -/
theorem parseDigits_digits {cs : List Char} (hne : cs ≠ []) (h : ∀ c ∈ cs, c.isDigit = true) :
    parseDigits (cs.map plainOctet) = some (Nat.ofDigitChars 10 cs 0 : Int) := by
  have hall : (cs.map plainOctet).all (fun b => 48 ≤ b && b ≤ 57) = true := by
    apply List.all_eq_true.mpr
    intro b hb
    obtain ⟨c, hc, rfl⟩ := List.mem_map.mp hb
    have hbounds := Text.digit_bounds (h c hc)
    rw [← plainOctet_toNat (h c hc)] at hbounds
    rw [Bool.and_eq_true, decide_eq_true_eq, decide_eq_true_eq, UInt8.le_iff_toNat_le,
      UInt8.le_iff_toNat_le]
    exact hbounds
  have hmap : cs.map plainOctet ≠ [] := fun hnil => hne (List.map_eq_nil_iff.mp hnil)
  rw [parseDigits, if_pos ⟨hmap, hall⟩]
  exact congrArg some (foldl_digits h 0)

theorem digitOctet : ∀ n < 256, 48 ≤ n → n ≤ 57 →
    plainOctet (Char.ofNat n) = UInt8.ofNat n ∧ (Char.ofNat n).isDigit = true :=
  Bytes.forall_octet (by decide +kernel)

/-- What is read as digits is the octets of digits. -/
theorem of_parseDigits {bs : Bytes} {n : Int} (h : parseDigits bs = some n) :
    ∃ cs : List Char, bs = cs.map plainOctet ∧ cs ≠ [] ∧ (∀ c ∈ cs, c.isDigit = true) ∧
      n = (Nat.ofDigitChars 10 cs 0 : Int) := by
  unfold parseDigits at h
  split at h
  next hdigits =>
    have hoctet : ∀ b ∈ bs, plainOctet (Char.ofNat b.toNat) = b ∧
        (Char.ofNat b.toNat).isDigit = true := by
      intro b hb
      have hbounds := List.all_eq_true.mp hdigits.2 b hb
      rw [Bool.and_eq_true, decide_eq_true_eq, decide_eq_true_eq, UInt8.le_iff_toNat_le,
        UInt8.le_iff_toNat_le] at hbounds
      have hb := digitOctet b.toNat b.toNat_lt hbounds.1 hbounds.2
      rwa [UInt8.ofNat_toNat] at hb
    have hback : bs = (bs.map fun b => Char.ofNat b.toNat).map plainOctet := by
      have hid : bs.map (plainOctet ∘ fun b => Char.ofNat b.toNat) = bs.map id :=
        List.map_congr_left fun b hb => (hoctet b hb).1
      rw [List.map_map, hid, List.map_id]
    have hne : (bs.map fun b => Char.ofNat b.toNat) ≠ [] :=
      fun hnil => hdigits.1 (List.map_eq_nil_iff.mp hnil)
    have hall : ∀ c ∈ bs.map fun b => Char.ofNat b.toNat, c.isDigit = true := by
      intro c hc
      obtain ⟨b, hb, rfl⟩ := List.mem_map.mp hc
      exact (hoctet b hb).2
    refine ⟨_, hback, hne, hall, ?_⟩
    have hread := parseDigits_digits hne hall
    rw [← hback, parseDigits, if_pos hdigits, h] at hread
    exact Option.some.inj hread
  next => cases h

/-- An octet of a sign. -/
def isSign (b : UInt8) : Bool := b == 43 || b == 45

/-- A number that begins with no sign is digits. -/
theorem parseNumber_unsigned {bs : Bytes} (h : ∀ b ∈ bs.head?, isSign b = false) :
    parseNumber bs = parseDigits bs := by
  unfold parseNumber
  split
  next ds => exact absurd (h 43 rfl) (by decide)
  next ds => exact absurd (h 45 rfl) (by decide)
  next => rfl

theorem isSign_digit {c : Char} (h : c.isDigit = true) : isSign (plainOctet c) = false := by
  have hbounds := Text.digit_bounds h
  have hnat := plainOctet_toNat h
  unfold isSign
  rw [Bool.or_eq_false_iff, beq_eq_false_iff_ne, beq_eq_false_iff_ne]
  refine ⟨fun heq => ?_, fun heq => ?_⟩
  · rw [heq, show (43 : UInt8).toNat = 43 from rfl] at hnat
    omega
  · rw [heq, show (45 : UInt8).toNat = 45 from rfl] at hnat
    omega

/-- A padded number is read back, and begins with no sign. -/
theorem parseNumber_padded {width n : Nat} (hw : 0 < width) (hn : n < 10 ^ width) :
    (∀ b ∈ ((Text.padded width n).map plainOctet).head?, isSign b = false) ∧
      parseNumber ((Text.padded width n).map plainOctet) = some (n : Int) := by
  have hdigits : ∀ c ∈ Text.padded width n, c.isDigit = true :=
    fun c hc => Text.isDigit_of_mem_padded hc
  have hne : Text.padded width n ≠ [] := by
    intro hnil
    have hlen := Text.length_padded hw hn
    rw [hnil, List.length_nil] at hlen
    omega
  have hsign : ∀ b ∈ ((Text.padded width n).map plainOctet).head?, isSign b = false := by
    intro b hb
    obtain ⟨c, hc, rfl⟩ := List.mem_map.mp (List.mem_of_mem_head? hb)
    exact isSign_digit (hdigits c hc)
  refine ⟨hsign, ?_⟩
  rw [parseNumber_unsigned hsign, parseDigits_digits hne hdigits, Text.value_padded]

/-- A field that is read and begins with no sign is a padded number. -/
theorem of_parseNumber {bs : Bytes} {n : Int} {width : Nat} (hw : 0 < width)
    (hlen : bs.length = width) (hsign : ∀ b ∈ bs.head?, isSign b = false)
    (h : parseNumber bs = some n) :
    ∃ k : Nat, n = k ∧ k < 10 ^ width ∧ bs = (Text.padded width k).map plainOctet := by
  rw [parseNumber_unsigned hsign] at h
  obtain ⟨cs, rfl, -, hdigits, rfl⟩ := of_parseDigits h
  rw [List.length_map] at hlen
  exact ⟨_, rfl, hlen ▸ Text.value_lt hdigits, by rw [Text.padded_value hw hlen hdigits]⟩

/-- A number of few octets is small. -/
theorem parseNumber_bounds {bs : Bytes} {n : Int} (h : parseNumber bs = some n) :
    -(10 ^ bs.length : Nat) < n ∧ n < (10 ^ bs.length : Nat) := by
  have hdigits : ∀ {ds : Bytes} {k : Int}, parseDigits ds = some k →
      0 ≤ k ∧ k < (10 ^ ds.length : Nat) := by
    intro ds k hk
    obtain ⟨cs, rfl, -, hcs, rfl⟩ := of_parseDigits hk
    have hlt := Text.value_lt hcs
    rw [List.length_map]
    omega
  have hgrow : ∀ ds : Bytes, 10 ^ ds.length ≤ 10 ^ (ds.length + 1) :=
    fun ds => Nat.pow_le_pow_right (by omega) (Nat.le_succ _)
  unfold parseNumber at h
  split at h
  next ds =>
    have hk := hdigits h
    have hle := hgrow ds
    rw [List.length_cons]
    omega
  next ds =>
    obtain ⟨k, hk, rfl⟩ := Option.map_eq_some_iff.mp h
    have hk := hdigits hk
    have hle := hgrow ds
    rw [List.length_cons]
    omega
  next =>
    have hk := hdigits h
    omega

/-! ## The fields -/

/-- The six numbers of a text. -/
structure AmzNumbers where
  y : Int
  m : Int
  d : Int
  hh : Int
  mm : Int
  ss : Int

/-- The octets of a field. -/
def amzField (s : String) (start stop : Nat) : Bytes :=
  ((Bytes.ofString s).drop start).take (stop - start)

/-- Sixteen octets with `T` and `Z` in their places, and a number in each field. -/
structure AmzNumbers.Of (f : AmzNumbers) (s : String) : Prop where
  length : (Bytes.ofString s).length = 16
  t : (Bytes.ofString s)[8]? = some 84
  z : (Bytes.ofString s)[15]? = some 90
  year : parseNumber (amzField s 0 4) = some f.y
  month : parseNumber (amzField s 4 6) = some f.m
  day : parseNumber (amzField s 6 8) = some f.d
  hour : parseNumber (amzField s 9 11) = some f.hh
  minute : parseNumber (amzField s 11 13) = some f.mm
  second : parseNumber (amzField s 13 15) = some f.ss

/-- The bounds that the parser checks. -/
def AmzNumbers.InRange (f : AmzNumbers) : Prop :=
  ((1 ≤ f.m ∧ f.m ≤ 12) ∧ 1 ≤ f.d ∧ f.d ≤ 31) ∧ f.hh ≤ 23 ∧ f.mm ≤ 59 ∧ f.ss ≤ 60

/-- The seconds from the epoch. -/
def AmzNumbers.seconds (f : AmzNumbers) : Int :=
  daysFromCivil f.y f.m f.d * 86400 + f.hh * 3600 + f.mm * 60 + f.ss

/-- What is read, and from which numbers. -/
theorem parseAmzDate_eq_some {s : String} {t : Int} : parseAmzDate s = some t ↔
    ∃ f : AmzNumbers, f.Of s ∧ f.InRange ∧ 0 ≤ f.seconds ∧ t = f.seconds := by
  constructor
  · intro h
    unfold parseAmzDate at h
    dsimp only at h
    split at h
    next => cases h
    next hshape =>
      obtain ⟨y, hy, h⟩ := Option.bind_eq_some_iff.mp h
      obtain ⟨m, hm, h⟩ := Option.bind_eq_some_iff.mp h
      obtain ⟨d, hd, h⟩ := Option.bind_eq_some_iff.mp h
      obtain ⟨hh, hhh, h⟩ := Option.bind_eq_some_iff.mp h
      obtain ⟨mm, hmm, h⟩ := Option.bind_eq_some_iff.mp h
      obtain ⟨ss, hss, h⟩ := Option.bind_eq_some_iff.mp h
      split at h
      next => cases h
      next hrange =>
      split at h
      next => cases h
      next hsecs =>
        obtain ⟨hlength, hshape⟩ := not_or.mp hshape
        obtain ⟨ht, hz⟩ := not_or.mp hshape
        refine ⟨⟨y, m, d, hh, mm, ss⟩,
          ⟨not_not.mp hlength, not_not.mp ht, not_not.mp hz, hy, hm, hd, hhh, hmm, hss⟩, ?_,
          not_lt.mp hsecs, (Option.some.inj h).symm⟩
        unfold AmzNumbers.InRange
        dsimp only
        omega
  · rintro ⟨f, hf, hrange, hsecs, rfl⟩
    unfold AmzNumbers.InRange at hrange
    have hshape : ¬ ((Bytes.ofString s).length ≠ 16 ∨ (Bytes.ofString s)[8]? ≠ some 84 ∨
        (Bytes.ofString s)[15]? ≠ some 90) := by
      rintro (h | h | h)
      · exact h hf.length
      · exact h hf.t
      · exact h hf.z
    have hyear := hf.year
    have hmonth := hf.month
    have hday := hf.day
    have hhour := hf.hour
    have hminute := hf.minute
    have hsecond := hf.second
    unfold amzField at hyear hmonth hday hhour hminute hsecond
    unfold parseAmzDate
    dsimp only
    rw [if_neg hshape, hyear, hmonth, hday, hhour, hminute, hsecond]
    dsimp only [Option.bind_eq_bind, Option.bind_some]
    rw [if_neg (by omega)]
    exact if_neg (not_lt.mpr hsecs)

/-- Where the fields of a text of the shape stand. -/
theorem fields_of_octets {s : String} {f₁ f₂ f₃ f₄ f₅ f₆ : Bytes} (h₁ : f₁.length = 4)
    (h₂ : f₂.length = 2) (h₃ : f₃.length = 2) (h₄ : f₄.length = 2) (h₅ : f₅.length = 2)
    (h₆ : f₆.length = 2)
    (hs : Bytes.ofString s = f₁ ++ f₂ ++ f₃ ++ 84 :: (f₄ ++ f₅ ++ f₆ ++ [90])) :
    ((Bytes.ofString s).length = 16 ∧ (Bytes.ofString s)[8]? = some 84 ∧
      (Bytes.ofString s)[15]? = some 90) ∧
    (amzField s 0 4 = f₁ ∧ amzField s 4 6 = f₂ ∧ amzField s 6 8 = f₃) ∧
    amzField s 9 11 = f₄ ∧ amzField s 11 13 = f₅ ∧ amzField s 13 15 = f₆ := by
  obtain ⟨a, b, c, d, rfl⟩ : ∃ a b c d, f₁ = [a, b, c, d] := List.length_eq_four.mp h₁
  obtain ⟨e, f, rfl⟩ := List.length_eq_two.mp h₂
  obtain ⟨g, h, rfl⟩ := List.length_eq_two.mp h₃
  obtain ⟨i, j, rfl⟩ := List.length_eq_two.mp h₄
  obtain ⟨k, l, rfl⟩ := List.length_eq_two.mp h₅
  obtain ⟨m, n, rfl⟩ := List.length_eq_two.mp h₆
  unfold amzField
  rw [hs]
  exact ⟨⟨rfl, rfl, rfl⟩, ⟨rfl, rfl, rfl⟩, rfl, rfl, rfl⟩

/-- A text of the shape is made of its fields. -/
theorem octets_of_fields {s : String} (hlen : (Bytes.ofString s).length = 16)
    (ht : (Bytes.ofString s)[8]? = some 84) (hz : (Bytes.ofString s)[15]? = some 90) :
    Bytes.ofString s = amzField s 0 4 ++ amzField s 4 6 ++ amzField s 6 8 ++ 84 ::
      (amzField s 9 11 ++ amzField s 11 13 ++ amzField s 13 15 ++ [90]) := by
  unfold amzField
  generalize Bytes.ofString s = b at hlen ht hz ⊢
  match b, hlen, ht, hz with
  | [_, _, _, _, _, _, _, _, _, _, _, _, _, _, _, _], _, ht, hz =>
    obtain rfl := Option.some.inj ht
    obtain rfl := Option.some.inj hz
    rfl

/-- Some field begins with a sign. -/
def SignedField (s : String) : Prop :=
  ∃ field ∈ [amzField s 0 4, amzField s 4 6, amzField s 6 8, amzField s 9 11, amzField s 11 13,
    amzField s 13 15], ∃ b ∈ field.head?, isSign b = true

theorem AmzNumbers.Of.unique {f f' : AmzNumbers} {s : String} (h : f.Of s) (h' : f'.Of s) :
    f = f' := by
  have hy := Option.some.inj (h.year.symm.trans h'.year)
  have hm := Option.some.inj (h.month.symm.trans h'.month)
  have hd := Option.some.inj (h.day.symm.trans h'.day)
  have hhh := Option.some.inj (h.hour.symm.trans h'.hour)
  have hmm := Option.some.inj (h.minute.symm.trans h'.minute)
  have hss := Option.some.inj (h.second.symm.trans h'.second)
  cases f
  cases f'
  rw [AmzNumbers.mk.injEq]
  exact ⟨hy, hm, hd, hhh, hmm, hss⟩

theorem ofString_amzDateText (y m d hh mm ss : Nat) :
    Bytes.ofString (amzDateText y m d hh mm ss) =
      (Text.padded 4 y).map plainOctet ++ (Text.padded 2 m).map plainOctet ++
        (Text.padded 2 d).map plainOctet ++ 84 :: ((Text.padded 2 hh).map plainOctet ++
          (Text.padded 2 mm).map plainOctet ++ (Text.padded 2 ss).map plainOctet ++ [90]) := by
  have hpadded : ∀ (width n : Nat) (c : Char), c ∈ Text.padded width n → c.toNat < 128 := by
    intro width n c hc
    have hbounds := Text.digit_bounds (Text.isDigit_of_mem_padded hc)
    omega
  rw [amzDateText, ofString_ofList]
  · simp only [List.map_append, List.map_cons, List.map_nil]
    rfl
  · intro c hc
    simp only [List.mem_append, List.mem_cons, List.not_mem_nil, or_false] at hc
    rcases hc with ((hc | hc) | hc) | hc | ((hc | hc) | hc) | hc
    · exact hpadded _ _ c hc
    · exact hpadded _ _ c hc
    · exact hpadded _ _ c hc
    · rw [hc]
      decide
    · exact hpadded _ _ c hc
    · exact hpadded _ _ c hc
    · exact hpadded _ _ c hc
    · rw [hc]
      decide

/-- The numbers of a text of the grammar. -/
theorem numbers_of_text {y m d hh mm ss : Nat} (hy : y < 10000) (hm : m < 100) (hd : d < 100)
    (hhh : hh < 100) (hmm : mm < 100) (hss : ss < 100) :
    AmzNumbers.Of ⟨y, m, d, hh, mm, ss⟩ (amzDateText y m d hh mm ss) ∧
      ¬ SignedField (amzDateText y m d hh mm ss) := by
  have hlen : ∀ {width n : Nat}, 0 < width → n < 10 ^ width →
      ((Text.padded width n).map plainOctet).length = width := by
    intro width n hw hn
    rw [List.length_map, Text.length_padded hw hn]
  have hread : ∀ {n : Nat}, n < 100 →
      (∀ b ∈ ((Text.padded 2 n).map plainOctet).head?, isSign b = false) ∧
        parseNumber ((Text.padded 2 n).map plainOctet) = some (n : Int) :=
    fun hn => parseNumber_padded (by decide) hn
  obtain ⟨⟨hlength, ht, hz⟩, ⟨h₁, h₂, h₃⟩, h₄, h₅, h₆⟩ :=
    fields_of_octets (hlen (by decide) hy) (hlen (by decide) hm) (hlen (by decide) hd)
      (hlen (by decide) hhh) (hlen (by decide) hmm) (hlen (by decide) hss)
      (ofString_amzDateText y m d hh mm ss)
  have hyear : (∀ b ∈ ((Text.padded 4 y).map plainOctet).head?, isSign b = false) ∧
      parseNumber ((Text.padded 4 y).map plainOctet) = some (y : Int) :=
    parseNumber_padded (by decide) hy
  refine ⟨⟨hlength, ht, hz, ?_, ?_, ?_, ?_, ?_, ?_⟩, ?_⟩
  · rw [h₁]
    exact hyear.2
  · rw [h₂]
    exact (hread hm).2
  · rw [h₃]
    exact (hread hd).2
  · rw [h₄]
    exact (hread hhh).2
  · rw [h₅]
    exact (hread hmm).2
  · rw [h₆]
    exact (hread hss).2
  · rintro ⟨field, hfield, b, hb, hsign⟩
    have hplain : isSign b = false := by
      simp only [h₁, h₂, h₃, h₄, h₅, h₆, List.mem_cons, List.not_mem_nil, or_false] at hfield
      rcases hfield with rfl | rfl | rfl | rfl | rfl | rfl
      · exact hyear.1 b hb
      · exact (hread hm).1 b hb
      · exact (hread hd).1 b hb
      · exact (hread hhh).1 b hb
      · exact (hread hmm).1 b hb
      · exact (hread hss).1 b hb
    rw [hplain] at hsign
    cases hsign

/-- A text without signs whose fields are read is the text of its numbers. -/
theorem text_of_numbers {f : AmzNumbers} {s : String} (h : f.Of s) (hsign : ¬ SignedField s) :
    ∃ y m d hh mm ss : Nat, f = ⟨y, m, d, hh, mm, ss⟩ ∧ s = amzDateText y m d hh mm ss ∧
      y < 10000 := by
  have hshape := octets_of_fields h.length h.t h.z
  have hfield : ∀ {field : Bytes} {n : Int} {start stop : Nat}, start < stop → stop ≤ 16 →
      field = amzField s start stop → parseNumber field = some n →
      (∀ b ∈ field.head?, isSign b = false) →
      ∃ k : Nat, n = k ∧ k < 10 ^ (stop - start) ∧
        field = (Text.padded (stop - start) k).map plainOctet := by
    intro field n start stop hpos hstop hfield hread hplain
    refine of_parseNumber (by omega) ?_ hplain hread
    rw [hfield, amzField, List.length_take, List.length_drop, h.length]
    omega
  have hplain : ∀ field ∈ [amzField s 0 4, amzField s 4 6, amzField s 6 8, amzField s 9 11,
      amzField s 11 13, amzField s 13 15], ∀ b ∈ field.head?, isSign b = false := by
    intro field hmem b hb
    by_contra hnot
    exact hsign ⟨field, hmem, b, hb, Bool.eq_true_of_not_eq_false hnot⟩
  simp only [List.forall_mem_cons, List.not_mem_nil, false_imp_iff, implies_true, and_true]
    at hplain
  obtain ⟨p₁, p₂, p₃, p₄, p₅, p₆⟩ := hplain
  obtain ⟨y, hy, hlt, e₁⟩ := hfield (by decide) (by decide) rfl h.year p₁
  obtain ⟨m, hm, -, e₂⟩ := hfield (by decide) (by decide) rfl h.month p₂
  obtain ⟨d, hd, -, e₃⟩ := hfield (by decide) (by decide) rfl h.day p₃
  obtain ⟨hh, hhh, -, e₄⟩ := hfield (by decide) (by decide) rfl h.hour p₄
  obtain ⟨mm, hmm, -, e₅⟩ := hfield (by decide) (by decide) rfl h.minute p₅
  obtain ⟨ss, hss, -, e₆⟩ := hfield (by decide) (by decide) rfl h.second p₆
  refine ⟨y, m, d, hh, mm, ss, ?_, ?_, hlt⟩
  · cases f
    rw [AmzNumbers.mk.injEq]
    exact ⟨hy, hm, hd, hhh, hmm, hss⟩
  · apply Bytes.ofString_injective
    rw [hshape, ofString_amzDateText, e₁, e₂, e₃, e₄, e₅, e₆]

/-! ## What is read -/

/-- The parser reads the text beyond its grammar: a field has a sign, or the year is before
1970, or the month has no such day. -/
def Lenient (s : String) : Prop :=
  ∃ f : AmzNumbers, f.Of s ∧ f.InRange ∧ 0 ≤ f.seconds ∧
    (SignedField s ∨ f.y < 1970 ∨ (monthLength f.y.toNat f.m.toNat : Int) < f.d)

/-- The text is read exactly where it is of the grammar, to its instant, and no step on the
way leaves the `i64`s. -/
structure ReadsExactly (s : String) : Prop where
  accepts : ∀ t, parseAmzDate s = some t ↔ IsAmzDate s t
  fits : ∀ f : AmzNumbers, f.Of s → f.InRange →
    (i64Min ≤ daysFromCivil f.y f.m f.d * 86400 ∧ daysFromCivil f.y f.m f.d * 86400 ≤ i64Max) ∧
      i64Min ≤ f.seconds ∧ f.seconds ≤ i64Max

/-- Numbers of so few digits make no large instant. -/
theorem AmzNumbers.Of.fits {f : AmzNumbers} {s : String} (h : f.Of s) (hrange : f.InRange) :
    (i64Min ≤ daysFromCivil f.y f.m f.d * 86400 ∧ daysFromCivil f.y f.m f.d * 86400 ≤ i64Max) ∧
      i64Min ≤ f.seconds ∧ f.seconds ≤ i64Max := by
  have hlen : ∀ {start stop : Nat}, start < stop → stop ≤ 16 →
      (amzField s start stop).length = stop - start := by
    intro start stop hpos hstop
    rw [amzField, List.length_take, List.length_drop, h.length]
    omega
  have hy := parseNumber_bounds h.year
  have hhh := parseNumber_bounds h.hour
  have hmm := parseNumber_bounds h.minute
  have hss := parseNumber_bounds h.second
  rw [hlen (by decide) (by decide)] at hy hhh hmm hss
  have hdays : -5000000 ≤ daysFromCivil f.y f.m f.d ∧ daysFromCivil f.y f.m f.d ≤ 5000000 := by
    unfold AmzNumbers.InRange at hrange
    rw [daysFromCivil_eq]
    unfold marchDays
    split <;> omega
  unfold AmzNumbers.InRange at hrange
  unfold AmzNumbers.seconds i64Min i64Max
  generalize daysFromCivil f.y f.m f.d = days at hdays ⊢
  omega

/-- What is of the grammar is read, to its instant. -/
theorem IsAmzDate.read {s : String} {t : Int} (h : IsAmzDate s t) :
    parseAmzDate s = some t ∧ ¬ SignedField s ∧ ∃ y m d hh mm ss : Nat,
      AmzNumbers.Of ⟨y, m, d, hh, mm, ss⟩ s ∧ 1970 ≤ y ∧ d ≤ monthLength y m := by
  obtain ⟨y, m, d, hh, mm, ss, rfl, ⟨hy, hy'⟩, hdate, hhh, hmm, hss, rfl⟩ := h
  obtain ⟨hm, hm'⟩ := hdate.month
  obtain ⟨hd, hd'⟩ := hdate.day
  have hshort := monthLength_le y m
  obtain ⟨hof, hsign⟩ := numbers_of_text (y := y) (m := m) (d := d) (by omega) (by omega)
    (by omega) (show hh < 100 by omega) (show mm < 100 by omega) (show ss < 100 by omega)
  have hdays := daysFromCivil_dayNumber hy hm hm' hd
  have hseconds : AmzNumbers.seconds ⟨y, m, d, hh, mm, ss⟩ =
      dayNumber y m d * 86400 + hh * 3600 + mm * 60 + ss := by
    unfold AmzNumbers.seconds
    rw [hdays]
  refine ⟨?_, hsign, y, m, d, hh, mm, ss, hof, hy, hd'⟩
  refine parseAmzDate_eq_some.mpr ⟨⟨y, m, d, hh, mm, ss⟩, hof, ?_, ?_, hseconds.symm⟩
  · unfold AmzNumbers.InRange
    dsimp only
    omega
  · rw [hseconds]
    omega

/-- A text that is read and not leniently is of the grammar. -/
theorem isAmzDate_of_read {s : String} {t : Int} (h : parseAmzDate s = some t)
    (hstrict : ¬ Lenient s) : IsAmzDate s t := by
  obtain ⟨f, hf, hrange, hsecs, rfl⟩ := parseAmzDate_eq_some.mp h
  have hnone : ¬ (SignedField s ∨ f.y < 1970 ∨ (monthLength f.y.toNat f.m.toNat : Int) < f.d) :=
    fun hbad => hstrict ⟨f, hf, hrange, hsecs, hbad⟩
  obtain ⟨hsign, hdate⟩ := not_or.mp hnone
  obtain ⟨hyear, hday⟩ := not_or.mp hdate
  obtain ⟨y, m, d, hh, mm, ss, rfl, htext, hlt⟩ := text_of_numbers hf hsign
  unfold AmzNumbers.InRange at hrange
  dsimp only at hrange hyear hday
  rw [Int.toNat_natCast, Int.toNat_natCast] at hday
  have hdays := daysFromCivil_dayNumber (y := y) (m := m) (d := d) (by omega) (by omega) (by omega)
    (by omega)
  refine ⟨y, m, d, hh, mm, ss, htext, ⟨by omega, by omega⟩, ⟨by omega, by omega⟩, by omega,
    by omega, by omega, ?_⟩
  unfold AmzNumbers.seconds
  rw [hdays]

/-- A text that is read leniently is not of the grammar. -/
theorem Lenient.misread {s : String} (h : Lenient s) :
    ∃ t, parseAmzDate s = some t ∧ ¬ IsAmzDate s t := by
  obtain ⟨f, hf, hrange, hsecs, hbad⟩ := h
  refine ⟨f.seconds, parseAmzDate_eq_some.mpr ⟨f, hf, hrange, hsecs, rfl⟩, fun hdate => ?_⟩
  obtain ⟨-, hsign, y, m, d, hh, mm, ss, hof, hy, hd⟩ := hdate.read
  obtain rfl := hf.unique hof
  dsimp only at hbad
  rw [Int.toNat_natCast, Int.toNat_natCast] at hbad
  rcases hbad with hsigned | hyear | hday
  · exact hsign hsigned
  · omega
  · omega

/-- A text is read exactly as its grammar says unless it is read leniently. -/
theorem readsExactly_iff (s : String) : ReadsExactly s ↔ ¬ Lenient s := by
  constructor
  · intro h hlenient
    obtain ⟨t, hread, hnot⟩ := hlenient.misread
    exact hnot ((h.accepts t).mp hread)
  · intro hstrict
    refine ⟨fun t => ⟨fun h => isAmzDate_of_read h hstrict, fun h => h.read.1⟩, ?_⟩
    exact fun f hf hrange => hf.fits hrange

/-- The last of February and three days more. -/
theorem february_misread : ¬ ReadsExactly "20260231T000000Z" := by
  intro h
  have hlenient : Lenient "20260231T000000Z" := by
    refine ⟨⟨2026, 2, 31, 0, 0, 0⟩, ⟨?_, ?_, ?_, ?_, ?_, ?_, ?_, ?_, ?_⟩, ?_, ?_, .inr (.inr ?_)⟩
    all_goals try unfold AmzNumbers.InRange
    all_goals decide +kernel
  obtain ⟨t, hread, hnot⟩ := hlenient.misread
  exact hnot ((h.accepts t).mp hread)

end S4Logs
