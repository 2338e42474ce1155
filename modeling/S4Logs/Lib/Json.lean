import S4Logs.Lib.Bytes

/-!
# Compact JSON

The part of JSON that records of integers and texts are written in: null,
integers, texts, arrays and objects, written without blanks. A text is written
octet by octet, so the escaping knows nothing of UTF-8; beyond the octets that
must be escaped a writer may escape others (`extra`), which the reader undoes
like any escape.

`parse_compact` is the round trip. The reader is structural in a fuel, and the
number of octets is always fuel enough, since every nested value costs at least
the octet that opens it.
-/

/-- A JSON value. -/
inductive Json where
  | null
  | num (n : Int)
  | str (s : String)
  | arr (items : List Json)
  | obj (fields : List (String × Json))

namespace Json

/-! ## Numbers -/

/-- An octet that spells a decimal digit. -/
def isDigit (b : UInt8) : Bool := 48 ≤ b && b ≤ 57

/-- What follows a number may not go on spelling it. -/
def Delimited (rest : Bytes) : Prop := ∀ b ∈ rest.head?, isDigit b = false

/-- A number in decimal. -/
def writeNat (n : Nat) : Bytes := (Nat.toDigits 10 n).map fun c => UInt8.ofNat c.toNat

/-- A number in decimal, with its sign when it is negative. -/
def writeInt : Int → Bytes
  | .ofNat n => writeNat n
  | .negSucc n => 45 :: writeNat (n + 1)

/-- Read the digits at the front. -/
def readNat (bs : Bytes) : Option (Nat × Bytes) :=
  if (bs.takeWhile isDigit).isEmpty then none
  else some (Nat.ofDigitChars 10 ((bs.takeWhile isDigit).map fun b => Char.ofNat b.toNat) 0,
    bs.dropWhile isDigit)

/-- Read an integer at the front. -/
def readInt : Bytes → Option (Int × Bytes)
  | [] => none
  | b :: bs =>
    if b = 45 then (readNat bs).map fun r => (-(r.1 : Int), r.2)
    else (readNat (b :: bs)).map fun r => ((r.1 : Int), r.2)

theorem digit_spelled {c : Char} (h : c.isDigit = true) :
    isDigit (UInt8.ofNat c.toNat) = true ∧ Char.ofNat (UInt8.ofNat c.toNat).toNat = c := by
  have hlow : 48 ≤ c.toNat ∧ c.toNat ≤ 57 := by
    simp only [Char.isDigit, Bool.and_eq_true, decide_eq_true_eq] at h
    exact ⟨h.1, h.2⟩
  have hnat : (UInt8.ofNat c.toNat).toNat = c.toNat := by
    rw [UInt8.toNat_ofNat']
    exact Nat.mod_eq_of_lt (by omega)
  refine ⟨?_, by rw [hnat, Char.ofNat_toNat]⟩
  simp only [isDigit, Bool.and_eq_true, decide_eq_true_eq, UInt8.le_iff_toNat_le, hnat]
  exact hlow

theorem writeNat_digits (n : Nat) : ∀ b ∈ writeNat n, isDigit b = true := by
  intro b hb
  obtain ⟨c, hc, rfl⟩ := List.mem_map.mp hb
  exact (digit_spelled (Nat.isDigit_of_mem_toDigits (by omega) (by omega) hc)).1

theorem writeNat_ne_nil (n : Nat) : writeNat n ≠ [] :=
  fun h => Nat.toDigits_ne_nil (List.map_eq_nil_iff.mp h)

theorem readNat_writeNat (n : Nat) {rest : Bytes} (h : Delimited rest) :
    readNat (writeNat n ++ rest) = some (n, rest) := by
  have hstop : rest.takeWhile isDigit = [] ∧ rest.dropWhile isDigit = rest := by
    cases rest with
    | nil => exact ⟨rfl, rfl⟩
    | cons b bs =>
      have hb : isDigit b = false := h b rfl
      exact ⟨by rw [List.takeWhile_cons_of_neg (by simp [hb])],
        by rw [List.dropWhile_cons_of_neg (by simp [hb])]⟩
  have htake : (writeNat n ++ rest).takeWhile isDigit = writeNat n := by
    rw [List.takeWhile_append_of_pos (writeNat_digits n), hstop.1, List.append_nil]
  have hdrop : (writeNat n ++ rest).dropWhile isDigit = rest := by
    rw [List.dropWhile_append_of_pos (writeNat_digits n), hstop.2]
  have hchars : (writeNat n).map (fun b => Char.ofNat b.toNat) = Nat.toDigits 10 n := by
    unfold writeNat
    rw [List.map_map]
    refine (List.map_congr_left fun c hc => ?_).trans (List.map_id _)
    exact (digit_spelled (Nat.isDigit_of_mem_toDigits (by omega) (by omega) hc)).2
  unfold readNat
  rw [htake, hdrop, hchars, Nat.ofDigitChars_ten_toDigits, if_neg]
  simpa only [List.isEmpty_iff] using writeNat_ne_nil n

theorem readInt_writeInt (n : Int) {rest : Bytes} (h : Delimited rest) :
    readInt (writeInt n ++ rest) = some (n, rest) := by
  cases n with
  | ofNat n =>
    show readInt (writeNat n ++ rest) = _
    have hread := readNat_writeNat n h
    cases hds : writeNat n with
    | nil => exact absurd hds (writeNat_ne_nil n)
    | cons d ds =>
      have hd : isDigit d = true := writeNat_digits n d (by rw [hds]; exact List.mem_cons_self)
      have hsign : d ≠ 45 := by
        rintro rfl
        exact absurd hd (by decide)
      rw [hds] at hread
      simp only [List.cons_append, readInt, if_neg hsign] at hread ⊢
      rw [hread]
      rfl
  | negSucc n =>
    show readInt (45 :: (writeNat (n + 1) ++ rest)) = _
    simp only [readInt, if_true, readNat_writeNat (n + 1) h, Option.map_some]
    rfl

/-! ## Texts -/

/-- A hexadecimal digit, in lower case. -/
def hexDigit (n : Nat) : UInt8 := UInt8.ofNat (if n < 10 then 48 + n else 87 + n)

/-- The value of a hexadecimal digit. -/
def hexValue (b : UInt8) : Option Nat :=
  if 48 ≤ b ∧ b ≤ 57 then some (b.toNat - 48)
  else if 97 ≤ b ∧ b ≤ 102 then some (b.toNat - 87)
  else if 65 ≤ b ∧ b ≤ 70 then some (b.toNat - 55)
  else none

/-- An octet that is escaped by a letter, and the letter. -/
def shortEscape : List (UInt8 × UInt8) :=
  [(34, 34), (92, 92), (8, 98), (9, 116), (10, 110), (12, 102), (13, 114)]

/-- The letter an octet is escaped by. -/
def escapeLetter (b : UInt8) : Option UInt8 :=
  (shortEscape.find? fun p => p.1 = b).map Prod.snd

/-- The octet a letter stands for. -/
def unescapeLetter (b : UInt8) : Option UInt8 :=
  (shortEscape.find? fun p => p.2 = b).map Prod.fst

/-- The octets that stand for one octet of a text. Only octets of ASCII can be
escaped by their number, so `extra` has no say on the others. -/
def escapeByte (extra : UInt8 → Bool) (b : UInt8) : Bytes :=
  match escapeLetter b with
  | some l => [92, l]
  | none =>
    if b < 32 ∨ (extra b = true ∧ b < 128) then
      [92, 117, 48, 48, hexDigit (b.toNat / 16), hexDigit (b.toNat % 16)]
    else [b]

/-- A text between quotes. -/
def writeString (extra : UInt8 → Bool) (s : String) : Bytes :=
  34 :: ((Bytes.ofString s).flatMap (escapeByte extra) ++ [34])

/-- The octet that four hexadecimal digits number. Only the escapes of single
octets are read; the writer makes no others. -/
def hexByte (z z' h l : UInt8) : Option UInt8 :=
  if z = 48 ∧ z' = 48 then
    (hexValue h).bind fun h => (hexValue l).map fun l => UInt8.ofNat (16 * h + l)
  else none

/-- Read up to the closing quote, undoing the escapes. -/
def readChars : Bytes → Option (Bytes × Bytes)
  | [] => none
  | b :: bs =>
    if b = 34 then some ([], bs)
    else if b = 92 then
      match bs with
      | [] => none
      | c :: bs =>
        if c = 117 then
          match bs with
          | z :: z' :: h :: l :: rest =>
            (hexByte z z' h l).bind fun b => (readChars rest).map fun r => (b :: r.1, r.2)
          | _ => none
        else (unescapeLetter c).bind fun b => (readChars bs).map fun r => (b :: r.1, r.2)
    else if b < 32 then none
    else (readChars bs).map fun r => (b :: r.1, r.2)
termination_by structural bs => bs

/-- Read a text whose opening quote is already read. -/
def readString (bs : Bytes) : Option (String × Bytes) :=
  (readChars bs).bind fun r => (Bytes.toString? r.1).map fun s => (s, r.2)

theorem escapeLetter_spec : ∀ b l : UInt8, escapeLetter b = some l →
    unescapeLetter l = some b ∧ l ≠ 117 := by
  have key : (shortEscape.all fun p => unescapeLetter p.2 = some p.1 ∧ p.2 ≠ 117) = true := by
    decide
  intro b l h
  obtain ⟨p, hp, rfl⟩ := Option.map_eq_some_iff.mp h
  have hb : p.1 = b := by simpa using List.find?_some hp
  rw [← hb]
  exact of_decide_eq_true (List.all_eq_true.mp key p (List.mem_of_find?_eq_some hp))

theorem hexValue_hexDigit : ∀ n < 16, hexValue (hexDigit n) = some n := by decide

/-- Reading undoes the escape of one octet. -/
theorem readChars_escapeByte (extra : UInt8 → Bool) (b : UInt8) (rest : Bytes) :
    readChars (escapeByte extra b ++ rest) = (readChars rest).map fun r => (b :: r.1, r.2) := by
  unfold escapeByte
  cases hl : escapeLetter b with
  | some l =>
    obtain ⟨hun, hnu⟩ := escapeLetter_spec b l hl
    show readChars (92 :: l :: rest) = _
    rw [readChars.eq_def]
    simp only [show ¬ (92 : UInt8) = 34 by decide, if_false, if_true, if_neg hnu, hun,
      Option.bind_some]
  | none =>
    have h34 : b ≠ 34 := by
      rintro rfl
      exact absurd hl (by decide)
    have h92 : b ≠ 92 := by
      rintro rfl
      exact absurd hl (by decide)
    by_cases hc : b < 32 ∨ (extra b = true ∧ b < 128)
    · have _hlt : b.toNat < 256 := b.toNat_lt
      have hb : hexByte 48 48 (hexDigit (b.toNat / 16)) (hexDigit (b.toNat % 16)) = some b := by
        simp only [hexByte, and_self, if_true, hexValue_hexDigit (b.toNat / 16) (by omega),
          hexValue_hexDigit (b.toNat % 16) (by omega), Option.bind_some, Option.map_some,
          Nat.div_add_mod, UInt8.ofNat_toNat]
      simp only [if_pos hc, List.cons_append, List.nil_append]
      rw [readChars, if_neg (by decide), if_pos rfl]
      simp only [if_true, hb, Option.bind_some]
    · have hge : ¬ b < 32 := fun h => hc (.inl h)
      simp only [if_neg hc, List.cons_append, List.nil_append]
      rw [readChars.eq_def]
      simp only [if_neg h34, if_neg h92, if_neg hge]

theorem readChars_flatMap (extra : UInt8 → Bool) (cs rest : Bytes) :
    readChars (cs.flatMap (escapeByte extra) ++ 34 :: rest) = some (cs, rest) := by
  induction cs with
  | nil =>
    rw [List.flatMap_nil, List.nil_append, readChars.eq_def]
    simp only [if_true]
  | cons c cs ih =>
    rw [List.flatMap_cons, List.append_assoc, readChars_escapeByte, ih]
    rfl

theorem readString_writeString (extra : UInt8 → Bool) (s : String) (rest : Bytes) :
    readString ((Bytes.ofString s).flatMap (escapeByte extra) ++ 34 :: rest) =
      some (s, rest) := by
  unfold readString
  rw [readChars_flatMap, Option.bind_some, Bytes.toString?_ofString]
  rfl

/-! ## Values -/

variable (extra : UInt8 → Bool)

mutual

/-- A value written without blanks. -/
def compact : Json → Bytes
  | .null => [110, 117, 108, 108]
  | .num n => writeInt n
  | .str s => writeString extra s
  | .arr [] => [91, 93]
  | .arr (x :: xs) => 91 :: (compact x ++ compactItems xs)
  | .obj [] => [123, 125]
  | .obj ((k, x) :: fs) => 123 :: (writeString extra k ++ 58 :: (compact x ++ compactFields fs))

/-- The items of an array after its first. -/
def compactItems : List Json → Bytes
  | [] => [93]
  | x :: xs => 44 :: (compact x ++ compactItems xs)

/-- The fields of an object after its first. -/
def compactFields : List (String × Json) → Bytes
  | [] => [125]
  | (k, x) :: fs => 44 :: (writeString extra k ++ 58 :: (compact x ++ compactFields fs))

end

/-- Read the octet `b` at the front. -/
def expect (b : UInt8) : Bytes → Option Bytes
  | [] => none
  | c :: bs => if c = b then some bs else none

mutual

/-- Read a value at the front. -/
def value : Nat → Bytes → Option (Json × Bytes)
  | 0, _ => none
  | _ + 1, [] => none
  | fuel + 1, b :: bs =>
    if b = 110 then
      match bs with
      | 117 :: 108 :: 108 :: rest => some (.null, rest)
      | _ => none
    else if b = 34 then (readString bs).map fun r => (.str r.1, r.2)
    else if b = 91 then
      match expect 93 bs with
      | some rest => some (.arr [], rest)
      | none => do
        let (x, rest) ← value fuel bs
        let (xs, rest) ← items fuel rest
        some (.arr (x :: xs), rest)
    else if b = 123 then
      match expect 125 bs with
      | some rest => some (.obj [], rest)
      | none => do
        let (k, x, rest) ← field fuel bs
        let (fs, rest) ← fields fuel rest
        some (.obj ((k, x) :: fs), rest)
    else (readInt (b :: bs)).map fun r => (.num r.1, r.2)

/-- Read the items of an array after its first. -/
def items : Nat → Bytes → Option (List Json × Bytes)
  | 0, _ => none
  | fuel + 1, bs =>
    match expect 93 bs with
    | some rest => some ([], rest)
    | none => do
      let rest ← expect 44 bs
      let (x, rest) ← value fuel rest
      let (xs, rest) ← items fuel rest
      some (x :: xs, rest)

/-- Read a key and its value. -/
def field : Nat → Bytes → Option (String × Json × Bytes)
  | 0, _ => none
  | fuel + 1, bs => do
    let rest ← expect 34 bs
    let (k, rest) ← readString rest
    let rest ← expect 58 rest
    let (x, rest) ← value fuel rest
    some (k, x, rest)

/-- Read the fields of an object after its first. -/
def fields : Nat → Bytes → Option (List (String × Json) × Bytes)
  | 0, _ => none
  | fuel + 1, bs =>
    match expect 125 bs with
    | some rest => some ([], rest)
    | none => do
      let rest ← expect 44 bs
      let (k, x, rest) ← field fuel rest
      let (fs, rest) ← fields fuel rest
      some ((k, x) :: fs, rest)

end

/-- The octet an integer starts with opens nothing else. -/
theorem writeInt_head (n : Int) : ∃ b bs, writeInt n = b :: bs ∧
    b ≠ 110 ∧ b ≠ 34 ∧ b ≠ 91 ∧ b ≠ 123 ∧ b ≠ 93 ∧ b ≠ 125 := by
  have key : ∀ b, isDigit b = true ∨ b = 45 →
      b ≠ 110 ∧ b ≠ 34 ∧ b ≠ 91 ∧ b ≠ 123 ∧ b ≠ 93 ∧ b ≠ 125 := by
    rintro b h
    refine ⟨?_, ?_, ?_, ?_, ?_, ?_⟩ <;> rintro rfl <;> exact absurd h (by decide)
  cases n with
  | ofNat n =>
    cases hds : writeNat n with
    | nil => exact absurd hds (writeNat_ne_nil n)
    | cons d ds =>
      have hd := writeNat_digits n d (by rw [hds]; exact List.mem_cons_self)
      exact ⟨d, ds, hds, key d (.inl hd)⟩
  | negSucc n => exact ⟨45, writeNat (n + 1), rfl, key 45 (.inr rfl)⟩

/-- No value starts like the end of an array or an object. -/
theorem expect_compact {c : UInt8} (hc : c = 93 ∨ c = 125) (j : Json) (rest : Bytes) :
    expect c (compact extra j ++ rest) = none := by
  have key : ∀ b bs, b ≠ 93 → b ≠ 125 → expect c (b :: bs) = none := by
    intro b bs h93 h125
    rcases hc with rfl | rfl
    · exact if_neg h93
    · exact if_neg h125
  cases j with
  | null => exact key 110 _ (by decide) (by decide)
  | num n =>
    obtain ⟨b, bs, hn, -, -, -, -, h93, h125⟩ := writeInt_head n
    rw [compact, hn]
    exact key b _ h93 h125
  | str s => exact key 34 _ (by decide) (by decide)
  | arr xs =>
    cases xs with
    | nil => exact key 91 _ (by decide) (by decide)
    | cons => exact key 91 _ (by decide) (by decide)
  | obj fs =>
    cases fs with
    | nil => exact key 123 _ (by decide) (by decide)
    | cons => exact key 123 _ (by decide) (by decide)

theorem delimited_compactItems (xs : List Json) (rest : Bytes) :
    Delimited (compactItems extra xs ++ rest) := by
  intro b hb
  cases xs with
  | nil =>
    cases hb
    decide
  | cons =>
    cases hb
    decide

theorem delimited_compactFields (fs : List (String × Json)) (rest : Bytes) :
    Delimited (compactFields extra fs ++ rest) := by
  intro b hb
  cases fs with
  | nil =>
    cases hb
    decide
  | cons =>
    cases hb
    decide

theorem writeString_append (s : String) (rest : Bytes) :
    writeString extra s ++ rest =
      34 :: ((Bytes.ofString s).flatMap (escapeByte extra) ++ 34 :: rest) := by
  simp only [writeString, List.cons_append, List.append_assoc, List.nil_append]

/-- What the readers do with enough fuel: each inverts its writer. -/
structure Reads (fuel : Nat) : Prop where
  value : ∀ j rest, (compact extra j).length ≤ fuel → Delimited rest →
    value fuel (compact extra j ++ rest) = some (j, rest)
  items : ∀ xs rest, (compactItems extra xs).length ≤ fuel →
    items fuel (compactItems extra xs ++ rest) = some (xs, rest)
  field : ∀ k x rest, (writeString extra k).length + (compact extra x).length + 1 ≤ fuel →
    Delimited rest →
    field fuel (writeString extra k ++ 58 :: (compact extra x ++ rest)) = some (k, x, rest)
  fields : ∀ fs rest, (compactFields extra fs).length ≤ fuel →
    fields fuel (compactFields extra fs ++ rest) = some (fs, rest)

theorem compact_ne_nil (j : Json) : compact extra j ≠ [] := by
  intro h
  have hend := expect_compact extra (c := 93) (.inl rfl) j [93]
  rw [h] at hend
  exact absurd hend (by decide)

/-- An object is read back whatever follows it. -/
theorem value_obj {fuel : Nat} (ih : Reads extra fuel) (fs : List (String × Json)) (rest : Bytes)
    (hfuel : (compact extra (.obj fs)).length ≤ fuel + 1) :
    value (fuel + 1) (compact extra (.obj fs) ++ rest) = some (.obj fs, rest) := by
  match fs with
  | [] =>
    simp +decide only [compact, List.cons_append, List.nil_append, Json.value, if_false, if_true,
      expect]
  | (k, x) :: fs =>
    simp only [compact, List.length_cons, List.length_append] at hfuel
    have hx := ih.field k x (compactFields extra fs ++ rest) (by omega)
      (delimited_compactFields extra fs rest)
    have hfs := ih.fields fs rest (by omega)
    have hend : expect 125 (writeString extra k ++
        58 :: (compact extra x ++ (compactFields extra fs ++ rest))) = none := rfl
    simp +decide only [compact, List.cons_append, List.append_assoc, Json.value, if_false,
      if_true, hend, hx, hfs, Option.bind_eq_bind, Option.bind_some]

/-- The round trip of a value, from that of the values it holds. -/
theorem value_compact {fuel : Nat} (ih : Reads extra fuel) (j : Json) (rest : Bytes)
    (hfuel : (compact extra j).length ≤ fuel + 1) (hrest : Delimited rest) :
    value (fuel + 1) (compact extra j ++ rest) = some (j, rest) := by
  match j with
  | .null => simp only [compact, List.cons_append, Json.value, if_true, List.nil_append]
  | .num n =>
    obtain ⟨b, bs, hn, h110, h34, h91, h123, -, -⟩ := writeInt_head n
    have hread := readInt_writeInt n hrest
    simp only [compact, hn, List.cons_append] at hread ⊢
    rw [Json.value.eq_def]
    simp only [if_neg h110, if_neg h34, if_neg h91, if_neg h123, hread, Option.map_some]
  | .str s =>
    simp +decide only [compact, writeString_append, Json.value, if_false, if_true,
      readString_writeString, Option.map_some]
  | .arr [] =>
    simp +decide only [compact, List.cons_append, List.nil_append, Json.value, if_false, if_true,
      expect]
  | .arr (x :: xs) =>
    simp only [compact, List.length_cons, List.length_append] at hfuel
    have hx := ih.value x (compactItems extra xs ++ rest) (by omega)
      (delimited_compactItems extra xs rest)
    have hxs := ih.items xs rest (by omega)
    simp +decide only [compact, List.cons_append, List.append_assoc, Json.value, if_false,
      if_true, expect_compact extra (.inl rfl), hx, hxs, Option.bind_eq_bind, Option.bind_some]
  | .obj fs => exact value_obj extra ih fs rest hfuel

theorem items_compactItems {fuel : Nat} (ih : Reads extra fuel) (xs : List Json) (rest : Bytes)
    (hfuel : (compactItems extra xs).length ≤ fuel + 1) :
    items (fuel + 1) (compactItems extra xs ++ rest) = some (xs, rest) := by
  cases xs with
  | nil => simp only [compactItems, List.cons_append, List.nil_append, Json.items, expect, if_true]
  | cons x xs =>
    simp only [compactItems, List.length_cons, List.length_append] at hfuel
    have hx := ih.value x (compactItems extra xs ++ rest) (by omega)
      (delimited_compactItems extra xs rest)
    have hxs := ih.items xs rest (by omega)
    simp +decide only [compactItems, List.cons_append, List.append_assoc, Json.items, expect,
      if_false, if_true, hx, hxs, Option.bind_eq_bind, Option.bind_some]

theorem field_compact {fuel : Nat} (ih : Reads extra fuel) (k : String) (x : Json) (rest : Bytes)
    (hfuel : (writeString extra k).length + (compact extra x).length + 1 ≤ fuel + 1)
    (hrest : Delimited rest) :
    field (fuel + 1) (writeString extra k ++ 58 :: (compact extra x ++ rest)) =
      some (k, x, rest) := by
  have hx := ih.value x rest (by omega) hrest
  simp only [writeString_append, Json.field, expect, if_true, readString_writeString, hx,
    Option.bind_eq_bind, Option.bind_some]

theorem fields_compactFields {fuel : Nat} (ih : Reads extra fuel) (fs : List (String × Json))
    (rest : Bytes) (hfuel : (compactFields extra fs).length ≤ fuel + 1) :
    fields (fuel + 1) (compactFields extra fs ++ rest) = some (fs, rest) := by
  match fs with
  | [] => simp only [compactFields, List.cons_append, List.nil_append, Json.fields, expect, if_true]
  | (k, x) :: fs =>
    simp only [compactFields, List.length_cons, List.length_append] at hfuel
    have hx := ih.field k x (compactFields extra fs ++ rest) (by omega)
      (delimited_compactFields extra fs rest)
    have hfs := ih.fields fs rest (by omega)
    simp +decide only [compactFields, List.cons_append, List.append_assoc, Json.fields, expect,
      if_false, if_true, hx, hfs, Option.bind_eq_bind, Option.bind_some]

/-- Fuel for every octet is enough. -/
theorem reads : ∀ fuel, Reads extra fuel
  | 0 => {
      value := fun j _ h => absurd (List.length_eq_zero_iff.mp (Nat.le_zero.mp h))
        (compact_ne_nil extra j)
      items := fun xs _ h => by cases xs <;> simp [compactItems] at h
      field := fun _ _ _ h => by omega
      fields := fun fs _ h => by cases fs <;> simp [compactFields] at h }
  | fuel + 1 => {
      value := value_compact extra (reads fuel)
      items := items_compactItems extra (reads fuel)
      field := field_compact extra (reads fuel)
      fields := fields_compactFields extra (reads fuel) }

/-- Read a whole text as one value. -/
def parse (bs : Bytes) : Option Json :=
  (value bs.length bs).bind fun r => if r.2.isEmpty then some r.1 else none

/-- The round trip. -/
theorem parse_compact (j : Json) : parse (compact extra j) = some j := by
  have hvalue := (reads extra _).value j [] (Nat.le_refl _) (fun b hb => by cases hb)
  rw [List.append_nil] at hvalue
  simp only [parse, hvalue, Option.bind_some, List.isEmpty_nil, if_true]

/-- No object begins another. -/
theorem compact_obj_begins {fs gs : List (String × Json)}
    (h : compact extra (.obj fs) <+: compact extra (.obj gs)) : fs = gs := by
  obtain ⟨rest, hrest⟩ := h
  have hlen := congrArg List.length hrest
  rw [List.length_append] at hlen
  have hfs := value_obj extra (reads extra (compact extra (.obj gs)).length) fs rest (by omega)
  have hgs := value_obj extra (reads extra (compact extra (.obj gs)).length) gs [] (Nat.le_succ _)
  rw [hrest] at hfs
  rw [List.append_nil, hfs] at hgs
  exact Json.obj.inj (Prod.mk.inj (Option.some.inj hgs)).1

/-! ## Which octets occur -/

theorem hexDigit_range : ∀ n < 16, 32 ≤ hexDigit n ∧ hexDigit n ≠ 123 := by decide

theorem escapeLetter_range (b l : UInt8) (h : escapeLetter b = some l) : 32 ≤ l ∧ l ≠ 123 := by
  have key : (shortEscape.all fun p => 32 ≤ p.2 ∧ p.2 ≠ 123) = true := by decide
  obtain ⟨p, hp, rfl⟩ := Option.map_eq_some_iff.mp h
  exact of_decide_eq_true (List.all_eq_true.mp key p (List.mem_of_find?_eq_some hp))

/-- An escaped octet has no control octet in it, and no brace where braces are escaped. -/
theorem escapeByte_range (b : UInt8) :
    ∀ c ∈ escapeByte extra b, 32 ≤ c ∧ (extra 123 = true → c ≠ 123) := by
  intro c hc
  have _hlt : b.toNat < 256 := b.toNat_lt
  have hhi := hexDigit_range (b.toNat / 16) (by omega)
  have hlo := hexDigit_range (b.toNat % 16) (by omega)
  unfold escapeByte at hc
  split at hc
  next l hl =>
    have hrange := escapeLetter_range b l hl
    simp only [List.mem_cons, List.not_mem_nil, or_false] at hc
    rcases hc with rfl | rfl
    · exact ⟨by decide, fun _ => by decide⟩
    · exact ⟨hrange.1, fun _ => hrange.2⟩
  next =>
    split at hc
    next =>
      simp only [List.mem_cons, List.not_mem_nil, or_false] at hc
      rcases hc with rfl | rfl | rfl | rfl | rfl | rfl
      · exact ⟨by decide, fun _ => by decide⟩
      · exact ⟨by decide, fun _ => by decide⟩
      · exact ⟨by decide, fun _ => by decide⟩
      · exact ⟨by decide, fun _ => by decide⟩
      · exact ⟨hhi.1, fun _ => hhi.2⟩
      · exact ⟨hlo.1, fun _ => hlo.2⟩
    next hplain =>
      cases List.mem_singleton.mp hc
      refine ⟨UInt8.not_lt.mp fun h => hplain (.inl h), fun hextra => ?_⟩
      rintro rfl
      exact hplain (.inr ⟨hextra, by decide⟩)

theorem writeString_range (s : String) :
    ∀ c ∈ writeString extra s, 32 ≤ c ∧ (extra 123 = true → c ≠ 123) := by
  intro c hc
  simp only [writeString, List.mem_cons, List.mem_append, List.mem_flatMap, List.not_mem_nil,
    or_false] at hc
  rcases hc with rfl | ⟨b, -, hb⟩ | rfl
  · exact ⟨by decide, fun _ => by decide⟩
  · exact escapeByte_range extra b c hb
  · exact ⟨by decide, fun _ => by decide⟩

theorem writeInt_range (n : Int) : ∀ c ∈ writeInt n, 32 ≤ c ∧ c ≠ 123 := by
  have key : ∀ c, isDigit c = true → 32 ≤ c ∧ c ≠ 123 := by
    intro c hc
    refine ⟨?_, ?_⟩
    · simp only [isDigit, Bool.and_eq_true, decide_eq_true_eq] at hc
      exact UInt8.le_trans (by decide) hc.1
    · rintro rfl
      exact absurd hc (by decide)
  intro c hc
  cases n with
  | ofNat n => exact key c (writeNat_digits n c hc)
  | negSucc n =>
    rcases List.mem_cons.mp hc with rfl | hc
    · exact ⟨by decide, by decide⟩
    · exact key c (writeNat_digits (n + 1) c hc)

mutual

/-- A compact text has no control octet in it, in particular no newline. -/
theorem compact_range (j : Json) : ∀ c ∈ compact extra j, 32 ≤ c := by
  intro c hc
  match j with
  | .null =>
    simp only [compact, List.mem_cons, List.not_mem_nil, or_false] at hc
    rcases hc with rfl | rfl | rfl | rfl <;> decide
  | .num n => exact (writeInt_range n c hc).1
  | .str s => exact (writeString_range extra s c hc).1
  | .arr [] =>
    simp only [compact, List.mem_cons, List.not_mem_nil, or_false] at hc
    rcases hc with rfl | rfl <;> decide
  | .arr (x :: xs) =>
    simp only [compact, List.mem_cons, List.mem_append] at hc
    rcases hc with rfl | hc | hc
    · decide
    · exact compact_range x c hc
    · exact compactItems_range xs c hc
  | .obj [] =>
    simp only [compact, List.mem_cons, List.not_mem_nil, or_false] at hc
    rcases hc with rfl | rfl <;> decide
  | .obj ((k, x) :: fs) =>
    simp only [compact, List.mem_cons, List.mem_append] at hc
    rcases hc with rfl | hc | rfl | hc | hc
    · decide
    · exact (writeString_range extra k c hc).1
    · decide
    · exact compact_range x c hc
    · exact compactFields_range fs c hc

theorem compactItems_range (xs : List Json) : ∀ c ∈ compactItems extra xs, 32 ≤ c := by
  intro c hc
  match xs with
  | [] =>
    cases List.mem_singleton.mp hc
    decide
  | x :: xs =>
    simp only [compactItems, List.mem_cons, List.mem_append] at hc
    rcases hc with rfl | hc | hc
    · decide
    · exact compact_range x c hc
    · exact compactItems_range xs c hc

theorem compactFields_range (fs : List (String × Json)) :
    ∀ c ∈ compactFields extra fs, 32 ≤ c := by
  intro c hc
  match fs with
  | [] =>
    cases List.mem_singleton.mp hc
    decide
  | (k, x) :: fs =>
    simp only [compactFields, List.mem_cons, List.mem_append] at hc
    rcases hc with rfl | hc | rfl | hc | hc
    · decide
    · exact (writeString_range extra k c hc).1
    · decide
    · exact compact_range x c hc
    · exact compactFields_range fs c hc

end

/-- A compact text is one line. -/
theorem newline_notMem_compact (j : Json) : Bytes.newline ∉ compact extra j :=
  fun h => absurd (compact_range extra j _ h) (by decide)

/-! ## Records as objects -/

def asInt? : Json → Option Int
  | .num n => some n
  | _ => none

def asNat? : Json → Option Nat
  | .num n => if 0 ≤ n then some n.toNat else none
  | _ => none

def asStr? : Json → Option String
  | .str s => some s
  | _ => none

def asArr? : Json → Option (List Json)
  | .arr xs => some xs
  | _ => none

def asObj? : Json → Option (List (String × Json))
  | .obj fs => some fs
  | _ => none

/-- The value of a field. -/
def get? (name : String) : List (String × Json) → Option Json
  | [] => none
  | (k, x) :: fs => if k = name then some x else get? name fs

/-- Read a field that must be there. -/
def required {α : Type} (name : String) (read : Json → Option α) (fs : List (String × Json)) :
    Option α :=
  (get? name fs).bind read

/-- Read a field that may be missing or null. -/
def optional {α : Type} (name : String) (read : Json → Option α) (fs : List (String × Json)) :
    Option (Option α) :=
  match get? name fs with
  | none | some .null => some none
  | some x => (read x).map some

/-- A field that is left out where there is no value. -/
def skipNone (name : String) : Option Json → List (String × Json)
  | none => []
  | some x => [(name, x)]

end Json
