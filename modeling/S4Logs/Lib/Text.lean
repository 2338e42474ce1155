import Mathlib.Algebra.Order.Ring.Nat
import Mathlib.Data.List.Basic
import Mathlib.Data.List.Induction

/-!
# Texts as lists of characters

The string operations of the standard library that names and keys are taken
apart with, over lists of characters, each with the one fact that says when it
undoes a concatenation. Lengths and cuts count octets, as the source's do: a cut
that does not fall between two characters has no result.

Decimal and zero-padded numbers are injective, so a name made of them names one
number.
-/

namespace Text

/-- The characters after the last `sep`, or all where there is none. -/
def lastSegment (sep : Char) (cs : List Char) : List Char :=
  (cs.reverse.takeWhile (· ≠ sep)).reverse

/-- What stands before and after the last `sep`. -/
def rsplitOnce (sep : Char) (cs : List Char) : Option (List Char × List Char) :=
  if sep ∈ cs then
    some ((cs.reverse.dropWhile (· ≠ sep)).tail.reverse, lastSegment sep cs)
  else none

/-- What stands before and after the first `sep`. -/
def splitOnce (sep : Char) (cs : List Char) : Option (List Char × List Char) :=
  if sep ∈ cs then some (cs.takeWhile (· ≠ sep), (cs.dropWhile (· ≠ sep)).tail) else none

/-- What stands after `pre`, where the text starts with it. -/
def stripPrefix (pre cs : List Char) : Option (List Char) :=
  if pre <+: cs then some (cs.drop pre.length) else none

/-- What stands before `suf`, where the text ends with it. -/
def stripSuffix (suf cs : List Char) : Option (List Char) :=
  if suf <:+ cs then some (cs.take (cs.length - suf.length)) else none

/-- The text without the `sep`s at its ends. -/
def trimMatches (sep : Char) (cs : List Char) : List Char :=
  ((cs.dropWhile (· = sep)).reverse.dropWhile (· = sep)).reverse

/-- The text without the blanks at its ends. -/
def trim (cs : List Char) : List Char :=
  ((cs.dropWhile Char.isWhitespace).reverse.dropWhile Char.isWhitespace).reverse

/-- The number of octets of a text in UTF-8. -/
def byteLen (cs : List Char) : Nat := (cs.map Char.utf8Size).sum

/-- The first `n` octets of a text, where they end between two characters. -/
def takeBytes : Nat → List Char → Option (List Char)
  | 0, _ => some []
  | _ + 1, [] => none
  | n + 1, c :: cs =>
    if c.utf8Size ≤ n + 1 then (takeBytes (n + 1 - c.utf8Size) cs).map (c :: ·) else none
termination_by structural _ cs => cs

/-- Read an unsigned number below `bound`: decimal digits, after an optional plus sign. -/
def parseUnsigned (bound : Nat) (cs : List Char) : Option Nat :=
  let ds := (stripPrefix ['+'] cs).getD cs
  if ds ≠ [] ∧ ds.all Char.isDigit ∧ Nat.ofDigitChars 10 ds 0 < bound then
    some (Nat.ofDigitChars 10 ds 0)
  else none

/-- Read a number from `lo` to `hi`: decimal digits, after an optional sign. -/
def parseSigned (lo hi : Int) (cs : List Char) : Option Int :=
  let digits (ds : List Char) : Option Int :=
    if ds ≠ [] ∧ ds.all Char.isDigit then some (Nat.ofDigitChars 10 ds 0) else none
  let value := match cs with
    | '+' :: ds => digits ds
    | '-' :: ds => (digits ds).map Neg.neg
    | ds => digits ds
  value.filter fun n => decide (lo ≤ n ∧ n ≤ hi)

/-- A number in decimal, with zeros in front up to `width` digits. -/
def padded (width n : Nat) : List Char := List.leftpad width '0' (Nat.toDigits 10 n)

/-- Left of a separator that neither left part has, nothing can differ. -/
theorem append_cons_inj (sep : Char) {a a' b b' : List Char} (ha : sep ∉ a) (ha' : sep ∉ a')
    (h : a ++ sep :: b = a' ++ sep :: b') : a = a' ∧ b = b' := by
  induction a generalizing a' with
  | nil =>
    cases a' with
    | nil => exact ⟨rfl, (List.cons.inj h).2⟩
    | cons c a' =>
      have hc : sep = c := (List.cons.inj h).1
      exact absurd (hc ▸ List.mem_cons_self) ha'
  | cons c a ih =>
    cases a' with
    | nil =>
      have hc : c = sep := (List.cons.inj h).1
      exact absurd (hc ▸ List.mem_cons_self) ha
    | cons c' a' =>
      obtain ⟨hc, htail⟩ := List.cons.inj h
      obtain ⟨rfl, rfl⟩ := ih (fun hm => ha (List.mem_cons_of_mem _ hm))
        (fun hm => ha' (List.mem_cons_of_mem _ hm)) htail
      exact ⟨by rw [hc], rfl⟩

/-- A text that has the separator starts another where the parts before it agree and the
parts after it do. -/
theorem append_cons_prefix (sep : Char) {a a' b b' : List Char} (ha : sep ∉ a) (ha' : sep ∉ a') :
    a ++ sep :: b <+: a' ++ sep :: b' ↔ a = a' ∧ b <+: b' := by
  constructor
  · rintro ⟨t, ht⟩
    rw [List.append_assoc, List.cons_append] at ht
    obtain ⟨hfirst, hrest⟩ := append_cons_inj sep ha ha' ht
    exact ⟨hfirst, t, hrest⟩
  · rintro ⟨rfl, t, rfl⟩
    exact ⟨t, by rw [List.append_assoc, List.cons_append]⟩

/-- The same from the other end. -/
theorem append_cons_inj_last {sep : Char} {a a' b b' : List Char} (hb : sep ∉ b) (hb' : sep ∉ b')
    (h : a ++ sep :: b = a' ++ sep :: b') : a = a' ∧ b = b' := by
  have hrev : b.reverse ++ sep :: a.reverse = b'.reverse ++ sep :: a'.reverse := by
    have := congrArg List.reverse h
    simpa only [List.reverse_append, List.reverse_cons, List.append_assoc, List.cons_append,
      List.nil_append] using this
  obtain ⟨h₁, h₂⟩ := append_cons_inj sep (fun hm => hb (List.mem_reverse.mp hm))
    (fun hm => hb' (List.mem_reverse.mp hm)) hrev
  exact ⟨List.reverse_injective h₂, List.reverse_injective h₁⟩

theorem takeWhile_ne_append {sep : Char} {b : List Char} (hb : sep ∉ b) (a : List Char) :
    (b ++ sep :: a).takeWhile (· ≠ sep) = b ∧ (b ++ sep :: a).dropWhile (· ≠ sep) = sep :: a := by
  have hpos : ∀ c ∈ b, decide (c ≠ sep) = true := by
    intro c hc
    exact decide_eq_true fun heq => hb (heq ▸ hc)
  rw [List.takeWhile_append_of_pos hpos, List.dropWhile_append_of_pos hpos,
    List.takeWhile_cons_of_neg (by simp), List.dropWhile_cons_of_neg (by simp), List.append_nil]
  exact ⟨rfl, rfl⟩

theorem lastSegment_append {sep : Char} {b : List Char} (hb : sep ∉ b) (a : List Char) :
    lastSegment sep (a ++ sep :: b) = b := by
  have hrev : sep ∉ b.reverse := fun h => hb (List.mem_reverse.mp h)
  unfold lastSegment
  rw [List.reverse_append, List.reverse_cons, List.append_assoc, List.singleton_append,
    (takeWhile_ne_append hrev a.reverse).1, List.reverse_reverse]

theorem rsplitOnce_append (sep : Char) {b : List Char} (hb : sep ∉ b) (a : List Char) :
    rsplitOnce sep (a ++ sep :: b) = some (a, b) := by
  have hrev : sep ∉ b.reverse := fun h => hb (List.mem_reverse.mp h)
  have hmem : sep ∈ a ++ sep :: b := List.mem_append_right _ List.mem_cons_self
  unfold rsplitOnce
  rw [if_pos hmem, lastSegment_append hb, List.reverse_append, List.reverse_cons,
    List.append_assoc, List.singleton_append, (takeWhile_ne_append hrev a.reverse).2,
    List.tail_cons, List.reverse_reverse]

theorem splitOnce_append {sep : Char} {a : List Char} (ha : sep ∉ a) (b : List Char) :
    splitOnce sep (a ++ sep :: b) = some (a, b) := by
  have hmem : sep ∈ a ++ sep :: b := List.mem_append_right _ List.mem_cons_self
  obtain ⟨hfirst, hrest⟩ := takeWhile_ne_append ha b
  rw [splitOnce, if_pos hmem, hfirst, hrest, List.tail_cons]

@[simp] theorem stripPrefix_append (pre cs : List Char) : stripPrefix pre (pre ++ cs) = some cs := by
  unfold stripPrefix
  rw [if_pos (List.prefix_append pre cs), List.drop_left]

@[simp] theorem stripSuffix_append (cs suf : List Char) : stripSuffix suf (cs ++ suf) = some cs := by
  unfold stripSuffix
  rw [if_pos (List.suffix_append cs suf), List.length_append, Nat.add_sub_cancel, List.take_left]

/-- What is stripped was there. -/
theorem eq_append_of_stripPrefix {pre cs rest : List Char} (h : stripPrefix pre cs = some rest) :
    cs = pre ++ rest := by
  unfold stripPrefix at h
  split at h
  next hpre =>
    obtain ⟨t, rfl⟩ := hpre
    rw [List.drop_left] at h
    rw [Option.some.inj h]
  next => cases h

theorem eq_append_of_stripSuffix {suf cs rest : List Char} (h : stripSuffix suf cs = some rest) :
    cs = rest ++ suf := by
  unfold stripSuffix at h
  split at h
  next hsuf =>
    obtain ⟨t, rfl⟩ := hsuf
    rw [List.length_append, Nat.add_sub_cancel, List.take_left] at h
    rw [Option.some.inj h]
  next => cases h

/-- The last separator is the last. -/
theorem eq_append_of_rsplitOnce {sep : Char} {cs before rest : List Char}
    (h : rsplitOnce sep cs = some (before, rest)) : cs = before ++ sep :: rest ∧ sep ∉ rest := by
  have hmem : sep ∈ cs := by
    by_contra hnot
    rw [rsplitOnce, if_neg hnot] at h
    cases h
  obtain ⟨a, b, hcs, hb⟩ := List.eq_append_cons_of_mem (List.mem_reverse.mpr hmem)
  have hsplit : cs = b.reverse ++ sep :: a.reverse := by
    rw [← List.reverse_reverse cs, hcs, List.reverse_append, List.reverse_cons, List.append_assoc,
      List.singleton_append]
  have hrest : sep ∉ a.reverse := fun hsep => hb (List.mem_reverse.mp hsep)
  rw [hsplit, rsplitOnce_append sep hrest] at h
  obtain ⟨rfl, rfl⟩ := Prod.mk.inj (Option.some.inj h)
  exact ⟨hsplit, hrest⟩

/-! ## Octets -/

theorem byteLen_cons (c : Char) (cs : List Char) : byteLen (c :: cs) = c.utf8Size + byteLen cs := rfl

/-- A cut has no result where no characters at the front make up so many octets. -/
theorem takeBytes_eq_none {cs : List Char} : ∀ {n : Nat},
    takeBytes n cs = none ↔ ∀ front, front <+: cs → byteLen front ≠ n := by
  induction cs with
  | nil =>
    intro n
    cases n with
    | zero =>
      refine ⟨fun h => (by cases h), fun h => ?_⟩
      exact absurd rfl (h [] List.nil_prefix)
    | succ n =>
      refine iff_of_true rfl fun front hfront => ?_
      rw [List.prefix_nil.mp hfront]
      exact (Nat.succ_ne_zero n).symm
  | cons c cs ih =>
    intro n
    have hsize : 0 < c.utf8Size := Char.utf8Size_pos c
    cases n with
    | zero =>
      refine ⟨fun h => (by cases h), fun h => ?_⟩
      exact absurd rfl (h [] List.nil_prefix)
    | succ n =>
      unfold takeBytes
      split
      next hfits =>
        rw [Option.map_eq_none_iff, ih]
        constructor
        · intro h front hfront
          cases front with
          | nil => exact (Nat.succ_ne_zero n).symm
          | cons d front =>
            obtain ⟨rfl, hrest⟩ := List.cons_prefix_cons.mp hfront
            have hne := h front hrest
            rw [byteLen_cons]
            omega
        · intro h front hfront
          have hne := h (c :: front) (List.cons_prefix_cons.mpr ⟨rfl, hfront⟩)
          rw [byteLen_cons] at hne
          omega
      next hlarge =>
        refine iff_of_true rfl fun front hfront => ?_
        cases front with
        | nil => exact (Nat.succ_ne_zero n).symm
        | cons d front =>
          obtain ⟨rfl, -⟩ := List.cons_prefix_cons.mp hfront
          rw [byteLen_cons]
          omega

/-! ## Decimal numbers -/

theorem toDigits_injective {m n : Nat} (h : Nat.toDigits 10 m = Nat.toDigits 10 n) : m = n := by
  have hval := congrArg (fun ds => Nat.ofDigitChars 10 ds 0) h
  simpa only [Nat.ofDigitChars_ten_toDigits] using hval

theorem isDigit_of_mem_toDigits {n : Nat} {c : Char} (h : c ∈ Nat.toDigits 10 n) :
    c.isDigit = true :=
  Nat.isDigit_of_mem_toDigits (by omega) (by omega) h

/-- Zeros in front do not change the number. -/
theorem value_padded (width n : Nat) : Nat.ofDigitChars 10 (padded width n) 0 = n := by
  unfold padded List.leftpad
  rw [Nat.ofDigitChars_append, Nat.ofDigitChars_replicate_zero, Nat.mul_zero,
    Nat.ofDigitChars_ten_toDigits]

theorem padded_injective {width m n : Nat} (h : padded width m = padded width n) : m = n := by
  rw [← value_padded width m, ← value_padded width n, h]

theorem value_concat (cs : List Char) (c : Char) :
    Nat.ofDigitChars 10 (cs ++ [c]) 0 = 10 * Nat.ofDigitChars 10 cs 0 + (c.toNat - '0'.toNat) := by
  rw [Nat.ofDigitChars_append, Nat.ofDigitChars_cons, Nat.ofDigitChars_nil]

theorem digit_bounds {c : Char} (h : c.isDigit = true) : 48 ≤ c.toNat ∧ c.toNat ≤ 57 := by
  simp only [Char.isDigit, Bool.and_eq_true, decide_eq_true_eq] at h
  exact h

/-- Digits of one length are known by their number. -/
theorem value_injective {cs cs' : List Char} (hlen : cs.length = cs'.length)
    (h : ∀ c ∈ cs, c.isDigit = true) (h' : ∀ c ∈ cs', c.isDigit = true)
    (hval : Nat.ofDigitChars 10 cs 0 = Nat.ofDigitChars 10 cs' 0) : cs = cs' := by
  induction cs using List.reverseRecOn generalizing cs' with
  | nil => exact (List.length_eq_zero_iff.mp hlen.symm).symm
  | append_singleton cs c ih =>
    rcases List.eq_nil_or_concat cs' with rfl | ⟨before, d, rfl⟩
    · rw [List.length_append, List.length_singleton, List.length_nil] at hlen
      omega
    · rw [List.concat_eq_append] at *
      rw [List.length_append, List.length_append, List.length_singleton, List.length_singleton] at hlen
      rw [value_concat, value_concat, show '0'.toNat = 48 from rfl] at hval
      have hc := digit_bounds (h c (List.mem_append_right _ List.mem_cons_self))
      have hd := digit_bounds (h' d (List.mem_append_right _ List.mem_cons_self))
      have hbefore := ih (by omega) (fun c hc => h c (List.mem_append_left _ hc))
        (fun c hc => h' c (List.mem_append_left _ hc)) (by omega)
      have hlast : c = d := Char.toNat_inj.mp (by omega)
      rw [hbefore, hlast]

theorem value_lt {cs : List Char} (h : ∀ c ∈ cs, c.isDigit = true) :
    Nat.ofDigitChars 10 cs 0 < 10 ^ cs.length := by
  induction cs using List.reverseRecOn with
  | nil => exact Nat.one_pos
  | append_singleton cs c ih =>
    have hc := digit_bounds (h c (List.mem_append_right _ List.mem_cons_self))
    have hcs := ih fun c hc => h c (List.mem_append_left _ hc)
    rw [value_concat, List.length_append, List.length_singleton, Nat.pow_succ,
      show '0'.toNat = 48 from rfl]
    omega

theorem isDigit_of_mem_padded {width n : Nat} {c : Char} (h : c ∈ padded width n) :
    c.isDigit = true := by
  unfold padded List.leftpad at h
  rcases List.mem_append.mp h with h | h
  · rw [(List.mem_replicate.mp h).2]
    decide
  · exact isDigit_of_mem_toDigits h

/-- A character that is no digit occurs in no number. -/
theorem notMem_padded {c : Char} (hc : c.isDigit = false) (width n : Nat) : c ∉ padded width n :=
  fun h => Bool.noConfusion (hc.symm.trans (isDigit_of_mem_padded h))

theorem notMem_toDigits {c : Char} (hc : c.isDigit = false) (n : Nat) : c ∉ Nat.toDigits 10 n :=
  fun h => Bool.noConfusion (hc.symm.trans (isDigit_of_mem_toDigits h))

/-- Digits are read as their number. -/
theorem parseUnsigned_digits {bound : Nat} {cs : List Char} (hne : cs ≠ [])
    (hall : ∀ c ∈ cs, c.isDigit = true) (hlt : Nat.ofDigitChars 10 cs 0 < bound) :
    parseUnsigned bound cs = some (Nat.ofDigitChars 10 cs 0) := by
  have hplus : stripPrefix ['+'] cs = none := by
    unfold stripPrefix
    rw [if_neg]
    rintro ⟨t, rfl⟩
    have hdigit := hall '+' List.mem_cons_self
    exact absurd hdigit (by decide)
  unfold parseUnsigned
  rw [hplus]
  dsimp only [Option.getD_none]
  rw [if_pos ⟨hne, List.all_eq_true.mpr hall, hlt⟩]

theorem parseUnsigned_toDigits {bound n : Nat} (hn : n < bound) :
    parseUnsigned bound (Nat.toDigits 10 n) = some n := by
  have hvalue : Nat.ofDigitChars 10 (Nat.toDigits 10 n) 0 = n := Nat.ofDigitChars_ten_toDigits
  rw [parseUnsigned_digits Nat.toDigits_ne_nil (fun c hc => isDigit_of_mem_toDigits hc)
    (hvalue.symm ▸ hn), hvalue]

/-- A number read back from its digits. -/
theorem parseSigned_toDigits {lo hi : Int} {n : Nat} (hlo : lo ≤ n) (hhi : n ≤ hi) :
    parseSigned lo hi (Nat.toDigits 10 n) = some (n : Int) := by
  have hdigits : (Nat.toDigits 10 n).all Char.isDigit = true :=
    List.all_eq_true.mpr fun c hc => isDigit_of_mem_toDigits hc
  have hne : Nat.toDigits 10 n ≠ [] := Nat.toDigits_ne_nil
  have hvalue : Nat.ofDigitChars 10 (Nat.toDigits 10 n) 0 = n := Nat.ofDigitChars_ten_toDigits
  have hkept : (some (n : Int)).filter (fun n => decide (lo ≤ n ∧ n ≤ hi)) = some (n : Int) :=
    Option.filter_eq_some_iff.mpr ⟨rfl, decide_eq_true ⟨hlo, hhi⟩⟩
  unfold parseSigned
  dsimp only
  split
  next ds heq =>
    have hsign : '+' ∈ Nat.toDigits 10 n := heq ▸ List.mem_cons_self
    exact absurd hsign (notMem_toDigits (by decide) n)
  next ds heq =>
    have hsign : '-' ∈ Nat.toDigits 10 n := heq ▸ List.mem_cons_self
    exact absurd hsign (notMem_toDigits (by decide) n)
  next => rw [if_pos ⟨hne, hdigits⟩, hvalue, hkept]

/-- A number that fits its width is written in exactly that width. -/
theorem length_padded {width n : Nat} (hw : 0 < width) (h : n < 10 ^ width) :
    (padded width n).length = width := by
  have hle : (Nat.toDigits 10 n).length ≤ width :=
    (Nat.length_toDigits_le_iff (by omega) hw).mpr h
  unfold padded
  rw [List.length_leftpad]
  exact Nat.max_eq_left hle

/-- Digits are the number they spell, padded to their length. -/
theorem padded_value {width : Nat} {cs : List Char} (hw : 0 < width) (hlen : cs.length = width)
    (h : ∀ c ∈ cs, c.isDigit = true) : padded width (Nat.ofDigitChars 10 cs 0) = cs := by
  have hlt := value_lt h
  rw [hlen] at hlt
  refine value_injective ?_ (fun c hc => isDigit_of_mem_padded hc) h (value_padded _ _)
  rw [length_padded hw hlt, hlen]

/-- Digits take one octet each. -/
theorem byteLen_digits {cs : List Char} (h : ∀ c ∈ cs, c.isDigit = true) :
    byteLen cs = cs.length := by
  induction cs with
  | nil => rfl
  | cons c cs ih =>
    have hc : c.utf8Size = 1 := by
      have hdig := h c List.mem_cons_self
      simp only [Char.isDigit, Bool.and_eq_true, decide_eq_true_eq] at hdig
      have hle : c.val.toNat ≤ 57 := hdig.2
      unfold Char.utf8Size
      rw [if_pos]
      exact UInt32.le_iff_toNat_le.mpr (Nat.le_trans hle (by decide))
    simp only [byteLen, List.map_cons, List.sum_cons, hc, List.length_cons] at ih ⊢
    rw [ih fun c hc => h c (List.mem_cons_of_mem _ hc)]
    omega

end Text
