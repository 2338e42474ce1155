import Mathlib.Algebra.Order.Ring.Nat

/-!
# Byte strings and line framing

A byte string is a list of octets. A text framed in lines is read back by
splitting it at every newline and skipping what is empty, so blank padding and
a missing final newline are harmless, and a line that lost its newline is
joined with the next one.

`lines_append` is the rule of framing: what stands before a newline and what
stands after it are read independently. `lines_unlines` is the round trip for
lines that hold no newline themselves.
-/

/-- A byte string. -/
abbrev Bytes := List UInt8

namespace Bytes

/-- The octet that ends a line. -/
def newline : UInt8 := 10

/-- The octets of a text in UTF-8. -/
def ofString (s : String) : Bytes := s.toUTF8.data.toList

/-- The text that the octets spell in UTF-8. -/
def toString? (bs : Bytes) : Option String := String.fromUTF8? ⟨bs.toArray⟩

/-- Spelling a text and reading it back gives the text. -/
@[simp] theorem toString?_ofString (s : String) : toString? (ofString s) = some s := by
  unfold toString? ofString String.fromUTF8?
  have hvalid : (ByteArray.mk s.toUTF8.data.toList.toArray).IsValidUTF8 := s.isValidUTF8
  rw [dif_pos hvalid]
  rfl

/-- A text is known by its octets. -/
theorem ofString_injective {s s' : String} (h : ofString s = ofString s') : s = s' := by
  have hread := congrArg toString? h
  rw [toString?_ofString, toString?_ofString] at hread
  exact Option.some.inj hread

/-- The nonempty lines of a text, without their newlines. -/
def lines (bs : Bytes) : List Bytes := (bs.splitOn newline).filter fun l => !l.isEmpty

/-- The text whose lines these are, each ended by a newline. -/
def unlines (ls : List Bytes) : Bytes := (ls.map (· ++ [newline])).flatten

@[simp] theorem lines_nil : lines [] = [] := by
  unfold lines
  rw [List.splitOn_nil]
  rfl

/-- What stands before a newline and what stands after it are read independently. -/
theorem lines_append (a b : Bytes) : lines (a ++ newline :: b) = lines a ++ lines b := by
  unfold lines
  rw [List.splitOn_append_cons_self, List.filter_append]

/-- A newline at the end changes nothing. -/
theorem lines_append_newline (a : Bytes) : lines (a ++ [newline]) = lines a := by
  rw [lines_append, lines_nil, List.append_nil]

/-- A text without newlines is one line. -/
theorem lines_eq_singleton {a : Bytes} (hnl : newline ∉ a) (hne : a ≠ []) : lines a = [a] := by
  unfold lines
  rw [List.splitOn_eq_singleton hnl]
  cases a with
  | nil => exact absurd rfl hne
  | cons _ _ => rfl

@[simp] theorem unlines_nil : unlines [] = [] := rfl

@[simp] theorem unlines_cons (l : Bytes) (ls : List Bytes) :
    unlines (l :: ls) = l ++ newline :: unlines ls := by
  simp only [unlines, List.map_cons, List.flatten_cons, List.append_assoc, List.cons_append,
    List.nil_append]

@[simp] theorem unlines_append (ls ms : List Bytes) :
    unlines (ls ++ ms) = unlines ls ++ unlines ms := by
  simp only [unlines, List.map_append, List.flatten_append]

/-- Lines that are nonempty and hold no newline are read back from the text they
make, and whatever follows them is read on its own. -/
theorem lines_unlines_append {ls : List Bytes} (h : ∀ l ∈ ls, newline ∉ l ∧ l ≠ []) (b : Bytes) :
    lines (unlines ls ++ b) = ls ++ lines b := by
  induction ls with
  | nil => rfl
  | cons l ls ih =>
    have hl := h l List.mem_cons_self
    have htail := ih fun l' hl' => h l' (List.mem_cons_of_mem _ hl')
    rw [unlines_cons, List.append_assoc, List.cons_append, lines_append,
      lines_eq_singleton hl.1 hl.2, htail, List.singleton_append, List.cons_append]

/-- The round trip of framing. -/
theorem lines_unlines {ls : List Bytes} (h : ∀ l ∈ ls, newline ∉ l ∧ l ≠ []) :
    lines (unlines ls) = ls := by
  rw [← List.append_nil (unlines ls), lines_unlines_append h, lines_nil, List.append_nil]

/-- What a text of whole lines splits into: its lines, and nothing behind the last
newline. -/
theorem splitOn_unlines {ls : List Bytes} (h : ∀ l ∈ ls, newline ∉ l) :
    (unlines ls).splitOn newline = ls ++ [[]] := by
  induction ls with
  | nil => exact List.splitOn_nil newline
  | cons l ls ih =>
    rw [unlines_cons, List.splitOn_append_cons_self, List.splitOn_eq_singleton (h l List.mem_cons_self),
      ih fun l' hl' => h l' (List.mem_cons_of_mem _ hl'), List.singleton_append, List.cons_append]

/-- Where a text ends in a newline, more text adds lines and changes none. -/
theorem lines_append_of_ended {a : Bytes} (h : a = [] ∨ ∃ a', a = a' ++ [newline]) (b : Bytes) :
    lines (a ++ b) = lines a ++ lines b := by
  rcases h with rfl | ⟨a', rfl⟩
  · rw [lines_nil, List.nil_append, List.nil_append]
  · rw [List.append_assoc, List.singleton_append, lines_append, lines_append_newline]

/-- A text of whole lines ends in a newline, or is empty. -/
theorem unlines_ended (ls : List Bytes) :
    unlines ls = [] ∨ ∃ a, unlines ls = a ++ [newline] := by
  rcases List.eq_nil_or_concat ls with rfl | ⟨ls', l, rfl⟩
  · exact .inl rfl
  · refine .inr ⟨unlines ls' ++ l, ?_⟩
    rw [List.concat_eq_append, unlines_append, unlines_cons, unlines_nil, List.append_assoc]

/-- Little-endian octets of a number, `width` of them. -/
def littleEndian : Nat → Nat → Bytes
  | 0, _ => []
  | width + 1, n => UInt8.ofNat n :: littleEndian width (n / 256)

/-- The number that octets spell, least first. -/
def ofLittleEndian : Bytes → Nat
  | [] => 0
  | b :: bs => b.toNat + 256 * ofLittleEndian bs

@[simp] theorem length_littleEndian (width n : Nat) : (littleEndian width n).length = width := by
  induction width generalizing n with
  | zero => rfl
  | succ width ih => rw [littleEndian, List.length_cons, ih]

/-- A number is read back as far as its octets reach. -/
theorem ofLittleEndian_littleEndian (width n : Nat) :
    ofLittleEndian (littleEndian width n) = n % 256 ^ width := by
  induction width generalizing n with
  | zero => rw [Nat.pow_zero, Nat.mod_one, littleEndian, ofLittleEndian]
  | succ width ih =>
    have hfirst : (UInt8.ofNat n).toNat = n % 256 := UInt8.toNat_ofNat'
    have hsplit : n % 256 ^ (width + 1) = n % 256 + 256 * (n / 256 % 256 ^ width) := by
      rw [Nat.pow_succ', Nat.mod_mul]
    rw [littleEndian, ofLittleEndian, ih, hfirst, hsplit]

theorem ofLittleEndian_lt (bs : Bytes) : ofLittleEndian bs < 256 ^ bs.length := by
  induction bs with
  | nil => exact Nat.one_pos
  | cons b bs ih =>
    have hb : b.toNat < 256 := b.toNat_lt
    rw [ofLittleEndian, List.length_cons, Nat.pow_succ']
    omega

/-- Octets are those of the number they spell. -/
theorem littleEndian_ofLittleEndian {width : Nat} {bs : Bytes} (hlen : bs.length = width) :
    littleEndian width (ofLittleEndian bs) = bs := by
  subst hlen
  induction bs with
  | nil => rfl
  | cons b bs ih =>
    have hb : b.toNat < 256 := b.toNat_lt
    have hlow : UInt8.ofNat (b.toNat + 256 * ofLittleEndian bs) = b := by
      apply UInt8.toNat_inj.mp
      rw [UInt8.toNat_ofNat']
      omega
    have hrest : (b.toNat + 256 * ofLittleEndian bs) / 256 = ofLittleEndian bs := by omega
    rw [ofLittleEndian, List.length_cons, littleEndian, hlow, hrest, ih]

/-- What holds of all pairs of hexadecimal digits holds of all octets. -/
theorem forall_octet {p : Nat → Prop} (h : ∀ hi < 16, ∀ lo < 16, p (hi * 16 + lo)) :
    ∀ n < 256, p n := by
  intro n hn
  have hdigits := h (n / 16) (by omega) (n % 16) (by omega)
  rwa [Nat.div_add_mod'] at hdigits

end Bytes
