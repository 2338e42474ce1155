import S4Logs.Drain.Reconcile
import S4Logs.Lib.Digest

/-!
# What the identity hash tells apart

Both lanes take an octet in by an xor and a multiplication with an odd number, which has an
inverse modulo 2^64 (`absorb_lossless`). So octets that differ in exactly one place never
have one hash, however they are cut into writes: neither two event ids nor two contents.
-/

namespace S4Logs

namespace Hash128

/-- How a lane takes an octet in. -/
def absorb (prime : UInt64) (lane : UInt64) (x : UInt8) : UInt64 := (lane ^^^ x.toUInt64) * prime

/-- An odd multiplier loses nothing. -/
theorem absorb_lossless {prime inverse : UInt64} (h : prime * inverse = 1) :
    Lossless (absorb prime) := by
  have hcancel : ∀ {u v : UInt64}, u * prime = v * prime → u = v := by
    intro u v heq
    calc u = u * prime * inverse := by rw [UInt64.mul_assoc, h, UInt64.mul_one]
      _ = v * prime * inverse := by rw [heq]
      _ = v := by rw [UInt64.mul_assoc, h, UInt64.mul_one]
  constructor
  · intro x lane lane' heq
    exact (UInt64.xor_left_inj _).mp (hcancel heq)
  · intro lane x y heq
    exact UInt8.toUInt64_inj.mp ((UInt64.xor_right_inj _).mp (hcancel heq))

theorem fnvPrime_inverse : fnvPrime * 0xce965057aff6957b = 1 := by decide

theorem lane2Prime_inverse : lane2Prime * 0x0ba79078168d4baf = 1 := by decide

/-- The lanes do not see each other. -/
theorem write_lanes (h : Hash128) (bytes : Bytes) : h.write bytes =
    ⟨bytes.foldl (absorb fnvPrime) h.a, bytes.foldl (absorb lane2Prime) h.b⟩ := by
  induction bytes generalizing h with
  | nil => rfl
  | cons x bytes ih => exact ih _

theorem write_append (h : Hash128) (bytes bytes' : Bytes) :
    h.write (bytes ++ bytes') = (h.write bytes).write bytes' := List.foldl_append

/-- Write after write, as callers do that have the octets in pieces. -/
def writes (h : Hash128) (pieces : List Bytes) : Hash128 := pieces.foldl write h

/-- Where the octets are cut does not matter. -/
theorem writes_eq (h : Hash128) (pieces : List Bytes) : h.writes pieces = h.write pieces.flatten := by
  induction pieces generalizing h with
  | nil => rfl
  | cons piece pieces ih =>
    rw [List.flatten_cons, write_append, ← ih]
    rfl

/-- Octets that differ in one place set both lanes apart. -/
theorem write_ne {bytes bytes' : Bytes} (hdiffer : DifferOnce bytes bytes') (h : Hash128) :
    (h.write bytes).a ≠ (h.write bytes').a ∧ (h.write bytes).b ≠ (h.write bytes').b := by
  rw [write_lanes, write_lanes]
  constructor
  · exact (absorb_lossless fnvPrime_inverse).foldl_ne hdiffer h.a
  · exact (absorb_lossless lane2Prime_inverse).foldl_ne hdiffer h.b

/-- The second lane does not reach into the first. -/
theorem finish_ne {h h' : Hash128} (hlane : h.a ≠ h'.a) : h.finish ≠ h'.finish := by
  intro heq
  apply hlane
  have hb := h.b.toNat_lt
  have hb' := h'.b.toNat_lt
  unfold finish at heq
  exact UInt64.toNat_inj.mp (by omega)

end Hash128

/-- The octets that the identity of a content is made of. -/
def fallbackBytes (timestamp : Int) (stream message : String) : Bytes :=
  [0] ++ putI64Le timestamp ++ Bytes.littleEndian 4 (Bytes.ofString stream).length ++
    Bytes.ofString stream ++ Bytes.ofString message

theorem fallbackIdentity_eq (timestamp : Int) (stream message : String) :
    fallbackIdentity timestamp stream message =
      (Hash128.new.write (fallbackBytes timestamp stream message)).finish := by
  unfold fallbackIdentity fallbackBytes
  rw [Hash128.write_append, Hash128.write_append, Hash128.write_append, Hash128.write_append]

/-- After the same octets, octets that differ in exactly one place leave both lanes different,
however all of them are cut into writes. So event ids that differ in one octet have different
identities, and so have contents whose octets differ in one place. -/
theorem hash_separates :
    (∀ (pieces pieces' : List Bytes) (before bytes bytes' : Bytes), DifferOnce bytes bytes' →
      pieces.flatten = before ++ bytes → pieces'.flatten = before ++ bytes' →
        (Hash128.new.writes pieces).a ≠ (Hash128.new.writes pieces').a ∧
        (Hash128.new.writes pieces).b ≠ (Hash128.new.writes pieces').b) ∧
    (∀ (id id' : String) (t t' : Int) (s s' m m' : String),
      DifferOnce (Bytes.ofString id) (Bytes.ofString id') →
        recordIdentity (some id) t s m ≠ recordIdentity (some id') t' s' m') ∧
    ∀ (t t' : Int) (s s' m m' : String), DifferOnce (fallbackBytes t s m) (fallbackBytes t' s' m') →
      recordIdentity none t s m ≠ recordIdentity none t' s' m' := by
  refine ⟨?_, ?_, ?_⟩
  · intro pieces pieces' before bytes bytes' hdiffer hpieces hpieces'
    rw [Hash128.writes_eq, Hash128.writes_eq, hpieces, hpieces']
    exact Hash128.write_ne (hdiffer.append_left before) .new
  · intro id id' t t' s s' m m' hdiffer
    exact Hash128.finish_ne (Hash128.write_ne hdiffer (Hash128.new.write [1])).1
  · intro t t' s s' m m' hdiffer
    show fallbackIdentity t s m ≠ fallbackIdentity t' s' m'
    rw [fallbackIdentity_eq, fallbackIdentity_eq]
    exact Hash128.finish_ne (Hash128.write_ne hdiffer .new).1

/-- Two event ids that differ in their last octet. -/
theorem hash_separates_ids :
    recordIdentity (some "evt-1") 0 "s" "m" ≠ recordIdentity (some "evt-2") 0 "s" "m" := by
  refine hash_separates.2.1 "evt-1" "evt-2" 0 0 "s" "s" "m" "m" ⟨by decide +kernel, 4, ?_, ?_⟩
  · decide +kernel
  · intro i hi
    by_contra hne
    apply hi
    have hcases : i = 0 ∨ i = 1 ∨ i = 2 ∨ i = 3 ∨ 5 ≤ i := by omega
    rcases hcases with rfl | rfl | rfl | rfl | hlarge
    · rfl
    · rfl
    · rfl
    · rfl
    · rw [List.getElem?_eq_none (by exact hlarge), List.getElem?_eq_none (by exact hlarge)]

end S4Logs
