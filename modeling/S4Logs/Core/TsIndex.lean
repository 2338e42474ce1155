import S4Logs.Lib.Bytes

/-!
# The timestamp sidecar

Entry `i` gives the timestamp range of frame `i` of the data object.
-/

namespace S4Logs

/-- The timestamp range of one frame, both ends inclusive. -/
structure TsEntry where
  minTs : Int
  maxTs : Int
deriving DecidableEq

structure TsIndex where
  entries : List TsEntry
deriving DecidableEq

/-- The octets `S4LT`. -/
def tsIndexMagic : Bytes := [83, 52, 76, 84]

def tsIndexVersion : Nat := 1

/-- The eight octets of an `i64`, least first. -/
def putI64Le (n : Int) : Bytes := Bytes.littleEndian 8 (n % 18446744073709551616).toNat

/-- Magic, version and count, then the two ends of each entry. -/
def encodeTsIndex (idx : TsIndex) : Bytes :=
  tsIndexMagic ++ Bytes.littleEndian 4 tsIndexVersion ++
    Bytes.littleEndian 8 idx.entries.length ++
    idx.entries.flatMap fun e => putI64Le e.minTs ++ putI64Le e.maxTs

/-! ## Decoding -/

def tsHeaderBytes : Nat := 16
def tsEntryBytes : Nat := 16

/-- The most frames a sidecar may claim. -/
def maxFrames : Nat := 16 * 1024 * 1024

def usizeMax : Nat := 18446744073709551615

def saturatingMulUsize (a b : Nat) : Nat := min usizeMax (a * b)

inductive TsIndexError where
  | tooShort (length : Nat)
  | badMagic (got : Bytes)
  | unsupportedVersion (version : Nat)
  | entryCountMismatch (claimed remaining : Nat)
  | tooManyFrames (got : Nat)
  | invalidEntry (idx : Nat) (minTs maxTs : Int)
deriving DecidableEq

/-- The `i64` of eight octets. -/
def getI64Le (bs : Bytes) : Int :=
  let n := Bytes.ofLittleEndian bs
  if n < 9223372036854775808 then n else (n : Int) - 18446744073709551616

/-- Read entries, the first of which is number `idx`. -/
def decodeTsEntries : Nat → Nat → Bytes → Except TsIndexError (List TsEntry)
  | 0, _, _ => .ok []
  | n + 1, idx, bs =>
    let minTs := getI64Le (bs.take 8)
    let maxTs := getI64Le ((bs.drop 8).take 8)
    if maxTs < minTs then .error (.invalidEntry idx minTs maxTs)
    else (decodeTsEntries n (idx + 1) (bs.drop 16)).map (⟨minTs, maxTs⟩ :: ·)

def decodeTsIndex (input : Bytes) : Except TsIndexError TsIndex :=
  if input.length < tsHeaderBytes then .error (.tooShort input.length)
  else if input.take 4 ≠ tsIndexMagic then .error (.badMagic (input.take 4))
  else
    let version := Bytes.ofLittleEndian ((input.drop 4).take 4)
    if version ≠ tsIndexVersion then .error (.unsupportedVersion version)
    else
      let n := Bytes.ofLittleEndian ((input.drop 8).take 8)
      let rest := input.drop tsHeaderBytes
      if maxFrames < n then .error (.tooManyFrames n)
      else if rest.length ≠ saturatingMulUsize n tsEntryBytes then .error (.entryCountMismatch n rest.length)
      else (decodeTsEntries n 0 rest).map TsIndex.mk

end S4Logs
