import Mathlib.Data.Prod.Lex
import S4Logs.Lib.OrdMap
import S4Logs.Lib.Sorting
import S4Logs.Drain.Manifest

/-!
# The report of a log group

What the manifests of one group add up to, and the time that their windows cover. The
prices and the compression ratio, which are floating point and follow from the sums, are
left out.
-/

namespace S4Logs

/-- An addition to a running u64. It wraps. With overflow checks, which the release build
leaves out, the program panics instead and there is no sum. -/
def addU64 (checks : Bool) (a : UInt64) (n : Nat) : Option UInt64 :=
  if checks ∧ 2 ^ 64 ≤ a.toNat + n then none else some (a + UInt64.ofNat n)

/-- The sums are of stored numbers. The other fields count what is in memory, which is
fewer than 2^64 of anything. -/
structure GroupReport where
  logGroup : String
  windows : Nat
  objects : Nat
  records : UInt64
  rawBytes : UInt64
  objectsMissingRaw : Nat
  compressedBytes : UInt64
  objectsAssumedStandard : Nat
  bytesByClass : OrdMap String UInt64
  coverageFromMs : Option Int
  coverageToMs : Option Int
  coverageGaps : Nat

/-- A report of nothing yet. -/
def GroupReport.new (logGroup : String) (windows : Nat) : GroupReport where
  logGroup := logGroup
  windows := windows
  objects := 0
  records := 0
  rawBytes := 0
  objectsMissingRaw := 0
  compressedBytes := 0
  objectsAssumedStandard := 0
  bytesByClass := .empty
  coverageFromMs := none
  coverageToMs := none
  coverageGaps := 0

/-- Count one object. Without a class it counts as standard. -/
def GroupReport.addObject (checks : Bool) (g : GroupReport) (o : ManifestObject) :
    Option GroupReport := do
  let compressedBytes ← addU64 checks g.compressedBytes o.bodyLen
  let storageClass := o.storageClass.getD "STANDARD"
  let classBytes ← addU64 checks ((g.bytesByClass.get? storageClass).getD 0) o.bodyLen
  let rawBytes ← addU64 checks g.rawBytes (o.rawBytes.getD 0)
  return { g with
    objects := g.objects + 1
    compressedBytes := compressedBytes
    bytesByClass := g.bytesByClass.alter storageClass fun _ => classBytes
    objectsAssumedStandard := g.objectsAssumedStandard + if o.storageClass.isNone then 1 else 0
    rawBytes := rawBytes
    objectsMissingRaw := g.objectsMissingRaw + if o.rawBytes.isNone then 1 else 0 }

def GroupReport.addManifest (checks : Bool) (g : GroupReport) (m : Manifest) :
    Option GroupReport := do
  let records ← addU64 checks g.records m.recordCount
  m.objects.foldlM (addObject checks) { g with records := records }

/-- The window of a manifest, as a pair. -/
def Manifest.bounds (m : Manifest) : Int × Int := (m.windowStartMs, m.windowEndMs)

/-- Windows by their start, and those of one start by their end. -/
def byBounds (windows : List (Int × Int)) : List (Int × Int) :=
  Sorting.sortBy (fun w => (toLex w : Int ×ₗ Int)) windows

/-- Neighbours the second of which begins after the end of the first. -/
def neighbourGaps (windows : List (Int × Int)) : Nat :=
  ((windows.zip windows.tail).filter fun pair => decide (pair.1.2 < pair.2.1)).length

/-- Aggregation over the manifests of one group. -/
def aggregateGroup (checks : Bool) (logGroup : String) (manifests : List Manifest) :
    Option GroupReport := do
  let g ← manifests.foldlM (GroupReport.addManifest checks) (.new logGroup manifests.length)
  let windows := byBounds (manifests.map Manifest.bounds)
  return { g with
    coverageFromMs := windows.head?.map Prod.fst
    coverageToMs := windows.getLast?.map Prod.snd
    coverageGaps := neighbourGaps windows }

end S4Logs
