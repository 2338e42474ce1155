import S4Logs.Core.Sink
import S4Logs.Drain.Window

/-!
# The manifest of a drain window

A manifest that decodes, has this version and names exactly one account, log
group and window is the proof that the window is archived. The drain's skip and
the retention gate ask for that proof; a text that merely lies at the key is not
one.
-/

namespace S4Logs

def manifestVersion : Nat := 1

/-- The version of the crate that writes manifests. -/
def drainVersion : String := "1.0.0"

/-- One data object written for the window. -/
structure ManifestObject where
  dataKey : String
  etag : Option String
  crc32c : Nat
  bodyLen : Nat
  rawBytes : Option Nat
  storageClass : Option String
  recordCount : Nat
  minTs : Int
  maxTs : Int
deriving DecidableEq

structure Manifest where
  version : Nat
  account : String
  logGroup : String
  windowStartMs : Int
  windowEndMs : Int
  objects : List ManifestObject
  recordCount : Nat
  completedAtMs : Int
  drainVersion : String
  reconciledAtMs : Option Int
  reconciledAdded : Option Nat
deriving DecidableEq

/-- The backend's own message is left out. -/
inductive ManifestError where
  | storage (op key : String)
  | decode
  | unsupportedVersion (version : Nat)
deriving DecidableEq

variable (S : Serde Manifest)

def Manifest.toJsonBytes (m : Manifest) : Bytes := S.toVec m

/-- Decode and check the version. -/
def Manifest.fromJsonBytes (bytes : Bytes) : Except ManifestError Manifest :=
  match S.fromSlice bytes with
  | none => .error .decode
  | some m =>
    if m.version ≠ manifestVersion then .error (.unsupportedVersion m.version) else .ok m

/-- The manifest names exactly this account, log group and window. -/
def Manifest.names (m : Manifest) (account logGroup : String) (w : Window) : Bool :=
  m.account == account && m.logGroup == logGroup && m.windowStartMs == w.startMs &&
    m.windowEndMs == w.endMs

/-- The octets are a manifest of exactly this account, log group and window. -/
def manifestCoversWindow (bytes : Bytes) (account logGroup : String) (w : Window) : Bool :=
  match Manifest.fromJsonBytes S bytes with
  | .ok m => m.names account logGroup w
  | .error _ => false

/-- The manifest key of a window. -/
def windowKey (keyPrefix account logGroup : String) (w : Window) : String :=
  manifestKey keyPrefix account logGroup w.startMs w.endMs

/-- The window of a manifest key. Nothing for foreign keys. -/
def parseManifestKeyWindow (key : String) : Option Window := do
  let inner ← Text.stripPrefix "window=".toList (Text.lastSegment '/' key.toList)
  let inner ← Text.stripSuffix ".json".toList inner
  let (s, e) ← Text.splitOnce '-' inner
  let startMs ← Text.parseSigned i64Min i64Max s
  let endMs ← Text.parseSigned i64Min i64Max e
  some ⟨startMs, endMs⟩

/-- Manifest prefix covering every log group of one account. -/
def manifestAccountPrefix (keyPrefix account : String) : String :=
  normPrefix keyPrefix ++ manifestSeg ++ "/account=" ++ account ++ "/"

/-- The first segment that names a log group, without what it begins with. -/
def logGroupSegment (cs : List Char) : Option (List Char) :=
  (cs.splitOn '/').findSome? (Text.stripPrefix "loggroup=".toList)

/-- The log group of a manifest key. Nothing where no segment names one. -/
def parseManifestKeyLogGroup (key : String) : Option String :=
  (logGroupSegment key.toList).bind fun seg => unsanitizeLogGroup (String.ofList seg)

end S4Logs
