import S4Logs.Lib.Text
import S4Logs.Lib.Bytes

/-!
# Object keys

    {prefix}data/account={acct}/loggroup={g}/dt={YYYY-MM-DD}/{name}.jsonl.zst
    {prefix}index/...same tail...{name}.jsonl.zst.s4index   (+ .s4lts)
    {prefix}manifest/account={acct}/loggroup={g}/window={start_ms}-{end_ms}.json
-/

namespace S4Logs

def dataSeg : String := "data"
def indexSeg : String := "index"
def manifestSeg : String := "manifest"
def dataSuffix : String := ".jsonl.zst"
def indexSidecarSuffix : String := ".s4index"
def tsSidecarSuffix : String := ".s4lts"

/-- An octet that a sanitized log group keeps. -/
def keptInLogGroup (b : UInt8) : Bool :=
  (65 ≤ b && b ≤ 90) || (97 ≤ b && b ≤ 122) || (48 ≤ b && b ≤ 57) || b == 95 || b == 46 || b == 45

/-- An upper-case hexadecimal digit. -/
def upperHexDigit (n : Nat) : Char := if n < 10 then Char.ofNat (48 + n) else Char.ofNat (55 + n)

/-- Percent-encode every octet outside `[A-Za-z0-9_.-]`. -/
def sanitizeLogGroup (group : String) : String :=
  String.ofList <| (Bytes.ofString group).flatMap fun b =>
    if keptInLogGroup b then [Char.ofNat b.toNat]
    else ['%', upperHexDigit (b.toNat / 16), upperHexDigit (b.toNat % 16)]

/-- The value of a hexadecimal digit, of either case. -/
def hexDigitValue (b : UInt8) : Option Nat :=
  if 48 ≤ b && b ≤ 57 then some (b.toNat - 48)
  else if 65 ≤ b && b ≤ 70 then some (b.toNat - 55)
  else if 97 ≤ b && b ≤ 102 then some (b.toNat - 87)
  else none

/-- The octets that a percent-encoded text stands for. -/
def percentDecode : Bytes → Option Bytes
  | [] => some []
  | b :: rest =>
    if b = 37 then
      match rest with
      | hi :: lo :: rest => do
        let hi ← hexDigitValue hi
        let lo ← hexDigitValue lo
        (percentDecode rest).map (UInt8.ofNat (hi * 16 + lo) :: ·)
      | _ => none
    else (percentDecode rest).map (b :: ·)
termination_by structural bs => bs

/-- The log group of a sanitized text. Nothing where an escape is malformed or the octets
are no text. -/
def unsanitizeLogGroup (s : String) : Option String :=
  (percentDecode (Bytes.ofString s)).bind Bytes.toString?

/-- A key prefix is empty or ends in one slash. -/
def normPrefix (keyPrefix : String) : String :=
  let trimmed := Text.trimMatches '/' keyPrefix.toList
  if trimmed.isEmpty then "" else String.ofList trimmed ++ "/"

/-! ## The calendar date of a timestamp -/

def dayMs : Int := 86400000

/-- The first and the last millisecond `chrono` represents. -/
def chronoMinMs : Int := -8334601228800000
def chronoMaxMs : Int := 8210266876799999

/-- Year, month and day of a day counted from the epoch, in the proleptic
Gregorian calendar. -/
def civilFromDays (days : Int) : Int × Int × Int :=
  let z := days + 719468
  let era := z / 146097
  let doe := z - era * 146097
  let yoe := (doe - doe / 1460 + doe / 36524 - doe / 146096) / 365
  let doy := doe - (365 * yoe + yoe / 4 - yoe / 100)
  let mp := (5 * doy + 2) / 153
  let d := doy - (153 * mp + 2) / 5 + 1
  let m := if mp < 10 then mp + 3 else mp - 9
  let y := yoe + era * 400
  (if m ≤ 2 then y + 1 else y, m, d)

/-- `%Y`: four digits, or a sign and at least four digits outside 0 to 9999. -/
def formatYear (y : Int) : String :=
  if 0 ≤ y ∧ y < 10000 then String.ofList (Text.padded 4 y.toNat)
  else (if y < 0 then "-" else "+") ++ String.ofList (Text.padded 4 y.natAbs)

/-- UTC calendar date of a timestamp in milliseconds. What `chrono` does not
represent counts as the epoch. -/
def dateFromTsMs (tsMs : Int) : String :=
  let ms := if chronoMinMs ≤ tsMs ∧ tsMs ≤ chronoMaxMs then tsMs else 0
  let (y, m, d) := civilFromDays (ms / dayMs)
  formatYear y ++ "-" ++ String.ofList (Text.padded 2 m.toNat) ++ "-" ++
    String.ofList (Text.padded 2 d.toNat)

/-! ## Keys -/

/-- Identifies one data object and its sidecars. -/
structure ChunkLocation where
  account : String
  logGroup : String
  date : String
  name : String
deriving DecidableEq

def ChunkLocation.tail (loc : ChunkLocation) : String :=
  "account=" ++ loc.account ++ "/loggroup=" ++ sanitizeLogGroup loc.logGroup ++ "/dt=" ++
    loc.date ++ "/" ++ loc.name ++ dataSuffix

def ChunkLocation.dataKey (loc : ChunkLocation) (keyPrefix : String) : String :=
  normPrefix keyPrefix ++ dataSeg ++ "/" ++ loc.tail

def ChunkLocation.indexKey (loc : ChunkLocation) (keyPrefix : String) : String :=
  normPrefix keyPrefix ++ indexSeg ++ "/" ++ loc.tail ++ indexSidecarSuffix

def ChunkLocation.tsIndexKey (loc : ChunkLocation) (keyPrefix : String) : String :=
  normPrefix keyPrefix ++ indexSeg ++ "/" ++ loc.tail ++ tsSidecarSuffix

/-- What a data key was made of. Nothing where the key is not of this layout. -/
def ChunkLocation.parseDataKey (keyPrefix key : String) : Option ChunkLocation := do
  let rest ← Text.stripPrefix (normPrefix keyPrefix ++ dataSeg ++ "/").toList key.toList
  match rest.splitOn '/' with
  | [account, group, date, file] =>
    let account ← Text.stripPrefix "account=".toList account
    let group ← Text.stripPrefix "loggroup=".toList group
    let date ← Text.stripPrefix "dt=".toList date
    let name ← Text.stripSuffix dataSuffix.toList file
    some {
      account := String.ofList account
      logGroup := ← unsanitizeLogGroup (String.ofList group)
      date := String.ofList date
      name := String.ofList name }
  | _ => none

/-- What the data keys of one log group start with. -/
def dataGroupPrefix (keyPrefix account logGroup : String) : String :=
  normPrefix keyPrefix ++ dataSeg ++ "/account=" ++ account ++ "/loggroup=" ++
    sanitizeLogGroup logGroup ++ "/"

/-- Manifest key for one drain window. -/
def manifestKey (keyPrefix account logGroup : String) (windowStartMs windowEndMs : Int) : String :=
  normPrefix keyPrefix ++ manifestSeg ++ "/account=" ++ account ++ "/loggroup=" ++
    sanitizeLogGroup logGroup ++ "/window=" ++ toString windowStartMs ++ "-" ++
    toString windowEndMs ++ ".json"

/-- Manifest prefix for one log group. -/
def manifestGroupPrefix (keyPrefix account logGroup : String) : String :=
  normPrefix keyPrefix ++ manifestSeg ++ "/account=" ++ account ++ "/loggroup=" ++
    sanitizeLogGroup logGroup ++ "/"

example : dateFromTsMs 1765411200000 = "2025-12-11" := by decide
example : sanitizeLogGroup "/aws/lambda/payments-prod" = "%2Faws%2Flambda%2Fpayments-prod" := by
  decide

end S4Logs
