import S4Logs.Core.Layout
import S4Logs.Lib.Sorting

/-!
# SigV4 verification

A request is accepted where the signature in its `Authorization` header is the MAC, under
the key derived from the secret, of the canonical request rebuilt from what was received.
The two hash functions are parameters. The texts that `HeaderMap` gives out are ASCII.
-/

namespace S4Logs

/-- `sha2` and `hmac`: a digest, and a MAC of a key and a message. -/
structure Hashes where
  sha256 : Bytes → Bytes
  hmac256 : Bytes → Bytes → Bytes

inductive AuthError where
  | missingToken
  | invalid (reason : String)
deriving DecidableEq

/-- Lower-case names and the octets of their values, in the order they came. -/
abbrev HeaderMap := List (String × Bytes)

namespace HeaderMap

/-- The first value of a header. -/
def get (headers : HeaderMap) (name : String) : Option Bytes :=
  (headers.find? fun h => h.1 = name).map Prod.snd

def getAll (headers : HeaderMap) (name : String) : List Bytes :=
  (headers.filter fun h => h.1 = name).map Prod.snd

end HeaderMap

/-- Visible ASCII, a blank or a tab. -/
def isHeaderText (b : UInt8) : Bool := (32 ≤ b && b < 127) || b == 9

/-- The text of a header value: `to_str`. -/
def headerText (value : Bytes) : Option String :=
  if value.all isHeaderText then some (String.ofList (value.map fun b => Char.ofNat b.toNat))
  else none

structure RequestView where
  method : String
  path : String
  query : Option String
  headers : HeaderMap
  body : Bytes
deriving DecidableEq

/-- A value, or the error of its absence. -/
def okOr {ε α : Type} (e : ε) : Option α → Except ε α
  | some a => .ok a
  | none => .error e

/-- Go on where a condition holds. -/
def ensure (p : Prop) [Decidable p] (reason : String) : Except AuthError Unit :=
  if p then .ok () else .error (.invalid reason)

/-! ## Hexadecimal text -/

/-- `hex::encode`: two lower-case digits for each octet. -/
def hexEncode (bs : Bytes) : List Char :=
  bs.flatMap fun b => [Nat.digitChar (b.toNat / 16), Nat.digitChar (b.toNat % 16)]

/-- `hex::decode`: digits of either case, in pairs. -/
def hexDecode : Bytes → Option Bytes
  | [] => some []
  | [_] => none
  | hi :: lo :: rest => do
    let hi ← hexDigitValue hi
    let lo ← hexDigitValue lo
    (hexDecode rest).map (UInt8.ofNat (hi * 16 + lo) :: ·)

/-! ## The time of a request -/

/-- Days since the epoch of a civil date. -/
def daysFromCivil (y m d : Int) : Int :=
  let y := if m ≤ 2 then y - 1 else y
  let era := y / 400
  let yoe := y - era * 400
  let mp := (m + 9) % 12
  let doy := (153 * mp + 2) / 5 + d - 1
  let doe := yoe * 365 + yoe / 4 - yoe / 100 + doy
  era * 146097 + doe - 719468

/-- Decimal digits, at least one. -/
def parseDigits (bs : Bytes) : Option Int :=
  if bs ≠ [] ∧ bs.all (fun b => 48 ≤ b && b ≤ 57) then
    some (bs.foldl (fun n b => n * 10 + (b.toNat - 48 : Nat)) 0)
  else none

/-- A number of few digits with an optional sign: `parse` at `i64`. -/
def parseNumber : Bytes → Option Int
  | 43 :: ds => parseDigits ds
  | 45 :: ds => (parseDigits ds).map Neg.neg
  | ds => parseDigits ds

/-- The seconds since the epoch of `YYYYMMDD'T'HHMMSS'Z'`. -/
def parseAmzDate (s : String) : Option Int :=
  let b := Bytes.ofString s
  if b.length ≠ 16 ∨ b[8]? ≠ some 84 ∨ b[15]? ≠ some 90 then none
  else do
    let num (start stop : Nat) := parseNumber ((b.drop start).take (stop - start))
    let y ← num 0 4
    let m ← num 4 6
    let d ← num 6 8
    let hh ← num 9 11
    let mm ← num 11 13
    let ss ← num 13 15
    if m < 1 ∨ 12 < m ∨ d < 1 ∨ 31 < d ∨ 23 < hh ∨ 59 < mm ∨ 60 < ss then none
    else
      let secs := daysFromCivil y m d * 86400 + hh * 3600 + mm * 60 + ss
      if secs < 0 then none else some secs

/-- The most a request may be early or late, in seconds. -/
def maxClockSkew : Nat := 15 * 60

/-! ## The `Authorization` header -/

def algorithm : String := "AWS4-HMAC-SHA256"

structure ParsedAuthorization where
  accessKey : String
  scopeDate : String
  scopeRegion : String
  scopeService : String
  signedHeaders : List String
  signature : String
deriving DecidableEq

/-- What the parts of a header gave so far. -/
structure AuthParts where
  credential : Option (List Char)
  signedHeaders : Option (List Char)
  signature : Option (List Char)

/-- Take one part: of parts with one name, the last counts. -/
def AuthParts.take (parts : AuthParts) (part : List Char) : AuthParts :=
  let part := Text.trim part
  match Text.stripPrefix "Credential=".toList part with
  | some v => { parts with credential := some v }
  | none =>
    match Text.stripPrefix "SignedHeaders=".toList part with
    | some v => { parts with signedHeaders := some v }
    | none =>
      match Text.stripPrefix "Signature=".toList part with
      | some v => { parts with signature := some v }
      | none => parts

/-- Lower-case names, sorted, each once. -/
def parseSignedHeaders (cs : List Char) : List String :=
  let names := ((cs.splitOn ';').filter (· ≠ [])).map fun n => String.ofList (n.map Char.toLower)
  (Sorting.sortBy id names).destutter (· ≠ ·)

def parseAuthorization (header : String) : Except AuthError ParsedAuthorization := do
  let rest ← okOr (.invalid "unsupported authorization algorithm")
    (Text.stripPrefix algorithm.toList header.toList)
  let parts := (rest.splitOn ',').foldl AuthParts.take ⟨none, none, none⟩
  let credential ← okOr (.invalid "authorization missing Credential") parts.credential
  let signedHeaders ← okOr (.invalid "authorization missing SignedHeaders") parts.signedHeaders
  let signature ← okOr (.invalid "authorization missing Signature") parts.signature
  match credential.splitOn '/' with
  | [accessKey, scopeDate, scopeRegion, scopeService, terminal] =>
    ensure (terminal = "aws4_request".toList) "malformed credential scope"
    ensure (parseSignedHeaders signedHeaders ≠ []) "empty SignedHeaders"
    .ok {
      accessKey := String.ofList accessKey
      scopeDate := String.ofList scopeDate
      scopeRegion := String.ofList scopeRegion
      scopeService := String.ofList scopeService
      signedHeaders := parseSignedHeaders signedHeaders
      signature := String.ofList signature }
  | _ => .error (.invalid "malformed credential scope")

/-! ## The canonical request -/

/-- The path, where the empty one is the root. -/
def canonicalUri (req : RequestView) : String := if req.path = "" then "/" else req.path

/-- Name and value of a part of a query: what stands before and after the first `=`. -/
def queryPair (part : List Char) : String × String :=
  (String.ofList (part.takeWhile (· ≠ '=')), String.ofList (part.dropWhile (· ≠ '=')).tail)

/-- The pairs of the query, as sent. -/
def queryPairs (req : RequestView) : List (String × String) :=
  (((req.query.getD "").toList.splitOn '&').filter (· ≠ [])).map queryPair

def canonicalQuery (req : RequestView) : List Char :=
  let pairs := Sorting.sortBy (fun p => toLex p) (queryPairs req)
  List.intercalate ['&'] (pairs.map fun p => p.1.toList ++ '=' :: p.2.toList)

/-- One blank for each run of blanks and tabs. -/
def collapseSpaces : Bool → List Char → List Char
  | _, [] => []
  | inSpace, c :: cs =>
    if c = ' ' ∨ c = '\t' then
      if inSpace then collapseSpaces true cs else ' ' :: collapseSpaces true cs
    else c :: collapseSpaces false cs

/-- Trim, and collapse runs of blanks and tabs. -/
def normalizeHeaderValue (value : String) : List Char :=
  collapseSpaces false (Text.trim value.toList)

/-- The normalized values of a signed header, joined by commas. -/
def signedValue (req : RequestView) (name : String) : Except AuthError (List Char) :=
  let values := req.headers.getAll name
  if values = [] then .error (.invalid "signed header absent from request")
  else do
    let texts ← values.mapM fun v =>
      okOr (.invalid "signed header is not valid UTF-8") ((headerText v).map normalizeHeaderValue)
    .ok (List.intercalate [','] texts)

/-- One line for each signed header. -/
def canonicalHeaders (req : RequestView) : List String → Except AuthError (List Char)
  | [] => .ok []
  | name :: names => do
    let joined ← signedValue req name
    let rest ← canonicalHeaders req names
    .ok (name.toList ++ ':' :: joined ++ '\n' :: rest)

def unsignedPayload : String := "UNSIGNED-PAYLOAD"

/-- The request says that its payload is not signed. -/
def UnsignedPayload (req : RequestView) : Prop :=
  (req.headers.get "x-amz-content-sha256").bind headerText = some unsignedPayload

instance UnsignedPayload.decidable (req : RequestView) : Decidable (UnsignedPayload req) :=
  inferInstanceAs (Decidable (_ = _))

/-- The hash of the body that was received, whatever a header says of it, or the word that
there is none. -/
def payloadHash (H : Hashes) (req : RequestView) : List Char :=
  if UnsignedPayload req then unsignedPayload.toList else hexEncode (H.sha256 req.body)

def canonicalRequest (H : Hashes) (req : RequestView) (signedHeaders : List String) :
    Except AuthError String := do
  let headers ← canonicalHeaders req signedHeaders
  .ok (String.ofList (req.method.toList ++ '\n' :: ((canonicalUri req).toList ++ '\n' ::
    (canonicalQuery req ++ '\n' :: (headers ++ '\n' ::
      (List.intercalate [';'] (signedHeaders.map String.toList) ++ '\n' ::
        payloadHash H req))))))

/-! ## Verification -/

/-- The key of a day, a region and a service, as the client chose them. -/
def signingKey (H : Hashes) (secretKey : String) (parsed : ParsedAuthorization) : Bytes :=
  [parsed.scopeRegion, parsed.scopeService, "aws4_request"].foldl
    (fun key part => H.hmac256 key (Bytes.ofString part))
    (H.hmac256 (Bytes.ofString ("AWS4" ++ secretKey)) (Bytes.ofString parsed.scopeDate))

def stringToSign (H : Hashes) (amzDate : String) (parsed : ParsedAuthorization)
    (canonical : String) : String :=
  algorithm ++ "\n" ++ amzDate ++ "\n" ++ parsed.scopeDate ++ "/" ++ parsed.scopeRegion ++ "/" ++
    parsed.scopeService ++ "/aws4_request\n" ++
    String.ofList (hexEncode (H.sha256 (Bytes.ofString canonical)))

/-- Verify one request at a time in nanoseconds since the epoch. -/
def verify (H : Hashes) (accessKey secretKey : String) (req : RequestView) (nowNs : Int) :
    Except AuthError Unit := do
  let authorization ← okOr .missingToken ((req.headers.get "authorization").bind headerText)
  let parsed ← parseAuthorization authorization
  ensure (parsed.accessKey = accessKey) "unknown access key id"
  let amzDate ← okOr (.invalid "missing x-amz-date header")
    ((req.headers.get "x-amz-date").bind headerText)
  let requestTime ← okOr (.invalid "malformed x-amz-date") (parseAmzDate amzDate)
  ensure ((nowNs - requestTime * 1000000000).natAbs ≤ maxClockSkew * 1000000000)
    "request time too skewed (±15 min)"
  ensure (parsed.scopeDate.toList = amzDate.toList.take 8) "credential scope date mismatch"
  let canonical ← canonicalRequest H req parsed.signedHeaders
  let provided ← okOr (.invalid "malformed signature")
    (hexDecode (Bytes.ofString parsed.signature))
  ensure (H.hmac256 (signingKey H secretKey parsed)
      (Bytes.ofString (stringToSign H amzDate parsed canonical)) = provided)
    "signature mismatch"

end S4Logs
