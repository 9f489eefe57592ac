import TrustPortal.Audit.VerifyChain
import TrustPortal.Audit.Anchor
import TrustPortal.Python.Json

/-!
# `TrustPortal.Audit.PublishHead`: publishing the chain head and reading it back

The writer is `current_head`, `object_key`, `_body` and `publish_head`: it puts one JSON
document into a write-once bucket, under a key with the second of the publication, and goes
on to the next second when another object holds the key. The reader is `key_parts`,
`parse_head` and the part of `scan_heads` that looks at one object.

The bucket is a map from keys to objects. Whether a `PutObject` fails for another reason
than the key, and whether a stored object can be read, are left open. So are the driver and
`json.loads`. The model leaves out the row that `_record` writes, which nothing here reads,
and the log messages.
-/

set_option autoImplicit false

namespace TrustPortal.Audit

open TrustPortal.Sql
open TrustPortal.Python

/-! ## Seconds -/

/-- The number of days of a month. -/
def daysInMonth (year month : Nat) : Nat :=
  if month = 2 then (if year % 4 = 0 ∧ (year % 100 ≠ 0 ∨ year % 400 = 0) then 29 else 28)
  else if month = 4 ∨ month = 6 ∨ month = 9 ∨ month = 11 then 30 else 31

/-- A `datetime` of UTC without its microseconds. `published_at` is its text, which
`strptime` reads back. A clock that counts from 1970 shows no earlier year. -/
structure Stamp where
  year : Nat
  month : Nat
  day : Nat
  hour : Nat
  minute : Nat
  second : Nat
  year_valid : 1970 ≤ year ∧ year ≤ 9999
  month_valid : 1 ≤ month ∧ month ≤ 12
  day_valid : 1 ≤ day ∧ day ≤ daysInMonth year month
  hour_valid : hour < 24
  minute_valid : minute < 60
  second_valid : second < 60

theorem daysInMonth_pos (year month : Nat) : 1 ≤ daysInMonth year month := by
  unfold daysInMonth
  split
  · split <;> omega
  · split <;> omega

theorem daysInMonth_le (year month : Nat) : daysInMonth year month ≤ 31 := by
  unfold daysInMonth
  split
  · split <;> omega
  · split <;> omega

namespace Stamp

/-- `strftime("%Y-%m-%dT%H:%M:%SZ")`. -/
def text (stamp : Stamp) : String :=
  toString stamp.year ++ "-" ++ zeroPad 2 stamp.month ++ "-" ++ zeroPad 2 stamp.day ++ "T"
    ++ zeroPad 2 stamp.hour ++ ":" ++ zeroPad 2 stamp.minute ++ ":" ++ zeroPad 2 stamp.second
    ++ "Z"

/-- `strftime("%Y%m%dT%H%M%SZ")`. -/
def compactText (stamp : Stamp) : String :=
  toString stamp.year ++ zeroPad 2 stamp.month ++ zeroPad 2 stamp.day ++ "T"
    ++ zeroPad 2 stamp.hour ++ zeroPad 2 stamp.minute ++ zeroPad 2 stamp.second ++ "Z"

/-- The first second of the day after, none after the last day of the year 9999. -/
def nextDay (stamp : Stamp) : Option Stamp :=
  if hday : stamp.day < daysInMonth stamp.year stamp.month then
    some ⟨stamp.year, stamp.month, stamp.day + 1, 0, 0, 0, stamp.year_valid, stamp.month_valid,
      ⟨by omega, hday⟩, by omega, by omega, by omega⟩
  else if hmonth : stamp.month < 12 then
    some ⟨stamp.year, stamp.month + 1, 1, 0, 0, 0, stamp.year_valid, ⟨by omega, hmonth⟩,
      ⟨by omega, daysInMonth_pos _ _⟩, by omega, by omega, by omega⟩
  else if hyear : stamp.year < 9999 then
    some ⟨stamp.year + 1, 1, 1, 0, 0, 0, ⟨by have := stamp.year_valid; omega, hyear⟩,
      ⟨by omega, by omega⟩, ⟨by omega, daysInMonth_pos _ _⟩, by omega, by omega, by omega⟩
  else none

/-- `stamp + timedelta(seconds=1)`, none for the overflow after the year 9999. -/
def next (stamp : Stamp) : Option Stamp :=
  if hsecond : stamp.second + 1 < 60 then some { stamp with
    second := stamp.second + 1, second_valid := hsecond }
  else if hminute : stamp.minute + 1 < 60 then some { stamp with
    minute := stamp.minute + 1, minute_valid := hminute, second := 0, second_valid := by omega }
  else if hhour : stamp.hour + 1 < 24 then some { stamp with
    hour := stamp.hour + 1, hour_valid := hhour, minute := 0, minute_valid := by omega,
    second := 0, second_valid := by omega }
  else stamp.nextDay

end Stamp

/-! ## The head -/

/-- `FORMAT`. -/
def FORMAT : String := "trust-portal-chain-head/v1"

/-- `MAX_HEAD_BYTES`. -/
def MAX_HEAD_BYTES : Nat := 4096

/-- `CONFLICT_RETRIES`. -/
def CONFLICT_RETRIES : Nat := 3

/-- What `publish_head` raises. -/
inductive PublishError
  | unreadableAnchor
  | s3
  | overflow
  | conflicts (id : Int) (keys : List String)

/-- The dictionary `current_head` returns. -/
structure HeadRecord where
  chainId : String
  id : Int
  rowHash : String
  hashVersion : Option Int
  publishedAt : Stamp
  database : String
  anchor : Json
  portalVersion : Option String

/-- `SELECT … WHERE row_hash IS NOT NULL ORDER BY id DESC LIMIT 1`. -/
def AuditLog.lastHashed (log : AuditLog) : Option AuditRow :=
  log.rows.reverse.find? fun row => row.rowHash.isSome

/-- `SELECT new_values::text … WHERE action = 'ANCHOR' ORDER BY id LIMIT 1`. -/
def AuditLog.anchorDetailsText (log : AuditLog) : Option String :=
  (log.rows.find? fun row => decide (row.action = some "ANCHOR")).bind AuditRow.newValues

/-- `json.loads(anchor) if anchor else None`. -/
def loadAnchor (client : Client) (log : AuditLog) : Except PublishError Json :=
  match log.anchorDetailsText with
  | none => .ok .null
  | some details =>
      if details = "" then .ok .null
      else match client.loads details with
        | some anchor => .ok anchor
        | none => .error .unreadableAnchor

/-- `current_head`. -/
def currentHead (client : Client) (log : AuditLog) (database : String)
    (portalVersion : Option String) (now : Stamp) : Except PublishError (Option HeadRecord) := do
  match chainId log, log.lastHashed.bind fun row => row.rowHash.map (row, ·) with
  | some cid, some (row, hash) =>
    let anchor ← loadAnchor client log
    return some {
      chainId := cid
      id := row.id
      rowHash := hash
      hashVersion := if log.hasHashVersion then row.hashVersion else none
      publishedAt := now
      database := database
      anchor := anchor
      portalVersion := portalVersion }
  | _, _ => return none

/-- An integer as `json.dumps` takes it, or null. -/
def jsonInt : Option Int → Json
  | none => .null
  | some n => .number n 0

/-- The dictionary as a JSON value. -/
def headDocument (head : HeadRecord) : Json :=
  .object [("format", .string FORMAT), ("chain_id", .string head.chainId),
    ("id", .number head.id 0), ("row_hash", .string head.rowHash),
    ("hash_version", jsonInt head.hashVersion), ("published_at", .string head.publishedAt.text),
    ("database", .string head.database), ("anchor", head.anchor),
    ("portal_version", jsonText head.portalVersion)]

/-- `_body`. -/
def body (head : HeadRecord) : ByteArray := (dumps (headDocument head)).toByteArray

/-- `object_key`. -/
def objectKey (head : HeadRecord) : String :=
  "chain-heads/" ++ head.chainId ++ "/" ++ toString head.publishedAt.year ++ "/"
    ++ zeroPad 2 head.publishedAt.month ++ "/" ++ zeroPad 2 head.publishedAt.day ++ "/"
    ++ head.publishedAt.compactText ++ "-" ++ toString head.id ++ ".json"

/-! ## The bucket -/

/-- Two contents are compared byte by byte. -/
instance decEqContent : DecidableEq ByteArray := fun content other =>
  decidable_of_iff (content.data = other.data) ByteArray.ext_iff.symm

/-- An object of the bucket. -/
structure WitnessObject where
  content : ByteArray
  readable : Bool

/-- `get_object(...)["Body"].read(MAX_HEAD_BYTES + 1)`. -/
def WitnessObject.readBack (stored : WitnessObject) : ByteArray :=
  stored.content.extract 0 (MAX_HEAD_BYTES + 1)

/-- The objects of the bucket by their keys. -/
abbrev WitnessBucket := String → Option WitnessObject

/-- What `_put_once` answers. -/
inductive PutOutcome
  | published
  | already
  | conflict
  deriving DecidableEq, Repr

/-- `_put_once`. `faulty` says that `PutObject` fails for another reason than the key. -/
def putOnce (bucket : WitnessBucket) (faulty : Bool) (key : String) (content : ByteArray) :
    Except PublishError (PutOutcome × WitnessBucket) :=
  if faulty then .error .s3
  else match bucket key with
    | none => .ok (.published,
        fun other => if other = key then some ⟨content, true⟩ else bucket other)
    | some stored =>
        if stored.readable && decide (stored.readBack = content) then .ok (.already, bucket)
        else .ok (.conflict, bucket)

/-- What `publish_head` returns, with the bucket it leaves. -/
structure Publication where
  key : String
  head : HeadRecord
  outcome : PutOutcome
  conflicts : List String
  bucket : WitnessBucket

/-- The loop over the attempts. `attempts` are left, and `faults` says of each number of
attempts left whether its `PutObject` fails. -/
def publishLoop (faults : Nat → Bool) :
    Nat → WitnessBucket → HeadRecord → List String → Except PublishError Publication
  | 0, _, head, conflicts => .error (.conflicts head.id conflicts)
  | attempts + 1, bucket, head, conflicts =>
      match putOnce bucket (faults attempts) (objectKey head) (body head) with
      | .error e => .error e
      | .ok (.conflict, bucket) =>
          match head.publishedAt.next with
          | none => .error .overflow
          | some stamp =>
              publishLoop faults attempts bucket { head with publishedAt := stamp }
                (conflicts ++ [objectKey head])
      | .ok (outcome, bucket) => .ok ⟨objectKey head, head, outcome, conflicts, bucket⟩

/-- The settings `publish_head` looks at first. -/
structure WitnessSettings where
  disabled : Bool
  hasBucket : Bool
  armed : Bool

/-- `publish_head` of a head that `current_head` read. -/
def publishHead (settings : WitnessSettings) (requireArmed : Bool) (faults : Nat → Bool)
    (bucket : WitnessBucket) (head : Option HeadRecord) :
    Except PublishError (Option Publication) :=
  if settings.disabled || !settings.hasBucket || (requireArmed && !settings.armed) then .ok none
  else match head with
    | none => .ok none
    | some head => (publishLoop faults (CONFLICT_RETRIES + 1) bucket head []).map some

/-! ## Reading -/

/-- The characters that `\d` matches as the digit 0: the zeros of Unicode's decimal digits. -/
def decimalZeros : List Nat :=
  [48, 1632, 1776, 1984, 2406, 2534, 2662, 2790, 2918, 3046, 3174, 3302, 3430, 3558, 3664, 3792,
    3872, 4160, 4240, 6112, 6160, 6470, 6608, 6784, 6800, 6992, 7088, 7232, 7248, 42528, 43216,
    43264, 43472, 43504, 43600, 44016, 65296, 66720, 68912, 69734, 69872, 69942, 70096, 70384,
    70736, 70864, 71248, 71360, 71472, 71904, 72016, 72784, 73040, 73120, 73552, 92768, 92864,
    93008, 120782, 120792, 120802, 120812, 120822, 123200, 123632, 124144, 125264, 130032]

/-- The value of a decimal digit. -/
def decimalValue (c : Char) : Option Nat :=
  (decimalZeros.find? fun start => decide (start ≤ c.toNat) && decide (c.toNat < start + 10)).map
    fun start => c.toNat - start

/-- `\d`. -/
def isDecimal (c : Char) : Bool := (decimalValue c).isSome

/-- `int(text)` of decimal digits. -/
def decimalNat (digits : List Char) : Nat :=
  digits.foldl (fun n c => 10 * n + (decimalValue c).getD 0) 0

/-- What follows a fixed text. -/
def dropText : List Char → List Char → Option (List Char)
  | [], chars => some chars
  | c :: cs, d :: ds => if c = d then dropText cs ds else none
  | _ :: _, [] => none

/-- The next `n` characters, all of a class, and what follows them. -/
def takeClass (isIn : Char → Bool) (n : Nat) (chars : List Char) :
    Option (List Char × List Char) :=
  if decide ((chars.take n).length = n) && (chars.take n).all isIn then
    some (chars.take n, chars.drop n)
  else none

/-- `([1-9]\d{0,18})\.json$`: the number. -/
def readRowId (chars : List Char) : Option Int :=
  let digits := chars.takeWhile isDecimal
  let rest := chars.dropWhile isDecimal
  let first := digits.head?.any fun c => decide ('1' ≤ c) && decide (c ≤ '9')
  if first && decide (digits.length ≤ 19)
      && (decide (rest = ".json".toList) || decide (rest = ".json\n".toList)) then
    some (decimalNat digits)
  else none

/-- `key_parts`: the groups of `HEAD_KEY`. -/
def keyParts (key : String) : Option (String × Int) := do
  let rest ← dropText "chain-heads/".toList key.toList
  let (cid, rest) ← takeClass isHexDigit 16 rest
  let rest ← dropText ['/'] rest
  let (_, rest) ← takeClass isDecimal 4 rest
  let rest ← dropText ['/'] rest
  let (_, rest) ← takeClass isDecimal 2 rest
  let rest ← dropText ['/'] rest
  let (_, rest) ← takeClass isDecimal 2 rest
  let rest ← dropText ['/'] rest
  let (_, rest) ← takeClass isDecimal 8 rest
  let rest ← dropText ['T'] rest
  let (_, rest) ← takeClass isDecimal 6 rest
  let rest ← dropText ['Z', '-'] rest
  let id ← readRowId rest
  return (String.ofList cid, id)

/-- `HEX16.match`. Python's `$` also matches before a newline at the end. -/
def hex16Match (text : String) : Bool :=
  let chars := text.toList
  let digits := if chars.getLast? = some '\n' then chars.dropLast else chars
  decide (digits.length = 16) && digits.all isHexDigit

/-- The value is the string `text`. -/
def isText (text : String) : Json → Bool
  | .string s => decide (s = text)
  | _ => false

/-- The shapes of `chain_id`, `id` and `row_hash`: the chain id and the row id. -/
def headShape (members : Sql.Members) : Option (String × Int) :=
  match detail members "chain_id", detail members "id", detail members "row_hash" with
  | .string cid, .number id 0, .string hash =>
      if hex16Match cid && decide (1 ≤ id) && hex64Match hash then some (cid, id) else none
  | _, _, _ => none

/-- The checks of `parse_head` on the parsed body: the head, or the reason why it is none. -/
def checkHead (parts : String × Int) : Json → Except String Sql.Members
  | .object members =>
      if !isText FORMAT (detail members "format") then
        .error "format is not trust-portal-chain-head/v1"
      else match headShape members with
        | none => .error "chain_id, id or row_hash missing or malformed"
        | some shape =>
            if shape ≠ parts then .error "body disagrees with its key (chain id or row id)"
            else .ok members
  | _ => .error "not a JSON object"

/-- `parse_head` of the bytes of an object. -/
def parseHead (loads : ByteArray → Option Json) (key : String) (content : ByteArray) :
    Except String Sql.Members :=
  match keyParts key with
  | none => .error "key is not chain-heads/<chain id>/YYYY/MM/DD/<timestamp>-<row id>.json"
  | some parts =>
      if MAX_HEAD_BYTES < content.size then .error "object larger than 4096 bytes"
      else match loads content with
        | none => .error "not JSON"
        | some document => checkHead parts document

/-- The entry of `scan_heads` for one object version: a valid head, or the reason why the
object is an invalid one. -/
def scanObject (loads : ByteArray → Option Json) (key : String) (stored : WitnessObject) :
    Except String Sql.Members :=
  if (keyParts key).isNone then .error "key is not of the chain head form"
  else if MAX_HEAD_BYTES < stored.content.size then .error "object larger than 4096 bytes"
  else if !stored.readable then .error "unreadable"
  else parseHead loads key stored.content

end TrustPortal.Audit
