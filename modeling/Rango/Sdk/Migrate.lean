import Rango.Core.Find
import Rango.Sdk.Json

/-!
# Import and export

The JSON Lines files of `RangoClient`: `bson_to_json` and `json_to_bson`, written separately, and
`import_json` and `export_json` over them. An import takes the lines that the reader yields, with
the clock's readings for the insert of each; an export returns the lines that it writes.
-/

namespace Rango

/-- What `bson` and the standard library print and parse. -/
class BsonText where
  /-- `bson::DateTime::to_string` -/
  dateTimeDisplay : DateTime → String
  /-- `format!("{:02x?}", subtype)` -/
  subtypeDebug : UInt8 → String
  /-- `Decimal128::to_string` -/
  decimal128Display : List UInt8 → String
  /-- `ObjectId::parse_str` -/
  parseObjectId : String → Except String (List UInt8)
  /-- `DateTime::parse_rfc3339_str` -/
  parseRfc3339 : String → Except String DateTime
  /-- `str::parse::<f64>` -/
  parseF64 : String → Except String F64

/-- `str::parse` at a signed integer type of the given width. -/
def parseInt (width : ℕ) (s : List Char) : Except String ℤ :=
  match s with
  | ['-'] => .error "invalid digit found in string"
  | '-' :: rest =>
    match Revision.parseDigits (2 ^ (width - 1)) 0 rest with
    | .ok n => .ok (-n)
    | .error err =>
      .error (if err = "number too large to fit in target type" then
        "number too small to fit in target type" else err)
  | _ => (Revision.parseUint (2 ^ (width - 1) - 1) s).map fun n => (n : ℤ)

example : parseInt 8 "-128".toList = .ok (-128) ∧
    parseInt 8 "-129".toList = .error "number too small to fit in target type" ∧
    parseInt 8 "128".toList = .error "number too large to fit in target type" := by
  decide

section
variable [BsonText]

/-! ## Values -/

mutual
/-- `bson_to_json`. Every arm of it returns `Ok`. -/
def bsonToJson : Bson → Json
  | .double x => .number ((JsonNumber.ofF64 x).getD (.posInt 0))
  | .string s => .string s
  | .array xs => .array (bsonToJsonList xs)
  | .document entries => .object (SortedMap.ofEntries (bsonToJsonEntries entries))
  | .boolean b => .bool b
  | .null => .null
  | .int32 i => .number (.ofInt i)
  | .int64 i => .number (.ofInt i)
  | .objectId oid => .string (String.ofList (hex oid))
  | .dateTime t => .string (BsonText.dateTimeDisplay t)
  | .binary subtype bytes =>
    if subtype = DocumentId.uuidSubtype ∧ bytes.length = 16 then
      .string (String.ofList (DocumentId.uuidDisplay bytes))
    else .string ("<Binary " ++ BsonText.subtypeDebug subtype ++ ">")
  | .undefined => .null
  | .regularExpression pattern options => .string ("/" ++ pattern ++ "/" ++ options)
  | .javaScriptCode code => .string code
  | .javaScriptCodeWithScope _ _ => .string "[JS code with scope]"
  | .timestamp time _ => .number (.posInt time)
  | .decimal128 bytes => .string (BsonText.decimal128Display bytes)
  | .maxKey => .string "$MaxKey"
  | .minKey => .string "$MinKey"
  | .dbPointer _ _ => .null
  | .symbol s => .string s

def bsonToJsonList : List Bson → List Json
  | [] => []
  | x :: xs => bsonToJson x :: bsonToJsonList xs

def bsonToJsonEntries : List (String × Bson) → List (String × Json)
  | [] => []
  | (k, x) :: rest => (k, bsonToJson x) :: bsonToJsonEntries rest
end

/-- A number: `i32` where it fits, then `i64`, then `f64`. -/
def numberToBson (n : JsonNumber) : Except RangoError Bson :=
  match n.asI64 with
  | some i => if -2 ^ 31 ≤ i ∧ i < 2 ^ 31 then .ok (.int32 i) else .ok (.int64 i)
  | none =>
    match n.asF64 with
    | some f => .ok (.double f)
    | none => .error (.storage "Invalid number")

/-- The value of a text, or the error of its parser. -/
def reported {α : Type} (what : String) (parsed : Except String α) (value : α → Bson) :
    Except RangoError Bson :=
  match parsed with
  | .ok a => .ok (value a)
  | .error err => .error (.storage (what ++ err))

/-- The arms that act on a string alone. -/
def onString (val : Json) (arm : String → Except RangoError Bson) :
    Option (Except RangoError Bson) :=
  match val with
  | .string s => some (arm s)
  | _ => none

/-- The extended JSON of an object with one key, if it is any. -/
def extendedJson : List (String × Json) → Option (Except RangoError Bson)
  | [(key, val)] =>
    if key = "$oid" then
      onString val fun s => reported "Invalid ObjectId: " (BsonText.parseObjectId s) .objectId
    else if key = "$date" then
      onString val fun s => reported "Invalid date: " (BsonText.parseRfc3339 s) .dateTime
    else if key = "$numberInt" then
      onString val fun s => reported "Invalid Int32: " (parseInt 32 s.toList) .int32
    else if key = "$numberLong" then
      onString val fun s => reported "Invalid Int64: " (parseInt 64 s.toList) .int64
    else if key = "$numberDouble" then
      match val with
      | .string s => some (reported "Invalid Double: " (BsonText.parseF64 s) .double)
      | .number n => some (.ok (.double (n.asF64.getD F64.zero)))
      -- any other value counts as zero
      | _ => some (.ok (.double F64.zero))
    else none
  | _ => none

mutual
/-- `json_to_bson`. -/
def jsonToBson : Json → Except RangoError Bson
  | .null => .ok .null
  | .bool b => .ok (.boolean b)
  | .number n => numberToBson n
  | .string s => .ok (.string s)
  | .array xs => (jsonToBsonList xs).map .array
  | .object entries =>
    match extendedJson entries with
    | some value => value
    | none => (jsonToBsonEntries Document.empty entries).map fun doc => .document doc.entries

def jsonToBsonList : List Json → Except RangoError (List Bson)
  | [] => .ok []
  | x :: xs =>
    match jsonToBson x with
    | .error err => .error err
    | .ok v => (jsonToBsonList xs).map (v :: ·)

/-- The loop over a regular object, `doc` so far. -/
def jsonToBsonEntries (doc : Document) : List (String × Json) → Except RangoError Document
  | [] => .ok doc
  | (k, x) :: rest =>
    match jsonToBson x with
    | .error err => .error err
    | .ok v => jsonToBsonEntries (doc.insert k v) rest
end

/-! ## Lines -/

section
variable [SerdeJson]

/-- `doc_to_json`. -/
def docToJson (doc : Document) : Except RangoError String :=
  match SerdeJson.toText (bsonToJson (.document doc.entries)) with
  | .ok text => .ok text
  | .error err => .error (.storage ("JSON serialize error: " ++ err))

/-- `parse_mongo_json`. -/
def parseMongoJson (line : String) : Except RangoError Document :=
  match SerdeJson.ofText line with
  | .error err => .error (.storage ("JSON parse error: " ++ err))
  | .ok value =>
    match jsonToBson value with
    | .error err => .error err
    | .ok (.document entries) => .ok ⟨entries⟩
    | .ok _ => .error (.storage "Expected JSON object, got other type")

omit [BsonText] [SerdeJson] in
/-- `char::is_whitespace`: the Unicode property `White_Space`. -/
def isWhitespace (c : Char) : Bool :=
  (9 ≤ c.toNat && c.toNat ≤ 13) || (0x2000 ≤ c.toNat && c.toNat ≤ 0x200A) ||
    c.toNat ∈ [0x20, 0x85, 0xA0, 0x1680, 0x2028, 0x2029, 0x202F, 0x205F, 0x3000]

omit [BsonText] [SerdeJson] in
/-- `str::trim`. -/
def trim (s : List Char) : List Char :=
  (((s.dropWhile isWhitespace).reverse).dropWhile isWhitespace).reverse

omit [BsonText] [SerdeJson] in
/-- `sanitize_json_line`: the first line without a byte order mark. -/
def sanitizeJsonLine (lineNum : ℕ) (raw : String) : String :=
  let trimmed := trim raw.toList
  if lineNum = 0 then String.ofList (trimmed.dropWhile (· = '\uFEFF')) else String.ofList trimmed

omit [BsonText] [SerdeJson] in
/-- What `writeln!` of the lines leaves in a file. -/
def fileOf (lines : List String) : List Char := lines.flatMap fun line => line.toList ++ ['\n']

omit [BsonText] [SerdeJson] in
/-- A line, last character first, without a carriage return at its end. -/
def dropCr : List Char → List Char
  | '\r' :: rest => rest
  | line => line

omit [BsonText] [SerdeJson] in
/-- `BufRead::lines`, the line so far last character first. What stands behind the last newline is
a line too. -/
def bufLines (current : List Char) : List Char → List String
  | [] => if current = [] then [] else [String.ofList current.reverse]
  | x :: rest =>
    if x = '\n' then String.ofList (dropCr current).reverse :: bufLines [] rest
    else bufLines (x :: current) rest

/-- `ImportResult`. -/
structure ImportResult where
  imported : ℕ
  errors : ℕ

/-- The calls of `ImportProgress`. -/
inductive ProgressEvent where
  | document (count : ℕ)
  | error (line : ℕ) (text : String)
  | complete (imported errors : ℕ)

namespace RangoEngine

variable {σ ω : Type} [Formatting] [StorageEngine σ] [Oplog ω] [BsonCodec] [MutationHasher]

/-- The body of the loop of `import_json`: how the line ended, if it was not empty. -/
def importLine (e : RangoEngine σ ω) (c : CollectionName) (lineNum : ℕ)
    (line : Except String String) (t : WriteClock) :
    Option (Except String Unit) × RangoEngine σ ω :=
  match line with
  | .error err => (some (.error err), e)
  | .ok raw =>
    if sanitizeJsonLine lineNum raw = "" then (none, e)
    else
      match parseMongoJson (sanitizeJsonLine lineNum raw) with
      | .error err => (some (.error err.display), e)
      | .ok doc =>
        match e.insertOne c doc t with
        | (.ok _, e) => (some (.ok ()), e)
        | (.error err, e) => (some (.error err.display), e)

/-- The loop of `import_json`, with the progress that it reports. -/
def importLoop (c : CollectionName) (e : RangoEngine σ ω) (lineNum : ℕ) (r : ImportResult) :
    List (Except String String × WriteClock) →
      (ImportResult × List ProgressEvent) × RangoEngine σ ω
  | [] => ((r, [.complete r.imported r.errors]), e)
  | (line, t) :: rest =>
    match e.importLine c lineNum line t with
    | (none, e) => importLoop c e (lineNum + 1) r rest
    | (some (.ok ()), e) =>
      let next := importLoop c e (lineNum + 1) { r with imported := r.imported + 1 } rest
      ((next.1.1, .document (r.imported + 1) :: next.1.2), next.2)
    | (some (.error err), e) =>
      let next := importLoop c e (lineNum + 1) { r with errors := r.errors + 1 } rest
      ((next.1.1, .error (lineNum + 1) err :: next.1.2), next.2)

/-- `RangoClient::import_json`. Opening the file may fail. -/
def importJson (e : RangoEngine σ ω) (collection : String)
    (file : Except String (List (Except String String × WriteClock))) :
    Except RangoError (ImportResult × List ProgressEvent) × RangoEngine σ ω :=
  match file with
  | .error err => (.error (.storage err), e)
  | .ok lines =>
    let run := importLoop ⟨collection⟩ e 0 ⟨0, 0⟩ lines
    (.ok run.1, run.2)

omit [Formatting] [StorageEngine σ] [Oplog ω] [BsonCodec] [MutationHasher] in
/-- The loop of `export_json`: the lines written. Documents that do not serialize are skipped. -/
def exportLoop : List (Except RangoError Document) → Except RangoError (List String)
  | [] => .ok []
  | .error err :: _ => .error err
  | .ok doc :: rest =>
    match docToJson doc with
    | .error _ => exportLoop rest
    | .ok text => (exportLoop rest).map (text :: ·)

omit [Formatting] [Oplog ω] [BsonCodec] [MutationHasher] in
/-- `RangoClient::export_json`. -/
def exportJson [BsonTraits] [SliceSort] (e : RangoEngine σ ω) (collection : String) :
    Except Fault (List String) :=
  match (e.findMany ⟨collection⟩).1 with
  | .error fault => .error fault
  | .ok items =>
    match exportLoop items with
    | .error err => .error (.error err)
    | .ok lines => .ok lines

end RangoEngine
end
end
end Rango
