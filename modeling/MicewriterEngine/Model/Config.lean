import MicewriterEngine.Model.RocksdbStore
import MicewriterEngine.Model.SchemaFile

/-!
# The configuration

`Config::from_env` reads the environment and the schema file of the table. What the process
finds outside is given: the variables, the files and the number of CPUs. The JSON parser is a
parameter. A variable that is not valid Unicode counts as not set.
-/

namespace MicewriterEngine

inductive CatalogType
  | nessie
  | glue
  deriving DecidableEq

/-- The codecs that `parse_parquet_compression` gives. -/
inductive Compression
  | uncompressed
  | snappy
  | zstd
  deriving DecidableEq

structure Config where
  catalogType : CatalogType
  micewriterTable : String
  grpcPort : ℕ
  minioUrl : Option String
  minioAccessKey : Option String
  minioSecretKey : Option String
  nessieUri : Option String
  warehouse : String
  glueCatalogId : Option String
  flushIntervalSecs : ℕ
  flushJitterSecs : ℕ
  flushSizeBytes : ℕ
  flushSizeJitterBytes : ℕ
  enableManualFlush : Bool
  rocksdbPath : String
  rocksdbSyncWrites : Bool
  maxRetainedFrozenCfs : ℕ
  writeBufferSize : ℕ
  concurrentCfFlushes : ℕ
  targetParquetBytes : ℕ
  parquetRowGroupBytes : ℕ
  parquetCompression : Compression
  fieldDefs : List FieldDef

inductive ConfigError
  | text (message : String)
  /-- "Failed to read schema file", with the path in its debug form. -/
  | readSchemaFile (path : String)

def NulFree (s : String) : Prop := '\x00' ∉ s.toList

instance decidableNulFree (s : String) : Decidable (NulFree s) := inferInstanceAs (Decidable ('\x00' ∉ s.toList))

structure Surroundings where
  var : String → Option String
  /-- The environment holds strings that end with a NUL. -/
  nulFree : ∀ name value, var name = some value → NulFree value
  readToString : String → Option String
  availableParallelism : Option ℕ

namespace Surroundings

variable (w : Surroundings)

/-- `str::parse` for an unsigned type of at most 64 bits. -/
def parseUnsigned (bits : ℕ) (s : String) : Option ℕ := (parseU64 s.toList).filter (· < 2 ^ bits)

/-- A variable with a number: its default, the width of its type, and the error where it is malformed. -/
structure NumberVar where
  name : String
  default : String
  bits : ℕ
  message : String

def grpcPort : NumberVar := ⟨"GRPC_PORT", "9090", 16, "GRPC_PORT must be a valid u16 port number"⟩

def flushIntervalSecs : NumberVar :=
  ⟨"FLUSH_INTERVAL_SECS", "300", 64, "FLUSH_INTERVAL_SECS must be a number"⟩

def flushJitterSecs : NumberVar := ⟨"FLUSH_JITTER_SECS", "60", 64, "FLUSH_JITTER_SECS must be a number"⟩

def flushSizeBytes : NumberVar := ⟨"FLUSH_SIZE_BYTES", "134217728", 64, "FLUSH_SIZE_BYTES must be a number"⟩

def flushSizeJitterBytes : NumberVar :=
  ⟨"FLUSH_SIZE_JITTER_BYTES", "67108864", 64, "FLUSH_SIZE_JITTER_BYTES must be a number"⟩

def maxRetainedFrozenCfs : NumberVar :=
  ⟨"MAX_RETAINED_FROZEN_CFS", "2", 64, "MAX_RETAINED_FROZEN_CFS must be an integer"⟩

def writeBufferSize : NumberVar :=
  ⟨"WRITE_BUFFER_SIZE", "67108864", 64, "WRITE_BUFFER_SIZE must be a positive integer"⟩

def concurrentCfFlushes : NumberVar :=
  ⟨"CONCURRENT_CF_FLUSHES", "2", 64, "CONCURRENT_CF_FLUSHES must be a positive integer"⟩

def targetParquetBytes : NumberVar :=
  ⟨"TARGET_PARQUET_BYTES", "67108864", 64, "TARGET_PARQUET_BYTES must be a positive integer"⟩

def parquetRowGroupBytes : NumberVar :=
  ⟨"PARQUET_ROW_GROUP_BYTES", "8388608", 64, "PARQUET_ROW_GROUP_BYTES must be a positive integer"⟩

def number (v : NumberVar) : Except ConfigError ℕ :=
  match parseUnsigned v.bits ((w.var v.name).getD v.default) with
  | some n => .ok n
  | none => .error (.text v.message)

/-- `to_lowercase`, for a comparison with `false` or `glue`: no character outside ASCII has a lower case
in these words. -/
def toLowercase (s : String) : String := String.ofList (s.toList.map Char.toLower)

def toAsciiUppercase (s : String) : String := String.ofList (s.toList.map Char.toUpper)

/-- A variable that is true unless it says `false`. -/
def flag (name : String) : Bool := (w.var name).all (fun v => toLowercase v != "false")

/-- `char::is_whitespace`. -/
def isWhitespace (c : Char) : Bool :=
  c.toNat ∈ [0x20, 0x85, 0xA0, 0x1680, 0x2028, 0x2029, 0x202F, 0x205F, 0x3000] ||
    (0x9 ≤ c.toNat && c.toNat ≤ 0xD) || (0x2000 ≤ c.toNat && c.toNat ≤ 0x200A)

def trim (s : String) : String :=
  String.ofList ((s.toList.dropWhile isWhitespace).reverse.dropWhile isWhitespace).reverse

def parseParquetCompression (s : String) : Except ConfigError Compression :=
  match toAsciiUppercase (trim s) with
  | "NONE" | "UNCOMPRESSED" => .ok .uncompressed
  | "SNAPPY" => .ok .snappy
  | "ZSTD" => .ok .zstd
  | other => .error (.text s!"unsupported PARQUET_COMPRESSION '{other}' (expected NONE|SNAPPY|ZSTD)")

/-- `Path::join`. -/
def joinPath (dir file : String) : String :=
  if file.toList.head? = some '/' ∨ dir = "" then file
  else if dir.toList.getLast? = some '/' then dir ++ file
  else dir ++ "/" ++ file

def loadFieldDefs (fromStr : String → Option Json) (table schemasDir : String) :
    Except ConfigError (List FieldDef) :=
  let path := joinPath schemasDir s!"{table}.json"
  match w.readToString path with
  | none => .error (.readSchemaFile path)
  | some content =>
    match fromStr content with
    | none => .error (.text "Failed to parse schema JSON")
    | some schema => .ok (MicewriterEngine.loadFieldDefs schema)

/-! ### The configuration -/

def catalogType : CatalogType :=
  if toLowercase ((w.var "CATALOG_TYPE").getD "nessie") = "glue" then .glue else .nessie

/-- The size replaces the configured one. It grows with the number of CPUs, which is far below where the
product overflows. -/
def scaledWriteBufferSize : ℕ :=
  min (4 * 1024 * 1024 * max (w.availableParallelism.getD 1) 1) (64 * 1024 * 1024)

def checkNessie : Except ConfigError Unit :=
  if w.catalogType = .nessie ∧ ((w.var "MINIO_URL").isNone ∨ (w.var "MINIO_ACCESS_KEY").isNone ∨
      (w.var "MINIO_SECRET_KEY").isNone ∨ (w.var "NESSIE_URI").isNone) then
    .error (.text ("MINIO_URL, MINIO_ACCESS_KEY, MINIO_SECRET_KEY, and NESSIE_URI are required " ++
      "when CATALOG_TYPE=nessie"))
  else .ok ()

def requireTable : Except ConfigError String :=
  match w.var "MICEWRITER_TABLE" with
  | some table => .ok table
  | none => .error (.text "MICEWRITER_TABLE environment variable is strictly required in v2")

def fromEnv (fromStr : String → Option Json) : Except ConfigError Config := do
  w.checkNessie
  let micewriterTable ← w.requireTable
  let fieldDefs ← w.loadFieldDefs fromStr micewriterTable ((w.var "SCHEMAS_DIR").getD "./schemas")
  let grpcPort ← w.number grpcPort
  let flushIntervalSecs ← w.number flushIntervalSecs
  let flushJitterSecs ← w.number flushJitterSecs
  let flushSizeBytes ← w.number flushSizeBytes
  let flushSizeJitterBytes ← w.number flushSizeJitterBytes
  let maxRetainedFrozenCfs ← w.number maxRetainedFrozenCfs
  let _ ← w.number writeBufferSize
  let concurrentCfFlushes ← w.number concurrentCfFlushes
  let targetParquetBytes ← w.number targetParquetBytes
  let parquetRowGroupBytes ← w.number parquetRowGroupBytes
  let parquetCompression ← parseParquetCompression ((w.var "PARQUET_COMPRESSION").getD "SNAPPY")
  return {
    catalogType := w.catalogType
    micewriterTable := micewriterTable
    grpcPort := grpcPort
    minioUrl := w.var "MINIO_URL"
    minioAccessKey := w.var "MINIO_ACCESS_KEY"
    minioSecretKey := w.var "MINIO_SECRET_KEY"
    nessieUri := w.var "NESSIE_URI"
    warehouse := ((w.var "WAREHOUSE").orElse (fun _ => w.var "NESSIE_WAREHOUSE")).getD "s3://iceberg"
    glueCatalogId := w.var "GLUE_CATALOG_ID"
    flushIntervalSecs := flushIntervalSecs
    flushJitterSecs := flushJitterSecs
    flushSizeBytes := flushSizeBytes
    flushSizeJitterBytes := flushSizeJitterBytes
    enableManualFlush := w.flag "ENABLE_MANUAL_FLUSH"
    rocksdbPath := (w.var "ROCKSDB_PATH").getD "/var/lib/rocksdb"
    rocksdbSyncWrites := w.flag "ROCKSDB_SYNC_WRITES"
    maxRetainedFrozenCfs := maxRetainedFrozenCfs
    writeBufferSize := w.scaledWriteBufferSize
    concurrentCfFlushes := concurrentCfFlushes
    targetParquetBytes := targetParquetBytes
    parquetRowGroupBytes := parquetRowGroupBytes
    parquetCompression := parquetCompression
    fieldDefs := fieldDefs }

end Surroundings

/-- The properties that `build_nessie_catalog` passes on. There are none where it panics. -/
def nessieProps (config : Config) : Option (List (String × String)) := do
  let endpoint ← config.minioUrl
  let accessKey ← config.minioAccessKey
  let secretKey ← config.minioSecretKey
  let uri ← config.nessieUri
  return [("s3.endpoint", endpoint), ("s3.access-key-id", accessKey), ("s3.secret-access-key", secretKey),
    ("s3.path-style-access", "true"), ("warehouse", config.warehouse), ("uri", uri)]

def glueProps (config : Config) : List (String × String) :=
  ("warehouse", config.warehouse) :: config.glueCatalogId.toList.map (fun id => ("catalog_id", id))

/-- The properties of the catalog that `build_catalog` loads. -/
def catalogProps (config : Config) : Option (List (String × String)) :=
  match config.catalogType with
  | .glue => some (glueProps config)
  | .nessie => nessieProps config

end MicewriterEngine
