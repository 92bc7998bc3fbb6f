import MicewriterEngine.Lib.Runs
import MicewriterEngine.Model.Config

/-!
# What `from_env` accepts

The configurations that an environment can give are those with a catalog that can be built
and numbers in range, and with a write buffer of one to sixteen times 4 MiB. An environment
is rejected for a required variable that is not set, for a schema file that cannot be read, or
for a variable that is set to a malformed value, and the error names it.
-/

namespace MicewriterEngine.Proofs
open Lib Surroundings

variable {fromStr : String → Option Json} {w : Surroundings} {c : Config} {e : ConfigError} {v : NumberVar}

def numberVars : List NumberVar :=
  [grpcPort, flushIntervalSecs, flushJitterSecs, flushSizeBytes, flushSizeJitterBytes, maxRetainedFrozenCfs,
    writeBufferSize, concurrentCfFlushes, targetParquetBytes, parquetRowGroupBytes]

def nessieVars : List String := ["MINIO_URL", "MINIO_ACCESS_KEY", "MINIO_SECRET_KEY", "NESSIE_URI"]

def schemaPath (w : Surroundings) (table : String) : String :=
  joinPath ((w.var "SCHEMAS_DIR").getD "./schemas") s!"{table}.json"

/-- What is wrong with the surroundings, with the error that says so. -/
inductive Blamed (fromStr : String → Option Json) (w : Surroundings) : ConfigError → Prop
  | nessie (hcatalog : w.catalogType = .nessie) (hunset : ∃ name ∈ nessieVars, w.var name = none) :
      Blamed fromStr w (.text ("MINIO_URL, MINIO_ACCESS_KEY, MINIO_SECRET_KEY, and NESSIE_URI are required " ++
        "when CATALOG_TYPE=nessie"))
  | table (hunset : w.var "MICEWRITER_TABLE" = none) :
      Blamed fromStr w (.text "MICEWRITER_TABLE environment variable is strictly required in v2")
  | schemaFile {table : String} (htable : w.var "MICEWRITER_TABLE" = some table)
      (hread : w.readToString (schemaPath w table) = none) : Blamed fromStr w (.readSchemaFile (schemaPath w table))
  | schemaJson {table content : String} (htable : w.var "MICEWRITER_TABLE" = some table)
      (hread : w.readToString (schemaPath w table) = some content) (hparse : fromStr content = none) :
      Blamed fromStr w (.text "Failed to parse schema JSON")
  | number {v : NumberVar} {value : String} (hv : v ∈ numberVars) (hset : w.var v.name = some value)
      (hmalformed : parseUnsigned v.bits value = none) : Blamed fromStr w (.text v.message)
  | compression {value : String} (hset : w.var "PARQUET_COMPRESSION" = some value)
      (hunknown : toAsciiUppercase (trim value) ∉ ["NONE", "UNCOMPRESSED", "SNAPPY", "ZSTD"]) :
      Blamed fromStr w (.text
        s!"unsupported PARQUET_COMPRESSION '{toAsciiUppercase (trim value)}' (expected NONE|SNAPPY|ZSTD)")

lemma default_parses (hv : v ∈ numberVars) : (parseUnsigned v.bits v.default).isSome := by
  revert v
  decide

lemma number_error (hv : v ∈ numberVars) (h : w.number v = .error e) : Blamed fromStr w e := by
  unfold number at h
  split at h
  · cases h
  · rename_i hmalformed
    cases h
    cases hset : w.var v.name with
    | none =>
      have hdefault := default_parses hv
      rw [hset, Option.getD_none] at hmalformed
      rw [hmalformed] at hdefault
      cases hdefault
    | some value =>
      rw [hset, Option.getD_some] at hmalformed
      exact .number hv hset hmalformed

lemma number_ok {n : ℕ} (h : w.number v = .ok n) : parseUnsigned v.bits ((w.var v.name).getD v.default) = some n := by
  unfold number at h
  split at h
  · rename_i hparsed
    cases h
    exact hparsed
  · cases h

lemma number_lt {n : ℕ} (h : w.number v = .ok n) : n < 2 ^ v.bits := by
  obtain ⟨-, hlt⟩ := Option.filter_eq_some_iff.mp (number_ok h)
  exact of_decide_eq_true hlt

lemma not_malformed {n : ℕ} {value : String} (h : w.number v = .ok n) (hset : w.var v.name = some value) :
    parseUnsigned v.bits value ≠ none := by
  have hparsed := number_ok h
  rw [hset, Option.getD_some] at hparsed
  rw [hparsed]
  exact Option.some_ne_none n

lemma compression_error {value : String} (h : parseParquetCompression value = .error e) :
    toAsciiUppercase (trim value) ∉ ["NONE", "UNCOMPRESSED", "SNAPPY", "ZSTD"] ∧
      e = .text s!"unsupported PARQUET_COMPRESSION '{toAsciiUppercase (trim value)}' (expected NONE|SNAPPY|ZSTD)" := by
  unfold parseParquetCompression at h
  split at h
  case h_5 hnone huncompressed hsnappy hzstd =>
    cases h
    refine ⟨?_, rfl⟩
    simp only [List.mem_cons, List.not_mem_nil, or_false, not_or]
    exact ⟨hnone, huncompressed, hsnappy, hzstd⟩
  all_goals cases h

lemma compression_blamed (h : parseParquetCompression ((w.var "PARQUET_COMPRESSION").getD "SNAPPY") = .error e) :
    Blamed fromStr w e := by
  obtain ⟨hunknown, rfl⟩ := compression_error h
  cases hset : w.var "PARQUET_COMPRESSION" with
  | none =>
    rw [hset] at hunknown
    exact absurd hunknown (by decide)
  | some value =>
    rw [hset, Option.getD_some] at hunknown
    rw [Option.getD_some]
    exact .compression hset hunknown

lemma compression_ok {value : String} {codec : Compression} (h : parseParquetCompression value = .ok codec) :
    toAsciiUppercase (trim value) ∈ ["NONE", "UNCOMPRESSED", "SNAPPY", "ZSTD"] := by
  unfold parseParquetCompression at h
  split at h
  case h_5 => cases h
  all_goals simp_all

lemma checkNessie_error (h : w.checkNessie = .error e) : Blamed fromStr w e := by
  unfold checkNessie at h
  split at h
  · rename_i hmissing
    cases h
    refine .nessie hmissing.1 ?_
    rcases hmissing.2 with hunset | hunset | hunset | hunset <;>
      exact ⟨_, by simp [nessieVars], Option.isNone_iff_eq_none.mp hunset⟩
  · cases h

lemma checkNessie_ok {u : Unit} (h : w.checkNessie = .ok u) (hcatalog : w.catalogType = .nessie) :
    ∀ name ∈ nessieVars, (w.var name).isSome := by
  unfold checkNessie at h
  split at h
  · cases h
  · rename_i hset
    simp only [hcatalog, true_and, not_or, Bool.not_eq_true, Option.isNone_eq_false_iff] at hset
    obtain ⟨hurl, haccess, hsecret, huri⟩ := hset
    simp [nessieVars, hurl, haccess, hsecret, huri]

lemma requireTable_error (h : w.requireTable = .error e) : Blamed fromStr w e := by
  unfold requireTable at h
  split at h
  · cases h
  · rename_i hunset
    cases h
    exact .table hunset

lemma requireTable_ok {table : String} (h : w.requireTable = .ok table) : w.var "MICEWRITER_TABLE" = some table := by
  unfold requireTable at h
  split at h
  · rename_i hset
    cases h
    exact hset
  · cases h

/-- The schema file of the table, read and parsed. -/
lemma loadFieldDefs_error {table : String} (htable : w.var "MICEWRITER_TABLE" = some table)
    (h : w.loadFieldDefs fromStr table ((w.var "SCHEMAS_DIR").getD "./schemas") = .error e) : Blamed fromStr w e := by
  unfold Surroundings.loadFieldDefs at h
  dsimp only at h
  split at h
  · rename_i hread
    cases h
    exact .schemaFile htable hread
  · rename_i hread
    split at h
    · rename_i hparse
      cases h
      exact .schemaJson htable hread hparse
    · cases h

lemma loadFieldDefs_ok {table : String} {fieldDefs : List FieldDef}
    (h : w.loadFieldDefs fromStr table ((w.var "SCHEMAS_DIR").getD "./schemas") = .ok fieldDefs) :
    ∃ content schema, w.readToString (schemaPath w table) = some content ∧ fromStr content = some schema ∧
      MicewriterEngine.loadFieldDefs schema = fieldDefs := by
  unfold Surroundings.loadFieldDefs at h
  dsimp only at h
  split at h
  · cases h
  · rename_i content hread
    split at h
    · cases h
    · rename_i schema hparse
      cases h
      exact ⟨content, schema, hread, hparse, rfl⟩

/-! ### Accepted configurations -/

/-- The strings of a configuration that come from a variable each. -/
def variableTexts (c : Config) : List String :=
  [c.micewriterTable, c.warehouse, c.rocksdbPath] ++ c.minioUrl.toList ++ c.minioAccessKey.toList ++
    c.minioSecretKey.toList ++ c.nessieUri.toList ++ c.glueCatalogId.toList

/-- Strings are free of NUL, the catalog can be built, numbers fit their types, and the write buffer is
4 MiB a thread for up to sixteen threads. -/
structure WellFormed (c : Config) : Prop where
  nulFree : ∀ s ∈ variableTexts c, NulFree s
  catalog : (catalogProps c).isSome
  grpcPort : c.grpcPort < 2 ^ 16
  flushIntervalSecs : c.flushIntervalSecs < 2 ^ 64
  flushJitterSecs : c.flushJitterSecs < 2 ^ 64
  flushSizeBytes : c.flushSizeBytes < 2 ^ 64
  flushSizeJitterBytes : c.flushSizeJitterBytes < 2 ^ 64
  maxRetainedFrozenCfs : c.maxRetainedFrozenCfs < 2 ^ 64
  concurrentCfFlushes : c.concurrentCfFlushes < 2 ^ 64
  targetParquetBytes : c.targetParquetBytes < 2 ^ 64
  parquetRowGroupBytes : c.parquetRowGroupBytes < 2 ^ 64
  writeBufferSize : ∃ threads, 1 ≤ threads ∧ threads ≤ 16 ∧ c.writeBufferSize = 4 * 1024 * 1024 * threads

lemma scaledWriteBufferSize_eq (w : Surroundings) :
    ∃ threads, 1 ≤ threads ∧ threads ≤ 16 ∧ w.scaledWriteBufferSize = 4 * 1024 * 1024 * threads := by
  refine ⟨min (max (w.availableParallelism.getD 1) 1) 16, ?_, min_le_right _ _, ?_⟩
  · omega
  · rw [scaledWriteBufferSize]
    omega

lemma catalogProps_isSome (hcatalog : w.catalogType = .nessie → ∀ name ∈ nessieVars, (w.var name).isSome)
    (htype : c.catalogType = w.catalogType) (hurl : c.minioUrl = w.var "MINIO_URL")
    (haccess : c.minioAccessKey = w.var "MINIO_ACCESS_KEY") (hsecret : c.minioSecretKey = w.var "MINIO_SECRET_KEY")
    (huri : c.nessieUri = w.var "NESSIE_URI") : (catalogProps c).isSome := by
  rw [catalogProps, htype]
  cases hkind : w.catalogType with
  | glue => rfl
  | nessie =>
    have hset := hcatalog hkind
    obtain ⟨endpoint, hendpoint⟩ := Option.isSome_iff_exists.mp (hset "MINIO_URL" (by simp [nessieVars]))
    obtain ⟨accessKey, haccessKey⟩ := Option.isSome_iff_exists.mp (hset "MINIO_ACCESS_KEY" (by simp [nessieVars]))
    obtain ⟨secretKey, hsecretKey⟩ := Option.isSome_iff_exists.mp (hset "MINIO_SECRET_KEY" (by simp [nessieVars]))
    obtain ⟨uri, hnessieUri⟩ := Option.isSome_iff_exists.mp (hset "NESSIE_URI" (by simp [nessieVars]))
    simp [nessieProps, hurl, haccess, hsecret, huri, hendpoint, haccessKey, hsecretKey, hnessieUri]

lemma nulFree_getD (w : Surroundings) (name : String) {default : String} (hdefault : NulFree default) :
    NulFree ((w.var name).getD default) := by
  cases hset : w.var name with
  | none => exact hdefault
  | some value => exact w.nulFree name value hset

lemma nulFree_toList (w : Surroundings) (name : String) : ∀ s ∈ (w.var name).toList, NulFree s :=
  fun s hs => w.nulFree name s (Option.mem_toList.mp hs)

lemma variableTexts_nulFree {table : String} (htable : w.var "MICEWRITER_TABLE" = some table)
    (hname : c.micewriterTable = table)
    (hwarehouse : c.warehouse =
      ((w.var "WAREHOUSE").orElse (fun _ => w.var "NESSIE_WAREHOUSE")).getD "s3://iceberg")
    (hpath : c.rocksdbPath = (w.var "ROCKSDB_PATH").getD "/var/lib/rocksdb") (hurl : c.minioUrl = w.var "MINIO_URL")
    (haccess : c.minioAccessKey = w.var "MINIO_ACCESS_KEY") (hsecret : c.minioSecretKey = w.var "MINIO_SECRET_KEY")
    (huri : c.nessieUri = w.var "NESSIE_URI") (hcatalogId : c.glueCatalogId = w.var "GLUE_CATALOG_ID") :
    ∀ s ∈ variableTexts c, NulFree s := by
  simp only [variableTexts, List.mem_append, List.mem_cons, List.not_mem_nil, or_false, or_imp, forall_and,
    forall_eq, hname, hwarehouse, hpath, hurl, haccess, hsecret, huri, hcatalogId]
  refine ⟨⟨⟨⟨⟨⟨w.nulFree _ _ htable, ?_, nulFree_getD w _ (by decide)⟩, nulFree_toList w _⟩, nulFree_toList w _⟩,
    nulFree_toList w _⟩, nulFree_toList w _⟩, nulFree_toList w _⟩
  cases hset : w.var "WAREHOUSE" with
  | none => exact nulFree_getD w _ (by decide)
  | some value => exact w.nulFree _ value hset

/-- An accepted configuration is well formed and nothing is to blame; an error blames something. -/
theorem fromEnv_ends (w : Surroundings) :
    Ends (w.fromEnv fromStr)
      (fun c => WellFormed c ∧ (∀ e, ¬Blamed fromStr w e) ∧
        ∃ content schema, fromStr content = some schema ∧ MicewriterEngine.loadFieldDefs schema = c.fieldDefs)
      (Blamed fromStr w) := by
  unfold fromEnv
  refine Ends.bind (fun _ => checkNessie_error) fun _ hnessie => ?_
  refine Ends.bind (fun _ => requireTable_error) fun table htable => ?_
  have hset := requireTable_ok htable
  refine Ends.bind (fun _ => loadFieldDefs_error hset) fun fieldDefs hdefs => ?_
  refine Ends.bind (fun _ => number_error (by simp [numberVars])) fun port hport => ?_
  refine Ends.bind (fun _ => number_error (by simp [numberVars])) fun interval hinterval => ?_
  refine Ends.bind (fun _ => number_error (by simp [numberVars])) fun jitter hjitter => ?_
  refine Ends.bind (fun _ => number_error (by simp [numberVars])) fun size hsize => ?_
  refine Ends.bind (fun _ => number_error (by simp [numberVars])) fun sizeJitter hsizeJitter => ?_
  refine Ends.bind (fun _ => number_error (by simp [numberVars])) fun retained hretained => ?_
  refine Ends.bind (fun _ => number_error (by simp [numberVars])) fun buffer hbuffer => ?_
  refine Ends.bind (fun _ => number_error (by simp [numberVars])) fun flushes hflushes => ?_
  refine Ends.bind (fun _ => number_error (by simp [numberVars])) fun target htarget => ?_
  refine Ends.bind (fun _ => number_error (by simp [numberVars])) fun rowGroup hrowGroup => ?_
  refine Ends.bind (fun _ => compression_blamed) fun codec hcodec => ?_
  refine Ends.pure ⟨?_, ?_, ?_⟩
  · exact
      { nulFree := variableTexts_nulFree hset rfl rfl rfl rfl rfl rfl rfl rfl
        catalog := catalogProps_isSome (checkNessie_ok hnessie) rfl rfl rfl rfl rfl
        grpcPort := number_lt hport
        flushIntervalSecs := number_lt hinterval
        flushJitterSecs := number_lt hjitter
        flushSizeBytes := number_lt hsize
        flushSizeJitterBytes := number_lt hsizeJitter
        maxRetainedFrozenCfs := number_lt hretained
        concurrentCfFlushes := number_lt hflushes
        targetParquetBytes := number_lt htarget
        parquetRowGroupBytes := number_lt hrowGroup
        writeBufferSize := scaledWriteBufferSize_eq w }
  · rintro _ (⟨hcatalog, name, hname, hunset⟩ | hunset | ⟨htable', hread⟩ | ⟨htable', hread, hparse⟩ |
      ⟨hv, hvalue, hmalformed⟩ | ⟨hvalue, hunknown⟩)
    · have hisSome := checkNessie_ok hnessie hcatalog name hname
      rw [hunset] at hisSome
      cases hisSome
    · rw [hset] at hunset
      cases hunset
    · obtain ⟨content, schema, hread', -⟩ := loadFieldDefs_ok hdefs
      rw [hset, Option.some.injEq] at htable'
      rw [← htable', hread'] at hread
      cases hread
    · obtain ⟨content, schema, hread', hparse', -⟩ := loadFieldDefs_ok hdefs
      rw [hset, Option.some.injEq] at htable'
      rw [← htable', hread', Option.some.injEq] at hread
      rw [← hread, hparse'] at hparse
      cases hparse
    · simp only [numberVars, List.mem_cons, List.not_mem_nil, or_false] at hv
      rcases hv with rfl | rfl | rfl | rfl | rfl | rfl | rfl | rfl | rfl | rfl
      · exact not_malformed hport hvalue hmalformed
      · exact not_malformed hinterval hvalue hmalformed
      · exact not_malformed hjitter hvalue hmalformed
      · exact not_malformed hsize hvalue hmalformed
      · exact not_malformed hsizeJitter hvalue hmalformed
      · exact not_malformed hretained hvalue hmalformed
      · exact not_malformed hbuffer hvalue hmalformed
      · exact not_malformed hflushes hvalue hmalformed
      · exact not_malformed htarget hvalue hmalformed
      · exact not_malformed hrowGroup hvalue hmalformed
    · rw [hvalue, Option.getD_some] at hcodec
      exact hunknown (compression_ok hcodec)
  · obtain ⟨content, schema, -, hparse, hfields⟩ := loadFieldDefs_ok hdefs
    exact ⟨content, schema, hparse, hfields⟩

/-- `from_env` accepts the surroundings in which nothing is to blame, and its error blames something:
a required variable that is not set, a schema file that cannot be used, or a variable that is set to a
malformed value. -/
theorem rejected_config_blames (w : Surroundings) :
    (∀ e, w.fromEnv fromStr = .error e → Blamed fromStr w e) ∧
      ((∃ c, w.fromEnv fromStr = .ok c) ↔ ¬∃ e, Blamed fromStr w e) := by
  obtain ⟨hok, herror⟩ := fromEnv_ends w
  have hends : Ends (w.fromEnv fromStr) (fun _ => ∀ e, ¬Blamed fromStr w e) (Blamed fromStr w) :=
    ⟨fun c hc => (hok c hc).2.1, herror⟩
  exact ⟨herror, hends.succeeds_iff⟩

def CatalogType.text : CatalogType → String
  | .nessie => "nessie"
  | .glue => "glue"

def Compression.text : Compression → String
  | .uncompressed => "NONE"
  | .snappy => "SNAPPY"
  | .zstd => "ZSTD"

def flagText (b : Bool) : String := if b then "true" else "false"

/-- The variables that ask for the configuration. -/
def varFor (c : Config) : String → Option String
  | "CATALOG_TYPE" => some (CatalogType.text c.catalogType)
  | "MINIO_URL" => c.minioUrl
  | "MINIO_ACCESS_KEY" => c.minioAccessKey
  | "MINIO_SECRET_KEY" => c.minioSecretKey
  | "NESSIE_URI" => c.nessieUri
  | "MICEWRITER_TABLE" => some c.micewriterTable
  | "GRPC_PORT" => some c.grpcPort.repr
  | "WAREHOUSE" => some c.warehouse
  | "GLUE_CATALOG_ID" => c.glueCatalogId
  | "FLUSH_INTERVAL_SECS" => some c.flushIntervalSecs.repr
  | "FLUSH_JITTER_SECS" => some c.flushJitterSecs.repr
  | "FLUSH_SIZE_BYTES" => some c.flushSizeBytes.repr
  | "FLUSH_SIZE_JITTER_BYTES" => some c.flushSizeJitterBytes.repr
  | "ENABLE_MANUAL_FLUSH" => some (flagText c.enableManualFlush)
  | "ROCKSDB_PATH" => some c.rocksdbPath
  | "ROCKSDB_SYNC_WRITES" => some (flagText c.rocksdbSyncWrites)
  | "MAX_RETAINED_FROZEN_CFS" => some c.maxRetainedFrozenCfs.repr
  | "CONCURRENT_CF_FLUSHES" => some c.concurrentCfFlushes.repr
  | "TARGET_PARQUET_BYTES" => some c.targetParquetBytes.repr
  | "PARQUET_ROW_GROUP_BYTES" => some c.parquetRowGroupBytes.repr
  | "PARQUET_COMPRESSION" => some (Compression.text c.parquetCompression)
  | _ => none

lemma repr_nulFree (n : ℕ) : NulFree n.repr := by
  intro hmem
  rw [Nat.toList_repr] at hmem
  exact absurd (Nat.isDigit_of_mem_toDigits (by norm_num) le_rfl hmem) (by decide)

lemma varFor_nulFree (hc : ∀ s ∈ variableTexts c, NulFree s) (name value : String) (h : varFor c name = some value) :
    NulFree value := by
  have htext : value ∈ variableTexts c → NulFree value := hc value
  unfold varFor at h
  split at h
  case h_1 =>
    cases h
    cases c.catalogType <;> decide
  case h_14 | h_16 =>
    cases h
    unfold flagText
    split <;> decide
  case h_21 =>
    cases h
    cases c.parquetCompression <;> decide
  case h_22 => cases h
  case h_7 | h_10 | h_11 | h_12 | h_13 | h_17 | h_18 | h_19 | h_20 =>
    cases h
    exact repr_nulFree _
  all_goals
    refine htext ?_
    simp_all [variableTexts]

/-- Surroundings for a configuration whose fields are in a schema file, on a machine with so many CPUs. -/
def surroundingsFor (c : Config) (hc : ∀ s ∈ variableTexts c, NulFree s) (content : String) (threads : ℕ) :
    Surroundings where
  var := varFor c
  nulFree := varFor_nulFree hc
  readToString _ := some content
  availableParallelism := some threads

lemma number_of_repr {n : ℕ} (hset : w.var v.name = some n.repr) (hbits : v.bits ≤ 64) (hn : n < 2 ^ v.bits) :
    w.number v = .ok n := by
  have hwide : n < 2 ^ 64 := hn.trans_le (Nat.pow_le_pow_right (by decide) hbits)
  have hparsed : parseUnsigned v.bits n.repr = some n := by
    rw [parseUnsigned, Nat.toList_repr, parseU64_toDigits hwide]
    simp [hn]
  rw [number, hset, Option.getD_some, hparsed]

lemma number_of_default {n : ℕ} (hunset : w.var v.name = none) (hdefault : parseUnsigned v.bits v.default = some n) :
    w.number v = .ok n := by
  rw [number, hunset, Option.getD_none, hdefault]

lemma flag_flagText {name : String} {b : Bool} (hset : w.var name = some (flagText b)) : w.flag name = b := by
  rw [flag, hset]
  cases b <;> decide

lemma catalogType_text {kind : CatalogType} (hset : w.var "CATALOG_TYPE" = some (CatalogType.text kind)) :
    w.catalogType = kind := by
  rw [Surroundings.catalogType, hset]
  cases kind <;> decide

lemma parseParquetCompression_text (codec : Compression) :
    parseParquetCompression (Compression.text codec) = .ok codec := by
  cases codec <;> rfl

section Accepted

variable {hnul : ∀ s ∈ variableTexts c, NulFree s} {content : String} {threads : ℕ}

lemma checkNessie_surroundingsFor (hcatalog : (catalogProps c).isSome) :
    (surroundingsFor c hnul content threads).checkNessie = .ok () := by
  refine if_neg ?_
  rintro ⟨hnessie, hmissing⟩
  have hkind : (surroundingsFor c hnul content threads).catalogType = c.catalogType := catalogType_text rfl
  rw [hkind] at hnessie
  obtain ⟨props, hprops⟩ := Option.isSome_iff_exists.mp hcatalog
  simp only [catalogProps, hnessie, nessieProps, Option.bind_eq_bind, Option.bind_eq_some_iff] at hprops
  obtain ⟨endpoint, hendpoint, accessKey, haccessKey, secretKey, hsecretKey, uri, huri, -⟩ := hprops
  simp [surroundingsFor, varFor, hendpoint, haccessKey, hsecretKey, huri] at hmissing

theorem fromEnv_surroundingsFor {schema : Json} (hc : WellFormed c) (hparse : fromStr content = some schema)
    (hfields : MicewriterEngine.loadFieldDefs schema = c.fieldDefs) (hlow : 1 ≤ threads) (hhigh : threads ≤ 16)
    (hbuffer : c.writeBufferSize = 4 * 1024 * 1024 * threads) :
    (surroundingsFor c hnul content threads).fromEnv fromStr = .ok c := by
  generalize hw : surroundingsFor c hnul content threads = w
  have hvar : w.var = varFor c := by rw [← hw]; rfl
  have hread (path : String) : w.readToString path = some content := by rw [← hw]; rfl
  have hnessie : w.checkNessie = .ok () := by rw [← hw]; exact checkNessie_surroundingsFor hc.catalog
  have htable : w.requireTable = .ok c.micewriterTable := by
    rw [requireTable, hvar]
    rfl
  have hdefs (dir : String) : w.loadFieldDefs fromStr c.micewriterTable dir = .ok c.fieldDefs := by
    rw [Surroundings.loadFieldDefs]
    simp only [hread, hparse, hfields]
  have hport := @number_of_repr w grpcPort _ (by rw [hvar]; rfl) (by decide) hc.grpcPort
  have hinterval := @number_of_repr w flushIntervalSecs _ (by rw [hvar]; rfl) le_rfl hc.flushIntervalSecs
  have hjitter := @number_of_repr w flushJitterSecs _ (by rw [hvar]; rfl) le_rfl hc.flushJitterSecs
  have hsize := @number_of_repr w flushSizeBytes _ (by rw [hvar]; rfl) le_rfl hc.flushSizeBytes
  have hsizeJitter := @number_of_repr w flushSizeJitterBytes _ (by rw [hvar]; rfl) le_rfl hc.flushSizeJitterBytes
  have hretained := @number_of_repr w maxRetainedFrozenCfs _ (by rw [hvar]; rfl) le_rfl hc.maxRetainedFrozenCfs
  have hdefault := @number_of_default w writeBufferSize 67108864 (by rw [hvar]; rfl) (by decide)
  have hflushes := @number_of_repr w concurrentCfFlushes _ (by rw [hvar]; rfl) le_rfl hc.concurrentCfFlushes
  have htarget := @number_of_repr w targetParquetBytes _ (by rw [hvar]; rfl) le_rfl hc.targetParquetBytes
  have hrowGroup := @number_of_repr w parquetRowGroupBytes _ (by rw [hvar]; rfl) le_rfl hc.parquetRowGroupBytes
  have hcodec : parseParquetCompression ((varFor c "PARQUET_COMPRESSION").getD "SNAPPY") = .ok c.parquetCompression :=
    parseParquetCompression_text c.parquetCompression
  have hkind : w.catalogType = c.catalogType := catalogType_text (by rw [hvar]; rfl)
  have hmanual : w.flag "ENABLE_MANUAL_FLUSH" = c.enableManualFlush := flag_flagText (by rw [hvar]; rfl)
  have hsync : w.flag "ROCKSDB_SYNC_WRITES" = c.rocksdbSyncWrites := flag_flagText (by rw [hvar]; rfl)
  have hscaled : w.scaledWriteBufferSize = c.writeBufferSize := by
    rw [← hw, hbuffer, scaledWriteBufferSize, surroundingsFor, Option.getD_some]
    omega
  simp only [fromEnv, hnessie, htable, hdefs, hport, hinterval, hjitter, hsize, hsizeJitter, hretained, hdefault,
    hflushes, htarget, hrowGroup, hcodec, hkind, hmanual, hsync, hscaled, hvar, bind, Except.bind, pure, Except.pure]
  rfl

end Accepted

/-- Whatever texts the JSON parser accepts, the configurations that `from_env` can give are the well-formed ones
whose field definitions are in some text. -/
theorem accepted_config_iff (fromStr : String → Option Json) :
    (∃ w : Surroundings, w.fromEnv fromStr = .ok c) ↔
      WellFormed c ∧ ∃ content schema, fromStr content = some schema ∧
        MicewriterEngine.loadFieldDefs schema = c.fieldDefs := by
  constructor
  · rintro ⟨w, hw⟩
    obtain ⟨hc, -, hfields⟩ := (fromEnv_ends w).1 c hw
    exact ⟨hc, hfields⟩
  · rintro ⟨hc, content, schema, hparse, hfields⟩
    obtain ⟨threads, hlow, hhigh, hbuffer⟩ := hc.writeBufferSize
    exact ⟨surroundingsFor c hc.nulFree content threads, fromEnv_surroundingsFor hc hparse hfields hlow hhigh hbuffer⟩

end MicewriterEngine.Proofs
