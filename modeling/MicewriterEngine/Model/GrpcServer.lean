import Mathlib.Data.Multiset.AddSub
import MicewriterEngine.Lib.Runs
import MicewriterEngine.Model.Config

/-!
# The gRPC service

Schema registration and ingestion, and the store between the ingest handler and the flush
cycles. A cycle takes the waiting column families and freezes the active one, and its tasks
and the committer retain each of them when its flush fails, or drop it. The steps of any
number of cycles and messages interleave.
-/

namespace MicewriterEngine

def declaredName (field : Json) : String := ((field.get "name").bind Json.asStr).getD ""

def declaredType (field : Json) : String := ((field.get "type").bind Json.asStr).getD ""

/-- One turn of the loop in `validate_register_schema`. -/
def validateField (engineTable : String) (fieldDefs : List FieldDef) (field : Json) : Except String Unit :=
  let name := declaredName field
  let typeStr := declaredType field
  match fieldDefs.find? (fun f => f.name == name) with
  | none =>
    .error (s!"Unknown field '{name}' in table '{engineTable}': not present in AOT schema. " ++
      "The engine must be deployed and stabilized before the application.")
  | some aot =>
    if MappedType.fromStr typeStr ≠ MappedType.fromStr aot.fieldType then
      .error s!"Field '{name}' type mismatch: SDK sent '{typeStr}', AOT schema has '{aot.fieldType}'"
    else .ok ()

/-- The loop stops at the first field that is rejected. -/
def validateFields (engineTable : String) (fieldDefs : List FieldDef) : List Json → Except String Unit
  | [] => .ok ()
  | field :: fields =>
    match validateField engineTable fieldDefs field with
    | .error e => .error e
    | .ok () => validateFields engineTable fieldDefs fields

lemma validateFields_ok_iff {engineTable : String} {fieldDefs : List FieldDef} {fields : List Json} :
    validateFields engineTable fieldDefs fields = .ok () ↔
      ∀ field ∈ fields, validateField engineTable fieldDefs field = .ok () := by
  induction fields with
  | nil => simp [validateFields]
  | cons field fields ih =>
    rw [List.forall_mem_cons, ← ih, validateFields]
    cases hfield : validateField engineTable fieldDefs field with
    | error e => simp
    | ok u => simp

/-- Validate a registration, given as the result of parsing its JSON text. -/
def validateRegisterSchema (schemaJson : Except String Json) (engineTable : String)
    (fieldDefs : List FieldDef) : Except String ℕ :=
  match schemaJson with
  | .error e => .error s!"Invalid schema JSON: {e}"
  | .ok incoming =>
    match (incoming.get "table").bind Json.asStr with
    | some table =>
      if table ≠ engineTable then
        .error s!"Table mismatch: engine is pinned to '{engineTable}', schema is for '{table}'"
      else validateDeclared incoming
    | none => validateDeclared incoming
where
  /-- The part after the table check. -/
  validateDeclared (incoming : Json) : Except String ℕ :=
    match incoming.fields with
    | none => .error "Schema JSON missing 'fields' array"
    | some fields =>
      match validateFields engineTable fieldDefs fields with
      | .error e => .error e
      | .ok () => .ok fields.length

def isContinuation (b : UInt8) : Bool := 0x80 ≤ b && b ≤ 0xBF

/-- The second bytes that may follow the first byte of a sequence of three or four bytes. -/
def isSecond (first b : UInt8) : Bool :=
  if first = 0xE0 then 0xA0 ≤ b && b ≤ 0xBF
  else if first = 0xED then 0x80 ≤ b && b ≤ 0x9F
  else if first = 0xF0 then 0x90 ≤ b && b ≤ 0xBF
  else if first = 0xF4 then 0x80 ≤ b && b ≤ 0x8F
  else isContinuation b

def utf8Char (first : ℕ) (continuation : List UInt8) : Char :=
  Char.ofNat (continuation.foldl (fun n b => n * 64 + (b.toNat - 0x80)) first)

/-- The first character of a byte sequence, and how many bytes it takes after the first one.
The maximal part of a malformed sequence becomes U+FFFD. -/
def firstLossy (b₀ : UInt8) (bytes : Bytes) : Char × ℕ :=
  if b₀ < 0x80 then (Char.ofNat b₀.toNat, 0)
  else if 0xC2 ≤ b₀ && b₀ ≤ 0xDF then
    match bytes with
    | [] => ('\uFFFD', 0)
    | b₁ :: _ => if isContinuation b₁ then (utf8Char (b₀.toNat - 0xC0) [b₁], 1) else ('\uFFFD', 0)
  else if 0xE0 ≤ b₀ && b₀ ≤ 0xEF then
    match bytes with
    | [] => ('\uFFFD', 0)
    | [b₁] => ('\uFFFD', if isSecond b₀ b₁ then 1 else 0)
    | b₁ :: b₂ :: _ =>
      if !isSecond b₀ b₁ then ('\uFFFD', 0)
      else if !isContinuation b₂ then ('\uFFFD', 1)
      else (utf8Char (b₀.toNat - 0xE0) [b₁, b₂], 2)
  else if 0xF0 ≤ b₀ && b₀ ≤ 0xF4 then
    match bytes with
    | [] => ('\uFFFD', 0)
    | [b₁] => ('\uFFFD', if isSecond b₀ b₁ then 1 else 0)
    | [b₁, b₂] => ('\uFFFD', if !isSecond b₀ b₁ then 0 else if !isContinuation b₂ then 1 else 2)
    | b₁ :: b₂ :: b₃ :: _ =>
      if !isSecond b₀ b₁ then ('\uFFFD', 0)
      else if !isContinuation b₂ then ('\uFFFD', 1)
      else if !isContinuation b₃ then ('\uFFFD', 2)
      else (utf8Char (b₀.toNat - 0xF0) [b₁, b₂, b₃], 3)
  else ('\uFFFD', 0)

/-- `String::from_utf8_lossy`, where the first `skip` bytes belong to the character before. -/
def fromUtf8LossyAfter : ℕ → Bytes → List Char
  | _, [] => []
  | 0, b :: bytes => (firstLossy b bytes).1 :: fromUtf8LossyAfter (firstLossy b bytes).2 bytes
  | skip + 1, _ :: bytes => fromUtf8LossyAfter skip bytes

def fromUtf8Lossy (bytes : Bytes) : String := String.ofList (fromUtf8LossyAfter 0 bytes)

structure Ack where
  ok : Bool
  message : String

/-- The frame and table checks of `ingest`: the bytes after the table name, or the refusal. -/
def checkFrame (expectedTable : String) (payload : Bytes) : Except String Bytes :=
  if payload.length < 2 then .error "Payload too small"
  else
    let tableNameLen := Lib.ofBeBytes (payload.take 2)
    if payload.length < 2 + tableNameLen then .error "Invalid payload formatting"
    else
      let tableName := fromUtf8Lossy ((payload.drop 2).take tableNameLen)
      if tableName ≠ expectedTable then
        .error s!"Cross-table write rejected. Engine is pinned to {expectedTable}"
      else .ok (payload.drop (2 + tableNameLen))

/-- A slice of bytes between two indices, none where taking it would panic. -/
def byteRange (bytes : Bytes) (start stop : ℕ) : Option Bytes :=
  if start ≤ stop ∧ stop ≤ bytes.length then some ((bytes.drop start).take (stop - start)) else none

/-- `checkFrame` with every index and slice as it is taken, none where one is out of bounds. -/
def checkFrameIndexed (expectedTable : String) (payload : Bytes) : Option (Except String Bytes) :=
  if payload.length < 2 then some (.error "Payload too small")
  else do
    let first ← payload[0]?
    let second ← payload[1]?
    let tableNameLen := Lib.ofBeBytes [first, second]
    if payload.length < 2 + tableNameLen then return .error "Invalid payload formatting"
    let tableName ← byteRange payload 2 (2 + tableNameLen)
    if fromUtf8Lossy tableName ≠ expectedTable then
      return .error s!"Cross-table write rejected. Engine is pinned to {expectedTable}"
    let cborBytes ← byteRange payload (2 + tableNameLen) payload.length
    return .ok cborBytes

/-- One turn of the loop in `ingest`: the answer, whether a flush is triggered, and the store. -/
def ingestMessage (s : RocksStore) (expectedTable : String) (payload : Bytes) (writeOk : Bool) :
    Ack × Bool × RocksStore :=
  match checkFrame expectedTable payload with
  | .error message => (⟨false, message⟩, false, s)
  | .ok cborBytes =>
    match s.appendBatch [cborBytes] writeOk with
    | (.ok sizeExceeded, s) => (⟨true, "OK"⟩, sizeExceeded, s)
    | (.error _, s) => (⟨false, "Internal storage error"⟩, false, s)

lemma ingestMessage_of_ok {table : String} {payload suffix : Bytes} (h : checkFrame table payload = .ok suffix)
    (s : RocksStore) (writeOk : Bool) :
    (ingestMessage s table payload writeOk).2.2 = (s.appendBatch [suffix] writeOk).2 := by
  unfold ingestMessage
  rw [h]
  dsimp only
  split
  · rename_i heq
    rw [heq]
  · rename_i heq
    rw [heq]

lemma ingestMessage_of_error {table : String} {payload : Bytes} {message : String}
    (h : checkFrame table payload = .error message) (s : RocksStore) (writeOk : Bool) :
    ingestMessage s table payload writeOk = (⟨false, message⟩, false, s) := by
  unfold ingestMessage
  rw [h]

/-! ### Ingestion between flush cycles -/

structure Engine where
  store : RocksStore
  /-- Column families in the hands of a flush cycle, of a flush task or of the committer. -/
  held : Multiset String

inductive EngineEvent
  | ingest (payload : Bytes) (writeOk : Bool)
  | getOrphanedCfs
  | rotate (ts : ℕ) (createOk : Bool) (draw : ℕ)
  | retainFrozenCf (cf : String)
  | dropFrozenCf (cf : String) (dropOk : Bool)

inductive EngineStep (config : Config) : Engine → EngineEvent → Engine → Prop
  | ingest (p : Engine) (payload : Bytes) (writeOk : Bool) :
      EngineStep config p (.ingest payload writeOk)
        { p with store := (ingestMessage p.store config.micewriterTable payload writeOk).2.2 }
  | getOrphanedCfs (p : Engine) :
      EngineStep config p .getOrphanedCfs ⟨p.store.getOrphanedCfs.2, p.held + p.store.getOrphanedCfs.1⟩
  | rotated {p : Engine} {ts : ℕ} {createOk : Bool} {draw : ℕ} {frozen : String} {s : RocksStore}
      (hrotate : p.store.rotate ts createOk draw = (.ok frozen, s)) :
      EngineStep config p (.rotate ts createOk draw) ⟨s, frozen ::ₘ p.held⟩
  | rotateFailed {p : Engine} {ts : ℕ} {createOk : Bool} {draw : ℕ} {e : Error} {s : RocksStore}
      (hrotate : p.store.rotate ts createOk draw = (.error e, s)) :
      EngineStep config p (.rotate ts createOk draw) { p with store := s }
  | retainFrozenCf {p : Engine} {cf : String} {rest : Multiset String} (hheld : p.held = cf ::ₘ rest) :
      EngineStep config p (.retainFrozenCf cf) ⟨p.store.retainFrozenCf cf, rest⟩
  | dropFrozenCf {p : Engine} {cf : String} {rest : Multiset String} (dropOk : Bool)
      (hheld : p.held = cf ::ₘ rest) :
      EngineStep config p (.dropFrozenCf cf dropOk) ⟨(p.store.dropFrozenCf cf dropOk).2, rest⟩

end MicewriterEngine
