import Mathlib.Data.List.AList
import Mathlib.Logic.Function.Basic
import MicewriterEngine.Lib.Runs
import MicewriterEngine.Model.IcebergSchema
import MicewriterEngine.Model.RocksDb

/-!
# Creating the table

Calls of `get_or_create_table` for one table, made by any number of engines against a
shared catalog. The calls of the catalog are atomic and their steps interleave. The type
`σ` is that of the schemas that the builder of the client library makes.
-/

namespace MicewriterEngine

structure TableIdent where
  nsIdent : List String
  name : String
  deriving DecidableEq

structure Table (σ : Type) where
  identifier : TableIdent
  schema : σ

/-- The namespaces and tables that exist, and those that were created here. -/
structure Catalog (σ : Type) where
  namespaces : List (List String)
  tables : AList (fun _ : TableIdent => σ)
  createdNamespaces : List (List String)
  createdTables : List TableIdent

namespace Catalog

variable {σ : Type}

def namespaceExists (c : Catalog σ) (nsIdent : List String) : Bool := decide (nsIdent ∈ c.namespaces)

def createNamespace (c : Catalog σ) (nsIdent : List String) : Except Error Unit × Catalog σ :=
  if nsIdent ∈ c.namespaces then (.error .external, c)
  else (.ok (), { c with
    namespaces := nsIdent :: c.namespaces
    createdNamespaces := nsIdent :: c.createdNamespaces })

def tableExists (c : Catalog σ) (ident : TableIdent) : Bool := decide (ident ∈ c.tables)

def loadTable (c : Catalog σ) (ident : TableIdent) : Except Error (Table σ) :=
  match c.tables.lookup ident with
  | some schema => .ok ⟨ident, schema⟩
  | none => .error .external

def createTable (c : Catalog σ) (ident : TableIdent) (schema : σ) : Except Error (Table σ) × Catalog σ :=
  if ident.nsIdent ∉ c.namespaces ∨ ident ∈ c.tables then (.error .external, c)
  else (.ok ⟨ident, schema⟩, { c with
    tables := c.tables.insert ident schema
    createdTables := ident :: c.createdTables })

end Catalog

/-- The caches of one process. -/
structure IcebergState where
  knownNamespaces : List String
  knownTables : List String

/-- A call of `get_or_create_table` before each of its steps. -/
inductive CreateCall (σ : Type)
  | entered
  | askNamespace
  | createNamespace
  | rememberNamespace
  | lookupTable
  | loadKnown
  | askTable
  | loadExisting
  | createTable
  | rememberTable (t : Table σ)
  | returned (result : Except Error (Table σ))

def namespaceKey (nsIdent : List String) : String := "/".intercalate nsIdent

def tableKey (ident : TableIdent) : String := s!"{namespaceKey ident.nsIdent}/{ident.name}"

variable {σ : Type}

/-- `build_iceberg_schema`, with the builder of the client library. -/
def buildIcebergSchema (schemaBuilder : List NestedField → Option σ) (fieldDefs : List FieldDef) :
    Except Error σ :=
  match schemaBuilder (nestedFields fieldDefs) with
  | some schema => .ok schema
  | none => .error (.anyhow "Failed to build Iceberg schema")

/-- One step of a call: an access to the caches, a call of the catalog, or both after local work. -/
def CreateCall.advance (schemaBuilder : List NestedField → Option σ) (ident : TableIdent)
    (fieldDefs : List FieldDef) (c : Catalog σ) (state : IcebergState) :
    CreateCall σ → CreateCall σ × Catalog σ × IcebergState
  | .entered =>
    -- `NamespaceIdent::from_vec` refuses an empty namespace
    if ident.nsIdent.isEmpty then (.returned (.error .external), c, state)
    else if namespaceKey ident.nsIdent ∈ state.knownNamespaces then (.lookupTable, c, state)
    else (.askNamespace, c, state)
  | .askNamespace =>
    if c.namespaceExists ident.nsIdent then (.rememberNamespace, c, state) else (.createNamespace, c, state)
  | .createNamespace =>
    match c.createNamespace ident.nsIdent with
    | (.ok (), c) => (.rememberNamespace, c, state)
    | (.error e, c) => (.returned (.error e), c, state)
  | .rememberNamespace =>
    (.lookupTable, c,
      { state with knownNamespaces := namespaceKey ident.nsIdent :: state.knownNamespaces })
  | .lookupTable =>
    if tableKey ident ∈ state.knownTables then (.loadKnown, c, state) else (.askTable, c, state)
  | .loadKnown => (.returned (c.loadTable ident), c, state)
  | .askTable => if c.tableExists ident then (.loadExisting, c, state) else (.createTable, c, state)
  | .loadExisting =>
    match c.loadTable ident with
    | .ok t => (.rememberTable t, c, state)
    | .error e => (.returned (.error e), c, state)
  | .createTable =>
    match buildIcebergSchema schemaBuilder fieldDefs with
    | .error e => (.returned (.error e), c, state)
    | .ok schema =>
      match c.createTable ident schema with
      | (.ok t, c) => (.rememberTable t, c, state)
      | (.error e, c) => (.returned (.error e), c, state)
  | .rememberTable t => (.returned (.ok t), c, { state with knownTables := tableKey ident :: state.knownTables })
  | .returned result => (.returned result, c, state)

/-! ### Many engines -/

/-- Which calls are made: the engine of each call and its field definitions. -/
structure Deployment (ι ε σ : Type) where
  engineOf : ι → ε
  fieldDefs : ι → List FieldDef
  ident : TableIdent
  schemaBuilder : List NestedField → Option σ

structure Engines (ι ε σ : Type) where
  catalog : Catalog σ
  states : ε → IcebergState
  calls : ι → CreateCall σ

variable {ι ε : Type} [DecidableEq ι] [DecidableEq ε]

/-- All caches are cold, and the catalog has any contents. -/
def Engines.start (namespaces : List (List String)) (tables : AList (fun _ : TableIdent => σ)) :
    Engines ι ε σ :=
  ⟨⟨namespaces, tables, [], []⟩, fun _ => ⟨[], []⟩, fun _ => .entered⟩

def Engines.advance (d : Deployment ι ε σ) (w : Engines ι ε σ) (i : ι) : Engines ι ε σ :=
  let (call, catalog, state) :=
    (w.calls i).advance d.schemaBuilder d.ident (d.fieldDefs i) w.catalog (w.states (d.engineOf i))
  ⟨catalog, Function.update w.states (d.engineOf i) state, Function.update w.calls i call⟩

/-- The steps of the calls in any order. -/
def CallStep (d : Deployment ι ε σ) (w : Engines ι ε σ) (i : ι) (w' : Engines ι ε σ) : Prop :=
  w' = w.advance d i

end MicewriterEngine
