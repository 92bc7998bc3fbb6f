import MicewriterEngine.Model.TableCreation

/-!
# The existence caches of one process

Calls of `get_or_create_table` for any tables, which share one `IcebergState`. Any call of
the catalog may fail, with or without its effect, and others may add to the catalog.
-/

namespace MicewriterEngine

/-- The calls that are made: for which table, and with which field definitions. -/
structure TableCalls (ι σ : Type) where
  ident : ι → TableIdent
  fieldDefs : ι → List FieldDef
  schemaBuilder : List NestedField → Option σ

/-- The catalog, the caches and the calls. Next to them stands what the steps so far have confirmed
or created, which no call reads. -/
structure CachedCatalog (ι σ : Type) where
  catalog : Catalog σ
  state : IcebergState
  calls : ι → CreateCall σ
  confirmedNamespaces : List (List String)
  confirmedTables : List TableIdent

inductive CacheEvent (ι σ : Type)
  | advance (i : ι)
  /-- The catalog answers the call with an error, and may have carried it out. -/
  | fail (i : ι) (applied : Bool)
  | others (catalog : Catalog σ)

variable {ι σ : Type} [DecidableEq ι]

namespace CreateCall

/-- The step of the call has shown that its namespace exists. -/
def confirmsNamespace : CreateCall σ → CreateCall σ → Bool
  | .askNamespace, .rememberNamespace => true
  | .createNamespace, .rememberNamespace => true
  | _, _ => false

/-- The step of the call has shown that its table exists. -/
def confirmsTable : CreateCall σ → CreateCall σ → Bool
  | .askTable, .loadExisting => true
  | .createTable, .rememberTable _ => true
  | _, _ => false

/-- The next step is a call of the catalog. -/
def callsCatalog : CreateCall σ → Bool
  | .askNamespace | .createNamespace | .loadKnown | .askTable | .loadExisting | .createTable => true
  | .entered | .rememberNamespace | .lookupTable | .rememberTable _ | .returned _ => false

end CreateCall

namespace CachedCatalog

/-- The caches are empty, and the catalog has any contents. -/
def start (namespaces : List (List String)) (tables : AList (fun _ : TableIdent => σ)) : CachedCatalog ι σ :=
  ⟨⟨namespaces, tables, [], []⟩, ⟨[], []⟩, fun _ => .entered, [], []⟩

def advance (d : TableCalls ι σ) (w : CachedCatalog ι σ) (i : ι) : CachedCatalog ι σ :=
  let (call, catalog, state) :=
    (w.calls i).advance d.schemaBuilder (d.ident i) (d.fieldDefs i) w.catalog w.state
  { catalog := catalog
    state := state
    calls := Function.update w.calls i call
    confirmedNamespaces :=
      if (w.calls i).confirmsNamespace call then (d.ident i).nsIdent :: w.confirmedNamespaces
      else w.confirmedNamespaces
    confirmedTables :=
      if (w.calls i).confirmsTable call then d.ident i :: w.confirmedTables else w.confirmedTables }

def fail (d : TableCalls ι σ) (w : CachedCatalog ι σ) (i : ι) (applied : Bool) : CachedCatalog ι σ :=
  { w with
    catalog := if applied then (w.advance d i).catalog else w.catalog
    calls := Function.update w.calls i (.returned (.error .external)) }

end CachedCatalog

/-- The steps of the calls, the failures and the growth of the catalog in any order. -/
inductive CacheStep (d : TableCalls ι σ) : CachedCatalog ι σ → CacheEvent ι σ → CachedCatalog ι σ → Prop
  | advance {w : CachedCatalog ι σ} (i : ι) : CacheStep d w (.advance i) (w.advance d i)
  | fail {w : CachedCatalog ι σ} (i : ι) (applied : Bool) (hcall : (w.calls i).callsCatalog) :
      CacheStep d w (.fail i applied) (w.fail d i applied)
  | others {w : CachedCatalog ι σ} {catalog : Catalog σ}
      (hnamespaces : ∀ nsIdent ∈ w.catalog.namespaces, nsIdent ∈ catalog.namespaces)
      (htables : ∀ ident ∈ w.catalog.tables, ident ∈ catalog.tables) :
      CacheStep d w (.others catalog) { w with catalog := catalog }

end MicewriterEngine
