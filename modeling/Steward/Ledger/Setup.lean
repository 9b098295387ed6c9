import Steward.Ledger.Store

/-!
This module contains the filling of a ledger with schemas and tables, without any job.
-/

namespace Steward.Ledger

open Catalog (Table)
open Change (Trouble)

namespace Txn

/--
Puts tables with new ids into a schema. They become public unless they keep their stages.
-/
def addTables (t : Txn) (schemaId : Int) (keepStages : Bool) :
    List Table → Except Trouble (List Int × Txn)
  | [] => .ok ([], t)
  | table :: tables => do
    let (id, t) := t.newId
    let stage := if keepStages then table.stage else .live
    let t ← t.createTable schemaId { table with id, stage }
    let (ids, t) ← t.addTables schemaId keepStages tables
    return (id :: ids, t)

end Txn

namespace Store

/--
Creates a schema, and its tables in a transaction and a schema version of their own.
-/
def addSchema (s : Store) (name : String) (tables : List Table) (keepStages : Bool) :
    Except Trouble Store := do
  let (id, s) ← s.createSchema name
  let (_, t) ← s.begin.addTables id keepStages tables
  let (_, t) := t.newVersion
  s.commit t

end Store

end Steward.Ledger
