import Steward.Catalog.Stage

/-!
This module contains the faults of schema changes: their wording, and what a fault means for the
change that ran into it.
-/

namespace Steward.Catalog

inductive Fault where
  | foreignKeyDuplicateName (name : String)
  | cannotAddForeign
  | foreignKeyCannotOpenParent (table : String)
  | operationOnTemporaryTable (operation : String)
  | ttlReferencedByForeignKey
  | foreignKeyOnPartitioned
  | keyColumnDoesNotExist (column : String)
  | foreignKeyCannotUseVirtualColumn (fk column : String)
  | foreignKeyColumnNotMatch (column refColumn fk : String)
  | foreignKeyNoIndexInParent (fk table : String)
  | foreignKeyNoIndexInChild (fk table : String)
  | noReferencedRow (detail : String)
  | truncateIllegalForeignKey (detail : String)
  | foreignKeyColumnCannotDrop (column fk : String)
  | foreignKeyColumnCannotDropChild (column fk table : String)
  | dropIndexNeededInForeignKey (index : String)
  | cantDropFieldOrKey (name : String)
  | tableExists (table : String)
  | noSuchTable (schema table : String)
  | databaseNotExists (schema : String)
  | databaseExists (schema : String)
  | invalidState (object : String) (stage : Stage)
  | invalidJobArgs (job : String)
  | writeConflict (base current : Nat)
  | ownerLost
  | internal (text : String)
deriving DecidableEq, Repr

namespace Fault

def message : Fault → String
  | foreignKeyDuplicateName name => s!"Duplicate foreign key constraint name '{name}'"
  | cannotAddForeign => "Cannot add foreign key constraint"
  | foreignKeyCannotOpenParent table => s!"Failed to open the referenced table '{table}'"
  | operationOnTemporaryTable operation =>
    "\x60" ++ operation ++ "\x60 is unsupported on temporary tables."
  | ttlReferencedByForeignKey =>
    "Set TTL for a table referenced by foreign key is not allowed"
  | foreignKeyOnPartitioned =>
    "Foreign keys are not yet supported in conjunction with partitioning"
  | keyColumnDoesNotExist column => s!"Key column '{column}' doesn't exist in table"
  | foreignKeyCannotUseVirtualColumn fk column =>
    s!"Foreign key '{fk}' uses virtual column '{column}' which is not supported."
  | foreignKeyColumnNotMatch column refColumn fk =>
    s!"Referencing column '{column}' and referenced column '{refColumn}' in foreign key " ++
      s!"constraint '{fk}' are incompatible."
  | foreignKeyNoIndexInParent fk table =>
    s!"Failed to add the foreign key constraint. Missing index for constraint '{fk}' in the " ++
      s!"referenced table '{table}'"
  | foreignKeyNoIndexInChild fk table =>
    s!"Failed to add the foreign key constraint. Missing index for constraint '{fk}' in the " ++
      s!"referencing table '{table}'"
  | noReferencedRow detail =>
    s!"Cannot add or update a child row: a foreign key constraint fails ({detail})"
  | truncateIllegalForeignKey detail =>
    s!"Cannot truncate a table referenced in a foreign key constraint ({detail})"
  | foreignKeyColumnCannotDrop column fk =>
    s!"Cannot drop column '{column}': needed in a foreign key constraint '{fk}'"
  | foreignKeyColumnCannotDropChild column fk table =>
    s!"Cannot drop column '{column}': needed in a foreign key constraint '{fk}' of table " ++
      s!"'{table}'"
  | dropIndexNeededInForeignKey index =>
    s!"Cannot drop index '{index}': needed in a foreign key constraint"
  | cantDropFieldOrKey name => s!"Can't DROP '{name}'; check that column/key exists"
  | tableExists table => s!"Table '{table}' already exists"
  | noSuchTable schema table => s!"Table '{schema}.{table}' doesn't exist"
  | databaseNotExists schema => s!"Unknown database '{schema}'"
  | databaseExists schema => s!"Can't create database '{schema}'; database exists"
  | invalidState object stage => s!"invalid {object} state: {stage.display}"
  | invalidJobArgs job => s!"invalid job arguments for {job}"
  | writeConflict base current =>
    s!"write conflict on metadata commit (base revision {base}, current {current})"
  | ownerLost => "ddl owner changed, step abandoned"
  | internal text => text

/--
The faults that a check of definitions finds, before anything has changed.
-/
def isCancellable : Fault → Bool
  | noReferencedRow _ | invalidState _ _ | writeConflict _ _ | ownerLost | internal _ => false
  | _ => true

/--
The faults that leave the job as it was, so that its step is tried again.
-/
def isTransient : Fault → Bool
  | writeConflict _ _ | ownerLost => true
  | _ => false

def kind : Fault → String
  | foreignKeyDuplicateName _ => "ForeignKeyDuplicateName"
  | cannotAddForeign => "CannotAddForeign"
  | foreignKeyCannotOpenParent _ => "ForeignKeyCannotOpenParent"
  | operationOnTemporaryTable _ => "OperationOnTemporaryTable"
  | ttlReferencedByForeignKey => "TtlReferencedByForeignKey"
  | foreignKeyOnPartitioned => "ForeignKeyOnPartitioned"
  | keyColumnDoesNotExist _ => "KeyColumnDoesNotExist"
  | foreignKeyCannotUseVirtualColumn _ _ => "ForeignKeyCannotUseVirtualColumn"
  | foreignKeyColumnNotMatch _ _ _ => "ForeignKeyColumnNotMatch"
  | foreignKeyNoIndexInParent _ _ => "ForeignKeyNoIndexInParent"
  | foreignKeyNoIndexInChild _ _ => "ForeignKeyNoIndexInChild"
  | noReferencedRow _ => "NoReferencedRow"
  | truncateIllegalForeignKey _ => "TruncateIllegalForeignKey"
  | foreignKeyColumnCannotDrop _ _ => "ForeignKeyColumnCannotDrop"
  | foreignKeyColumnCannotDropChild _ _ _ => "ForeignKeyColumnCannotDropChild"
  | dropIndexNeededInForeignKey _ => "DropIndexNeededInForeignKey"
  | cantDropFieldOrKey _ => "CantDropFieldOrKey"
  | tableExists _ => "TableExists"
  | noSuchTable _ _ => "NoSuchTable"
  | databaseNotExists _ => "DatabaseNotExists"
  | databaseExists _ => "DatabaseExists"
  | invalidState _ _ => "InvalidDdlState"
  | invalidJobArgs _ => "InvalidJobArgs"
  | writeConflict _ _ => "WriteConflict"
  | ownerLost => "OwnerLost"
  | internal _ => "Internal"

end Fault

end Steward.Catalog
