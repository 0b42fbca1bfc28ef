-- The binder (src/query/binder.cpp): it resolves the names of a statement
-- against the catalog and turns literals into values of the types that they
-- are wanted as.
import Edb.Ast
import Edb.Catalog
import Edb.Lexer

namespace edb

/-! ## Bound statements -/

structure BoundTypeRef where
  oid : Nat := 0
  name : Bytes := []
  param : Option Nat := none
  deriving DecidableEq, Repr

structure BoundColumnDef where
  name : Bytes
  type : BoundTypeRef
  nullable : Bool := true
  primary_key : Bool := false
  unique_constraint : Bool := false
  deriving DecidableEq, Repr

structure BoundLiteral where
  type : BoundTypeRef
  value : Value
  deriving DecidableEq, Repr

structure BoundColumnRef where
  relation_oid : Nat := 0
  attnum : Nat := 0
  name : Bytes
  type : BoundTypeRef
  nullable : Bool := false
  deriving DecidableEq, Repr

inductive BoundExpr where
  | literal (bound : BoundLiteral)
  | column (bound : BoundColumnRef)
  | binary (op : BinaryOp) (left right : BoundExpr) (type : BoundTypeRef)
  deriving DecidableEq, Repr

structure BoundTableRef where
  relation_oid : Nat := 0
  name : Bytes
  columns : List BoundColumnRef
  deriving DecidableEq, Repr

inductive BoundSelectItem where
  | star
  | expr (expr : BoundExpr) (alias_ : Option Bytes)
  deriving DecidableEq, Repr

structure BoundCreateTableStmt where
  table_name : Bytes
  columns : List BoundColumnDef
  if_not_exists : Bool := false
  deriving DecidableEq, Repr

structure BoundInsertStmt where
  table : BoundTableRef
  columns : List BoundColumnRef
  rows : List (List BoundLiteral)
  deriving DecidableEq, Repr

structure BoundSelectStmt where
  table : BoundTableRef
  items : List BoundSelectItem
  where_ : Option BoundExpr
  deriving DecidableEq, Repr

inductive BoundStmt where
  | create_table (stmt : BoundCreateTableStmt)
  | insert (stmt : BoundInsertStmt)
  | select (stmt : BoundSelectStmt)
  deriving DecidableEq, Repr

/-! ## Names and texts -/

def lower_ascii (text : Bytes) : Bytes := text.map to_lower

def canonical_type_name (type_name : TypeName) : Bytes :=
  let lowered := lower_ascii type_name.name
  if lowered = str "integer" ∨ lowered = str "int" ∨ lowered = str "int4" then str "int32"
  else if lowered = str "bigint" ∨ lowered = str "int8" then str "int64"
  else if lowered = str "double precision" ∨ lowered = str "double" ∨ lowered = str "float8" then
    str "float64"
  else if lowered = str "boolean" then str "bool"
  else if lowered = str "varchar" ∨ lowered = str "character varying" then str "text"
  else lowered

def normalized_column_name (name : Bytes) : Bytes := lower_ascii name

def bound_expr_type : BoundExpr → BoundTypeRef
  | .literal bound => bound.type
  | .column bound => bound.type
  | .binary _ _ _ type => type

def is_bool_expr (expr : BoundExpr) (bool_type : BoundTypeRef) : Bool :=
  (bound_expr_type expr).oid == bool_type.oid

/-- The build is C++26, where `std::to_string` writes a float as `std::format` does. -/
def literal_text : Literal → Option Bytes
  | .IntLiteral value => some (dec.int_text value)
  | .FloatLiteral value => some (binary64.to_text value)
  | .StrLiteral value => some value
  | .BoolLiteral value => some (if value then str "true" else str "false")
  | .NullLiteral => none

/-- An index narrows to a `u32`. -/
def make_attnum (index : Nat) : Nat := (index + 1) % 2 ^ 32

/-! ## The binder -/

/-- A binder works on the catalog. Its type registry is an argument below. -/
structure Binder where
  catalog : CatalogState
  last_error : Bytes := []

namespace Binder

def on_catalog {α : Type} (x : Call Error CatalogState α) : Call Error Binder α :=
  x.zoom Binder.catalog fun catalog b => { b with catalog }

/-- `bind_err`, and the return of an error. -/
def bind_err {α : Type} (msg : Bytes) (e : Error) : Call Error Binder α := do
  .modify fun b => { b with last_error := msg }
  .fail e

def type_error : Error → Error
  | .NotFound => .TypeNotFound
  | e => e

def lookup_type_name (name : Bytes) : Call Error Binder BoundTypeRef := do
  match ← (on_catalog (Catalog.get_type name)).attempt with
  | .error e => .fail (type_error e)
  | .ok type => pure { oid := type.oid, name := type.name, param := none }

section
variable (types : TypeRegistry)

def lookup_type_oid (oid : Nat) : Result BoundTypeRef :=
  match types.lookup oid with
  | .error e => .error (type_error e)
  | .ok type => .ok { oid := type.oid, name := type.name, param := none }

/-! ### Tables and columns -/

/-- The loop over the columns of a schema. -/
def bind_columns (relation_oid : Nat) : Nat → List ColumnSchema → Result (List BoundColumnRef)
  | _, [] => .ok []
  | index, column :: rest => do
    let type ← lookup_type_oid types column.type_oid
    let columns ← bind_columns relation_oid (index + 1) rest
    pure ({
      relation_oid
      attnum := make_attnum index
      name := column.name
      type
      nullable := column.nullable } :: columns)

/-- An unknown table has a message of its own. -/
def on_table_name {α : Type} (table_name : Bytes) (x : Call Error CatalogState α) :
    Call Error Binder α := do
  match ← (on_catalog x).attempt with
  | .error e =>
    if e = .NotFound then
      bind_err (str "unknown table '" ++ table_name ++ str "'") .AnalyzerError
    else .fail e
  | .ok a => pure a

def bind_table (table_name : Bytes) : Call Error Binder BoundTableRef := do
  let catalog_class ← on_table_name table_name (Catalog.get_class table_name)
  let opened_table ← on_table_name table_name (Catalog.open_table table_name)
  let schema ← on_catalog (Catalog.schema opened_table)
  let columns ← .ofExcept (bind_columns types catalog_class.oid 0 schema.columns)
  pure { relation_oid := catalog_class.oid, name := schema.name, columns }

def bind_column_ref (name : Bytes) (table : BoundTableRef) : Call Error Binder BoundColumnRef :=
  match table.columns.find? fun column =>
      normalized_column_name column.name == normalized_column_name name with
  | some column => pure column
  | none =>
    bind_err (str "unknown column '" ++ name ++ str "' on table '" ++ table.name ++ str "'")
      .AnalyzerError

/-! ### Literals -/

def infer_literal_type : Literal → Call Error Binder BoundTypeRef
  | .NullLiteral => bind_err (str "NULL literal requires a target type") .AnalyzerError
  | .IntLiteral _ => lookup_type_name (str "int64")
  | .FloatLiteral _ => lookup_type_name (str "float64")
  | .StrLiteral _ => lookup_type_name (str "text")
  | .BoolLiteral _ => lookup_type_name (str "bool")

def coerce_literal_to_type (literal : Literal) (target_type : BoundTypeRef)
    (target_nullable : Bool) : Call Error Binder BoundLiteral :=
  match literal_text literal with
  | none =>
    if !target_nullable then
      bind_err (str "NULL is not allowed for non-nullable type '" ++ target_type.name ++ str "'")
        .AnalyzerError
    else pure {
      type := target_type
      value := { type_oid := target_type.oid, bytes := [], is_null := true } }
  | some text =>
    match types.lookup target_type.oid with
    | .error e => .fail (type_error e)
    | .ok type =>
      match type.from_text text with
      | .error _ =>
        bind_err (str "cannot coerce literal '" ++ text ++ str "' to type '" ++
          target_type.name ++ str "'") .AnalyzerError
      | .ok bytes => pure {
          type := target_type
          value := { type_oid := target_type.oid, bytes, is_null := false } }

/-- The type that a literal is wanted as, or the one that it has by itself. -/
def wanted_type (literal : Literal) : Option BoundTypeRef → Call Error Binder BoundTypeRef
  | some type => pure type
  | none => infer_literal_type literal

def bind_literal (literal : Literal) (target_type : Option BoundTypeRef)
    (target_nullable : Bool) : Call Error Binder BoundLiteral := do
  let target ← wanted_type literal target_type
  coerce_literal_to_type types literal target target_nullable

/-! ### Expressions -/

/-- A side of a comparison, bound again to a type or as it is. -/
def rebind (again : Bool) (bind_side : Option BoundTypeRef → Call Error Binder BoundExpr)
    (type : BoundTypeRef) (bound : BoundExpr) : Call Error Binder BoundExpr :=
  if again then bind_side (some type) else pure bound

/-- `bind_left` and `bind_right` are `bind_expr` of the two sides. Where the
types of a comparison differ, a side that is a literal is bound again, to the
type of the other side. -/
def bind_binary_expr (op : BinaryOp) (left right : Expr)
    (bind_left bind_right : Option BoundTypeRef → Call Error Binder BoundExpr) :
    Call Error Binder BoundExpr := do
  let bool_type ← lookup_type_name (str "bool")
  let left_bound ← bind_left none
  let right_bound ← bind_right none
  if op = .And ∨ op = .Or then
    if !is_bool_expr left_bound bool_type || !is_bool_expr right_bound bool_type then
      bind_err (str "logical expressions require bool operands") .AnalyzerError
    else pure (.binary op left_bound right_bound bool_type)
  else
    let differ := (bound_expr_type left_bound).oid != (bound_expr_type right_bound).oid
    let left_bound ← rebind (differ && left.is_literal) bind_left
      (bound_expr_type right_bound) left_bound
    let right_bound ← rebind (differ && !left.is_literal && right.is_literal) bind_right
      (bound_expr_type left_bound) right_bound
    if (bound_expr_type left_bound).oid ≠ (bound_expr_type right_bound).oid then
      bind_err (str "type mismatch in comparison: '" ++ (bound_expr_type left_bound).name ++
        str "' vs '" ++ (bound_expr_type right_bound).name ++ str "'") .AnalyzerError
    else pure (.binary op left_bound right_bound bool_type)

def bind_expr (table : BoundTableRef) :
    Expr → Option BoundTypeRef → Call Error Binder BoundExpr
  | .literal value, target_type => do
    let bound ← bind_literal types value target_type true
    pure (.literal bound)
  | .column_ref name, _ => do
    let bound ← bind_column_ref name table
    pure (.column bound)
  | .binary op left right, _ =>
    bind_binary_expr op left right (bind_expr table left) (bind_expr table right)

/-! ### Statements -/

/-- The loop over the column definitions, with the names seen so far. -/
def bind_column_defs (table_name : Bytes) :
    List Bytes → List ColumnDef → Call Error Binder (List BoundColumnDef)
  | _, [] => pure []
  | seen_columns, column :: rest => do
    let dedup_name := normalized_column_name column.name
    if dedup_name ∈ seen_columns then
      bind_err (str "duplicate column '" ++ column.name ++ str "' in CREATE TABLE '" ++
        table_name ++ str "'") .AnalyzerError
    else
      match ← (on_catalog (Catalog.get_type (canonical_type_name column.type))).attempt with
      | .error e =>
        bind_err (str "unknown type '" ++ column.type.name ++ str "' for column '" ++
          column.name ++ str "'") (type_error e)
      | .ok type =>
        let columns ← bind_column_defs table_name (dedup_name :: seen_columns) rest
        pure ({
          name := column.name
          type := { oid := type.oid, name := type.name, param := column.type.param }
          nullable := !column.not_null
          primary_key := column.primary_key
          unique_constraint := column.unique_constraint } :: columns)

def bind_create_table (stmt : CreateTableStmt) : Call Error Binder BoundCreateTableStmt := do
  let columns ← bind_column_defs stmt.table_name [] stmt.columns
  pure { table_name := stmt.table_name, columns, if_not_exists := stmt.if_not_exists }

/-- The loop over the names of a column list, with the names seen so far. -/
def bind_targets (table : BoundTableRef) (table_name : Bytes) :
    List Bytes → List Bytes → Call Error Binder (List BoundColumnRef)
  | _, [] => pure []
  | seen_columns, column_name :: rest => do
    let bound_column ← bind_column_ref column_name table
    let normalized := normalized_column_name bound_column.name
    if normalized ∈ seen_columns then
      bind_err (str "duplicate target column '" ++ bound_column.name ++ str "' in INSERT into '" ++
        table_name ++ str "'") .AnalyzerError
    else
      let columns ← bind_targets table table_name (normalized :: seen_columns) rest
      pure (bound_column :: columns)

/-- The loop over the values of a row and the columns that they go to. -/
def bind_values : List (Expr × BoundColumnRef) → Call Error Binder (List BoundLiteral)
  | [] => pure []
  | (.literal literal, column) :: rest => do
    let bound ← bind_literal types literal (some column.type) column.nullable
    let bound_row ← bind_values rest
    pure (bound :: bound_row)
  | _ :: _ =>
    bind_err (str "INSERT VALUES currently supports only literal expressions") .AnalyzerError

def bind_rows (target_columns : List BoundColumnRef) :
    List (List Expr) → Call Error Binder (List (List BoundLiteral))
  | [] => pure []
  | row :: rest => do
    if row.length ≠ target_columns.length then
      bind_err (str "INSERT row has " ++ dec.text row.length ++
        str " values but target column list has " ++ dec.text target_columns.length ++
        str " entries") .AnalyzerError
    else
      let bound_row ← bind_values types (row.zip target_columns)
      let bound_rows ← bind_rows target_columns rest
      pure (bound_row :: bound_rows)

/-- The columns that the values of a row go to. -/
def bind_target_columns (stmt : InsertStmt) (table : BoundTableRef) :
    Call Error Binder (List BoundColumnRef) :=
  if stmt.column_names.isEmpty then pure table.columns
  else bind_targets table stmt.table_name [] stmt.column_names

def bind_insert (stmt : InsertStmt) : Call Error Binder BoundInsertStmt := do
  let table ← bind_table types stmt.table_name
  let columns ← bind_target_columns stmt table
  let rows ← bind_rows types columns stmt.rows
  pure { table, columns, rows }

def bind_items (table : BoundTableRef) :
    List SelectItem → Call Error Binder (List BoundSelectItem)
  | [] => pure []
  | .StarItem :: rest => do
    let items ← bind_items table rest
    pure (.star :: items)
  | .ExprItem expr alias_ :: rest => do
    let bound ← bind_expr types table expr none
    let items ← bind_items table rest
    pure (.expr bound alias_ :: items)

def bind_where (table : BoundTableRef) : Option Expr → Call Error Binder (Option BoundExpr)
  | none => pure none
  | some expr => do
    let bound ← bind_expr types table expr none
    let bool_type ← lookup_type_name (str "bool")
    if !is_bool_expr bound bool_type then
      bind_err (str "WHERE expression must have type bool") .AnalyzerError
    else pure (some bound)

def bind_select (stmt : SelectStmt) : Call Error Binder BoundSelectStmt := do
  let table ← bind_table types stmt.table_name
  let items ← bind_items types table stmt.items
  let where_ ← bind_where types table stmt.where_
  pure { table, items, where_ }

def bind : Stmt → Call Error Binder BoundStmt
  | .create_table stmt => do
    let bound ← bind_create_table stmt
    pure (.create_table bound)
  | .insert stmt => do
    let bound ← bind_insert types stmt
    pure (.insert bound)
  | .select stmt => do
    let bound ← bind_select types stmt
    pure (.select bound)

end

end Binder

end edb
