-- The executor (src/query/exec.cpp): expressions over a row, and nodes that
-- are opened, asked for their next row, and closed.
import Edb.Plan

namespace edb

structure ExecRow where
  columns : List BoundColumnRef := []
  values : List Value := []
  deriving DecidableEq, Repr

/-! ## Expressions -/

/-- The values of a row go with its columns by position. -/
def find_column_value (row : ExecRow) (ref : BoundColumnRef) : Result Value :=
  match (row.columns.zip row.values).find? fun x =>
      x.1.attnum == ref.attnum && x.1.name == ref.name with
  | some x => .ok x.2
  | none => .error .AnalyzerError

def make_bool_value (bool_type : DataType) (value : Bool) : Result Value := do
  let bytes ← bool_type.from_text (if value then str "true" else str "false")
  pure { type_oid := bool_type.oid, bytes, is_null := false }

section
variable (types : TypeRegistry)

def value_as_bool (value : Value) : Result Bool := do
  let type ← types.lookup value.type_oid
  pure (type.to_text value.bytes == str "true")

def compare_values (op : BinaryOp) (left right : Value) : Result Bool :=
  if left.is_null || right.is_null then .ok false
  else do
    let type ← types.lookup left.type_oid
    let ordering := type.compare left.bytes right.bytes
    match op with
    | .Eq => .ok (ordering == .eq)
    | .Neq => .ok (ordering != .eq)
    | .Lt => .ok (ordering == .lt)
    | .Le => .ok (ordering == .lt || ordering == .eq)
    | .Gt => .ok (ordering == .gt)
    | .Ge => .ok (ordering == .gt || ordering == .eq)
    | .And => .error .InvalidArgument
    | .Or => .error .InvalidArgument

/-- Both sides are evaluated before anything is looked at. -/
def eval_expr (row : ExecRow) : BoundExpr → Result Value
  | .literal bound => .ok bound.value
  | .column bound => find_column_value row bound
  | .binary op left right _ => do
    let left ← eval_expr row left
    let right ← eval_expr row right
    let bool_type ← types.lookup_name (str "bool")
    match op with
    | .And => do
      let left_bool ← value_as_bool types left
      let right_bool ← value_as_bool types right
      make_bool_value bool_type (left_bool && right_bool)
    | .Or => do
      let left_bool ← value_as_bool types left
      let right_bool ← value_as_bool types right
      make_bool_value bool_type (left_bool || right_bool)
    | op => do
      let comparison ← compare_values types op left right
      make_bool_value bool_type comparison

/-- The projected columns are numbered from one on. -/
def output_column (expr : BoundExpr) (alias_ : Option Bytes) (index : Nat) : BoundColumnRef :=
  match alias_, expr with
  | some name, _ =>
    { attnum := make_attnum index, name, type := bound_expr_type expr, nullable := true }
  | none, .column bound =>
    { attnum := make_attnum index, name := bound.name, type := bound.type,
      nullable := bound.nullable }
  | none, _ =>
    { attnum := make_attnum index, name := str "?column?", type := bound_expr_type expr,
      nullable := true }

/-! ## Nodes -/

/-- The nodes of a plan are a chain. The registry and the catalog that a node
points to are arguments below. -/
inductive ExecNode where
  | create_table (stmt : BoundCreateTableStmt)
  | insert (stmt : BoundInsertStmt)
  | seq_scan (table : BoundTableRef)
  | filter (input : ExecNode) (predicate : BoundExpr)
  | project (input : ExecNode) (items : List BoundSelectItem)
  deriving DecidableEq, Repr

/-- The state of the node at the end of the chain. The other nodes have none. -/
structure ExecState where
  opened : Bool := false
  done : Bool := false
  rows : List (List Value) := []
  index : Nat := 0
  deriving DecidableEq, Repr

def create_spec (stmt : BoundCreateTableStmt) : CreateTableSpec where
  name := stmt.table_name
  columns := stmt.columns.map fun column =>
    { name := column.name, type_oid := column.type.oid, nullable := column.nullable }

namespace ExecNode

def open_create_table (stmt : BoundCreateTableStmt) : Call Error CatalogState ExecState := do
  match ← (Catalog.create_table (create_spec stmt)).attempt with
  | .error e =>
    if stmt.if_not_exists ∧ e = .AlreadyExists then pure { opened := true } else .fail e
  | .ok _ => pure { opened := true }

/-- The rows go in as they were bound. The columns of the statement are not
looked at. -/
def open_insert (stmt : BoundInsertStmt) : Call Error CatalogState ExecState := do
  let table ← Catalog.open_table stmt.table.name
  .each (fun row : List BoundLiteral => do
    let _ ← Catalog.insert table (row.map BoundLiteral.value)
    pure ()) stmt.rows
  pure { opened := true }

def open_seq_scan (table : BoundTableRef) : Call Error CatalogState ExecState := do
  let opened_table ← Catalog.open_table table.name
  let rows ← Catalog.scan opened_table
  pure { opened := true, rows }

end ExecNode

/-- The state of the chain after `open`. -/
def ExecNode.open : ExecNode → Call Error CatalogState ExecState
  | .create_table stmt => ExecNode.open_create_table stmt
  | .insert stmt => ExecNode.open_insert stmt
  | .seq_scan table => ExecNode.open_seq_scan table
  | .filter input _ => ExecNode.open input
  | .project input _ => ExecNode.open input

namespace ExecNode

/-- `next` of a node that has nothing to give. -/
def next_done : Call Error ExecState (Option ExecRow) := do
  let s ← .get
  if !s.opened then .fail .InvalidArgument
  else
    .modify fun s => { s with done := true }
    pure none

def next_row (table : BoundTableRef) : Call Error ExecState (Option ExecRow) := do
  let s ← .get
  if !s.opened then .fail .InvalidArgument
  else
    match s.rows[s.index]? with
    | none => pure none
    | some values =>
      .modify fun s => { s with index := s.index + 1 }
      pure (some { columns := table.columns, values })

/-- The loop of a filter over the rows of its input. -/
def filter_loop (input : Call Error ExecState (Option ExecRow)) (predicate : BoundExpr) :
    Nat → Call Error ExecState (Option ExecRow)
  | 0 => .fail .Diverges
  | n + 1 => do
    match ← input with
    | none => pure none
    | some candidate =>
      let predicate_value ← .ofExcept (eval_expr types candidate predicate)
      let keep ← .ofExcept (value_as_bool types predicate_value)
      if keep then pure (some candidate) else filter_loop input predicate n

/-- The loop of a projection over its items. -/
def project_items (input_row : ExecRow) : List BoundSelectItem → ExecRow → Result ExecRow
  | [], projected => .ok projected
  | .star :: rest, projected => project_items input_row rest {
      columns := projected.columns ++ input_row.columns.take input_row.values.length
      values := projected.values ++ input_row.values }
  | .expr expr alias_ :: rest, projected => do
    let value ← eval_expr types input_row expr
    project_items input_row rest {
      columns := projected.columns ++ [output_column expr alias_ projected.columns.length]
      values := projected.values ++ [value] }

/-- A filter asks its input once for each row that is left, and once more. -/
def next : ExecNode → Call Error ExecState (Option ExecRow)
  | .create_table _ => next_done
  | .insert _ => next_done
  | .seq_scan table => next_row table
  | .filter input predicate => do
    let s ← .get
    filter_loop types (next input) predicate (s.rows.length - s.index + 1)
  | .project input items => do
    match ← next input with
    | none => pure none
    | some input_row =>
      let projected ← .ofExcept (project_items types input_row items {})
      pure (some projected)

def close : Call Error ExecState Unit := .modify fun _ => {}

end ExecNode

end

/-- `build` fails on a null pointer, and a plan has none. -/
def ExecBuilder.build : PhysicalPlan → Result ExecNode
  | .create_table stmt => .ok (.create_table stmt)
  | .insert stmt => .ok (.insert stmt)
  | .seq_scan table => .ok (.seq_scan table)
  | .filter input predicate => do
    let input ← ExecBuilder.build input
    pure (.filter input predicate)
  | .project input items => do
    let input ← ExecBuilder.build input
    pure (.project input items)

end edb
