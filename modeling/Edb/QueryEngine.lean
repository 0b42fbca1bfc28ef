-- The query engine (src/query/query_engine.cpp): one SQL statement from its
-- text to its rows.
import Edb.Exec
import Edb.Parser

namespace edb

/-- A query engine works on the catalog. Its type registry is an argument. -/
structure QueryEngine where
  catalog : CatalogState
  last_error : Bytes := []

namespace QueryEngine

def query_err {α : Type} (msg : Bytes) (e : Error) : Call Error QueryEngine α := do
  .modify fun q => { q with last_error := msg }
  .fail e

def on_catalog {α : Type} (x : Call Error CatalogState α) : Call Error QueryEngine α :=
  x.zoom QueryEngine.catalog fun catalog q => { q with catalog }

section
variable (types : TypeRegistry)

/-- A binder is made for the statement. Its message is that of its error. -/
def bind (stmt : Stmt) : Call Error QueryEngine BoundStmt := do
  let call : Call Error Binder (Result BoundStmt × Bytes) := do
    let bound ← (Binder.bind types stmt).attempt
    let binder ← .get
    pure (bound, binder.last_error)
  match ← call.zoom (fun q => { catalog := q.catalog }) fun b q => { q with catalog := b.catalog } with
  | (.error e, msg) => query_err msg e
  | (.ok bound, _) => pure bound

/-- The three steps from a bound statement to a node that can be opened. -/
def lower (bound : BoundStmt) : Result ExecNode := do
  let logical ← LogicalPlanner.build bound
  let physical ← PhysicalPlanner.build logical
  ExecBuilder.build physical

/-- The loop over the rows of a node. -/
def drain (node : ExecNode) : Nat → Call Error ExecState (List ExecRow)
  | 0 => .fail .Diverges
  | n + 1 => do
    match ← ExecNode.next types node with
    | none => pure []
    | some row =>
      let rows ← drain node n
      pure (row :: rows)

/-- A node that was opened is drained and closed. It gives each of its rows at
most once, so the loop asks once for each of them and once more. -/
def collect (node : ExecNode) (opened : ExecState) : Result (List ExecRow) :=
  let call : Call Error ExecState (List ExecRow) := do
    match ← (drain types node (opened.rows.length + 1)).attempt with
    | .error e =>
      ExecNode.close
      .fail e
    | .ok rows =>
      ExecNode.close
      pure rows
  (call.run opened).1

/-- The planners and the builder give an error to a null pointer only, and then
no message. -/
def execute_bound (bound : BoundStmt) : Call Error QueryEngine (List ExecRow) := do
  match lower bound with
  | .error e => query_err [] e
  | .ok node =>
    match ← (on_catalog (ExecNode.open node)).attempt with
    | .error e => query_err (str "executor open failed") e
    | .ok opened =>
      match collect types node opened with
      | .error e => query_err (str "executor next failed") e
      | .ok rows => pure rows

def execute (sql : Bytes) : Call Error QueryEngine (List ExecRow) := do
  match Parser.parse.run (Parser.start sql) with
  | (.error e, parser) => query_err parser.last_error e
  | (.ok [stmt], _) => do
    let bound ← bind types stmt
    execute_bound types bound
  | (.ok _, _) => query_err (str "execute expects exactly one SQL statement") .InvalidArgument

end

end QueryEngine

end edb
