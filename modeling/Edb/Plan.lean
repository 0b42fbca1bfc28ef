-- The plans (src/query/logical_plan.cpp, src/query/physical_plan.cpp). A bound
-- statement becomes a chain of logical nodes, and each of them a physical one.
import Edb.Binder

namespace edb

inductive LogicalPlan where
  | create_table (stmt : BoundCreateTableStmt)
  | insert (stmt : BoundInsertStmt)
  | scan (table : BoundTableRef)
  | filter (input : LogicalPlan) (predicate : BoundExpr)
  | project (input : LogicalPlan) (items : List BoundSelectItem)
  deriving DecidableEq, Repr

namespace LogicalPlanner

def build_select (stmt : BoundSelectStmt) : Result LogicalPlan :=
  let plan := LogicalPlan.scan stmt.table
  let plan := match stmt.where_ with
    | none => plan
    | some predicate => .filter plan predicate
  .ok (.project plan stmt.items)

def build : BoundStmt → Result LogicalPlan
  | .create_table stmt => .ok (.create_table stmt)
  | .insert stmt => .ok (.insert stmt)
  | .select stmt => build_select stmt

end LogicalPlanner

inductive PhysicalPlan where
  | create_table (stmt : BoundCreateTableStmt)
  | insert (stmt : BoundInsertStmt)
  | seq_scan (table : BoundTableRef)
  | filter (input : PhysicalPlan) (predicate : BoundExpr)
  | project (input : PhysicalPlan) (items : List BoundSelectItem)
  deriving DecidableEq, Repr

/-- `build_unary_input` fails on a null pointer, and a plan has none. -/
def PhysicalPlanner.build : LogicalPlan → Result PhysicalPlan
  | .create_table stmt => .ok (.create_table stmt)
  | .insert stmt => .ok (.insert stmt)
  | .scan table => .ok (.seq_scan table)
  | .filter input predicate => do
    let input ← PhysicalPlanner.build input
    pure (.filter input predicate)
  | .project input items => do
    let input ← PhysicalPlanner.build input
    pure (.project input items)

end edb
