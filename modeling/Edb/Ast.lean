-- The syntax trees of the SQL subset (src/query/ast.hpp).
import Edb.StorageIO

namespace edb

/-- A float is held as the bits of its binary64 format. -/
inductive Literal where
  | IntLiteral (value : Int)
  | FloatLiteral (value : Nat)
  | StrLiteral (value : Bytes)
  | NullLiteral
  | BoolLiteral (value : Bool)
  deriving DecidableEq, Repr

inductive BinaryOp where
  | Eq
  | Neq
  | Lt
  | Le
  | Gt
  | Ge
  | And
  | Or
  deriving DecidableEq, Repr

inductive Expr where
  | literal (value : Literal)
  | column_ref (name : Bytes)
  | binary (op : BinaryOp) (left right : Expr)
  deriving DecidableEq, Repr

def Expr.is_literal : Expr → Bool
  | .literal _ => true
  | _ => false

structure TypeName where
  name : Bytes
  param : Option Nat
  deriving DecidableEq, Repr

structure ColumnDef where
  name : Bytes
  type : TypeName
  not_null : Bool := false
  primary_key : Bool := false
  unique_constraint : Bool := false
  deriving DecidableEq, Repr

structure CreateTableStmt where
  table_name : Bytes
  columns : List ColumnDef
  if_not_exists : Bool := false
  deriving DecidableEq, Repr

/-- No column names stand for all columns, by position. -/
structure InsertStmt where
  table_name : Bytes
  column_names : List Bytes
  rows : List (List Expr)
  deriving DecidableEq, Repr

inductive SelectItem where
  | StarItem
  | ExprItem (expr : Expr) (alias_ : Option Bytes)
  deriving DecidableEq, Repr

structure SelectStmt where
  items : List SelectItem
  table_name : Bytes
  where_ : Option Expr
  deriving DecidableEq, Repr

inductive Stmt where
  | create_table (stmt : CreateTableStmt)
  | insert (stmt : InsertStmt)
  | select (stmt : SelectStmt)
  deriving DecidableEq, Repr

end edb
