-- The parser (src/query/parser.cpp): recursive descent over the tokens of the
-- lexer, with one token of lookahead. A loop or a recursion that is not over
-- when it has had one round for each byte that is left does not end.
import Edb.Ast
import Edb.Binary64
import Edb.Call
import Edb.Lexer

namespace edb

structure Parser where
  lexer : Lexer
  cur : Token := {}
  last_error : Bytes := []
  deriving DecidableEq, Repr

/-- `std::from_chars` of an unsigned number that has to be below `bound`. -/
def from_chars_nat (bound : Nat) (text : Bytes) : Option Nat :=
  match dec.read_nat text with
  | some (n, _) => if n < bound then some n else none
  | none => none

/-- `std::from_chars` of a float. A number that is not zero but too small or
too large for the format is out of range. -/
def from_chars_f64 (text : Bytes) : Option Nat :=
  match binary64.read_mantissa dec.is_digit text, binary64.read_decimal text with
  | some (whole, part, _), some (bits, _) =>
    if bits = binary64.infinity ∨ (bits = 0 ∧ dec.value (whole ++ part) ≠ 0) then none
    else some bits
  | _, _ => none

namespace Parser

/-! ## Tokens -/

def advance : Call Error Parser Unit :=
  .modify fun p => { p with cur := p.lexer.next.1, lexer := p.lexer.next.2 }

/-- The constructor reads the first token. -/
def start (src : Bytes) : Parser := (advance.run { lexer := { rest := src } }).2

def check (kind : TokenKind) : Call Error Parser Bool := do
  let p ← .get
  pure (decide (p.cur.kind = kind))

/-- The `match` of the source. -/
def accept (kind : TokenKind) : Call Error Parser Bool := do
  if ← check kind then
    advance
    pure true
  else pure false

/-- `parse_err`, and the return of the error. -/
def parse_err {α : Type} (msg : Bytes) : Call Error Parser α := do
  .modify fun p => { p with last_error := msg }
  .fail .ParseError

/-- The end of a message: where the token is. -/
def at_line (token : Token) : Bytes :=
  str " at line " ++ dec.text token.line ++ str ":" ++ dec.text token.col

def expect (kind : TokenKind) : Call Error Parser Token := do
  let p ← .get
  if p.cur.kind ≠ kind then
    parse_err (str "expected " ++ token_kind_name kind ++ str " but got '" ++ p.cur.text ++
      str "'" ++ at_line p.cur)
  else
    advance
    pure p.cur

def expect_identifier : Call Error Parser Bytes := do
  let p ← .get
  if p.cur.kind ≠ .Identifier then
    parse_err (str "expected identifier but got '" ++ p.cur.text ++ str "'" ++ at_line p.cur)
  else
    advance
    pure p.cur.text

/-- The rounds that a loop can make from here. -/
def rounds : Call Error Parser Nat := do
  let p ← .get
  pure (p.lexer.rest.length + 2)

/-! ## Expressions -/

/-- The content of a string token: the outer quotes go, and of two quotes one
stays. The loop of the source runs on indexes, and looks at the byte after a
quote only if that is not the last one. -/
def unescape_loop : Bytes → Bytes
  | [] => []
  | [_] => []
  | [b, _] => [b]
  | b :: c :: d :: rest =>
    if b = chr '\'' ∧ c = chr '\'' then b :: unescape_loop (d :: rest)
    else b :: unescape_loop (c :: d :: rest)

def unescape (raw : Bytes) : Bytes := unescape_loop raw.tail

/-- The nested expression is parsed by `expr`. -/
def parse_primary (expr : Call Error Parser Expr) : Call Error Parser Expr := do
  if ← accept .LParen then
    let inner ← expr
    let _ ← expect .RParen
    return inner
  if ← accept .KwNull then return .literal .NullLiteral
  if ← accept .KwTrue then return .literal (.BoolLiteral true)
  if ← accept .KwFalse then return .literal (.BoolLiteral false)
  let p ← .get
  match p.cur.kind with
  | .LitInteger =>
    match from_chars_nat (2 ^ 63) p.cur.text with
    | none => parse_err (str "invalid integer literal '" ++ p.cur.text ++ str "'")
    | some n =>
      advance
      pure (.literal (.IntLiteral n))
  | .LitFloat =>
    match from_chars_f64 p.cur.text with
    | none => parse_err (str "invalid float literal '" ++ p.cur.text ++ str "'")
    | some bits =>
      advance
      pure (.literal (.FloatLiteral bits))
  | .LitString =>
    advance
    pure (.literal (.StrLiteral (unescape p.cur.text)))
  | .Identifier =>
    advance
    pure (.column_ref p.cur.text)
  | _ =>
    parse_err (str "unexpected token '" ++ p.cur.text ++ str "' in expression" ++ at_line p.cur)

/-- The comparison operator that the current token is, if it is one. -/
def accept_comparison : Call Error Parser (Option BinaryOp) := do
  if ← accept .Eq then return some .Eq
  if ← accept .Neq then return some .Neq
  if ← accept .Lt then return some .Lt
  if ← accept .Le then return some .Le
  if ← accept .Gt then return some .Gt
  if ← accept .Ge then return some .Ge
  return none

def parse_cmp (expr : Call Error Parser Expr) : Call Error Parser Expr := do
  let left ← parse_primary expr
  match ← accept_comparison with
  | none => pure left
  | some op =>
    let right ← parse_primary expr
    pure (.binary op left right)

def parse_not (expr : Call Error Parser Expr) : Call Error Parser Expr := do
  if ← accept .KwNot then parse_err (str "NOT is not yet supported in WHERE expressions")
  else parse_cmp expr

/-- The loops of `parse_or` and `parse_and`: operands between operators of one
kind, gathered from the left. -/
def parse_chain (kind : TokenKind) (op : BinaryOp) (operand : Call Error Parser Expr) :
    Nat → Expr → Call Error Parser Expr
  | 0, _ => .fail .Diverges
  | n + 1, left => do
    if ← accept kind then
      let right ← operand
      parse_chain kind op operand n (.binary op left right)
    else pure left

def parse_and (expr : Call Error Parser Expr) : Call Error Parser Expr := do
  let left ← parse_not expr
  let n ← rounds
  parse_chain .KwAnd .And (parse_not expr) n left

def parse_or (expr : Call Error Parser Expr) : Call Error Parser Expr := do
  let left ← parse_and expr
  let n ← rounds
  parse_chain .KwOr .Or (parse_and expr) n left

/-- Expressions in at most so many pairs of parentheses. -/
def parse_nested : Nat → Call Error Parser Expr
  | 0 => .fail .Diverges
  | depth + 1 => parse_or (parse_nested depth)

def parse_expr : Call Error Parser Expr := do
  let depth ← rounds
  parse_nested depth

/-! ## Lists -/

/-- The loop over elements with commas between them. It goes on only while the
current token neither closes the list nor ends the source. -/
def parse_closed_list {α : Type} (element : Call Error Parser α) :
    Nat → Call Error Parser (List α)
  | 0 => .fail .Diverges
  | n + 1 => do
    if ← check .RParen then return []
    if ← check .Eof then return []
    let x ← element
    if ← accept .Comma then
      let rest ← parse_closed_list element n
      return x :: rest
    return [x]

/-- The loop over elements with commas between them, of which there is one. -/
def parse_list {α : Type} (element : Call Error Parser α) : Nat → Call Error Parser (List α)
  | 0 => .fail .Diverges
  | n + 1 => do
    let x ← element
    if ← accept .Comma then
      let rest ← parse_list element n
      return x :: rest
    return [x]

def parse_expr_list : Call Error Parser (List Expr) := do
  let n ← rounds
  parse_closed_list parse_expr n

/-! ## CREATE TABLE -/

def parse_type_name : Call Error Parser TypeName := do
  let name ← expect_identifier
  let p ← .get
  if (name = str "double" ∨ name = str "DOUBLE") ∧ p.cur.kind = .Identifier ∧
      (p.cur.text = str "precision" ∨ p.cur.text = str "PRECISION") then
    advance
    return { name := str "double precision", param := none }
  if ← accept .LParen then
    let p ← .get
    if p.cur.kind ≠ .LitInteger then
      parse_err (str "expected integer parameter in type name")
    else
      match from_chars_nat (2 ^ 32) p.cur.text with
      | none => parse_err (str "invalid type parameter '" ++ p.cur.text ++ str "'")
      | some param =>
        advance
        let _ ← expect .RParen
        return { name, param := some param }
  return { name, param := none }

/-- The loop over the constraints of a column. -/
def parse_constraints : Nat → ColumnDef → Call Error Parser ColumnDef
  | 0, _ => .fail .Diverges
  | n + 1, col => do
    if ← accept .KwNot then
      let _ ← expect .KwNull
      parse_constraints n { col with not_null := true }
    else if ← accept .KwNull then parse_constraints n { col with not_null := false }
    else if ← accept .KwPrimary then
      let _ ← expect .KwKey
      parse_constraints n { col with primary_key := true, not_null := true }
    else if ← accept .KwUnique then parse_constraints n { col with unique_constraint := true }
    else pure col

def parse_col_def : Call Error Parser ColumnDef := do
  let name ← expect_identifier
  let type ← parse_type_name
  let n ← rounds
  parse_constraints n { name, type }

def parse_if_not_exists : Call Error Parser Bool := do
  if ← accept .KwIf then
    let _ ← expect .KwNot
    let _ ← expect .KwExists
    return true
  return false

def parse_create_table : Call Error Parser CreateTableStmt := do
  let _ ← expect .KwTable
  let if_not_exists ← parse_if_not_exists
  let table_name ← expect_identifier
  let _ ← expect .LParen
  let n ← rounds
  let columns ← parse_closed_list parse_col_def n
  let _ ← expect .RParen
  pure { table_name, columns, if_not_exists }

/-! ## INSERT -/

/-- The column names, if there are any. -/
def parse_column_names : Call Error Parser (List Bytes) := do
  if ← accept .LParen then
    let n ← rounds
    let names ← parse_closed_list expect_identifier n
    let _ ← expect .RParen
    return names
  return []

def parse_row : Call Error Parser (List Expr) := do
  let _ ← expect .LParen
  let exprs ← parse_expr_list
  let _ ← expect .RParen
  pure exprs

def parse_insert : Call Error Parser InsertStmt := do
  let _ ← expect .KwInto
  let table_name ← expect_identifier
  let column_names ← parse_column_names
  let _ ← expect .KwValues
  let n ← rounds
  let rows ← parse_list parse_row n
  pure { table_name, column_names, rows }

/-! ## SELECT -/

def parse_alias : Call Error Parser (Option Bytes) := do
  if ← accept .KwAs then
    let name ← expect_identifier
    return some name
  return none

def parse_select_item : Call Error Parser SelectItem := do
  if ← accept .Star then return .StarItem
  let e ← parse_expr
  let alias_ ← parse_alias
  return .ExprItem e alias_

def parse_select_items : Call Error Parser (List SelectItem) := do
  let n ← rounds
  parse_list parse_select_item n

def parse_where : Call Error Parser (Option Expr) := do
  if ← accept .KwWhere then
    let e ← parse_expr
    return some e
  return none

def parse_select : Call Error Parser SelectStmt := do
  let items ← parse_select_items
  let _ ← expect .KwFrom
  let table_name ← expect_identifier
  let where_ ← parse_where
  pure { items, table_name, where_ }

/-! ## Statements -/

def parse_stmt : Call Error Parser Stmt := do
  if ← accept .KwCreate then
    let stmt ← parse_create_table
    return .create_table stmt
  if ← accept .KwInsert then
    let stmt ← parse_insert
    return .insert stmt
  if ← accept .KwSelect then
    let stmt ← parse_select
    return .select stmt
  let p ← .get
  -- three bytes of UTF-8 for a dash
  parse_err (str "unexpected token '" ++ p.cur.text ++ str "'" ++ at_line p.cur ++ str " " ++
    [0xe2, 0x80, 0x94] ++ str " expected CREATE, INSERT, or SELECT")

/-- The loop of `parse`. -/
def parse_stmts : Nat → Call Error Parser (List Stmt)
  | 0 => .fail .Diverges
  | n + 1 => do
    if ← check .Eof then return []
    let _ ← accept .Semicolon
    if ← check .Eof then return []
    let stmt ← parse_stmt
    let _ ← accept .Semicolon
    let rest ← parse_stmts n
    return stmt :: rest

def parse : Call Error Parser (List Stmt) := do
  let n ← rounds
  parse_stmts n

end Parser

end edb
