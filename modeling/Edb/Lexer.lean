-- The lexer (src/query/lexer.cpp, src/query/token.hpp). It cuts a source text
-- into tokens, passes over blanks and comments between them, and counts lines
-- and columns on the way.
import Edb.Decimal
import Edb.StorageIO

namespace edb

/-- The byte of an ASCII character. -/
def chr (c : Char) : UInt8 := UInt8.ofNat c.toNat

/-! ## Tokens -/

inductive TokenKind where
  | LitInteger
  | LitFloat
  | LitString
  | Identifier
  | KwAnd
  | KwAs
  | KwCreate
  | KwDefault
  | KwExists
  | KwFalse
  | KwFrom
  | KwIf
  | KwInsert
  | KwInto
  | KwKey
  | KwNot
  | KwNull
  | KwOr
  | KwPrimary
  | KwSelect
  | KwTable
  | KwTrue
  | KwUnique
  | KwValues
  | KwWhere
  | LParen
  | RParen
  | Comma
  | Semicolon
  | Star
  | Dot
  | Eq
  | Neq
  | Lt
  | Le
  | Gt
  | Ge
  | Eof
  | Unknown
  deriving DecidableEq, Repr

/-- The name of a kind in error messages. -/
def token_kind_name : TokenKind → Bytes
  | .LitInteger => str "integer literal"
  | .LitFloat => str "float literal"
  | .LitString => str "string literal"
  | .Identifier => str "identifier"
  | .KwAnd => str "AND"
  | .KwAs => str "AS"
  | .KwCreate => str "CREATE"
  | .KwDefault => str "DEFAULT"
  | .KwExists => str "EXISTS"
  | .KwFalse => str "FALSE"
  | .KwFrom => str "FROM"
  | .KwIf => str "IF"
  | .KwInsert => str "INSERT"
  | .KwInto => str "INTO"
  | .KwKey => str "KEY"
  | .KwNot => str "NOT"
  | .KwNull => str "NULL"
  | .KwOr => str "OR"
  | .KwPrimary => str "PRIMARY"
  | .KwSelect => str "SELECT"
  | .KwTable => str "TABLE"
  | .KwTrue => str "TRUE"
  | .KwUnique => str "UNIQUE"
  | .KwValues => str "VALUES"
  | .KwWhere => str "WHERE"
  | .LParen => str "("
  | .RParen => str ")"
  | .Comma => str ","
  | .Semicolon => str ";"
  | .Star => str "*"
  | .Dot => str "."
  | .Eq => str "="
  | .Neq => str "<>"
  | .Lt => str "<"
  | .Le => str "<="
  | .Gt => str ">"
  | .Ge => str ">="
  | .Eof => str "<EOF>"
  | .Unknown => str "<unknown>"

structure Token where
  kind : TokenKind := .Unknown
  text : Bytes := []
  line : Nat := 1
  col : Nat := 1
  deriving DecidableEq, Repr

/-! ## Characters and keywords -/

def to_lower (b : UInt8) : UInt8 :=
  if chr 'A' ≤ b ∧ b ≤ chr 'Z' then b + (chr 'a' - chr 'A') else b

/-- `isalpha` of the C locale. -/
def is_alpha (b : UInt8) : Bool :=
  decide ((chr 'A' ≤ b ∧ b ≤ chr 'Z') ∨ (chr 'a' ≤ b ∧ b ≤ chr 'z'))

def is_ident_start (b : UInt8) : Bool := is_alpha b || b == chr '_'

def is_ident_char (b : UInt8) : Bool := is_alpha b || dec.is_digit b || b == chr '_'

def is_blank (b : UInt8) : Bool :=
  b == chr ' ' || b == chr '\t' || b == chr '\r' || b == chr '\n'

def KEYWORDS : List (Bytes × TokenKind) := [
  (str "and", .KwAnd),
  (str "as", .KwAs),
  (str "create", .KwCreate),
  (str "default", .KwDefault),
  (str "exists", .KwExists),
  (str "false", .KwFalse),
  (str "from", .KwFrom),
  (str "if", .KwIf),
  (str "insert", .KwInsert),
  (str "into", .KwInto),
  (str "key", .KwKey),
  (str "not", .KwNot),
  (str "null", .KwNull),
  (str "or", .KwOr),
  (str "primary", .KwPrimary),
  (str "select", .KwSelect),
  (str "table", .KwTable),
  (str "true", .KwTrue),
  (str "unique", .KwUnique),
  (str "values", .KwValues),
  (str "where", .KwWhere)]

def match_keyword (lower_text : Bytes) : TokenKind :=
  match KEYWORDS.find? fun entry => entry.1 == lower_text with
  | some (_, kind) => kind
  | none => .Identifier

def max_kw_len : Nat := 64

/-! ## The lexer -/

/-- `rest` is the source text from `pos` on, and `peek_tok` is there when
`has_peek` is set. -/
structure Lexer where
  rest : Bytes
  line : Nat := 1
  col : Nat := 1
  peek_tok : Option Token := none
  deriving DecidableEq, Repr

namespace Lexer

/-- The next byte is `b`. -/
def at_byte (lex : Lexer) (b : UInt8) : Bool := lex.rest.head? == some b

def advance (lex : Lexer) : Lexer :=
  if lex.at_byte (chr '\n') then
    { lex with rest := lex.rest.tail, line := (lex.line + 1) % 2 ^ 32, col := 1 }
  else { lex with rest := lex.rest.tail, col := (lex.col + 1) % 2 ^ 32 }

/-- An `advance` for each byte of `text`, which comes next. -/
def advance_over (text : Bytes) (lex : Lexer) : Lexer := text.foldl (fun lex _ => lex.advance) lex

def advance_while (p : UInt8 → Bool) (lex : Lexer) : Lexer :=
  lex.advance_over (lex.rest.takeWhile p)

/-- A token that was begun at `start` and ends before `lex`. -/
def make_tok (kind : TokenKind) (start lex : Lexer) : Token where
  kind := kind
  text := start.rest.take (start.rest.length - lex.rest.length)
  line := start.line
  col := start.col

/-! ### Blanks and comments -/

def skip_line_comment (lex : Lexer) : Lexer := lex.advance_while fun b => b != chr '\n'

/-- A block comment from its opening mark on, with the closing mark if there is
one. -/
def block_comment_body : Bytes → Bytes
  | [] => []
  | b :: rest =>
    if b = chr '*' ∧ rest.head? = some (chr '/') then [b, chr '/']
    else b :: block_comment_body rest

def skip_block_comment (lex : Lexer) : Lexer :=
  let lex := lex.advance.advance
  lex.advance_over (block_comment_body lex.rest)

/-- The loop of `skip_whitespace_and_comments`, for at most so many rounds. -/
def skip_loop : Nat → Lexer → Lexer
  | 0, lex => lex
  | rounds + 1, lex =>
    match lex.rest with
    | [] => lex
    | c :: rest =>
      if is_blank c then skip_loop rounds lex.advance
      else if c = chr '-' ∧ rest.head? = some (chr '-') then
        skip_loop rounds lex.skip_line_comment
      else if c = chr '/' ∧ rest.head? = some (chr '*') then
        skip_loop rounds lex.skip_block_comment
      else lex

/-- Every round passes over a byte. -/
def skip_whitespace_and_comments (lex : Lexer) : Lexer := skip_loop lex.rest.length lex

/-! ### Tokens of more than one byte -/

def scan_ident_or_kw (start lex : Lexer) : Token × Lexer :=
  let lex := lex.advance_while is_ident_char
  let token := make_tok .Identifier start lex
  ({ token with kind := match_keyword ((token.text.take max_kw_len).map to_lower) }, lex)

/-- A point has to be followed by a digit, but an exponent need not have one. -/
def scan_number (start lex : Lexer) : Token × Lexer :=
  let lex := lex.advance_while dec.is_digit
  let fraction := lex.at_byte (chr '.') && lex.rest.tail.head?.any dec.is_digit
  let lex := if fraction then lex.advance.advance_while dec.is_digit else lex
  let exponent := lex.at_byte (chr 'e') || lex.at_byte (chr 'E')
  let lex :=
    if exponent then
      let lex := lex.advance
      let lex := if lex.at_byte (chr '+') || lex.at_byte (chr '-') then lex.advance else lex
      lex.advance_while dec.is_digit
    else lex
  (make_tok (if fraction || exponent then .LitFloat else .LitInteger) start lex, lex)

/-- A string after its opening quote, with the closing quote if there is one.
Two quotes stand for one and do not close it. -/
def string_body : Bytes → Bytes
  | [] => []
  | [b] => [b]
  | b :: c :: rest =>
    if b = chr '\'' then
      if c = chr '\'' then b :: c :: string_body rest else [b]
    else b :: string_body (c :: rest)

def scan_string (start lex : Lexer) : Token × Lexer :=
  let lex := lex.advance_over (string_body lex.rest)
  (make_tok .LitString start lex, lex)

/-! ### One token -/

/-- A token of the bytes that are passed over so far. -/
def emit (kind : TokenKind) (start lex : Lexer) : Token × Lexer := (make_tok kind start lex, lex)

def scan_one (lex : Lexer) : Token × Lexer :=
  let start := lex.skip_whitespace_and_comments
  match start.rest with
  | [] => ({ kind := .Eof, text := [], line := start.line, col := start.col }, start)
  | c :: _ =>
    let lex := start.advance
    if c = chr '(' then emit .LParen start lex
    else if c = chr ')' then emit .RParen start lex
    else if c = chr ',' then emit .Comma start lex
    else if c = chr ';' then emit .Semicolon start lex
    else if c = chr '*' then emit .Star start lex
    else if c = chr '.' then emit .Dot start lex
    else if c = chr '=' then emit .Eq start lex
    else if c = chr '<' then
      if lex.at_byte (chr '=') then emit .Le start lex.advance
      else if lex.at_byte (chr '>') then emit .Neq start lex.advance
      else emit .Lt start lex
    else if c = chr '>' then
      if lex.at_byte (chr '=') then emit .Ge start lex.advance else emit .Gt start lex
    else if c = chr '\'' then scan_string start lex
    else if is_ident_start c then scan_ident_or_kw start lex
    else if dec.is_digit c then scan_number start lex
    else emit .Unknown start lex

def next (lex : Lexer) : Token × Lexer :=
  match lex.peek_tok with
  | some token => (token, { lex with peek_tok := none })
  | none => scan_one lex

def peek (lex : Lexer) : Token × Lexer :=
  match lex.peek_tok with
  | some token => (token, lex)
  | none =>
    let (token, lex) := scan_one lex
    (token, { lex with peek_tok := some token })

end Lexer

end edb
