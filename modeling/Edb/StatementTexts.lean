-- Statements written out as SQL and parsed again. The two halves meet at the
-- words of a statement, which are its tokens without their places: the lexer
-- cuts the text into these words, and the grammar derives the statement from
-- them.
import Edb.LiteralTexts
import Edb.ParserStmts

namespace edb

open Grammar

/-! ## Words -/

/-- A token without its place. -/
structure Word where
  kind : TokenKind
  text : Bytes
  deriving DecidableEq, Repr

def Token.word (t : Token) : Word := ⟨t.kind, t.text⟩

namespace Word

/-- A keyword or a mark. -/
def fixed (kind : TokenKind) : Word := ⟨kind, token_kind_name kind⟩

def ident (text : Bytes) : Word := ⟨.Identifier, text⟩

def integer (n : Nat) : Word := ⟨.LitInteger, dec.text n⟩

def string (s : Bytes) : Word := ⟨.LitString, Lexer.quoted s⟩

/-- Lists of words with commas between them. -/
def separated : List (List Word) → List Word
  | [] => []
  | [ws] => ws
  | ws :: rest => ws ++ fixed .Comma :: separated rest

def parenthesised (ws : List Word) : List Word := fixed .LParen :: (ws ++ [fixed .RParen])

/-- The words with single blanks between them. -/
def spell : List Word → Bytes
  | [] => []
  | [w] => w.text
  | w :: rest => w.text ++ chr ' ' :: spell rest

end Word

open Word

/-! ## Statements as words -/

def Literal.word : Literal → Word
  | .IntLiteral value => integer value.toNat
  | .FloatLiteral value => ⟨.LitFloat, binary64.to_text value⟩
  | .StrLiteral value => string value
  | .NullLiteral => fixed .KwNull
  | .BoolLiteral value => fixed (if value then .KwTrue else .KwFalse)

def BinaryOp.kind : BinaryOp → TokenKind
  | .Eq => .Eq
  | .Neq => .Neq
  | .Lt => .Lt
  | .Le => .Le
  | .Gt => .Gt
  | .Ge => .Ge
  | .And => .KwAnd
  | .Or => .KwOr

/-- Every binary expression is in parentheses. -/
def Expr.words : Expr → List Word
  | .literal value => [value.word]
  | .column_ref column => [ident column]
  | .binary op left right => parenthesised (left.words ++ fixed op.kind :: right.words)

def TypeName.words (type : TypeName) : List Word :=
  ident type.name :: match type.param with
    | none => []
    | some param => parenthesised [integer param]

/-- The constraints that say what the column is. -/
def ColumnDef.constraints (col : ColumnDef) : List Constraint :=
  (if col.not_null then [.not_null] else []) ++ (if col.primary_key then [.primary_key] else []) ++
    (if col.unique_constraint then [.unique] else [])

def ColumnDef.words (col : ColumnDef) : List Word :=
  ident col.name :: (col.type.words ++ col.constraints.flatMap fun c => c.kinds.map fixed)

def CreateTableStmt.words (stmt : CreateTableStmt) : List Word :=
  fixed .KwCreate :: fixed .KwTable ::
    ((if stmt.if_not_exists then [fixed .KwIf, fixed .KwNot, fixed .KwExists] else []) ++
      ident stmt.table_name :: parenthesised (separated (stmt.columns.map ColumnDef.words)))

def InsertStmt.words (stmt : InsertStmt) : List Word :=
  fixed .KwInsert :: fixed .KwInto :: ident stmt.table_name ::
    ((if stmt.column_names = [] then []
      else parenthesised (separated (stmt.column_names.map fun column => [ident column]))) ++
      fixed .KwValues :: separated (stmt.rows.map fun row =>
        parenthesised (separated (row.map Expr.words))))

def SelectItem.words : SelectItem → List Word
  | .StarItem => [fixed .Star]
  | .ExprItem expr none => expr.words
  | .ExprItem expr (some alias_) => expr.words ++ [fixed .KwAs, ident alias_]

def SelectStmt.words (stmt : SelectStmt) : List Word :=
  fixed .KwSelect :: (separated (stmt.items.map SelectItem.words) ++
    fixed .KwFrom :: ident stmt.table_name :: match stmt.where_ with
      | none => []
      | some expr => fixed .KwWhere :: expr.words)

def Stmt.words : Stmt → List Word
  | .create_table stmt => stmt.words
  | .insert stmt => stmt.words
  | .select stmt => stmt.words

/-- Statements with single semicolons between them. -/
def render : List Stmt → Bytes
  | [] => []
  | [stmt] => spell stmt.words
  | stmt :: rest => spell stmt.words ++ chr ';' :: render rest

example : render [.select ⟨[.StarItem], str "t", none⟩, .insert ⟨str "t", [], [[.literal (.IntLiteral 7)]]⟩] =
    str "SELECT * FROM t;INSERT INTO t VALUES ( 7 )" := by decide

/-! ## What can be written -/

/-- A letter or an underscore, then letters, digits and underscores. -/
def is_word : Bytes → Bool
  | [] => false
  | c :: cs => is_ident_start c && cs.all is_ident_char

/-- A word that is not a keyword, whatever the case of its letters. -/
def is_name (text : Bytes) : Bool :=
  is_word text && decide (text.map to_lower ∉ KEYWORDS.map Prod.fst)

def Literal.Writable : Literal → Prop
  | .IntLiteral value => 0 ≤ value ∧ value < 2 ^ 63
  | .FloatLiteral _ => False
  | _ => True

def Expr.Writable : Expr → Prop
  | .literal value => value.Writable
  | .column_ref column => is_name column = true
  | .binary _ left right => left.Writable ∧ right.Writable

structure TypeName.Writable (type : TypeName) : Prop where
  name : is_name type.name = true
  param : ∀ param ∈ type.param, param < 2 ^ 32

structure ColumnDef.Writable (col : ColumnDef) : Prop where
  name : is_name col.name = true
  type : col.type.Writable
  key : col.primary_key = true → col.not_null = true

structure CreateTableStmt.Writable (stmt : CreateTableStmt) : Prop where
  table_name : is_name stmt.table_name = true
  some_column : stmt.columns ≠ []
  columns : ∀ col ∈ stmt.columns, col.Writable

structure InsertStmt.Writable (stmt : InsertStmt) : Prop where
  table_name : is_name stmt.table_name = true
  column_names : ∀ column ∈ stmt.column_names, is_name column = true
  some_row : stmt.rows ≠ []
  rows : ∀ row ∈ stmt.rows, ∀ expr ∈ row, expr.Writable

def SelectItem.Writable : SelectItem → Prop
  | .StarItem => True
  | .ExprItem expr alias_ => expr.Writable ∧ ∀ column ∈ alias_, is_name column = true

structure SelectStmt.Writable (stmt : SelectStmt) : Prop where
  some_item : stmt.items ≠ []
  items : ∀ item ∈ stmt.items, item.Writable
  table_name : is_name stmt.table_name = true
  where_ : ∀ expr ∈ stmt.where_, expr.Writable

def Stmt.Writable : Stmt → Prop
  | .create_table stmt => stmt.Writable
  | .insert stmt => stmt.Writable
  | .select stmt => stmt.Writable

/-! ## The words are derived -/

/-- The tokens have these words. -/
def Spells (ts : List Token) (ws : List Word) : Prop := ts.map Token.word = ws

namespace Spells

variable {ts : List Token} {w : Word} {ws vs : List Word}

theorem of_append (h : Spells ts (ws ++ vs)) :
    ∃ us rest, ts = us ++ rest ∧ Spells us ws ∧ Spells rest vs := by
  obtain ⟨us, rest, rfl, h1, h2⟩ := List.map_eq_append_iff.mp h
  exact ⟨us, rest, rfl, h1, h2⟩

theorem of_cons (h : Spells ts (w :: ws)) :
    ∃ t rest, ts = t :: rest ∧ t.kind = w.kind ∧ t.text = w.text ∧ Spells rest ws := by
  obtain ⟨t, rest, rfl, rfl, hrest⟩ := List.map_eq_cons_iff.mp h
  exact ⟨t, rest, rfl, rfl, rfl, hrest⟩

theorem of_nil (h : Spells ts []) : ts = [] := List.map_eq_nil_iff.mp h

theorem of_one (h : Spells ts [w]) : ∃ t, ts = [t] ∧ t.kind = w.kind ∧ t.text = w.text := by
  obtain ⟨t, rest, rfl, hkind, htext, hrest⟩ := h.of_cons
  rw [hrest.of_nil]
  exact ⟨t, rfl, hkind, htext⟩

/-- A pair of parentheses around the rest. -/
theorem of_parenthesised (h : Spells ts (parenthesised ws)) : ∃ lp inside rp,
    ts = lp :: (inside ++ [rp]) ∧ lp.kind = .LParen ∧ Spells inside ws ∧ rp.kind = .RParen := by
  obtain ⟨lp, rest, rfl, hlp, -, hrest⟩ := h.of_cons
  obtain ⟨inside, close, rfl, hinside, hclose⟩ := hrest.of_append
  obtain ⟨rp, rfl, hrp, -⟩ := hclose.of_one
  exact ⟨lp, inside, rp, rfl, hlp, hinside, hrp⟩

end Spells

theorem literal_of_word {value : Literal} (h : value.Writable) {t : Token}
    (hkind : t.kind = value.word.kind) (htext : t.text = value.word.text) :
    t.literal = some value := by
  refine Denotes.literal ?_
  cases value with
  | IntLiteral value =>
    have htext : t.text = dec.text value.toNat := htext
    have hvalue : (dec.value t.text : Int) = value := by
      rw [htext, dec.value_text]
      exact Int.toNat_of_nonneg h.1
    have hdenotes : Denotes t (.IntLiteral (dec.value t.text)) := by
      refine .integer hkind ?_ ?_ ?_
      · rw [htext]
        exact dec.text_ne_nil _
      · rw [htext]
        exact fun b hb => dec.is_digit_of_mem_text hb
      · have hlt := h.2
        omega
    rwa [hvalue] at hdenotes
  | FloatLiteral value => exact h.elim
  | StrLiteral value => exact .string hkind htext
  | NullLiteral => exact .null hkind
  | BoolLiteral value =>
    cases value with
    | true => exact .true_ hkind
    | false => exact .false_ hkind

/-- An expression is derived as a primary one, since it is in parentheses where
it is binary. -/
theorem derives_primary {e : Expr} (h : e.Writable) {ts : List Token} (hts : Spells ts e.words) :
    Derives parser_rules .primary ts e := by
  induction e generalizing ts with
  | literal value =>
    obtain ⟨t, rfl, hkind, htext⟩ := hts.of_one
    exact .literal (literal_of_word h hkind htext)
  | column_ref column =>
    obtain ⟨t, rfl, hkind, htext⟩ := hts.of_one
    have hcolumn : Derives parser_rules .primary [t] (.column_ref t.text) := .column hkind
    rwa [htext] at hcolumn
  | binary op left right ihl ihr =>
    obtain ⟨lp, inside, rp, rfl, hlp, hinside, hrp⟩ := hts.of_parenthesised
    obtain ⟨us, rest, rfl, hus, hrest⟩ := hinside.of_append
    obtain ⟨t, vs, rfl, hkind, -, hvs⟩ := hrest.of_cons
    have hl := ihl h.1 hus
    have hr := ihr h.2 hvs
    refine .parens hlp ?_ hrp
    have hcompared : ∀ {op}, comparison t.kind = some op →
        Derives parser_rules .or_expr (us ++ t :: vs) (.binary op left right) :=
      fun hop => .operand .or_ (.operand .and_ (.compared hl hop hr))
    cases op with
    | And => exact .operand .or_ (.joined .and_ (.operand .and_ (.alone hl)) hkind (.alone hr))
    | Or =>
      exact .joined .or_ (.operand .or_ (.operand .and_ (.alone hl))) hkind
        (.operand .and_ (.alone hr))
    | _ => exact hcompared (by rw [hkind]; rfl)

theorem derives_expr {e : Expr} (h : e.Writable) {ts : List Token} (hts : Spells ts e.words) :
    Derives parser_rules .or_expr ts e :=
  .operand .or_ (.operand .and_ (.alone (derives_primary h hts)))

/-! ### Lists -/

section

variable {α : Type} {element : List Token → α → Prop} {words : α → List Word}

theorem separated_of_spells : ∀ {xs : List α} {ts : List Token},
    (∀ x ∈ xs, ∀ us, Spells us (words x) → element us x) → xs ≠ [] →
    Spells ts (separated (xs.map words)) → Separated element ts xs
  | [], _, _, hne, _ => absurd rfl hne
  | [x], ts, helement, _, hts => .one (helement x (by simp) ts hts)
  | x :: y :: rest, ts, helement, _, hts => by
    obtain ⟨us, more, rfl, hus, hmore⟩ := hts.of_append
    obtain ⟨comma, vs, rfl, hcomma, -, hvs⟩ := hmore.of_cons
    refine .more (helement x (by simp) us hus) hcomma ?_
    exact separated_of_spells (fun z hz => helement z (List.mem_cons_of_mem _ hz)) (by simp) hvs

/-- A list in parentheses may be empty. -/
theorem listed_of_spells {xs : List α} {ts : List Token}
    (helement : ∀ x ∈ xs, ∀ us, Spells us (words x) → element us x)
    (hts : Spells ts (separated (xs.map words))) : Listed element parser_rules.loose ts xs := by
  rcases xs with _ | ⟨x, xs⟩
  · rw [hts.of_nil]
    exact .empty rfl
  · exact .separated (separated_of_spells helement (by simp) hts)

end

/-! ### CREATE TABLE -/

theorem typeOf_spells {type : TypeName} (h : type.Writable) {ts : List Token}
    (hts : Spells ts type.words) : TypeOf ts type := by
  obtain ⟨type_name, param⟩ := type
  obtain ⟨t, rest, rfl, hkind, htext, hrest⟩ := hts.of_cons
  have htext : t.text = type_name := htext
  subst htext
  cases param with
  | none =>
    rw [hrest.of_nil]
    exact .plain hkind
  | some param =>
    obtain ⟨lp, inside, rp, rfl, hlp, hinside, hrp⟩ := hrest.of_parenthesised
    obtain ⟨n, rfl, hn, hdigits⟩ := hinside.of_one
    refine .param hkind hlp hn ?_ hrp
    have hvalue : dec.value (dec.text param) < 2 ^ 32 := by
      rw [dec.value_text]
      exact h.param param rfl
    have hds : Lexer.Digits (dec.text param) := fun b hb => dec.is_digit_of_mem_text hb
    have hdigits : n.text = dec.text param := hdigits
    rw [hdigits, from_chars_nat_digits (dec.text_ne_nil _) hds, if_pos hvalue, dec.value_text]

theorem constraintsOf_spells {cs : List Constraint} {ts : List Token}
    (hts : Spells ts (cs.flatMap fun c => c.kinds.map fixed)) : ConstraintsOf ts cs := by
  induction cs generalizing ts with
  | nil =>
    rw [hts.of_nil]
    exact .nil
  | cons c cs ih =>
    obtain ⟨us, rest, rfl, hus, hrest⟩ := hts.of_append
    refine .cons ?_ (ih hrest)
    have hkinds := congrArg (List.map Word.kind) hus
    rw [List.map_map, List.map_map] at hkinds
    refine hkinds.trans ?_
    exact List.map_id _

theorem foldl_constraints {col : ColumnDef} (h : col.primary_key = true → col.not_null = true) :
    col.constraints.foldl (fun col c => c.apply col) { name := col.name, type := col.type } = col := by
  obtain ⟨col_name, type, not_null, primary_key, unique_constraint⟩ := col
  cases not_null <;> cases primary_key <;> cases unique_constraint <;>
    first | rfl | exact absurd (h rfl) Bool.false_ne_true

theorem columnOf_spells {col : ColumnDef} (h : col.Writable) {ts : List Token}
    (hts : Spells ts col.words) : ColumnOf ts col := by
  obtain ⟨t, rest, rfl, hkind, htext, hrest⟩ := hts.of_cons
  obtain ⟨us, vs, rfl, hus, hvs⟩ := hrest.of_append
  have hcol := ColumnOf.mk hkind (typeOf_spells h.type hus) (constraintsOf_spells hvs)
  have htext : t.text = col.name := htext
  rwa [htext, foldl_constraints h.key] at hcol

theorem createOf_spells {stmt : CreateTableStmt} (h : stmt.Writable) {ts : List Token}
    (hts : Spells ts stmt.words) : CreateOf parser_rules ts stmt := by
  obtain ⟨table_name, columns, if_not_exists⟩ := stmt
  obtain ⟨create, rest, rfl, hcreate, -, hrest⟩ := hts.of_cons
  obtain ⟨table, rest, rfl, htable, -, hrest⟩ := hrest.of_cons
  obtain ⟨guard_tokens, rest, rfl, hguard, hrest⟩ := hrest.of_append
  obtain ⟨t, rest, rfl, hname, htext, hrest⟩ := hrest.of_cons
  obtain ⟨lp, inside, rp, rfl, hlp, hinside, hrp⟩ := hrest.of_parenthesised
  have htext : t.text = table_name := htext
  subst htext
  have hguard : GuardOf guard_tokens if_not_exists := by
    cases if_not_exists with
    | false =>
      rw [Spells.of_nil hguard]
      exact .absent
    | true =>
      have hkinds := congrArg (List.map Word.kind) hguard
      rw [List.map_map] at hkinds
      exact .present hkinds
  have hcolumns := listed_of_spells (fun col hcol us => columnOf_spells (h.columns col hcol)) hinside
  exact .mk hcreate htable hguard hname hlp hcolumns hrp

/-! ### INSERT -/

theorem nameOf_spells {column : Bytes} {ts : List Token} (hts : Spells ts [ident column]) :
    NameOf ts column := by
  obtain ⟨t, rfl, hkind, htext⟩ := hts.of_one
  have htext : t.text = column := htext
  subst htext
  exact .mk hkind

theorem rowOf_spells {row : List Expr} (h : ∀ expr ∈ row, expr.Writable) {ts : List Token}
    (hts : Spells ts (parenthesised (separated (row.map Expr.words)))) :
    RowOf parser_rules ts row := by
  obtain ⟨lp, inside, rp, rfl, hlp, hinside, hrp⟩ := hts.of_parenthesised
  exact .mk hlp (listed_of_spells (fun expr hexpr us => derives_expr (h expr hexpr)) hinside) hrp

theorem insertOf_spells {stmt : InsertStmt} (h : stmt.Writable) {ts : List Token}
    (hts : Spells ts stmt.words) : InsertOf parser_rules ts stmt := by
  obtain ⟨table_name, column_names, rows⟩ := stmt
  obtain ⟨insert, rest, rfl, hinsert, -, hrest⟩ := hts.of_cons
  obtain ⟨into, rest, rfl, hinto, -, hrest⟩ := hrest.of_cons
  obtain ⟨t, rest, rfl, hname, htext, hrest⟩ := hrest.of_cons
  obtain ⟨targets, rest, rfl, htargets, hrest⟩ := hrest.of_append
  obtain ⟨values, rest, rfl, hvalues, -, hrest⟩ := hrest.of_cons
  have htext : t.text = table_name := htext
  subst htext
  have htargets : TargetsOf parser_rules targets column_names := by
    by_cases hnone : column_names = []
    · dsimp only at htargets
      rw [if_pos hnone] at htargets
      rw [htargets.of_nil, hnone]
      exact .absent
    · dsimp only at htargets
      rw [if_neg hnone] at htargets
      obtain ⟨lp, inside, rp, rfl, hlp, hinside, hrp⟩ := htargets.of_parenthesised
      exact .present hlp (listed_of_spells (fun column _ us => nameOf_spells) hinside) hrp
  refine .mk hinsert hinto hname htargets hvalues ?_
  exact separated_of_spells (fun row hrow us => rowOf_spells (h.rows row hrow)) h.some_row hrest

/-! ### SELECT -/

theorem itemOf_spells {item : SelectItem} (h : item.Writable) {ts : List Token}
    (hts : Spells ts item.words) : ItemOf parser_rules ts item := by
  match item, h with
  | .StarItem, _ =>
    obtain ⟨t, rfl, hkind, -⟩ := hts.of_one
    exact .star hkind
  | .ExprItem expr none, h =>
    have hitem := ItemOf.expr (derives_expr h.1 hts) .absent
    rwa [List.append_nil] at hitem
  | .ExprItem expr (some alias_), h =>
    obtain ⟨us, rest, rfl, hus, hrest⟩ := hts.of_append
    obtain ⟨as, rest, rfl, has, -, hrest⟩ := hrest.of_cons
    obtain ⟨t, rfl, hname, htext⟩ := hrest.of_one
    have htext : t.text = alias_ := htext
    subst htext
    exact .expr (derives_expr h.1 hus) (.present has hname)

theorem selectOf_spells {stmt : SelectStmt} (h : stmt.Writable) {ts : List Token}
    (hts : Spells ts stmt.words) : SelectOf parser_rules ts stmt := by
  obtain ⟨items, table_name, where_⟩ := stmt
  obtain ⟨select, rest, rfl, hselect, -, hrest⟩ := hts.of_cons
  obtain ⟨us, rest, rfl, hus, hrest⟩ := hrest.of_append
  obtain ⟨kw, rest, rfl, hkw, -, hrest⟩ := hrest.of_cons
  obtain ⟨t, rest, rfl, hname, htext, hrest⟩ := hrest.of_cons
  have htext : t.text = table_name := htext
  subst htext
  have hitems : Separated (ItemOf parser_rules) us items :=
    separated_of_spells (fun item hitem us => itemOf_spells (h.items item hitem)) h.some_item hus
  refine .mk hselect hitems hkw hname ?_
  cases where_ with
  | none =>
    rw [Spells.of_nil hrest]
    exact .absent
  | some expr =>
    obtain ⟨kw, rest, rfl, hkw, -, hrest⟩ := Spells.of_cons hrest
    exact .present hkw (derives_expr (h.where_ expr rfl) hrest)

theorem stmtOf_spells {stmt : Stmt} (h : stmt.Writable) {ts : List Token}
    (hts : Spells ts stmt.words) : StmtOf parser_rules ts stmt := by
  cases stmt with
  | create_table stmt => exact .create_table (createOf_spells h hts)
  | insert stmt => exact .insert (insertOf_spells h hts)
  | select stmt => exact .select (selectOf_spells h hts)

/-! ## The text is cut into the words -/

/-- What comes after a word: a blank, a semicolon or nothing. -/
def Cuts (rest : Bytes) : Prop := ∀ b ∈ rest.head?, b = chr ' ' ∨ b = chr ';'

/-- The lexer takes the word off the text. -/
def Word.Solid (w : Word) : Prop := ∀ rest, Cuts rest → Lexer.Lexeme true w.kind w.text rest

theorem cuts_of_class {p : UInt8 → Bool} {rest : Bytes} (h : Cuts rest)
    (hp : p (chr ' ') = false ∧ p (chr ';') = false) : ∀ b ∈ rest.head?, p b = false := by
  intro b hb
  rcases h b hb with rfl | rfl
  · exact hp.1
  · exact hp.2

theorem lexeme_of_word {text : Bytes} {kind : TokenKind} (hword : is_word text = true)
    (hkind : match_keyword ((text.take max_kw_len).map to_lower) = kind) {rest : Bytes}
    (hrest : Cuts rest) : Lexer.Lexeme true kind text rest := by
  subst hkind
  cases text with
  | nil => cases hword
  | cons c cs =>
    unfold is_word at hword
    rw [Bool.and_eq_true, List.all_eq_true] at hword
    exact .word hword.1 hword.2 (cuts_of_class hrest (by decide))

/-- A name that is longer than every keyword is still none when it is cut. -/
theorem match_keyword_name {text : Bytes} (h : is_name text = true) :
    match_keyword ((text.take max_kw_len).map to_lower) = .Identifier := by
  unfold is_name at h
  rw [Bool.and_eq_true, decide_eq_true_eq] at h
  have hkeywords : ∀ entry ∈ KEYWORDS, entry.1.length < max_kw_len := by decide
  have hnone : KEYWORDS.find? (fun entry => entry.1 == (text.take max_kw_len).map to_lower) =
      none := by
    refine List.find?_eq_none.mpr fun entry hentry hsame => ?_
    have hsame : entry.1 = (text.take max_kw_len).map to_lower := by simpa using hsame
    have hlen := hkeywords entry hentry
    rw [hsame, List.length_map, List.length_take] at hlen
    rw [List.take_of_length_le (by omega)] at hsame
    exact h.2 (List.mem_map.mpr ⟨entry, hentry, hsame⟩)
  unfold match_keyword
  rw [hnone]

/-- A text that is a keyword in lower case is one for the lexer. -/
theorem match_keyword_ne {text : Bytes} (h : text.map to_lower ∈ KEYWORDS.map Prod.fst) :
    match_keyword ((text.take max_kw_len).map to_lower) ≠ .Identifier := by
  have hkeywords : ∀ entry ∈ KEYWORDS, entry.1.length < max_kw_len ∧ entry.2 ≠ .Identifier := by
    decide
  obtain ⟨keyword, hkeyword, hsame⟩ := List.mem_map.mp h
  have hlen := (hkeywords keyword hkeyword).1
  rw [hsame, List.length_map] at hlen
  rw [List.take_of_length_le (by omega)]
  unfold match_keyword
  cases hfind : KEYWORDS.find? fun entry => entry.1 == text.map to_lower with
  | none => exact absurd (by simpa using hsame) (List.find?_eq_none.mp hfind keyword hkeyword)
  | some entry => exact (hkeywords entry (List.mem_of_find?_eq_some hfind)).2

/-- The lexer gives no other text as an identifier. -/
theorem is_name_of_lexeme {lax : Bool} {text rest : Bytes}
    (h : Lexer.Lexeme lax .Identifier text rest) : is_name text = true := by
  generalize hkind : TokenKind.Identifier = kind at h
  cases h with
  | mark hsingle _ =>
    obtain ⟨entry, hentry, rfl⟩ := Option.map_eq_some_iff.mp hsingle
    have hmarks : ∀ entry ∈ Lexer.MARKS, TokenKind.Identifier ≠ entry.2 := by decide
    exact absurd hkind (hmarks entry (List.mem_of_find?_eq_some hentry))
  | double_mark hpair =>
    unfold Lexer.pair at hpair
    split_ifs at hpair <;> cases hpair <;> cases hkind
  | string _ => cases hkind
  | open_string _ => cases hkind
  | @word c cs _ hc hcs _ =>
    have hword : is_word (c :: cs) = true := by simp [is_word, hc, List.all_eq_true.mpr hcs]
    have hfree : (c :: cs).map to_lower ∉ KEYWORDS.map Prod.fst :=
      fun hin => match_keyword_ne hin hkind.symm
    unfold is_name
    rw [hword, decide_eq_true hfree, Bool.and_self]
  | number _ _ _ _ _ => split at hkind <;> cases hkind
  | unknown _ _ _ _ _ => cases hkind

theorem ident_solid {text : Bytes} (h : is_name text = true) : (ident text).Solid := by
  intro rest hrest
  have hword : is_word text = true := by
    unfold is_name at h
    rw [Bool.and_eq_true] at h
    exact h.1
  exact lexeme_of_word hword (match_keyword_name h) hrest

theorem integer_solid (n : Nat) : (integer n).Solid := by
  intro rest hrest
  have hdigits : Lexer.Digits (dec.text n) := fun b hb => dec.is_digit_of_mem_text hb
  show Lexer.Lexeme true .LitInteger (dec.text n) rest
  rcases htext : dec.text n with _ | ⟨c, whole⟩
  · exact absurd htext (dec.text_ne_nil n)
  · rw [htext] at hdigits
    have hlexeme : Lexer.Lexeme true (if ([] : Bytes) = [] ∧ ([] : Bytes) = [] then .LitInteger
        else .LitFloat) (c :: whole ++ [] ++ []) rest := by
      refine .number (hdigits c (by simp)) (fun b hb => hdigits b (by simp [hb])) ?_ ?_ ?_
      · exact cuts_of_class hrest (by decide)
      · refine .none fun d after hpoint => ?_
        rcases hrest (chr '.') (by rw [List.nil_append] at hpoint; rw [hpoint]; rfl) with h | h <;>
          exact absurd h (by decide)
      · exact .none (cuts_of_class hrest (by decide))
    simpa using hlexeme

theorem string_solid (s : Bytes) : (string s).Solid := by
  intro rest hrest
  refine .string fun hquote => ?_
  rcases hrest _ hquote with h | h <;> exact absurd h (by decide)

/-- The kinds that are always spelled alike. -/
def TokenKind.is_fixed : TokenKind → Bool
  | .LitInteger | .LitFloat | .LitString | .Identifier | .Eof | .Unknown => false
  | _ => true

theorem mark_solid {c : UInt8} {kind : TokenKind} (h : Lexer.single c = some kind)
    (hblank : Lexer.pair c (chr ' ') = none) (hsemicolon : Lexer.pair c (chr ';') = none)
    {rest : Bytes} (hrest : Cuts rest) : Lexer.Lexeme true kind [c] rest := by
  refine .mark h fun d hd => ?_
  rcases hrest d hd with rfl | rfl
  · exact hblank
  · exact hsemicolon

theorem fixed_solid {kind : TokenKind} (h : kind.is_fixed = true) : (fixed kind).Solid := by
  intro rest hrest
  cases kind with
  | LitInteger => cases h
  | LitFloat => cases h
  | LitString => cases h
  | Identifier => cases h
  | Eof => cases h
  | Unknown => cases h
  | LParen => exact mark_solid (by decide) (by decide) (by decide) hrest
  | RParen => exact mark_solid (by decide) (by decide) (by decide) hrest
  | Comma => exact mark_solid (by decide) (by decide) (by decide) hrest
  | Semicolon => exact mark_solid (by decide) (by decide) (by decide) hrest
  | Star => exact mark_solid (by decide) (by decide) (by decide) hrest
  | Dot => exact mark_solid (by decide) (by decide) (by decide) hrest
  | Eq => exact mark_solid (by decide) (by decide) (by decide) hrest
  | Lt => exact mark_solid (by decide) (by decide) (by decide) hrest
  | Gt => exact mark_solid (by decide) (by decide) (by decide) hrest
  | Neq => exact .double_mark (by decide)
  | Le => exact .double_mark (by decide)
  | Ge => exact .double_mark (by decide)
  | _ => exact lexeme_of_word (by decide) (by decide) hrest

def Solids (ws : List Word) : Prop := ∀ w ∈ ws, w.Solid

theorem solids_nil : Solids [] := fun _ h => nomatch h

theorem solids_cons {w : Word} {ws : List Word} (hw : w.Solid) (h : Solids ws) :
    Solids (w :: ws) :=
  List.forall_mem_cons.mpr ⟨hw, h⟩

theorem solids_append {ws vs : List Word} (h : Solids ws) (h' : Solids vs) : Solids (ws ++ vs) :=
  List.forall_mem_append.mpr ⟨h, h'⟩

theorem solids_parenthesised {ws : List Word} (h : Solids ws) : Solids (parenthesised ws) :=
  solids_cons (fixed_solid rfl) (solids_append h (solids_cons (fixed_solid rfl) solids_nil))

theorem solids_separated {α : Type} {words : α → List Word} : ∀ {xs : List α},
    (∀ x ∈ xs, Solids (words x)) → Solids (separated (xs.map words))
  | [], _ => solids_nil
  | [x], h => h x (by simp)
  | x :: y :: rest, h => by
    refine solids_append (h x (by simp)) (solids_cons (fixed_solid rfl) ?_)
    exact solids_separated fun z hz => h z (List.mem_cons_of_mem _ hz)

theorem Literal.word_solid {value : Literal} (h : value.Writable) : value.word.Solid := by
  cases value with
  | IntLiteral value => exact integer_solid _
  | FloatLiteral value => exact h.elim
  | StrLiteral value => exact string_solid _
  | NullLiteral => exact fixed_solid rfl
  | BoolLiteral value => cases value <;> exact fixed_solid rfl

theorem Expr.words_solid {e : Expr} (h : e.Writable) : Solids e.words := by
  induction e with
  | literal value => exact solids_cons (Literal.word_solid h) solids_nil
  | column_ref column => exact solids_cons (ident_solid h) solids_nil
  | binary op left right ihl ihr =>
    refine solids_parenthesised (solids_append (ihl h.1) (solids_cons (fixed_solid ?_) (ihr h.2)))
    cases op <;> rfl

theorem ColumnDef.words_solid {col : ColumnDef} (h : col.Writable) : Solids col.words := by
  refine solids_cons (ident_solid h.name) (solids_append ?_ ?_)
  · refine solids_cons (ident_solid h.type.name) ?_
    cases col.type.param with
    | none => exact solids_nil
    | some param => exact solids_parenthesised (solids_cons (integer_solid _) solids_nil)
  · intro w hw
    obtain ⟨c, -, hw⟩ := List.mem_flatMap.mp hw
    obtain ⟨kind, hkind, rfl⟩ := List.mem_map.mp hw
    have hfixed : ∀ kind ∈ c.kinds, kind.is_fixed = true := by cases c <;> decide
    exact fixed_solid (hfixed kind hkind)

theorem CreateTableStmt.words_solid {stmt : CreateTableStmt} (h : stmt.Writable) :
    Solids stmt.words := by
  refine solids_cons (fixed_solid rfl) (solids_cons (fixed_solid rfl) (solids_append ?_ ?_))
  · split
    · exact solids_cons (fixed_solid rfl) (solids_cons (fixed_solid rfl)
        (solids_cons (fixed_solid rfl) solids_nil))
    · exact solids_nil
  · refine solids_cons (ident_solid h.table_name) (solids_parenthesised (solids_separated ?_))
    exact fun col hcol => ColumnDef.words_solid (h.columns col hcol)

theorem InsertStmt.words_solid {stmt : InsertStmt} (h : stmt.Writable) : Solids stmt.words := by
  refine solids_cons (fixed_solid rfl) (solids_cons (fixed_solid rfl)
    (solids_cons (ident_solid h.table_name) (solids_append ?_ (solids_cons (fixed_solid rfl) ?_))))
  · split
    · exact solids_nil
    · refine solids_parenthesised (solids_separated fun column hcolumn => ?_)
      exact solids_cons (ident_solid (h.column_names column hcolumn)) solids_nil
  · refine solids_separated fun row hrow => solids_parenthesised (solids_separated ?_)
    exact fun expr hexpr => Expr.words_solid (h.rows row hrow expr hexpr)

theorem SelectItem.words_solid {item : SelectItem} (h : item.Writable) : Solids item.words := by
  match item, h with
  | .StarItem, _ => exact solids_cons (fixed_solid rfl) solids_nil
  | .ExprItem expr none, h => exact Expr.words_solid h.1
  | .ExprItem expr (some alias_), h =>
    exact solids_append (Expr.words_solid h.1) (solids_cons (fixed_solid rfl)
      (solids_cons (ident_solid (h.2 alias_ rfl)) solids_nil))

theorem SelectStmt.words_solid {stmt : SelectStmt} (h : stmt.Writable) : Solids stmt.words := by
  refine solids_cons (fixed_solid rfl) (solids_append (solids_separated fun item hitem => ?_)
    (solids_cons (fixed_solid rfl) (solids_cons (ident_solid h.table_name) ?_)))
  · exact SelectItem.words_solid (h.items item hitem)
  · have hwhere := h.where_
    cases hw : stmt.where_ with
    | none => exact solids_nil
    | some expr => exact solids_cons (fixed_solid rfl) (Expr.words_solid (hwhere expr hw))

theorem Stmt.words_solid {stmt : Stmt} (h : stmt.Writable) : Solids stmt.words := by
  cases stmt with
  | create_table stmt => exact CreateTableStmt.words_solid h
  | insert stmt => exact InsertStmt.words_solid h
  | select stmt => exact SelectStmt.words_solid h

/-! ### Layouts -/

/-- Words after blanks are tokens, and whatever follows them is laid out by itself. -/
theorem layout_spell {rest : Bytes} (hrest : Cuts rest) : ∀ {ws : List Word}, Solids ws → ws ≠ [] →
    ∀ (before gap : Bytes), (∀ b ∈ gap, is_blank b = true) → ∃ ts, Spells ts ws ∧
      ∀ us, Lexer.Layout true (before ++ gap ++ spell ws) rest us →
        Lexer.Layout true before (gap ++ (spell ws ++ rest)) (ts ++ us)
  | [], _, hne, _, _, _ => absurd rfl hne
  | [w], hws, _, before, gap, hgap => by
    refine ⟨[Token.after (before ++ gap) w.kind w.text], rfl, fun us hus => ?_⟩
    exact .token (Lexer.skipped_blanks _ hgap) (hws w (by simp) rest hrest) hus
  | w :: v :: more, hws, _, before, gap, hgap => by
    have hmore : Solids (v :: more) := fun x hx => hws x (List.mem_cons_of_mem _ hx)
    obtain ⟨ts, hts, hlayout⟩ := layout_spell hrest hmore (by simp) (before ++ gap ++ w.text)
      [chr ' '] (List.forall_mem_singleton.mpr (by decide))
    refine ⟨Token.after (before ++ gap) w.kind w.text :: ts, ?_, fun us hus => ?_⟩
    · exact congrArg (w :: ·) hts
    · have htail := hlayout us (by simpa [spell, List.append_assoc] using hus)
      have hcut : Cuts (chr ' ' :: (spell (v :: more) ++ rest)) := fun b hb => by
        cases hb
        exact .inl rfl
      have htoken := Lexer.Layout.token (Lexer.skipped_blanks _ hgap) (hws w (by simp) _ hcut) htail
      simpa [spell, List.append_assoc] using htoken

theorem Stmt.words_ne_nil (stmt : Stmt) : stmt.words ≠ [] := by
  cases stmt <;> exact List.cons_ne_nil _ _

/-- The text of statements is cut into tokens from which they are derived. -/
theorem layout_render : ∀ {stmts : List Stmt}, (∀ s ∈ stmts, s.Writable) → ∀ before,
    ∃ ts, Lexer.Layout true before (render stmts) ts ∧ ProgramOf parser_rules ts stmts
  | [], _, before => ⟨[], .done .nil, .done .absent⟩
  | [s], h, before => by
    have hs := h s (by simp)
    have hend : Cuts [] := fun _ hb => nomatch hb
    obtain ⟨ts, hts, hlayout⟩ := layout_spell hend (Stmt.words_solid hs) s.words_ne_nil before []
      (fun _ hb => nomatch hb)
    refine ⟨ts, by simpa [render] using hlayout [] (Lexer.layout_end _), ?_⟩
    have hprogram := ProgramOf.stmt .absent (stmtOf_spells hs hts) .absent
      (by simp) (.done .absent)
    simpa using hprogram
  | s :: s' :: rest, h, before => by
    have hs := h s (by simp)
    have hcut : Cuts (chr ';' :: render (s' :: rest)) := fun b hb => by
      cases hb
      exact .inr rfl
    obtain ⟨ts, hts, hlayout⟩ := layout_spell hcut (Stmt.words_solid hs) s.words_ne_nil before []
      (fun _ hb => nomatch hb)
    obtain ⟨us, hus, hprogram⟩ := layout_render (fun t ht => h t (List.mem_cons_of_mem _ ht))
      (before ++ [] ++ spell s.words ++ [] ++ [chr ';'])
    have hsemicolon : Lexer.Lexeme true .Semicolon [chr ';'] (render (s' :: rest)) :=
      .mark (by decide) fun d _ => by
        unfold Lexer.pair
        rw [if_neg (by simp [chr]), if_neg (by simp [chr]), if_neg (by simp [chr])]
    have hgap : Lexer.Skipped true [] ([chr ';'] ++ render (s' :: rest)) := .nil
    have hrest := Lexer.Layout.token hgap hsemicolon hus
    have hmark : SemicolonOf
        [Token.after (before ++ [] ++ spell s.words ++ []) .Semicolon [chr ';']] := .present rfl
    have hwhole := ProgramOf.stmt .absent (stmtOf_spells hs hts) hmark
      (fun hnil => nomatch hnil) hprogram
    exact ⟨_, hlayout _ hrest, by simpa using hwhole⟩

/-- The tokens of the text derive the statements. -/
theorem programOf_render {stmts : List Stmt} (h : ∀ s ∈ stmts, s.Writable) :
    ProgramOf parser_rules (Lexer.tokens (render stmts)) stmts := by
  obtain ⟨ts, hlayout, hprogram⟩ := layout_render h []
  rwa [Lexer.tokens_eq_of_layout hlayout]

/-- Statements that are written out, with every binary expression in
parentheses, parse to themselves. -/
theorem statement_texts_round_trip (stmts : List Stmt) (h : ∀ s ∈ stmts, s.Writable) :
    (Parser.parse.run (Parser.start (render stmts))).1 = .ok stmts :=
  Parser.parse_iff.mpr (programOf_render h)

/-- `CREATE TABLE t ( a int32 PRIMARY KEY )` and so on: one of each kind. -/
def sample_script : List Stmt := [
  .create_table ⟨str "t", [⟨str "a", ⟨str "int32", none⟩, true, true, false⟩,
    ⟨str "b", ⟨str "varchar", some 20⟩, false, false, true⟩], true⟩,
  .insert ⟨str "t", [str "a", str "b"], [[.literal (.IntLiteral 7), .literal (.StrLiteral (str "it's"))]]⟩,
  .select ⟨[.StarItem, .ExprItem (.column_ref (str "b")) (some (str "c"))], str "t",
    some (.binary .Or (.binary .Lt (.column_ref (str "a")) (.literal (.IntLiteral 9)))
      (.literal (.BoolLiteral false)))⟩]

theorem sample_script_round_trip :
    (Parser.parse.run (Parser.start (render sample_script))).1 = .ok sample_script := by
  refine statement_texts_round_trip sample_script ?_
  unfold sample_script
  rw [List.forall_mem_cons, List.forall_mem_cons, List.forall_mem_singleton]
  refine ⟨⟨by decide, by simp, ?_⟩, ⟨by decide, by decide, by simp, ?_⟩, ⟨by simp, ?_, by decide, ?_⟩⟩
  · rw [List.forall_mem_cons, List.forall_mem_singleton]
    exact ⟨⟨by decide, ⟨by decide, by simp⟩, by simp⟩, ⟨by decide, ⟨by decide, by simp⟩, by simp⟩⟩
  · simp [Expr.Writable, Literal.Writable]
  · rw [List.forall_mem_cons, List.forall_mem_singleton]
    exact ⟨trivial, by unfold Expr.Writable; decide, by decide⟩
  · rintro expr ⟨⟩
    simp only [Expr.Writable, Literal.Writable]
    decide

end edb
