-- The grammar of the SQL subset over tokens (src/query/parser.hpp), and how a
-- reader with one token of lookahead goes through an expression. What a reader
-- takes is derived by the grammar and goes as far as it can, and the reader
-- finds every such derivation.
import Edb.Parser

namespace edb

namespace Grammar

/-! ## Expressions -/

/-- The operator of a comparison. -/
def comparison : TokenKind → Option BinaryOp
  | .Eq => some .Eq
  | .Neq => some .Neq
  | .Lt => some .Lt
  | .Le => some .Le
  | .Gt => some .Gt
  | .Ge => some .Ge
  | _ => none

def LITERALS : List TokenKind := [.KwNull, .KwTrue, .KwFalse, .LitInteger, .LitFloat, .LitString]

/-- What the grammar leaves open: the literal that a token stands for, and
whether a list in parentheses may be empty or end in a comma. -/
structure Rules where
  denotes : Token → Literal → Prop
  loose : Bool
  kind_of_denotes : ∀ {t value}, denotes t value → t.kind ∈ LITERALS
  unique : ∀ {t value other}, denotes t value → denotes t other → value = other

inductive Nonterminal where
  | or_expr
  | and_expr
  | cmp_expr
  | primary
  deriving DecidableEq, Repr

/-- `or_expr ::= and_expr { OR and_expr }`, `and_expr ::= cmp_expr { AND cmp_expr }`. -/
inductive Joins : Nonterminal → TokenKind → BinaryOp → Nonterminal → Prop
  | or_ : Joins .or_expr .KwOr .Or .and_expr
  | and_ : Joins .and_expr .KwAnd .And .cmp_expr

/-- The tokens of an expression. A chain of operators is gathered from the left. -/
inductive Derives (rules : Rules) : Nonterminal → List Token → Expr → Prop
  | operand {n m : Nonterminal} {kind : TokenKind} {op : BinaryOp} {w : List Token} {e : Expr} :
      Joins n kind op m → Derives rules m w e → Derives rules n w e
  | joined {n m : Nonterminal} {kind : TokenKind} {op : BinaryOp} {left right : List Token}
      {t : Token} {l r : Expr} :
      Joins n kind op m → Derives rules n left l → t.kind = kind → Derives rules m right r →
      Derives rules n (left ++ t :: right) (.binary op l r)
  | alone {w : List Token} {e : Expr} : Derives rules .primary w e → Derives rules .cmp_expr w e
  | compared {op : BinaryOp} {left right : List Token} {t : Token} {l r : Expr} :
      Derives rules .primary left l → comparison t.kind = some op →
      Derives rules .primary right r →
      Derives rules .cmp_expr (left ++ t :: right) (.binary op l r)
  | literal {t : Token} {value : Literal} :
      rules.denotes t value → Derives rules .primary [t] (.literal value)
  | column {t : Token} :
      t.kind = .Identifier → Derives rules .primary [t] (.column_ref t.text)
  | parens {lp rp : Token} {w : List Token} {e : Expr} :
      lp.kind = .LParen → Derives rules .or_expr w e → rp.kind = .RParen →
      Derives rules .primary (lp :: (w ++ [rp])) e

variable {rules : Rules}

/-- No token of `rest` could go on with the expression `w`. -/
def Maximal (rules : Rules) (w rest : List Token) : Prop :=
  ∀ t ∈ rest.head?, ∀ more e, ¬ Derives rules .or_expr (w ++ t :: more) e

/-- The tokens that an expression starts with. -/
def STARTS : List TokenKind := .Identifier :: .LParen :: LITERALS

theorem Derives.starts {n : Nonterminal} {w : List Token} {e : Expr} (h : Derives rules n w e) :
    ∃ t v, w = t :: v ∧ t.kind ∈ STARTS := by
  induction h with
  | operand _ _ ih => exact ih
  | joined _ _ _ _ ih _ =>
    obtain ⟨t, v, rfl, ht⟩ := ih
    exact ⟨t, _, rfl, ht⟩
  | alone _ ih => exact ih
  | compared _ _ _ ih _ =>
    obtain ⟨t, v, rfl, ht⟩ := ih
    exact ⟨t, _, rfl, ht⟩
  | literal hvalue =>
    exact ⟨_, [], rfl, List.mem_cons_of_mem _ (List.mem_cons_of_mem _ (rules.kind_of_denotes hvalue))⟩
  | column hkind => exact ⟨_, [], rfl, hkind ▸ List.mem_cons_self⟩
  | parens hlp _ _ _ => exact ⟨_, _, rfl, hlp ▸ List.mem_cons_of_mem _ List.mem_cons_self⟩

/-! ## A reader with one token of lookahead -/

/-- The reader is at the start of an expression, or has read `left` of a chain. -/
inductive Stage where
  | whole (n : Nonterminal)
  | rest (n : Nonterminal) (left : Expr)

/-- From the tokens `ts` the reader takes `e` and leaves the tokens at the end. -/
inductive Reads (rules : Rules) : Stage → List Token → Expr → List Token → Prop
  | first {n m : Nonterminal} {kind : TokenKind} {op : BinaryOp} {ts mid r : List Token}
      {left e : Expr} :
      Joins n kind op m → Reads rules (.whole m) ts left mid → Reads rules (.rest n left) mid e r →
      Reads rules (.whole n) ts e r
  | more {n m : Nonterminal} {kind : TokenKind} {op : BinaryOp} {t : Token}
      {ts mid r : List Token} {left right e : Expr} :
      Joins n kind op m → t.kind = kind → Reads rules (.whole m) ts right mid →
      Reads rules (.rest n (.binary op left right)) mid e r →
      Reads rules (.rest n left) (t :: ts) e r
  | stop {n m : Nonterminal} {kind : TokenKind} {op : BinaryOp} {ts : List Token} {left : Expr} :
      Joins n kind op m → (∀ t ∈ ts.head?, t.kind ≠ kind) → Reads rules (.rest n left) ts left ts
  | alone {ts r : List Token} {e : Expr} :
      Reads rules (.whole .primary) ts e r → (∀ t ∈ r.head?, comparison t.kind = none) →
      Reads rules (.whole .cmp_expr) ts e r
  | compared {op : BinaryOp} {t : Token} {ts mid r : List Token} {left right : Expr} :
      Reads rules (.whole .primary) ts left (t :: mid) → comparison t.kind = some op →
      Reads rules (.whole .primary) mid right r →
      Reads rules (.whole .cmp_expr) ts (.binary op left right) r
  | literal {t : Token} {value : Literal} {r : List Token} :
      rules.denotes t value → Reads rules (.whole .primary) (t :: r) (.literal value) r
  | column {t : Token} {r : List Token} :
      t.kind = .Identifier → Reads rules (.whole .primary) (t :: r) (.column_ref t.text) r
  | parens {lp rp : Token} {ts r : List Token} {e : Expr} :
      lp.kind = .LParen → Reads rules (.whole .or_expr) ts e (rp :: r) → rp.kind = .RParen →
      Reads rules (.whole .primary) (lp :: ts) e r

/-- What the tokens that were read derive. -/
def Stage.Derived (rules : Rules) : Stage → List Token → Expr → Prop
  | .whole n, w, e => Derives rules n w e
  | .rest n left, w, e => ∀ front, Derives rules n front left → Derives rules n (front ++ w) e

/-- The reader is sound. -/
theorem Reads.derived {s : Stage} {ts r : List Token} {e : Expr} (h : Reads rules s ts e r) :
    ∃ w, ts = w ++ r ∧ s.Derived rules w e := by
  induction h with
  | first j _ _ ih1 ih2 =>
    obtain ⟨w1, rfl, h1⟩ := ih1
    obtain ⟨w2, rfl, h2⟩ := ih2
    exact ⟨w1 ++ w2, by simp, h2 w1 (.operand j h1)⟩
  | @more _ _ _ _ t _ _ _ _ _ _ j hkind _ _ ih1 ih2 =>
    obtain ⟨w1, rfl, h1⟩ := ih1
    obtain ⟨w2, rfl, h2⟩ := ih2
    refine ⟨t :: w1 ++ w2, by simp, fun front hfront => ?_⟩
    have h := h2 _ (.joined j hfront hkind h1)
    simpa using h
  | stop _ _ => exact ⟨[], rfl, fun front hfront => by simpa using hfront⟩
  | alone _ _ ih =>
    obtain ⟨w, rfl, h⟩ := ih
    exact ⟨w, rfl, .alone h⟩
  | compared _ hop _ ih1 ih2 =>
    obtain ⟨w1, rfl, h1⟩ := ih1
    obtain ⟨w2, rfl, h2⟩ := ih2
    exact ⟨w1 ++ _ :: w2, by simp, .compared h1 hop h2⟩
  | literal hvalue => exact ⟨[_], rfl, .literal hvalue⟩
  | column hkind => exact ⟨[_], rfl, .column hkind⟩
  | parens hlp _ hrp ih =>
    obtain ⟨w, rfl, h⟩ := ih
    exact ⟨_ :: (w ++ [_]), by simp, .parens hlp h hrp⟩

/-! ### The reader is deterministic -/

theorem Joins.ends {n m k : Nonterminal} {kind kind' : TokenKind} {op op' : BinaryOp}
    (h : Joins n kind op m) (h' : Joins n kind' op' k) : kind' = kind ∧ op' = op ∧ k = m := by
  cases h <;> cases h' <;> exact ⟨rfl, rfl, rfl⟩

theorem Reads.unique {s : Stage} {ts r : List Token} {e : Expr} (h : Reads rules s ts e r) :
    ∀ {e' : Expr} {r' : List Token}, Reads rules s ts e' r' → e' = e ∧ r' = r := by
  induction h with
  | first j _ _ ih1 ih2 =>
    intro e' r' h'
    cases h' with
    | first j' h1 h2 =>
      obtain ⟨-, -, rfl⟩ := j.ends j'
      obtain ⟨rfl, rfl⟩ := ih1 h1
      exact ih2 h2
    | alone _ _ => cases j
    | compared _ _ _ => cases j
    | literal _ => cases j
    | column _ => cases j
    | parens _ _ _ => cases j
  | more j hkind _ _ ih1 ih2 =>
    intro e' r' h'
    cases h' with
    | more j' _ h1 h2 =>
      obtain ⟨-, rfl, rfl⟩ := j.ends j'
      obtain ⟨rfl, rfl⟩ := ih1 h1
      exact ih2 h2
    | stop j' hstop =>
      obtain ⟨rfl, -, -⟩ := j.ends j'
      exact absurd hkind (hstop _ rfl)
  | stop j hstop =>
    intro e' r' h'
    cases h' with
    | more j' hkind _ _ =>
      obtain ⟨rfl, -, -⟩ := j.ends j'
      exact absurd hkind (hstop _ rfl)
    | stop _ _ => exact ⟨rfl, rfl⟩
  | alone _ hnone ih =>
    intro e' r' h'
    cases h' with
    | first j' _ _ => cases j'
    | alone h1 _ => exact ih h1
    | compared h1 hop _ =>
      obtain ⟨-, rfl⟩ := ih h1
      rw [hnone _ rfl] at hop
      cases hop
  | compared _ hop _ ih1 ih2 =>
    intro e' r' h'
    cases h' with
    | first j' _ _ => cases j'
    | alone h1 hnone =>
      obtain ⟨-, rfl⟩ := ih1 h1
      rw [hnone _ rfl] at hop
      cases hop
    | compared h1 hop' h2 =>
      obtain ⟨rfl, heq⟩ := ih1 h1
      obtain ⟨rfl, rfl⟩ := List.cons.inj heq
      obtain ⟨rfl, rfl⟩ := ih2 h2
      rw [hop] at hop'
      cases hop'
      exact ⟨rfl, rfl⟩
  | literal hvalue =>
    intro e' r' h'
    have hkind := rules.kind_of_denotes hvalue
    cases h' with
    | first j' _ _ => cases j'
    | literal hvalue' =>
      rw [rules.unique hvalue' hvalue]
      exact ⟨rfl, rfl⟩
    | column hident =>
      rw [hident] at hkind
      exact absurd hkind (by decide)
    | parens hlp _ _ =>
      rw [hlp] at hkind
      exact absurd hkind (by decide)
  | column hident =>
    intro e' r' h'
    cases h' with
    | first j' _ _ => cases j'
    | literal hvalue' =>
      have hkind := rules.kind_of_denotes hvalue'
      rw [hident] at hkind
      exact absurd hkind (by decide)
    | column _ => exact ⟨rfl, rfl⟩
    | parens hlp _ _ =>
      rw [hident] at hlp
      cases hlp
  | parens hlp _ _ ih =>
    intro e' r' h'
    cases h' with
    | first j' _ _ => cases j'
    | literal hvalue' =>
      have hkind := rules.kind_of_denotes hvalue'
      rw [hlp] at hkind
      exact absurd hkind (by decide)
    | column hident =>
      rw [hlp] at hident
      cases hident
    | parens _ h1 _ =>
      obtain ⟨rfl, heq⟩ := ih h1
      exact ⟨rfl, (List.cons.inj heq).2⟩

/-! ### The reader finds every derivation -/

/-- An operator that comes next cannot go on with `w`. -/
def NoComparison (rules : Rules) (n : Nonterminal) (w rest : List Token) : Prop :=
  ∀ t ∈ rest.head?, comparison t.kind ≠ none → ∀ more e, ¬ Derives rules n (w ++ t :: more) e

/-- How the reader goes through the tokens `w`, whatever comes after them. -/
def Readable (rules : Rules) : Nonterminal → List Token → Expr → Prop
  | .primary, w, e => ∀ r, Reads rules (.whole .primary) (w ++ r) e r
  | .cmp_expr, w, e => ∀ r, NoComparison rules .cmp_expr w r →
      Reads rules (.whole .cmp_expr) (w ++ r) e r
  | .and_expr, w, e => ∀ r e' r', NoComparison rules .and_expr w r →
      Reads rules (.rest .and_expr e) r e' r' → Reads rules (.whole .and_expr) (w ++ r) e' r'
  | .or_expr, w, e => ∀ r e' r', NoComparison rules .or_expr w r →
      (∀ t ∈ r.head?, t.kind ≠ .KwAnd) →
      Reads rules (.rest .or_expr e) r e' r' → Reads rules (.whole .or_expr) (w ++ r) e' r'

theorem noComparison_of_kind {n : Nonterminal} {w ts : List Token} {t : Token}
    (h : comparison t.kind = none) : NoComparison rules n w (t :: ts) := by
  intro u hu hop
  cases hu
  exact absurd h hop

/-- A column may follow an operator. -/
def any_column : Token := { kind := .Identifier }

theorem Derives.readable {n : Nonterminal} {w : List Token} {e : Expr} (h : Derives rules n w e) :
    Readable rules n w e := by
  induction h with
  | operand j _ ih =>
    cases j with
    | or_ =>
      intro r e' r' hno hand hrest
      have hno' : NoComparison rules .and_expr _ r := fun t ht hop more e h =>
        hno t ht hop more e (.operand .or_ h)
      exact .first .or_ (ih r _ r hno' (.stop .and_ hand)) hrest
    | and_ =>
      intro r e' r' hno hrest
      have hno' : NoComparison rules .cmp_expr _ r := fun t ht hop more e h =>
        hno t ht hop more e (.operand .and_ h)
      exact .first .and_ (ih r hno') hrest
  | @joined n m kind op left right t l r j h1 hkind h2 ih1 ih2 =>
    cases j with
    | or_ =>
      intro rest e' r' hno hand hrest
      have hno' : NoComparison rules .and_expr right rest := fun u hu hop more e h =>
        hno u hu hop more (.binary .Or l e) (by simpa using Derives.joined .or_ h1 hkind h)
      have hright := ih2 rest _ rest hno' (.stop .and_ hand)
      have hleft := ih1 (t :: (right ++ rest)) e' r' (noComparison_of_kind (by rw [hkind]; rfl))
        (fun u hu => by cases hu; rw [hkind]; decide) (.more .or_ hkind hright hrest)
      simpa using hleft
    | and_ =>
      intro rest e' r' hno hrest
      have hno' : NoComparison rules .cmp_expr right rest := fun u hu hop more e h =>
        hno u hu hop more (.binary .And l e) (by simpa using Derives.joined .and_ h1 hkind h)
      have hright := ih2 rest hno'
      have hleft := ih1 (t :: (right ++ rest)) e' r' (noComparison_of_kind (by rw [hkind]; rfl))
        (.more .and_ hkind hright hrest)
      simpa using hleft
  | alone h ih =>
    intro r hno
    refine .alone (ih r) fun t ht => ?_
    rcases hop : comparison t.kind with _ | op
    · rfl
    · exact absurd (.compared h hop (.column (t := any_column) rfl))
        (hno t ht (by simp [hop]) [any_column] _)
  | @compared op left right t l r h1 hop h2 ih1 ih2 =>
    intro rest _
    have hleft := ih1 (t :: (right ++ rest))
    have hboth := Reads.compared hleft hop (ih2 rest)
    simpa using hboth
  | literal hvalue => exact fun r => .literal hvalue
  | column hkind => exact fun r => .column hkind
  | @parens lp rp w e hlp _ hrp ih =>
    intro r
    have hinner := ih (rp :: r) e (rp :: r) (noComparison_of_kind (by rw [hrp]; rfl))
      (fun u hu => by cases hu; rw [hrp]; decide)
      (.stop .or_ fun u hu => by cases hu; rw [hrp]; decide)
    simpa using Reads.parens hlp hinner hrp

/-- After an expression may come an AND, an OR, and an operator if it does not
end in a comparison. -/
theorem Derives.reads {w rest : List Token} {e : Expr} (h : Derives rules .or_expr w e)
    (hno : NoComparison rules .or_expr w rest) (hand : ∀ t ∈ rest.head?, t.kind ≠ .KwAnd)
    (hor : ∀ t ∈ rest.head?, t.kind ≠ .KwOr) : Reads rules (.whole .or_expr) (w ++ rest) e rest :=
  h.readable rest e rest hno hand (.stop .or_ hor)

theorem Derives.and_column {w : List Token} {e : Expr} (h : Derives rules .or_expr w e) {t : Token}
    (ht : t.kind = .KwAnd) : ∃ e', Derives rules .or_expr (w ++ [t, any_column]) e' := by
  have hcolumn : Derives rules .cmp_expr [any_column] _ := .alone (.column rfl)
  cases h with
  | operand j h =>
    cases j with
    | or_ => exact ⟨_, .operand .or_ (.joined .and_ h ht hcolumn)⟩
  | joined j h1 hkind h2 =>
    cases j with
    | or_ =>
      have h := Derives.joined .or_ h1 hkind (.joined .and_ h2 ht hcolumn)
      exact ⟨_, by simpa using h⟩

/-- What goes as far as it can is read. -/
theorem Derives.reads_of_maximal {w rest : List Token} {e : Expr}
    (h : Derives rules .or_expr w e) (hmax : Maximal rules w rest) :
    Reads rules (.whole .or_expr) (w ++ rest) e rest := by
  refine h.reads (fun t ht _ more e' => hmax t ht more e') (fun t ht hkind => ?_)
    (fun t ht hkind => ?_)
  · obtain ⟨e', h'⟩ := h.and_column hkind
    exact hmax t ht _ e' h'
  · exact hmax t ht _ _ (.joined .or_ h hkind (.operand .and_ (.alone (.column (t := any_column) rfl))))

/-- An expression is read alone. -/
theorem Derives.reads_alone {w : List Token} {e : Expr} (h : Derives rules .or_expr w e) :
    Reads rules (.whole .or_expr) w e [] := by
  have hreads : Reads rules (.whole .or_expr) (w ++ []) e [] :=
    h.reads_of_maximal fun t ht => nomatch ht
  rwa [List.append_nil] at hreads

theorem head?_append_congr {w r r' : List Token} (h : r'.head? = r.head?) :
    (w ++ r').head? = (w ++ r).head? := by
  cases w with
  | nil => exact h
  | cons _ _ => rfl

/-- The reader sees one token after those that it takes. -/
theorem Reads.lookahead {s : Stage} {ts r : List Token} {e : Expr} (h : Reads rules s ts e r) :
    ∀ {w q : List Token}, ts = w ++ r → q.head? = r.head? → Reads rules s (w ++ q) e q := by
  induction h with
  | first j h1 h2 ih1 ih2 =>
    intro w q hw hhead
    obtain ⟨w1, rfl, -⟩ := h1.derived
    obtain ⟨w2, rfl, -⟩ := h2.derived
    obtain rfl : w1 ++ w2 = w := List.append_cancel_right (by simpa using hw)
    rw [List.append_assoc]
    exact .first j (ih1 rfl (head?_append_congr hhead)) (ih2 rfl hhead)
  | more j hkind h1 h2 ih1 ih2 =>
    intro w q hw hhead
    obtain ⟨w1, rfl, -⟩ := h1.derived
    obtain ⟨w2, rfl, -⟩ := h2.derived
    obtain rfl : _ :: w1 ++ w2 = w := List.append_cancel_right (by simpa using hw)
    rw [List.append_assoc, List.cons_append]
    exact .more j hkind (ih1 rfl (head?_append_congr hhead)) (ih2 rfl hhead)
  | stop j hstop =>
    intro w q hw hhead
    obtain rfl : w = [] := by simpa using hw
    rw [List.nil_append]
    exact .stop j (by rwa [hhead])
  | alone h1 hnone ih =>
    intro w q hw hhead
    exact .alone (ih hw hhead) (by rwa [hhead])
  | @compared op t ts mid r left right h1 hop h2 ih1 ih2 =>
    intro w q hw hhead
    obtain ⟨w1, rfl, -⟩ := h1.derived
    obtain ⟨w2, rfl, -⟩ := h2.derived
    obtain rfl : w1 ++ t :: w2 = w := List.append_cancel_right (by simpa using hw)
    have hleft := ih1 (w := w1) (q := t :: (w2 ++ q)) rfl rfl
    have hboth := Reads.compared hleft hop (ih2 rfl hhead)
    simpa using hboth
  | literal hvalue =>
    intro w q hw hhead
    obtain rfl : [_] = w := List.append_cancel_right hw
    exact .literal hvalue
  | column hkind =>
    intro w q hw hhead
    obtain rfl : [_] = w := List.append_cancel_right hw
    exact .column hkind
  | @parens lp rp ts r e hlp h1 hrp ih =>
    intro w q hw hhead
    obtain ⟨w1, rfl, -⟩ := h1.derived
    obtain rfl : lp :: (w1 ++ [rp]) = w := List.append_cancel_right (by simpa using hw)
    have hinner := ih (w := w1) (q := rp :: q) rfl rfl
    simpa using Reads.parens hlp hinner hrp

/-- What is read goes as far as it can. -/
theorem Reads.maximal {w rest : List Token} {e : Expr}
    (h : Reads rules (.whole .or_expr) (w ++ rest) e rest) : Maximal rules w rest := by
  intro t ht more e' hmore
  have hone := h.lookahead (q := t :: more) rfl (by rw [ht]; rfl)
  obtain ⟨-, hnil⟩ := hone.unique hmore.reads_alone
  cases hnil

/-- The reader takes what is derived and goes as far as it can, and nothing else. -/
theorem reads_iff {ts rest : List Token} {e : Expr} :
    Reads rules (.whole .or_expr) ts e rest ↔
      ∃ w, ts = w ++ rest ∧ Derives rules .or_expr w e ∧ Maximal rules w rest := by
  constructor
  · intro h
    obtain ⟨w, rfl, hw⟩ := h.derived
    exact ⟨w, rfl, hw, h.maximal⟩
  · rintro ⟨w, rfl, hw, hmax⟩
    exact hw.reads_of_maximal hmax

/-- The grammar is unambiguous. -/
theorem Derives.unique {w : List Token} {e e' : Expr} (h : Derives rules .or_expr w e)
    (h' : Derives rules .or_expr w e') : e' = e :=
  (h.reads_alone.unique h'.reads_alone).1

/-! ## Lists -/

section

variable {α : Type} (element : List Token → α → Prop)

/-- One element or more, with single commas between them. -/
inductive Separated : List Token → List α → Prop
  | one {w : List Token} {x : α} : element w x → Separated w [x]
  | more {w ws : List Token} {x : α} {xs : List α} {c : Token} :
      element w x → c.kind = .Comma → Separated ws xs → Separated (w ++ c :: ws) (x :: xs)

/-- The inside of a pair of parentheses. -/
inductive Listed (loose : Bool) : List Token → List α → Prop
  | separated {w : List Token} {xs : List α} : Separated element w xs → Listed loose w xs
  | empty : loose = true → Listed loose [] []
  | trailing {w : List Token} {xs : List α} {c : Token} :
      loose = true → Separated element w xs → c.kind = .Comma → Listed loose (w ++ [c]) xs

end

/-! ## CREATE TABLE -/

inductive NameOf : List Token → Bytes → Prop
  | mk {t : Token} : t.kind = .Identifier → NameOf [t] t.text

inductive TypeOf : List Token → TypeName → Prop
  | plain {t : Token} : t.kind = .Identifier → TypeOf [t] { name := t.text, param := none }
  | double_precision {d p : Token} :
      d.kind = .Identifier → d.text = str "double" ∨ d.text = str "DOUBLE" →
      p.kind = .Identifier → p.text = str "precision" ∨ p.text = str "PRECISION" →
      TypeOf [d, p] { name := str "double precision", param := none }
  | param {t lp n rp : Token} {value : Nat} :
      t.kind = .Identifier → lp.kind = .LParen → n.kind = .LitInteger →
      from_chars_nat (2 ^ 32) n.text = some value → rp.kind = .RParen →
      TypeOf [t, lp, n, rp] { name := t.text, param := some value }

inductive Constraint where
  | not_null
  | null
  | primary_key
  | unique
  deriving DecidableEq, Repr

namespace Constraint

def kinds : Constraint → List TokenKind
  | not_null => [.KwNot, .KwNull]
  | null => [.KwNull]
  | primary_key => [.KwPrimary, .KwKey]
  | unique => [.KwUnique]

/-- What a constraint sets, over what an earlier one has set. -/
def apply (c : Constraint) (col : ColumnDef) : ColumnDef :=
  match c with
  | not_null => { col with not_null := true }
  | null => { col with not_null := false }
  | primary_key => { col with primary_key := true, not_null := true }
  | unique => { col with unique_constraint := true }

end Constraint

inductive ConstraintsOf : List Token → List Constraint → Prop
  | nil : ConstraintsOf [] []
  | cons {w ws : List Token} {c : Constraint} {cs : List Constraint} :
      w.map Token.kind = c.kinds → ConstraintsOf ws cs → ConstraintsOf (w ++ ws) (c :: cs)

/-- `name type { constraint }`, for a column before its constraints. -/
inductive ColumnOf : List Token → ColumnDef → Prop
  | mk {name : Token} {type_tokens constraint_tokens : List Token} {type : TypeName}
      {constraints : List Constraint} :
      name.kind = .Identifier → TypeOf type_tokens type →
      ConstraintsOf constraint_tokens constraints →
      ColumnOf (name :: (type_tokens ++ constraint_tokens))
        (constraints.foldl (fun col c => c.apply col) { name := name.text, type })

/-- `[IF NOT EXISTS]` -/
inductive GuardOf : List Token → Bool → Prop
  | absent : GuardOf [] false
  | present {w : List Token} : w.map Token.kind = [.KwIf, .KwNot, .KwExists] → GuardOf w true

/-- `CREATE TABLE [IF NOT EXISTS] name ( columns )` -/
inductive CreateOf (rules : Rules) : List Token → CreateTableStmt → Prop
  | mk {create table name lp rp : Token} {guard_tokens inside : List Token}
      {columns : List ColumnDef} {if_not_exists : Bool} :
      create.kind = .KwCreate → table.kind = .KwTable → GuardOf guard_tokens if_not_exists →
      name.kind = .Identifier → lp.kind = .LParen → Listed ColumnOf rules.loose inside columns →
      rp.kind = .RParen →
      CreateOf rules (create :: table :: (guard_tokens ++ name :: lp :: (inside ++ [rp])))
        { table_name := name.text, columns, if_not_exists }

/-! ## INSERT -/

/-- `[( names )]` -/
inductive TargetsOf (rules : Rules) : List Token → List Bytes → Prop
  | absent : TargetsOf rules [] []
  | present {lp rp : Token} {inside : List Token} {names : List Bytes} :
      lp.kind = .LParen → Listed NameOf rules.loose inside names → rp.kind = .RParen →
      TargetsOf rules (lp :: (inside ++ [rp])) names

/-- `( exprs )` -/
inductive RowOf (rules : Rules) : List Token → List Expr → Prop
  | mk {lp rp : Token} {inside : List Token} {exprs : List Expr} :
      lp.kind = .LParen → Listed (Derives rules .or_expr) rules.loose inside exprs →
      rp.kind = .RParen → RowOf rules (lp :: (inside ++ [rp])) exprs

/-- `INSERT INTO name [( names )] VALUES ( exprs ) {, ( exprs )}` -/
inductive InsertOf (rules : Rules) : List Token → InsertStmt → Prop
  | mk {insert into name values : Token} {targets rows_tokens : List Token}
      {column_names : List Bytes} {rows : List (List Expr)} :
      insert.kind = .KwInsert → into.kind = .KwInto → name.kind = .Identifier →
      TargetsOf rules targets column_names → values.kind = .KwValues →
      Separated (RowOf rules) rows_tokens rows →
      InsertOf rules (insert :: into :: name :: (targets ++ values :: rows_tokens))
        { table_name := name.text, column_names, rows }

/-! ## SELECT -/

/-- `[AS name]` -/
inductive AliasOf : List Token → Option Bytes → Prop
  | absent : AliasOf [] none
  | present {as name : Token} :
      as.kind = .KwAs → name.kind = .Identifier → AliasOf [as, name] (some name.text)

inductive ItemOf (rules : Rules) : List Token → SelectItem → Prop
  | star {t : Token} : t.kind = .Star → ItemOf rules [t] .StarItem
  | expr {w a : List Token} {e : Expr} {alias_ : Option Bytes} :
      Derives rules .or_expr w e → AliasOf a alias_ → ItemOf rules (w ++ a) (.ExprItem e alias_)

/-- `[WHERE expr]` -/
inductive WhereOf (rules : Rules) : List Token → Option Expr → Prop
  | absent : WhereOf rules [] none
  | present {kw : Token} {w : List Token} {e : Expr} :
      kw.kind = .KwWhere → Derives rules .or_expr w e → WhereOf rules (kw :: w) (some e)

/-- `SELECT items FROM name [WHERE expr]` -/
inductive SelectOf (rules : Rules) : List Token → SelectStmt → Prop
  | mk {select kw name : Token} {items_tokens where_tokens : List Token}
      {items : List SelectItem} {where_ : Option Expr} :
      select.kind = .KwSelect → Separated (ItemOf rules) items_tokens items →
      kw.kind = .KwFrom → name.kind = .Identifier → WhereOf rules where_tokens where_ →
      SelectOf rules (select :: (items_tokens ++ kw :: name :: where_tokens))
        { items, table_name := name.text, where_ }

/-! ## Statements -/

inductive StmtOf (rules : Rules) : List Token → Stmt → Prop
  | create_table {w : List Token} {stmt : CreateTableStmt} :
      CreateOf rules w stmt → StmtOf rules w (.create_table stmt)
  | insert {w : List Token} {stmt : InsertStmt} :
      InsertOf rules w stmt → StmtOf rules w (.insert stmt)
  | select {w : List Token} {stmt : SelectStmt} :
      SelectOf rules w stmt → StmtOf rules w (.select stmt)

/-- `[;]` -/
inductive SemicolonOf : List Token → Prop
  | absent : SemicolonOf []
  | present {t : Token} : t.kind = .Semicolon → SemicolonOf [t]

/-- Statements with a semicolon or none before and after each. A semicolon after
a statement belongs to it. -/
inductive ProgramOf (rules : Rules) : List Token → List Stmt → Prop
  | done {lead : List Token} : SemicolonOf lead → ProgramOf rules lead []
  | stmt {lead w trail rest : List Token} {s : Stmt} {stmts : List Stmt} :
      SemicolonOf lead → StmtOf rules w s → SemicolonOf trail →
      (trail = [] → ∀ t ∈ rest.head?, t.kind ≠ .Semicolon) → ProgramOf rules rest stmts →
      ProgramOf rules (lead ++ (w ++ (trail ++ rest))) (s :: stmts)

theorem StmtOf.starts {w : List Token} {s : Stmt} (h : StmtOf rules w s) :
    ∃ t v, w = t :: v ∧ t.kind ∈ [TokenKind.KwCreate, .KwInsert, .KwSelect] := by
  cases h with
  | create_table h =>
    cases h with
    | mk hcreate _ _ _ _ _ _ => exact ⟨_, _, rfl, by simp [hcreate]⟩
  | insert h =>
    cases h with
    | mk hinsert _ _ _ _ _ => exact ⟨_, _, rfl, by simp [hinsert]⟩
  | select h =>
    cases h with
    | mk hselect _ _ _ _ => exact ⟨_, _, rfl, by simp [hselect]⟩

end Grammar

end edb
