-- The parser over the tokens of its source. What a parse function does from a
-- state depends on the tokens that are left only, so its facts are about lists
-- of tokens: what it takes if it succeeds, and that it takes what the grammar
-- derives. It fails with `ParseError` only, and every loop of it ends.
import Edb.Grammar
import Edb.LexerLaws

namespace edb

open Call

open Grammar

/-- The literal that the parser makes of a token. -/
def Token.literal (t : Token) : Option Literal :=
  match t.kind with
  | .KwNull => some .NullLiteral
  | .KwTrue => some (.BoolLiteral true)
  | .KwFalse => some (.BoolLiteral false)
  | .LitInteger => (from_chars_nat (2 ^ 63) t.text).map fun n : Nat => .IntLiteral n
  | .LitFloat => (from_chars_f64 t.text).map .FloatLiteral
  | .LitString => some (.StrLiteral (Parser.unescape t.text))
  | _ => none

theorem Token.kind_of_literal {t : Token} {value : Literal} (h : t.literal = some value) :
    t.kind ∈ LITERALS := by
  unfold Token.literal at h
  cases hkind : t.kind <;> rw [hkind] at h <;> first | decide | cases h

/-- The grammar as the parser has it. -/
def parser_rules : Rules where
  denotes t value := t.literal = some value
  loose := true
  kind_of_denotes := Token.kind_of_literal
  unique h h' := Option.some.inj (h.symm.trans h')

namespace Parser

/-! ## The tokens that are left -/

/-- The tokens `ts` are left, of which the first is the current one. -/
def At (p : Parser) (ts : List Token) : Prop :=
  ∃ before rest, p.lexer = Lexer.past before rest ∧ Lexer.Layout true before rest ts.tail ∧
    match ts with
    | [] => p.cur.kind = .Eof
    | t :: _ => p.cur = t ∧ t.kind ≠ .Eof

theorem at_of_layout {before rest : Bytes} {ts : List Token} (h : Lexer.Layout true before rest ts)
    {p : Parser} (hcur : p.cur = (Lexer.past before rest).next.1)
    (hlexer : p.lexer = (Lexer.past before rest).next.2) : At p ts := by
  cases ts with
  | nil =>
    rw [h.next_nil] at hcur hlexer
    exact ⟨_, _, hlexer, Lexer.layout_end _, by rw [hcur]; rfl⟩
  | cons t ts =>
    obtain ⟨after, tail, hnext, hts, -, -, hkind⟩ := h.next_cons
    rw [hnext] at hcur hlexer
    exact ⟨after, tail, hlexer, hts, hcur, hkind⟩

theorem at_start (src : Bytes) : At (start src) (Lexer.tokens src) :=
  at_of_layout (Lexer.layout_tokens src) rfl rfl

theorem At.advance {p : Parser} {ts : List Token} (h : At p ts) :
    At { p with cur := p.lexer.next.1, lexer := p.lexer.next.2 } ts.tail := by
  obtain ⟨before, rest, hlexer, hts, -⟩ := h
  rw [hlexer]
  exact at_of_layout hts rfl rfl

theorem At.kind_ne {p : Parser} {ts : List Token} (h : At p ts) {kind : TokenKind}
    (hkind : kind ≠ .Eof) (hne : ∀ t ∈ ts.head?, t.kind ≠ kind) : p.cur.kind ≠ kind := by
  obtain ⟨-, -, -, -, hcur⟩ := h
  cases ts with
  | nil =>
    rw [hcur]
    exact hkind.symm
  | cons t ts =>
    rw [hcur.1]
    exact hne t rfl

theorem At.cur_cons {p : Parser} {t : Token} {ts : List Token} (h : At p (t :: ts)) :
    p.cur = t ∧ t.kind ≠ .Eof := by
  obtain ⟨-, -, -, -, hcur⟩ := h
  exact hcur

/-- The current token is the first that is left, unless it is the end. -/
theorem At.eq_cons {p : Parser} {ts : List Token} (h : At p ts) {kind : TokenKind}
    (hkind : p.cur.kind = kind) (hne : kind ≠ .Eof) : ∃ r, ts = p.cur :: r := by
  cases ts with
  | nil =>
    obtain ⟨-, -, -, -, hcur⟩ := h
    exact absurd (hkind.symm.trans hcur) hne
  | cons t r => exact ⟨r, by rw [h.cur_cons.1]⟩

/-- A state leaves one list of tokens. -/
theorem At.unique {p : Parser} {ts us : List Token} (h : At p ts) (h' : At p us) : ts = us := by
  have htail : ∀ vs : List Token, At p vs →
      vs.tail = Lexer.tokens_within p.lexer.rest.length p.lexer := by
    rintro vs ⟨before, rest, hlexer, hvs, -⟩
    rw [hlexer]
    exact (hvs.tokens_within_eq _ le_rfl).symm
  have heq : ts.tail = us.tail := (htail ts h).trans (htail us h').symm
  cases ts with
  | nil =>
    cases us with
    | nil => rfl
    | cons u us =>
      obtain ⟨-, -, -, -, hcur⟩ := h
      rw [h'.cur_cons.1] at hcur
      exact absurd hcur h'.cur_cons.2
  | cons t ts =>
    cases us with
    | nil =>
      obtain ⟨-, -, -, -, hcur⟩ := h'
      rw [h.cur_cons.1] at hcur
      exact absurd hcur h.cur_cons.2
    | cons u us =>
      rw [← h.cur_cons.1, ← h'.cur_cons.1]
      exact congrArg _ heq

theorem At.length_lt {p : Parser} {ts : List Token} (h : At p ts) :
    ts.length < p.lexer.rest.length + 2 := by
  obtain ⟨before, rest, hlexer, hts, -⟩ := h
  have hle := hts.length_le
  rw [List.length_tail] at hle
  rw [hlexer, Lexer.past_rest]
  omega

/-! ## What a parse function takes -/

section

variable {α β : Type}

/-- From the tokens `ts` the call fails with `ParseError`, or returns a value and
leaves tokens that `Q` holds of. -/
def Parses (x : Call Error Parser α) (ts : List Token) (Q : α → List Token → Prop) : Prop :=
  ∀ p, At p ts → x.wp (fun a p' => ∃ r, At p' r ∧ Q a r) (fun e _ => e = .ParseError) p

variable {x : Call Error Parser α} {ts : List Token} {Q Q' : α → List Token → Prop}

theorem Parses.mono (h : Parses x ts Q) (hq : ∀ a r, Q a r → Q' a r) : Parses x ts Q' :=
  fun p hp => wp_mono (h p hp) (fun a _ ⟨r, hr, ha⟩ => ⟨r, hr, hq a r ha⟩) fun _ _ he => he

theorem parses_pure {a : α} (h : Q a ts) : Parses (pure a) ts Q :=
  fun _ hp => (wp_pure a).mpr ⟨ts, hp, h⟩

theorem parses_bind {f : α → Call Error Parser β} {R : β → List Token → Prop}
    (h : Parses x ts fun a mid => Parses (f a) mid R) : Parses (x >>= f) ts R := by
  intro p hp
  rw [wp_bind]
  exact wp_mono (h p hp) (fun a p' ⟨r, hr, hf⟩ => hf p' hr) fun _ _ he => he

theorem parses_get_bind {f : Parser → Call Error Parser α}
    (h : ∀ p, At p ts → Parses (f p) ts Q) : Parses (.get >>= f) ts Q := by
  intro p hp
  rw [wp_bind, wp_get]
  exact h p hp p hp

theorem parses_err (msg : Bytes) : Parses (parse_err msg) ts Q := by
  intro p _
  unfold parse_err
  rw [wp_bind, wp_modify, wp_fail]

theorem parses_advance {t : Token} {r : List Token} {R : Unit → List Token → Prop} (h : R () r) :
    Parses advance (t :: r) R := by
  intro p hp
  unfold advance
  rw [wp_modify]
  exact ⟨r, hp.advance, h⟩

theorem parses_check {kind : TokenKind} {R : Bool → List Token → Prop} (hne : kind ≠ .Eof)
    (hyes : ∀ t r, ts = t :: r → t.kind = kind → R true ts)
    (hno : (∀ t ∈ ts.head?, t.kind ≠ kind) → R false ts) : Parses (check kind) ts R := by
  unfold check
  refine parses_get_bind fun p hp => parses_pure ?_
  by_cases hkind : p.cur.kind = kind
  · obtain ⟨r, hts⟩ := hp.eq_cons hkind hne
    rw [decide_eq_true hkind]
    exact hyes p.cur r hts hkind
  · rw [decide_eq_false hkind]
    refine hno fun t ht => ?_
    obtain ⟨r, rfl⟩ := List.head?_eq_some_iff.mp ht
    rwa [hp.cur_cons.1] at hkind

theorem parses_check_eof {R : Bool → List Token → Prop} (hyes : ts = [] → R true ts)
    (hno : ts ≠ [] → R false ts) : Parses (check .Eof) ts R := by
  unfold check
  refine parses_get_bind fun p hp => parses_pure ?_
  cases ts with
  | nil =>
    obtain ⟨-, -, -, -, hcur⟩ := hp
    rw [decide_eq_true hcur]
    exact hyes rfl
  | cons t r =>
    obtain ⟨hcur, hkind⟩ := hp.cur_cons
    rw [hcur, decide_eq_false hkind]
    exact hno (List.cons_ne_nil t r)

theorem parses_accept {kind : TokenKind} {R : Bool → List Token → Prop} (hne : kind ≠ .Eof)
    (hyes : ∀ t r, ts = t :: r → t.kind = kind → R true r)
    (hno : (∀ t ∈ ts.head?, t.kind ≠ kind) → R false ts) : Parses (accept kind) ts R := by
  unfold accept
  refine parses_bind (parses_check hne (fun t r hts hkind => ?_) fun hkind => parses_pure (hno hkind))
  subst hts
  exact parses_bind (parses_advance (parses_pure (hyes t r rfl hkind)))

theorem parses_expect {kind : TokenKind} {R : Token → List Token → Prop} (hne : kind ≠ .Eof)
    (h : ∀ t r, ts = t :: r → t.kind = kind → R t r) : Parses (expect kind) ts R := by
  unfold expect
  refine parses_get_bind fun p hp => ?_
  split
  · exact parses_err _
  · rename_i hkind
    rw [not_not] at hkind
    obtain ⟨r, hts⟩ := hp.eq_cons hkind hne
    subst hts
    exact parses_bind (parses_advance (parses_pure (h _ r rfl hkind)))

theorem parses_expect_identifier {R : Bytes → List Token → Prop}
    (h : ∀ t r, ts = t :: r → t.kind = .Identifier → R t.text r) :
    Parses expect_identifier ts R := by
  unfold expect_identifier
  refine parses_get_bind fun p hp => ?_
  split
  · exact parses_err _
  · rename_i hkind
    rw [not_not] at hkind
    obtain ⟨r, hts⟩ := hp.eq_cons hkind (by decide)
    subst hts
    exact parses_bind (parses_advance (parses_pure (h _ r rfl hkind)))

theorem parses_rounds {R : Nat → List Token → Prop} (h : ∀ n, ts.length < n → R n ts) :
    Parses rounds ts R := by
  unfold rounds
  exact parses_get_bind fun p hp => parses_pure (h _ hp.length_lt)

/-! ## What a parse function has to take -/

/-- From the tokens `ts` the call returns `a` and leaves the tokens `r`. -/
def Takes (x : Call Error Parser α) (ts : List Token) (a : α) (r : List Token) : Prop :=
  ∀ p, At p ts → ∃ p', x.run p = (.ok a, p') ∧ At p' r

variable {a : α} {r : List Token}

theorem takes_pure : Takes (pure a) ts a ts := fun p hp => ⟨p, rfl, hp⟩

theorem Takes.bind {f : α → Call Error Parser β} {mid : List Token} {b : β} (h : Takes x ts a mid)
    (hf : Takes (f a) mid b r) : Takes (x >>= f) ts b r := by
  intro p hp
  obtain ⟨p', hrun, hp'⟩ := h p hp
  obtain ⟨p'', hrun', hp''⟩ := hf p' hp'
  exact ⟨p'', by rw [run_bind_ok f hrun, hrun'], hp''⟩

theorem takes_get_bind {f : Parser → Call Error Parser α}
    (h : ∀ p, At p ts → Takes (f p) ts a r) : Takes (.get >>= f) ts a r :=
  fun p hp => h p hp p hp

theorem takes_advance {t : Token} : Takes advance (t :: r) () r :=
  fun _ hp => ⟨_, rfl, hp.advance⟩

theorem takes_check_yes {t : Token} : Takes (check t.kind) (t :: r) true (t :: r) := by
  unfold check
  refine takes_get_bind fun p hp => ?_
  rw [hp.cur_cons.1, decide_eq_true rfl]
  exact takes_pure

theorem takes_check_no {kind : TokenKind} (hne : kind ≠ .Eof) (h : ∀ t ∈ ts.head?, t.kind ≠ kind) :
    Takes (check kind) ts false ts := by
  unfold check
  refine takes_get_bind fun p hp => ?_
  rw [decide_eq_false (hp.kind_ne hne h)]
  exact takes_pure

theorem takes_check_eof : Takes (check .Eof) ts ts.isEmpty ts := by
  unfold check
  refine takes_get_bind fun p hp => ?_
  cases ts with
  | nil =>
    obtain ⟨-, -, -, -, hcur⟩ := hp
    rw [decide_eq_true hcur]
    exact takes_pure
  | cons t r =>
    obtain ⟨hcur, hkind⟩ := hp.cur_cons
    rw [hcur, decide_eq_false hkind]
    exact takes_pure

theorem takes_accept_yes {t : Token} {kind : TokenKind} (h : t.kind = kind) :
    Takes (accept kind) (t :: r) true r := by
  subst h
  unfold accept
  exact takes_check_yes.bind (takes_advance.bind takes_pure)

theorem takes_accept_no {kind : TokenKind} (hne : kind ≠ .Eof)
    (h : ∀ t ∈ ts.head?, t.kind ≠ kind) : Takes (accept kind) ts false ts := by
  unfold accept
  exact (takes_check_no hne h).bind takes_pure

theorem takes_expect {t : Token} {kind : TokenKind} (h : t.kind = kind) :
    Takes (expect kind) (t :: r) t r := by
  subst h
  unfold expect
  refine takes_get_bind fun p hp => ?_
  rw [hp.cur_cons.1, if_neg (not_not.mpr rfl)]
  exact takes_advance.bind takes_pure

theorem takes_expect_identifier {t : Token} (h : t.kind = .Identifier) :
    Takes expect_identifier (t :: r) t.text r := by
  unfold expect_identifier
  refine takes_get_bind fun p hp => ?_
  rw [hp.cur_cons.1, if_neg (not_not.mpr h)]
  exact takes_advance.bind takes_pure

theorem takes_rounds_bind {f : Nat → Call Error Parser α}
    (h : ∀ n, ts.length < n → Takes (f n) ts a r) : Takes (rounds >>= f) ts a r := by
  intro p hp
  exact h _ hp.length_lt p hp

end

/-! ## Expressions -/

section

variable {expr : Call Error Parser Expr} {ts : List Token}

/-- What comes after a current token that the source looks for and takes. -/
theorem parses_if_accept {α : Type} {kind : TokenKind} {x y : Call Error Parser α}
    {Q : α → List Token → Prop} (hne : kind ≠ .Eof)
    (hyes : ∀ t r, ts = t :: r → t.kind = kind → Parses x r Q)
    (hno : (∀ t ∈ ts.head?, t.kind ≠ kind) → Parses y ts Q) :
    Parses (accept kind >>= fun b => if b = true then x else y) ts Q :=
  parses_bind (parses_accept hne (fun t r hts hkind => by simpa using hyes t r hts hkind)
    fun hkind => by simpa using hno hkind)

theorem parses_primary
    (hexpr : ∀ mid, mid.length < ts.length →
      Parses expr mid fun e r => Reads parser_rules (.whole .or_expr) mid e r) :
    Parses (parse_primary expr) ts fun e r => Reads parser_rules (.whole .primary) ts e r := by
  unfold parse_primary
  refine parses_if_accept (by decide) (fun lp r hts hlp => ?_) fun _ => ?_
  · subst hts
    refine parses_bind ((hexpr r (by simp)).mono fun e mid hreads => ?_)
    refine parses_bind (parses_expect (by decide) fun rp r' hmid hrp => parses_pure ?_)
    subst hmid
    exact .parens hlp hreads hrp
  have hliteral : ∀ t r value, ts = t :: r → t.literal = some value →
      Reads parser_rules (.whole .primary) ts (.literal value) r := by
    rintro t r value rfl h
    exact .literal h
  refine parses_if_accept (by decide) (fun t r hts hkind => parses_pure ?_) fun _ => ?_
  · exact hliteral t r _ hts (by simp [Token.literal, hkind])
  refine parses_if_accept (by decide) (fun t r hts hkind => parses_pure ?_) fun _ => ?_
  · exact hliteral t r _ hts (by simp [Token.literal, hkind])
  refine parses_if_accept (by decide) (fun t r hts hkind => parses_pure ?_) fun _ => ?_
  · exact hliteral t r _ hts (by simp [Token.literal, hkind])
  refine parses_get_bind fun p hp => ?_
  have hcons : ∀ kind, p.cur.kind = kind → kind ≠ .Eof → ∃ r, ts = p.cur :: r :=
    fun kind => hp.eq_cons
  split
  · rename_i hkind
    obtain ⟨r, hts⟩ := hcons _ hkind (by decide)
    split
    · exact parses_err _
    · rename_i n hn
      have h := hliteral _ r (.IntLiteral n) hts (by simp only [Token.literal, hkind, hn]; rfl)
      rw [hts] at h ⊢
      exact parses_bind (parses_advance (parses_pure h))
  · rename_i hkind
    obtain ⟨r, hts⟩ := hcons _ hkind (by decide)
    split
    · exact parses_err _
    · rename_i bits hbits
      have h := hliteral _ r (.FloatLiteral bits) hts (by simp [Token.literal, hkind, hbits])
      rw [hts] at h ⊢
      exact parses_bind (parses_advance (parses_pure h))
  · rename_i hkind
    obtain ⟨r, hts⟩ := hcons _ hkind (by decide)
    have h := hliteral _ r (.StrLiteral (unescape p.cur.text)) hts (by simp [Token.literal, hkind])
    rw [hts] at h ⊢
    exact parses_bind (parses_advance (parses_pure h))
  · rename_i hkind
    obtain ⟨r, hts⟩ := hcons _ hkind (by decide)
    rw [hts]
    exact parses_bind (parses_advance (parses_pure (.column hkind)))
  · exact parses_err _

theorem parses_accept_comparison {R : Option BinaryOp → List Token → Prop}
    (hyes : ∀ t r op, ts = t :: r → comparison t.kind = some op → R (some op) r)
    (hno : (∀ t ∈ ts.head?, comparison t.kind = none) → R none ts) :
    Parses accept_comparison ts R := by
  unfold accept_comparison
  refine parses_if_accept (by decide) (fun t r hts hkind => parses_pure ?_) fun h1 => ?_
  · exact hyes t r _ hts (by rw [hkind]; rfl)
  refine parses_if_accept (by decide) (fun t r hts hkind => parses_pure ?_) fun h2 => ?_
  · exact hyes t r _ hts (by rw [hkind]; rfl)
  refine parses_if_accept (by decide) (fun t r hts hkind => parses_pure ?_) fun h3 => ?_
  · exact hyes t r _ hts (by rw [hkind]; rfl)
  refine parses_if_accept (by decide) (fun t r hts hkind => parses_pure ?_) fun h4 => ?_
  · exact hyes t r _ hts (by rw [hkind]; rfl)
  refine parses_if_accept (by decide) (fun t r hts hkind => parses_pure ?_) fun h5 => ?_
  · exact hyes t r _ hts (by rw [hkind]; rfl)
  refine parses_if_accept (by decide) (fun t r hts hkind => parses_pure ?_) fun h6 => ?_
  · exact hyes t r _ hts (by rw [hkind]; rfl)
  refine parses_pure (hno fun t ht => ?_)
  unfold comparison
  split <;> first | rfl | (exfalso; simp_all)

theorem parses_not
    (hexpr : ∀ mid, mid.length < ts.length →
      Parses expr mid fun e r => Reads parser_rules (.whole .or_expr) mid e r) :
    Parses (parse_not expr) ts fun e r => Reads parser_rules (.whole .cmp_expr) ts e r := by
  unfold parse_not
  refine parses_if_accept (by decide) (fun _ _ _ _ => parses_err _) fun _ => ?_
  unfold parse_cmp
  refine parses_bind ((parses_primary hexpr).mono fun left mid hleft => ?_)
  refine parses_bind (parses_accept_comparison (fun t r op hmid hop => ?_) fun hno => ?_)
  · subst hmid
    obtain ⟨w, rfl, -⟩ := hleft.derived
    have hright : Parses (parse_primary expr) r fun e r' => Reads parser_rules (.whole .primary) r e r' :=
      parses_primary fun mid hlt => hexpr mid (by simp at hlt ⊢; omega)
    exact parses_bind (hright.mono fun right r' hr => parses_pure (.compared hleft hop hr))
  · exact parses_pure (.alone hleft hno)

/-- The loop of a chain: every round takes the operator before its operand. -/
theorem parses_chain {n m : Nonterminal} {kind : TokenKind} {op : BinaryOp} (j : Joins n kind op m)
    {operand : Call Error Parser Expr} (bound : Nat)
    (hoperand : ∀ mid, mid.length ≤ bound →
      Parses operand mid fun e r => Reads parser_rules (.whole m) mid e r) :
    ∀ k (left : Expr) (ts : List Token), ts.length < k → ts.length ≤ bound →
      Parses (parse_chain kind op operand k left) ts fun e r =>
        Reads parser_rules (.rest n left) ts e r := by
  intro k
  induction k with
  | zero => exact fun _ _ h => absurd h (Nat.not_lt_zero _)
  | succ k ih =>
    intro left ts hlt hle
    have hkind : kind ≠ .Eof := by cases j <;> decide
    unfold parse_chain
    refine parses_if_accept hkind (fun t r hts ht => ?_) fun hno => parses_pure (.stop j hno)
    subst hts
    rw [List.length_cons] at hlt hle
    refine parses_bind ((hoperand r (by omega)).mono fun right mid hright => ?_)
    obtain ⟨w, rfl, -⟩ := hright.derived
    rw [List.length_append] at hlt hle
    exact (ih (.binary op left right) mid (by omega) (by omega)).mono fun e r' hrest =>
      .more j ht hright hrest

theorem parses_joined {n m : Nonterminal} {kind : TokenKind} {op : BinaryOp} (j : Joins n kind op m)
    {operand : Call Error Parser Expr}
    (hoperand : ∀ mid, mid.length ≤ ts.length →
      Parses operand mid fun e r => Reads parser_rules (.whole m) mid e r) :
    Parses (operand >>= fun left => rounds >>= fun k => parse_chain kind op operand k left) ts
      fun e r => Reads parser_rules (.whole n) ts e r := by
  refine parses_bind ((hoperand ts le_rfl).mono fun left mid hleft => ?_)
  obtain ⟨w, rfl, -⟩ := hleft.derived
  refine parses_bind (parses_rounds fun k hk => ?_)
  exact (parses_chain j _ hoperand k left mid hk (by simp)).mono fun e r hrest =>
    .first j hleft hrest

theorem parses_nested (depth : Nat) : ∀ ts : List Token, ts.length < depth →
    Parses (parse_nested depth) ts fun e r => Reads parser_rules (.whole .or_expr) ts e r := by
  induction depth with
  | zero => exact fun _ h => absurd h (Nat.not_lt_zero _)
  | succ depth ih =>
    intro ts hlt
    have hnot : ∀ mid : List Token, mid.length ≤ ts.length → Parses (parse_not (parse_nested depth))
        mid fun e r => Reads parser_rules (.whole .cmp_expr) mid e r :=
      fun mid hmid => parses_not fun inner hinner => ih inner (by omega)
    have hand : ∀ mid : List Token, mid.length ≤ ts.length → Parses (parse_and (parse_nested depth))
        mid fun e r => Reads parser_rules (.whole .and_expr) mid e r :=
      fun mid hmid => parses_joined .and_ fun inner hinner => hnot inner (by omega)
    exact parses_joined .or_ hand

theorem parse_expr_parses (ts : List Token) :
    Parses parse_expr ts fun e r => Reads parser_rules (.whole .or_expr) ts e r :=
  parses_bind (parses_rounds fun n hn => parses_nested n ts hn)

end

/-! ### The derivations that it finds -/

section

variable {α : Type} {x y : Call Error Parser α} {ts r : List Token} {a : α} {kind : TokenKind}

theorem takes_if_accept_yes {t : Token} (hkind : t.kind = kind) (h : Takes x ts a r) :
    Takes (accept kind >>= fun b => if b = true then x else y) (t :: ts) a r :=
  (takes_accept_yes hkind).bind h

theorem takes_if_accept_no (hne : kind ≠ .Eof) (hkind : ∀ t ∈ ts.head?, t.kind ≠ kind)
    (h : Takes y ts a r) : Takes (accept kind >>= fun b => if b = true then x else y) ts a r :=
  (takes_accept_no hne hkind).bind h

/-- The first of the tokens that are left has another kind. -/
theorem head_kind_ne {t : Token} {k : TokenKind} (h : t.kind = k) (hne : k ≠ kind) :
    ∀ u ∈ (t :: ts).head?, u.kind ≠ kind := by
  intro u hu
  cases hu
  rwa [h]

theorem takes_if_other {t : Token} {k : TokenKind} (h : t.kind = k)
    (hne : k ≠ kind ∧ kind ≠ .Eof) (hy : Takes y (t :: ts) a r) :
    Takes (accept kind >>= fun b => if b = true then x else y) (t :: ts) a r :=
  takes_if_accept_no hne.2 (head_kind_ne h hne.1) hy

end

section

variable {expr : Call Error Parser Expr} {ts r : List Token} {e : Expr}

theorem takes_literal {t : Token} {value : Literal} (h : t.literal = some value) :
    Takes (parse_primary expr) (t :: r) (.literal value) r := by
  have hkind := Token.kind_of_literal h
  unfold parse_primary
  unfold Token.literal at h
  simp only [LITERALS, List.mem_cons, List.not_mem_nil, or_false] at hkind
  rcases hkind with hk | hk | hk | hk | hk | hk <;> rw [hk] at h <;> dsimp only at h <;>
    refine takes_if_other hk (by decide) ?_
  · cases h
    exact takes_if_accept_yes hk takes_pure
  all_goals refine takes_if_other hk (by decide) ?_
  · cases h
    exact takes_if_accept_yes hk takes_pure
  all_goals refine takes_if_other hk (by decide) ?_
  · cases h
    exact takes_if_accept_yes hk takes_pure
  all_goals
    refine takes_if_other hk (by decide) (takes_get_bind fun p hp => ?_)
    rw [hp.cur_cons.1, hk]
    dsimp only
  · obtain ⟨n, hn, rfl⟩ := Option.map_eq_some_iff.mp h
    rw [hn]
    exact takes_advance.bind takes_pure
  · obtain ⟨bits, hbits, rfl⟩ := Option.map_eq_some_iff.mp h
    rw [hbits]
    exact takes_advance.bind takes_pure
  · cases h
    exact takes_advance.bind takes_pure

theorem takes_column {t : Token} (h : t.kind = .Identifier) :
    Takes (parse_primary expr) (t :: r) (.column_ref t.text) r := by
  unfold parse_primary
  refine takes_if_other h (by decide) ?_
  refine takes_if_other h (by decide) ?_
  refine takes_if_other h (by decide) ?_
  refine takes_if_other h (by decide) (takes_get_bind fun p hp => ?_)
  rw [hp.cur_cons.1, h]
  exact takes_advance.bind takes_pure

theorem takes_parens {lp rp : Token} (hlp : lp.kind = .LParen) (hrp : rp.kind = .RParen)
    (h : Takes expr ts e (rp :: r)) : Takes (parse_primary expr) (lp :: ts) e r := by
  unfold parse_primary
  exact takes_if_accept_yes hlp (h.bind ((takes_expect hrp).bind takes_pure))

theorem takes_accept_comparison {t : Token} {op : BinaryOp} (h : comparison t.kind = some op) :
    Takes accept_comparison (t :: r) (some op) r := by
  unfold accept_comparison
  unfold comparison at h
  split at h <;> cases h <;> rename_i hk
  · exact takes_if_accept_yes hk takes_pure
  all_goals refine takes_if_other hk (by decide) ?_
  · exact takes_if_accept_yes hk takes_pure
  all_goals refine takes_if_other hk (by decide) ?_
  · exact takes_if_accept_yes hk takes_pure
  all_goals refine takes_if_other hk (by decide) ?_
  · exact takes_if_accept_yes hk takes_pure
  all_goals refine takes_if_other hk (by decide) ?_
  · exact takes_if_accept_yes hk takes_pure
  all_goals refine takes_if_other hk (by decide) ?_
  exact takes_if_accept_yes hk takes_pure

theorem takes_no_comparison (h : ∀ t ∈ ts.head?, comparison t.kind = none) :
    Takes accept_comparison ts none ts := by
  have hne : ∀ kind, comparison kind ≠ none → ∀ t ∈ ts.head?, t.kind ≠ kind :=
    fun kind hkind t ht he => hkind (he ▸ h t ht)
  unfold accept_comparison
  refine takes_if_accept_no (by decide) (hne _ (by decide)) ?_
  refine takes_if_accept_no (by decide) (hne _ (by decide)) ?_
  refine takes_if_accept_no (by decide) (hne _ (by decide)) ?_
  refine takes_if_accept_no (by decide) (hne _ (by decide)) ?_
  refine takes_if_accept_no (by decide) (hne _ (by decide)) ?_
  exact takes_if_accept_no (by decide) (hne _ (by decide)) takes_pure

/-- An expression does not start with NOT. -/
theorem reads_head {n : Nonterminal} (h : Reads parser_rules (.whole n) ts e r) :
    ∀ t ∈ ts.head?, t.kind ≠ .KwNot := by
  obtain ⟨w, rfl, hw⟩ := h.derived
  obtain ⟨t, v, rfl, ht⟩ := Derives.starts hw
  intro u hu he
  cases hu
  rw [he] at ht
  exact absurd ht (by decide)

/-- What a stage of the reader is in the parser, with nested expressions up to
`depth` and loops of `k` rounds. -/
def stage_call (depth k : Nat) : Stage → Call Error Parser Expr
  | .whole .primary => parse_primary (parse_nested depth)
  | .whole .cmp_expr => parse_cmp (parse_nested depth)
  | .whole .and_expr => parse_and (parse_nested depth)
  | .whole .or_expr => parse_or (parse_nested depth)
  | .rest .and_expr left => parse_chain .KwAnd .And (parse_not (parse_nested depth)) k left
  | .rest .or_expr left => parse_chain .KwOr .Or (parse_and (parse_nested depth)) k left
  | .rest _ left => pure left

theorem takes_not {depth : Nat} (hreads : Reads parser_rules (.whole .cmp_expr) ts e r)
    (h : Takes (parse_cmp (parse_nested depth)) ts e r) :
    Takes (parse_not (parse_nested depth)) ts e r := by
  unfold parse_not
  exact takes_if_accept_no (by decide) (reads_head hreads) h

/-- The parser goes through the tokens as the reader does. -/
theorem takes_of_reads {s : Stage} (h : Reads parser_rules s ts e r) :
    ∀ depth k, ts.length ≤ depth → ts.length < k → Takes (stage_call depth k s) ts e r := by
  induction h with
  | @first n m kind op ts mid r left e j h1 h2 ih1 ih2 =>
    intro depth k hdepth hk
    obtain ⟨w, rfl, -⟩ := h1.derived
    rw [List.length_append] at hdepth
    have hrest := fun k' hk' => ih2 depth k' (by omega) hk'
    cases j with
    | or_ => exact (ih1 depth k (by simpa using hdepth) hk).bind (takes_rounds_bind hrest)
    | and_ =>
      exact (takes_not h1 (ih1 depth k (by simpa using hdepth) hk)).bind (takes_rounds_bind hrest)
  | @more n m kind op t ts mid r left right e j hkind h1 h2 ih1 ih2 =>
    intro depth k hdepth hk
    obtain ⟨k, rfl⟩ : ∃ i, k = i + 1 := ⟨k - 1, by omega⟩
    obtain ⟨w, rfl, -⟩ := h1.derived
    rw [List.length_cons, List.length_append] at hdepth hk
    have hoperand := ih1 depth (k + 1) (by simp; omega) (by simp; omega)
    have hrest := ih2 depth k (by omega) (by omega)
    cases j with
    | or_ => exact takes_if_accept_yes hkind (hoperand.bind hrest)
    | and_ => exact takes_if_accept_yes hkind ((takes_not h1 hoperand).bind hrest)
  | @stop n m kind op ts left j hstop =>
    intro depth k _ hk
    obtain ⟨k, rfl⟩ : ∃ i, k = i + 1 := ⟨k - 1, by omega⟩
    cases j with
    | or_ => exact takes_if_accept_no (by decide) hstop takes_pure
    | and_ => exact takes_if_accept_no (by decide) hstop takes_pure
  | alone _ hnone ih =>
    intro depth k hdepth hk
    exact (ih depth k hdepth hk).bind ((takes_no_comparison hnone).bind takes_pure)
  | compared h1 hop _ ih1 ih2 =>
    intro depth k hdepth hk
    obtain ⟨w, rfl, -⟩ := h1.derived
    rw [List.length_append, List.length_cons] at hdepth hk
    have hright := ih2 depth k (by omega) (by omega)
    refine (ih1 depth k (by simpa using hdepth) (by simpa using hk)).bind ?_
    exact (takes_accept_comparison hop).bind (hright.bind takes_pure)
  | literal hvalue => exact fun _ _ _ _ => takes_literal hvalue
  | column hident => exact fun _ _ _ _ => takes_column hident
  | parens hlp _ hrp ih =>
    intro depth k hdepth hk
    rw [List.length_cons] at hdepth hk
    obtain ⟨depth, rfl⟩ : ∃ i, depth = i + 1 := ⟨depth - 1, by omega⟩
    exact takes_parens hlp hrp (ih depth k (by omega) (by omega))

theorem parse_expr_takes (h : Reads parser_rules (.whole .or_expr) ts e r) :
    Takes parse_expr ts e r := by
  refine takes_rounds_bind fun n hn => ?_
  obtain ⟨n, rfl⟩ : ∃ i, n = i + 1 := ⟨n - 1, by omega⟩
  exact takes_of_reads h n (n + 1) (by omega) hn

/-- The parser takes an expression as the reader does. -/
theorem parse_expr_iff {p : Parser} (hp : At p ts) :
    (∃ p', parse_expr.run p = (.ok e, p') ∧ At p' r) ↔
      Reads parser_rules (.whole .or_expr) ts e r := by
  constructor
  · rintro ⟨p', hrun, hp'⟩
    have h := wp_ok (parse_expr_parses ts p hp) hrun
    obtain ⟨r', hr', hreads⟩ := h
    rwa [hp'.unique hr']
  · exact fun h => parse_expr_takes h p hp

end

end Parser

end edb
