-- Literals in a source text: what a string or a number that is written as it
-- should be stands for, which the parser reads from it, and the texts in which
-- every literal and every comment is written so.
import Edb.Binary64Laws
import Edb.ListForms

namespace edb

open Grammar

/-! ## Strings -/

theorem unescape_loop_doubled (s : Bytes) :
    Parser.unescape_loop (Lexer.doubled s ++ [chr '\'']) = s := by
  induction s with
  | nil => rfl
  | cons b s ih =>
    obtain ⟨d, after, hafter⟩ : ∃ d after, Lexer.doubled s ++ [chr '\''] = d :: after :=
      List.exists_cons_of_ne_nil (by simp)
    rw [Lexer.doubled_cons, List.append_assoc, hafter]
    rw [hafter] at ih
    by_cases hb : b = chr '\''
    · rw [if_pos hb, List.cons_append, List.singleton_append, Parser.unescape_loop, if_pos ⟨hb, hb⟩,
        ih]
    · rw [if_neg hb, List.singleton_append]
      cases after with
      | nil =>
        have hs : s = [] := by
          rw [← ih]
          rfl
        rw [hs]
        rfl
      | cons c after => rw [Parser.unescape_loop, if_neg fun h => hb h.1, ih]

/-- The parser takes the quotes off again. -/
theorem unescape_quoted (s : Bytes) : Parser.unescape (Lexer.quoted s) = s :=
  unescape_loop_doubled s

/-! ## Numbers -/

/-- The text from the point on, and its digits. -/
inductive PartOf : Bytes → Bytes → Prop
  | none : PartOf [] []
  | some {ds : Bytes} : ds ≠ [] → Lexer.Digits ds → PartOf (chr '.' :: ds) ds

/-- The text from the exponent mark on, and its number. -/
inductive ScaleOf : Bytes → Int → Prop
  | none : ScaleOf [] 0
  | unsigned {mark : UInt8} {ds : Bytes} :
      Lexer.is_exponent_mark mark = true → ds ≠ [] → Lexer.Digits ds →
      ScaleOf (mark :: ds) (dec.value ds)
  | plus {mark : UInt8} {ds : Bytes} :
      Lexer.is_exponent_mark mark = true → ds ≠ [] → Lexer.Digits ds →
      ScaleOf (mark :: chr '+' :: ds) (dec.value ds)
  | minus {mark : UInt8} {ds : Bytes} :
      Lexer.is_exponent_mark mark = true → ds ≠ [] → Lexer.Digits ds →
      ScaleOf (mark :: chr '-' :: ds) (-(dec.value ds : Int))

/-- `digits [. digits] [(e|E) [+|-] digits]`: all its digits before the exponent,
and the power of ten that they are multiplied by. -/
inductive NumeralOf : Bytes → Bytes → Int → Prop
  | mk {whole fraction digits exponent : Bytes} {scale : Int} :
      whole ≠ [] → Lexer.Digits whole → PartOf fraction digits → ScaleOf exponent scale →
      NumeralOf (whole ++ fraction ++ exponent) (whole ++ digits) (scale - digits.length)

theorem read_exponent_scale {exponent : Bytes} {scale : Int} (h : ScaleOf exponent scale) :
    binary64.read_exponent 69 101 exponent = (scale, []) := by
  have hmarks : ∀ {mark : UInt8}, Lexer.is_exponent_mark mark = true → mark = 69 ∨ mark = 101 := by
    intro mark hmark
    simp only [Lexer.is_exponent_mark, Bool.or_eq_true, beq_iff_eq] at hmark
    exact hmark.symm
  cases h with
  | none => rfl
  | @unsigned mark ds hmark hne hds =>
    obtain ⟨d, more, rfl⟩ := List.exists_cons_of_ne_nil hne
    rw [binary64.read_exponent, if_pos (hmarks hmark),
      dec.read_int_of_digit (hds d List.mem_cons_self), binary64.read_nat_digits hne hds]
    rfl
  | plus hmark hne hds => exact binary64.read_exponent_plus (hmarks hmark) hne hds
  | minus hmark hne hds => exact binary64.read_exponent_minus (hmarks hmark) hne hds

/-- The mantissa goes up to a byte that is neither a digit nor a point. -/
theorem read_mantissa_part {whole fraction digits rest : Bytes} (hne : whole ≠ [])
    (hwhole : Lexer.Digits whole) (hpart : PartOf fraction digits)
    (hrest : ∀ b ∈ rest.head?, dec.is_digit b = false ∧ b ≠ chr '.') :
    binary64.read_mantissa dec.is_digit (whole ++ fraction ++ rest) = some (whole, digits, rest) := by
  cases hpart with
  | none =>
    rw [List.append_nil]
    exact binary64.read_mantissa_whole hne hwhole hrest
  | some _ hdigits =>
    exact binary64.read_mantissa_point hne hwhole hdigits fun b hb => (hrest b hb).1

theorem scaleOf_head {exponent : Bytes} {scale : Int} (h : ScaleOf exponent scale) :
    ∀ b ∈ exponent.head?, dec.is_digit b = false ∧ b ≠ chr '.' := by
  have hmark : ∀ b, Lexer.is_exponent_mark b = true → dec.is_digit b = false ∧ b ≠ chr '.' := by
    intro b hb
    simp only [Lexer.is_exponent_mark, Bool.or_eq_true, beq_iff_eq] at hb
    rcases hb with rfl | rfl <;> decide
  intro b hb
  cases h <;> cases hb <;> exact hmark _ ‹_›

/-- A number is read from the whole of its text. -/
theorem from_chars_f64_numeral {text digits : Bytes} {scale : Int} (h : NumeralOf text digits scale) :
    from_chars_f64 text =
      if binary64.of_power (dec.value digits) 10 scale = binary64.infinity ∨
          (binary64.of_power (dec.value digits) 10 scale = 0 ∧ dec.value digits ≠ 0) then none
      else some (binary64.of_power (dec.value digits) 10 scale) := by
  cases h with
  | @mk whole fraction digits exponent scale hne hwhole hpart hscale =>
    have hmantissa := read_mantissa_part hne hwhole hpart (scaleOf_head hscale)
    have hdecimal : binary64.read_decimal (whole ++ fraction ++ exponent) =
        some (binary64.of_power (dec.value (whole ++ digits)) 10 (scale - digits.length), []) := by
      unfold binary64.read_decimal
      rw [hmantissa, Option.map_some]
      dsimp only
      rw [read_exponent_scale hscale]
    unfold from_chars_f64
    rw [hmantissa, hdecimal]

/-! ## What a literal stands for -/

/-- A literal that is written as it should be, and is in range. -/
inductive Denotes : Token → Literal → Prop
  | null {t : Token} : t.kind = .KwNull → Denotes t .NullLiteral
  | true_ {t : Token} : t.kind = .KwTrue → Denotes t (.BoolLiteral true)
  | false_ {t : Token} : t.kind = .KwFalse → Denotes t (.BoolLiteral false)
  | string {t : Token} {s : Bytes} :
      t.kind = .LitString → t.text = Lexer.quoted s → Denotes t (.StrLiteral s)
  | integer {t : Token} :
      t.kind = .LitInteger → t.text ≠ [] → Lexer.Digits t.text → dec.value t.text < 2 ^ 63 →
      Denotes t (.IntLiteral (dec.value t.text))
  | float {t : Token} {digits : Bytes} {scale : Int} :
      t.kind = .LitFloat → NumeralOf t.text digits scale →
      binary64.of_power (dec.value digits) 10 scale ≠ binary64.infinity →
      (binary64.of_power (dec.value digits) 10 scale = 0 → dec.value digits = 0) →
      Denotes t (.FloatLiteral (binary64.of_power (dec.value digits) 10 scale))

theorem from_chars_nat_digits {bound : Nat} {ds : Bytes} (hne : ds ≠ []) (hds : Lexer.Digits ds) :
    from_chars_nat bound ds = if dec.value ds < bound then some (dec.value ds) else none := by
  unfold from_chars_nat
  rw [binary64.read_nat_digits hne hds]

theorem Denotes.literal {t : Token} {value : Literal} (h : Denotes t value) :
    t.literal = some value := by
  unfold Token.literal
  cases h with
  | null hk => rw [hk]
  | true_ hk => rw [hk]
  | false_ hk => rw [hk]
  | string hk htext =>
    rw [hk, htext]
    exact congrArg (fun s => some (Literal.StrLiteral s)) (unescape_quoted _)
  | integer hk hne hds hlt =>
    rw [hk]
    dsimp only
    rw [from_chars_nat_digits hne hds, if_pos hlt]
    rfl
  | float hk hnumeral hfinite hzero =>
    rw [hk]
    dsimp only
    rw [from_chars_f64_numeral hnumeral, if_neg]
    · rfl
    · rintro (h | ⟨h0, hne⟩)
      · exact hfinite h
      · exact hne (hzero h0)

/-- The grammar with every literal as it should be written. -/
def strict_rules : Rules where
  denotes := Denotes
  loose := true
  kind_of_denotes h := Token.kind_of_literal h.literal
  unique h h' := Option.some.inj (h.literal.symm.trans h'.literal)

/-- A literal token is written as it should be, and is in range. -/
def Token.WellFormed (t : Token) : Prop := t.kind ∈ LITERALS → ∃ value, Denotes t value

theorem Token.WellFormed.denotes_iff {t : Token} (h : t.WellFormed) (value : Literal) :
    t.literal = some value ↔ Denotes t value := by
  constructor
  · intro hvalue
    obtain ⟨other, hother⟩ := h (Token.kind_of_literal hvalue)
    rw [hother.literal] at hvalue
    cases hvalue
    exact hother
  · exact Denotes.literal

/-! ## Expressions -/

/-- Rules that agree on the tokens are read in the same way. -/
theorem Grammar.Reads.congr {rules other : Rules} {s : Stage} {ts r : List Token} {e : Expr}
    (h : Reads rules s ts e r) (hsame : ∀ t ∈ ts, ∀ v, rules.denotes t v → other.denotes t v) :
    Reads other s ts e r := by
  induction h with
  | first j h1 _ ih1 ih2 =>
    obtain ⟨w, rfl, -⟩ := h1.derived
    exact .first j (ih1 hsame) (ih2 fun t ht => hsame t (List.mem_append_right _ ht))
  | more j hkind h1 _ ih1 ih2 =>
    obtain ⟨w, rfl, -⟩ := h1.derived
    refine .more j hkind (ih1 fun t ht => hsame t (List.mem_cons_of_mem _ ht)) (ih2 fun t ht => ?_)
    exact hsame t (List.mem_cons_of_mem _ (List.mem_append_right _ ht))
  | stop j hstop => exact .stop j hstop
  | alone _ hnone ih => exact .alone (ih hsame) hnone
  | compared h1 hop _ ih1 ih2 =>
    obtain ⟨w, rfl, -⟩ := h1.derived
    refine .compared (ih1 hsame) hop (ih2 fun t ht => ?_)
    exact hsame t (List.mem_append_right _ (List.mem_cons_of_mem _ ht))
  | literal hvalue => exact .literal (hsame _ List.mem_cons_self _ hvalue)
  | column hkind => exact .column hkind
  | parens hlp _ hrp ih =>
    exact .parens hlp (ih fun t ht => hsame t (List.mem_cons_of_mem _ ht)) hrp

/-- From any state of the parser, with well-formed literals before it, an
expression is parsed exactly when the grammar derives it from the tokens that
are taken and no derivation goes on with the next one. The grammar derives one
tree at most. -/
theorem parse_expr_accepts_the_grammar {p : Parser} {ts : List Token} (hp : p.At ts)
    (hwell : ∀ t ∈ ts, t.WellFormed) :
    (∀ e r, (∃ p', Parser.parse_expr.run p = (.ok e, p') ∧ p'.At r) ↔
      ∃ w, ts = w ++ r ∧ Derives strict_rules .or_expr w e ∧ Maximal strict_rules w r) ∧
    ∀ w e e', Derives strict_rules .or_expr w e → Derives strict_rules .or_expr w e' → e' = e := by
  refine ⟨fun e r => ?_, fun w e e' h h' => h.unique h'⟩
  rw [Parser.parse_expr_iff hp, ← reads_iff]
  constructor
  · exact fun h => h.congr fun t ht v => ((hwell t ht).denotes_iff v).mp
  · exact fun h => h.congr fun t ht v => ((hwell t ht).denotes_iff v).mpr

/-- Of `a = 1)` the comparison is taken. -/
theorem comparison_before_a_parenthesis_is_parsed :
    ∃ p', Parser.parse_expr.run (Parser.start (str "a = 1)")) =
        (.ok (.binary .Eq (.column_ref (str "a")) (.literal (.IntLiteral 1))), p') ∧
      p'.At [{ kind := .RParen, text := str ")", line := 1, col := 6 }] := by
  let a : Token := { kind := .Identifier, text := str "a", line := 1, col := 1 }
  let op : Token := { kind := .Eq, text := str "=", line := 1, col := 3 }
  let one : Token := { kind := .LitInteger, text := str "1", line := 1, col := 5 }
  let rp : Token := { kind := .RParen, text := str ")", line := 1, col := 6 }
  have hat : (Parser.start (str "a = 1)")).At [a, op, one, rp] := by
    have htokens : Lexer.tokens (str "a = 1)") = [a, op, one, rp] := by decide
    exact htokens ▸ Parser.at_start (str "a = 1)")
  have hone : Denotes one (.IntLiteral 1) :=
    .integer rfl (by decide) (List.all_eq_true.mp (by decide)) (by decide)
  have hwell : ∀ t ∈ [a, op, one, rp], t.WellFormed := by
    intro t ht hkind
    simp only [List.mem_cons, List.not_mem_nil, or_false] at ht
    rcases ht with rfl | rfl | rfl | rfl
    · exact absurd hkind (by decide)
    · exact absurd hkind (by decide)
    · exact ⟨_, hone⟩
    · exact absurd hkind (by decide)
  have hcompared : Reads strict_rules (.whole .cmp_expr) [a, op, one, rp]
      (.binary .Eq (.column_ref (str "a")) (.literal (.IntLiteral 1))) [rp] :=
    .compared (t := op) (.column rfl) rfl (.literal hone)
  have hreads : Reads strict_rules (.whole .or_expr) [a, op, one, rp] _ [rp] :=
    .first .or_ (.first .and_ hcompared (.stop .and_ (by decide))) (.stop .or_ (by decide))
  exact ((parse_expr_accepts_the_grammar hat hwell).1 _ _).mpr (reads_iff.mp hreads)

/-! ## Texts that end where they should -/

namespace Lexer

/-- Where a reader of single bytes is: outside of everything, in a string, in a
line comment, in a block comment, or between the two bytes of its marks. -/
inductive Mode where
  | outside
  | string
  | line
  | opening
  | block
  | closing
  deriving DecidableEq, Repr

/-- The text does not end in a string or in a block comment. Of two quotes in a
string the first one closes it and the second one opens it again. -/
def ends_outside : Mode → Bytes → Bool
  | .outside, [] => true
  | .outside, b :: rest =>
    if b = chr '\'' then ends_outside .string rest
    else if b = chr '-' ∧ rest.head? = some (chr '-') then ends_outside .line rest
    else if b = chr '/' ∧ rest.head? = some (chr '*') then ends_outside .opening rest
    else ends_outside .outside rest
  | .string, [] => false
  | .string, b :: rest =>
    if b = chr '\'' then ends_outside .outside rest else ends_outside .string rest
  | .line, [] => true
  | .line, b :: rest =>
    if b = chr '\n' then ends_outside .outside rest else ends_outside .line rest
  | .opening, [] => false
  | .opening, _ :: rest => ends_outside .block rest
  | .block, [] => false
  | .block, b :: rest =>
    if b = chr '*' ∧ rest.head? = some (chr '/') then ends_outside .closing rest
    else ends_outside .block rest
  | .closing, [] => true
  | .closing, _ :: rest => ends_outside .outside rest

/-- A byte that opens neither a string nor a comment. -/
theorem ends_outside_cons {b : UInt8} {rest : Bytes} (hquote : b ≠ chr '\'')
    (hline : ¬ (b = chr '-' ∧ rest.head? = some (chr '-')))
    (hblock : ¬ (b = chr '/' ∧ rest.head? = some (chr '*'))) :
    ends_outside .outside (b :: rest) = ends_outside .outside rest := by
  rw [ends_outside, if_neg hquote, if_neg hline, if_neg hblock]

theorem ends_outside_comment (rest : Bytes) :
    ends_outside .outside (chr '/' :: chr '*' :: rest) = ends_outside .block rest := rfl

/-- A run of bytes of which none opens anything. -/
theorem ends_outside_run {p : UInt8 → Bool} {r : Bytes} (rest : Bytes) (hrun : ∀ b ∈ r, p b = true)
    (hp : p (chr '\'') = false ∧ p (chr '-') = false ∧ p (chr '/') = false) :
    ends_outside .outside (r ++ rest) = ends_outside .outside rest := by
  induction r with
  | nil => rfl
  | cons b r ih =>
    have hb := hrun b List.mem_cons_self
    have hne : ∀ c, p c = false → b ≠ c := by
      rintro c hc rfl
      rw [hc] at hb
      cases hb
    rw [List.cons_append, ends_outside_cons (hne _ hp.1) (fun h => hne _ hp.2.1 h.1)
      fun h => hne _ hp.2.2 h.1]
    exact ih fun c hc => hrun c (List.mem_cons_of_mem _ hc)

theorem ends_outside_line {body rest : Bytes} (hbody : chr '\n' ∉ body)
    (hrest : ∀ b ∈ rest.head?, b = chr '\n') :
    ends_outside .line (body ++ rest) = ends_outside .outside rest := by
  induction body with
  | nil =>
    rcases rest with _ | ⟨b, rest⟩
    · rfl
    · obtain rfl := hrest b rfl
      rfl
  | cons b body ih =>
    rw [List.mem_cons, not_or] at hbody
    rw [List.cons_append, ends_outside, if_neg fun h => hbody.1 h.symm]
    exact ih hbody.2

theorem ends_outside_block {body : Bytes} (hbody : Unclosed body) (rest : Bytes) :
    ends_outside .block (body ++ chr '*' :: chr '/' :: rest) = ends_outside .outside rest := by
  induction body with
  | nil => rfl
  | cons b body ih =>
    obtain ⟨hfirst, hbody⟩ := unclosed_cons.mp hbody
    rw [List.cons_append, ends_outside, if_neg, ih hbody]
    rintro ⟨hb, hhead⟩
    cases body with
    | nil => exact absurd hhead (by simp; decide)
    | cons c body => exact hfirst ⟨hb, by simpa using hhead⟩

theorem ends_outside_open_block {body : Bytes} (hbody : Unclosed body) :
    ends_outside .block body = false := by
  induction body with
  | nil => rfl
  | cons b body ih =>
    obtain ⟨hfirst, hbody⟩ := unclosed_cons.mp hbody
    rw [ends_outside, if_neg hfirst, ih hbody]

theorem ends_outside_string (s rest : Bytes) :
    ends_outside .string (doubled s ++ rest) = ends_outside .string rest := by
  induction s with
  | nil => rfl
  | cons b s ih =>
    rw [doubled_cons, List.append_assoc]
    by_cases hb : b = chr '\''
    · subst hb
      exact ih
    · rw [if_neg hb, List.singleton_append, ends_outside, if_neg hb, ih]

/-- Closed comments leave the reader outside. -/
theorem Skipped.ends_outside_eq {gap rest : Bytes} (h : Skipped false gap rest) :
    ends_outside .outside (gap ++ rest) = ends_outside .outside rest := by
  induction h with
  | nil => rfl
  | @blank b gap rest hb _ ih =>
    have hrun := ends_outside_run (p := is_blank) (r := [b]) (gap ++ rest) (by simpa using hb)
      (by decide)
    exact hrun.trans ih
  | @line body gap rest hbody hend _ ih =>
    rw [List.append_assoc, ← ih, ← ends_outside_line hbody hend]
    rfl
  | @block body gap rest hbody _ ih =>
    rw [← ih, ← ends_outside_block hbody (gap ++ rest), ← ends_outside_comment]
    simp
  | open_block h _ => cases h

/-- Only right before the end of the source a comment can be open. -/
theorem Skipped.strict {gap rest : Bytes} (h : Skipped true gap rest) (hne : rest ≠ []) :
    Skipped false gap rest := by
  induction h with
  | nil => exact .nil
  | blank hb _ ih => exact .blank hb (ih hne)
  | line hbody hend _ ih => exact .line hbody hend (ih hne)
  | block hbody _ ih => exact .block hbody (ih hne)
  | open_block _ _ => exact absurd rfl hne

theorem Skipped.strict_of_ends {gap : Bytes} (h : Skipped true gap [])
    (hends : ends_outside .outside gap = true) : Skipped false gap [] := by
  generalize hrest : ([] : Bytes) = rest at h
  induction h with
  | nil => exact .nil
  | @blank b gap rest hb _ ih =>
    refine .blank hb (ih ?_ hrest)
    rw [← hends]
    exact (ends_outside_run (p := is_blank) (r := [b]) gap (by simpa using hb) (by decide)).symm
  | @line body gap rest hbody hend _ ih =>
    subst hrest
    rw [List.append_nil] at hend
    refine .line hbody (by rwa [List.append_nil]) (ih ?_ rfl)
    rw [← hends, ← ends_outside_line hbody hend]
    rfl
  | @block body gap rest hbody _ ih =>
    refine .block hbody (ih ?_ hrest)
    rw [← hends, ← ends_outside_block hbody gap]
    rfl
  | @open_block body _ hbody =>
    rw [ends_outside_comment, ends_outside_open_block hbody] at hends
    cases hends

theorem is_ident_char_of_start {c : UInt8} (h : is_ident_start c = true) : is_ident_char c = true := by
  unfold is_ident_start at h
  unfold is_ident_char
  rw [Bool.or_eq_true] at h
  rcases h with h | h <;> simp [h]

theorem Exponent.ends_outside_eq {exponent rest : Bytes} (h : Exponent false exponent rest) :
    ends_outside .outside (exponent ++ rest) = ends_outside .outside rest := by
  have hdigits : ∀ {ds : Bytes}, Digits ds →
      ends_outside .outside (ds ++ rest) = ends_outside .outside rest :=
    fun hds => ends_outside_run rest hds (by decide)
  have hmark : ∀ {mark : UInt8} {after : Bytes}, is_exponent_mark mark = true →
      ends_outside .outside (mark :: after) = ends_outside .outside after :=
    fun hmark => ends_outside_run (p := is_exponent_mark) (r := [_]) _ (by simpa using hmark)
      (by decide)
  cases h with
  | none _ => rfl
  | unsigned he _ hds _ _ =>
    rw [List.cons_append, hmark he]
    exact hdigits hds
  | @signed mark sign ds _ he hsign hds hne _ =>
    obtain ⟨d, more, rfl⟩ := List.exists_cons_of_ne_nil (hne.resolve_left (by decide))
    have hd := hds d List.mem_cons_self
    have hsigns : sign = chr '+' ∨ sign = chr '-' := by simpa [is_sign] using hsign
    rw [List.cons_append, hmark he, List.cons_append, ends_outside_cons]
    · exact hdigits hds
    · rcases hsigns with rfl | rfl <;> decide
    · rintro ⟨-, hhead⟩
      cases hhead
      exact absurd hd (by decide)
    · rintro ⟨hslash, -⟩
      rcases hsigns with rfl | rfl <;> exact absurd hslash (by decide)

/-- A token that is written as it should be leaves the reader outside. -/
theorem Lexeme.ends_outside_eq {kind : TokenKind} {text rest : Bytes}
    (h : Lexeme false kind text rest) :
    ends_outside .outside (text ++ rest) = ends_outside .outside rest := by
  cases h with
  | @mark c _ _ hsingle _ =>
    exact ends_outside_run (p := fun b => (single b).isSome) (r := [c]) rest (by simp [hsingle])
      (by decide)
  | @double_mark c d _ _ hpair =>
    refine ends_outside_run (p := fun b => (single b).isSome) (r := [c, d]) rest ?_ (by decide)
    rcases pair_eq_some hpair with ⟨rfl, rfl, -⟩ | ⟨rfl, rfl, -⟩ | ⟨rfl, rfl, -⟩ <;>
      exact List.all_eq_true.mp (by decide)
  | @string s _ _ =>
    have hstring := ends_outside_string s (chr '\'' :: rest)
    unfold quoted
    rw [List.append_assoc]
    exact hstring
  | open_string h => cases h
  | word hc hcs _ =>
    refine ends_outside_run rest (p := is_ident_char) (fun b hb => ?_) (by decide)
    rcases List.mem_cons.mp hb with rfl | hb
    · exact is_ident_char_of_start hc
    · exact hcs b hb
  | @number c whole fraction exponent _ hc hwhole _ hfraction hexponent =>
    have hrun : ∀ b ∈ c :: whole ++ fraction, (dec.is_digit b || b == chr '.') = true := by
      intro b hb
      rcases List.mem_append.mp hb with hb | hb
      · rcases List.mem_cons.mp hb with rfl | hb
        · simp [hc]
        · simp [hwhole b hb]
      · cases hfraction with
        | none _ => cases hb
        | some _ hds _ =>
          rcases List.mem_cons.mp hb with rfl | hb
          · decide
          · simp [hds b hb]
    rw [List.append_assoc, ends_outside_run (exponent ++ rest) hrun (by decide)]
    exact hexponent.ends_outside_eq
  | unknown hbegins _ hquote _ _ =>
    obtain ⟨-, hline, hblock⟩ := hbegins _ _ rfl
    exact ends_outside_cons hquote hline hblock

/-- A number ends in a digit. -/
def digit_last (text : Bytes) : Bool := text.getLast?.any dec.is_digit

theorem digit_last_append (front : Bytes) {ds : Bytes} (hne : ds ≠ []) (hds : Digits ds) :
    digit_last (front ++ ds) = true := by
  unfold digit_last
  rw [List.getLast?_append, List.getLast?_eq_some_getLast hne, Option.some_or]
  exact hds _ (List.getLast_mem hne)

/-- Only numbers have their kinds. -/
theorem Lexeme.number_of_kind {lax : Bool} {kind : TokenKind} {text rest : Bytes}
    (h : Lexeme lax kind text rest) (hkind : kind = .LitInteger ∨ kind = .LitFloat) :
    ∃ whole fraction exponent, text = whole ++ fraction ++ exponent ∧ whole ≠ [] ∧ Digits whole ∧
      Fraction fraction (exponent ++ rest) ∧ Exponent lax exponent rest ∧
      kind = if fraction = [] ∧ exponent = [] then .LitInteger else .LitFloat := by
  cases h with
  | mark hsingle _ =>
    have hmarks : ∀ entry ∈ MARKS, entry.2 ≠ .LitInteger ∧ entry.2 ≠ .LitFloat := by decide
    have hne := hmarks _ (mem_of_single hsingle)
    exact absurd hkind (not_or.mpr hne)
  | double_mark hpair =>
    rcases pair_eq_some hpair with ⟨-, -, rfl⟩ | ⟨-, -, rfl⟩ | ⟨-, -, rfl⟩ <;>
      exact absurd hkind (by decide)
  | string _ => exact absurd hkind (by decide)
  | open_string _ => exact absurd hkind (by decide)
  | word _ _ _ =>
    rcases hkind with h | h <;> exact absurd h (match_keyword_ne _ (by decide) (by decide))
  | @number c whole fraction exponent _ hc hwhole _ hfraction hexponent =>
    exact ⟨c :: whole, fraction, exponent, rfl, by simp, List.forall_mem_cons.mpr ⟨hc, hwhole⟩,
      hfraction, hexponent, rfl⟩
  | unknown _ _ _ _ _ => exact absurd hkind (by decide)

theorem Lexeme.quoted_of_kind {text rest : Bytes} (h : Lexeme false .LitString text rest) :
    ∃ s, text = quoted s := by
  generalize hkind : TokenKind.LitString = kind at h
  cases h with
  | mark hsingle _ =>
    have hmarks : ∀ entry ∈ MARKS, entry.2 ≠ .LitString := by decide
    exact absurd hkind.symm (hmarks _ (mem_of_single hsingle))
  | double_mark hpair =>
    rcases pair_eq_some hpair with ⟨-, -, rfl⟩ | ⟨-, -, rfl⟩ | ⟨-, -, rfl⟩ <;> cases hkind
  | string _ => exact ⟨_, rfl⟩
  | open_string h => cases h
  | word _ _ _ => exact absurd hkind.symm (match_keyword_ne _ (by decide) (by decide))
  | number _ _ _ _ _ => split at hkind <;> cases hkind
  | unknown _ _ _ _ _ => cases hkind

theorem Exponent.scaleOf {exponent rest : Bytes} (h : Exponent false exponent rest) :
    ∃ scale, ScaleOf exponent scale := by
  cases h with
  | none _ => exact ⟨_, .none⟩
  | unsigned hmark _ hds hne _ => exact ⟨_, .unsigned hmark (hne.resolve_left (by decide)) hds⟩
  | @signed mark sign ds _ hmark hsign hds hne _ =>
    have hne := hne.resolve_left (by decide)
    have hsigns : sign = chr '+' ∨ sign = chr '-' := by simpa [is_sign] using hsign
    rcases hsigns with rfl | rfl
    · exact ⟨_, .plus hmark hne hds⟩
    · exact ⟨_, .minus hmark hne hds⟩

theorem Fraction.partOf {fraction rest : Bytes} (h : Fraction fraction rest) :
    ∃ digits, PartOf fraction digits := by
  cases h with
  | none _ => exact ⟨_, .none⟩
  | some hne hds _ => exact ⟨_, .some hne hds⟩

/-- An exponent has digits exactly when the number ends in one. -/
theorem Exponent.strict_iff {exponent rest : Bytes} (h : Exponent true exponent rest)
    (hne : exponent ≠ []) (front : Bytes) :
    Exponent false exponent rest ↔ digit_last (front ++ exponent) = true := by
  have hmark : ∀ {b : UInt8}, is_exponent_mark b = true → dec.is_digit b = false := by
    intro b hb
    simp only [is_exponent_mark, Bool.or_eq_true, beq_iff_eq] at hb
    rcases hb with rfl | rfl <;> decide
  have hsigns : ∀ {b : UInt8}, is_sign b = true → dec.is_digit b = false := by
    intro b hb
    simp only [is_sign, Bool.or_eq_true, beq_iff_eq] at hb
    rcases hb with rfl | rfl <;> decide
  cases h with
  | none _ => exact absurd rfl hne
  | @unsigned mark ds _ hm hsign hds _ hend =>
    by_cases hempty : ds = []
    · subst hempty
      have hlast : digit_last (front ++ [mark]) = false := by simp [digit_last, hmark hm]
      rw [hlast]
      refine ⟨fun hstrict => ?_, fun h => by cases h⟩
      cases hstrict with
      | unsigned _ _ _ hne _ => exact absurd rfl (hne.resolve_left (by decide))
    · have hlast := digit_last_append (front ++ [mark]) hempty hds
      rw [List.append_assoc] at hlast
      exact ⟨fun _ => hlast, fun _ => .unsigned hm hsign hds (Or.inr hempty) hend⟩
  | @signed mark sign ds _ hm hsign hds _ hend =>
    by_cases hempty : ds = []
    · subst hempty
      have hlast : digit_last (front ++ [mark, sign]) = false := by simp [digit_last, hsigns hsign]
      rw [hlast]
      refine ⟨fun hstrict => ?_, fun h => by cases h⟩
      cases hstrict with
      | unsigned _ hfirst _ _ _ =>
        rw [hfirst sign rfl] at hsign
        cases hsign
      | signed _ _ _ hne _ => exact absurd rfl (hne.resolve_left (by decide))
    · have hlast := digit_last_append (front ++ [mark, sign]) hempty hds
      rw [List.append_assoc] at hlast
      exact ⟨fun _ => hlast, fun _ => .signed hm hsign hds (Or.inr hempty) hend⟩

theorem Exponent.lax {exponent rest : Bytes} (h : Exponent false exponent rest) :
    Exponent true exponent rest := by
  cases h with
  | none hend => exact .none hend
  | unsigned hm hsign hds _ hend => exact .unsigned hm hsign hds (Or.inl rfl) hend
  | signed hm hsign hds _ hend => exact .signed hm hsign hds (Or.inl rfl) hend

theorem Lexeme.digit_last {text rest : Bytes} (h : Lexeme false .LitFloat text rest) :
    digit_last text = true := by
  obtain ⟨whole, fraction, exponent, rfl, -, -, hfraction, hexponent, hkind⟩ :=
    h.number_of_kind (Or.inr rfl)
  by_cases hne : exponent = []
  · subst hne
    cases hfraction with
    | none _ => cases hkind
    | some hne hds _ =>
      have hlast := digit_last_append (whole ++ [chr '.']) hne hds
      rw [List.append_assoc] at hlast
      rwa [List.append_nil]
  · exact (hexponent.lax.strict_iff hne _).mp hexponent

/-- What the lexer takes is written as it should be where the source does not
end in a string, and the number does not end before the digits of its exponent. -/
theorem Lexeme.strict {kind : TokenKind} {text rest : Bytes} (h : Lexeme true kind text rest)
    (hends : ends_outside .outside (text ++ rest) = true)
    (hlast : kind = .LitFloat → Lexer.digit_last text = true) : Lexeme false kind text rest := by
  cases h with
  | mark hsingle hrest => exact .mark hsingle hrest
  | double_mark hpair => exact .double_mark hpair
  | string hrest => exact .string hrest
  | @open_string s _ =>
    have hopen : ends_outside .outside (chr '\'' :: doubled s ++ []) = false :=
      ends_outside_string s []
    rw [hopen] at hends
    cases hends
  | word hc hcs hrest => exact .word hc hcs hrest
  | @number c whole fraction exponent _ hc hwhole hrest hfraction hexponent =>
    refine .number hc hwhole hrest hfraction ?_
    by_cases hne : exponent = []
    · subst hne
      cases hexponent with
      | none hend => exact .none hend
    · exact (hexponent.strict_iff hne _).mpr (hlast (if_neg fun h => hne h.2))
  | unknown hbegins hsingle hquote hword hdigit =>
    exact .unknown hbegins hsingle hquote hword hdigit

theorem Layout.strict_of_ends {before text : Bytes} {ts : List Token}
    (h : Layout true before text ts) (hends : ends_outside .outside text = true)
    (hlast : ∀ t ∈ ts, t.kind = .LitFloat → digit_last t.text = true) :
    Layout false before text ts := by
  induction h with
  | done hgap => exact .done (hgap.strict_of_ends hends)
  | @token before gap text rest kind ts hgap hlexeme _ ih =>
    obtain ⟨hfirst, hmore⟩ := List.forall_mem_cons.mp hlast
    have hgap := hgap.strict (by simp [hlexeme.ne_nil])
    rw [hgap.ends_outside_eq] at hends
    have hlexeme := hlexeme.strict hends hfirst
    rw [hlexeme.ends_outside_eq] at hends
    exact .token hgap hlexeme (ih hends hmore)

theorem Layout.ends_of_strict {before text : Bytes} {ts : List Token}
    (h : Layout false before text ts) : ends_outside .outside text = true := by
  induction h with
  | @done before gap hgap =>
    have hends := hgap.ends_outside_eq
    rwa [List.append_nil] at hends
  | token hgap hlexeme _ ih => rw [hgap.ends_outside_eq, hlexeme.ends_outside_eq, ih]

theorem Layout.lexeme_of_mem {lax : Bool} {before text : Bytes} {ts : List Token} {t : Token}
    (h : Layout lax before text ts) (ht : t ∈ ts) : ∃ rest, Lexeme lax t.kind t.text rest := by
  induction h with
  | done _ => cases ht
  | token _ hlexeme _ ih =>
    rcases List.mem_cons.mp ht with rfl | ht
    · exact ⟨_, hlexeme⟩
    · exact ih ht

/-- In a source with closed strings and comments, and with digits in every
exponent, the tokens are those of the documented forms. -/
theorem layout_strict_iff (src : Bytes) :
    Layout false [] src (tokens src) ↔ ends_outside .outside src = true ∧
      ∀ t ∈ tokens src, t.kind = .LitFloat → digit_last t.text = true := by
  constructor
  · intro h
    refine ⟨h.ends_of_strict, fun t ht hkind => ?_⟩
    obtain ⟨rest, hlexeme⟩ := h.lexeme_of_mem ht
    rw [hkind] at hlexeme
    exact hlexeme.digit_last
  · rintro ⟨hends, hlast⟩
    exact (layout_tokens src).strict_of_ends hends hlast

end Lexer

/-- A literal of a documented form, in range, stands for what it should. -/
theorem Denotes.of_lexeme {t : Token} {value : Literal} {rest : Bytes}
    (h : Lexer.Lexeme false t.kind t.text rest) (hvalue : t.literal = some value) :
    Denotes t value := by
  refine (Token.WellFormed.denotes_iff (fun _ => ?_) value).mp hvalue
  unfold Token.literal at hvalue
  cases hkind : t.kind <;> rw [hkind] at h hvalue <;> try (cases hvalue; done)
  case KwNull => exact ⟨_, .null hkind⟩
  case KwTrue => exact ⟨_, .true_ hkind⟩
  case KwFalse => exact ⟨_, .false_ hkind⟩
  case LitString =>
    obtain ⟨s, hs⟩ := h.quoted_of_kind
    exact ⟨_, .string hkind hs⟩
  case LitInteger =>
    obtain ⟨whole, fraction, exponent, htext, hne, hds, -, -, hparts⟩ :=
      h.number_of_kind (Or.inl rfl)
    have hempty : fraction = [] ∧ exponent = [] := by
      by_contra hother
      rw [if_neg hother] at hparts
      cases hparts
    rw [hempty.1, hempty.2, List.append_nil, List.append_nil] at htext
    rw [← htext] at hne hds
    dsimp only at hvalue
    rw [from_chars_nat_digits hne hds] at hvalue
    by_cases hlt : dec.value t.text < 2 ^ 63
    · exact ⟨_, .integer hkind hne hds hlt⟩
    · rw [if_neg hlt] at hvalue
      cases hvalue
  case LitFloat =>
    obtain ⟨whole, fraction, exponent, htext, hne, hds, hfraction, hexponent, -⟩ :=
      h.number_of_kind (Or.inr rfl)
    obtain ⟨digits, hpart⟩ := hfraction.partOf
    obtain ⟨scale, hscale⟩ := hexponent.scaleOf
    have hnumeral := NumeralOf.mk hne hds hpart hscale
    rw [← htext] at hnumeral
    dsimp only at hvalue
    rw [from_chars_f64_numeral hnumeral] at hvalue
    split at hvalue
    · cases hvalue
    · rename_i hrange
      rw [not_or, not_and, not_not] at hrange
      exact ⟨_, .float hkind hnumeral hrange.1 hrange.2⟩

/-- A source that parses is written as it should be, with every comment and
every string closed, with digits in every exponent and with the value that the
whole text of each literal stands for, exactly when it does not end in a string
or a block comment and no number ends in an exponent mark or a sign. -/
theorem literals_are_strict_iff {src : Bytes} {stmts : List Stmt}
    (h : (Parser.parse.run (Parser.start src)).1 = .ok stmts) :
    (Lexer.Layout false [] src (Lexer.tokens src) ∧
        ProgramOf strict_rules (Lexer.tokens src) stmts) ↔
      Lexer.ends_outside .outside src = true ∧
        ∀ t ∈ Lexer.tokens src, t.kind = .LitFloat → Lexer.digit_last t.text = true := by
  rw [← Lexer.layout_strict_iff]
  refine ⟨And.left, fun hlayout => ⟨hlayout, ?_⟩⟩
  refine (Parser.parse_iff.mp h).refine ⟨fun t ht v hv => ?_, Or.inl rfl⟩
  obtain ⟨rest, hlexeme⟩ := hlayout.lexeme_of_mem ht
  exact .of_lexeme hlexeme hv

/-- A string with a quote in it, a comment and a number with an exponent. -/
theorem closed_literals_are_strict :
    Lexer.Layout false [] (str "SELECT 'it''s', 1.5e-2 /* x */ FROM t")
        (Lexer.tokens (str "SELECT 'it''s', 1.5e-2 /* x */ FROM t")) ∧
      ProgramOf strict_rules (Lexer.tokens (str "SELECT 'it''s', 1.5e-2 /* x */ FROM t"))
        [.select ⟨[.ExprItem (.literal (.StrLiteral (str "it's"))) none,
          .ExprItem (.literal (.FloatLiteral 0x3F8EB851EB851EB8)) none], str "t", none⟩] :=
  (literals_are_strict_iff (by decide)).mpr (by decide +kernel)

/-- A string without an end loses its last byte, a comment without an end is
taken for white space, and an exponent without digits is left out. -/
theorem open_literals_are_parsed :
    (Parser.parse.run (Parser.start (str "SELECT a FROM t WHERE a = 'xy"))).1 =
        .ok [.select ⟨[.ExprItem (.column_ref (str "a")) none], str "t",
          some (.binary .Eq (.column_ref (str "a")) (.literal (.StrLiteral (str "x"))))⟩] ∧
      ¬ Lexer.Layout false [] (str "SELECT a FROM t WHERE a = 'xy")
        (Lexer.tokens (str "SELECT a FROM t WHERE a = 'xy")) ∧
      (Parser.parse.run (Parser.start (str "SELECT a FROM t /* x"))).1 =
        .ok [.select ⟨[.ExprItem (.column_ref (str "a")) none], str "t", none⟩] ∧
      ¬ Lexer.Layout false [] (str "SELECT a FROM t /* x")
        (Lexer.tokens (str "SELECT a FROM t /* x")) ∧
      (Parser.parse.run (Parser.start (str "SELECT 1e FROM t"))).1 =
        .ok [.select ⟨[.ExprItem (.literal (.FloatLiteral 0x3FF0000000000000)) none],
          str "t", none⟩] ∧
      ¬ Lexer.Layout false [] (str "SELECT 1e FROM t")
        (Lexer.tokens (str "SELECT 1e FROM t")) := by
  refine ⟨by decide, ?_, by decide +kernel, ?_, by decide +kernel, ?_⟩ <;>
    rw [Lexer.layout_strict_iff] <;> decide

end edb
