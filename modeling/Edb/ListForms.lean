-- The lists of a source text. The parser also takes a list that is empty or
-- ends in a comma, and it does so exactly where a parenthesis closes right
-- after an opening one or after a comma.
import Mathlib.Data.List.Chain
import Edb.ParserStmts

namespace edb

namespace Grammar

/-! ## One grammar in another -/

/-- No parenthesis closes right after an opening one or after a comma. -/
def Tidy (ts : List Token) : Prop :=
  ts.IsChain fun a b => b.kind = .RParen → a.kind ≠ .LParen ∧ a.kind ≠ .Comma

instance (ts : List Token) : Decidable (Tidy ts) :=
  inferInstanceAs (Decidable (ts.IsChain fun a b =>
    b.kind = .RParen → a.kind ≠ .LParen ∧ a.kind ≠ .Comma))

/-- On the tokens `ts` a derivation of `rules` is one of `other`: a literal stands
for the same, and where only `rules` has loose lists there is none. -/
structure Refines (rules other : Rules) (ts : List Token) : Prop where
  denotes : ∀ t ∈ ts, ∀ v, rules.denotes t v → other.denotes t v
  lists : other.loose = true ∨ Tidy ts

section

variable {rules other : Rules}

theorem Refines.left {u v : List Token} (h : Refines rules other (u ++ v)) :
    Refines rules other u where
  denotes t ht := h.denotes t (List.mem_append_left _ ht)
  lists := h.lists.imp_right List.IsChain.left_of_append

theorem Refines.right {u v : List Token} (h : Refines rules other (u ++ v)) :
    Refines rules other v where
  denotes t ht := h.denotes t (List.mem_append_right _ ht)
  lists := h.lists.imp_right List.IsChain.right_of_append

theorem Refines.tail {t : Token} {v : List Token} (h : Refines rules other (t :: v)) :
    Refines rules other v := Refines.right (u := [t]) h

theorem Derives.refine {n : Nonterminal} {w : List Token} {e : Expr} (h : Derives rules n w e)
    (hw : Refines rules other w) : Derives other n w e := by
  induction h with
  | operand j _ ih => exact .operand j (ih hw)
  | joined j _ hkind _ ih1 ih2 => exact .joined j (ih1 hw.left) hkind (ih2 hw.right.tail)
  | alone _ ih => exact .alone (ih hw)
  | compared _ hop _ ih1 ih2 => exact .compared (ih1 hw.left) hop (ih2 hw.right.tail)
  | literal hvalue => exact .literal (hw.denotes _ List.mem_cons_self _ hvalue)
  | column hkind => exact .column hkind
  | parens hlp _ hrp ih => exact .parens hlp (ih hw.tail.left) hrp

section

variable {α : Type} {element element' : List Token → α → Prop}

theorem Separated.refine {w : List Token} {xs : List α} (h : Separated element w xs)
    (hw : Refines rules other w)
    (helement : ∀ {v x}, Refines rules other v → element v x → element' v x) :
    Separated element' w xs := by
  induction h with
  | one hx => exact .one (helement hw hx)
  | more hx hc _ ih => exact .more (helement hw.left hx) hc (ih hw.right.tail)

theorem Listed.refine {lp rp : Token} {w : List Token} {xs : List α} (hlp : lp.kind = .LParen)
    (hrp : rp.kind = .RParen) (h : Listed element rules.loose w xs)
    (hw : Refines rules other (lp :: (w ++ [rp])))
    (helement : ∀ {v x}, Refines rules other v → element v x → element' v x) :
    Listed element' other.loose w xs := by
  cases h with
  | separated hsep => exact .separated (hsep.refine hw.tail.left helement)
  | empty _ =>
    rcases hw.lists with hloose | htidy
    · exact .empty hloose
    · have hpair := (List.isChain_pair.mp htidy) hrp
      exact absurd hlp hpair.1
  | @trailing v _ c _ hsep hc =>
    rcases hw.lists with hloose | htidy
    · exact .trailing hloose (hsep.refine hw.tail.left.left helement) hc
    · have hend : Tidy ([c] ++ [rp]) := by
        rw [← List.cons_append, ← List.cons_append, List.append_assoc] at htidy
        exact htidy.right_of_append
      exact absurd hc ((List.isChain_pair.mp hend) hrp).2

end

variable {w : List Token}

theorem StmtOf.refine {s : Stmt} (h : StmtOf rules w s) (hw : Refines rules other w) :
    StmtOf other w s := by
  cases h with
  | create_table h =>
    cases h with
    | mk hcreate htable hguard hname hlp hcolumns hrp =>
      have hinside := hw.tail.tail.right.tail
      exact .create_table (.mk hcreate htable hguard hname hlp
        (hcolumns.refine hlp hrp hinside fun _ h => h) hrp)
  | insert h =>
    cases h with
    | mk hinsert hinto hname htargets hvalues hrows =>
      have hrest := hw.tail.tail.tail
      refine .insert (.mk hinsert hinto hname ?_ hvalues (hrows.refine hrest.right.tail fun hv hrow => ?_))
      · cases htargets with
        | absent => exact .absent
        | present hlp hnames hrp =>
          exact .present hlp (hnames.refine hlp hrp hrest.left fun _ h => h) hrp
      · cases hrow with
        | mk hlp hexprs hrp => exact .mk hlp (hexprs.refine hlp hrp hv fun hv h => h.refine hv) hrp
  | select h =>
    cases h with
    | mk hselect hitems hkw hname hwhere =>
      refine .select (.mk hselect (hitems.refine hw.tail.left fun hv hitem => ?_) hkw hname ?_)
      · cases hitem with
        | star ht => exact .star ht
        | expr he ha => exact .expr (he.refine hv.left) ha
      · cases hwhere with
        | absent => exact .absent
        | present hkw he => exact .present hkw (he.refine hw.tail.right.tail.tail.tail)

theorem ProgramOf.refine {stmts : List Stmt} (h : ProgramOf rules w stmts)
    (hw : Refines rules other w) : ProgramOf other w stmts := by
  induction h with
  | done hlead => exact .done hlead
  | stmt hlead hs htrail hno _ ih =>
    exact .stmt hlead (hs.refine hw.right.left) htrail hno (ih hw.right.right.right)

end

/-! ## Lists of one element or more -/

/-- Tokens that leave no parenthesis right after an opening one or a comma,
between them and at their two ends. -/
structure Neat (w : List Token) : Prop where
  tidy : Tidy w
  head : ∀ t ∈ w.head?, t.kind ≠ .RParen
  last : ∀ t ∈ w.getLast?, t.kind ≠ .LParen ∧ t.kind ≠ .Comma

theorem neat_nil : Neat [] := ⟨.nil, fun _ h => (nomatch h), fun _ h => (nomatch h)⟩

theorem neat_single {t : Token} {kind : TokenKind} (h : t.kind = kind)
    (hkind : kind ≠ .RParen ∧ kind ≠ .LParen ∧ kind ≠ .Comma) : Neat [t] := by
  subst h
  refine ⟨.singleton _, fun u hu => ?_, fun u hu => ?_⟩
  · cases hu
    exact hkind.1
  · cases hu
    exact hkind.2

theorem Neat.append {u v : List Token} (hu : Neat u) (hv : Neat v) : Neat (u ++ v) where
  tidy := hu.tidy.append hv.tidy fun a ha b hb hrp => absurd hrp (hv.head b hb)
  head := by
    cases u with
    | nil => exact hv.head
    | cons t u => exact hu.head
  last := by
    intro t ht
    rw [List.getLast?_append, Option.mem_def, Option.or_eq_some_iff] at ht
    rcases ht with ht | ⟨-, ht⟩
    · exact hv.last t ht
    · exact hu.last t ht

theorem Neat.cons {t : Token} {kind : TokenKind} {v : List Token} (h : t.kind = kind)
    (hkind : kind ≠ .RParen ∧ kind ≠ .LParen ∧ kind ≠ .Comma) (hv : Neat v) : Neat (t :: v) :=
  (neat_single h hkind).append hv

theorem Neat.comma {u v : List Token} {c : Token} (hu : Neat u) (hc : c.kind = .Comma)
    (hv : Neat v) (hne : v ≠ []) : Neat (u ++ c :: v) where
  tidy := by
    have hright : Tidy (c :: v) := hv.tidy.cons fun b hb hrp => absurd hrp (hv.head b hb)
    refine hu.tidy.append hright fun a ha b hb hrp => ?_
    cases hb
    rw [hc] at hrp
    cases hrp
  head := by
    cases u with
    | nil =>
      intro t ht
      cases ht
      rw [hc]
      decide
    | cons t u => exact hu.head
  last := by
    intro t ht
    obtain ⟨a, v, rfl⟩ := List.exists_cons_of_ne_nil hne
    rw [List.getLast?_append, List.getLast?_cons_cons, Option.mem_def, Option.or_eq_some_iff] at ht
    rcases ht with ht | ⟨ht, -⟩
    · exact hv.last t ht
    · simp at ht

theorem Neat.parens {lp rp : Token} {v : List Token} (hlp : lp.kind = .LParen) (hv : Neat v)
    (hne : v ≠ []) (hrp : rp.kind = .RParen) : Neat (lp :: (v ++ [rp])) where
  tidy := by
    have hclosed : Tidy (v ++ [rp]) := hv.tidy.append (.singleton _) fun a ha _ _ _ => hv.last a ha
    obtain ⟨a, v, rfl⟩ := List.exists_cons_of_ne_nil hne
    refine hclosed.cons fun b hb hb' => ?_
    cases hb
    exact absurd hb' (hv.head _ rfl)
  head := by
    intro t ht
    cases ht
    rw [hlp]
    decide
  last := by
    intro t ht
    rw [← List.cons_append, List.getLast?_append, List.getLast?_singleton, Option.mem_def,
      Option.some_or] at ht
    cases ht
    rw [hrp]
    decide

/-- The commas among some tokens. -/
def commas (w : List Token) : Nat := w.countP fun t => t.kind = .Comma

theorem commas_append (u v : List Token) : commas (u ++ v) = commas u + commas v :=
  List.countP_append

theorem commas_cons {t : Token} {kind : TokenKind} (h : t.kind = kind) (v : List Token) :
    commas (t :: v) = (if kind = .Comma then 1 else 0) + commas v := by
  subst h
  unfold commas
  rw [List.countP_cons, Nat.add_comm]
  simp

/-- An element of a list: some tokens, no comma, and no parenthesis that closes
too early. -/
structure Solid (w : List Token) : Prop where
  neat : Neat w
  ne_nil : w ≠ []
  commas : commas w = 0

section

variable {rules : Rules} {w : List Token}

theorem Derives.solid {n : Nonterminal} {e : Expr} (h : Derives rules n w e) : Solid w := by
  have hop : ∀ {left right : List Token} {t : Token} {kind : TokenKind}, Solid left →
      t.kind = kind → (kind ≠ .RParen ∧ kind ≠ .LParen ∧ kind ≠ .Comma) → Solid right →
      Solid (left ++ t :: right) := by
    intro left right t kind hl hkind hne hr
    refine ⟨hl.neat.append (.cons hkind hne hr.neat), by simp, ?_⟩
    rw [commas_append, commas_cons hkind, hl.commas, hr.commas, if_neg hne.2.2]
  have hone : ∀ {t : Token} {kind : TokenKind}, t.kind = kind →
      (kind ≠ .RParen ∧ kind ≠ .LParen ∧ kind ≠ .Comma) → Solid [t] := by
    intro t kind hkind hne
    refine ⟨neat_single hkind hne, List.cons_ne_nil _ _, ?_⟩
    rw [commas_cons hkind, if_neg hne.2.2]
    rfl
  induction h with
  | operand _ _ ih => exact ih
  | joined j _ hkind _ ih1 ih2 => exact hop ih1 hkind (by cases j <;> decide) ih2
  | alone _ ih => exact ih
  | @compared op _ _ t _ _ _ hkind _ ih1 ih2 =>
    refine hop ih1 rfl ?_ ih2
    refine ⟨?_, ?_, ?_⟩ <;> intro he <;> rw [he] at hkind <;> cases hkind
  | @literal t value hvalue =>
    have hmem := rules.kind_of_denotes hvalue
    refine hone rfl ⟨?_, ?_, ?_⟩ <;> intro he <;> rw [he] at hmem <;> exact absurd hmem (by decide)
  | column hkind => exact hone hkind (by decide)
  | parens hlp _ hrp ih =>
    refine ⟨.parens hlp ih.neat ih.ne_nil hrp, List.cons_ne_nil _ _, ?_⟩
    rw [commas_cons hlp, commas_append, commas_cons hrp, ih.commas]
    rfl

theorem NameOf.solid {name : Bytes} (h : NameOf w name) : Solid w := by
  cases h with
  | mk hkind =>
    refine ⟨neat_single hkind (by decide), List.cons_ne_nil _ _, ?_⟩
    rw [commas_cons hkind]
    rfl

theorem TypeOf.neat {type : TypeName} (h : TypeOf w type) : Neat w ∧ commas w = 0 := by
  cases h with
  | plain hk => exact ⟨neat_single hk (by decide), by rw [commas_cons hk]; rfl⟩
  | double_precision hd _ hp _ =>
    refine ⟨.cons hd (by decide) (neat_single hp (by decide)), ?_⟩
    rw [commas_cons hd, commas_cons hp]
    rfl
  | param ht hlp hn _ hrp =>
    refine ⟨.cons ht (by decide) (.parens hlp (neat_single hn (by decide)) (List.cons_ne_nil _ _) hrp),
      ?_⟩
    rw [commas_cons ht, commas_cons hlp, commas_cons hn, commas_cons hrp]
    rfl

theorem ConstraintsOf.neat {cs : List Constraint} (h : ConstraintsOf w cs) :
    Neat w ∧ commas w = 0 := by
  -- words are in order whatever they are
  have hwords : ∀ (v : List Token), (∀ t ∈ v, t.kind ≠ .RParen ∧ t.kind ≠ .LParen ∧ t.kind ≠ .Comma) →
      Neat v ∧ commas v = 0 := by
    intro v hv
    induction v with
    | nil => exact ⟨neat_nil, rfl⟩
    | cons t v ih =>
      obtain ⟨hneat, hzero⟩ := ih fun u hu => hv u (List.mem_cons_of_mem _ hu)
      have ht := hv t List.mem_cons_self
      refine ⟨.cons rfl ht hneat, ?_⟩
      rw [commas_cons rfl, if_neg ht.2.2, hzero]
  induction h with
  | nil => exact ⟨neat_nil, rfl⟩
  | @cons v ws c cs hv _ ih =>
    have hkinds : ∀ kind ∈ c.kinds, kind ≠ .RParen ∧ kind ≠ .LParen ∧ kind ≠ .Comma := by
      cases c <;> decide
    obtain ⟨hneat, hzero⟩ := hwords v fun t ht => hkinds _ (hv ▸ List.mem_map_of_mem ht)
    refine ⟨hneat.append ih.1, ?_⟩
    rw [commas_append, hzero, ih.2]

theorem ColumnOf.solid {col : ColumnDef} (h : ColumnOf w col) : Solid w := by
  cases h with
  | mk hname htype hcs =>
    obtain ⟨htype, htype_zero⟩ := htype.neat
    obtain ⟨hcs, hcs_zero⟩ := hcs.neat
    refine ⟨.cons hname (by decide) (htype.append hcs), List.cons_ne_nil _ _, ?_⟩
    rw [commas_cons hname, commas_append, htype_zero, hcs_zero]
    rfl

section

variable {α : Type} {element : List Token → α → Prop}

theorem Separated.neat (helement : ∀ {v x}, element v x → Neat v ∧ v ≠ []) {xs : List α}
    (h : Separated element w xs) : Neat w ∧ w ≠ [] := by
  induction h with
  | one hx => exact helement hx
  | more hx hc _ ih => exact ⟨(helement hx).1.comma hc ih.1 ih.2, by simp⟩

/-- There is one element more than there are commas. -/
theorem Separated.length_eq (helement : ∀ {v x}, element v x → Solid v) {xs : List α}
    (h : Separated element w xs) : xs.length = commas w + 1 := by
  induction h with
  | one hx =>
    rw [(helement hx).commas]
    rfl
  | more hx hc _ ih =>
    rw [commas_append, commas_cons hc, (helement hx).commas, List.length_cons, ih, if_pos rfl]
    omega

theorem Listed.separated_of_strict {xs : List α} (h : Listed element false w xs) :
    Separated element w xs := by
  cases h with
  | separated h => exact h
  | empty h => cases h
  | trailing h _ _ => cases h

end

theorem StmtOf.neat (hloose : rules.loose = false) {s : Stmt} (h : StmtOf rules w s) : Neat w := by
  have hlist : ∀ {α : Type} {element : List Token → α → Prop} {v : List Token} {xs : List α}
      {lp rp : Token}, (∀ {v x}, element v x → Solid v) → lp.kind = .LParen →
      Listed element rules.loose v xs → rp.kind = .RParen → Neat (lp :: (v ++ [rp])) := by
    intro α element v xs lp rp helement hlp hv hrp
    rw [hloose] at hv
    have hneat := hv.separated_of_strict.neat fun h => ⟨(helement h).neat, (helement h).ne_nil⟩
    exact .parens hlp hneat.1 hneat.2 hrp
  cases h with
  | create_table h =>
    cases h with
    | @mk _ _ _ _ _ gw _ _ _ hcreate htable hguard hname hlp hcolumns hrp =>
      have hg : Neat gw := by
        cases hguard with
        | absent => exact neat_nil
        | present hw =>
          obtain ⟨t, w, rfl, ht, hw⟩ := List.map_eq_cons_iff.mp hw
          obtain ⟨u, w, rfl, hu, hw⟩ := List.map_eq_cons_iff.mp hw
          obtain ⟨v, w, rfl, hv, hw⟩ := List.map_eq_cons_iff.mp hw
          obtain rfl := List.map_eq_nil_iff.mp hw
          exact .cons ht (by decide) (.cons hu (by decide) (neat_single hv (by decide)))
      exact .cons hcreate (by decide) (.cons htable (by decide)
        (hg.append (.cons hname (by decide) (hlist ColumnOf.solid hlp hcolumns hrp))))
  | insert h =>
    cases h with
    | @mk _ _ _ _ tw _ _ _ hinsert hinto hname htargets hvalues hrows =>
      have ht : Neat tw := by
        cases htargets with
        | absent => exact neat_nil
        | present hlp hnames hrp => exact hlist NameOf.solid hlp hnames hrp
      have hr := hrows.neat fun hrow => by
        cases hrow with
        | mk hlp hexprs hrp => exact ⟨hlist Derives.solid hlp hexprs hrp, List.cons_ne_nil _ _⟩
      exact .cons hinsert (by decide) (.cons hinto (by decide) (.cons hname (by decide)
        (ht.append (.cons hvalues (by decide) hr.1))))
  | select h =>
    cases h with
    | @mk _ _ _ _ ww _ _ hselect hitems hkw hname hwhere =>
      have hi := hitems.neat fun hitem => by
        cases hitem with
        | star ht => exact ⟨neat_single ht (by decide), List.cons_ne_nil _ _⟩
        | expr he ha =>
          refine ⟨he.solid.neat.append ?_, fun h => he.solid.ne_nil (List.append_eq_nil_iff.mp h).1⟩
          cases ha with
          | absent => exact neat_nil
          | present has hname => exact .cons has (by decide) (neat_single hname (by decide))
      have hw : Neat ww := by
        cases hwhere with
        | absent => exact neat_nil
        | present hkw he => exact .cons hkw (by decide) he.solid.neat
      exact .cons hselect (by decide) (hi.1.append (.cons hkw (by decide) (.cons hname (by decide) hw)))

theorem ProgramOf.neat (hloose : rules.loose = false) {stmts : List Stmt}
    (h : ProgramOf rules w stmts) : Neat w := by
  have hsemi : ∀ {v : List Token}, SemicolonOf v → Neat v := by
    intro v h
    cases h with
    | absent => exact neat_nil
    | present ht => exact neat_single ht (by decide)
  induction h with
  | done hlead => exact hsemi hlead
  | stmt hlead hs htrail _ _ ih =>
    exact (hsemi hlead).append ((hs.neat hloose).append ((hsemi htrail).append ih))

end

end Grammar

open Grammar

/-- The grammar of the documentation, with no list that is empty or ends in a
comma. -/
def plain_rules : Rules := { parser_rules with loose := false }

/-- A source that parses has the documented lists, with one element more than
commas in each, exactly when no parenthesis in it closes right after an opening
one or after a comma. -/
theorem lists_are_plain_iff {src : Bytes} {stmts : List Stmt}
    (h : (Parser.parse.run (Parser.start src)).1 = .ok stmts) :
    (ProgramOf plain_rules (Lexer.tokens src) stmts ↔ Tidy (Lexer.tokens src)) ∧
      (∀ w columns, Listed ColumnOf plain_rules.loose w columns → columns.length = commas w + 1) ∧
      (∀ w names, Listed NameOf plain_rules.loose w names → names.length = commas w + 1) ∧
      ∀ w exprs, Listed (Derives plain_rules .or_expr) plain_rules.loose w exprs →
        exprs.length = commas w + 1 := by
  refine ⟨⟨fun hplain => (hplain.neat rfl).tidy, fun htidy => ?_⟩,
    fun w xs hw => hw.separated_of_strict.length_eq ColumnOf.solid,
    fun w xs hw => hw.separated_of_strict.length_eq NameOf.solid,
    fun w xs hw => hw.separated_of_strict.length_eq Derives.solid⟩
  exact (Parser.parse_iff.mp h).refine ⟨fun _ _ _ h => h, Or.inr htidy⟩

theorem two_columns_are_plain :
    ProgramOf plain_rules (Lexer.tokens (str "CREATE TABLE t (a INT, b TEXT)"))
      [.create_table {
        table_name := str "t"
        columns := [⟨str "a", ⟨str "INT", none⟩, false, false, false⟩,
          ⟨str "b", ⟨str "TEXT", none⟩, false, false, false⟩] }] :=
  (lists_are_plain_iff (by decide)).1.mpr (by decide +kernel)

/-- Empty lists and commas at the end are taken. -/
theorem empty_lists_are_parsed :
    (Parser.parse.run (Parser.start (str "CREATE TABLE t ()"))).1 =
        .ok [.create_table { table_name := str "t", columns := [] }] ∧
      ¬ ProgramOf plain_rules (Lexer.tokens (str "CREATE TABLE t ()"))
        [.create_table { table_name := str "t", columns := [] }] ∧
      (Parser.parse.run (Parser.start (str "INSERT INTO t (a,) VALUES (1,)"))).1 =
        .ok [.insert ⟨str "t", [str "a"], [[.literal (.IntLiteral 1)]]⟩] ∧
      ¬ ProgramOf plain_rules (Lexer.tokens (str "INSERT INTO t (a,) VALUES (1,)"))
        [.insert ⟨str "t", [str "a"], [[.literal (.IntLiteral 1)]]⟩] := by
  refine ⟨by decide, fun h => ?_, by decide +kernel, fun h => ?_⟩
  · exact absurd (h.neat rfl).tidy (by decide)
  · exact absurd (h.neat rfl).tidy (by decide)

end edb
