-- The parser over whole statements: a source text is parsed exactly when the
-- grammar derives statements from its tokens, and these are the result.
import Edb.ParserLaws

namespace edb

open Call

open Grammar

namespace Parser

/-- Tokens at the front of `ts` that derive `a`, and the rest. -/
def Front {α : Type} (derives : List Token → α → Prop) (ts : List Token) (a : α)
    (r : List Token) : Prop :=
  ∃ w, ts = w ++ r ∧ derives w a

/-! ## What is parsed is derived -/

section

variable {α : Type} {element : Call Error Parser α} {derives : List Token → α → Prop}

/-- An element and a comma before a list. -/
theorem listed_cons {w ws : List Token} {x : α} {xs : List α} {c : Token} (h : derives w x)
    (hc : c.kind = .Comma) (hrest : Listed derives true ws xs) :
    Listed derives true (w ++ c :: ws) (x :: xs) := by
  cases hrest with
  | separated hsep => exact .separated (.more h hc hsep)
  | empty _ => exact .trailing rfl (.one h) hc
  | @trailing v _ d _ hsep hd =>
    rw [← List.cons_append, ← List.append_assoc]
    exact .trailing rfl (.more h hc hsep) hd

theorem parses_closed_list (helement : ∀ ts, Parses element ts (Front derives ts)) (n : Nat) :
    ∀ ts : List Token, ts.length < n →
      Parses (parse_closed_list element n) ts (Front (Listed derives true) ts) := by
  induction n with
  | zero => exact fun _ h => absurd h (Nat.not_lt_zero _)
  | succ n ih =>
    intro ts hlt
    have hempty : Front (Listed derives true) ts [] ts := ⟨[], rfl, .empty rfl⟩
    unfold parse_closed_list
    refine parses_bind (parses_check (by decide) (fun _ _ _ _ => parses_pure hempty) fun _ => ?_)
    refine parses_bind (parses_check_eof (fun _ => parses_pure hempty) fun _ => ?_)
    refine parses_bind ((helement ts).mono fun x mid hx => ?_)
    obtain ⟨w, rfl, hw⟩ := hx
    refine parses_if_accept (by decide) (fun c r hmid hc => ?_) fun _ => parses_pure ?_
    · subst hmid
      rw [List.length_append, List.length_cons] at hlt
      refine parses_bind ((ih r (by omega)).mono fun xs r' hxs => parses_pure ?_)
      obtain ⟨ws, rfl, hws⟩ := hxs
      exact ⟨w ++ c :: ws, by simp, listed_cons hw hc hws⟩
    · exact ⟨w, rfl, .separated (.one hw)⟩

theorem parses_list (helement : ∀ ts, Parses element ts (Front derives ts)) (n : Nat) :
    ∀ ts : List Token, ts.length < n →
      Parses (parse_list element n) ts (Front (Separated derives) ts) := by
  induction n with
  | zero => exact fun _ h => absurd h (Nat.not_lt_zero _)
  | succ n ih =>
    intro ts hlt
    unfold parse_list
    refine parses_bind ((helement ts).mono fun x mid hx => ?_)
    obtain ⟨w, rfl, hw⟩ := hx
    refine parses_if_accept (by decide) (fun c r hmid hc => ?_) fun _ => parses_pure ?_
    · subst hmid
      rw [List.length_append, List.length_cons] at hlt
      refine parses_bind ((ih r (by omega)).mono fun xs r' hxs => parses_pure ?_)
      obtain ⟨ws, rfl, hws⟩ := hxs
      exact ⟨w ++ c :: ws, by simp, .more hw hc hws⟩
    · exact ⟨w, rfl, .one hw⟩

end

variable (ts : List Token)

theorem parse_expr_front : Parses parse_expr ts (Front (Derives parser_rules .or_expr) ts) :=
  (parse_expr_parses ts).mono fun _ _ h => h.derived

theorem parses_name : Parses expect_identifier ts (Front NameOf ts) :=
  parses_expect_identifier fun t _ hts hkind => ⟨[t], hts, .mk hkind⟩

theorem parses_type_name : Parses parse_type_name ts (Front TypeOf ts) := by
  unfold parse_type_name
  refine parses_bind (parses_expect_identifier fun t r hts hkind => ?_)
  subst hts
  refine parses_get_bind fun p hp => ?_
  split
  · rename_i hdouble
    obtain ⟨hd, hident, hprecision⟩ := hdouble
    obtain ⟨r', hr⟩ := hp.eq_cons hident (by decide)
    subst hr
    refine parses_bind (parses_advance (parses_pure ?_))
    exact ⟨[t, p.cur], rfl, .double_precision hkind hd hident hprecision⟩
  · refine parses_if_accept (by decide) (fun lp r' hr hlp => ?_) fun _ => parses_pure ?_
    · subst hr
      refine parses_get_bind fun q hq => ?_
      split
      · exact parses_err _
      · rename_i hint
        rw [not_not] at hint
        obtain ⟨r'', hr'⟩ := hq.eq_cons hint (by decide)
        subst hr'
        split
        · exact parses_err _
        · rename_i value hvalue
          refine parses_bind (parses_advance ?_)
          refine parses_bind (parses_expect (by decide) fun rp r3 hr'' hrp => parses_pure ?_)
          subst hr''
          exact ⟨[t, lp, q.cur, rp], rfl, .param hkind hlp hint hvalue hrp⟩
    · exact ⟨[t], rfl, .plain hkind⟩

theorem parses_constraints (n : Nat) : ∀ (col : ColumnDef) (ts : List Token), ts.length < n →
    Parses (parse_constraints n col) ts fun col' r => ∃ w cs, ts = w ++ r ∧ ConstraintsOf w cs ∧
      col' = cs.foldl (fun col c => c.apply col) col := by
  induction n with
  | zero => exact fun _ _ h => absurd h (Nat.not_lt_zero _)
  | succ n ih =>
    intro col ts hlt
    -- a round takes the words of one constraint
    have hround : ∀ (c : Constraint) (w r : List Token), ts = w ++ r → w.map Token.kind = c.kinds →
        Parses (parse_constraints n (c.apply col)) r fun col' r' => ∃ w cs, ts = w ++ r' ∧
          ConstraintsOf w cs ∧ col' = cs.foldl (fun col c => c.apply col) col := by
      intro c w r hts hw
      have hpos : 0 < w.length := by
        have hkinds := congrArg List.length hw
        rw [List.length_map] at hkinds
        cases c <;> exact hkinds ▸ Nat.succ_pos _
      have hlength := congrArg List.length hts
      rw [List.length_append] at hlength
      refine (ih (c.apply col) r (by omega)).mono fun col' r' => ?_
      rintro ⟨ws, cs, rfl, hcs, rfl⟩
      exact ⟨w ++ ws, c :: cs, by simp [hts], .cons hw hcs, rfl⟩
    unfold parse_constraints
    refine parses_if_accept (by decide) (fun t r hts ht => ?_) fun _ => ?_
    · refine parses_bind (parses_expect (by decide) fun u r' hr hu => ?_)
      subst hr
      exact hround .not_null [t, u] r' hts (by simp [ht, hu, Constraint.kinds])
    refine parses_if_accept (by decide) (fun t r hts ht => ?_) fun _ => ?_
    · exact hround .null [t] r hts (by simp [ht, Constraint.kinds])
    refine parses_if_accept (by decide) (fun t r hts ht => ?_) fun _ => ?_
    · refine parses_bind (parses_expect (by decide) fun u r' hr hu => ?_)
      subst hr
      exact hround .primary_key [t, u] r' hts (by simp [ht, hu, Constraint.kinds])
    refine parses_if_accept (by decide) (fun t r hts ht => ?_) fun _ => ?_
    · exact hround .unique [t] r hts (by simp [ht, Constraint.kinds])
    · exact parses_pure ⟨[], [], rfl, .nil, rfl⟩

theorem parses_col_def : Parses parse_col_def ts (Front ColumnOf ts) := by
  unfold parse_col_def
  refine parses_bind (parses_expect_identifier fun name r hts hname => ?_)
  subst hts
  refine parses_bind ((parses_type_name r).mono fun type r' htype => ?_)
  obtain ⟨tw, rfl, htw⟩ := htype
  refine parses_bind (parses_rounds fun n hn => ?_)
  refine (parses_constraints n _ r' hn).mono fun col r'' => ?_
  rintro ⟨cw, cs, rfl, hcs, rfl⟩
  exact ⟨name :: (tw ++ cw), by simp, .mk hname htw hcs⟩

theorem parses_if_not_exists : Parses parse_if_not_exists ts (Front GuardOf ts) := by
  unfold parse_if_not_exists
  refine parses_if_accept (by decide) (fun t r hts ht => ?_) fun _ => ?_
  · refine parses_bind (parses_expect (by decide) fun u r' hr hu => ?_)
    subst hr
    refine parses_bind (parses_expect (by decide) fun v r'' hr' hv => parses_pure ?_)
    subst hr'
    exact ⟨[t, u, v], hts, .present (by simp [ht, hu, hv])⟩
  · exact parses_pure ⟨[], rfl, .absent⟩

theorem parses_create_table {create : Token} (hcreate : create.kind = .KwCreate) :
    Parses parse_create_table ts fun stmt r =>
      Front (CreateOf parser_rules) (create :: ts) stmt r := by
  unfold parse_create_table
  refine parses_bind (parses_expect (by decide) fun table r1 hts htable => ?_)
  subst hts
  refine parses_bind ((parses_if_not_exists r1).mono fun guard_ r2 hguard => ?_)
  obtain ⟨gw, rfl, hgw⟩ := hguard
  refine parses_bind (parses_expect_identifier fun name r3 hr2 hname => ?_)
  subst hr2
  refine parses_bind (parses_expect (by decide) fun lp r4 hr3 hlp => ?_)
  subst hr3
  refine parses_bind (parses_rounds fun n hn => ?_)
  refine parses_bind ((parses_closed_list parses_col_def n r4 hn).mono fun columns r5 hcolumns => ?_)
  obtain ⟨cw, rfl, hcw⟩ := hcolumns
  refine parses_bind (parses_expect (by decide) fun rp r6 hr5 hrp => parses_pure ?_)
  subst hr5
  exact ⟨_, by simp, .mk hcreate htable hgw hname hlp hcw hrp⟩

theorem parses_column_names : Parses parse_column_names ts (Front (TargetsOf parser_rules) ts) := by
  unfold parse_column_names
  refine parses_if_accept (by decide) (fun lp r hts hlp => ?_) fun _ => ?_
  · subst hts
    refine parses_bind (parses_rounds fun n hn => ?_)
    refine parses_bind ((parses_closed_list parses_name n r hn).mono fun names r' hnames => ?_)
    obtain ⟨w, rfl, hw⟩ := hnames
    refine parses_bind (parses_expect (by decide) fun rp r'' hr' hrp => parses_pure ?_)
    subst hr'
    exact ⟨lp :: (w ++ [rp]), by simp, .present hlp hw hrp⟩
  · exact parses_pure ⟨[], rfl, .absent⟩

theorem parses_row : Parses parse_row ts (Front (RowOf parser_rules) ts) := by
  unfold parse_row
  refine parses_bind (parses_expect (by decide) fun lp r hts hlp => ?_)
  subst hts
  unfold parse_expr_list
  refine parses_bind (parses_bind (parses_rounds fun n hn => ?_))
  refine (parses_closed_list parse_expr_front n r hn).mono fun exprs r' hexprs => ?_
  obtain ⟨w, rfl, hw⟩ := hexprs
  refine parses_bind (parses_expect (by decide) fun rp r'' hr' hrp => parses_pure ?_)
  subst hr'
  exact ⟨lp :: (w ++ [rp]), by simp, .mk hlp hw hrp⟩

theorem parses_insert {insert : Token} (hinsert : insert.kind = .KwInsert) :
    Parses parse_insert ts fun stmt r =>
      Front (InsertOf parser_rules) (insert :: ts) stmt r := by
  unfold parse_insert
  refine parses_bind (parses_expect (by decide) fun into r1 hts hinto => ?_)
  subst hts
  refine parses_bind (parses_expect_identifier fun name r2 hr1 hname => ?_)
  subst hr1
  refine parses_bind ((parses_column_names r2).mono fun names r3 hnames => ?_)
  obtain ⟨tw, rfl, htw⟩ := hnames
  refine parses_bind (parses_expect (by decide) fun values r4 hr3 hvalues => ?_)
  subst hr3
  refine parses_bind (parses_rounds fun n hn => ?_)
  refine parses_bind ((parses_list parses_row n r4 hn).mono fun rows r5 hrows => parses_pure ?_)
  obtain ⟨rw_, rfl, hrw⟩ := hrows
  exact ⟨_, by simp, .mk hinsert hinto hname htw hvalues hrw⟩

theorem parses_alias : Parses parse_alias ts (Front AliasOf ts) := by
  unfold parse_alias
  refine parses_if_accept (by decide) (fun t r hts ht => ?_) fun _ => ?_
  · refine parses_bind (parses_expect_identifier fun name r' hr hname => parses_pure ?_)
    subst hr
    exact ⟨[t, name], hts, .present ht hname⟩
  · exact parses_pure ⟨[], rfl, .absent⟩

theorem parses_select_item : Parses parse_select_item ts (Front (ItemOf parser_rules) ts) := by
  unfold parse_select_item
  refine parses_if_accept (by decide) (fun t r hts ht => parses_pure ⟨[t], hts, .star ht⟩) fun _ => ?_
  refine parses_bind ((parse_expr_front ts).mono fun e r he => ?_)
  obtain ⟨w, rfl, hw⟩ := he
  refine parses_bind ((parses_alias r).mono fun alias_ r' ha => parses_pure ?_)
  obtain ⟨aw, rfl, haw⟩ := ha
  exact ⟨w ++ aw, by simp, .expr hw haw⟩

theorem parses_where : Parses parse_where ts (Front (WhereOf parser_rules) ts) := by
  unfold parse_where
  refine parses_if_accept (by decide) (fun t r hts ht => ?_) fun _ => ?_
  · subst hts
    refine parses_bind ((parse_expr_front r).mono fun e r' he => parses_pure ?_)
    obtain ⟨w, rfl, hw⟩ := he
    exact ⟨t :: w, by simp, .present ht hw⟩
  · exact parses_pure ⟨[], rfl, .absent⟩

theorem parses_select {select : Token} (hselect : select.kind = .KwSelect) :
    Parses parse_select ts fun stmt r =>
      Front (SelectOf parser_rules) (select :: ts) stmt r := by
  unfold parse_select parse_select_items
  refine parses_bind (parses_bind (parses_rounds fun n hn => ?_))
  refine (parses_list parses_select_item n ts hn).mono fun items r1 hitems => ?_
  obtain ⟨iw, rfl, hiw⟩ := hitems
  refine parses_bind (parses_expect (by decide) fun kw r2 hr1 hkw => ?_)
  subst hr1
  refine parses_bind (parses_expect_identifier fun name r3 hr2 hname => ?_)
  subst hr2
  refine parses_bind ((parses_where r3).mono fun where_ r4 hwhere => parses_pure ?_)
  obtain ⟨ww, rfl, hww⟩ := hwhere
  exact ⟨_, by simp, .mk hselect hiw hkw hname hww⟩

theorem parses_stmt : Parses parse_stmt ts (Front (StmtOf parser_rules) ts) := by
  unfold parse_stmt
  refine parses_if_accept (by decide) (fun t r hts ht => ?_) fun _ => ?_
  · subst hts
    refine parses_bind ((parses_create_table r ht).mono fun stmt r' hstmt => parses_pure ?_)
    obtain ⟨w, heq, hw⟩ := hstmt
    exact ⟨w, heq, .create_table hw⟩
  refine parses_if_accept (by decide) (fun t r hts ht => ?_) fun _ => ?_
  · subst hts
    refine parses_bind ((parses_insert r ht).mono fun stmt r' hstmt => parses_pure ?_)
    obtain ⟨w, heq, hw⟩ := hstmt
    exact ⟨w, heq, .insert hw⟩
  refine parses_if_accept (by decide) (fun t r hts ht => ?_) fun _ => ?_
  · subst hts
    refine parses_bind ((parses_select r ht).mono fun stmt r' hstmt => parses_pure ?_)
    obtain ⟨w, heq, hw⟩ := hstmt
    exact ⟨w, heq, .select hw⟩
  exact parses_get_bind fun p _ => parses_err _

/-- A semicolon is taken if there is one. -/
theorem parses_semicolon : Parses (accept .Semicolon) ts fun _ r => ∃ w, ts = w ++ r ∧
    SemicolonOf w ∧ (w = [] → ∀ t ∈ r.head?, t.kind ≠ .Semicolon) := by
  refine parses_accept (by decide) (fun t r hts ht => ?_) fun hno => ?_
  · exact ⟨[t], hts, .present ht, fun h => absurd h (List.cons_ne_nil _ _)⟩
  · exact ⟨[], rfl, .absent, fun _ => hno⟩

theorem parses_stmts (n : Nat) : ∀ ts : List Token, ts.length < n →
    Parses (parse_stmts n) ts fun stmts r => r = [] ∧ ProgramOf parser_rules ts stmts := by
  induction n with
  | zero => exact fun _ h => absurd h (Nat.not_lt_zero _)
  | succ n ih =>
    intro ts hlt
    unfold parse_stmts
    refine parses_bind (parses_check_eof (fun hts => parses_pure ⟨hts, ?_⟩) fun _ => ?_)
    · rw [hts]
      exact .done .absent
    refine parses_bind ((parses_semicolon ts).mono fun _ r1 => ?_)
    rintro ⟨lead, rfl, hlead, -⟩
    refine parses_bind (parses_check_eof (fun hr1 => parses_pure ⟨hr1, ?_⟩) fun _ => ?_)
    · rw [hr1, List.append_nil]
      exact .done hlead
    refine parses_bind ((parses_stmt r1).mono fun s r2 hs => ?_)
    obtain ⟨w, rfl, hw⟩ := hs
    refine parses_bind ((parses_semicolon r2).mono fun _ r3 => ?_)
    rintro ⟨trail, rfl, htrail, hno⟩
    obtain ⟨t, v, rfl, -⟩ := hw.starts
    simp only [List.length_append, List.length_cons] at hlt
    refine parses_bind ((ih r3 (by omega)).mono fun stmts r4 => ?_)
    rintro ⟨hr4, hrest⟩
    exact parses_pure ⟨hr4, .stmt hlead hw htrail hno hrest⟩

/-! ## What is derived is parsed -/

/-- The next token is the end, or has one of these kinds. -/
def Ends (kinds : List TokenKind) (r : List Token) : Prop := ∀ t ∈ r.head?, t.kind ∈ kinds

theorem ends_cons {kinds : List TokenKind} {t : Token} {k : TokenKind} {r : List Token}
    (h : t.kind = k) (hk : k ∈ kinds) : Ends kinds (t :: r) := by
  intro u hu
  cases hu
  rwa [h]

theorem Ends.head_ne {kinds : List TokenKind} {kind : TokenKind} {r : List Token}
    (h : Ends kinds r) (hk : kind ∉ kinds) : ∀ t ∈ r.head?, t.kind ≠ kind :=
  fun t ht he => hk (he ▸ h t ht)

theorem Ends.mono {kinds more : List TokenKind} {r : List Token} (h : Ends kinds r)
    (hk : kinds ⊆ more) : Ends more r := fun t ht => hk (h t ht)

section

variable {ts} {r w : List Token}

theorem takes_expr {kinds : List TokenKind} {e : Expr} (h : Derives parser_rules .or_expr w e)
    (hr : Ends kinds r)
    (hkinds : ∀ k ∈ kinds, comparison k = none ∧ k ≠ .KwAnd ∧ k ≠ .KwOr) :
    Takes parse_expr (w ++ r) e r := by
  refine parse_expr_takes (h.reads (fun t ht hop => ?_) (fun t ht => ?_) fun t ht => ?_)
  · exact absurd (hkinds _ (hr t ht)).1 hop
  · exact (hkinds _ (hr t ht)).2.1
  · exact (hkinds _ (hr t ht)).2.2

section

variable {α : Type} {element : Call Error Parser α} {derives : List Token → α → Prop}
  {kinds : List TokenKind}

theorem takes_separated (helement : ∀ {w x r}, derives w x → Ends kinds r → Takes element (w ++ r) x r)
    (hcomma : .Comma ∈ kinds) {xs : List α} (h : Separated derives w xs) (hr : Ends kinds r)
    (hno : ∀ t ∈ r.head?, t.kind ≠ .Comma) :
    ∀ n, (w ++ r).length < n → Takes (parse_list element n) (w ++ r) xs r := by
  induction h with
  | one hx =>
    intro n hn
    obtain ⟨n, rfl⟩ : ∃ i, n = i + 1 := ⟨n - 1, by omega⟩
    exact (helement hx hr).bind (takes_if_accept_no (by decide) hno takes_pure)
  | @more w ws x xs c hx hc _ ih =>
    intro n hn
    obtain ⟨n, rfl⟩ : ∃ i, n = i + 1 := ⟨n - 1, by omega⟩
    rw [List.append_assoc, List.cons_append] at hn ⊢
    rw [List.length_append, List.length_cons] at hn
    refine (helement hx (ends_cons hc hcomma)).bind (takes_if_accept_yes hc ?_)
    exact (ih n (by omega)).bind takes_pure

/-- The inside of parentheses, up to the one that closes it. -/
theorem takes_listed
    (helement : ∀ {w x r}, derives w x → Ends [.Comma, .RParen] r → Takes element (w ++ r) x r)
    (hstart : ∀ {w x}, derives w x → ∃ t v, w = t :: v ∧ t.kind ≠ .RParen) {xs : List α} {rp : Token}
    (hrp : rp.kind = .RParen) {loose : Bool} (h : Listed derives loose w xs) :
    ∀ n, (w ++ rp :: r).length < n →
      Takes (parse_closed_list element n) (w ++ rp :: r) xs (rp :: r) := by
  have hclosed : ∀ n, Takes (parse_closed_list element (n + 1)) (rp :: r) [] (rp :: r) := by
    intro n
    have hcheck := takes_check_yes (r := r) (t := rp)
    rw [hrp] at hcheck
    exact hcheck.bind takes_pure
  -- one element, and the loop after it
  have hround : ∀ {w x mid xs r' n}, derives w x → Ends [.Comma, .RParen] mid →
      Takes (accept .Comma >>= fun b => if b = true then
        parse_closed_list element n >>= fun rest => pure (x :: rest) else pure [x]) mid xs r' →
      Takes (parse_closed_list element (n + 1)) (w ++ mid) xs r' := by
    intro w x mid xs r' n hx hmid hnext
    obtain ⟨t, v, rfl, ht⟩ := hstart hx
    have hno : Takes (check .RParen) (t :: v ++ mid) false (t :: v ++ mid) :=
      takes_check_no (by decide) fun u hu => by cases hu; exact ht
    exact hno.bind (takes_check_eof.bind ((helement hx hmid).bind hnext))
  have hseparated : ∀ {w xs mid}, Separated derives w xs → Ends [.Comma, .RParen] mid →
      (∀ k x, mid.length < k → Takes (accept .Comma >>= fun b => if b = true then
        parse_closed_list element k >>= fun rest => pure (x :: rest) else pure [x]) mid [x]
          (rp :: r)) →
      ∀ n, (w ++ mid).length < n → Takes (parse_closed_list element n) (w ++ mid) xs (rp :: r) := by
    intro w xs mid hsep hmid hend
    induction hsep with
    | one hx =>
      intro n hn
      obtain ⟨n, rfl⟩ : ∃ i, n = i + 1 := ⟨n - 1, by omega⟩
      obtain ⟨t, v, rfl, -⟩ := hstart hx
      simp only [List.length_append, List.length_cons] at hn
      exact hround hx hmid (hend n _ (by omega))
    | @more w ws x xs c hx hc _ ih =>
      intro n hn
      obtain ⟨n, rfl⟩ : ∃ i, n = i + 1 := ⟨n - 1, by omega⟩
      rw [List.append_assoc, List.cons_append] at hn ⊢
      rw [List.length_append, List.length_cons] at hn
      exact hround hx (ends_cons hc (by decide))
        (takes_if_accept_yes hc ((ih n (by omega)).bind takes_pure))
  cases h with
  | separated hsep =>
    exact hseparated hsep (ends_cons hrp (by decide)) fun k x _ =>
      takes_if_other hrp (by decide) takes_pure
  | empty _ =>
    intro n hn
    obtain ⟨n, rfl⟩ : ∃ i, n = i + 1 := ⟨n - 1, by omega⟩
    exact hclosed n
  | @trailing w _ c _ hsep hc =>
    rw [List.append_assoc, List.singleton_append]
    refine hseparated hsep (ends_cons hc (by decide)) fun k x hk => takes_if_accept_yes hc ?_
    obtain ⟨k, rfl⟩ : ∃ i, k = i + 1 := ⟨k - 1, by omega⟩
    exact (hclosed k).bind takes_pure

end

theorem takes_type_name {type : TypeName} (h : TypeOf w type)
    (hr : ∀ t ∈ r.head?, t.kind ≠ .Identifier ∧ t.kind ≠ .LParen) :
    Takes parse_type_name (w ++ r) type r := by
  unfold parse_type_name
  cases h with
  | plain hkind =>
    refine (takes_expect_identifier hkind).bind (takes_get_bind fun p hp => ?_)
    rw [if_neg fun h => hp.kind_ne (by decide) (fun t ht => (hr t ht).1) h.2.1]
    exact takes_if_accept_no (by decide) (fun t ht => (hr t ht).2) takes_pure
  | double_precision hd hdouble hp hprecision =>
    refine (takes_expect_identifier hd).bind (takes_get_bind fun p' hp' => ?_)
    rw [hp'.cur_cons.1, if_pos ⟨hdouble, hp, hprecision⟩]
    exact takes_advance.bind takes_pure
  | param hkind hlp hn hvalue hrp =>
    refine (takes_expect_identifier hkind).bind (takes_get_bind fun p hp => ?_)
    rw [hp.cur_cons.1, if_neg fun h => absurd (hlp.symm.trans h.2.1) (by decide)]
    refine takes_if_accept_yes hlp (takes_get_bind fun q hq => ?_)
    rw [hq.cur_cons.1, if_neg (not_not.mpr hn), hvalue]
    exact takes_advance.bind ((takes_expect hrp).bind takes_pure)

/-- The words that a constraint starts with. -/
def CONSTRAINTS : List TokenKind := [.KwNot, .KwNull, .KwPrimary, .KwUnique]

theorem constraintsOf_head {w : List Token} {cs : List Constraint} (h : ConstraintsOf w cs)
    (hne : w ≠ []) : Ends CONSTRAINTS (w ++ r) := by
  cases h with
  | nil => exact absurd rfl hne
  | @cons v ws c _ hv _ =>
    obtain ⟨t, v, rfl⟩ : ∃ t u, v = t :: u := by
      cases v with
      | nil => cases c <;> cases hv
      | cons t u => exact ⟨t, u, rfl⟩
    cases c <;> exact ends_cons (List.cons.inj hv).1 (by decide)

theorem takes_constraints {cs : List Constraint} (h : ConstraintsOf w cs)
    (hr : ∀ t ∈ r.head?, t.kind ∉ CONSTRAINTS) : ∀ (n : Nat) (col : ColumnDef),
      (w ++ r).length < n → Takes (parse_constraints n col) (w ++ r)
        (cs.foldl (fun col c => c.apply col) col) r := by
  have hstop : ∀ kind ∈ CONSTRAINTS, ∀ t ∈ r.head?, t.kind ≠ kind :=
    fun kind hkind t ht he => hr t ht (he ▸ hkind)
  induction h with
  | nil =>
    intro n col hn
    obtain ⟨n, rfl⟩ : ∃ i, n = i + 1 := ⟨n - 1, by omega⟩
    rw [List.nil_append]
    refine takes_if_accept_no (by decide) (hstop _ (by decide)) ?_
    refine takes_if_accept_no (by decide) (hstop _ (by decide)) ?_
    refine takes_if_accept_no (by decide) (hstop _ (by decide)) ?_
    exact takes_if_accept_no (by decide) (hstop _ (by decide)) takes_pure
  | @cons v ws c cs hv _ ih =>
    intro n col hn
    obtain ⟨n, rfl⟩ : ∃ i, n = i + 1 := ⟨n - 1, by omega⟩
    rw [List.append_assoc] at hn ⊢
    have hrest := fun hlt => ih n (c.apply col) hlt
    rw [List.length_append] at hn
    have hwords : ∀ kinds : List TokenKind, v.map Token.kind = kinds → kinds ≠ [] →
        (ws ++ r).length < n := by
      intro kinds hkinds hne
      have hpos : v ≠ [] := by
        rintro rfl
        exact hne hkinds.symm
      have := List.length_pos_iff.mpr hpos
      omega
    have hlt := hwords _ hv (by cases c <;> exact List.cons_ne_nil _ _)
    cases c with
    | not_null =>
      obtain ⟨t, v, rfl, ht, hv⟩ := List.map_eq_cons_iff.mp hv
      obtain ⟨u, v, rfl, hu, hv⟩ := List.map_eq_cons_iff.mp hv
      obtain rfl := List.map_eq_nil_iff.mp hv
      exact takes_if_accept_yes ht ((takes_expect hu).bind (hrest hlt))
    | null =>
      obtain ⟨t, v, rfl, ht, hv⟩ := List.map_eq_cons_iff.mp hv
      obtain rfl := List.map_eq_nil_iff.mp hv
      refine takes_if_other ht (by decide) ?_
      exact takes_if_accept_yes ht (hrest hlt)
    | primary_key =>
      obtain ⟨t, v, rfl, ht, hv⟩ := List.map_eq_cons_iff.mp hv
      obtain ⟨u, v, rfl, hu, hv⟩ := List.map_eq_cons_iff.mp hv
      obtain rfl := List.map_eq_nil_iff.mp hv
      refine takes_if_other ht (by decide) ?_
      refine takes_if_other ht (by decide) ?_
      exact takes_if_accept_yes ht ((takes_expect hu).bind (hrest hlt))
    | unique =>
      obtain ⟨t, v, rfl, ht, hv⟩ := List.map_eq_cons_iff.mp hv
      obtain rfl := List.map_eq_nil_iff.mp hv
      refine takes_if_other ht (by decide) ?_
      refine takes_if_other ht (by decide) ?_
      refine takes_if_other ht (by decide) ?_
      exact takes_if_accept_yes ht (hrest hlt)

theorem takes_col_def {col : ColumnDef} (h : ColumnOf w col) (hr : Ends [.Comma, .RParen] r) :
    Takes parse_col_def (w ++ r) col r := by
  cases h with
  | @mk name tw cw type cs hname htype hcs =>
    have hends : Ends (.Comma :: .RParen :: CONSTRAINTS) (cw ++ r) := by
      by_cases hcw : cw = []
      · rw [hcw, List.nil_append]
        exact hr.mono (by decide)
      · exact (constraintsOf_head hcs hcw).mono (by decide)
    rw [List.cons_append, List.append_assoc]
    refine (takes_expect_identifier hname).bind ((takes_type_name htype fun t ht => ?_).bind ?_)
    · exact ⟨hends.head_ne (by decide) t ht, hends.head_ne (by decide) t ht⟩
    · refine takes_rounds_bind fun n hn => takes_constraints hcs (fun t ht hmem => ?_) n _ hn
      have hkind := hr t ht
      simp only [List.mem_cons, List.not_mem_nil, or_false] at hkind
      rcases hkind with hkind | hkind <;> rw [hkind] at hmem <;> exact absurd hmem (by decide)

theorem takes_if_not_exists {b : Bool} (h : GuardOf w b) (hr : ∀ t ∈ r.head?, t.kind ≠ .KwIf) :
    Takes parse_if_not_exists (w ++ r) b r := by
  cases h with
  | absent => exact takes_if_accept_no (by decide) hr takes_pure
  | present hw =>
    obtain ⟨t, w, rfl, ht, hw⟩ := List.map_eq_cons_iff.mp hw
    obtain ⟨u, w, rfl, hu, hw⟩ := List.map_eq_cons_iff.mp hw
    obtain ⟨v, w, rfl, hv, hw⟩ := List.map_eq_cons_iff.mp hw
    obtain rfl := List.map_eq_nil_iff.mp hw
    exact takes_if_accept_yes ht ((takes_expect hu).bind ((takes_expect hv).bind takes_pure))

theorem takes_create_table {stmt : CreateTableStmt} (h : CreateOf parser_rules w stmt) :
    Takes parse_stmt (w ++ r) (.create_table stmt) r := by
  cases h with
  | @mk create table name lp rp gw cw columns b hcreate htable hguard hname hlp hcolumns hrp =>
    have hstart : ∀ {w : List Token} {col : ColumnDef}, ColumnOf w col →
        ∃ t v, w = t :: v ∧ t.kind ≠ .RParen := by
      intro w col h
      cases h with
      | mk hname _ _ => exact ⟨_, _, rfl, by rw [hname]; decide⟩
    simp only [List.cons_append, List.append_assoc, List.nil_append]
    refine takes_if_accept_yes hcreate (Takes.bind ?_ takes_pure)
    refine (takes_expect htable).bind ?_
    refine (takes_if_not_exists hguard (head_kind_ne hname (by decide))).bind ?_
    refine (takes_expect_identifier hname).bind ((takes_expect hlp).bind ?_)
    refine takes_rounds_bind fun n hn => ?_
    refine (takes_listed takes_col_def hstart hrp hcolumns n hn).bind ?_
    exact (takes_expect hrp).bind takes_pure

theorem takes_column_names {names : List Bytes} (h : TargetsOf parser_rules w names)
    (hr : ∀ t ∈ r.head?, t.kind ≠ .LParen) : Takes parse_column_names (w ++ r) names r := by
  cases h with
  | absent => exact takes_if_accept_no (by decide) hr takes_pure
  | @present lp rp inside _ hlp hnames hrp =>
    have hname : ∀ {w : List Token} {x : Bytes} {r : List Token}, NameOf w x →
        Ends [.Comma, .RParen] r → Takes expect_identifier (w ++ r) x r := by
      intro w x r h _
      cases h with
      | mk hkind => exact takes_expect_identifier hkind
    have hstart : ∀ {w : List Token} {x : Bytes}, NameOf w x → ∃ t v, w = t :: v ∧ t.kind ≠ .RParen := by
      intro w x h
      cases h with
      | mk hkind => exact ⟨_, _, rfl, by rw [hkind]; decide⟩
    simp only [List.cons_append, List.append_assoc, List.nil_append]
    refine takes_if_accept_yes hlp (takes_rounds_bind fun n hn => ?_)
    exact (takes_listed hname hstart hrp hnames n hn).bind ((takes_expect hrp).bind takes_pure)

theorem takes_row {exprs : List Expr} (h : RowOf parser_rules w exprs) :
    Takes parse_row (w ++ r) exprs r := by
  cases h with
  | @mk lp rp inside _ hlp hexprs hrp =>
    have hexpr : ∀ {w : List Token} {e : Expr} {r : List Token}, Derives parser_rules .or_expr w e →
        Ends [.Comma, .RParen] r → Takes parse_expr (w ++ r) e r :=
      fun h hr => takes_expr h hr (by decide)
    have hstart : ∀ {w : List Token} {e : Expr}, Derives parser_rules .or_expr w e →
        ∃ t v, w = t :: v ∧ t.kind ≠ .RParen := by
      intro w e h
      obtain ⟨t, v, rfl, ht⟩ := h.starts
      refine ⟨t, v, rfl, fun he => ?_⟩
      rw [he] at ht
      exact absurd ht (by decide)
    simp only [List.cons_append, List.append_assoc, List.nil_append]
    refine (takes_expect hlp).bind (Takes.bind ?_ ((takes_expect hrp).bind takes_pure))
    exact takes_rounds_bind fun n hn => takes_listed hexpr hstart hrp hexprs n hn

/-- What comes after a statement. -/
def FOLLOWS : List TokenKind := [.Semicolon, .KwCreate, .KwInsert, .KwSelect]

theorem takes_insert {stmt : InsertStmt} (h : InsertOf parser_rules w stmt) (hr : Ends FOLLOWS r) :
    Takes parse_stmt (w ++ r) (.insert stmt) r := by
  cases h with
  | @mk insert into name values tw rows_tokens names rows hinsert hinto hname htargets hvalues hrows =>
    simp only [List.cons_append, List.append_assoc]
    refine takes_if_other hinsert (by decide) ?_
    refine takes_if_accept_yes hinsert (Takes.bind ?_ takes_pure)
    refine (takes_expect hinto).bind ((takes_expect_identifier hname).bind ?_)
    refine (takes_column_names htargets (head_kind_ne hvalues (by decide))).bind ?_
    refine (takes_expect hvalues).bind (takes_rounds_bind fun n hn => Takes.bind ?_ takes_pure)
    have hnext : Ends (.Comma :: FOLLOWS) r := hr.mono (by decide)
    exact takes_separated (fun h _ => takes_row h) (by decide) hrows hnext (hr.head_ne (by decide)) n hn

theorem takes_alias {alias_ : Option Bytes} (h : AliasOf w alias_) (hr : Ends [.Comma, .KwFrom] r) :
    Takes parse_alias (w ++ r) alias_ r := by
  cases h with
  | absent => exact takes_if_accept_no (by decide) (hr.head_ne (by decide)) takes_pure
  | present has hname =>
    exact takes_if_accept_yes has ((takes_expect_identifier hname).bind takes_pure)

theorem takes_select_item {item : SelectItem} (h : ItemOf parser_rules w item)
    (hr : Ends [.Comma, .KwFrom] r) : Takes parse_select_item (w ++ r) item r := by
  cases h with
  | star ht => exact takes_if_accept_yes ht takes_pure
  | @expr w a e alias_ he ha =>
    have hends : Ends [.KwAs, .Comma, .KwFrom] (a ++ r) := by
      cases ha with
      | absent => exact hr.mono (by decide)
      | present has _ => exact ends_cons has (by decide)
    obtain ⟨t, v, rfl, ht⟩ := he.starts
    rw [List.append_assoc]
    refine takes_if_accept_no (by decide) (fun u hu hstar => ?_) ?_
    · cases hu
      rw [hstar] at ht
      exact absurd ht (by decide)
    · exact (takes_expr he hends (by decide)).bind ((takes_alias ha hr).bind takes_pure)

theorem takes_where {where_ : Option Expr} (h : WhereOf parser_rules w where_) (hr : Ends FOLLOWS r) :
    Takes parse_where (w ++ r) where_ r := by
  cases h with
  | absent => exact takes_if_accept_no (by decide) (hr.head_ne (by decide)) takes_pure
  | present hkw he =>
    exact takes_if_accept_yes hkw ((takes_expr he hr (by decide)).bind takes_pure)

theorem takes_select {stmt : SelectStmt} (h : SelectOf parser_rules w stmt) (hr : Ends FOLLOWS r) :
    Takes parse_stmt (w ++ r) (.select stmt) r := by
  cases h with
  | @mk select kw name iw ww items where_ hselect hitems hkw hname hwhere =>
    simp only [List.cons_append, List.append_assoc]
    refine takes_if_other hselect (by decide) ?_
    refine takes_if_other hselect (by decide) ?_
    refine takes_if_accept_yes hselect (Takes.bind ?_ takes_pure)
    have hlist : Takes parse_select_items (iw ++ kw :: name :: (ww ++ r)) items
        (kw :: name :: (ww ++ r)) :=
      takes_rounds_bind fun n hn => takes_separated takes_select_item (by decide) hitems
        (ends_cons hkw (by decide)) (head_kind_ne hkw (by decide)) n hn
    refine hlist.bind ((takes_expect hkw).bind ((takes_expect_identifier hname).bind ?_))
    exact (takes_where hwhere hr).bind takes_pure

theorem takes_stmt {s : Stmt} (h : StmtOf parser_rules w s) (hr : Ends FOLLOWS r) :
    Takes parse_stmt (w ++ r) s r := by
  cases h with
  | create_table h => exact takes_create_table h
  | insert h => exact takes_insert h hr
  | select h => exact takes_select h hr

theorem takes_semicolon (h : SemicolonOf w)
    (hr : w = [] → ∀ t ∈ r.head?, t.kind ≠ .Semicolon) :
    ∃ b, Takes (accept .Semicolon) (w ++ r) b r := by
  cases h with
  | absent => exact ⟨false, takes_accept_no (by decide) (hr rfl)⟩
  | present ht => exact ⟨true, takes_accept_yes ht⟩

theorem programOf_ends {stmts : List Stmt} (h : ProgramOf parser_rules ts stmts) :
    Ends FOLLOWS ts := by
  have hlead : ∀ {lead : List Token}, SemicolonOf lead → lead ≠ [] → ∀ r, Ends FOLLOWS (lead ++ r) := by
    intro lead h hne r
    cases h with
    | absent => exact absurd rfl hne
    | present ht => exact ends_cons ht (by decide)
  cases h with
  | @done lead h =>
    cases h with
    | absent => exact fun t ht => nomatch ht
    | present ht => exact ends_cons ht (by decide)
  | @stmt lead w trail rest s stmts h hs _ _ _ =>
    cases h with
    | absent =>
      obtain ⟨t, v, rfl, ht⟩ := hs.starts
      exact ends_cons rfl (List.mem_cons_of_mem _ ht)
    | present ht => exact ends_cons ht (by decide)

theorem takes_stmts {stmts : List Stmt} (h : ProgramOf parser_rules ts stmts) :
    ∀ n, ts.length < n → Takes (parse_stmts n) ts stmts [] := by
  induction h with
  | @done lead hlead =>
    intro n hn
    obtain ⟨n, rfl⟩ : ∃ i, n = i + 1 := ⟨n - 1, by omega⟩
    cases hlead with
    | absent => exact takes_check_eof.bind takes_pure
    | present ht =>
      exact takes_check_eof.bind ((takes_accept_yes ht).bind (takes_check_eof.bind takes_pure))
  | @stmt lead w trail rest s stmts hlead hs htrail hno hrest ih =>
    intro n hn
    obtain ⟨n, rfl⟩ : ∃ i, n = i + 1 := ⟨n - 1, by omega⟩
    obtain ⟨t, v, rfl, ht⟩ := hs.starts
    simp only [List.length_append, List.length_cons] at hn
    obtain ⟨b, hb⟩ := takes_semicolon (r := t :: v ++ (trail ++ rest)) hlead fun _ u hu he => by
      cases hu
      rw [he] at ht
      exact absurd ht (by decide)
    obtain ⟨c, hc⟩ := takes_semicolon (r := rest) htrail hno
    have hends : Ends FOLLOWS (trail ++ rest) := by
      cases htrail with
      | absent => exact programOf_ends hrest
      | present hsemi => exact ends_cons hsemi (by decide)
    have hfirst : Takes (check .Eof) (lead ++ (t :: v ++ (trail ++ rest))) false
        (lead ++ (t :: v ++ (trail ++ rest))) := by
      have hempty : (lead ++ (t :: v ++ (trail ++ rest))).isEmpty = false := by simp
      exact hempty ▸ takes_check_eof
    refine hfirst.bind (hb.bind (takes_check_eof.bind ?_))
    exact (takes_stmt hs hends).bind (hc.bind ((ih n (by omega)).bind takes_pure))

end

/-! ## The whole source -/

/-- A source text parses to statements that the grammar derives from its tokens. -/
theorem parse_iff {src : Bytes} {stmts : List Stmt} :
    (parse.run (start src)).1 = .ok stmts ↔ ProgramOf parser_rules (Lexer.tokens src) stmts := by
  have hparses : Parses parse (Lexer.tokens src) fun stmts r =>
      r = [] ∧ ProgramOf parser_rules (Lexer.tokens src) stmts :=
    parses_bind (parses_rounds fun n hn => parses_stmts n _ hn)
  constructor
  · intro h
    have hpost := wp_ok (hparses _ (at_start src)) (run_eq_of_fst h)
    obtain ⟨_, _, _, hprogram⟩ := hpost
    exact hprogram
  · intro h
    obtain ⟨p', hrun, -⟩ := takes_rounds_bind (takes_stmts h) _ (at_start src)
    exact congrArg Prod.fst hrun

theorem parse_fails_with {src : Bytes} {e : Error} (h : (parse.run (start src)).1 = .error e) :
    e = .ParseError := by
  have hparses : Parses parse (Lexer.tokens src) fun _ _ => True :=
    parses_bind (parses_rounds fun n hn => (parses_stmts n _ hn).mono fun _ _ _ => trivial)
  have herr := wp_error (hparses _ (at_start src)) (run_eq_of_fst h)
  exact herr

end Parser

/-- The parser decides its grammar. Every source text that the grammar derives is
parsed, to the statements that it derives, and to nothing else. Every other text
is refused with a parse error, and no text has two meanings. -/
theorem parser_decides_grammar (src : Bytes) :
    (∀ stmts, (Parser.parse.run (Parser.start src)).1 = .ok stmts ↔
      ProgramOf parser_rules (Lexer.tokens src) stmts) ∧
    ((Parser.parse.run (Parser.start src)).1 = .error .ParseError ↔
      ∀ stmts, ¬ ProgramOf parser_rules (Lexer.tokens src) stmts) ∧
    ∀ stmts stmts', ProgramOf parser_rules (Lexer.tokens src) stmts →
      ProgramOf parser_rules (Lexer.tokens src) stmts' → stmts = stmts' := by
  refine ⟨fun stmts => Parser.parse_iff, ⟨fun h stmts hstmts => ?_, fun h => ?_⟩,
    fun stmts stmts' hstmts hstmts' => ?_⟩
  · rw [Parser.parse_iff.mpr hstmts] at h
    cases h
  · rcases hrun : (Parser.parse.run (Parser.start src)).1 with e | stmts
    · rw [Parser.parse_fails_with hrun]
    · exact absurd (Parser.parse_iff.mp hrun) (h stmts)
  · have hparse := Parser.parse_iff.mpr hstmts
    rw [Parser.parse_iff.mpr hstmts'] at hparse
    exact (Except.ok.inj hparse).symm

end edb
