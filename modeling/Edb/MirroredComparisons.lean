-- A comparison and its mirror image: the sides swapped and the operator turned
-- round. They are bound and evaluated alike, except where both sides are
-- literals of different types. Then only the left one is bound again, so the
-- order of the sides decides which type the two are compared in.
import Edb.Comparisons
import Edb.ThreeValued

namespace edb

open Call

/-! ## Operators and orders -/

namespace BinaryOp

/-- The operator that says the same of swapped sides. -/
def mirror : BinaryOp → BinaryOp
  | .Lt => .Gt
  | .Le => .Ge
  | .Gt => .Lt
  | .Ge => .Le
  | op => op

theorem mirror_mirror (op : BinaryOp) : op.mirror.mirror = op := by
  cases op <;> rfl

theorem mirror_comparison {op : BinaryOp} (h : op ≠ .And ∧ op ≠ .Or) :
    op.mirror ≠ .And ∧ op.mirror ≠ .Or := by
  cases op <;> first | exact absurd rfl h.1 | exact absurd rfl h.2 | decide

theorem holds_swap (op : BinaryOp) (ordering : Ordering) :
    op.mirror.holds ordering.swap = op.holds ordering := by
  cases op <;> cases ordering <;> rfl

end BinaryOp

theorem signed_compare_swap (n : Nat) (a b : Bytes) :
    signed_compare n b a = (signed_compare n a b).swap := by
  unfold signed_compare
  rcases decode_signed_fixed n a with e | v <;> rcases decode_signed_fixed n b with e' | w
  · rfl
  · rfl
  · rfl
  · exact Std.OrientedOrd.eq_swap

theorem float64_compare_swap (a b : Bytes) : float64_compare b a = (float64_compare a b).swap := by
  unfold float64_compare
  by_cases hlen : a.length ≠ 8 ∨ b.length ≠ 8
  · rw [if_pos hlen, if_pos hlen.symm]
    rfl
  · rw [if_neg hlen, if_neg fun h => hlen h.symm]
    cases hab : binary64.lt (le.decode a) (le.decode b) <;>
      cases hba : binary64.lt (le.decode b) (le.decode a)
    · rfl
    · rfl
    · rfl
    · -- one is not both below and above the other
      simp only [binary64.lt, Bool.and_eq_true, decide_eq_true_eq] at hab hba
      omega

theorem text_compare_swap (a b : Bytes) : text_compare b a = (text_compare a b).swap := by
  induction a generalizing b with
  | nil => cases b <;> rfl
  | cons x a ih =>
    cases b with
    | nil => rfl
    | cons y b =>
      simp only [text_compare, Ordering.swap_then, ← ih b]
      rw [Std.OrientedOrd.eq_swap (a := y.toNat)]

theorem Builtin.compare_swap (t : Builtin) (a b : Bytes) :
    t.type.compare b a = (t.type.compare a b).swap := by
  cases t with
  | int32 => exact signed_compare_swap 4 a b
  | int64 => exact signed_compare_swap 8 a b
  | float64 => exact float64_compare_swap a b
  | bool =>
    show bool_compare b a = (bool_compare a b).swap
    rcases a with _ | ⟨x, _ | ⟨x', a⟩⟩ <;> rcases b with _ | ⟨y, _ | ⟨y', b⟩⟩ <;>
      first | rfl | exact Std.OrientedOrd.eq_swap
  | text => exact text_compare_swap a b

/-! ## Values -/

/-- A comparison with a null is false. Otherwise the order of the type decides. -/
theorem compare_values_builtin {op : BinaryOp} (hop : op ≠ .And ∧ op ≠ .Or) {left : Value}
    (right : Value) {t : Builtin} (ht : left.is_null = false → left.type_oid = t.oid) :
    compare_values builtin_registry op left right = .ok (!(left.is_null || right.is_null) &&
      op.holds (t.type.compare left.bytes right.bytes)) := by
  unfold compare_values
  cases hl : left.is_null with
  | true => rfl
  | false =>
    cases hr : right.is_null with
    | true => rfl
    | false =>
      simp only [ht hl, lookup_builtin, Bool.or_self, Bool.false_eq_true, if_false, bind,
        Except.bind]
      cases op with
      | And => exact absurd rfl hop.1
      | Or => exact absurd rfl hop.2
      | _ => rfl

/-- The value of a comparison. -/
def bool_value (b : Bool) : Value := ⟨Builtin.bool.oid, [if b then 1 else 0], false⟩

variable {columns : List BoundColumnRef} {values : List Value}

/-- Two values of one type, as far as they are not null. -/
theorem common_builtin {oid : Nat} {l r : Value} (hl : l.HasType builtin_registry oid)
    (hr : r.HasType builtin_registry oid) : ∃ t : Builtin,
      (l.is_null = false → l.type_oid = t.oid) ∧ (r.is_null = false → r.type_oid = t.oid) := by
  by_cases hboth : l.is_null = false ∨ r.is_null = false
  · obtain ⟨type, hlook⟩ : builtin_registry.Has oid := by
      rcases hboth with h | h
      · exact hl.known h
      · exact hr.known h
    obtain ⟨t, ht, -⟩ := builtin_of_lookup hlook
    exact ⟨t, fun _ => hl.typed.trans ht, fun _ => hr.typed.trans ht⟩
  · exact ⟨.bool, fun h => absurd (.inl h) hboth, fun h => absurd (.inr h) hboth⟩

/-- A well-typed comparison and its mirror image have the same value. -/
theorem eval_mirror (hrow : TypedRow builtin_registry columns values) {op : BinaryOp}
    (hop : op ≠ .And ∧ op ≠ .Or) {left right : BoundExpr} {type : BoundTypeRef}
    (h : WellTyped builtin_registry columns (.binary op left right type)) :
    ∃ v, eval_expr builtin_registry { columns, values } (.binary op left right type) =
        .ok (bool_value v) ∧
      eval_expr builtin_registry { columns, values } (.binary op.mirror right left type) =
        .ok (bool_value v) := by
  cases h with
  | logical op_eq => exact absurd op_eq (not_or.mpr hop)
  | comparison op_ne hl hr same bool =>
    obtain ⟨l, hl, hlt⟩ := eval_well_typed registered_builtin hrow hl
    obtain ⟨r, hr, hrt⟩ := eval_well_typed registered_builtin hrow hr
    rw [same] at hlt
    obtain ⟨t, htl, htr⟩ := common_builtin hlt hrt
    have hmirror := compare_values_builtin (BinaryOp.mirror_comparison hop) l htr
    rw [t.compare_swap l.bytes r.bytes, BinaryOp.holds_swap, Bool.or_comm] at hmirror
    exact ⟨_, eval_comparison registered_builtin hop hl hr (compare_values_builtin hop r htl),
      eval_comparison registered_builtin (BinaryOp.mirror_comparison hop) hr hl hmirror⟩

/-! ## Binding the sides -/

theorem names_bool_of_types {s : CatalogState} (h : Catalog.NamesTypes s) :
    Catalog.NamesBool s :=
  fun ops hops => wp_mono (h ops hops .bool) (fun _ _ ht => ht.1) fun _ _ _ => trivial

variable {table : BoundTableRef}

theorem Binder.well_typed_of_run {b : Binder} (hb : b.NamesTypes) {e : Expr} {x : BoundExpr}
    (h : ((Binder.bind_expr builtin_registry table e none).run b).1 = .ok x) :
    WellTyped builtin_registry table.columns x :=
  (wp_ok (Binder.bind_expr_spec builtin_registry table e none b (names_bool_of_types hb))
    (run_eq_of_fst h)).1

/-- What is bound has a builtin type. -/
theorem Expr.bound_builtin {relation_oid : Nat} {schema : List ColumnSchema}
    (hcolumns : Binder.bind_columns builtin_registry relation_oid 0 schema = .ok table.columns)
    {e : Expr} {x : BoundExpr} (h : e.bound_as table none = some x) :
    ∃ t : Builtin, bound_expr_type x = t.ref := by
  cases e with
  | literal value =>
    obtain ⟨l, hl, rfl⟩ := Option.map_eq_some_iff.mp h
    obtain ⟨t, -, hcoerced⟩ := Option.bind_eq_some_iff.mp hl
    exact ⟨t, Literal.coerced_type hcoerced⟩
  | column_ref name =>
    obtain ⟨column, hfind, rfl⟩ := Option.map_eq_some_iff.mp h
    exact column_type_builtin hcolumns (List.mem_of_find?_eq_some hfind)
  | binary op left right =>
    have h : bound_binary op left right (left.bound_as table) (right.bound_as table) = some x := h
    refine ⟨.bool, ?_⟩
    unfold bound_binary at h
    split at h
    · obtain ⟨l, -, h⟩ := Option.bind_eq_some_iff.mp h
      obtain ⟨r, -, h⟩ := Option.bind_eq_some_iff.mp h
      split at h
      · cases h
        rfl
      · cases h
    · obtain ⟨p, -, rfl⟩ := Option.map_eq_some_iff.mp h
      rfl

theorem sides_none_left {left right : Expr} {f g : Option BoundTypeRef → Option BoundExpr}
    (h : f none = none) : sides left right f g = none := by
  unfold sides
  rw [h]
  rfl

theorem sides_none_right {left right : Expr} {f g : Option BoundTypeRef → Option BoundExpr}
    (h : g none = none) : sides left right f g = none := by
  unfold sides
  rw [h]
  cases f none <;> rfl

theorem Expr.eq_literal {e : Expr} (h : e.is_literal = true) : ∃ value, e = .literal value := by
  cases e with
  | literal value => exact ⟨value, rfl⟩
  | _ => cases h

/-- Where at most one side is a literal, the order of the sides does not matter. -/
theorem sides_swap {relation_oid : Nat} {schema : List ColumnSchema}
    (hcolumns : Binder.bind_columns builtin_registry relation_oid 0 schema = .ok table.columns)
    {left right : Expr} (hlit : left.is_literal = false ∨ right.is_literal = false) :
    sides right left (right.bound_as table) (left.bound_as table) =
      (sides left right (left.bound_as table) (right.bound_as table)).map Prod.swap := by
  cases hl : left.bound_as table none with
  | none =>
    rw [sides_none_left hl, sides_none_right hl]
    rfl
  | some l =>
    cases hr : right.bound_as table none with
    | none =>
      rw [sides_none_left hr, sides_none_right hr]
      rfl
    | some r =>
      obtain ⟨tl, htl⟩ := Expr.bound_builtin hcolumns hl
      obtain ⟨tr, htr⟩ := Expr.bound_builtin hcolumns hr
      cases hleft : left.is_literal with
      | true =>
        obtain ⟨value, rfl⟩ := Expr.eq_literal hleft
        have hright : right.is_literal = false := hlit.resolve_left (by simp [hleft])
        rw [sides_literal_left hr htr, sides_literal_right hright hr htr, Option.map_map]
        rfl
      | false =>
        cases hright : right.is_literal with
        | true =>
          obtain ⟨value, rfl⟩ := Expr.eq_literal hright
          rw [sides_literal_left hl htl, sides_literal_right hleft hl htl, Option.map_map]
          rfl
        | false =>
          unfold sides
          simp only [hl, hr, hleft, hright, Option.bind_some, Bool.false_eq_true, if_false]
          by_cases hsame : (bound_expr_type l).oid = (bound_expr_type r).oid
          · rw [if_pos hsame, if_pos hsame.symm]
            rfl
          · rw [if_neg hsame, if_neg fun h => hsame h.symm]
            rfl

/-- Literals of one type are compared as they are, and of literals of different
types the left one is brought to the type of the right one. -/
theorem sides_literals {l r : Literal} {bl br : BoundLiteral} {tl tr : Builtin}
    (hl : l.own = some bl) (hr : r.own = some br) (htl : bl.type = tl.ref) (htr : br.type = tr.ref) :
    sides (.literal l) (.literal r) ((Expr.literal l).bound_as table) ((Expr.literal r).bound_as table) =
      if tl = tr then some (.literal bl, .literal br)
      else (l.coerced tr.ref).map fun bl' => (.literal bl', .literal br) := by
  unfold sides
  rw [literal_bound_none, literal_bound_none, hl, hr]
  have hoid : ∀ t : Builtin, t.ref.oid = t.oid := fun _ => rfl
  simp only [Option.map_some, Option.bind_some, literal_bound_some, bound_expr_type, htl, htr, hoid]
  by_cases hsame : tl = tr
  · rw [if_pos hsame, if_pos (by rw [hsame])]
  · rw [if_neg hsame, if_neg fun h => hsame (Builtin.oid_inj h), Option.map_map]
    rfl

/-! ## A comparison and its mirror image -/

/-- Both are bound or neither is, and what they are bound to has the same value
on every row of the table. -/
structure Mirrors (table : BoundTableRef) (b : Binder) (op : BinaryOp) (e1 e2 : Expr) : Prop where
  binds : (∃ x, ((Binder.bind_expr builtin_registry table (.binary op e1 e2) none).run b).1 =
      .ok x) ↔
    ∃ y, ((Binder.bind_expr builtin_registry table (.binary op.mirror e2 e1) none).run b).1 = .ok y
  agrees : ∀ x y,
    ((Binder.bind_expr builtin_registry table (.binary op e1 e2) none).run b).1 = .ok x →
    ((Binder.bind_expr builtin_registry table (.binary op.mirror e2 e1) none).run b).1 = .ok y →
    ∀ values, TypedRow builtin_registry table.columns values →
      ∃ v, eval_expr builtin_registry { columns := table.columns, values } x =
          .ok (bool_value v) ∧
        eval_expr builtin_registry { columns := table.columns, values } y = .ok (bool_value v)

theorem Mirrors.symm {b : Binder} {op : BinaryOp} {e1 e2 : Expr} (h : Mirrors table b op e1 e2) :
    Mirrors table b op.mirror e2 e1 := by
  refine ⟨?_, fun x y hx hy values hrow => ?_⟩
  · rw [BinaryOp.mirror_mirror]
    exact h.binds.symm
  · rw [BinaryOp.mirror_mirror] at hy
    obtain ⟨v, hv⟩ := h.agrees y x hy hx values hrow
    exact ⟨v, hv.symm⟩

section

variable {b : Binder} (hb : b.NamesTypes) {op : BinaryOp} (hop : op ≠ .And ∧ op ≠ .Or)

include hb hop

/-- The comparison is bound where its sides are. -/
theorem bind_comparison_iff (table : BoundTableRef) (e1 e2 : Expr) (x : BoundExpr) :
    ((Binder.bind_expr builtin_registry table (.binary op e1 e2) none).run b).1 = .ok x ↔
      ∃ p, sides e1 e2 (e1.bound_as table) (e2.bound_as table) = some p ∧
        x = .binary op p.1 p.2 Builtin.bool.ref := by
  rw [(Binder.bind_expr_gives table (.binary op e1 e2) none).run_ok_iff hb, bound_comparison hop,
    Option.map_eq_some_iff]
  simp only [eq_comm]

/-- Sides that only change places. -/
theorem mirrors_of_swap {e1 e2 : Expr} (hswap : sides e2 e1 (e2.bound_as table) (e1.bound_as table) =
      (sides e1 e2 (e1.bound_as table) (e2.bound_as table)).map Prod.swap) :
    Mirrors table b op e1 e2 := by
  have hmirror := BinaryOp.mirror_comparison hop
  refine ⟨⟨?_, ?_⟩, fun x y hx hy values hrow => ?_⟩
  · rintro ⟨x, hx⟩
    obtain ⟨p, hp, -⟩ := (bind_comparison_iff hb hop table e1 e2 x).mp hx
    exact ⟨_, (bind_comparison_iff hb hmirror table e2 e1 _).mpr ⟨p.swap, by rw [hswap, hp]; rfl, rfl⟩⟩
  · rintro ⟨y, hy⟩
    obtain ⟨q, hq, -⟩ := (bind_comparison_iff hb hmirror table e2 e1 y).mp hy
    rw [hswap] at hq
    obtain ⟨p, hp, -⟩ := Option.map_eq_some_iff.mp hq
    exact ⟨_, (bind_comparison_iff hb hop table e1 e2 _).mpr ⟨p, hp, rfl⟩⟩
  · obtain ⟨p, hp, rfl⟩ := (bind_comparison_iff hb hop table e1 e2 x).mp hx
    obtain ⟨q, hq, rfl⟩ := (bind_comparison_iff hb hmirror table e2 e1 y).mp hy
    rw [hswap, hp] at hq
    cases hq
    exact eval_mirror hrow hop (Binder.well_typed_of_run hb hx)

omit hb in
theorem eval_literals (row : ExecRow) (t : Builtin) (x y : Bytes) :
    eval_expr builtin_registry row (.binary op (.literal ⟨t.ref, ⟨t.oid, x, false⟩⟩)
        (.literal ⟨t.ref, ⟨t.oid, y, false⟩⟩) Builtin.bool.ref) =
      .ok (bool_value (op.holds (t.type.compare x y))) :=
  eval_comparison registered_builtin hop rfl rfl
    (compare_values_builtin hop ⟨t.oid, y, false⟩ (t := t) fun _ => rfl)

end

theorem bool_value_inj {v w : Bool} (h : bool_value v = bool_value w) : v = w := by
  cases v <;> cases w <;> first | rfl | cases h

/-- A literal that is not null: its type, its text and its value. -/
structure Literal.Reads (literal : Literal) (t : Builtin) (text bytes : Bytes) : Prop where
  typed : literal.own_type = some t
  written : literal_text literal = some text
  read : t.type.from_text text = .ok bytes

/-- Two texts of different types, read in the type of the other one. Where both
can be read, the two orders have to agree. -/
def OrdersAgree (op : BinaryOp) (tl tr : Builtin) (a c la rc : Bytes) : Prop :=
  match tr.type.from_text a, tl.type.from_text c with
  | .ok la', .ok rc' => op.holds (tr.type.compare la' rc) = op.holds (tl.type.compare la rc')
  | .error _, .error _ => True
  | _, _ => False

section

variable {b : Binder} (hb : b.NamesTypes) {op : BinaryOp} (hop : op ≠ .And ∧ op ≠ .Or)
  {l r : Literal} {tl tr : Builtin} {a c la rc : Bytes}

theorem sides_of_reads (hl : l.Reads tl a la) (hr : r.Reads tr c rc) (hne : tl ≠ tr) :
    sides (.literal l) (.literal r) ((Expr.literal l).bound_as table) ((Expr.literal r).bound_as table) =
      match tr.type.from_text a with
      | .error _ => none
      | .ok la' => some (.literal ⟨tr.ref, ⟨tr.oid, la', false⟩⟩,
          .literal ⟨tr.ref, ⟨tr.oid, rc, false⟩⟩) := by
  rw [sides_literals (Literal.own_ok hl.typed hl.written hl.read)
    (Literal.own_ok hr.typed hr.written hr.read) rfl rfl, if_neg hne, Literal.coerced_ref hl.written]
  cases tr.type.from_text a <;> rfl

include hb hop

/-- Literals of different types. -/
theorem mirrors_literals_iff (hl : l.Reads tl a la) (hr : r.Reads tr c rc) (hne : tl ≠ tr)
    (hrow : ∃ values, TypedRow builtin_registry table.columns values) :
    Mirrors table b op (.literal l) (.literal r) ↔ OrdersAgree op tl tr a c la rc := by
  have hmirror := BinaryOp.mirror_comparison hop
  have h1 := bind_comparison_iff hb hop table (.literal l) (.literal r)
  have h2 := bind_comparison_iff hb hmirror table (.literal r) (.literal l)
  simp only [sides_of_reads hl hr hne] at h1
  simp only [sides_of_reads hr hl hne.symm] at h2
  unfold OrdersAgree
  rcases hla : tr.type.from_text a with e | la' <;> rcases hrc : tl.type.from_text c with e' | rc'
  · rw [hla] at h1
    rw [hrc] at h2
    refine ⟨fun _ => trivial, fun _ => ⟨⟨?_, ?_⟩, fun x y hx => nomatch (h1 x).mp hx⟩⟩
    · rintro ⟨x, hx⟩
      exact nomatch (h1 x).mp hx
    · rintro ⟨y, hy⟩
      exact nomatch (h2 y).mp hy
  · rw [hla] at h1
    rw [hrc] at h2
    refine ⟨fun h => ?_, False.elim⟩
    obtain ⟨x, hx⟩ := h.binds.mpr ⟨_, (h2 _).mpr ⟨_, rfl, rfl⟩⟩
    exact nomatch (h1 x).mp hx
  · rw [hla] at h1
    rw [hrc] at h2
    refine ⟨fun h => ?_, False.elim⟩
    obtain ⟨y, hy⟩ := h.binds.mp ⟨_, (h1 _).mpr ⟨_, rfl, rfl⟩⟩
    exact nomatch (h2 y).mp hy
  · rw [hla] at h1
    rw [hrc] at h2
    have hback : op.mirror.holds (tl.type.compare rc' la) = op.holds (tl.type.compare la rc') := by
      rw [tl.compare_swap la rc', BinaryOp.holds_swap]
    constructor
    · intro h
      obtain ⟨values, hrow⟩ := hrow
      obtain ⟨v, hv, hv'⟩ := h.agrees _ _ ((h1 _).mpr ⟨_, rfl, rfl⟩) ((h2 _).mpr ⟨_, rfl, rfl⟩)
        values hrow
      rw [eval_literals hop] at hv
      rw [eval_literals hmirror, hback] at hv'
      exact bool_value_inj (Except.ok.inj (hv.trans hv'.symm))
    · intro h
      refine ⟨⟨fun _ => ⟨_, (h2 _).mpr ⟨_, rfl, rfl⟩⟩, fun _ => ⟨_, (h1 _).mpr ⟨_, rfl, rfl⟩⟩⟩,
        fun x y hx hy values _ => ?_⟩
      obtain ⟨p, hp, rfl⟩ := (h1 x).mp hx
      obtain ⟨q, hq, rfl⟩ := (h2 y).mp hy
      cases hp
      cases hq
      refine ⟨_, eval_literals hop _ tr la' rc, ?_⟩
      rw [eval_literals hmirror, hback, h]

end

/-! ## Which literals agree -/

/-- The text spells a number of 64 bits, and the order of the two numbers says
of the operator what the order of their texts says. -/
def SpellsAlike (op : BinaryOp) (n : Int) (s : Bytes) : Prop :=
  ∃ m tail, dec.Denotes s m tail ∧ (∀ c ∈ tail, dec.is_space c = true) ∧ fits_signed 8 m = true ∧
    op.holds (compare n m) = op.holds (text_compare (dec.int_text n) s)

/-- Only two literals of different types can tell a comparison from its mirror
image: a text next to an integer has to spell it alike, and a text next to a
boolean has to be one. -/
def LiteralsMirror (op : BinaryOp) : Expr → Expr → Prop
  | .literal (.IntLiteral n), .literal (.StrLiteral s) => SpellsAlike op n s
  | .literal (.StrLiteral s), .literal (.IntLiteral n) => SpellsAlike op.mirror n s
  | .literal (.BoolLiteral _), .literal (.StrLiteral s) => s = str "true" ∨ s = str "false"
  | .literal (.StrLiteral s), .literal (.BoolLiteral _) => s = str "true" ∨ s = str "false"
  | _, _ => True

theorem reads_int {n : Int} (h : fits_signed 8 n = true) :
    (Literal.IntLiteral n).Reads .int64 (dec.int_text n) (signed_bytes 8 n) :=
  ⟨rfl, rfl, parse_int_text h⟩

theorem reads_str (s : Bytes) : (Literal.StrLiteral s).Reads .text s s := ⟨rfl, rfl, rfl⟩

theorem reads_bool (v : Bool) : (Literal.BoolLiteral v).Reads .bool
    (if v then str "true" else str "false") [if v then 1 else 0] := by
  cases v <;> exact ⟨rfl, rfl, rfl⟩

theorem signed_compare_bytes {size : Nat} {n m : Int} (hn : fits_signed size n = true)
    (hm : fits_signed size m = true) :
    signed_compare size (signed_bytes size n) (signed_bytes size m) = compare n m := by
  unfold signed_compare
  rw [decode_signed_bytes hn, decode_signed_bytes hm]

theorem orders_agree_int_str {op : BinaryOp} {n : Int} (hn : fits_signed 8 n = true) (s : Bytes) :
    OrdersAgree op .int64 .text (dec.int_text n) s (signed_bytes 8 n) s ↔ SpellsAlike op n s := by
  have hcompare : ∀ m, fits_signed 8 m = true →
      Builtin.int64.type.compare (signed_bytes 8 n) (signed_bytes 8 m) = compare n m := by
    intro m hm
    have hfun : Builtin.int64.type.compare = signed_compare 8 := rfl
    rw [hfun]
    exact signed_compare_bytes hn hm
  have hread : Builtin.int64.type.from_text s = parse_signed_fixed 8 s := rfl
  have hsame : Builtin.text.type.from_text (dec.int_text n) = .ok (dec.int_text n) := rfl
  unfold OrdersAgree SpellsAlike
  rw [hread, hsame]
  rcases hparse : parse_signed_fixed 8 s with e | bytes
  · refine ⟨False.elim, ?_⟩
    rintro ⟨m, tail, hden, hspaces, hm, -⟩
    have hok := parse_signed_fixed_iff.mpr ⟨m, tail, hden, hm, hspaces, rfl⟩
    cases hok.symm.trans hparse
  · obtain ⟨m, tail, hden, hm, hspaces, rfl⟩ := parse_signed_fixed_iff.mp hparse
    dsimp only
    rw [hcompare m hm]
    constructor
    · intro h
      exact ⟨m, tail, hden, hspaces, hm, h.symm⟩
    · rintro ⟨m', tail', hden', -, -, h⟩
      -- a text denotes one number
      have hsame := (dec.denotes_iff.mp hden).symm.trans (dec.denotes_iff.mp hden')
      cases hsame
      exact h.symm

theorem orders_agree_bool_str (op : BinaryOp) (v : Bool) (s : Bytes) :
    OrdersAgree op .bool .text (if v then str "true" else str "false") s [if v then 1 else 0] s ↔
      s = str "true" ∨ s = str "false" := by
  have hread : Builtin.bool.type.from_text s = bool_from_text s := rfl
  unfold OrdersAgree
  rw [hread]
  by_cases htext : s = str "true" ∨ s = str "false"
  · -- the words are in the order of the truth values
    refine ⟨fun _ => htext, fun _ => ?_⟩
    rcases htext with rfl | rfl <;> cases v <;> rfl
  · have hbad : bool_from_text s = .error .InvalidArgument := by
      unfold bool_from_text
      rw [if_neg fun h => htext (.inl h), if_neg fun h => htext (.inr h)]
    rw [hbad]
    exact ⟨False.elim, fun h => absurd h htext⟩

/-- An integer is no boolean, and a boolean is no integer. -/
theorem orders_agree_int_bool (op : BinaryOp) (n : Int) (v : Bool) (la rc : Bytes) :
    OrdersAgree op .int64 .bool (dec.int_text n) (if v then str "true" else str "false") la rc := by
  have hword : ∀ word, dec.read_int word = none → dec.int_text n ≠ word := by
    rintro word hnone rfl
    have hread := @dec.read_int_int_text n [] (by simp)
    rw [List.append_nil, hnone] at hread
    cases hread
  have hint : Builtin.bool.type.from_text (dec.int_text n) = .error .InvalidArgument := by
    show bool_from_text _ = _
    unfold bool_from_text
    rw [if_neg (hword _ (by decide)), if_neg (hword _ (by decide))]
  have hbool : Builtin.int64.type.from_text (if v then str "true" else str "false") =
      .error .InvalidArgument := by
    cases v <;> decide
  unfold OrdersAgree
  rw [hint, hbool]
  trivial

/-- Not a float literal, and an integer literal is one of 64 bits. What stands
inside of an operand has its type and its value before it is compared. -/
def Expr.NotFloat : Expr → Prop
  | .literal (.FloatLiteral _) => False
  | .literal value => value.Fits
  | _ => True

/-- A row of nulls. -/
theorem typed_nulls {relation_oid : Nat} {schema : List ColumnSchema}
    (hcolumns : Binder.bind_columns builtin_registry relation_oid 0 schema = .ok columns)
    (hcount : schema.length < 2 ^ 32) :
    ∃ values, TypedRow builtin_registry columns values := by
  refine ⟨columns.map fun column => ⟨column.type.oid, [], true⟩, by simp, ?_,
    attnums_nodup hcolumns hcount⟩
  intro x hx
  obtain ⟨i, hi, rfl⟩ := List.mem_iff_getElem.mp hx
  rw [List.length_zip] at hi
  have hi : i < columns.length := by omega
  obtain ⟨t, ht⟩ := column_type_builtin hcolumns (List.getElem_mem hi)
  rw [List.getElem_zip, List.getElem_map]
  exact ⟨rfl, by rw [ht]; exact ⟨_, lookup_builtin t⟩⟩

section

variable {b : Binder} (hb : b.NamesTypes) {op : BinaryOp} (hop : op ≠ .And ∧ op ≠ .Or)

include hb hop

theorem mirrors_one_type {l r : Literal} {t : Builtin} {a c la rc : Bytes} (hl : l.Reads t a la)
    (hr : r.Reads t c rc) : Mirrors table b op (.literal l) (.literal r) := by
  have hownl := Literal.own_ok hl.typed hl.written hl.read
  have hownr := Literal.own_ok hr.typed hr.written hr.read
  refine mirrors_of_swap hb hop ?_
  rw [sides_literals hownl hownr rfl rfl, sides_literals hownr hownl rfl rfl, if_pos rfl, if_pos rfl]
  rfl

theorem mirrors_null_left (e : Expr) : Mirrors table b op (.literal .NullLiteral) e := by
  refine mirrors_of_swap hb hop ?_
  rw [sides_none_right rfl, sides_none_left rfl]
  rfl

theorem mirrors_null_right (e : Expr) : Mirrors table b op e (.literal .NullLiteral) := by
  refine mirrors_of_swap hb hop ?_
  rw [sides_none_left rfl, sides_none_right rfl]
  rfl

end

theorem literals_mirror_of_not_literal (op : BinaryOp) {e1 e2 : Expr}
    (h : e1.is_literal = false ∨ e2.is_literal = false) : LiteralsMirror op e1 e2 := by
  cases e1 with
  | literal l =>
    cases e2 with
    | literal r => exact absurd h (by simp [Expr.is_literal])
    | _ => cases l <;> trivial
  | _ => trivial

/-- Of two literals that are not floats. -/
theorem literals_mirror_iff {b : Binder} (hb : b.NamesTypes) {op : BinaryOp}
    (hop : op ≠ .And ∧ op ≠ .Or) (hrow : ∃ values, TypedRow builtin_registry table.columns values)
    {l r : Literal} (hl : (Expr.literal l).NotFloat) (hr : (Expr.literal r).NotFloat) :
    Mirrors table b op (.literal l) (.literal r) ↔ LiteralsMirror op (.literal l) (.literal r) := by
  have hmirror := BinaryOp.mirror_comparison hop
  have hswap : ∀ {op : BinaryOp} {e1 e2 : Expr}, Mirrors table b op e1 e2 ↔
      Mirrors table b op.mirror e2 e1 := fun {op _ _} =>
    ⟨Mirrors.symm, fun h => by rw [← BinaryOp.mirror_mirror op]; exact h.symm⟩
  cases l with
  | FloatLiteral value => exact hl.elim
  | NullLiteral => exact iff_of_true (mirrors_null_left hb hop _) trivial
  | IntLiteral n =>
    cases r with
    | FloatLiteral value => exact hr.elim
    | NullLiteral => exact iff_of_true (mirrors_null_right hb hop _) trivial
    | IntLiteral m =>
      exact iff_of_true (mirrors_one_type hb hop (reads_int hl) (reads_int hr)) trivial
    | StrLiteral s =>
      exact (mirrors_literals_iff hb hop (reads_int hl) (reads_str s) (by decide) hrow).trans
        (orders_agree_int_str hl s)
    | BoolLiteral v =>
      refine iff_of_true ?_ trivial
      exact (mirrors_literals_iff hb hop (reads_int hl) (reads_bool v) (by decide) hrow).mpr
        (orders_agree_int_bool op n v _ _)
  | StrLiteral s =>
    cases r with
    | FloatLiteral value => exact hr.elim
    | NullLiteral => exact iff_of_true (mirrors_null_right hb hop _) trivial
    | IntLiteral n =>
      rw [hswap]
      exact (mirrors_literals_iff hb hmirror (reads_int hr) (reads_str s) (by decide) hrow).trans
        (orders_agree_int_str hr s)
    | StrLiteral s' => exact iff_of_true (mirrors_one_type hb hop (reads_str s) (reads_str s')) trivial
    | BoolLiteral v =>
      rw [hswap]
      exact (mirrors_literals_iff hb hmirror (reads_bool v) (reads_str s) (by decide) hrow).trans
        (orders_agree_bool_str op.mirror v s)
  | BoolLiteral v =>
    cases r with
    | FloatLiteral value => exact hr.elim
    | NullLiteral => exact iff_of_true (mirrors_null_right hb hop _) trivial
    | IntLiteral n =>
      rw [hswap]
      refine iff_of_true ?_ trivial
      exact (mirrors_literals_iff hb hmirror (reads_int hr) (reads_bool v) (by decide) hrow).mpr
        (orders_agree_int_bool op.mirror n v _ _)
    | StrLiteral s =>
      exact (mirrors_literals_iff hb hop (reads_bool v) (reads_str s) (by decide) hrow).trans
        (orders_agree_bool_str op v s)
    | BoolLiteral w =>
      exact iff_of_true (mirrors_one_type hb hop (reads_bool v) (reads_bool w)) trivial

/-- A comparison and its mirror image are bound alike and have the same value on
every row, exactly where the literals let them. -/
theorem comparisons_mirror_iff (schema : List ColumnSchema) (relation_oid : Nat)
    (table : BoundTableRef)
    (hcolumns : Binder.bind_columns builtin_registry relation_oid 0 schema = .ok table.columns)
    (hcount : schema.length < 2 ^ 32) (b : Binder) (hb : Catalog.NamesTypes b.catalog)
    (op : BinaryOp) (hop : op ≠ .And ∧ op ≠ .Or) (e1 e2 : Expr) (h1 : e1.NotFloat)
    (h2 : e2.NotFloat) : Mirrors table b op e1 e2 ↔ LiteralsMirror op e1 e2 := by
  by_cases hlit : e1.is_literal = false ∨ e2.is_literal = false
  · exact iff_of_true (mirrors_of_swap hb hop (sides_swap hcolumns hlit))
      (literals_mirror_of_not_literal op hlit)
  · simp only [not_or, Bool.not_eq_false] at hlit
    obtain ⟨l, rfl⟩ := Expr.eq_literal hlit.1
    obtain ⟨r, rfl⟩ := Expr.eq_literal hlit.2
    exact literals_mirror_iff hb hop (typed_nulls hcolumns hcount) h1 h2

/-- `a = 1` and `1 = a`. -/
theorem column_and_number_mirror :
    Mirrors nullable_pair fresh_binder .Eq (.column_ref (str "a")) (.literal (.IntLiteral 1)) :=
  (comparisons_mirror_iff [⟨str "a", 1, true⟩, ⟨str "b", 4, true⟩] 5 nullable_pair rfl (by decide)
    fresh_binder fresh_binder_names_types .Eq (by decide) (.column_ref (str "a"))
    (.literal (.IntLiteral 1)) trivial (by unfold Expr.NotFloat Literal.Fits; decide)).mpr trivial

/-- `1 = 'x'` is bound and `'x' = 1` is not, and `1 = '01'` is false where
`'01' = 1` is true. -/
theorem literals_do_not_mirror :
    (∃ x, ((Binder.bind_expr builtin_registry nullable_pair
        (.binary .Eq (.literal (.IntLiteral 1)) (.literal (.StrLiteral (str "x")))) none).run
          fresh_binder).1 = .ok x) ∧
      (∀ y, ((Binder.bind_expr builtin_registry nullable_pair
        (.binary .Eq (.literal (.StrLiteral (str "x"))) (.literal (.IntLiteral 1))) none).run
          fresh_binder).1 ≠ .ok y) ∧
      ∃ x y, ((Binder.bind_expr builtin_registry nullable_pair
          (.binary .Eq (.literal (.IntLiteral 1)) (.literal (.StrLiteral (str "01")))) none).run
            fresh_binder).1 = .ok x ∧
        ((Binder.bind_expr builtin_registry nullable_pair
          (.binary .Eq (.literal (.StrLiteral (str "01"))) (.literal (.IntLiteral 1))) none).run
            fresh_binder).1 = .ok y ∧
        ∀ row, eval_expr builtin_registry row x = .ok (bool_value false) ∧
          eval_expr builtin_registry row y = .ok (bool_value true) := by
  have hb := fresh_binder_names_types
  have hgives := fun e x => (Binder.bind_expr_gives nullable_pair e none).run_ok_iff hb x
  refine ⟨⟨_, (hgives _ _).mpr rfl⟩, fun y h => ?_, _, _, (hgives _ _).mpr rfl,
    (hgives _ _).mpr rfl, fun row => ⟨rfl, rfl⟩⟩
  have hbound := (hgives _ _).mp h
  cases hbound

end edb
