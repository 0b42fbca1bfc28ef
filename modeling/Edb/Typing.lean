-- Types of bound expressions. What the binder accepts is well typed, and a
-- well-typed expression has a value of its type on every row that the codec
-- decodes, so a SELECT that was bound cannot fail while it is drained.
import Edb.SqlRuns

namespace edb

open Call

/-! ## Well-typed expressions -/

variable {types : TypeRegistry}

/-- The oid is that of a registered type. -/
def TypeRegistry.Has (types : TypeRegistry) (oid : Nat) : Prop :=
  ∃ type, types.lookup oid = .ok type

/-- A literal that is not null has a registered type, a column is one of the
table's, the sides of a connective are booleans, and the sides of a comparison
have the same type. -/
inductive WellTyped (types : TypeRegistry) (columns : List BoundColumnRef) : BoundExpr → Prop
  | literal {bound : BoundLiteral} (typed : bound.value.type_oid = bound.type.oid)
      (known : bound.value.is_null = false → types.Has bound.type.oid) :
      WellTyped types columns (.literal bound)
  | column {bound : BoundColumnRef} (mem : bound ∈ columns) : WellTyped types columns (.column bound)
  | logical {op : BinaryOp} {left right : BoundExpr} {type : BoundTypeRef}
      (op_eq : op = .And ∨ op = .Or) (left_typed : WellTyped types columns left)
      (right_typed : WellTyped types columns right)
      (left_bool : (bound_expr_type left).oid = Builtin.bool.oid)
      (right_bool : (bound_expr_type right).oid = Builtin.bool.oid)
      (bool : type.oid = Builtin.bool.oid) : WellTyped types columns (.binary op left right type)
  | comparison {op : BinaryOp} {left right : BoundExpr} {type : BoundTypeRef}
      (op_ne : op ≠ .And ∧ op ≠ .Or) (left_typed : WellTyped types columns left)
      (right_typed : WellTyped types columns right)
      (same : (bound_expr_type left).oid = (bound_expr_type right).oid)
      (bool : type.oid = Builtin.bool.oid) : WellTyped types columns (.binary op left right type)

/-! ## Evaluation -/

/-- The values of a row have the types of the columns, and no two columns have
the same number. -/
structure TypedRow (types : TypeRegistry) (columns : List BoundColumnRef) (values : List Value) :
    Prop where
  width : columns.length = values.length
  typed : ∀ x ∈ columns.zip values, x.2.type_oid = x.1.type.oid ∧ types.Has x.1.type.oid
  attnums : (columns.map BoundColumnRef.attnum).Nodup

/-- A value of a type. -/
structure Value.HasType (types : TypeRegistry) (oid : Nat) (value : Value) : Prop where
  typed : value.type_oid = oid
  known : value.is_null = false → types.Has oid

variable {columns : List BoundColumnRef} {values : List Value}

/-- A column is found under its own number. -/
theorem find_column_value_eq (hrow : TypedRow types columns values) {bound : BoundColumnRef}
    (hmem : bound ∈ columns) :
    ∃ value, (bound, value) ∈ columns.zip values ∧
      find_column_value { columns, values } bound = .ok value := by
  obtain ⟨i, hi, rfl⟩ := List.mem_iff_getElem.mp hmem
  have hlt : i < values.length := hrow.width ▸ hi
  have hzip : (columns[i], values[i]) ∈ columns.zip values := by
    refine List.mem_iff_getElem.mpr ⟨i, by rw [List.length_zip]; omega, ?_⟩
    rw [List.getElem_zip]
  unfold find_column_value
  rcases hf : (columns.zip values).find? (fun x =>
      x.1.attnum == columns[i].attnum && x.1.name == columns[i].name) with _ | x
  · have := List.find?_eq_none.mp hf _ hzip
    simp at this
  · have hx := List.mem_of_find?_eq_some hf
    have hp := List.find?_some hf
    simp only [Bool.and_eq_true, beq_iff_eq] at hp
    have hsame : x.1 = columns[i] :=
      List.inj_on_of_nodup_map hrow.attnums (List.of_mem_zip hx).1 hmem hp.1
    refine ⟨x.2, ?_, by dsimp only; rw [hf]⟩
    rw [← hsame]
    exact hx

theorem lookup_oid {oid : Nat} {type : DataType} (h : types.lookup oid = .ok type) :
    type.oid = oid := by
  unfold TypeRegistry.lookup at h
  split at h
  · cases h
  · rename_i hf
    cases h
    simpa using List.find?_some hf

theorem value_as_bool_ok (value : Value) (h : types.Has value.type_oid) :
    ∃ b, value_as_bool types value = .ok b := by
  obtain ⟨type, htype⟩ := h
  exact ⟨type.to_text value.bytes == str "true", by simp only [value_as_bool, htype]; rfl⟩

theorem make_bool_value_eq (b : Bool) :
    make_bool_value Builtin.bool.type b = .ok ⟨Builtin.bool.oid, [if b then 1 else 0], false⟩ := by
  cases b <;> rfl

theorem compare_values_ok {op : BinaryOp} {left : Value} (right : Value) (hop : op ≠ .And ∧ op ≠ .Or)
    (h : left.is_null = false → types.Has left.type_oid) :
    ∃ b, compare_values types op left right = .ok b := by
  unfold compare_values
  cases hl : left.is_null with
  | true => exact ⟨false, rfl⟩
  | false =>
    cases hr : right.is_null with
    | true => exact ⟨false, rfl⟩
    | false =>
      obtain ⟨type, htype⟩ := h hl
      simp only [htype, Bool.or_self, Bool.false_eq_true, if_false, bind, Except.bind]
      cases op with
      | And => exact absurd rfl hop.1
      | Or => exact absurd rfl hop.2
      | _ => exact ⟨_, rfl⟩

/-- The values of the two sides decide the value of a binary expression. -/
theorem eval_logical (hreg : Registered types) {row : ExecRow} {op : BinaryOp}
    {left right : BoundExpr} {type : BoundTypeRef} {l r : Value} {lb rb : Bool}
    (hop : op = .And ∨ op = .Or)
    (hl : eval_expr types row left = .ok l) (hr : eval_expr types row right = .ok r)
    (hlb : value_as_bool types l = .ok lb) (hrb : value_as_bool types r = .ok rb) :
    eval_expr types row (.binary op left right type) =
      .ok ⟨Builtin.bool.oid, [if (if op = .And then lb && rb else lb || rb) then 1 else 0],
        false⟩ := by
  have hbool : types.lookup_name (str "bool") = .ok Builtin.bool.type := hreg.by_name .bool
  rcases hop with rfl | rfl
  · simp only [eval_expr, hl, hr, hbool, hlb, hrb, bind, Except.bind, if_true]
    exact make_bool_value_eq _
  · simp only [eval_expr, hl, hr, hbool, hlb, hrb, bind, Except.bind, reduceCtorEq, if_false]
    exact make_bool_value_eq _

theorem eval_comparison (hreg : Registered types) {row : ExecRow} {op : BinaryOp}
    {left right : BoundExpr} {type : BoundTypeRef} {l r : Value} {b : Bool}
    (hop : op ≠ .And ∧ op ≠ .Or)
    (hl : eval_expr types row left = .ok l) (hr : eval_expr types row right = .ok r)
    (hb : compare_values types op l r = .ok b) :
    eval_expr types row (.binary op left right type) =
      .ok ⟨Builtin.bool.oid, [if b then 1 else 0], false⟩ := by
  have hbool : types.lookup_name (str "bool") = .ok Builtin.bool.type := hreg.by_name .bool
  cases op with
  | And => exact absurd rfl hop.1
  | Or => exact absurd rfl hop.2
  | _ =>
    simp only [eval_expr, hl, hr, hbool, hb, bind, Except.bind]
    exact make_bool_value_eq _

/-- A well-typed expression has a value, and the value has its type. -/
theorem eval_well_typed (hreg : Registered types) (hrow : TypedRow types columns values)
    {e : BoundExpr} (h : WellTyped types columns e) :
    ∃ value, eval_expr types { columns, values } e = .ok value ∧
      value.HasType types (bound_expr_type e).oid := by
  have hbool : types.Has Builtin.bool.oid := ⟨_, hreg.by_oid .bool⟩
  induction h with
  | literal typed known => exact ⟨_, rfl, typed, known⟩
  | column mem =>
    obtain ⟨value, hzip, hfind⟩ := find_column_value_eq hrow mem
    obtain ⟨htyped, hknown⟩ := hrow.typed _ hzip
    exact ⟨value, hfind, htyped, fun _ => hknown⟩
  | logical op_eq _ _ left_bool right_bool bool ihl ihr =>
    obtain ⟨l, hl, hlt⟩ := ihl
    obtain ⟨r, hr, hrt⟩ := ihr
    obtain ⟨lb, hlb⟩ := value_as_bool_ok l (by rw [hlt.typed, left_bool]; exact hbool)
    obtain ⟨rb, hrb⟩ := value_as_bool_ok r (by rw [hrt.typed, right_bool]; exact hbool)
    exact ⟨_, eval_logical hreg op_eq hl hr hlb hrb, bool.symm, fun _ => bool ▸ hbool⟩
  | comparison op_ne _ _ same bool ihl ihr =>
    obtain ⟨l, hl, hlt⟩ := ihl
    obtain ⟨r, hr, hrt⟩ := ihr
    obtain ⟨b, hb⟩ := compare_values_ok r op_ne
      (fun hn => by rw [hlt.typed]; exact hlt.known hn)
    exact ⟨_, eval_comparison hreg op_ne hl hr hb, bool.symm, fun _ => bool ▸ hbool⟩

/-! ## Rows of a schema -/

theorem lookup_type_oid_ok {oid : Nat} {type : BoundTypeRef}
    (h : Binder.lookup_type_oid types oid = .ok type) :
    ∃ found, types.lookup oid = .ok found ∧ type = ⟨oid, found.name, none⟩ := by
  unfold Binder.lookup_type_oid at h
  rcases hlook : types.lookup oid with e | found
  · rw [hlook] at h
    cases h
  · rw [hlook] at h
    cases h
    exact ⟨found, rfl, by rw [lookup_oid hlook]⟩

theorem bind_columns_eq {relation_oid : Nat} {schema : List ColumnSchema} {index : Nat}
    (h : Binder.bind_columns types relation_oid index schema = .ok columns) :
    List.Forall₂ (fun (column : ColumnSchema) (bound : BoundColumnRef) =>
      bound.name = column.name ∧ bound.nullable = column.nullable ∧
        Binder.lookup_type_oid types column.type_oid = .ok bound.type) schema columns ∧
      columns.map BoundColumnRef.attnum =
        (List.range' index schema.length).map make_attnum := by
  induction schema generalizing index columns with
  | nil =>
    cases h
    exact ⟨.nil, rfl⟩
  | cons column rest ih =>
    unfold Binder.bind_columns at h
    rcases hlook : Binder.lookup_type_oid types column.type_oid with e | type
    · simp [hlook, bind, Except.bind] at h
    · rcases hrest : Binder.bind_columns types relation_oid (index + 1) rest with e | others
      · simp [hlook, hrest, bind, Except.bind] at h
      · simp only [hlook, hrest, bind, Except.bind, pure, Except.pure, Except.ok.injEq] at h
        subst h
        obtain ⟨hall, hnums⟩ := ih hrest
        refine ⟨.cons ⟨rfl, rfl, hlook⟩ hall, ?_⟩
        rw [List.map_cons, hnums, List.length_cons, List.range'_succ, List.map_cons]

/-- Fewer than 2^32 columns have different numbers. -/
theorem attnums_nodup {relation_oid : Nat} {schema : List ColumnSchema}
    (hcolumns : Binder.bind_columns types relation_oid 0 schema = .ok columns)
    (hcount : schema.length < 2 ^ 32) : (columns.map BoundColumnRef.attnum).Nodup := by
  rw [(bind_columns_eq hcolumns).2]
  refine List.Nodup.map_on (fun i hi j hj hij => ?_) List.nodup_range'
  simp only [List.mem_range'_1] at hi hj
  unfold make_attnum at hij
  omega

/-- A row that the codec decodes has the types of the bound columns. -/
theorem typed_row_of_decode {relation_oid : Nat} {schema : List ColumnSchema} {tuple : Bytes}
    (hcolumns : Binder.bind_columns types relation_oid 0 schema = .ok columns)
    (hdecode : ({ registry := types, schema } : RowCodec).decode tuple = .ok values) :
    TypedRow types columns values := by
  obtain ⟨hcount, hdecoded, -⟩ := RowCodec.decoded_of_decode hdecode
  obtain ⟨hbound, -⟩ := bind_columns_eq hcolumns
  refine ⟨?_, ?_, attnums_nodup hcolumns hcount⟩
  · rw [← hbound.length_eq, hdecoded.length_eq]
  · intro x hx
    obtain ⟨i, hi, rfl⟩ := List.mem_iff_getElem.mp hx
    rw [List.length_zip] at hi
    have hs : i < schema.length := by rw [hbound.length_eq]; omega
    have hb := hbound.get (i := i) hs (by omega)
    have hd := hdecoded.get (i := i) hs (by omega)
    simp only [List.get_eq_getElem] at hb hd
    rw [List.getElem_zip]
    obtain ⟨found, hlook, htype⟩ := lookup_type_oid_ok hb.2.2
    rw [htype]
    exact ⟨hd.same_type, found, hlook⟩

/-! ## What the binder accepts -/

/-- Operations that only look something up. -/
def CatalogOp.IsLookup : CatalogOp → Prop
  | .get_type _ => True
  | .get_class _ => True
  | .open_table _ => True
  | _ => False

/-- After whatever was looked up, the catalog knows `bool` under the oid that
the registry has for it. -/
def Catalog.NamesBool (s : CatalogState) : Prop :=
  ∀ ops : List CatalogOp, (∀ op ∈ ops, op.IsLookup) →
    (Catalog.get_type (str "bool")).wp (fun t _ => t.oid = Builtin.bool.oid) (fun _ _ => True)
      (Run.exec CatalogOp.step ops s).2

namespace Catalog

/-- After whatever was looked up, `P` holds. -/
def Throughout (P : CatalogState → Prop) (s : CatalogState) : Prop :=
  ∀ ops : List CatalogOp, (∀ op ∈ ops, op.IsLookup) → P (Run.exec CatalogOp.step ops s).2

variable {P : CatalogState → Prop}

theorem Throughout.lookup {s : CatalogState} (h : Throughout P s) (op : CatalogOp)
    (hop : op.IsLookup) : Throughout P (op.step s).2 :=
  fun ops hops => h (op :: ops) (by
    intro o ho
    rcases List.mem_cons.mp ho with rfl | ho
    · exact hop
    · exact hops o ho)

theorem keeps_of_after {I : CatalogState → Prop} {α : Type} {x : Call Error CatalogState α}
    (h : ∀ s, I s → I (x.run s).2) : x.Keeps I := by
  intro s hs
  have hs' := h s hs
  rcases hrun : x.run s with ⟨e | a, s'⟩
  · rw [hrun] at hs'
    exact wp_of_run_error hrun hs'
  · rw [hrun] at hs'
    exact wp_of_run_ok hrun hs'

theorem open_table_throughout (name : Bytes) : (open_table name).Keeps (Throughout P) := by
  refine keeps_of_after fun s h => ?_
  have hstep := h.lookup (.open_table name) trivial
  have hsame : (CatalogOp.step (.open_table name) s).2 = ((open_table name).run s).2 := by
    unfold CatalogOp.step CatalogOp.call
    rw [run_bind, run_attempt, run_bind]
    rcases (open_table name).run s with ⟨e | oid, s'⟩
    · rfl
    · simp only [run_pure]
      exact (schema_keeps (I := fun t => t = s') oid).after rfl
  rw [hsame] at hstep
  exact hstep

theorem throughout_kept (P : CatalogState → Prop) : KeptByLookups (Throughout P) where
  get_type name := keeps_of_after fun _ h => h.lookup (.get_type name) trivial
  get_class name := keeps_of_after fun _ h => h.lookup (.get_class name) trivial
  open_table := open_table_throughout

theorem names_bool_kept : KeptByLookups NamesBool := throughout_kept _

end Catalog

namespace Binder

/-- The catalog of a binder knows `bool`. -/
def NamesBool (b : Binder) : Prop := Catalog.NamesBool b.catalog

variable {b : Binder} {table : BoundTableRef}

theorem lookup_bool_spec (hb : b.NamesBool) :
    (lookup_type_name (str "bool")).wp
      (fun type b' => type.oid = Builtin.bool.oid ∧ b'.NamesBool) (fun _ _ => True) b := by
  have hkeeps := lookup_type_name_keeps Catalog.names_bool_kept (str "bool") b hb
  have hoid : (lookup_type_name (str "bool")).wp (fun type _ => type.oid = Builtin.bool.oid)
      (fun _ _ => True) b := by
    unfold lookup_type_name on_catalog
    rw [wp_bind, wp_attempt, wp_zoom]
    refine wp_mono (hb [] (by simp)) (fun t s h => ?_) fun e s _ => (wp_fail _).mpr trivial
    exact (wp_pure _).mpr h
  exact wp_mono (wp_and hoid hkeeps) (fun _ _ h => h) fun _ _ _ => trivial

theorem coerce_spec (literal : Literal) (target : BoundTypeRef) (nullable : Bool)
    (hb : b.NamesBool) :
    (coerce_literal_to_type types literal target nullable).wp
      (fun bound b' => WellTyped types columns (.literal bound) ∧ b'.NamesBool)
      (fun _ _ => True) b := by
  unfold coerce_literal_to_type
  split
  · split
    · exact wp_bind_err _ _
    · exact (wp_pure _).mpr ⟨.literal rfl (by simp), hb⟩
  · split
    · exact (wp_fail _).mpr trivial
    · rename_i type hlook
      split
      · exact wp_bind_err _ _
      · exact (wp_pure _).mpr ⟨.literal rfl fun _ => ⟨type, hlook⟩, hb⟩

theorem bind_literal_spec (literal : Literal) (target : Option BoundTypeRef) (nullable : Bool)
    (hb : b.NamesBool) :
    (bind_literal types literal target nullable).wp
      (fun bound b' => WellTyped types columns (.literal bound) ∧ b'.NamesBool)
      (fun _ _ => True) b := by
  unfold bind_literal
  rw [wp_bind]
  refine wp_mono (wanted_type_keeps Catalog.names_bool_kept literal target b hb) (fun type b1 h1 => ?_) fun _ _ _ => trivial
  exact coerce_spec literal type nullable h1

/-- What `bind_expr` leaves. -/
def Accepts (types : TypeRegistry) (table : BoundTableRef)
    (x : Option BoundTypeRef → Call Error Binder BoundExpr) : Prop :=
  ∀ target (b : Binder), b.NamesBool →
    (x target).wp (fun e b' => WellTyped types table.columns e ∧ b'.NamesBool)
      (fun _ _ => True) b

theorem rebind_spec {again : Bool} {x : Option BoundTypeRef → Call Error Binder BoundExpr}
    {target : BoundTypeRef} {e : BoundExpr} (hx : Accepts types table x)
    (he : WellTyped types table.columns e) (hb : b.NamesBool) :
    (rebind again x target e).wp (fun e b' => WellTyped types table.columns e ∧ b'.NamesBool)
      (fun _ _ => True) b := by
  unfold rebind
  split
  · exact hx _ b hb
  · exact (wp_pure _).mpr ⟨he, hb⟩

theorem bind_binary_spec {op : BinaryOp} {left right : Expr}
    {bind_left bind_right : Option BoundTypeRef → Call Error Binder BoundExpr}
    (hleft : Accepts types table bind_left) (hright : Accepts types table bind_right)
    (hb : b.NamesBool) :
    (bind_binary_expr op left right bind_left bind_right).wp
      (fun e b' => WellTyped types table.columns e ∧ b'.NamesBool) (fun _ _ => True) b := by
  unfold bind_binary_expr
  rw [wp_bind]
  refine wp_mono (lookup_bool_spec hb) (fun bool_type b1 h1 => ?_) fun _ _ h => h
  obtain ⟨hbool, h1⟩ := h1
  rw [wp_bind]
  refine wp_mono (hleft none b1 h1) (fun l b2 h2 => ?_) fun _ _ h => h
  obtain ⟨hl, h2⟩ := h2
  rw [wp_bind]
  refine wp_mono (hright none b2 h2) (fun r b3 h3 => ?_) fun _ _ h => h
  obtain ⟨hr, h3⟩ := h3
  split
  · rename_i hop
    split
    · exact wp_bind_err _ _
    · rename_i hbools
      simp only [is_bool_expr, Bool.or_eq_true, Bool.not_eq_true', beq_eq_false_iff_ne, ne_eq,
        not_or, not_not] at hbools
      exact (wp_pure _).mpr
        ⟨.logical hop hl hr (hbools.1.trans hbool) (hbools.2.trans hbool) hbool, h3⟩
  · rename_i hop
    have hop : op ≠ .And ∧ op ≠ .Or := not_or.mp hop
    dsimp only
    rw [wp_bind]
    refine wp_mono (rebind_spec hleft hl h3) (fun l' b4 h4 => ?_) fun _ _ h => h
    obtain ⟨hl', h4⟩ := h4
    rw [wp_bind]
    refine wp_mono (rebind_spec hright hr h4) (fun r' b5 h5 => ?_) fun _ _ h => h
    obtain ⟨hr', h5⟩ := h5
    split
    · exact wp_bind_err _ _
    · rename_i hsame
      exact (wp_pure _).mpr ⟨.comparison hop hl' hr' (not_not.mp hsame) hbool, h5⟩

theorem bind_column_ref_spec (name : Bytes) (hb : b.NamesBool) :
    (bind_column_ref name table).wp (fun column b' => column ∈ table.columns ∧ b'.NamesBool)
      (fun _ _ => True) b := by
  unfold bind_column_ref
  split
  · rename_i column hf
    exact (wp_pure _).mpr ⟨List.mem_of_find?_eq_some hf, hb⟩
  · exact wp_bind_err _ _

/-- What is bound is well typed. -/
theorem bind_expr_spec (types : TypeRegistry) (table : BoundTableRef) (e : Expr) :
    Accepts types table (bind_expr types table e) := by
  induction e with
  | literal value =>
    intro target b hb
    unfold bind_expr
    rw [wp_bind]
    exact wp_mono (bind_literal_spec value target true hb)
      (fun bound b' h => (wp_pure (BoundExpr.literal bound)).mpr h) fun _ _ h => h
  | column_ref name =>
    intro target b hb
    unfold bind_expr
    rw [wp_bind]
    refine wp_mono (bind_column_ref_spec name hb) (fun bound b' h => ?_) fun _ _ h => h
    exact (wp_pure _).mpr ⟨.column h.1, h.2⟩
  | binary op left right ihl ihr =>
    intro target b hb
    exact bind_binary_spec ihl ihr hb

/-! ## Statements -/

/-- The items and the WHERE of a bound SELECT are well typed. -/
structure SelectTyped (types : TypeRegistry) (stmt : BoundSelectStmt) : Prop where
  items : ∀ e alias_, .expr e alias_ ∈ stmt.items → WellTyped types stmt.table.columns e
  where_typed : ∀ e, stmt.where_ = some e → WellTyped types stmt.table.columns e ∧
    (bound_expr_type e).oid = Builtin.bool.oid

theorem bind_items_spec (items : List SelectItem) (hb : b.NamesBool) :
    (bind_items types table items).wp (fun bound b' =>
      (∀ e alias_, .expr e alias_ ∈ bound → WellTyped types table.columns e) ∧ b'.NamesBool)
      (fun _ _ => True) b := by
  induction items generalizing b with
  | nil => exact (wp_pure _).mpr ⟨by simp, hb⟩
  | cons item rest ih =>
    cases item with
    | StarItem =>
      unfold bind_items
      rw [wp_bind]
      refine wp_mono (ih hb) (fun bound b1 h => ?_) fun _ _ h => h
      refine (wp_pure _).mpr ⟨fun e alias_ hmem => ?_, h.2⟩
      exact h.1 e alias_ (by simpa using hmem)
    | ExprItem expr alias_ =>
      unfold bind_items
      rw [wp_bind]
      refine wp_mono (bind_expr_spec types table expr none b hb) (fun e1 b1 h1 => ?_) fun _ _ h => h
      rw [wp_bind]
      refine wp_mono (ih h1.2) (fun bound b2 h2 => ?_) fun _ _ h => h
      refine (wp_pure _).mpr ⟨fun e alias_ hmem => ?_, h2.2⟩
      rcases List.mem_cons.mp hmem with heq | hmem
      · cases heq
        exact h1.1
      · exact h2.1 e alias_ hmem

theorem bind_where_spec (where_ : Option Expr) (hb : b.NamesBool) :
    (bind_where types table where_).wp (fun bound b' =>
      (∀ e, bound = some e → WellTyped types table.columns e ∧
        (bound_expr_type e).oid = Builtin.bool.oid) ∧ b'.NamesBool) (fun _ _ => True) b := by
  cases where_ with
  | none => exact (wp_pure _).mpr ⟨by simp, hb⟩
  | some expr =>
    unfold bind_where
    rw [wp_bind]
    refine wp_mono (bind_expr_spec types table expr none b hb) (fun e1 b1 h1 => ?_) fun _ _ h => h
    rw [wp_bind]
    refine wp_mono (lookup_bool_spec h1.2) (fun bool_type b2 h2 => ?_) fun _ _ h => h
    split
    · exact wp_bind_err _ _
    · rename_i hbool
      simp only [is_bool_expr, Bool.not_eq_true', beq_eq_false_iff_ne, ne_eq, not_not] at hbool
      refine (wp_pure _).mpr ⟨fun e he => ?_, h2.2⟩
      cases he
      exact ⟨h1.1, hbool.trans h2.1⟩

theorem bind_select_spec (stmt : SelectStmt) (hb : b.NamesBool) :
    (bind_select types stmt).wp (fun bound _ => SelectTyped types bound) (fun _ _ => True) b := by
  unfold bind_select
  rw [wp_bind]
  refine wp_mono (bind_table_keeps Catalog.names_bool_kept stmt.table_name b hb)
    (fun table b1 h1 => ?_) fun _ _ _ => trivial
  rw [wp_bind]
  refine wp_mono (bind_items_spec stmt.items h1) (fun items b2 h2 => ?_) fun _ _ h => h
  rw [wp_bind]
  refine wp_mono (bind_where_spec stmt.where_ h2.2) (fun where_ b3 h3 => ?_) fun _ _ h => h
  exact (wp_pure _).mpr ⟨h2.1, h3.1⟩

end Binder

/-- Lookups leave the model as it is. -/
theorem holds_after_lookups {c : Setup} {a : CatalogModel} {s : CatalogState}
    (hc : HoldsCatalog c a s) : Catalog.Throughout (HoldsCatalog c a) s := by
  intro ops hops
  refine Run.keeps_of_forall (HoldsCatalog c a) (fun op t ht hop => ?_) ops s hc hops
  cases op with
  | get_type name => exact (CatalogOp.step_spec (.get_type name) ht trivial).2
  | get_class name => exact (CatalogOp.step_spec (.get_class name) ht trivial).2
  | open_table name => exact (CatalogOp.step_spec (.open_table name) ht trivial).2
  | _ => exact hop.elim

theorem names_bool_of_holds {c : Setup} {a : CatalogModel} {s : CatalogState}
    (hc : HoldsCatalog c a s) : Catalog.NamesBool s := by
  intro ops hops
  have ha := holds_after_lookups hc ops hops
  refine wp_mono (Catalog.get_type.spec ha (str "bool")) (fun t s' h => ?_) fun _ _ _ => trivial
  have hfound := h.1
  unfold CatalogModel.get_type at hfound
  split at hfound
  · cases hfound
  · split at hfound
    · cases hfound
    · rename_i found hfind
      cases hfound
      have hbool : type_records.find? (fun u => u.name == str "bool") =
          some ⟨4, str "bool", some 1⟩ := by decide
      rw [hbool] at hfind
      cases hfind
      rfl

/-- While a client inserts into no system table, the catalog knows `bool`. -/
theorem names_bool_after (c : Setup) (ops : List SqlOp) (hplain : ∀ op ∈ ops, op.Plain)
    (hsmall : (History.of ops).Small) : Catalog.NamesBool (SqlOp.after c ops).catalog := by
  obtain ⟨a, hc, -⟩ := kept_after c ops hplain hsmall
  exact names_bool_of_holds hc

/-! ## Draining a bound SELECT -/

theorem mapM_ok {α β : Type} {f : α → Result β} {xs : List α} (h : ∀ a ∈ xs, ∃ b, f a = .ok b) :
    ∃ bs, xs.mapM f = .ok bs := by
  induction xs with
  | nil => exact ⟨[], rfl⟩
  | cons a rest ih =>
    obtain ⟨b, hb⟩ := h a (by simp)
    obtain ⟨bs, hbs⟩ := ih fun x hx => h x (by simp [hx])
    exact ⟨b :: bs, by rw [List.mapM_cons, hb]; simp only [bind, Except.bind, hbs]; rfl⟩

theorem where_holds_ok (hreg : Registered types) {stmt : BoundSelectStmt}
    (hstmt : Binder.SelectTyped types stmt) (hrow : TypedRow types stmt.table.columns values) :
    ∃ b, where_holds types stmt.where_ { columns := stmt.table.columns, values } = .ok b := by
  unfold where_holds
  cases hw : stmt.where_ with
  | none => exact ⟨true, rfl⟩
  | some e =>
    obtain ⟨htyped, hbool⟩ := hstmt.where_typed e hw
    obtain ⟨value, hvalue, htype⟩ := eval_well_typed hreg hrow htyped
    obtain ⟨b, hb⟩ := value_as_bool_ok value
      (by rw [htype.typed, hbool]; exact ⟨_, hreg.by_oid .bool⟩)
    exact ⟨b, by simp only [hvalue, bind, Except.bind, hb]⟩

theorem select_image_ok (hreg : Registered types) {stmt : BoundSelectStmt}
    (hstmt : Binder.SelectTyped types stmt) (hrow : TypedRow types stmt.table.columns values) :
    ∃ image, select_image types stmt.items { columns := stmt.table.columns, values } =
      .ok image := by
  have hitems : ∀ item ∈ stmt.items, ∃ vs,
      item_values types { columns := stmt.table.columns, values } item = .ok vs := by
    intro item hitem
    cases item with
    | star => exact ⟨values, rfl⟩
    | expr e alias_ =>
      obtain ⟨value, hvalue, -⟩ := eval_well_typed hreg hrow (hstmt.items e alias_ hitem)
      exact ⟨[value], by simp only [item_values, hvalue, bind, Except.bind]; rfl⟩
  obtain ⟨vs, hvs⟩ := mapM_ok hitems
  exact ⟨_, by simp only [select_image, hvs, bind, Except.bind]; rfl⟩

theorem select_row_ok (hreg : Registered types) {stmt : BoundSelectStmt}
    (hstmt : Binder.SelectTyped types stmt) (hrow : TypedRow types stmt.table.columns values) :
    ∃ r, select_row types stmt values = .ok r := by
  obtain ⟨b, hb⟩ := where_holds_ok hreg hstmt hrow
  obtain ⟨image, himage⟩ := select_image_ok hreg hstmt hrow
  cases b with
  | false => exact ⟨none, by simp only [select_row, hb, bind, Except.bind]; rfl⟩
  | true =>
    exact ⟨some image, by simp only [select_row, hb, himage, bind, Except.bind, if_true]; rfl⟩

/-- An expression that the binder accepts against a table has a value of its
bound type on every row that the codec of the table decodes. So `next` never
fails in a SELECT that was bound. The catalog of the binder has to know `bool`
as the registry does. -/
theorem bound_expressions_have_values (schema : List ColumnSchema) (relation_oid : Nat)
    (columns : List BoundColumnRef)
    (hcolumns : Binder.bind_columns builtin_registry relation_oid 0 schema = .ok columns)
    (b b' : Binder) (hb : Catalog.NamesBool b.catalog) :
    (∀ (table : BoundTableRef) (expr : Expr) (target : Option BoundTypeRef) (bound : BoundExpr),
      table.columns = columns →
      (Binder.bind_expr builtin_registry table expr target).run b = (.ok bound, b') →
      ∀ tuple values, ({ registry := builtin_registry, schema } : RowCodec).decode tuple =
          .ok values →
        ∃ value, eval_expr builtin_registry { columns, values } bound = .ok value ∧
          value.type_oid = (bound_expr_type bound).oid) ∧
    ∀ (stmt : SelectStmt) (bound : BoundSelectStmt), bound.table.columns = columns →
      (Binder.bind_select builtin_registry stmt).run b = (.ok bound, b') →
      ∀ s : ExecState, s.opened = true →
        (∀ values ∈ s.rows, Decodes { registry := builtin_registry, schema } values) →
        ∃ r s', (ExecNode.next builtin_registry (select_node bound)).run s = (.ok r, s') := by
  refine ⟨?_, ?_⟩
  · rintro table expr target bound rfl hrun tuple values hdecode
    have hspec := wp_ok (Binder.bind_expr_spec builtin_registry table expr target b hb) hrun
    obtain ⟨value, hvalue, htype⟩ := eval_well_typed registered_builtin
      (typed_row_of_decode hcolumns hdecode) hspec.1
    exact ⟨value, hvalue, htype.typed⟩
  · rintro stmt bound rfl hrun s hs hrows
    have hstmt := wp_ok (Binder.bind_select_spec stmt hb) hrun
    obtain ⟨s', hnext, -⟩ := (select_node_feeds builtin_registry bound).run_eq hs
    have hok : ∀ values ∈ s.left, ∃ r, select_row builtin_registry bound values = .ok r := by
      intro values hvalues
      obtain ⟨tuple, htuple⟩ := hrows values (List.mem_of_mem_drop hvalues)
      exact select_row_ok registered_builtin hstmt (typed_row_of_decode hcolumns htuple)
    obtain ⟨r, hr⟩ := Pull.first_ok hok
    exact ⟨r, s', by rw [hnext, hr]⟩

/-- A catalog with pages of 400 bytes that was just opened. -/
def fresh_catalog : CatalogState := CatalogOp.after small_setup [.open]

/-- A number and a boolean that may be missing. -/
def nullable_pair : BoundTableRef := ⟨5, str "t", [
  ⟨5, 1, str "a", ⟨1, str "int32", none⟩, true⟩, ⟨5, 2, str "b", ⟨4, str "bool", none⟩, true⟩]⟩

/-- `(a = 1) = B`, bound. -/
def nested_comparison : BoundExpr :=
  .binary .Eq
    (.binary .Eq (.column ⟨5, 1, str "a", ⟨1, str "int32", none⟩, true⟩)
      (.literal ⟨⟨1, str "int32", none⟩, ⟨1, [1, 0, 0, 0], false⟩⟩) ⟨4, str "bool", none⟩)
    (.column ⟨5, 2, str "b", ⟨4, str "bool", none⟩, true⟩) ⟨4, str "bool", none⟩

def nested_source : Expr :=
  .binary .Eq (.binary .Eq (.column_ref (str "a")) (.literal (.IntLiteral 1))) (.column_ref (str "B"))

/-- On a row of two nulls. -/
theorem nested_comparison_of_nulls :
    ∃ value, eval_expr builtin_registry ⟨nullable_pair.columns, [⟨1, [], true⟩, ⟨4, [], true⟩]⟩
        nested_comparison = .ok value ∧ value.type_oid = 4 := by
  have hb : Catalog.NamesBool (⟨fresh_catalog, []⟩ : Binder).catalog := by
    dsimp only
    exact names_bool_of_holds (holds_after allows_open)
  have hbind : ((Binder.bind_expr builtin_registry nullable_pair nested_source none).run
      ⟨fresh_catalog, []⟩).1 = .ok nested_comparison := by
    decide +kernel
  have h := (bound_expressions_have_values [⟨str "a", 1, true⟩, ⟨str "b", 4, true⟩] 5
    nullable_pair.columns rfl ⟨fresh_catalog, []⟩ _ hb).1 nullable_pair nested_source none
    nested_comparison rfl (run_eq_of_fst hbind)
  exact h [2, 0, 0, 0, 3, 0, 0, 0, 0, 0, 0, 0, 0, 0, 0, 0, 0, 0, 0, 0, 0]
    [⟨1, [], true⟩, ⟨4, [], true⟩] (by decide +kernel)

/-- What the first open does for `edb_type`. The rows that describe the other
system tables are left out: they make the run below long and do not change it. -/
def describe_types : Call Error CatalogState Unit := do
  Catalog.open_system_tables
  Catalog.bootstrap_types
  Catalog.insert_class 1 (str "edb_type") SystemTable.type_table.relkind
  Catalog.write_schema_attributes 1 0 (Relation.system .type_table).columns
  Catalog.modify_catalog fun c => { c with opened := true }

/-- A client adds a type `bool` of its own. Its buffer pool reads the file before
the pool of the catalog has written the builtin `bool` there, so both rows take
one slot. The lookup of FOO has the pool of the catalog write first. -/
def second_bool : List SqlOp := [.execute (str "INSERT INTO edb_type VALUES (9, 'bool', 1)"),
  .execute (str "CREATE TABLE x (a FOO)"), .reopen]

set_option maxRecDepth 100000 in
/-- With pages of 119 bytes and two frames, `oid = 1` is then bound as the `bool`
of the client, and its value on a row of the table is a `bool` of the registry. -/
theorem second_bool_has_no_values :
    let empty : Catalog :=
      { types := builtin_registry, config := { page_size := 119, buffer_pool_pages := 2 } }
    let q := (Run.exec (SqlOp.step builtin_registry) second_bool
      { catalog := (describe_types.run { catalog := empty }).2 }).2
    let oid : BoundColumnRef := ⟨1, 1, str "oid", ⟨1, str "int32", none⟩, false⟩
    let table : BoundTableRef := ⟨1, str "edb_type", [oid,
      ⟨1, 2, str "name", ⟨5, str "text", none⟩, false⟩,
      ⟨1, 3, str "typlen", ⟨1, str "int32", none⟩, false⟩]⟩
    let expr : Expr := .binary .Eq (.column_ref oid.name) (.literal (.IntLiteral 1))
    let bound : BoundExpr := .binary .Eq (.column oid)
      (.literal ⟨oid.type, ⟨1, [1, 0, 0, 0], false⟩⟩) ⟨9, str "bool", none⟩
    let row : List Value := [⟨1, [1, 0, 0, 0], false⟩, ⟨5, str "int32", false⟩,
      ⟨1, [4, 0, 0, 0], false⟩]
    ((Binder.bind_table builtin_registry table.name).run ⟨q.catalog, []⟩).1 = .ok table ∧
      ((Binder.bind_expr builtin_registry table expr none).run ⟨q.catalog, []⟩).1 = .ok bound ∧
      ({ registry := builtin_registry, schema := (Relation.system .type_table).columns } :
        RowCodec).decode ([3, 0, 0, 0, 0, 29, 0, 0, 0, 4, 0, 0, 0, 33, 0, 0, 0, 5, 0, 0, 0, 38, 0, 0,
          0, 4, 0, 0, 0, 1, 0, 0, 0] ++ str "int32" ++ [4, 0, 0, 0]) = .ok row ∧
      eval_expr builtin_registry ⟨table.columns, row⟩ bound = .ok ⟨4, [1], false⟩ := by
  decide +kernel

end edb
