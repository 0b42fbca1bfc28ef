-- The catalog as a map of names. A client that keeps a list of the tables that
-- it created and did not drop knows all answers of the catalog, through any run.
-- A table with 2^31 columns breaks this: its last column has no positive number.
import Edb.CatalogRunLaws

namespace edb

open Call

/-! ## What a client knows -/

namespace CatalogOp

/-- The list of a client after one more operation and its reply. -/
def tell (live : List Relation) : CatalogOp → CatalogReply → List Relation
  | .create_table spec, .oid (.ok oid) =>
    live ++ [⟨oid, spec.name, Catalog.RELKIND_TABLE, spec.columns⟩]
  | .drop_table oid, .done (.ok ()) => live.filter fun r => r.oid != oid
  | _, _ => live

/-- The system tables, and the tables that were created and not dropped. -/
def known (c : Setup) (ops : List CatalogOp) : List Relation :=
  Run.observe step tell ops (start c) (SystemTable.all.map Relation.system)

end CatalogOp

/-- The answers about tables are those of the list: a class is found under the
names of the list only, and each table has its columns in order, numbered from 1. -/
structure Describes (s : CatalogState) (live : List Relation) : Prop where
  names : (live.map Relation.name).Nodup
  oids : (live.map Relation.oid).Nodup
  classes : ∀ name, (CatalogOp.step (.get_class name) s).1 = .info
    (match live.find? fun r => r.name == name with
    | some r => .ok r.info
    | none => .error .NotFound)
  attributes : ∀ r ∈ live, (CatalogOp.step (.get_attributes r.oid) s).1 =
    .attributes (.ok r.attributes)
  schemas : ∀ r ∈ live, (CatalogOp.step (.open_table r.name) s).1 = .schema (.ok r.schema)

namespace CatalogModel

variable {c : Setup} {a : CatalogModel}

/-- The list that goes with a model. The first open describes the system tables. -/
def known (a : CatalogModel) : List Relation :=
  if a.relations.isEmpty then SystemTable.all.map Relation.system else a.relations

theorem known_eq (h : a.relations ≠ []) : a.known = a.relations := by
  unfold known
  rw [if_neg (by simpa using h)]

/-- The rows of the table that the operation creates go on a page. -/
def Fitting (c : Setup) : CatalogOp → Prop
  | .create_table spec => c.ClassFits spec.name Catalog.RELKIND_TABLE ∧
      ∀ column ∈ spec.columns, c.ColumnFits column
  | _ => True

/-- A creation of a table that fits is refused, or it adds the whole table. -/
theorem create_fitting {spec : CreateTableSpec} (hfits : Fitting c (.create_table spec)) :
    (∃ e, a.create_table c spec = (.error e, a)) ∨
      (a.opened = true ∧ spec.columns ≠ [] ∧ a.create_table c spec = (.ok a.next_oid,
        a.add ⟨a.next_oid, spec.name, Catalog.RELKIND_TABLE, spec.columns⟩)) := by
  unfold create_table
  rcases hrefuses : a.refuses c spec with _ | e
  · obtain ⟨ho, hcols, -, -⟩ := of_refuses_none hrefuses
    have hall : (spec.columns.all fun column => decide (c.ColumnFits column)) = true :=
      List.all_eq_true.mpr fun column hmem => by simpa using hfits.2 column hmem
    have hfit : c.fitting spec.columns = spec.columns :=
      List.takeWhile_eq_self_iff.mpr (List.all_eq_true.mp hall)
    have hcreated : a.created c spec =
        ⟨a.next_oid, spec.name, Catalog.RELKIND_TABLE, spec.columns⟩ := by
      unfold created
      rw [hfit]
    refine Or.inr ⟨ho, hcols, ?_⟩
    simp only [if_pos hfits.1, if_pos hall, hcreated]
  · exact Or.inl ⟨e, rfl⟩

theorem drop_cases (a : CatalogModel) (oid : Nat) :
    (∃ e, a.drop_table oid = (.error e, a)) ∨
      (a.opened = true ∧ a.drop_table oid = (.ok (), a.remove oid)) := by
  unfold drop_table
  cases ho : a.opened with
  | false => exact Or.inl ⟨_, rfl⟩
  | true =>
    simp only [Bool.not_true, Bool.false_eq_true, if_false]
    split
    · exact Or.inl ⟨_, rfl⟩
    · split
      · exact Or.inl ⟨_, rfl⟩
      · exact Or.inr ⟨trivial, rfl⟩

theorem known_reopened (a : CatalogModel) : a.reopened.known = a.known := by
  unfold reopened
  split
  · rename_i hempty
    unfold known
    rw [if_pos hempty]
    rfl
  · rfl

theorem relations_insert (c : Setup) (a : CatalogModel) (name : Bytes) (values : List Value) :
    (a.next c (.insert name values)).relations = a.relations := by
  simp only [next]
  split <;> rfl

end CatalogModel

/-- The list is that of the model, and each table of it has columns. -/
def HoldsKnown (c : Setup) (s : CatalogState) (a : CatalogModel) (live : List Relation) : Prop :=
  HoldsCatalog c a s ∧ live = a.known ∧ ∀ r ∈ live, r.columns ≠ []

/-- The list of the client stays that of the model. -/
theorem holds_known_step {c : Setup} {s : CatalogState} {a : CatalogModel} {live : List Relation}
    (op : CatalogOp) (hfits : CatalogModel.Fitting c op) (hk : HoldsKnown c s a live)
    (hok : a.Allows c op) :
    HoldsKnown c (op.step s).2 (a.next c op) (CatalogOp.tell live op (op.step s).1) := by
  obtain ⟨hc, rfl, hcols⟩ := hk
  have hstep := op.step_spec hc hok
  have hw := hc.well_formed
  refine ⟨hstep.2, ?_⟩
  cases op with
  | «open» => exact ⟨a.known_reopened.symm, hcols⟩
  | close => exact ⟨rfl, hcols⟩
  | create_table spec =>
    rw [CatalogOp.create_reply hc hok]
    show CatalogOp.tell a.known (.create_table spec) (.oid (a.create_table c spec).1) =
      (a.create_table c spec).2.known ∧ _
    rcases CatalogModel.create_fitting hfits with ⟨e, he⟩ | ⟨ho, hne, hadd⟩
    · rw [he]
      exact ⟨rfl, hcols⟩
    · rw [hadd]
      have hknown := CatalogModel.known_eq (hw.opened ho)
      refine ⟨?_, fun r hr => ?_⟩
      · have hadded := CatalogModel.known_eq (a := a.add ⟨a.next_oid, spec.name,
          Catalog.RELKIND_TABLE, spec.columns⟩) (by simp [CatalogModel.add])
        simp only [hadded, hknown]
        rfl
      · rcases List.mem_append.mp hr with hr | hr
        · exact hcols r hr
        · rw [List.mem_singleton.mp hr]
          exact hne
  | drop_table oid =>
    have hreply : (CatalogOp.step (.drop_table oid) s).1 = .done (a.drop_table oid).1 := hstep.1
    have hw' := hstep.2.well_formed
    rw [hreply]
    show CatalogOp.tell a.known (.drop_table oid) (.done (a.drop_table oid).1) =
      (a.drop_table oid).2.known ∧ _
    have hnext : a.next c (.drop_table oid) = (a.drop_table oid).2 := rfl
    rw [hnext] at hw'
    rcases a.drop_cases oid with ⟨e, he⟩ | ⟨ho, hremove⟩
    · rw [he]
      exact ⟨rfl, hcols⟩
    · rw [hremove] at hw' ⊢
      refine ⟨?_, fun r hr => hcols r (List.mem_of_mem_filter hr)⟩
      rw [CatalogModel.known_eq (hw'.opened ho), CatalogModel.known_eq (hw.opened ho)]
      rfl
  | insert name values =>
    have hsame : (a.next c (.insert name values)).known = a.known := by
      unfold CatalogModel.known
      rw [CatalogModel.relations_insert]
    rw [hsame]
    exact ⟨rfl, hcols⟩
  | _ => exact ⟨rfl, hcols⟩

/-- A client that keeps a list of the tables that it created and did not drop
knows all names, oids, classes, attributes and schemas, after every run in which
the rows of new tables go on a page. -/
theorem catalog_is_a_map_of_names (c : Setup) (ops : List CatalogOp)
    (hok : CatalogModel.AllowsRun c ops) (hfits : ∀ op ∈ ops, CatalogModel.Fitting c op)
    (hopen : (CatalogOp.after c ops).catalog.opened = true) :
    Describes (CatalogOp.after c ops) (CatalogOp.known c ops) := by
  have hstart : HoldsKnown c (CatalogOp.start c) {} (SystemTable.all.map Relation.system) := by
    refine ⟨CatalogOp.holds_start c, rfl, fun r hr => ?_⟩
    obtain ⟨t, -, rfl⟩ := List.mem_map.mp hr
    cases t <;> exact List.cons_ne_nil _ _
  have hend : HoldsKnown c (CatalogOp.after c ops) (CatalogModel.after c ops)
      (CatalogOp.known c ops) :=
    Run.observes (CatalogModel.Fitting c) (HoldsKnown c)
      (fun op s a live hv hR hop => holds_known_step op hv hR hop) ops _ _ _ hfits hstart hok
  obtain ⟨hc, hlive, hcols⟩ := hend
  have hw := hc.well_formed
  have ho : (CatalogModel.after c ops).opened = true := hc.opened.symm.trans hopen
  rw [CatalogModel.known_eq (hw.opened ho)] at hlive
  rw [hlive] at hcols ⊢
  refine ⟨hw.names, hw.oids, fun name => ?_, fun r hr => ?_, fun r hr => ?_⟩
  · rw [CatalogOp.get_class_reply hc]
    simp only [CatalogModel.get_class, ho, Bool.not_true, Bool.false_eq_true, if_false,
      CatalogModel.find]
    split <;> rename_i hf <;> simp only [hf]
  · rw [CatalogOp.get_attributes_reply hc]
    have hne := hcols r hr
    simp [CatalogModel.get_attributes, ho, hw.find_oid_mem hr, hne]
  · rw [CatalogOp.open_table_reply hc]
    have hne := hcols r hr
    simp [CatalogModel.open_table, ho, hw.find_mem hr, hne]
    rfl

/-- A table is there after the catalog was closed and opened again. -/
theorem first_table_is_known :
    Describes
      (CatalogOp.after small_setup ([.open] ++ .create_table (one_column (str "t")) :: [.close, .open]))
      (CatalogOp.known small_setup
        ([.open] ++ .create_table (one_column (str "t")) :: [.close, .open])) := by
  have hopened : (CatalogModel.after small_setup
      ([.open] ++ .create_table (one_column (str "t")) :: [.close, .open])).opened = true := by
    decide
  have hfits : ∀ op ∈ [.open] ++ .create_table (one_column (str "t")) :: [.close, .open],
      CatalogModel.Fitting small_setup op := by
    intro op hop
    simp only [List.cons_append, List.nil_append, List.mem_cons, List.not_mem_nil, or_false] at hop
    rcases hop with rfl | rfl | rfl | rfl
    · trivial
    · refine ⟨by decide, fun column hmem => ?_⟩
      rw [List.mem_singleton.mp hmem]
      decide
    · trivial
    · trivial
  exact catalog_is_a_map_of_names small_setup _ allows_first_table hfits
    ((holds_after allows_first_table).opened.trans hopened)

/-! ## A table with too many columns -/

namespace Catalog

variable {c : Setup} {a : CatalogModel} {s : CatalogState}

theorem decode_attribute_error {types : TypeRegistry} {row : TableRow} {e : Error}
    (h : decode_attribute types row = .error e) : e = .Corruption := by
  unfold decode_attribute at h
  split at h
  · split at h
    · split at h
      · cases h
        rfl
      · cases h
    · cases h
      rfl
  · cases h
    rfl

/-- One row that cannot be decoded stops a loop over all rows. -/
theorem filter_rows_error {α : Type} {decode : TableRow → Result α} (wanted : α → Bool)
    (hall : ∀ row e, decode row = .error e → e = .Corruption) {rows : List TableRow}
    {row : TableRow} (hmem : row ∈ rows) (hrow : decode row = .error .Corruption) :
    filter_rows decode wanted rows = .error .Corruption := by
  induction rows with
  | nil => cases hmem
  | cons first rest ih =>
    unfold filter_rows
    rcases hfirst : decode first with e | r
    · rw [hall first e hfirst]
      rfl
    · rcases List.mem_cons.mp hmem with rfl | hmem
      · rw [hrow] at hfirst
        cases hfirst
      · rw [ih hmem]
        rfl

/-- While a table has a column with a number past 2^31, no columns are found. -/
theorem get_attributes.wrapped (hw : a.WellFormed c) {r : Relation}
    (hfits : ∀ column ∈ r.columns, c.ColumnFits column) (hcount : 2 ^ 31 ≤ r.columns.length)
    (hr : Running c (a.add r) s) (hopen : s.catalog.opened = true)
    (hbound : (a.add r).inserted SystemTable.attribute_table.oid ≤ 2 ^ 32) (oid : Nat)
    (hcache : s.catalog.attribute_cache_by_relid oid = none) :
    (get_attributes oid).wp (fun _ _ => False)
      (fun e s' => e = .Corruption ∧ s'.catalog.opened = true ∧
        s'.catalog.attribute_cache_by_relid oid = none ∧ Running c (a.add r) s') s := by
  have hshort : ∀ x ∈ (a.add r).attribute_records,
      (attribute_kind.tuple c.types x).length < 2 ^ 32 := by
    intro x hx
    obtain ⟨r', hmem, hx⟩ := List.mem_flatMap.mp hx
    have hcolumn : c.ColumnFits ⟨x.name, x.type_oid, x.nullable⟩ := by
      rcases List.mem_append.mp hmem with hmem | hmem
      · exact ((hw.keeps r' hmem).columns _ (Relation.column_of_mem hx)).2
      · rw [List.mem_singleton.mp hmem] at hx
        exact hfits _ (Relation.column_of_mem hx)
    have hmax := c.page_max
    unfold Setup.ColumnFits Setup.Fits at hcolumn
    rw [length_attribute_tuple c.registered]
    simp only at hcolumn
    omega
  -- the row of the column with the number 2^31 cannot be decoded
  obtain ⟨x, hx, hnum⟩ : ∃ x ∈ r.attributes, x.attnum = 2 ^ 31 :=
    Relation.exists_attnum _ (by decide) (by omega)
  have hrecord : x ∈ (a.add r).attribute_records :=
    List.mem_flatMap.mpr ⟨r, List.mem_append_right _ List.mem_cons_self, hx⟩
  unfold get_attributes check_open
  rw [wp_bind, wp_bind, wp_get, hopen]
  simp only [Bool.not_true, Bool.false_eq_true, if_false]
  rw [wp_pure, wp_bind, wp_get, hcache]
  simp only
  rw [wp_bind]
  obtain ⟨m, h, hs⟩ := hr.system .attribute_table
  refine wp_scan_records attribute_kind hr.types hs hbound (CatalogModel.content_attribute _)
    hshort fun pairs b io _ hp hs' => ?_
  obtain ⟨p, hp', rfl⟩ := List.mem_map.mp (hp.symm.subset hrecord)
  have hrow : (⟨p.1, attribute_values p.2⟩ : TableRow) ∈ attribute_kind.rows pairs :=
    List.mem_map_of_mem hp'
  have hstop : filter_rows (decode_attribute c.types) (fun a => a.relation_oid == oid)
      (attribute_kind.rows pairs) = .error .Corruption :=
    filter_rows_error _ (fun _ _ => decode_attribute_error) hrow
      (decode_attribute_wrapped c.registered p.1 (by rw [hnum]; decide))
  rw [wp_bind, hr.types, hstop, wp_ofExcept_error]
  exact ⟨rfl, hopen, hcache, hr.with_system hs'⟩

/-- A table with 2^31 columns is described, and then it cannot be opened. -/
theorem create_table.wrapped (hc : HoldsCatalog c a s) (spec : CreateTableSpec)
    (hfits : CatalogModel.Fitting c (.create_table spec)) (hrefuses : a.refuses c spec = none)
    (hcount : 2 ^ 31 ≤ spec.columns.length) (hoid : a.next_oid < 2 ^ 31)
    (hroom : a.inserted SystemTable.attribute_table.oid + spec.columns.length ≤ 2 ^ 32) :
    (create_table spec).wp (fun _ _ => False)
      (fun e s' => e = .Corruption ∧ s'.catalog.opened = true ∧
        s'.catalog.attribute_cache_by_relid a.next_oid = none ∧
        Running c (a.add ⟨a.next_oid, spec.name, RELKIND_TABLE, spec.columns⟩) s') s := by
  have hall : (spec.columns.all fun column => decide (c.ColumnFits column)) = true :=
    List.all_eq_true.mpr fun column hmem => by simpa using hfits.2 column hmem
  have hfit : c.fitting spec.columns = spec.columns :=
    List.takeWhile_eq_self_iff.mpr (List.all_eq_true.mp hall)
  have hcreated : a.created c spec = ⟨a.next_oid, spec.name, RELKIND_TABLE, spec.columns⟩ := by
    unfold CatalogModel.created
    rw [hfit]
  refine wp_create_table hc spec hoid (fun _ _ => by rw [hfit]; exact hroom) ?_ ?_ ?_ ?_
  · intro e s' he
    rw [hrefuses] at he
    cases he
  · exact fun _ hbig => absurd hfits.1 hbig
  · intro _ _ hnot
    rw [hall] at hnot
    cases hnot
  · intro _ _ _ s4 hs4
    rw [hcreated] at hs4
    unfold invalidate_class_cache modify_catalog
    rw [wp_bind, wp_modify]
    unfold ensure_user_table_open
    rw [wp_bind, wp_get]
    simp only [hs4.user_tables, Option.isSome_none, Bool.false_eq_true, if_false,
      List.isEmpty_nil, if_true]
    rw [wp_bind]
    have hr4 := hs4.running
    have hr5 : Running c (a.add ⟨a.next_oid, spec.name, RELKIND_TABLE, spec.columns⟩)
        { s4 with catalog := { s4.catalog with
            class_cache_by_name := Function.update s4.catalog.class_cache_by_name spec.name none
            attribute_cache_by_relid :=
              Function.update s4.catalog.attribute_cache_by_relid a.next_oid none } } :=
      ⟨hr4.types, hr4.config, hr4.refusals, hr4.system, hr4.user, hr4.keys,
        hr4.caches.types, cache_forget hr4.caches.classes _, cache_forget hr4.caches.attributes _⟩
    apply wp_mono (get_attributes.wrapped hc.well_formed hfits.2 hcount hr5 hs4.opened hroom
      a.next_oid (by simp))
    · exact fun _ _ hf => hf.elim
    · exact fun _ _ h => h

end Catalog

/-- The class of a table with 2^31 columns is found although its creation failed,
and its columns are not. -/
theorem CatalogOp.create_wrapped {c : Setup} {a : CatalogModel} {s : CatalogState}
    (hc : HoldsCatalog c a s) (spec : CreateTableSpec)
    (hfits : CatalogModel.Fitting c (.create_table spec)) (hrefuses : a.refuses c spec = none)
    (hcount : 2 ^ 31 ≤ spec.columns.length) (hoid : a.next_oid < 2 ^ 31)
    (hroom : a.inserted SystemTable.attribute_table.oid + spec.columns.length ≤ 2 ^ 32)
    (hroom' : a.inserted SystemTable.class_table.oid + 1 ≤ 2 ^ 32) :
    (step (.create_table spec) s).1 = .oid (.error .Corruption) ∧
      (step (.get_class spec.name) (step (.create_table spec) s).2).1 =
        .info (.ok ⟨a.next_oid, spec.name, Catalog.RELKIND_TABLE⟩) ∧
      (step (.get_attributes a.next_oid) (step (.create_table spec) s).2).1 =
        .attributes (.error .Corruption) := by
  obtain ⟨ho, -, hnone, -⟩ := CatalogModel.of_refuses_none hrefuses
  have hw := hc.well_formed
  have hcreate : (step (.create_table spec) s).1 = .oid (.error .Corruption) ∧
      (step (.create_table spec) s).2.catalog.opened = true ∧
      (step (.create_table spec) s).2.catalog.attribute_cache_by_relid a.next_oid = none ∧
      Running c (a.add ⟨a.next_oid, spec.name, Catalog.RELKIND_TABLE, spec.columns⟩)
        (step (.create_table spec) s).2 :=
    step_of_wp (P := fun r s' => r = .oid (.error .Corruption) ∧ s'.catalog.opened = true ∧
      s'.catalog.attribute_cache_by_relid a.next_oid = none ∧
      Running c (a.add ⟨a.next_oid, spec.name, Catalog.RELKIND_TABLE, spec.columns⟩) s') rfl
      (wp_mono (Catalog.create_table.wrapped hc spec hfits hrefuses hcount hoid hroom)
        (fun _ _ hf => hf.elim) fun e s' h => ⟨by rw [h.1], h.2⟩)
  obtain ⟨hreply, hopen, hcache, hr⟩ := hcreate
  generalize (step (.create_table spec) s).2 = s' at hopen hcache hr ⊢
  have hkept : (a.add ⟨a.next_oid, spec.name, Catalog.RELKIND_TABLE,
      spec.columns⟩).ClassesKept c := by
    refine ⟨CatalogModel.nodup_names_add hw.names hnone, fun r hr => ?_, fun r hr => ?_⟩
    · rcases List.mem_append.mp hr with hr | hr
      · exact (hw.keeps r hr).oid
      · rw [List.mem_singleton.mp hr]
        exact hoid
    · rcases List.mem_append.mp hr with hr | hr
      · exact (hw.keeps r hr).fits
      · rw [List.mem_singleton.mp hr]
        exact hfits.1
  refine ⟨hreply, ?_, ?_⟩
  · have hfind := CatalogModel.find_of_nodup hkept.names
      (r := ⟨a.next_oid, spec.name, Catalog.RELKIND_TABLE, spec.columns⟩)
      (List.mem_append_right _ List.mem_cons_self)
    refine step_of_wp
      (P := fun r _ => r = .info (.ok ⟨a.next_oid, spec.name, Catalog.RELKIND_TABLE⟩)) rfl
      (wp_mono (Catalog.get_class.running hr hopen hroom' hkept spec.name) ?_ ?_)
    · rintro k s'' ⟨⟨r, hr', rfl⟩, -⟩
      cases hfind.symm.trans hr'
      rfl
    · rintro e s'' ⟨⟨hr', -⟩, -⟩
      cases hfind.symm.trans hr'
  · exact step_of_wp (P := fun r _ => r = .attributes (.error .Corruption)) rfl
      (wp_mono (Catalog.get_attributes.wrapped hw hfits.2 hcount hr hopen hroom a.next_oid hcache)
        (fun _ _ hf => hf.elim) fun e _ h => by rw [h.1])

/-- A table with `n` columns. -/
def many_columns (name : Bytes) (n : Nat) : CreateTableSpec :=
  ⟨name, List.replicate n ⟨str "a", 1, false⟩⟩

theorem many_columns_fit (name : Bytes) (n : Nat)
    (hname : small_setup.ClassFits name Catalog.RELKIND_TABLE) :
    CatalogModel.Fitting small_setup (.create_table (many_columns name n)) := by
  refine ⟨hname, fun column hmem => ?_⟩
  rw [List.eq_of_mem_replicate hmem]
  decide

theorem many_columns_accepted (n : Nat) (hn : n ≠ 0) :
    (CatalogModel.after small_setup [.open]).refuses small_setup (many_columns (str "t") n) =
      none := by
  have hfind : (CatalogModel.after small_setup [.open]).find (str "t") = none := by decide
  have hopened : (CatalogModel.after small_setup [.open]).opened = true := by decide
  have hempty : (str "t").isEmpty = false := by decide
  have htype : small_setup.types.lookup 1 = .ok Builtin.int32.type := lookup_builtin .int32
  simp [CatalogModel.refuses, many_columns, hopened, hfind, htype, hempty, hn, Except.toOption]

/-- A creation of 2^31 columns fails, and yet its class is found. -/
theorem many_columns_break_the_map :
    (CatalogOp.step (.create_table (many_columns (str "t") (2 ^ 31)))
        (CatalogOp.after small_setup [.open])).1 = .oid (.error .Corruption) ∧
      (CatalogOp.step (.get_class (str "t")) (CatalogOp.step
        (.create_table (many_columns (str "t") (2 ^ 31)))
          (CatalogOp.after small_setup [.open])).2).1 =
        .info (.ok ⟨5, str "t", str "table"⟩) ∧
      (CatalogOp.step (.get_attributes 5) (CatalogOp.step
        (.create_table (many_columns (str "t") (2 ^ 31)))
          (CatalogOp.after small_setup [.open])).2).1 =
        .attributes (.error .Corruption) := by
  have hlength : ∀ n, (many_columns (str "t") n).columns.length = n := fun n =>
    List.length_replicate
  have hoid : (CatalogModel.after small_setup [.open]).next_oid = 5 := by decide
  have hrows : (CatalogModel.after small_setup [.open]).inserted SystemTable.attribute_table.oid =
      14 := by decide
  have h := CatalogOp.create_wrapped (holds_after allows_open) (many_columns (str "t") (2 ^ 31))
    (many_columns_fit _ _ (by decide)) (many_columns_accepted _ (by decide))
    (Nat.le_of_eq (hlength _).symm) (by rw [hoid]; decide) (by rw [hrows, hlength]; decide)
    (by decide)
  rw [hoid] at h
  exact h

end edb
