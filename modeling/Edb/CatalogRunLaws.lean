-- The laws of whole runs of the catalog: a new table is empty, a creation that
-- fails changes nothing, the system tables can be scanned, and the metadata is
-- a map from names. Each law has a condition, and a run without it that shows
-- what the catalog does then.
import Edb.CatalogRuns

namespace edb

open Call

/-- The catalog of the runs below: pages of 400 bytes and eight frames. -/
def small_setup : Setup where
  types := builtin_registry
  config := { page_size := 400, buffer_pool_pages := 8 }
  registered := registered_builtin
  page_min := by decide
  page_max := by decide
  frames := by decide

/-! ## New tables -/

namespace CatalogModel

variable {c : Setup} {a : CatalogModel}

/-- A creation that succeeds describes the whole table, under the next oid. -/
theorem create_ok {spec : CreateTableSpec} {oid : Nat} (h : (a.create_table c spec).1 = .ok oid) :
    a.opened = true ∧ oid = a.next_oid ∧ spec.columns ≠ [] ∧ a.find spec.name = none ∧
      a.create_table c spec = (.ok oid,
        a.add ⟨a.next_oid, spec.name, Catalog.RELKIND_TABLE, spec.columns⟩) := by
  unfold create_table at h ⊢
  rcases hrefuses : a.refuses c spec with _ | e
  · obtain ⟨ho, hcols, hnew, -⟩ := of_refuses_none hrefuses
    rw [hrefuses] at h
    simp only at h ⊢
    split at h
    · rename_i hfits
      rw [if_pos hfits]
      split at h
      · rename_i hall
        cases h
        have hfit : c.fitting spec.columns = spec.columns :=
          List.takeWhile_eq_self_iff.mpr (List.all_eq_true.mp hall)
        have hcreated : a.created c spec =
            ⟨a.next_oid, spec.name, Catalog.RELKIND_TABLE, spec.columns⟩ := by
          unfold created
          rw [hfit]
        rw [if_pos hall, hcreated]
        exact ⟨ho, rfl, hcols, hnew, rfl⟩
      · cases h
    · cases h
  · rw [hrefuses] at h
    cases h

/-- A table without rows stays so until a row goes in or the table is dropped. -/
def Empty (r : Relation) (a : CatalogModel) : Prop :=
  r ∈ a.relations ∧ 5 ≤ r.oid ∧ a.rows r.oid = some 0 ∧ a.inserted r.oid = 0

theorem inserted_add (a : CatalogModel) (r : Relation) {oid : Nat} (hoid : 5 ≤ oid) :
    (a.add r).inserted oid = a.inserted oid := by
  have h2 : oid ≠ SystemTable.class_table.oid := by
    have := SystemTable.class_table.oid_lt
    omega
  have h3 : oid ≠ SystemTable.attribute_table.oid := by
    have := SystemTable.attribute_table.oid_lt
    omega
  simp [add, h2, h3]

theorem Empty.add {r r' : Relation} (he : a.Empty r) (hne : r.oid ≠ r'.oid) :
    (a.add r').Empty r := by
  obtain ⟨hr, hoid, hrows, hins⟩ := he
  refine ⟨List.mem_append_left _ hr, hoid, ?_, (inserted_add a r' hoid).trans hins⟩
  simp only [CatalogModel.add, Function.update_of_ne hne]
  exact hrows

theorem Empty.next (hw : a.WellFormed c) {r : Relation} (he : a.Empty r) (op : CatalogOp)
    (hins : ∀ values, op ≠ .insert r.name values) (hdrop : op ≠ .drop_table r.oid) :
    (a.next c op).Empty r := by
  obtain ⟨hr, hoid, hrows, hinserted⟩ := he
  cases op with
  | «open» =>
    have hne : a.relations.isEmpty = false := by
      cases hrel : a.relations with
      | nil => rw [hrel] at hr; cases hr
      | cons => rfl
    simp only [CatalogModel.next, reopened, hne, Bool.false_eq_true, if_false]
    exact ⟨hr, hoid, hrows, hinserted⟩
  | create_table spec =>
    simp only [CatalogModel.next, create_table]
    split
    · exact ⟨hr, hoid, hrows, hinserted⟩
    · split
      · exact Empty.add ⟨hr, hoid, hrows, hinserted⟩ (Nat.ne_of_lt (lt_next_oid hr))
      · exact ⟨hr, hoid, hrows, hinserted⟩
  | drop_table oid =>
    have hne : r.oid ≠ oid := fun h => hdrop (by rw [h])
    have hkept : (a.remove oid).Empty r := by
      refine ⟨List.mem_filter.mpr ⟨hr, by simpa using hne⟩, hoid, ?_, hinserted⟩
      simp only [remove, Function.update_of_ne hne]
      exact hrows
    simp only [CatalogModel.next, drop_table]
    split
    · exact ⟨hr, hoid, hrows, hinserted⟩
    · split
      · exact ⟨hr, hoid, hrows, hinserted⟩
      · split
        · exact ⟨hr, hoid, hrows, hinserted⟩
        · exact hkept
  | insert name values =>
    simp only [CatalogModel.next]
    split
    · rename_i oid tuple hok
      -- the row goes into a relation with another name, so with another oid
      have hne : r.oid ≠ oid := by
        rintro rfl
        unfold inserts at hok
        rcases hopen : a.open_table name with e | r'
        · rw [hopen] at hok
          cases hok
        · rw [hopen] at hok
          simp only [bind, Except.bind] at hok
          split at hok
          · cases hok
          · split at hok
            · have hoid' : r'.oid = r.oid := (Prod.mk.inj (Except.ok.inj hok)).1
              obtain ⟨-, hr'⟩ := CatalogOp.open_of_ok hopen
              cases List.inj_on_of_nodup_map hw.oids hr' hr hoid'
              refine hins values ?_
              rw [CatalogOp.name_of_ok hopen]
            · cases hok
      refine ⟨hr, hoid, ?_, ?_⟩
      · simp only [CatalogModel.insert, Function.update_of_ne hne]
        exact hrows
      · simp only [CatalogModel.insert, Function.update_of_ne hne]
        exact hinserted
    · exact ⟨hr, hoid, hrows, hinserted⟩
  | _ => exact ⟨hr, hoid, hrows, hinserted⟩

/-- A table is empty right after its creation. -/
theorem empty_of_create (hw : a.WellFormed c) (ho : a.opened = true)
    (hfresh : a.inserted a.next_oid = 0) {spec : CreateTableSpec} {r : Relation} {reply : Result Nat}
    (hr : r.oid = a.next_oid) (hmodel : a.create_table c spec = (reply, a.add r)) :
    (a.next c (.create_table spec)).Empty r := by
  have h5 : 5 ≤ r.oid := hr ▸ hw.five_le_next_oid ho
  have hnext : a.next c (.create_table spec) = a.add r := congrArg Prod.snd hmodel
  rw [← hr] at hfresh
  rw [hnext]
  exact ⟨by simp [add], h5, by simp [add, hfresh], (inserted_add _ _ h5).trans hfresh⟩

end CatalogModel

/-- A table that was just created has no rows, whatever happens to other tables
and to the catalog before the first row, if no row was ever inserted under the
oid that the creation takes. -/
theorem new_table_is_empty (c : Setup) (before rest : List CatalogOp) (spec : CreateTableSpec)
    (oid : Nat) (hok : CatalogModel.AllowsRun c (before ++ .create_table spec :: rest))
    (hcreated : (CatalogOp.step (.create_table spec) (CatalogOp.after c before)).1 =
      .oid (.ok oid))
    (hfresh : (CatalogModel.after c before).inserted (CatalogModel.after c before).next_oid = 0)
    (hinsert : ∀ values, .insert spec.name values ∉ rest) (hdrop : .drop_table oid ∉ rest)
    (hopen : (CatalogOp.after c (before ++ .create_table spec :: rest)).catalog.opened = true) :
    (CatalogOp.step (.scan spec.name)
      (CatalogOp.after c (before ++ .create_table spec :: rest))).1 = .rows (.ok []) := by
  obtain ⟨hok1, hok2, hok3⟩ := (Run.allowed_append _ _ before _ _).mp hok
  have hc1 := holds_after hok1
  have hstep := CatalogOp.step_spec (.create_table spec) hc1 hok2
  have hanswer := hcreated.symm.trans (CatalogOp.create_reply hc1 hok2)
  obtain ⟨ho1, rfl, hcols, hnew, hmodel⟩ := CatalogModel.create_ok (CatalogReply.oid.inj hanswer).symm
  have hempty := CatalogModel.empty_of_create hc1.well_formed ho1 hfresh rfl hmodel
  -- the table stays empty through the rest of the run
  generalize hr : (⟨_, spec.name, _, _⟩ : Relation) = r at hempty
  have hkept : ∀ op ∈ rest, (∀ values, op ≠ .insert r.name values) ∧ op ≠ .drop_table r.oid := by
    subst hr
    exact fun op hmem => ⟨fun values he => hinsert values (he ▸ hmem), fun he => hdrop (he ▸ hmem)⟩
  have hrun := Run.follows _ (fun s a => HoldsCatalog c a s ∧ a.Empty r)
    (fun op s a hv hR hop => ⟨(op.step_spec hR.1 hop).2,
      hR.2.next hR.1.well_formed op hv.1 hv.2⟩) rest _ _ hkept ⟨hstep.2, hempty⟩ hok3
  have hlast : (Run.exec CatalogOp.step rest
      (CatalogOp.step (.create_table spec) (CatalogOp.after c before)).2).2 =
      CatalogOp.after c (before ++ .create_table spec :: rest) :=
    (Run.exec_append CatalogOp.step before (.create_table spec :: rest) (CatalogOp.start c)).symm
  rw [hlast] at hrun
  generalize (Run.exec (CatalogModel.step c) rest _).2 = a at hrun
  obtain ⟨hc, hmem, hoid, hrows, hins⟩ := hrun
  have ho : a.opened = true := hc.opened.symm.trans hopen
  have htable : a.open_table spec.name = .ok r := by
    have hfind := hc.well_formed.find_mem hmem
    subst hr
    simp only at hfind
    simp [CatalogModel.open_table, ho, hfind, hcols]
  have hscan := (CatalogOp.step_spec (.scan spec.name) hc (fun r' hr' => by
    cases htable.symm.trans hr'
    rw [hins]
    exact Nat.zero_le _)).1
  simp only [CatalogModel.Answers, htable] at hscan
  obtain ⟨rows, hreply, hall⟩ := hscan
  obtain ⟨order, hzero, hrows'⟩ := hall 0 (Or.inl ⟨hoid, hrows⟩)
  rw [hreply, hrows', (Multiset.coe_eq_zero _).mp hzero]
  rfl

/-- A table with one column. -/
def one_column (name : Bytes) : CreateTableSpec := ⟨name, [⟨str "a", 1, false⟩]⟩

theorem allows_first_table : CatalogModel.AllowsRun small_setup
    ([.open] ++ .create_table (one_column (str "t")) :: [.close, .open]) := by
  refine ⟨⟨rfl, ?_⟩, ⟨by decide, by decide, ?_⟩, trivial, ⟨rfl, ?_⟩, trivial⟩
  · intro t
    cases t <;> decide
  · intro t
    cases t <;> decide
  · intro t
    cases t <;> decide

/-- A table stays empty while the catalog is closed and opened again. -/
theorem first_table_is_empty :
    (CatalogOp.step (.scan (one_column (str "t")).name) (CatalogOp.after small_setup
      ([.open] ++ .create_table (one_column (str "t")) :: [.close, .open]))).1 =
      .rows (.ok []) := by
  have hok := allows_first_table
  have hmodel : ((CatalogModel.after small_setup [.open]).create_table small_setup
      (one_column (str "t"))).1 = .ok 5 := by decide
  have hopened : (CatalogModel.after small_setup
      ([.open] ++ .create_table (one_column (str "t")) :: [.close, .open])).opened = true := by
    decide
  have hfirst : CatalogModel.AllowsRun small_setup [.open] := ⟨hok.1, trivial⟩
  have hreply := CatalogOp.create_reply (holds_after hfirst) hok.2.1
  exact new_table_is_empty small_setup [.open] [.close, .open] (one_column (str "t")) 5 hok
    (hreply.trans (congrArg CatalogReply.oid hmodel)) (by decide) (by simp) (by simp)
    ((holds_after hok).opened.trans hopened)

set_option maxRecDepth 100000 in
/-- A new table takes the oid of the newest table that was dropped, and with it
the rows that the dropped table had brought to its file. -/
theorem dropped_rows_come_back :
    (CatalogOp.step (.scan (str "u")) (CatalogOp.after small_setup
      [.open, .create_table (one_column (str "t")), .insert (str "t") [⟨1, [7, 0, 0, 0], false⟩],
        .close, .open, .drop_table 5, .create_table (one_column (str "u"))])).1 =
      .rows (.ok [[⟨1, [7, 0, 0, 0], false⟩]]) := by
  decide +kernel

/-! ## Creations that fail -/

/-- The two states give the same answers to all questions about tables. -/
def SameAnswers (s s' : CatalogState) : Prop :=
  (∀ name, (CatalogOp.step (.get_class name) s).1 = (CatalogOp.step (.get_class name) s').1) ∧
  (∀ oid, (CatalogOp.step (.get_attributes oid) s).1 =
    (CatalogOp.step (.get_attributes oid) s').1) ∧
  ∀ name, (CatalogOp.step (.open_table name) s).1 = (CatalogOp.step (.open_table name) s').1

theorem same_answers {c : Setup} {a a' : CatalogModel} {s s' : CatalogState}
    (hc : HoldsCatalog c a s) (hc' : HoldsCatalog c a' s') (hrel : a'.relations = a.relations)
    (ho : a'.opened = a.opened) : SameAnswers s s' := by
  have hfind : ∀ name, a'.find name = a.find name := fun name => by
    simp only [CatalogModel.find, hrel]
  have hfind_oid : ∀ oid, a'.find_oid oid = a.find_oid oid := fun oid => by
    simp only [CatalogModel.find_oid, hrel]
  refine ⟨fun name => ?_, fun oid => ?_, fun name => ?_⟩
  · rw [CatalogOp.get_class_reply hc, CatalogOp.get_class_reply hc']
    simp only [CatalogModel.get_class, hfind, ho]
  · rw [CatalogOp.get_attributes_reply hc, CatalogOp.get_attributes_reply hc']
    simp only [CatalogModel.get_attributes, hfind_oid, ho]
  · rw [CatalogOp.open_table_reply hc, CatalogOp.open_table_reply hc']
    simp only [CatalogModel.open_table, hfind, ho]

/-- A creation that fails leaves all answers as they were, unless the catalog
takes the table and writes the row of its class, and then comes to a column
whose row does not go on a page. -/
theorem failed_creation_is_atomic_iff (c : Setup) (ops : List CatalogOp)
    (hok : CatalogModel.AllowsRun c ops)
    (hopen : (CatalogOp.after c ops).catalog.opened = true) (spec : CreateTableSpec)
    (hspec : (CatalogModel.after c ops).Allows c (.create_table spec)) (e : Error)
    (hfailed : (CatalogOp.step (.create_table spec) (CatalogOp.after c ops)).1 =
      .oid (.error e)) :
    SameAnswers (CatalogOp.after c ops)
        (CatalogOp.step (.create_table spec) (CatalogOp.after c ops)).2 ↔
      ¬ ((CatalogModel.after c ops).refuses c spec = none ∧
        c.ClassFits spec.name Catalog.RELKIND_TABLE ∧
        ∃ column ∈ spec.columns, ¬ c.ColumnFits column) := by
  have hc := holds_after hok
  have hreply := hfailed.symm.trans (CatalogOp.create_reply hc hspec)
  have hc' := (CatalogOp.step_spec (.create_table spec) hc hspec).2
  have ho : (CatalogModel.after c ops).opened = true := hc.opened.symm.trans hopen
  generalize CatalogOp.after c ops = s at *
  generalize CatalogModel.after c ops = a at *
  have hnext : a.next c (.create_table spec) = (a.create_table c spec).2 := rfl
  rw [hnext] at hc'
  constructor
  · rintro ⟨hsame, -⟩ ⟨hrefuses, hfits, -⟩
    -- the class of the table is there afterwards, and was not before
    have hmodel : (a.create_table c spec).2 = a.add (a.created c spec) := by
      unfold CatalogModel.create_table
      rw [hrefuses]
      simp only [if_pos hfits]
    obtain ⟨-, -, hnone, -⟩ := CatalogModel.of_refuses_none hrefuses
    rw [hmodel] at hc'
    have hafter := CatalogOp.get_class_reply hc' spec.name
    rw [← hsame, CatalogOp.get_class_reply hc spec.name] at hafter
    have hfind : (a.add (a.created c spec)).find spec.name = some (a.created c spec) :=
      hc'.well_formed.find_mem (r := a.created c spec) (by simp [CatalogModel.add])
    have ho' : (a.add (a.created c spec)).opened = true := ho
    simp [CatalogModel.get_class, ho, ho', hnone, hfind] at hafter
  · intro hno
    have hrel : (a.create_table c spec).2.relations = a.relations ∧
        (a.create_table c spec).2.opened = a.opened := by
      unfold CatalogModel.create_table
      rcases hrefuses : a.refuses c spec with _ | e'
      · have hbig : ¬ c.ClassFits spec.name Catalog.RELKIND_TABLE := by
          intro hfits
          have hall : ∀ column ∈ spec.columns, c.ColumnFits column := by
            intro column hmem
            by_contra hcolumn
            exact hno ⟨hrefuses, hfits, column, hmem, hcolumn⟩
          have hsuccess : (a.create_table c spec).1 = .ok a.next_oid := by
            unfold CatalogModel.create_table
            rw [hrefuses]
            simp only [if_pos hfits]
            exact if_pos (List.all_eq_true.mpr fun column hmem => by simpa using hall column hmem)
          rw [hsuccess] at hreply
          cases hreply
        simp only [if_neg hbig]
        exact ⟨rfl, rfl⟩
      · exact ⟨rfl, rfl⟩
    exact same_answers hc hc' hrel.1 hrel.2

/-- A table with a column whose name is too long for a page. -/
def long_column (name : Bytes) : CreateTableSpec :=
  ⟨name, [⟨str "a", 1, false⟩, ⟨List.replicate 400 65, 1, false⟩]⟩

theorem allows_open : CatalogModel.AllowsRun small_setup [.open] :=
  ⟨⟨rfl, fun t => by cases t <;> decide⟩, trivial⟩

theorem opened_after_open : (CatalogOp.after small_setup [.open]).catalog.opened = true :=
  (holds_after allows_open).opened

theorem allows_long_column : (CatalogModel.after small_setup [.open]).Allows small_setup
    (.create_table (long_column (str "t"))) :=
  ⟨by decide, by decide, fun t => by cases t <;> decide +kernel⟩

/-- A table without columns is refused, and nothing has changed. -/
theorem refused_creation_keeps_answers :
    SameAnswers (CatalogOp.after small_setup [.open])
      (CatalogOp.step (.create_table ⟨str "t", []⟩) (CatalogOp.after small_setup [.open])).2 := by
  have hspec : (CatalogModel.after small_setup [.open]).Allows small_setup
      (.create_table ⟨str "t", []⟩) :=
    ⟨by decide, by decide, fun t => by cases t <;> decide⟩
  have hmodel : ((CatalogModel.after small_setup [.open]).create_table small_setup
      ⟨str "t", []⟩).1 = .error .InvalidArgument := by decide
  have hreply := CatalogOp.create_reply (holds_after allows_open) hspec
  refine (failed_creation_is_atomic_iff small_setup [.open] allows_open opened_after_open
    ⟨str "t", []⟩ hspec .InvalidArgument (hreply.trans (congrArg CatalogReply.oid hmodel))).mpr ?_
  rintro ⟨-, -, column, hmem, -⟩
  cases hmem

/-- The creation fails at its second column, and the class of the table stays. -/
theorem failed_creation_leaves_the_class :
    (CatalogOp.step (.create_table (long_column (str "t")))
        (CatalogOp.after small_setup [.open])).1 = .oid (.error .OutOfMemory) ∧
      (CatalogOp.step (.get_class (str "t")) (CatalogOp.after small_setup [.open])).1 =
        .info (.error .NotFound) ∧
      (CatalogOp.step (.get_class (str "t")) (CatalogOp.step (.create_table (long_column (str "t")))
        (CatalogOp.after small_setup [.open])).2).1 = .info (.ok ⟨5, str "t", str "table"⟩) := by
  have hc := holds_after allows_open
  have hc' := (CatalogOp.step_spec (.create_table (long_column (str "t"))) hc
    allows_long_column).2
  refine ⟨?_, ?_, ?_⟩
  · have hmodel : ((CatalogModel.after small_setup [.open]).create_table small_setup
        (long_column (str "t"))).1 = .error .OutOfMemory := by decide +kernel
    exact (CatalogOp.create_reply hc allows_long_column).trans (congrArg CatalogReply.oid hmodel)
  · have hmodel : (CatalogModel.after small_setup [.open]).get_class (str "t") =
        .error .NotFound := by decide
    exact (CatalogOp.get_class_reply hc _).trans (congrArg CatalogReply.info hmodel)
  · have hmodel : ((CatalogModel.after small_setup [.open]).next small_setup
        (.create_table (long_column (str "t")))).get_class (str "t") =
        .ok ⟨5, str "t", str "table"⟩ := by decide +kernel
    exact (CatalogOp.get_class_reply hc' _).trans (congrArg CatalogReply.info hmodel)

/-! ## Two tables on one file -/

/-- The tuples of some records decode to the values of the records, in any order. -/
theorem RecordKind.decode_order {ρ : Type} (k : RecordKind ρ) {types : TypeRegistry}
    (ht : Registered types) {rs : List ρ} (hlen : ∀ r ∈ rs, (k.tuple types r).length < 2 ^ 32)
    {order : List Bytes} (horder : order.Perm (rs.map (k.tuple types))) :
    ∃ rows, order.mapM (k.table.codec types).decode = .ok rows ∧ rows.Perm (rs.map k.values) := by
  have hsame : List.Forall₂ (fun d r => d = k.tuple types r) (rs.map (k.tuple types)) rs := by
    rw [List.forall₂_map_left_iff]
    exact List.forall₂_same.mpr fun _ _ => rfl
  obtain ⟨rs', hrs, hp⟩ := List.perm_comp_forall₂ horder hsame
  refine ⟨rs'.map k.values, ?_, hp.map _⟩
  have hlen' : ∀ r ∈ rs', (k.tuple types r).length < 2 ^ 32 := fun r hr => hlen r (hp.subset hr)
  clear hp horder hsame
  induction hrs with
  | nil => rfl
  | @cons d r order rs' hd hrest ih =>
    have hdec := k.decode_tuple ht (hlen' r (by simp))
    rw [List.mapM_cons, hd, hdec, ih fun r' hr' => hlen' r' (by simp [hr'])]
    rfl

namespace CatalogModel

variable {c : Setup} {a : CatalogModel}

/-- The rows of a system table, as the catalog describes its relations in them. -/
def system_rows (a : CatalogModel) : SystemTable → List (List Value)
  | .type_table => type_records.map Catalog.type_values
  | .class_table => a.class_records.map Catalog.class_values
  | .attribute_table => a.attribute_records.map Catalog.attribute_values
  | .index_table => []

/-- Whatever the order of its tuples, a system table decodes to its rows. -/
theorem WellFormed.decode_content (hw : a.WellFormed c) (ho : a.opened = true) (t : SystemTable)
    {order : List Bytes} (horder : (order : Multiset Bytes) = a.content c.types t) :
    ∃ rows, order.mapM (t.codec c.types).decode = .ok rows ∧ rows.Perm (a.system_rows t) := by
  cases t with
  | type_table =>
    exact Catalog.type_kind.decode_order c.registered (fun t ht => short_type ht)
      (Multiset.coe_eq_coe.mp (horder.trans (content_type _ (hw.opened ho))))
  | class_table =>
    exact Catalog.class_kind.decode_order c.registered (fun k hk => hw.short_class hk)
      (Multiset.coe_eq_coe.mp (horder.trans (content_class _)))
  | attribute_table =>
    exact Catalog.attribute_kind.decode_order c.registered (fun x hx => hw.short_attribute hx)
      (Multiset.coe_eq_coe.mp (horder.trans (content_attribute _)))
  | index_table =>
    rw [(Multiset.coe_eq_zero _).mp horder]
    exact ⟨[], rfl, .refl _⟩

end CatalogModel

/-- The system table itself is scanned to its rows. -/
theorem Catalog.scan_system.spec {c : Setup} {a : CatalogModel} {s : CatalogState}
    (hc : HoldsCatalog c a s) (ho : a.opened = true) (t : SystemTable) :
    (Catalog.scan_system t).wp (fun rows _ => (rows.map TableRow.values).Perm (a.system_rows t))
      (fun _ _ => False) s := by
  have hr := hc.running ho
  obtain ⟨m, h, hs⟩ := hr.system t
  obtain ⟨rows', hdec, hperm⟩ := hc.well_formed.decode_content ho t hs.content
  rw [← CatalogOp.rows_of_eq] at hdec
  unfold Catalog.rows_of at hdec
  refine Catalog.wp_scan_system hr.types hs (hc.bound t) ?_ ?_
  · intro rows b io hrows _
    rw [hrows] at hdec
    cases hdec
    exact hperm
  · intro e b io hrows _
    rw [hrows] at hdec
    cases hdec

/-- A system table that was not written since the catalog was opened has the same
rows for the lookups of the catalog and for a client that opens it, and each
class that a lookup finds is one of the rows. -/
theorem system_tables_have_one_view (c : Setup) (ops : List CatalogOp)
    (hok : CatalogModel.AllowsRun c ops)
    (hopen : (CatalogOp.after c ops).catalog.opened = true) (t : SystemTable)
    (hunwritten : (CatalogModel.after c ops).written t = false) :
    ∃ rows s' view, (Catalog.scan_system t).run (CatalogOp.after c ops) = (.ok rows, s') ∧
      (CatalogOp.step (.scan t.name) (CatalogOp.after c ops)).1 = .rows (.ok view) ∧
      view.Perm (rows.map TableRow.values) ∧
      (t = .class_table → ∀ name k,
        (CatalogOp.step (.get_class name) (CatalogOp.after c ops)).1 = .info (.ok k) →
          Catalog.class_values k ∈ view) := by
  have hc := holds_after hok
  have hw := hc.well_formed
  have ho : (CatalogModel.after c ops).opened = true := hc.opened.symm.trans hopen
  generalize CatalogOp.after c ops = s at *
  generalize CatalogModel.after c ops = a at *
  obtain ⟨rows, s', hrun, hrows⟩ := exists_ok_of_wp (Catalog.scan_system.spec hc ho t)
  -- the client opens the system table under its name
  have hmem := hw.system (hw.opened ho) t
  have hcols : (Relation.system t).columns ≠ [] := by
    cases t <;> exact List.cons_ne_nil _ _
  have htable : a.open_table t.name = .ok (Relation.system t) := by
    have hfind : a.find t.name = some (Relation.system t) := hw.find_mem hmem
    simp [CatalogModel.open_table, ho, hfind, hcols]
  have hscan := (CatalogOp.step_spec (.scan t.name) hc (fun r hr => by
    cases htable.symm.trans hr
    exact hc.bound t)).1
  simp only [CatalogModel.Answers, htable] at hscan
  obtain ⟨reply, hreply, hall⟩ := hscan
  obtain ⟨order, hcontent, hdecoded⟩ := hall _ (Or.inr ⟨t, rfl, hunwritten, rfl⟩)
  obtain ⟨view, hview, hperm⟩ := hw.decode_content ho t hcontent
  have hcodec : Catalog.codec c (Relation.system t) = t.codec c.types := rfl
  rw [hdecoded, hcodec, hview] at hreply
  refine ⟨rows, s', view, hrun, hreply, hperm.trans hrows.symm, ?_⟩
  rintro rfl name k hk
  have hfound := hk.symm.trans (CatalogOp.get_class_reply hc name)
  simp only [CatalogReply.info.injEq, CatalogModel.get_class, ho, Bool.not_true,
    Bool.false_eq_true, if_false] at hfound
  rcases hfind : a.find name with _ | r
  · rw [hfind] at hfound
    cases hfound
  · rw [hfind] at hfound
    cases hfound
    refine hperm.symm.subset (List.mem_map_of_mem ?_)
    exact List.mem_map_of_mem (CatalogModel.mem_of_find hfind).1

theorem allows_second_open : CatalogModel.AllowsRun small_setup [.open, .close, .open] :=
  ⟨⟨rfl, fun t => by cases t <;> decide⟩, trivial, ⟨rfl, fun t => by cases t <;> decide⟩, trivial⟩

/-- The classes have one view after the second open of a catalog. -/
theorem classes_have_one_view :
    ∃ rows s' view, (Catalog.scan_system .class_table).run
        (CatalogOp.after small_setup [.open, .close, .open]) = (.ok rows, s') ∧
      (CatalogOp.step (.scan SystemTable.class_table.name)
        (CatalogOp.after small_setup [.open, .close, .open])).1 = .rows (.ok view) ∧
      view.Perm (rows.map TableRow.values) ∧
      (SystemTable.class_table = .class_table → ∀ name k,
        (CatalogOp.step (.get_class name)
          (CatalogOp.after small_setup [.open, .close, .open])).1 = .info (.ok k) →
          Catalog.class_values k ∈ view) :=
  have hopened : (CatalogModel.after small_setup [.open, .close, .open]).opened = true := by decide
  system_tables_have_one_view small_setup [.open, .close, .open] allows_second_open
    ((holds_after allows_second_open).opened.trans hopened) .class_table (by decide)

set_option maxRecDepth 100000 in
/-- After the first open, a client finds no row in the table of the classes, and
the catalog finds the class of that table. -/
theorem classes_are_not_in_the_file :
    (CatalogOp.step (.scan (str "edb_class")) (CatalogOp.after small_setup [.open])).1 =
        .rows (.ok []) ∧
      (CatalogOp.step (.get_class (str "edb_class")) (CatalogOp.after small_setup [.open])).1 =
        .info (.ok ⟨2, str "edb_class", str "system"⟩) := by
  decide +kernel

/-! ## Whole runs -/

/-- The replies are ones that the model allows, each in the state in which its
operation is made. -/
def CatalogModel.AllowsReplies (c : Setup) :
    CatalogModel → List CatalogOp → List CatalogReply → Prop
  | _, [], replies => replies = []
  | _, _ :: _, [] => False
  | a, op :: ops, reply :: replies =>
    a.Answers c op reply ∧ AllowsReplies c (a.next c op) ops replies

theorem HoldsCatalog.replies {c : Setup} (ops : List CatalogOp) :
    ∀ {a : CatalogModel} {s : CatalogState}, HoldsCatalog c a s →
      Run.Allowed (CatalogModel.Allows c) (CatalogModel.step c) ops a →
      CatalogModel.AllowsReplies c a ops (Run.exec CatalogOp.step ops s).1 := by
  induction ops with
  | nil =>
    intro a s _ _
    rfl
  | cons op rest ih =>
    intro a s hc hok
    obtain ⟨hanswer, hnext⟩ := op.step_spec hc hok.1
    exact ⟨hanswer, ih hnext hok.2⟩

/-- The catalog refines its model over whole runs. From empty files on, through
every open and close, it replies to its lookups, creations, drops, inserts and
scans as a map of names to relations with bags of rows does. -/
theorem catalog_refines_model (c : Setup) (ops : List CatalogOp)
    (hok : CatalogModel.AllowsRun c ops) :
    CatalogModel.AllowsReplies c {} ops (Run.exec CatalogOp.step ops (CatalogOp.start c)).1 :=
  (CatalogOp.holds_start c).replies ops hok

/-- The replies to a creation between two sessions are the ones of the model. -/
theorem first_table_replies :
    CatalogModel.AllowsReplies small_setup {}
      ([.open] ++ .create_table (one_column (str "t")) :: [.close, .open])
      (Run.exec CatalogOp.step
        ([.open] ++ .create_table (one_column (str "t")) :: [.close, .open])
        (CatalogOp.start small_setup)).1 :=
  catalog_refines_model small_setup _ allows_first_table

end edb
