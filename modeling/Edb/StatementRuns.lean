-- Runs of statements. A statement reaches the catalog through a bind, through
-- the creation of a table, through inserts of literals that were bound, and
-- through scans, so an invariant of those calls is one of every run.
import Edb.BinderLaws
import Edb.ExecLaws
import Edb.Run

namespace edb

open Call

/-- The calls of a statement on the catalog keep the invariant. -/
structure Catalog.KeptByStatements (types : TypeRegistry) (I : CatalogState → Prop) : Prop where
  lookups : KeptByLookups I
  create_table : ∀ spec, (Catalog.create_table spec).Keeps I
  insert : ∀ oid values, (∀ v ∈ values, v.Made types) → (Catalog.insert oid values).Keeps I
  scan : ∀ oid, (Catalog.scan oid).Keeps I

namespace QueryEngine

variable {types : TypeRegistry} {I : CatalogState → Prop}

/-- The catalog of the engine meets the invariant. -/
def Holds (I : CatalogState → Prop) (q : QueryEngine) : Prop := I q.catalog

theorem wp_query_err {α : Type} {Q : α → QueryEngine → Prop} {q : QueryEngine} (msg : Bytes)
    (e : Error) (hq : q.Holds I) :
    (query_err msg e : Call Error QueryEngine α).wp Q (fun _ => Holds I) q := by
  unfold query_err
  rw [wp_bind, wp_modify]
  exact (wp_fail _).mpr hq

theorem query_err_keeps {α : Type} (msg : Bytes) (e : Error) :
    (query_err msg e : Call Error QueryEngine α).Keeps (Holds I) :=
  fun _ hq => wp_query_err msg e hq

/-- A statement that can be executed inserts nothing but literals that were bound. -/
def Bound (types : TypeRegistry) : BoundStmt → Prop
  | .insert stmt => MadeRows types stmt.rows
  | _ => True

theorem bind_made (stmt : Stmt) (b : Binder) :
    (Binder.bind types stmt).wp (fun bound _ => Bound types bound) (fun _ _ => True) b := by
  cases stmt with
  | create_table stmt =>
    unfold Binder.bind
    rw [wp_bind]
    exact wp_mono (wp_trivial _ b) (fun _ _ _ => (wp_pure _).mpr trivial) fun _ _ h => h
  | insert stmt =>
    unfold Binder.bind
    rw [wp_bind]
    exact wp_mono (Binder.bind_insert_made stmt) (fun _ _ h => (wp_pure _).mpr h) fun _ _ h => h
  | select stmt =>
    unfold Binder.bind
    rw [wp_bind]
    exact wp_mono (wp_trivial _ b) (fun _ _ _ => (wp_pure _).mpr trivial) fun _ _ h => h

/-- What binding does to the catalog is what the binder does. -/
theorem wp_bind_stmt {stmt : Stmt} {q : QueryEngine} {Q : BoundStmt → CatalogState → Prop}
    {E : CatalogState → Prop} (h : (Binder.bind types stmt).wp (fun bound b => Q bound b.catalog)
      (fun _ b => E b.catalog) { catalog := q.catalog }) :
    (QueryEngine.bind types stmt).wp (fun bound q' => Q bound q'.catalog) (fun _ q' => E q'.catalog)
      q := by
  unfold QueryEngine.bind
  rw [wp_bind, wp_zoom, wp_bind, wp_attempt]
  refine wp_mono h (fun bound b hb => ?_) fun e b hb => ?_
  · rw [wp_bind, wp_get, wp_pure]
    exact (wp_pure _).mpr hb
  · rw [wp_bind, wp_get, wp_pure]
    exact wp_query_err _ _ hb

theorem bind_keeps (hI : Catalog.KeptByLookups I) (stmt : Stmt) {q : QueryEngine}
    (hq : q.Holds I) :
    (QueryEngine.bind types stmt).wp (fun bound q' => Bound types bound ∧ q'.Holds I)
      (fun _ q' => q'.Holds I) q :=
  wp_bind_stmt (Q := fun bound s => Bound types bound ∧ I s) (E := I) (wp_mono
    (wp_and (bind_made stmt _) (Binder.bind_keeps hI stmt _ hq)) (fun _ _ h => h) fun _ _ h => h.2)

/-- A bound statement opens the node that it becomes and gives what is collected
from it. -/
theorem wp_execute_bound {bound : BoundStmt} {node : ExecNode} (hlower : lower bound = .ok node)
    {q : QueryEngine} {Q : List ExecRow → CatalogState → Prop} {E : CatalogState → Prop}
    (h : (ExecNode.open node).wp
      (fun opened s => (∀ rows, collect types node opened = .ok rows → Q rows s) ∧
        ∀ e, collect types node opened = .error e → E s) (fun _ s => E s) q.catalog) :
    (execute_bound types bound).wp (fun rows q' => Q rows q'.catalog) (fun _ q' => E q'.catalog)
      q := by
  unfold execute_bound on_catalog
  rw [hlower]
  dsimp only
  rw [wp_bind, wp_attempt, wp_zoom]
  refine wp_mono h (fun opened s hs => ?_) fun e s hs => wp_query_err _ _ hs
  dsimp only
  split
  · rename_i e he
    exact wp_query_err _ _ (hs.2 e he)
  · rename_i rows hrows
    exact (wp_pure _).mpr (hs.1 rows hrows)

section

variable (hI : Catalog.KeptByStatements types I)

include hI

theorem open_keeps {bound : BoundStmt} {node : ExecNode} (hbound : Bound types bound)
    (hlower : lower bound = .ok node) : (ExecNode.open node).Keeps I := by
  cases bound with
  | create_table stmt =>
    cases hlower
    refine (hI.create_table _).attempt.bind fun r => ?_
    cases r with
    | error e =>
      dsimp only
      split
      · exact keeps_pure _
      · exact keeps_fail _
    | ok oid => exact keeps_pure _
  | insert stmt =>
    cases hlower
    refine (hI.lookups.open_table _).bind fun oid => Keeps.bind ?_ fun _ => keeps_pure _
    have hrows : ∀ rows, MadeRows types rows → (each (fun row : List BoundLiteral => do
        let _ ← Catalog.insert oid (row.map BoundLiteral.value)
        pure ()) rows).Keeps I := by
      intro rows
      induction rows with
      | nil => exact fun _ => keeps_pure _
      | cons row rest ih =>
        intro hmade
        obtain ⟨hrow, hrest⟩ := List.forall_mem_cons.mp hmade
        refine Keeps.bind ((hI.insert oid _ ?_).bind fun _ => keeps_pure _) fun _ => ih hrest
        exact List.forall_mem_map.mpr hrow
    exact hrows stmt.rows hbound
  | select stmt =>
    rw [lower_select] at hlower
    cases hlower
    rw [open_select_node]
    exact (hI.lookups.open_table _).bind fun _ => (hI.scan _).bind fun _ => keeps_pure _

theorem execute_bound_keeps {bound : BoundStmt} (hbound : Bound types bound) :
    (execute_bound types bound).Keeps (Holds I) := by
  have hlower : ∃ node, lower bound = .ok node := by
    cases bound with
    | select stmt => exact ⟨_, lower_select stmt⟩
    | _ => exact ⟨_, rfl⟩
  obtain ⟨node, hlower⟩ := hlower
  exact fun q hq => wp_execute_bound (Q := fun _ => I) (E := I) hlower (wp_mono
    (open_keeps hI hbound hlower _ hq) (fun _ _ h => ⟨fun _ _ => h, fun _ _ => h⟩) fun _ _ h => h)

/-- One statement, whether it succeeds or fails. -/
theorem execute_keeps (sql : Bytes) : (execute types sql).Keeps (Holds I) := by
  unfold execute
  split
  · exact query_err_keeps _ _
  · intro q hq
    rw [wp_bind]
    exact wp_mono (bind_keeps hI.lookups _ hq) (fun bound q' h => execute_bound_keeps hI h.1 q' h.2)
      fun _ _ h => h
  · exact query_err_keeps _ _

end

/-- The engine after some statements, whatever became of each of them. -/
def after (types : TypeRegistry) (statements : List Bytes) (q : QueryEngine) : QueryEngine :=
  (Run.exec (fun sql => (execute types sql).run) statements q).2

theorem after_keeps (hI : Catalog.KeptByStatements types I) (statements : List Bytes)
    {q : QueryEngine} (hq : q.Holds I) : (after types statements q).Holds I :=
  Run.keeps_of_forall (P := fun _ => True) (Holds I)
    (fun sql _ h _ => (execute_keeps hI sql).after h) statements q hq fun _ _ => trivial

/-- An engine over a catalog that was opened on empty files. -/
def fresh (types : TypeRegistry) (config : EngineConfig) : QueryEngine where
  catalog := (Catalog.open.run { catalog := { types, config } }).2

end QueryEngine

end edb
