import Pinnokio.Lib.PostOrder
import Pinnokio.Lib.Transaction
import Pinnokio.Tenancy.AccountContext

/-!
# The modules of a new company

When `ensure_account_context` has created a company it lets every registered module initialise its tables for it, in the
order of their dependencies and inside the same transaction.  The exceptions of an initialiser are caught, by the
module, by the registry or by the caller, so that the context is returned in any case; there are no savepoints.

* `resolveOrder` — the depth-first order of the registry; `visit_of_graph` — it is the search of a graph;
* `modules_in_order` — **every module is in the order once, after the modules it depends on**;
* `hrModuleInitializer` — the module that is registered from the start;
* `ensureInTransaction` — the call as a program inside its transaction;
* `committed_iff` — **the rows of a returned context exist afterwards** exactly when none of the statements that the
  initialisers issue fails.
-/

namespace Pinnokio.Tenancy

open Pinnokio.PostOrder Pinnokio.Runs Pinnokio.Text Pinnokio.Transaction

/-! ### The tables of the modules -/

/-- A row of `hr.payroll_items_catalog`; days are ordinals. -/
structure CatalogItem where
  id : ℕ
  countryCode : String
  clusterCode : Option String
  isActive : Bool
  isMandatory : Bool
  effectiveFrom : ℕ
  effectiveTo : Option ℕ

/-- The tables that initialisers write: the settings of the companies as JSON texts, their payroll items, and the
tables of other modules. -/
structure ModuleTables (X : Type) where
  settings : Dict (ℕ × String) String
  payrollItems : Dict (ℕ × ℕ) Bool
  catalog : List CatalogItem
  others : X

/-- `ModuleInitializer`. -/
structure ModuleInitializer (X : Type) where
  moduleName : String
  dependencies : List String
  isEnabledByDefault : Bool
  initializeForCompany : AccountContext → Program (ModuleTables X) String (Dict String ℕ)

/-- `ModuleRegistry`: the modules by their names. -/
structure ModuleRegistry (X : Type) where
  modules : Dict String (ModuleInitializer X)
  named : ∀ k m, modules.get? k = some m → m.moduleName = k

variable {X : Type}

namespace ModuleRegistry

/-- No module. -/
def empty : ModuleRegistry X := ⟨∅, nofun⟩

/-- `register`. -/
def register (r : ModuleRegistry X) (m : ModuleInitializer X) : ModuleRegistry X where
  modules := r.modules.set m.moduleName m
  named := by
    intro k m' h
    rw [Dict.get?_set] at h
    split at h
    · next hk =>
      cases h
      exact hk.symm
    · exact r.named k m' h

/-! ### The order of the modules -/

/-- `visit`, with the modules resolved so far and the names seen; `depth` bounds the nesting. -/
def visit (r : ModuleRegistry X) : ℕ → List (ModuleInitializer X) × List String → ModuleInitializer X →
    List (ModuleInitializer X) × List String
  | 0, acc, _ => acc
  | depth + 1, acc, m =>
      if m.moduleName ∈ acc.2 then acc
      else
        let inner := m.dependencies.foldl
          (fun acc name =>
            match r.modules.get? name with
            | none => acc
            | some dep => visit r depth acc dep)
          (acc.1, m.moduleName :: acc.2)
        (inner.1 ++ [m], inner.2)

/-- `_resolve_order`. -/
def resolveOrder (r : ModuleRegistry X) : List (ModuleInitializer X) :=
  ((r.modules.entries.map Prod.snd).foldl (r.visit (r.modules.keys.length + 1)) ([], [])).1

/-- The number of registered names that have not been seen. -/
def unseen (r : ModuleRegistry X) (seen : List String) : ℕ := (r.modules.keys.filter fun k => k ∉ seen).length

/-- The dependencies of a module, one after another. -/
def visitAll (r : ModuleRegistry X) (depth : ℕ) (acc : List (ModuleInitializer X) × List String)
    (names : List String) : List (ModuleInitializer X) × List String :=
  names.foldl
    (fun acc name =>
      match r.modules.get? name with
      | none => acc
      | some dep => r.visit depth acc dep) acc

theorem visit_succ (r : ModuleRegistry X) (depth : ℕ) (acc : List (ModuleInitializer X) × List String)
    (m : ModuleInitializer X) :
    r.visit (depth + 1) acc m =
      if m.moduleName ∈ acc.2 then acc
      else
        ((r.visitAll depth (acc.1, m.moduleName :: acc.2) m.dependencies).1 ++ [m],
          (r.visitAll depth (acc.1, m.moduleName :: acc.2) m.dependencies).2) :=
  rfl

theorem map_moduleName (r : ModuleRegistry X) :
    (r.modules.entries.map Prod.snd).map ModuleInitializer.moduleName = r.modules.keys := by
  rw [List.map_map]
  exact List.map_congr_left fun e he => r.named e.1 e.2 (Dict.mem_entries_iff.mp he)

/-- The modules as a graph: the registered dependencies of a module. -/
def graph (r : ModuleRegistry X) : KeyedGraph (ModuleInitializer X) String where
  nodes := r.modules.entries.map Prod.snd
  key := ModuleInitializer.moduleName
  next m := m.dependencies.filterMap r.modules.get?
  closed := by
    intro m _ dep hdep
    obtain ⟨name, -, hget⟩ := List.mem_filterMap.mp hdep
    exact List.mem_map_of_mem (Dict.mem_entries_iff.mpr hget)
  distinct := by
    rw [map_moduleName]
    exact r.modules.nodup

theorem length_nodes (r : ModuleRegistry X) : r.graph.nodes.length = r.modules.keys.length := by
  rw [graph, Dict.keys, List.length_map, List.length_map]

section Refinement

variable {r : ModuleRegistry X} {depth : ℕ} {s t : Search (ModuleInitializer X) String}

theorem visitAll_of_graph (hvisit : ∀ m s t, r.graph.visit depth s m = some t →
      r.visit depth (s.order, s.marked) m = (t.order, t.marked)) (names : List String)
    (h : r.graph.visitAll depth s (names.filterMap r.modules.get?) = some t) :
    r.visitAll depth (s.order, s.marked) names = (t.order, t.marked) := by
  induction names generalizing s with
  | nil =>
      cases h
      rfl
  | cons name names ih =>
      rw [visitAll, List.foldl_cons]
      cases hdep : r.modules.get? name with
      | none =>
          rw [List.filterMap_cons_none hdep] at h
          exact ih h
      | some dep =>
          rw [List.filterMap_cons_some hdep, KeyedGraph.visitAll_cons, Option.bind_eq_some_iff] at h
          obtain ⟨u, hu, hrest⟩ := h
          show r.visitAll depth (r.visit depth (s.order, s.marked) dep) names = _
          rw [hvisit dep s u hu]
          exact ih hrest

/-- **`visit` is the depth-first visit of the graph**, wherever that ends. -/
theorem visit_of_graph {m : ModuleInitializer X} (h : r.graph.visit depth s m = some t) :
    r.visit depth (s.order, s.marked) m = (t.order, t.marked) := by
  induction depth generalizing s m t with
  | zero => cases h
  | succ depth ih =>
      rw [visit_succ]
      rcases KeyedGraph.visit_cases h with ⟨hseen, rfl⟩ | ⟨hseen, u, hu, rfl⟩
      · exact if_pos hseen
      · have hnot : m.moduleName ∉ s.marked := hseen
        rw [if_neg hnot]
        have hinner : r.visitAll depth (s.order, m.moduleName :: s.marked) m.dependencies = (u.order, u.marked) :=
          visitAll_of_graph (fun _ _ _ => ih) m.dependencies hu
        rw [hinner]

theorem foldl_of_graph (modules : List (ModuleInitializer X)) (h : r.graph.visitAll depth s modules = some t) :
    modules.foldl (r.visit depth) (s.order, s.marked) = (t.order, t.marked) := by
  induction modules generalizing s with
  | nil =>
      cases h
      rfl
  | cons m modules ih =>
      rw [KeyedGraph.visitAll_cons, Option.bind_eq_some_iff] at h
      obtain ⟨u, hu, hrest⟩ := h
      rw [List.foldl_cons, visit_of_graph hu]
      exact ih hrest

/-- The order is that of the search, wherever that ends. -/
theorem order_of_search (h : r.graph.search depth = some t) :
    ((r.modules.entries.map Prod.snd).foldl (r.visit depth) ([], [])).1 = t.order := by
  have hend := foldl_of_graph (r.modules.entries.map Prod.snd) h
  rw [hend]

end Refinement

/-- **The depth suffices**: as soon as it exceeds the number of unseen names, the order does not depend on it. -/
theorem visit_stable (r : ModuleRegistry X) (depth : ℕ) (acc : List (ModuleInitializer X) × List String) {name : String}
    {m : ModuleInitializer X} (hm : r.modules.get? name = some m) (hdepth : r.unseen acc.2 < depth) :
    r.visit (depth + 1) acc m = r.visit depth acc m := by
  have hunmarked : r.graph.unmarked acc.2 = r.unseen acc.2 := by
    rw [unseen, ← map_moduleName]
    rfl
  have hnode : m ∈ r.graph.nodes := List.mem_map_of_mem (Dict.mem_entries_iff.mpr hm)
  obtain ⟨t, ht⟩ : ∃ t, r.graph.visit depth ⟨acc.1, acc.2⟩ m = some t :=
    KeyedGraph.visit_isSome hnode (lt_of_eq_of_lt hunmarked hdepth)
  exact (visit_of_graph (KeyedGraph.visit_mono ht)).trans (visit_of_graph ht).symm

/-- **No greater depth changes the order.** -/
theorem resolveOrder_eq_of_lt (r : ModuleRegistry X) {depth : ℕ} (hdepth : r.modules.keys.length < depth) :
    ((r.modules.entries.map Prod.snd).foldl (r.visit depth) ([], [])).1 = r.resolveOrder := by
  have hlength := r.length_nodes
  obtain ⟨t, ht⟩ : ∃ t, r.graph.search (r.modules.keys.length + 1) = some t := KeyedGraph.search_isSome (by omega)
  rw [resolveOrder, order_of_search ht, order_of_search (KeyedGraph.search_of_le hdepth ht)]

/-- `_resolve_order` with the calls of `visit` counted; `none` if they nest more than `depth` deep. -/
def resolveOrderWithin (r : ModuleRegistry X) (depth : ℕ) : Option (List (ModuleInitializer X)) :=
  (r.graph.search depth).map Search.order

/-- The second module is a registered dependency of the first. -/
def DependsOn (r : ModuleRegistry X) (m d : ModuleInitializer X) : Prop :=
  ∃ name ∈ m.dependencies, r.modules.get? name = some d

theorem edge_graph (r : ModuleRegistry X) : r.graph.Edge = r.DependsOn := by
  funext m d
  exact propext List.mem_filterMap

/-- The search from all modules ends as soon as the calls may nest deeper than there are modules. -/
theorem exists_search (r : ModuleRegistry X) {depth : ℕ} (hdepth : r.modules.keys.length < depth) :
    ∃ t, r.graph.search depth = some t ∧ t.order = r.resolveOrder := by
  obtain ⟨t, ht⟩ : ∃ t, r.graph.search depth = some t := KeyedGraph.search_isSome (lt_of_eq_of_lt r.length_nodes hdepth)
  exact ⟨t, ht, (order_of_search ht).symm.trans (r.resolveOrder_eq_of_lt hdepth)⟩

/-- **The order of the modules**: the search ends, every registered module is in its result once, and if no module
depends on itself, directly or through others, each one comes after its registered dependencies. -/
theorem modules_in_order (r : ModuleRegistry X) :
    (∀ depth, r.modules.keys.length < depth → r.resolveOrderWithin depth = some r.resolveOrder) ∧
      r.resolveOrder.Perm (r.modules.entries.map Prod.snd) ∧
      (r.resolveOrder.map ModuleInitializer.moduleName).Nodup ∧
      ((∀ m, ¬Relation.TransGen r.DependsOn m m) →
        ∀ before m after, r.resolveOrder = before ++ m :: after → ∀ d, r.DependsOn m d → d ∈ before) := by
  obtain ⟨t, ht, horder⟩ := r.exists_search (Nat.lt_succ_self _)
  have hperm : r.resolveOrder.Perm (r.modules.entries.map Prod.snd) := horder ▸ KeyedGraph.search_perm ht
  refine ⟨fun depth hdepth => ?_, hperm, ?_, fun hacyclic before m after hsplit d hd => ?_⟩
  · obtain ⟨u, hu, horder'⟩ := r.exists_search hdepth
    rw [resolveOrderWithin, hu, Option.map_some, horder']
  · rw [(hperm.map ModuleInitializer.moduleName).nodup_iff, map_moduleName]
    exact r.modules.nodup
  · have hedge : r.graph.Acyclic := by
      rw [KeyedGraph.Acyclic, edge_graph]
      exact hacyclic
    have hordered : r.graph.Ordered r.resolveOrder := horder ▸ KeyedGraph.search_ordered hedge ht
    exact hordered before m after hsplit d (List.mem_filterMap.mpr hd)

/-- No module depends on itself if the names have ranks that fall along the dependencies. -/
theorem not_dependsOn_self {r : ModuleRegistry X} (rank : String → ℕ)
    (h : ∀ k m, r.modules.get? k = some m → ∀ d, r.DependsOn m d → rank d.moduleName < rank m.moduleName)
    (m : ModuleInitializer X) : ¬Relation.TransGen r.DependsOn m m := by
  have hregistered : ∀ {a b}, Relation.TransGen r.DependsOn a b → ∃ k, r.modules.get? k = some b := by
    intro a b hab
    obtain ⟨c, -, name, -, hname⟩ := Relation.TransGen.tail'_iff.mp hab
    exact ⟨name, hname⟩
  have hfalls : ∀ {b}, Relation.TransGen r.DependsOn m b → (∃ k, r.modules.get? k = some m) →
      rank b.moduleName < rank m.moduleName := by
    intro b hb hm
    induction hb with
    | single hd =>
        obtain ⟨k, hk⟩ := hm
        exact h k m hk _ hd
    | tail hc hd ih =>
        obtain ⟨k, hk⟩ := hregistered hc
        exact Nat.lt_trans (h k _ hk _ hd) ih
  exact fun hm => Nat.lt_irrefl _ (hfalls hm (hregistered hm))

/-- A module that does nothing. -/
def stub (moduleName : String) (dependencies : List String) : ModuleInitializer Unit where
  moduleName := moduleName
  dependencies := dependencies
  isEnabledByDefault := true
  initializeForCompany _ := .done ∅

/-- Modules that are registered before those they depend on; one of them also names a module that is not there. -/
def backwards : ModuleRegistry Unit :=
  let late := (empty.register (stub "reporting" ["absent", "ledger"])).register (stub "ledger" ["chart"])
  late.register (stub "chart" [])

/-- Each of them is initialised after the module it depends on. -/
theorem backwards_in_order :
    backwards.resolveOrder.map ModuleInitializer.moduleName = ["chart", "ledger", "reporting"] ∧
    ∀ before m after, backwards.resolveOrder = before ++ m :: after → ∀ d, backwards.DependsOn m d → d ∈ before := by
  refine ⟨rfl, (modules_in_order backwards).2.2.2 (not_dependsOn_self String.length ?_)⟩
  have hentries : backwards.modules.entries = [("reporting", stub "reporting" ["absent", "ledger"]),
      ("ledger", stub "ledger" ["chart"]), ("chart", stub "chart" [])] := rfl
  intro k m hk d hd
  obtain ⟨name, hname, hget⟩ := hd
  rw [← Dict.mem_entries_iff, hentries] at hk hget
  simp only [List.mem_cons, List.not_mem_nil, or_false, Prod.mk.injEq] at hk hget
  rcases hk with ⟨-, rfl⟩ | ⟨-, rfl⟩ | ⟨-, rfl⟩ <;> rcases hget with ⟨rfl, rfl⟩ | ⟨rfl, rfl⟩ | ⟨rfl, rfl⟩ <;>
    simp [stub] at hname ⊢ <;> decide

/-- Two modules that depend on each other, and one of them on itself. -/
example : ((empty.register (stub "a" ["b"])).register (stub "b" ["a", "b"])).resolveOrder.map
    ModuleInitializer.moduleName = ["b", "a"] := rfl

end ModuleRegistry

/-! ### Initialisation -/

/-- The result of a module: what it created, or the error. -/
abbrev ModuleResult := Except String (Dict String ℕ)

/-- `_mark_initialized`. -/
def markInitialized (companyId : ℕ) (moduleName now : String) : Program (ModuleTables X) String Unit :=
  .statement
    (fun t =>
      ({ t with
          settings := t.settings.set (companyId, moduleName ++ ".initialized")
            ("\x7b\"initialized\": true, \"timestamp\": \"" ++ now ++ "\"\x7d") }, ()))
    (fun _ => .done ()) (.raise "company_settings")

/-- The body of the loop of `on_company_created`. -/
def initializeModule (context : AccountContext) (now : String) (m : ModuleInitializer X) :
    Program (ModuleTables X) String ModuleResult :=
  .recover (fun e => .done (.error e))
    ((m.initializeForCompany context).bind fun result =>
      (markInitialized context.companyId m.moduleName now).bind fun _ => .done (.ok result))

/-- The loop of `on_company_created`. -/
def initializeAll (context : AccountContext) (now : String) :
    List (ModuleInitializer X) → Dict String ModuleResult → Program (ModuleTables X) String (Dict String ModuleResult)
  | [], results => .done results
  | m :: ms, results =>
      if m.isEnabledByDefault then
        (initializeModule context now m).bind fun result =>
          initializeAll context now ms (results.set m.moduleName result)
      else initializeAll context now ms results

/-- `on_company_created`. -/
def onCompanyCreated (r : ModuleRegistry X) (context : AccountContext) (now : String) :
    Program (ModuleTables X) String (Dict String ModuleResult) :=
  initializeAll context now r.resolveOrder ∅

/-- `_initialize_modules_for_company`. -/
def initializeModulesForCompany (r : ModuleRegistry X) (context : AccountContext) (now : String) :
    Program (ModuleTables X) String (Dict String ModuleResult) :=
  .recover (fun e => .done (Dict.ofList [("error", .error e)])) (onCompanyCreated r context now)

/-! ### The HR module -/

/-- `default_settings`, with the JSON texts of their values. -/
def hrDefaultSettings (context : AccountContext) : List (String × String) :=
  let swiss := decide (orElse context.countryCode "CH" = "CH")
  [("hr.enabled", "true"),
    ("hr.cluster_code",
      match context.clusterCode with
      | none => "null"
      | some code => "\"" ++ code ++ "\""),
    ("hr.default_weekly_hours", if swiss then "42.0" else "35.0"),
    ("hr.default_annual_leave", if swiss then "25" else "30"),
    ("hr.thirteenth_month", if swiss then "true" else "false")]

/-- The settings that are not there yet, one statement each. -/
def writeSettings (companyId : ℕ) : List (String × String) → Program (ModuleTables X) String Unit
  | [] => .done ()
  | s :: ss =>
      .statement
        (fun t => ({ t with settings := t.settings.upsert (companyId, s.1) s.2 fun v => v }, ()))
        (fun _ => writeSettings companyId ss) (.raise "company_settings")

/-- The items of the catalogue that apply to a company. -/
def applicableItems (catalog : List CatalogItem) (countryCode clusterCode : String) (today : ℕ) : List CatalogItem :=
  catalog.filter fun i =>
    i.countryCode = countryCode && i.isActive && (i.clusterCode.isNone || i.clusterCode = some clusterCode) &&
      i.effectiveFrom ≤ today && (i.effectiveTo.all fun day => today ≤ day)

/-- The statement that copies them; it returns the number of new ones. -/
def copyPayrollItems (companyId : ℕ) (countryCode clusterCode : String) (today : ℕ) (t : ModuleTables X) :
    ModuleTables X × ℕ :=
  let items := (applicableItems t.catalog countryCode clusterCode today).filter fun i =>
    (companyId, i.id) ∉ t.payrollItems.keys
  ({ t with payrollItems := items.foldl (fun d i => d.set (companyId, i.id) i.isMandatory) t.payrollItems },
    items.length)

/-- `HRModuleInitializer`. -/
def hrModuleInitializer (today : ℕ) : ModuleInitializer X where
  moduleName := "hr"
  dependencies := []
  isEnabledByDefault := true
  initializeForCompany context :=
    (writeSettings context.companyId (hrDefaultSettings context)).bind fun _ =>
      match context.clusterCode with
      | none => .done (Dict.ofList [("settings_created", (hrDefaultSettings context).length)])
      | some clusterCode =>
          let results (n : ℕ) : Program (ModuleTables X) String (Dict String ℕ) :=
            .done (Dict.ofList
              [("settings_created", (hrDefaultSettings context).length), ("payroll_items_created", n)])
          .statement (copyPayrollItems context.companyId (orElse context.countryCode "CH") clusterCode today)
            results (results 0)

/-! ### The transaction -/

/- The value that `account_access.is_active` gets when an insert does not name it. -/
variable (activeByDefault : Bool)

/-- The body of `ensure_account_context` after its fourth statement. -/
def finishContext (r : ModuleRegistry X) (now : String) (context : AccountContext) (isNew : Bool) :
    Program (Database × ModuleTables X) String AccountContext :=
  if isNew then ((initializeModulesForCompany r context now).onSnd).bind fun _ => .done context
  else .done context

/-- The body of `ensure_account_context` inside its transaction. -/
def ensureProgram (r : ModuleRegistry X) (now : String) (q : ContextRequest) :
    Program (Database × ModuleTables X) String AccountContext :=
  .statement (fun d => (({ d.1 with users := (upsertUser q d.1.drawn d.1.users).1 }, d.2),
      (upsertUser q d.1.drawn d.1.users).2))
    (fun user =>
      .statement (fun d => (({ d.1 with accounts := (upsertAccount q (d.1.drawn + 1) d.1.accounts).1 }, d.2),
          ((upsertAccount q (d.1.drawn + 1) d.1.accounts).2, (d.1.accounts.get? q.firebaseUid).isNone)))
        (fun account =>
          .statement (fun d =>
              (({ d.1 with access := (upsertAccess activeByDefault user.id account.1.id account.2 d.1.access).1 }, d.2),
                (upsertAccess activeByDefault user.id account.1.id account.2 d.1.access).2))
            (fun granted =>
              .statement (fun d =>
                  (({ d.1 with
                      companies := (upsertCompany q (d.1.drawn + 2) account.1.id d.1.companies).1
                      drawn := d.1.drawn + 3 }, d.2),
                    ((upsertCompany q (d.1.drawn + 2) account.1.id d.1.companies).2, isNewCompany d.1 q)))
                (fun company =>
                  finishContext r now
                    { userId := user.id
                      accountId := account.1.id
                      companyId := company.1.id
                      firebaseUid := q.firebaseUid
                      mandatePath := q.mandatePath
                      accessType := granted.accessType
                      profile := granted.userProfile
                      countryCode := orElse company.1.countryCode q.code
                      email := user.email
                      displayName := user.displayName
                      clusterCode := q.cluster } company.2)
                (.raise "companies"))
            (.raise "account_access"))
        (.raise "accounts"))
    (.raise "users")

/-- The transaction block: an exception rolls back, and so does the commit of an aborted transaction.  The ids that were
drawn stay drawn. -/
def ensureInTransaction (r : ModuleRegistry X) (now : String) (fails : ℕ → Bool) (d : Database × ModuleTables X)
    (q : ContextRequest) : (Database × ModuleTables X) × Except String AccountContext :=
  let (c, result) := (ensureProgram activeByDefault r now q).run fails ⟨d, false, 0⟩
  let rolledBack := ({ d.1 with drawn := c.data.1.drawn }, d.2)
  match result with
  | .error e => (rolledBack, .error e)
  | .ok context => (if c.aborted then rolledBack else c.data, .ok context)

section

variable {r : ModuleRegistry X} {now : String} {fails : ℕ → Bool}

/-- The modules do not keep the context from being returned, and do not touch the four tables. -/
theorem run_finishContext (context : AccountContext) (isNew : Bool) (c : Conn (Database × ModuleTables X)) :
    ∃ c', (finishContext r now context isNew).run fails c = (c', .ok context) ∧ c'.data.1 = c.data.1 := by
  cases isNew with
  | false => exact ⟨c, rfl, rfl⟩
  | true =>
      obtain ⟨results, hok⟩ : ∃ a, ((initializeModulesForCompany r context now).onSnd.run fails c).2 = .ok a := by
        rw [Program.run_onSnd_snd]
        exact Program.run_recover_ok _ _ _
      have hfst : ((initializeModulesForCompany r context now).onSnd.run fails c).1.data.1 = c.data.1 :=
        Program.run_onSnd_fst _ c
      rw [finishContext, if_pos rfl, Program.run_bind]
      generalize (initializeModulesForCompany r context now).onSnd.run fails c = out at hok hfst
      obtain ⟨c', result⟩ := out
      cases hok
      exact ⟨c', rfl, hfst⟩

/-- **What the program comes to**: one of the four statements fails and nothing is returned, or they leave the four
tables and the context of `ensureAccountContext`. -/
theorem run_ensureProgram_cases (activeByDefault : Bool) (r : ModuleRegistry X) (now : String) (fails : ℕ → Bool)
    (d : Database × ModuleTables X) (q : ContextRequest) :
    (∃ e c, (ensureProgram activeByDefault r now q).run fails ⟨d, false, 0⟩ = (c, .error e) ∧
        c.data.1.drawn = d.1.drawn) ∨
      ∃ c, (ensureProgram activeByDefault r now q).run fails ⟨d, false, 0⟩ =
          (c, .ok (ensureAccountContext activeByDefault d.1 q).2) ∧
        c.data.1 = (ensureAccountContext activeByDefault d.1 q).1 := by
  unfold ensureProgram
  simp only [Program.run, Bool.false_or]
  split
  · exact Or.inl ⟨_, _, rfl, rfl⟩
  · split
    · exact Or.inl ⟨_, _, rfl, rfl⟩
    · split
      · exact Or.inl ⟨_, _, rfl, rfl⟩
      · split
        · exact Or.inl ⟨_, _, rfl, rfl⟩
        · exact Or.inr (run_finishContext (ensureAccountContext activeByDefault d.1 q).2 (isNewCompany d.1 q)
            ⟨((ensureAccountContext activeByDefault d.1 q).1, d.2), false, 4⟩)

end

/-- The rows that a context names exist. -/
def Committed (db : Database) (context : AccountContext) : Prop :=
  (∃ k u, db.users.get? k = some u ∧ u.id = context.userId) ∧
    (∃ k a, db.accounts.get? k = some a ∧ a.id = context.accountId) ∧
    (∃ aa, db.access.get? (context.userId, context.accountId) = some aa) ∧
    ∃ k c, db.companies.get? k = some c ∧ c.id = context.companyId

/-- The rows that `ensureAccountContext` returns are stored. -/
theorem committed_ensureAccountContext (db : Database) (q : ContextRequest) :
    Committed (ensureAccountContext activeByDefault db q).1 (ensureAccountContext activeByDefault db q).2 :=
  ⟨⟨q.firebaseUid, _, get?_upsertUser q db.drawn db.users, rfl⟩,
    ⟨q.firebaseUid, _, get?_upsertAccount q (db.drawn + 1) db.accounts, rfl⟩,
    ⟨_, get?_upsertAccess activeByDefault _ _ _ db.access⟩,
    ⟨q.mandatePath, _, get?_upsertCompany q (db.drawn + 2) _ db.companies, rfl⟩⟩

/-- A new company has an id that was not drawn before. -/
theorem companyId_of_isNew {db : Database} {q : ContextRequest} (h : isNewCompany db q = true) :
    (ensureAccountContext activeByDefault db q).2.companyId = db.drawn + 2 := by
  have hnone : db.companies.get? q.mandatePath = none := Option.isNone_iff_eq_none.mp h
  simp only [ensureAccountContext, upsertCompany, Dict.upserted_of_none hnone]

/-- The number of statements that the call issues when none fails. -/
def statements (r : ModuleRegistry X) (now : String) (d : Database × ModuleTables X) (q : ContextRequest) : ℕ :=
  ((ensureProgram activeByDefault r now q).run clean ⟨d, false, 0⟩).1.issued

/-- A call and the statements that fail in it. -/
structure ContextCall where
  request : ContextRequest
  fails : ℕ → Bool

/-- The tables after a call. -/
def afterCall (r : ModuleRegistry X) (now : String) (d : Database × ModuleTables X) (call : ContextCall) :
    Database × ModuleTables X :=
  (ensureInTransaction activeByDefault r now call.fails d call.request).1

section

variable {activeByDefault} {r : ModuleRegistry X} {now : String} {d : Database × ModuleTables X}

/-- The ids of the companies stay distinct and drawn. -/
theorem companyIds_afterCall (call : ContextCall) (h : d.1.companies.IdsBelow Company.id d.1.drawn) :
    (afterCall activeByDefault r now d call).1.companies.IdsBelow Company.id
      (afterCall activeByDefault r now d call).1.drawn := by
  have hafter : (ensureAccountContext activeByDefault d.1 call.request).1.companies.IdsBelow Company.id
      (d.1.drawn + 3) := companyIds_upsertCompany _ h (Nat.le_add_right _ 2)
  unfold afterCall ensureInTransaction
  rcases run_ensureProgram_cases activeByDefault r now call.fails d call.request with
    ⟨e, c, hrun, hdrawn⟩ | ⟨c, hrun, hdata⟩
  · rw [hrun]
    exact h.mono (Nat.le_of_eq hdrawn.symm)
  · rw [hrun]
    dsimp only
    split
    · refine h.mono ?_
      rw [hdata]
      exact Nat.le_add_right _ 3
    · rw [hdata]
      exact hafter

theorem companyIds_run (t : ModuleTables X) (calls : List ContextCall) :
    (run (afterCall activeByDefault r now) (.empty, t) calls).1.companies.IdsBelow Company.id
      (run (afterCall activeByDefault r now) (.empty, t) calls).1.drawn := by
  induction calls using List.reverseRecOn with
  | nil => exact .empty _ _
  | append_singleton calls call ih =>
      rw [run_concat]
      exact companyIds_afterCall call ih

end

/-- **A returned context is committed** exactly when none of the statements that the call issues without failures
fails. -/
theorem committed_iff (r : ModuleRegistry X) (now : String) (t : ModuleTables X) (calls : List ContextCall)
    (call : ContextCall) (d d' : Database × ModuleTables X) (context : AccountContext)
    (hreach : run (afterCall activeByDefault r now) (.empty, t) calls = d)
    (hnew : isNewCompany d.1 call.request = true)
    (hret : ensureInTransaction activeByDefault r now call.fails d call.request = (d', .ok context)) :
    Committed d'.1 context ↔ ∀ k < statements activeByDefault r now d call.request, call.fails k = false := by
  have hids : d.1.companies.IdsBelow Company.id d.1.drawn := hreach ▸ companyIds_run t calls
  have hclean : ((ensureProgram activeByDefault r now call.request).run call.fails ⟨d, false, 0⟩).1.aborted = false ↔
      ∀ k, 0 ≤ k → k < statements activeByDefault r now d call.request → call.fails k = false :=
    Program.aborted_eq_false_iff _ rfl
  unfold ensureInTransaction at hret
  rcases run_ensureProgram_cases activeByDefault r now call.fails d call.request with
    ⟨e, c, hrun, -⟩ | ⟨c, hrun, hdata⟩
  · rw [hrun] at hret
    cases hret
  · rw [hrun] at hret hclean
    dsimp only at hret hclean
    have hcond : c.aborted = false ↔
        ∀ k < statements activeByDefault r now d call.request, call.fails k = false := by
      rw [hclean]
      exact ⟨fun h k hk => h k (Nat.zero_le k) hk, fun h k _ hk => h k hk⟩
    rw [← hcond]
    split at hret
    · next haborted =>
      cases hret
      refine iff_of_false ?_ (by rw [haborted]; exact Bool.noConfusion)
      intro h
      obtain ⟨-, -, -, k, company, hk, hid⟩ := h
      have hlt := hids.below k company hk
      rw [companyId_of_isNew activeByDefault hnew] at hid
      omega
    · next haborted =>
      cases hret
      refine iff_of_true ?_ (Bool.not_eq_true _ ▸ haborted)
      rw [hdata]
      exact committed_ensureAccountContext activeByDefault d.1 call.request

/-- The registry as it is from the start. -/
def builtIn : ModuleRegistry Unit := ModuleRegistry.empty.register (hrModuleInitializer 0)

/-- No settings yet. -/
def noTables : ModuleTables Unit := ⟨∅, ∅, [], ()⟩

/-- A call for a company in which the first setting of the HR module fails. -/
def failedCall : ContextCall := ⟨companyRequest "a", fun k => k == 4⟩

/-- The next call for it, in which none of its ten statements fails. -/
def nextCall : ContextCall := ⟨companyRequest "a", fun k => k == 10⟩

/-- After a call that was rolled back the company is new once more, and the next call is committed. -/
theorem committed_after_failed_call :
    ∃ d' context, ensureInTransaction true builtIn "" nextCall.fails
        (run (afterCall true builtIn "") (.empty, noTables) [failedCall]) nextCall.request = (d', .ok context) ∧
      Committed d'.1 context :=
  ⟨_, _, rfl, (committed_iff true builtIn "" noTables [failedCall] nextCall _ _ _ rfl rfl rfl).mpr
    (by decide +kernel)⟩

/-- The first setting of the HR module fails: the context is returned, but the company does not exist. -/
theorem not_committed_after_failure : ¬∀ (r : ModuleRegistry Unit) (fails : ℕ → Bool) (q : ContextRequest)
    (d' : Database × ModuleTables Unit) (context : AccountContext),
    ensureInTransaction true r "" fails (.empty, noTables) q = (d', .ok context) → Committed d'.1 context := by
  intro h
  obtain ⟨-, -, -, k, c, hk, -⟩ := h builtIn (fun k => k == 4) (companyRequest "a") _ _ rfl
  cases hk

end Pinnokio.Tenancy
