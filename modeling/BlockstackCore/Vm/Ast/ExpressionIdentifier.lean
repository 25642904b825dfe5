import BlockstackCore.Vm.Ast.Expressions
import BlockstackCore.Library.ByteCodec

/-!
# Numbering the nodes of an AST

`update_expression_id` (`vm/ast/expression_identifier`) gives the nodes of a
forest the ids 1, 2, 3, ... in pre-order. `inner_relabel(args, index)` starts
at `index + 1`, gives each expression the current id, then moves past the
expression: past its children if it is a list, else by one. Ids are `u64`, so
every step is a `checked_add` that fails with `TooManyExpressions`.

The relabelling reaches the children of lists only (`match_list_mut`). For a
`SymbolicExpression` that is every node; a `PreSymbolicExpression` tuple
literal `{ .. }` is not a list, so its children keep the ids they had.
`innerRelabel_eq_ok` says exactly what the relabelling does: the nodes it
reaches get consecutive ids in pre-order, and it fails exactly when the last
id would pass `u64::MAX`.
-/

namespace BlockstackCore

namespace Ast

open ByteCodec SymbolicExpressionCommon

section Relabel

variable {T : Type} [SizeOf T] [SymbolicExpressionCommon T]

/-- `index.checked_add(1)` on `u64`, or `TooManyExpressions`. -/
def nextId (index : Nat) : Except ParseErrors Nat :=
  match checkedAdd 64 index 1 with
  | some next => .ok next
  | none => .error .tooManyExpressions

mutual

/-- `inner_relabel`: the relabelled expressions and the next free id. -/
def innerRelabel (args : List T) (index : Nat) : Except ParseErrors (List T × Nat) := do
  let current ← nextId index
  relabelFrom args current
termination_by (sizeOf args, 1)

/-- The loop of `inner_relabel` over the expressions, from the id `current`. -/
def relabelFrom : List T → Nat → Except ParseErrors (List T × Nat)
  | [], current => .ok ([], current)
  | expression :: rest, current => do
    let (expression, current) ← relabelExpr expression current
    let (rest, current) ← relabelFrom rest current
    .ok (expression :: rest, current)
termination_by args => (sizeOf args, 0)

/-- One step of the loop: `set_id(current)`, then past the children of a
list, or past the expression itself. The children are read before the id is
set, which `set_id` does not change. -/
def relabelExpr (expression : T) (current : Nat) : Except ParseErrors (T × Nat) :=
  match _ : matchListMut expression with
  | some exprs =>
    (innerRelabel exprs current).map fun (exprs, next) =>
      (withList (setId expression current) exprs, next)
  | none => (nextId current).map fun next => (setId expression current, next)
termination_by (sizeOf expression, 2)
decreasing_by exact Prod.Lex.left _ _ (sizeOf_lt _ _ ‹_›)

end

/-- `update_expression_id`: the forest relabelled from id 1. -/
def updateExpressionId (exprs : List T) : Except ParseErrors (List T) :=
  (innerRelabel exprs 0).map Prod.fst

mutual

/-- The ids of the nodes the relabelling reaches, in pre-order. -/
def reachedIds : List T → List Nat
  | [] => []
  | expression :: rest => exprReachedIds expression ++ reachedIds rest
termination_by args => (sizeOf args, 0)

def exprReachedIds (expression : T) : List Nat :=
  id expression :: match _ : matchListMut expression with
    | some exprs => reachedIds exprs
    | none => []
termination_by (sizeOf expression, 1)
decreasing_by exact Prod.Lex.left _ _ (sizeOf_lt _ _ ‹_›)

end

theorem nextId_of_lt {index : Nat} (h : index + 1 < 2 ^ 64) : nextId index = .ok (index + 1) := by
  simp [nextId, checkedAdd_of_lt h]

theorem nextId_of_le {index : Nat} (h : 2 ^ 64 ≤ index + 1) : nextId index = .error .tooManyExpressions := by
  simp only [nextId, checkedAdd]
  rw [if_neg (by omega)]

@[simp] theorem reachedIds_nil : reachedIds ([] : List T) = [] := by
  rw [reachedIds]

@[simp] theorem reachedIds_cons (e : T) (rest : List T) :
    reachedIds (e :: rest) = exprReachedIds e ++ reachedIds rest := by
  rw [reachedIds]

theorem exprReachedIds_of_list {e : T} {cs : List T} (h : matchListMut e = some cs) :
    exprReachedIds e = SymbolicExpressionCommon.id e :: reachedIds cs := by
  rw [exprReachedIds]
  split <;> simp_all

theorem exprReachedIds_of_none {e : T} (h : matchListMut e = none) : exprReachedIds e = [SymbolicExpressionCommon.id e] := by
  rw [exprReachedIds]
  split <;> simp_all

theorem relabelFrom_cons (e : T) (rest : List T) (current : Nat) :
    relabelFrom (e :: rest) current = (do
      let (e, current) ← relabelExpr e current
      let (rest, current) ← relabelFrom rest current
      .ok (e :: rest, current)) := by
  rw [relabelFrom]

theorem relabelExpr_of_list {e : T} {cs : List T} (h : matchListMut e = some cs) (current : Nat) :
    relabelExpr e current = (innerRelabel cs current).map fun (cs, next) =>
      (withList (setId e current) cs, next) := by
  rw [relabelExpr]
  split <;> simp_all

theorem relabelExpr_of_none {e : T} (h : matchListMut e = none) (current : Nat) :
    relabelExpr e current = (nextId current).map fun next => (setId e current, next) := by
  rw [relabelExpr]
  split <;> simp_all

/-- What the loop does from `current` over expressions whose reached nodes
number `n`: consecutive ids from `current`, or an overflow once the ids pass
`u64::MAX`. -/
def RelabelsFrom (relabel : Nat → Except ParseErrors (α × Nat)) (ids : α → List Nat) (n : Nat) : Prop :=
  (∀ current, current + n < 2 ^ 64 →
    ∃ a, relabel current = .ok (a, current + n) ∧ ids a = List.range' current n) ∧
  (∀ current, current < 2 ^ 64 → 2 ^ 64 ≤ current + n → relabel current = .error .tooManyExpressions)

/-- The loop over `e :: rest` is the step over `e`, then the loop over
`rest` from where the step ended. -/
theorem relabelFrom_cons_relabels {e : T} {rest : List T}
    (he : RelabelsFrom (relabelExpr e) exprReachedIds (exprReachedIds e).length)
    (hrest : RelabelsFrom (relabelFrom rest) reachedIds (reachedIds rest).length) :
    RelabelsFrom (relabelFrom (e :: rest)) reachedIds (reachedIds (e :: rest)).length := by
  obtain ⟨heok, heerr⟩ := he
  obtain ⟨hrok, hrerr⟩ := hrest
  rw [reachedIds_cons, List.length_append]
  refine ⟨fun current hc => ?_, fun current hlt hc => ?_⟩
  · obtain ⟨e', he', heids⟩ := heok current (by omega)
    obtain ⟨rest', hrest', hrids⟩ := hrok (current + (exprReachedIds e).length) (by omega)
    refine ⟨e' :: rest', ?_, ?_⟩
    · rw [relabelFrom_cons]
      simp only [bind, Except.bind, he', hrest', Nat.add_assoc]
    · rw [reachedIds_cons, heids, hrids, List.range'_append_1]
  · rw [relabelFrom_cons]
    by_cases hfit : current + (exprReachedIds e).length < 2 ^ 64
    · obtain ⟨e', he', -⟩ := heok current hfit
      simp only [bind, Except.bind, he', hrerr _ hfit (by omega)]
    · simp only [bind, Except.bind, heerr current hlt (by omega)]

/-- What the relabelling leaves alone. A `view` of an expression that setting
the id of a node without children keeps, and that a list reads off its
children, is the same after the relabelling as before: the relabelling only
writes ids, and descends into lists only. The induction is the one of
`relabelFrom_relabels`, on the size of the expressions. -/
theorem relabelFrom_keeps_view {β : Type} (view : T → List β)
    (hleaf : ∀ e n, matchListMut e = none → view (setId e n) = view e)
    (hlist : ∀ e cs n cs', matchListMut e = some cs →
      view e = cs.flatMap view ∧ view (withList (setId e n) cs') = cs'.flatMap view) :
    ∀ n, (∀ e : T, sizeOf e < n → ∀ c e' c', relabelExpr e c = .ok (e', c') → view e' = view e) ∧
      (∀ args : List T, sizeOf args < n → ∀ c args' c', relabelFrom args c = .ok (args', c') →
        args'.flatMap view = args.flatMap view)
  | 0 => ⟨fun _ h => absurd h (Nat.not_lt_zero _), fun _ h => absurd h (Nat.not_lt_zero _)⟩
  | n + 1 => by
    obtain ⟨ihe, ihargs⟩ := relabelFrom_keeps_view view hleaf hlist n
    have hexpr : ∀ e : T, sizeOf e < n + 1 → ∀ c e' c', relabelExpr e c = .ok (e', c') →
        view e' = view e := by
      intro e he c e' c' h
      cases hm : matchListMut e with
      | none =>
        rw [relabelExpr_of_none hm] at h
        obtain ⟨next, -, hnext⟩ := Except.map_eq_ok.mp h
        cases hnext
        exact hleaf e c hm
      -- a list: its children are relabelled from the id after its own
      | some cs =>
        rw [relabelExpr_of_list hm] at h
        obtain ⟨⟨cs', next⟩, hin, hcs⟩ := Except.map_eq_ok.mp h
        obtain ⟨rfl, rfl⟩ := Prod.mk.inj hcs
        rw [innerRelabel] at hin
        obtain ⟨current, -, hcs'⟩ := Except.bind_eq_ok'.mp hin
        have hsize : sizeOf cs < n := by
          have := sizeOf_lt e cs hm
          omega
        obtain ⟨hview, hview'⟩ := hlist e cs c cs' hm
        rw [hview', hview, ihargs cs hsize current cs' next hcs']
    refine ⟨hexpr, fun args hargs c args' c' h => ?_⟩
    cases args with
    | nil =>
      simp only [relabelFrom, Except.ok.injEq, Prod.mk.injEq] at h
      rw [← h.1]
    | cons e rest =>
      simp only [List.cons.sizeOf_spec] at hargs
      rw [relabelFrom_cons] at h
      obtain ⟨⟨e', mid⟩, he', h⟩ := Except.bind_eq_ok'.mp h
      obtain ⟨⟨rest', c''⟩, hrest', h⟩ := Except.bind_eq_ok'.mp h
      cases h
      rw [List.flatMap_cons, List.flatMap_cons, ihe e (by omega) c e' mid he',
        ihargs rest (by omega) mid rest' c' hrest']

/-- `update_expression_id` keeps such a view of a forest. -/
theorem updateExpressionId_keeps_view {β : Type} (view : T → List β)
    (hleaf : ∀ e n, matchListMut e = none → view (setId e n) = view e)
    (hlist : ∀ e cs n cs', matchListMut e = some cs →
      view e = cs.flatMap view ∧ view (withList (setId e n) cs') = cs'.flatMap view)
    {exprs exprs' : List T} (h : updateExpressionId exprs = .ok exprs') :
    exprs'.flatMap view = exprs.flatMap view := by
  obtain ⟨⟨relabelled, next⟩, hrun, rfl⟩ := Except.map_eq_ok.mp h
  rw [innerRelabel] at hrun
  obtain ⟨current, -, hrun⟩ := Except.bind_eq_ok'.mp hrun
  exact (relabelFrom_keeps_view view hleaf hlist (sizeOf exprs + 1)).2 exprs (Nat.lt_succ_self _)
    current relabelled next hrun

section Spec

variable [LawfulSymbolicExpressionCommon T]

open LawfulSymbolicExpressionCommon

/-- An expression, relabelled from `current`, takes the ids from `current`
on. The leaf case steps by one; the list case is the loop over the children
from `current + 1`. -/
theorem relabelExpr_relabels (e : T)
    (hcs : ∀ cs, matchListMut e = some cs →
      RelabelsFrom (relabelFrom cs) reachedIds (reachedIds cs).length) :
    RelabelsFrom (relabelExpr e) exprReachedIds (exprReachedIds e).length := by
  cases hm : matchListMut e with
  | none =>
    rw [exprReachedIds_of_none hm, List.length_singleton]
    refine ⟨fun current hc => ⟨setId e current, ?_, ?_⟩, fun current _ hc => ?_⟩
    · rw [relabelExpr_of_none hm, nextId_of_lt hc]
      rfl
    · rw [exprReachedIds_of_none (by rw [matchListMut_setId, hm]), id_setId]
      rfl
    · rw [relabelExpr_of_none hm, nextId_of_le hc]
      rfl
  | some cs =>
    obtain ⟨hok, herr⟩ := hcs cs hm
    rw [exprReachedIds_of_list hm, List.length_cons]
    refine ⟨fun current hc => ?_, fun current _ hc => ?_⟩
    · obtain ⟨cs', hcs', hids⟩ := hok (current + 1) (by omega)
      refine ⟨withList (setId e current) cs', ?_, ?_⟩
      · rw [relabelExpr_of_list hm, innerRelabel, nextId_of_lt (by omega)]
        simp only [bind, Except.bind, hcs', Except.map]
        congr 2
        omega
      · have hm' : matchListMut (withList (setId e current) cs') = some cs' :=
          matchListMut_withList _ cs _ (by rw [matchListMut_setId, hm])
        rw [exprReachedIds_of_list hm', id_withList, id_setId, hids, List.range'_succ]
    · rw [relabelExpr_of_list hm, innerRelabel]
      -- either the list's own step overflows, or the loop over its children does
      by_cases hfit : current + 1 < 2 ^ 64
      · rw [nextId_of_lt hfit]
        simp only [bind, Except.bind, herr (current + 1) hfit (by omega), Except.map]
      · rw [nextId_of_le (by omega)]
        rfl

/-- The relabelling of every forest, by induction on the size of the
expressions: the reached nodes get consecutive ids. -/
theorem relabelFrom_relabels : ∀ n, (∀ e : T, sizeOf e < n →
      RelabelsFrom (relabelExpr e) exprReachedIds (exprReachedIds e).length) ∧
    (∀ args : List T, sizeOf args < n →
      RelabelsFrom (relabelFrom args) reachedIds (reachedIds args).length)
  | 0 => ⟨fun _ h => absurd h (Nat.not_lt_zero _), fun _ h => absurd h (Nat.not_lt_zero _)⟩
  | n + 1 => by
    obtain ⟨ihe, ihargs⟩ := relabelFrom_relabels n
    have hexpr : ∀ e : T, sizeOf e < n + 1 →
        RelabelsFrom (relabelExpr e) exprReachedIds (exprReachedIds e).length := fun e he =>
      relabelExpr_relabels e fun cs hcs => ihargs cs (by have := sizeOf_lt e cs hcs; omega)
    refine ⟨hexpr, fun args hargs => ?_⟩
    cases args with
    | nil =>
      refine ⟨fun current _ => ⟨[], by simp [relabelFrom], by simp⟩, fun current h1 h2 => ?_⟩
      simp at h2
      omega
    | cons e rest =>
      simp only [List.cons.sizeOf_spec] at hargs
      exact relabelFrom_cons_relabels (ihe e (by omega)) (ihargs rest (by omega))

/-- `update_expression_id` numbers the nodes it reaches 1, 2, 3, ... in
pre-order, and fails with `TooManyExpressions` exactly when the id after the
last one passes `u64::MAX`. -/
theorem updateExpressionId_spec (exprs : List T) :
    ((reachedIds exprs).length + 1 < 2 ^ 64 →
      ∃ exprs', updateExpressionId exprs = .ok exprs' ∧
        reachedIds exprs' = List.range' 1 (reachedIds exprs).length) ∧
    (2 ^ 64 ≤ (reachedIds exprs).length + 1 → updateExpressionId exprs = .error .tooManyExpressions) := by
  obtain ⟨hok, herr⟩ := (relabelFrom_relabels (sizeOf exprs + 1)).2 exprs (Nat.lt_succ_self _)
  refine ⟨fun h => ?_, fun h => ?_⟩
  · obtain ⟨exprs', hexprs', hids⟩ := hok 1 (by omega)
    refine ⟨exprs', ?_, hids⟩
    simp only [updateExpressionId, innerRelabel, nextId_of_lt (show 0 + 1 < 2 ^ 64 by decide),
      bind, Except.bind, hexprs', Except.map]
  · simp only [updateExpressionId, innerRelabel, nextId_of_lt (show 0 + 1 < 2 ^ 64 by decide),
      bind, Except.bind, herr 1 (by decide) (by omega), Except.map]

/-- On `Ok`, the reached nodes are numbered `1, 2, ..., n` in pre-order, and
`n + 1` fits in a `u64`. -/
theorem updateExpressionId_eq_ok {exprs exprs' : List T} (h : updateExpressionId exprs = .ok exprs') :
    reachedIds exprs' = List.range' 1 (reachedIds exprs).length ∧
      (reachedIds exprs).length + 1 < 2 ^ 64 := by
  obtain ⟨hok, herr⟩ := updateExpressionId_spec exprs
  by_cases hfit : (reachedIds exprs).length + 1 < 2 ^ 64
  · obtain ⟨exprs'', hexprs'', hids⟩ := hok hfit
    rw [hexprs'', Except.ok.injEq] at h
    exact ⟨h ▸ hids, hfit⟩
  · rw [herr (by omega)] at h
    cases h

/-- The only error is `TooManyExpressions`, and it comes exactly when `n + 1`
does not fit in a `u64`. -/
theorem updateExpressionId_eq_error {exprs : List T} {e : ParseErrors}
    (h : updateExpressionId exprs = .error e) :
    e = .tooManyExpressions ∧ 2 ^ 64 ≤ (reachedIds exprs).length + 1 := by
  obtain ⟨hok, herr⟩ := updateExpressionId_spec exprs
  by_cases hfit : (reachedIds exprs).length + 1 < 2 ^ 64
  · obtain ⟨exprs', hexprs', -⟩ := hok hfit
    rw [hexprs'] at h
    cases h
  · rw [herr (by omega), Except.error.injEq] at h
    exact ⟨h.symm, by omega⟩

end Spec

end Relabel

namespace SymbolicExpression

mutual

/-- The ids of all nodes of an expression, in pre-order. -/
def nodeIds : SymbolicExpression → List Nat
  | list xs id => id :: forestIds xs
  | e => [e.id]

def forestIds : List SymbolicExpression → List Nat
  | [] => []
  | e :: es => nodeIds e ++ forestIds es

end

mutual

/-- A `SymbolicExpression` has no node that `match_list_mut` does not reach:
the relabelling reaches every node. -/
theorem exprReachedIds_eq_nodeIds : ∀ e : SymbolicExpression, exprReachedIds e = nodeIds e
  | list xs id => by
    rw [exprReachedIds_of_list (show matchListMut (list xs id) = some xs from rfl),
      reachedIds_eq_forestIds xs]
    rfl
  | atomValue .. | atom .. | literalValue .. | field .. | traitReference .. => by
    rw [exprReachedIds_of_none rfl]
    rfl

theorem reachedIds_eq_forestIds : ∀ xs : List SymbolicExpression, reachedIds xs = forestIds xs
  | [] => by simp [forestIds]
  | e :: es => by
    rw [reachedIds_cons, exprReachedIds_eq_nodeIds e, reachedIds_eq_forestIds es, forestIds]

end

end SymbolicExpression

namespace PreSymbolicExpression

mutual

/-- The ids of all nodes of a pre-expression, the children of tuple literals
included, in pre-order. -/
def nodeIds : PreSymbolicExpression → List Nat
  | list xs id | tuple xs id => id :: forestIds xs
  | e => [e.id]

def forestIds : List PreSymbolicExpression → List Nat
  | [] => []
  | e :: es => nodeIds e ++ forestIds es

end

mutual

/-- The children of the tuple literals of an expression, each literal's list
whole, in pre-order. Nothing inside a tuple literal is reached by the
relabelling. -/
def tupleBodies : PreSymbolicExpression → List (List PreSymbolicExpression)
  | list xs _ => forestTupleBodies xs
  | tuple xs _ => [xs]
  | _ => []

def forestTupleBodies : List PreSymbolicExpression → List (List PreSymbolicExpression)
  | [] => []
  | e :: es => tupleBodies e ++ forestTupleBodies es

end

theorem forestTupleBodies_eq_flatMap :
    ∀ xs : List PreSymbolicExpression, forestTupleBodies xs = xs.flatMap tupleBodies
  | [] => rfl
  | e :: es => by rw [forestTupleBodies, forestTupleBodies_eq_flatMap es, List.flatMap_cons]

/-- The tuple literals' children are a view the relabelling keeps: setting an
id changes no child, and a list's tuple literals are its children's. -/
theorem updateExpressionId_keeps_tupleBodies {exprs exprs' : List PreSymbolicExpression}
    (h : updateExpressionId exprs = .ok exprs') : forestTupleBodies exprs' = forestTupleBodies exprs := by
  rw [forestTupleBodies_eq_flatMap, forestTupleBodies_eq_flatMap]
  refine updateExpressionId_keeps_view tupleBodies (fun e n hm => ?_) (fun e cs n cs' hm => ?_) h
  · cases e <;> rfl
  · cases e
    case list =>
      cases hm
      exact ⟨forestTupleBodies_eq_flatMap _, forestTupleBodies_eq_flatMap cs'⟩
    all_goals cases hm

end PreSymbolicExpression

/-- `update_expression_id` on both kinds of expression. On a
`SymbolicExpression` forest every node, at every depth, is numbered: the ids
in pre-order are `1, 2, ..., n`. On a `PreSymbolicExpression` forest that holds
of the nodes outside tuple literals, the ones `match_list_mut` reaches, and
the children of every tuple literal keep the ids they had: the literals'
children, in pre-order, are the same expressions as before. The only error is
`TooManyExpressions`, exactly when `n + 1` passes `u64::MAX`. -/
theorem updateExpressionId_numbers_nodes :
    (∀ (exprs exprs' : List SymbolicExpression), updateExpressionId exprs = .ok exprs' →
      SymbolicExpression.forestIds exprs' = List.range' 1 (SymbolicExpression.forestIds exprs).length ∧
        (SymbolicExpression.forestIds exprs).length + 1 < 2 ^ 64) ∧
    (∀ (exprs : List SymbolicExpression) e, updateExpressionId exprs = .error e →
      e = .tooManyExpressions ∧ 2 ^ 64 ≤ (SymbolicExpression.forestIds exprs).length + 1) ∧
    (∀ (exprs exprs' : List PreSymbolicExpression), updateExpressionId exprs = .ok exprs' →
      reachedIds exprs' = List.range' 1 (reachedIds exprs).length ∧ (reachedIds exprs).length + 1 < 2 ^ 64) ∧
    (∀ (exprs : List PreSymbolicExpression) e, updateExpressionId exprs = .error e →
      e = .tooManyExpressions ∧ 2 ^ 64 ≤ (reachedIds exprs).length + 1) ∧
    (∀ (exprs exprs' : List PreSymbolicExpression), updateExpressionId exprs = .ok exprs' →
      PreSymbolicExpression.forestTupleBodies exprs' = PreSymbolicExpression.forestTupleBodies exprs) := by
  refine ⟨fun exprs exprs' h => ?_, fun exprs e h => ?_, fun _ _ => updateExpressionId_eq_ok,
    fun _ _ => updateExpressionId_eq_error,
    fun _ _ => PreSymbolicExpression.updateExpressionId_keeps_tupleBodies⟩
  · simpa only [SymbolicExpression.reachedIds_eq_forestIds] using updateExpressionId_eq_ok h
  · simpa only [SymbolicExpression.reachedIds_eq_forestIds] using updateExpressionId_eq_error h

/-- The tuple literal `{a: 1}` as the parser builds it: every node at id 0. -/
def tupleLiteral : PreSymbolicExpression :=
  .tuple [.atom ⟨[97], by decide⟩ 0, .atomValue (.int 1) 0] 0

/-- The children of a tuple literal are not numbered: after
`update_expression_id`, `{a: 1}` has the ids 1, 0, 0 in pre-order. -/
theorem updateExpressionId_tuple_children_unnumbered :
    ∃ exprs', updateExpressionId [tupleLiteral] = .ok exprs' ∧
      PreSymbolicExpression.forestIds exprs' = [1, 0, 0] := by
  refine ⟨[tupleLiteral.setId 1], ?_, rfl⟩
  simp only [updateExpressionId, innerRelabel, nextId_of_lt (show 0 + 1 < 2 ^ 64 by decide),
    relabelFrom_cons, relabelExpr_of_none (show matchListMut tupleLiteral = none from rfl),
    relabelFrom]
  rfl

end Ast

end BlockstackCore
