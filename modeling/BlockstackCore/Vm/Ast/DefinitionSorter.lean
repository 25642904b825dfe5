import BlockstackCore.Vm.Ast.Expressions
import BlockstackCore.Library.ByteCodec
import BlockstackCore.Library.Digraph

/-!
# The definition sorter

`DefinitionSorter` (`vm/ast/definition_sorter/mod.rs`) orders the top-level
expressions of a contract so that each comes after the definitions it uses.
It builds a graph with one node per expression and an edge from an
expression to the definition of each name it mentions
(`probe_for_dependencies`), sorts the nodes by a depth-first post-order
(`get_sorted_dependencies`), and looks for cycles in a separate pass
(`get_cycling_dependencies`) that taints a node once each of its successors
is a leaf or tainted.

The name map of `run` is a `HashMap`, modelled as an association list whose
first entry for a name is the live one. Its expression indices are `Fin n`
for the `n` expressions of the contract, so every edge the probe adds ends
at a node. The depth-first search carries a fuel bound that one more than
the number of nodes always meets. The charge of `AST_CYCLE_DETECTION` to the
cost tracker is a parameter, `runtimeCost`.
-/

namespace BlockstackCore

namespace Ast

open ByteCodec

inductive DefineFunctions where
  | constant
  | privateFunction
  | publicFunction
  | readOnlyFunction
  | map
  | persistedVariable
  | fungibleToken
  | nonFungibleToken
  | trait
  | useTrait
  | implTrait
  deriving DecidableEq, Repr

namespace DefineFunctions

def ALL : List DefineFunctions :=
  [constant, privateFunction, publicFunction, readOnlyFunction, map, persistedVariable, fungibleToken,
    nonFungibleToken, trait, useTrait, implTrait]

def getName : DefineFunctions → String
  | constant => "define-constant"
  | privateFunction => "define-private"
  | publicFunction => "define-public"
  | readOnlyFunction => "define-read-only"
  | map => "define-map"
  | persistedVariable => "define-data-var"
  | fungibleToken => "define-fungible-token"
  | nonFungibleToken => "define-non-fungible-token"
  | trait => "define-trait"
  | useTrait => "use-trait"
  | implTrait => "impl-trait"

def lookupByName (name : List UInt8) : Option DefineFunctions :=
  ALL.find? fun f => ascii f.getName == name

end DefineFunctions

/-- The natives that `probe_for_dependencies` treats apart. Every other name,
native or not, it treats alike, so the other natives are left out. -/
inductive NativeFunctions where
  | fetchEntry
  | deleteEntry
  | setEntry
  | insertEntry
  | contractCall
  | «let»
  | len
  | tupleGet
  | tupleCons
  deriving DecidableEq, Repr

namespace NativeFunctions

def ALL : List NativeFunctions :=
  [fetchEntry, deleteEntry, setEntry, insertEntry, contractCall, «let», len, tupleGet, tupleCons]

def getName : NativeFunctions → String
  | fetchEntry => "map-get?"
  | deleteEntry => "map-delete"
  | setEntry => "map-set"
  | insertEntry => "map-insert"
  | contractCall => "contract-call?"
  | «let» => "let"
  | len => "len"
  | tupleGet => "get"
  | tupleCons => "tuple"

def lookupByName (name : List UInt8) : Option NativeFunctions :=
  ALL.find? fun f => ascii f.getName == name

end NativeFunctions

namespace PreSymbolicExpression

def matchAtom : PreSymbolicExpression → Option ClarityName
  | atom name _ => some name
  | _ => none

end PreSymbolicExpression

open PreSymbolicExpression

/-- `find_expression_definition`: the name a `define-*` form defines, the id
of its atom, and the atom. -/
def findExpressionDefinition (exp : PreSymbolicExpression) :
    Option (ClarityName × Nat × PreSymbolicExpression) := do
  let exp ← exp.matchListMut
  let (functionName, args) ← match exp with
    | functionName :: args => some (functionName, args)
    | [] => none
  let functionName ← functionName.matchAtom
  let _ ← DefineFunctions.lookupByName functionName.bytes
  let arg0 ← args.head?
  let definedName ← match arg0.matchListMut with
    | some signature => signature.head?
    | none => some arg0
  let tleName ← definedName.matchAtom
  pure (tleName, definedName.id, definedName)

/-- `TopLevelExpressionIndex` of a contract of `n` expressions. -/
structure TopLevelExpressionIndex (n : Nat) where
  exprIndex : Fin n
  atomIndex : Nat

/-- The first loop of `run`: each expression that defines a name maps the
name to itself and to the id of the name's atom. A later definition of a
name takes the place of an earlier one. -/
def topLevelExpressionsMap (exprs : List PreSymbolicExpression) :
    List (ClarityName × TopLevelExpressionIndex exprs.length) :=
  (List.finRange exprs.length).foldl (fun topLevel exprIndex =>
    match findExpressionDefinition (exprs.get exprIndex) with
    | some (definitionName, atomIndex, _) => (definitionName, ⟨exprIndex, atomIndex⟩) :: topLevel
    | none => topLevel) []

section Probe

variable {n : Nat}

/-- The edge a name adds: to the expression that defines it, unless the name
is that definition's own atom. -/
def probeName (topLevel : List (ClarityName × TopLevelExpressionIndex n)) (name : ClarityName) (exprId : Nat) :
    List (Fin n) :=
  match topLevel.find? (·.1 == name) with
  | some (_, dep) => if dep.atomIndex ≠ exprId then [dep.exprIndex] else []
  | none => []

mutual

/-- `probe_for_dependencies`: the ends of the edges it adds, in order. Every
arm of it returns `Ok(())`. -/
def probeForDependencies (topLevel : List (ClarityName × TopLevelExpressionIndex n)) : PreSymbolicExpression → List (Fin n)
  | atom name exprId => probeName topLevel name exprId
  | traitReference name exprId => probeName topLevel name exprId
  | list exprs _ => probeList topLevel exprs
  | tuple exprs _ => probeInTupleList topLevel exprs
  | atomValue .. | fieldIdentifier .. | sugaredContractIdentifier .. | sugaredFieldIdentifier .. => []

/-- The `List` arm of `probe_for_dependencies`, by the name at its head:
the arguments of the special forms that hold no names are passed over. -/
def probeList (topLevel : List (ClarityName × TopLevelExpressionIndex n)) : List PreSymbolicExpression → List (Fin n)
  | [] => []
  | functionName :: functionArgs =>
    match functionName.matchAtom with
    | none => probeForDependencies topLevel functionName ++ probeEach topLevel functionArgs
    | some name =>
      match DefineFunctions.lookupByName name.bytes with
      | some .persistedVariable | some .constant =>
        match functionArgs with
        | _ :: rest@(_ :: _) => probeEach topLevel rest
        | _ => []
      | some .publicFunction | some .privateFunction | some .readOnlyFunction =>
        match functionArgs with
        | [signature, body] => probeInDefineArgs topLevel signature ++ probeForDependencies topLevel body
        | _ => []
      | some .map =>
        match functionArgs with
        | [_, keyTuple, valueTuple] => probeInTuple topLevel keyTuple ++ probeInTuple topLevel valueTuple
        | _ => []
      | some .trait =>
        match functionArgs with
        | [_, list traitSig _] => probeTraitSignatures topLevel traitSig
        | _ => []
      | some .implTrait | some .useTrait | some .nonFungibleToken | some .fungibleToken => []
      | none =>
        match NativeFunctions.lookupByName name.bytes with
        | some .fetchEntry | some .deleteEntry =>
          match functionArgs with
          | [mapName, predicate] => probeForDependencies topLevel mapName ++ probeInTuple topLevel predicate
          | _ => []
        | some .setEntry | some .insertEntry =>
          match functionArgs with
          | [mapName, keys, values] =>
            probeForDependencies topLevel mapName ++ probeInTuple topLevel keys ++ probeInTuple topLevel values
          | _ => []
        | some .contractCall =>
          match functionArgs with
          | _ :: _ :: rest@(_ :: _) => probeEach topLevel rest
          | _ => []
        | some .«let» =>
          match functionArgs with
          | bindings :: rest@(_ :: _) => probeInTuple topLevel bindings ++ probeEach topLevel rest
          | _ => []
        | some .len =>
          match functionArgs with
          | [arg] => probeForDependencies topLevel arg
          | _ => []
        | some .tupleGet =>
          match functionArgs with
          | [_, tupleExpr] => probeForDependencies topLevel tupleExpr
          | _ => []
        | some .tupleCons => probeInTupleList topLevel functionArgs
        | none => probeForDependencies topLevel functionName ++ probeEach topLevel functionArgs

/-- `for expr in exprs { probe_for_dependencies(expr) }`. -/
def probeEach (topLevel : List (ClarityName × TopLevelExpressionIndex n)) : List PreSymbolicExpression → List (Fin n)
  | [] => []
  | expr :: rest => probeForDependencies topLevel expr ++ probeEach topLevel rest

/-- `probe_for_dependencies_in_tuple`: the values of the two-element lists
of a list. -/
def probeInTuple (topLevel : List (ClarityName × TopLevelExpressionIndex n)) : PreSymbolicExpression → List (Fin n)
  | list pairs _ => probePairs topLevel pairs
  | _ => []

/-- The second elements of the two-element lists among `pairs`. -/
def probePairs (topLevel : List (ClarityName × TopLevelExpressionIndex n)) : List PreSymbolicExpression → List (Fin n)
  | [] => []
  | list [_, value] _ :: rest => probeForDependencies topLevel value ++ probePairs topLevel rest
  | _ :: rest => probePairs topLevel rest

def probeInTupleList (topLevel : List (ClarityName × TopLevelExpressionIndex n)) : List PreSymbolicExpression → List (Fin n)
  | [] => []
  | tupleExpr :: rest => probeInTuple topLevel tupleExpr ++ probeInTupleList topLevel rest

/-- `probe_for_dependencies_in_define_args`: the types of the arguments of
`(name (arg type) ..)`. -/
def probeInDefineArgs (topLevel : List (ClarityName × TopLevelExpressionIndex n)) : PreSymbolicExpression → List (Fin n)
  | list (_ :: args) _ => probePairs topLevel args
  | _ => []

/-- The argument and result types of the three-element signatures of a
`define-trait`. -/
def probeTraitSignatures (topLevel : List (ClarityName × TopLevelExpressionIndex n)) : List PreSymbolicExpression → List (Fin n)
  | [] => []
  | list [_, params, ret] _ :: rest =>
    probeForDependencies topLevel params ++ probeForDependencies topLevel ret ++ probeTraitSignatures topLevel rest
  | _ :: rest => probeTraitSignatures topLevel rest

end

end Probe

/-- `Graph`: the adjacency lists, one per node. -/
structure Graph where
  adjacencyList : List (List Nat)

namespace Graph

def nodesCount (graph : Graph) : Nat := graph.adjacencyList.length

/-- `adjacency_list[expr_index]`; the code takes it at nodes only. -/
def getNodeDescendants (graph : Graph) (exprIndex : Nat) : List Nat := graph.adjacencyList.getD exprIndex []

def hasNodeDescendants (graph : Graph) (exprIndex : Nat) : Bool :=
  0 < (graph.adjacencyList.getD exprIndex []).length

/-- `edges_count`: the number of edges, as a checked `u64` sum. -/
def edgesCount (graph : Graph) : Except ParseErrors Nat :=
  graph.adjacencyList.foldlM (fun total node =>
    match checkedAdd 64 total node.length with
    | some total => .ok total
    | none => .error .costOverflow) 0

/-- The edge relation: `v` is in the adjacency list of `u`. -/
def Edge (graph : Graph) (u v : Nat) : Prop := v ∈ graph.adjacencyList.getD u []

end Graph

/-- The graph of `run` after its two loops: a node per expression, then the
edges that `probe_for_dependencies` adds from each. -/
def dependencyGraph (exprs : List PreSymbolicExpression) : Graph :=
  ⟨exprs.map fun expr => (probeForDependencies (topLevelExpressionsMap exprs) expr).map Fin.val⟩

/-- `sort_dependencies_recursion` on the walker's `seen` set and the sorted
prefix `branch`; `fuel` bounds the depth of the recursion. -/
def sortDependenciesRecursion (graph : Graph) : Nat → Nat → Finset Nat × List Nat → Finset Nat × List Nat
  | 0, _, walk => walk
  | fuel + 1, tleIndex, (seen, branch) =>
    if tleIndex ∈ seen then (seen, branch)
    else
      let walk := (graph.adjacencyList.getD tleIndex []).foldl
        (fun walk neighbor => sortDependenciesRecursion graph fuel neighbor walk) (insert tleIndex seen, branch)
      (walk.1, walk.2 ++ [tleIndex])

/-- `get_sorted_dependencies`: a post-order from each node in turn. It always
returns `Ok`. -/
def getSortedDependencies (graph : Graph) : List Nat :=
  ((List.range graph.nodesCount).foldl
    (fun walk exprIndex => sortDependenciesRecursion graph (graph.nodesCount + 1) exprIndex walk) (∅, [])).2

/-- One descendant in `get_cycling_dependencies`: a leaf or a tainted node is
tainted and counted. -/
def taintDescendant (graph : Graph) (acc : Finset Nat × Nat) (descendant : Nat) : Finset Nat × Nat :=
  if !graph.hasNodeDescendants descendant || descendant ∈ acc.1 then (insert descendant acc.1, acc.2 + 1)
  else acc

/-- One node of `get_cycling_dependencies`: it is tainted when all its
descendants were counted. -/
def taintNode (graph : Graph) (tainted : Finset Nat) (node : Nat) : Finset Nat :=
  let descendants := graph.getNodeDescendants node
  let acc := descendants.foldl (taintDescendant graph) (tainted, 0)
  if acc.2 = descendants.length then insert node acc.1 else acc.1

/-- `get_cycling_dependencies`: the untainted nodes, if any. `HashSet`
difference has no order; the model lists them in sorted order. -/
def getCyclingDependencies (graph : Graph) (sortedIndexes : List Nat) : Option (List Nat) :=
  let tainted := sortedIndexes.foldl (taintNode graph) ∅
  if tainted.card = sortedIndexes.length then none
  else some (sortedIndexes.filter fun i => i ∉ tainted)

/-- `DefinitionSorter::run`: the order of the top-level expressions, or
`CircularReference` with the names defined by the expressions on or above a
cycle. -/
def run (runtimeCost : Nat → Except ParseErrors Unit) (preExpressions : List PreSymbolicExpression) :
    Except ParseErrors (List Nat) := do
  let graph := dependencyGraph preExpressions
  let edges ← graph.edgesCount
  runtimeCost edges
  let sortedIndexes := getSortedDependencies graph
  match getCyclingDependencies graph sortedIndexes with
  | some deps =>
    let functionsNames := deps.filterMap fun i =>
      (preExpressions[i]?.bind findExpressionDefinition).map fun definition => definition.1.bytes
    .error (.circularReference functionsNames)
  | none => pure sortedIndexes

namespace Graph

/-- Every edge ends at a node. -/
def WellFormed (graph : Graph) : Prop := ∀ u v, graph.Edge u v → v < graph.nodesCount

end Graph

section Walk

open Digraph Relation

variable {graph : Graph}

/-- The number of nodes the walk has not seen. -/
def unseenCount (graph : Graph) (seen : Finset Nat) : Nat := (Finset.range graph.nodesCount \ seen).card

theorem unseenCount_le_of_subset {s t : Finset Nat} (h : s ⊆ t) : unseenCount graph t ≤ unseenCount graph s :=
  Finset.card_le_card (Finset.sdiff_subset_sdiff (subset_refl _) h)

theorem unseenCount_insert {s : Finset Nat} {v : Nat} (hv : v < graph.nodesCount) (hs : v ∉ s) :
    unseenCount graph (insert v s) + 1 = unseenCount graph s := by
  unfold unseenCount
  rw [Finset.sdiff_insert, Finset.card_erase_add_one (Finset.mem_sdiff.mpr ⟨Finset.mem_range.mpr hv, hs⟩)]

theorem unseenCount_le (s : Finset Nat) : unseenCount graph s ≤ graph.nodesCount := by
  unfold unseenCount
  exact (Finset.card_le_card Finset.sdiff_subset).trans (Finset.card_range _).le

/-- The walk inside the nodes of `stack`: a node is seen when it is sorted or
on the stack, none is sorted twice, and all are nodes. Without a cycle, the
sorted ones are in post-order. -/
structure WalkInv (graph : Graph) (stack : List Nat) (walk : Finset Nat × List Nat) : Prop where
  mem_seen : ∀ x, x ∈ walk.1 ↔ x ∈ walk.2 ∨ x ∈ stack
  nodup : walk.2.Nodup
  not_mem_stack : ∀ x ∈ walk.2, x ∉ stack
  lt_nodesCount : ∀ x ∈ walk.1, x < graph.nodesCount
  postOrdered : ¬HasCycle graph.Edge → PostOrdered graph.Edge walk.2

theorem walkInv_init : WalkInv graph [] (∅, []) :=
  ⟨by simp, List.nodup_nil, by simp, by simp, fun _ => PostOrdered.nil⟩

/-- One call of `sort_dependencies_recursion` at `v`, inside `stack`, with
enough fuel: it keeps the invariant, sees `v`, and forgets nothing. -/
def VisitSpec (graph : Graph) (fuel : Nat) : Prop :=
  ∀ v stack walk, v < graph.nodesCount → WalkInv graph stack walk → (∀ a ∈ stack, TransGen graph.Edge a v) →
    unseenCount graph walk.1 < fuel →
    WalkInv graph stack (sortDependenciesRecursion graph fuel v walk) ∧
      v ∈ (sortDependenciesRecursion graph fuel v walk).1 ∧ walk.1 ⊆ (sortDependenciesRecursion graph fuel v walk).1

/-- The loop over the neighbours of `v`, each walked with `v` on the stack. -/
theorem foldl_visit (hwf : graph.WellFormed) {fuel : Nat} (ih : VisitSpec graph fuel) {v : Nat}
    {stack : List Nat} (hreach : ∀ a ∈ stack, TransGen graph.Edge a v) :
    ∀ ns : List Nat, (∀ w ∈ ns, graph.Edge v w) → ∀ walk, WalkInv graph (v :: stack) walk →
      unseenCount graph walk.1 < fuel →
      WalkInv graph (v :: stack) (ns.foldl (fun walk w => sortDependenciesRecursion graph fuel w walk) walk) ∧
        (∀ w ∈ ns, w ∈ (ns.foldl (fun walk w => sortDependenciesRecursion graph fuel w walk) walk).1) ∧
        walk.1 ⊆ (ns.foldl (fun walk w => sortDependenciesRecursion graph fuel w walk) walk).1
  | [], _, walk, hinv, _ => ⟨hinv, by simp, subset_refl _⟩
  | w :: ns, hns, walk, hinv, hfuel => by
    have hvw : graph.Edge v w := hns w List.mem_cons_self
    -- the stack reaches the neighbour through `v`
    have hreach' : ∀ a ∈ v :: stack, TransGen graph.Edge a w := by
      intro a ha
      rcases List.mem_cons.mp ha with rfl | ha
      · exact TransGen.single hvw
      · exact TransGen.tail (hreach a ha) hvw
    obtain ⟨hinv₁, hw₁, hsub₁⟩ := ih w (v :: stack) walk (hwf v w hvw) hinv hreach' hfuel
    obtain ⟨hinv₂, hns₂, hsub₂⟩ := foldl_visit hwf ih hreach ns (fun u hu => hns u (List.mem_cons_of_mem w hu))
      _ hinv₁ (lt_of_le_of_lt (unseenCount_le_of_subset hsub₁) hfuel)
    refine ⟨hinv₂, ?_, hsub₁.trans hsub₂⟩
    intro u hu
    rcases List.mem_cons.mp hu with rfl | hu
    · exact hsub₂ hw₁
    · exact hns₂ u hu

theorem visitSpec (hwf : graph.WellFormed) : ∀ fuel, VisitSpec graph fuel
  | 0 => fun _ _ _ _ _ _ hfuel => absurd hfuel (Nat.not_lt_zero _)
  | fuel + 1 => by
    intro v stack walk hv hinv hreach hfuel
    obtain ⟨seen, branch⟩ := walk
    by_cases hseen : v ∈ seen
    · simp only [sortDependenciesRecursion, if_pos hseen]
      exact ⟨hinv, hseen, subset_refl _⟩
    -- `v` goes on the stack while its neighbours are walked
    have hstack : v ∉ stack := fun h => hseen ((hinv.mem_seen v).mpr (Or.inr h))
    have hinv₁ : WalkInv graph (v :: stack) (insert v seen, branch) := by
      refine ⟨?_, hinv.nodup, ?_, ?_, hinv.postOrdered⟩
      · intro x
        rw [Finset.mem_insert, hinv.mem_seen x, List.mem_cons]
        tauto
      · intro x hx hxs
        rcases List.mem_cons.mp hxs with rfl | hxs
        · exact hseen ((hinv.mem_seen x).mpr (Or.inl hx))
        · exact hinv.not_mem_stack x hx hxs
      · intro x hx
        rcases Finset.mem_insert.mp hx with rfl | hx
        · exact hv
        · exact hinv.lt_nodesCount x hx
    have hfuel₁ : unseenCount graph (insert v seen) < fuel := by
      have := unseenCount_insert hv hseen
      change unseenCount graph seen < fuel + 1 at hfuel
      omega
    obtain ⟨hinv₂, hns, hsub⟩ :=
      foldl_visit hwf (visitSpec hwf fuel) hreach _ (fun _ hw => hw) _ hinv₁ hfuel₁
    simp only [sortDependenciesRecursion, if_neg hseen]
    generalize List.foldl (fun walk w => sortDependenciesRecursion graph fuel w walk) (insert v seen, branch)
      (graph.adjacencyList.getD v []) = walk₂ at hinv₂ hns hsub
    have hvsorted : v ∉ walk₂.2 := fun h => hinv₂.not_mem_stack v h List.mem_cons_self
    -- then `v` is sorted, after all it reaches
    refine ⟨⟨?_, ?_, ?_, hinv₂.lt_nodesCount, ?_⟩, hsub (Finset.mem_insert_self v seen),
      (Finset.subset_insert v seen).trans hsub⟩
    · intro x
      rw [hinv₂.mem_seen x, List.mem_append, List.mem_singleton, List.mem_cons]
      tauto
    · rw [← List.concat_eq_append]
      exact hinv₂.nodup.concat hvsorted
    · intro x hx hxs
      rcases List.mem_append.mp hx with hx | hx
      · exact hinv₂.not_mem_stack x hx (List.mem_cons_of_mem v hxs)
      · rw [List.mem_singleton.mp hx] at hxs
        exact hstack hxs
    · intro hacyc
      refine (hinv₂.postOrdered hacyc).concat fun y hy => ?_
      rcases (hinv₂.mem_seen y).mp (hns y hy) with hy' | hy'
      · exact hy'
      -- a neighbour still on the stack closes a cycle
      rcases List.mem_cons.mp hy' with rfl | hy'
      · exact absurd ⟨y, TransGen.single hy⟩ hacyc
      · exact absurd ⟨y, TransGen.tail (hreach y hy') hy⟩ hacyc

/-- The loop of `get_sorted_dependencies` over the roots. -/
theorem foldl_roots (hwf : graph.WellFormed) :
    ∀ roots : List Nat, (∀ r ∈ roots, r < graph.nodesCount) → ∀ walk, WalkInv graph [] walk →
      WalkInv graph []
          (roots.foldl (fun walk r => sortDependenciesRecursion graph (graph.nodesCount + 1) r walk) walk) ∧
        (∀ r ∈ roots,
          r ∈ (roots.foldl (fun walk r => sortDependenciesRecursion graph (graph.nodesCount + 1) r walk) walk).1) ∧
        walk.1 ⊆ (roots.foldl (fun walk r => sortDependenciesRecursion graph (graph.nodesCount + 1) r walk) walk).1
  | [], _, walk, hinv => ⟨hinv, by simp, subset_refl _⟩
  | r :: roots, hroots, walk, hinv => by
    obtain ⟨hinv₁, hr₁, hsub₁⟩ := visitSpec hwf (graph.nodesCount + 1) r [] walk (hroots r List.mem_cons_self)
      hinv (by simp) (Nat.lt_succ_of_le (unseenCount_le _))
    obtain ⟨hinv₂, hroots₂, hsub₂⟩ :=
      foldl_roots hwf roots (fun u hu => hroots u (List.mem_cons_of_mem r hu)) _ hinv₁
    refine ⟨hinv₂, fun u hu => ?_, hsub₁.trans hsub₂⟩
    rcases List.mem_cons.mp hu with rfl | hu
    · exact hsub₂ hr₁
    · exact hroots₂ u hu

/-- `get_sorted_dependencies` lists every node once, and without a cycle
each node after its successors. -/
theorem getSortedDependencies_spec (hwf : graph.WellFormed) :
    (getSortedDependencies graph).Perm (List.range graph.nodesCount) ∧
      (¬HasCycle graph.Edge → PostOrdered graph.Edge (getSortedDependencies graph)) := by
  obtain ⟨hinv, hroots, -⟩ := foldl_roots hwf (List.range graph.nodesCount) (fun r hr => List.mem_range.mp hr)
    (∅, []) walkInv_init
  unfold getSortedDependencies
  refine ⟨(List.perm_ext_iff_of_nodup hinv.nodup List.nodup_range).mpr fun x => ?_, hinv.postOrdered⟩
  rw [List.mem_range]
  constructor
  · intro hx
    exact hinv.lt_nodesCount x ((hinv.mem_seen x).mpr (Or.inl hx))
  · intro hx
    simpa using (hinv.mem_seen x).mp (hroots x (List.mem_range.mpr hx))

end Walk

section Taint

open Digraph Relation

variable {graph : Graph}

/-- A node with no descendants has no path out of it. -/
theorem acc_of_leaf {d : Nat} (hleaf : graph.hasNodeDescendants d = false) :
    Acc (Function.swap graph.Edge) d := by
  have hnil : graph.getNodeDescendants d = [] := by
    unfold Graph.hasNodeDescendants at hleaf
    unfold Graph.getNodeDescendants
    simpa using hleaf
  refine Acc.intro d fun y hy => ?_
  change y ∈ graph.getNodeDescendants d at hy
  simp [hnil] at hy

theorem foldl_taintDescendant_subset :
    ∀ (ds : List Nat) (acc : Finset Nat × Nat), acc.1 ⊆ (ds.foldl (taintDescendant graph) acc).1
  | [], _ => subset_refl _
  | d :: ds, acc => by
    refine subset_trans ?_ (foldl_taintDescendant_subset ds (taintDescendant graph acc d))
    unfold taintDescendant
    split_ifs
    · exact Finset.subset_insert d acc.1
    · exact subset_refl _

/-- What the descendant loop taints is a leaf or was tainted. -/
theorem foldl_taintDescendant_mem (P : Nat → Prop) :
    ∀ (ds : List Nat) (acc : Finset Nat × Nat), (∀ t ∈ acc.1, P t) →
      (∀ d ∈ ds, graph.hasNodeDescendants d = false → P d) → ∀ t ∈ (ds.foldl (taintDescendant graph) acc).1, P t
  | [], _, hacc, _ => hacc
  | d :: ds, acc, hacc, hds => by
    apply foldl_taintDescendant_mem P ds _ _ fun d' hd' => hds d' (List.mem_cons_of_mem d hd')
    unfold taintDescendant
    split_ifs with hcount
    · intro t ht
      rcases Finset.mem_insert.mp ht with rfl | ht
      · -- the descendant is counted as a leaf or as tainted
        rcases Bool.or_eq_true_iff.mp hcount with hleaf | htainted
        · exact hds t List.mem_cons_self (by simpa using hleaf)
        · exact hacc t (by simpa using htainted)
      · exact hacc t ht
    · exact hacc

/-- When every descendant is counted, every descendant is tainted. -/
theorem foldl_taintDescendant_count :
    ∀ (ds : List Nat) (acc : Finset Nat × Nat),
      (ds.foldl (taintDescendant graph) acc).2 ≤ acc.2 + ds.length ∧
        ((ds.foldl (taintDescendant graph) acc).2 = acc.2 + ds.length →
          ∀ d ∈ ds, d ∈ (ds.foldl (taintDescendant graph) acc).1)
  | [], acc => ⟨le_of_eq (Nat.add_zero _), by simp⟩
  | d :: ds, acc => by
    obtain ⟨hle, hall⟩ := foldl_taintDescendant_count ds (taintDescendant graph acc d)
    rw [List.foldl_cons, List.length_cons]
    unfold taintDescendant at hle hall ⊢
    split_ifs at hle hall ⊢
    · refine ⟨by omega, fun hcount d' hd' => ?_⟩
      rcases List.mem_cons.mp hd' with rfl | hd'
      · exact foldl_taintDescendant_subset ds _ (Finset.mem_insert_self d' acc.1)
      · exact hall (by omega) d' hd'
    · -- an uncounted descendant leaves the count short
      exact ⟨by omega, fun hcount => by omega⟩

/-- Descendants that are leaves or tainted are all counted. -/
theorem foldl_taintDescendant_all :
    ∀ (ds : List Nat) (acc : Finset Nat × Nat), (∀ d ∈ ds, graph.hasNodeDescendants d = false ∨ d ∈ acc.1) →
      (ds.foldl (taintDescendant graph) acc).2 = acc.2 + ds.length
  | [], _, _ => rfl
  | d :: ds, acc, hds => by
    have hd : (!graph.hasNodeDescendants d || decide (d ∈ acc.1)) = true := by
      rcases hds d List.mem_cons_self with hleaf | htainted
      · simp [hleaf]
      · simp [htainted]
    rw [List.foldl_cons, taintDescendant, if_pos hd, foldl_taintDescendant_all ds _ fun d' hd' =>
      (hds d' (List.mem_cons_of_mem d hd')).imp_right (Finset.mem_insert_of_mem), List.length_cons]
    omega

theorem taintNode_subset (tainted : Finset Nat) (node : Nat) : tainted ⊆ taintNode graph tainted node := by
  unfold taintNode
  dsimp only
  split_ifs
  · exact (foldl_taintDescendant_subset _ (tainted, 0)).trans (Finset.subset_insert _ _)
  · exact foldl_taintDescendant_subset _ (tainted, 0)

/-- A node whose descendants are all tainted is tainted. -/
theorem mem_taintNode {tainted : Finset Nat} {node : Nat} (h : ∀ d ∈ graph.getNodeDescendants node, d ∈ tainted) :
    node ∈ taintNode graph tainted node := by
  unfold taintNode
  dsimp only
  rw [if_pos ((foldl_taintDescendant_all _ _ fun d hd => Or.inr (h d hd)).trans (Nat.zero_add _))]
  exact Finset.mem_insert_self _ _

/-- Only well-founded nodes are ever tainted. -/
theorem taintNode_acc {tainted : Finset Nat} (htainted : ∀ t ∈ tainted, Acc (Function.swap graph.Edge) t)
    (node : Nat) : ∀ t ∈ taintNode graph tainted node, Acc (Function.swap graph.Edge) t := by
  have hacc := @foldl_taintDescendant_mem graph (Acc (Function.swap graph.Edge))
    (graph.getNodeDescendants node) (tainted, 0) htainted fun d _ hleaf => acc_of_leaf hleaf
  unfold taintNode
  dsimp only
  split_ifs with hcount
  · intro t ht
    rcases Finset.mem_insert.mp ht with rfl | ht
    · -- all its descendants were tainted, so all are well-founded
      have hall := (@foldl_taintDescendant_count graph (graph.getNodeDescendants t) (tainted, 0)).2
        (by rw [hcount, Nat.zero_add])
      exact Acc.intro t fun y hy => hacc y (hall y hy)
    · exact hacc t ht
  · exact hacc

/-- Only nodes are ever tainted. -/
theorem taintNode_lt (hwf : graph.WellFormed) {tainted : Finset Nat} (htainted : ∀ t ∈ tainted, t < graph.nodesCount)
    {node : Nat} (hnode : node < graph.nodesCount) : ∀ t ∈ taintNode graph tainted node, t < graph.nodesCount := by
  have hlt := @foldl_taintDescendant_mem graph (· < graph.nodesCount)
    (graph.getNodeDescendants node) (tainted, 0) htainted fun d hd _ => hwf node d hd
  unfold taintNode
  dsimp only
  split_ifs
  · intro t ht
    rcases Finset.mem_insert.mp ht with rfl | ht
    · exact hnode
    · exact hlt t ht
  · exact hlt

theorem foldl_taintNode_acc :
    ∀ (l : List Nat) (tainted : Finset Nat), (∀ t ∈ tainted, Acc (Function.swap graph.Edge) t) →
      ∀ t ∈ l.foldl (taintNode graph) tainted, Acc (Function.swap graph.Edge) t
  | [], _, h => h
  | node :: l, _, h => foldl_taintNode_acc l _ (taintNode_acc h node)

theorem foldl_taintNode_lt (hwf : graph.WellFormed) :
    ∀ (l : List Nat) (tainted : Finset Nat), (∀ x ∈ l, x < graph.nodesCount) →
      (∀ t ∈ tainted, t < graph.nodesCount) → ∀ t ∈ l.foldl (taintNode graph) tainted, t < graph.nodesCount
  | [], _, _, h => h
  | node :: l, _, hl, h =>
    foldl_taintNode_lt hwf l _ (fun x hx => hl x (List.mem_cons_of_mem node hx))
      (taintNode_lt hwf h (hl node List.mem_cons_self))

/-- In a post-order every node is tainted: its descendants come, and are
tainted, before it. -/
theorem foldl_taintNode_postOrdered {l : List Nat} (hpost : PostOrdered graph.Edge l) :
    ∀ x ∈ l, x ∈ l.foldl (taintNode graph) ∅ := by
  induction l using List.reverseRecOn with
  | nil => simp
  | append_singleton l x ih =>
    obtain ⟨hpost', hsucc⟩ := hpost.of_concat
    have hbefore := ih hpost'
    rw [List.foldl_append, List.foldl_cons, List.foldl_nil]
    intro y hy
    rcases List.mem_append.mp hy with hy | hy
    · exact taintNode_subset _ x (hbefore y hy)
    · rw [List.mem_singleton.mp hy]
      exact mem_taintNode fun d hd => hbefore d (hsucc d hd)

/-- A node on a cycle is never tainted, so some node is left over. -/
theorem getCyclingDependencies_of_cycle (hwf : graph.WellFormed) {sortedIndexes : List Nat}
    (hperm : sortedIndexes.Perm (List.range graph.nodesCount)) (hcycle : HasCycle graph.Edge) :
    ∃ deps, getCyclingDependencies graph sortedIndexes = some deps := by
  obtain ⟨v, hv⟩ := hcycle
  have hlt := foldl_taintNode_lt hwf sortedIndexes ∅ (fun x hx => List.mem_range.mp (hperm.subset hx)) (by simp)
  have hacc := @foldl_taintNode_acc graph sortedIndexes ∅ (by simp)
  -- `v` has an edge out, so it is a node
  have hvnode : v < graph.nodesCount := by
    obtain ⟨w, hvw, -⟩ := TransGen.head'_iff.mp hv
    by_contra hge
    simp [Graph.Edge, List.getD_eq_getElem?_getD, List.getElem?_eq_none (Nat.le_of_not_lt hge)] at hvw
  have hnot : v ∉ sortedIndexes.foldl (taintNode graph) ∅ := fun h => not_acc_of_cycle hv (hacc v h)
  have hcard : (sortedIndexes.foldl (taintNode graph) ∅).card < sortedIndexes.length := by
    rw [hperm.length_eq, List.length_range]
    calc (sortedIndexes.foldl (taintNode graph) ∅).card ≤ ((Finset.range graph.nodesCount).erase v).card := by
          apply Finset.card_le_card
          intro t ht
          exact Finset.mem_erase.mpr ⟨fun h => hnot (h ▸ ht), Finset.mem_range.mpr (hlt t ht)⟩
      _ < graph.nodesCount := by
          rw [Finset.card_erase_of_mem (Finset.mem_range.mpr hvnode), Finset.card_range]
          omega
  unfold getCyclingDependencies
  rw [if_neg hcard.ne]
  exact ⟨_, rfl⟩

/-- Over a post-order of every node, every node is tainted. -/
theorem getCyclingDependencies_of_postOrdered (hwf : graph.WellFormed) {sortedIndexes : List Nat}
    (hperm : sortedIndexes.Perm (List.range graph.nodesCount)) (hpost : PostOrdered graph.Edge sortedIndexes) :
    getCyclingDependencies graph sortedIndexes = none := by
  have hlt := foldl_taintNode_lt hwf sortedIndexes ∅ (fun x hx => List.mem_range.mp (hperm.subset hx)) (by simp)
  have hall := foldl_taintNode_postOrdered hpost
  have hset : sortedIndexes.foldl (taintNode graph) ∅ = Finset.range graph.nodesCount := by
    ext t
    rw [Finset.mem_range]
    exact ⟨hlt t, fun ht => hall t (hperm.symm.subset (List.mem_range.mpr ht))⟩
  unfold getCyclingDependencies
  rw [if_pos (by rw [hset, Finset.card_range, hperm.length_eq, List.length_range])]

end Taint

section Run

open Digraph Relation

theorem dependencyGraph_nodesCount (exprs : List PreSymbolicExpression) :
    (dependencyGraph exprs).nodesCount = exprs.length :=
  List.length_map _

/-- The probe only adds edges to expressions of the contract. -/
theorem dependencyGraph_wellFormed (exprs : List PreSymbolicExpression) : (dependencyGraph exprs).WellFormed := by
  intro u v huv
  rw [dependencyGraph_nodesCount]
  simp only [Graph.Edge, dependencyGraph, List.getD_eq_getElem?_getD, List.getElem?_map] at huv
  cases hu : exprs[u]? with
  | none => simp [hu] at huv
  | some expr =>
    simp only [hu, Option.map_some, Option.getD_some, List.mem_map] at huv
    obtain ⟨i, -, rfl⟩ := huv
    exact i.isLt

variable {runtimeCost : Nat → Except ParseErrors Unit} {preExpressions : List PreSymbolicExpression}

/-- A failed charge of the edge count is what `run` returns. -/
theorem run_of_charge_error {e : ParseErrors}
    (h : ((dependencyGraph preExpressions).edgesCount >>= runtimeCost) = .error e) :
    run runtimeCost preExpressions = .error e := by
  unfold run
  dsimp only
  cases hc : (dependencyGraph preExpressions).edgesCount with
  | error e' =>
    simp only [hc, bind, Except.bind, Except.error.injEq] at h ⊢
    rw [h]
  | ok edges =>
    simp only [hc, bind, Except.bind] at h ⊢
    simp only [h]

theorem run_of_cyclingDependencies_none
    (hcharge : ((dependencyGraph preExpressions).edgesCount >>= runtimeCost) = .ok ())
    (hnone : getCyclingDependencies (dependencyGraph preExpressions)
      (getSortedDependencies (dependencyGraph preExpressions)) = none) :
    run runtimeCost preExpressions = .ok (getSortedDependencies (dependencyGraph preExpressions)) := by
  unfold run
  dsimp only
  cases hc : (dependencyGraph preExpressions).edgesCount with
  | error e => simp [hc, bind, Except.bind] at hcharge
  | ok edges =>
    simp only [hc, bind, Except.bind] at hcharge ⊢
    simp only [hcharge, hnone]
    rfl

theorem run_of_cyclingDependencies_some
    (hcharge : ((dependencyGraph preExpressions).edgesCount >>= runtimeCost) = .ok ()) {deps : List Nat}
    (hsome : getCyclingDependencies (dependencyGraph preExpressions)
      (getSortedDependencies (dependencyGraph preExpressions)) = some deps) :
    ∃ names, run runtimeCost preExpressions = .error (.circularReference names) := by
  unfold run
  dsimp only
  cases hc : (dependencyGraph preExpressions).edgesCount with
  | error e => simp [hc, bind, Except.bind] at hcharge
  | ok edges =>
    simp only [hc, bind, Except.bind] at hcharge ⊢
    simp only [hcharge, hsome]
    exact ⟨_, rfl⟩

/-- `run` succeeds only with the depth-first order, when the cycle check
finds nothing. -/
theorem run_eq_ok {sorting : List Nat} (h : run runtimeCost preExpressions = .ok sorting) :
    getCyclingDependencies (dependencyGraph preExpressions)
        (getSortedDependencies (dependencyGraph preExpressions)) = none ∧
      sorting = getSortedDependencies (dependencyGraph preExpressions) := by
  unfold run at h
  dsimp only at h
  cases hc : (dependencyGraph preExpressions).edgesCount with
  | error e => simp [hc, bind, Except.bind] at h
  | ok edges =>
    cases hcost : runtimeCost edges with
    | error e => simp [hc, hcost, bind, Except.bind] at h
    | ok u =>
      cases hcyc : getCyclingDependencies (dependencyGraph preExpressions)
          (getSortedDependencies (dependencyGraph preExpressions)) with
      | some deps => simp [hc, hcost, hcyc, bind, Except.bind] at h
      | none =>
        simp [hc, hcost, hcyc, bind, Except.bind, pure, Except.pure] at h
        exact ⟨rfl, h.symm⟩

theorem run_sorts_or_reports_cycle (runtimeCost : Nat → Except ParseErrors Unit)
    (preExpressions : List PreSymbolicExpression) :
    (∀ e, ((dependencyGraph preExpressions).edgesCount >>= runtimeCost) = .error e →
        run runtimeCost preExpressions = .error e) ∧
      (((dependencyGraph preExpressions).edgesCount >>= runtimeCost) = .ok () →
        ((∃ names, run runtimeCost preExpressions = .error (.circularReference names)) ↔
          HasCycle (dependencyGraph preExpressions).Edge)) ∧
      ∀ sorting, run runtimeCost preExpressions = .ok sorting →
        sorting.Perm (List.range preExpressions.length) ∧ PostOrdered (dependencyGraph preExpressions).Edge sorting := by
  have hwf := dependencyGraph_wellFormed preExpressions
  obtain ⟨hperm, hpost⟩ := getSortedDependencies_spec hwf
  refine ⟨fun e => run_of_charge_error, fun hcharge => ⟨?_, ?_⟩, ?_⟩
  · -- without a cycle the taint pass covers the post-order, and `run` succeeds
    rintro ⟨names, hrun⟩
    by_contra hacyclic
    rw [run_of_cyclingDependencies_none hcharge (getCyclingDependencies_of_postOrdered hwf hperm (hpost hacyclic))]
      at hrun
    cases hrun
  · intro hcycle
    obtain ⟨deps, hsome⟩ := getCyclingDependencies_of_cycle hwf hperm hcycle
    exact run_of_cyclingDependencies_some hcharge hsome
  · intro sorting hrun
    obtain ⟨hnone, rfl⟩ := run_eq_ok hrun
    refine ⟨dependencyGraph_nodesCount preExpressions ▸ hperm, hpost fun hcycle => ?_⟩
    -- a cycle would have left a node untainted
    obtain ⟨deps, hsome⟩ := getCyclingDependencies_of_cycle hwf hperm hcycle
    rw [hnone] at hsome
    cases hsome

/-- `(define-constant a a)`: a constant defined by itself. -/
def selfReference : PreSymbolicExpression :=
  .list [.atom ⟨ascii "define-constant", by decide⟩ 1, .atom ⟨ascii "a", by decide⟩ 2,
    .atom ⟨ascii "a", by decide⟩ 3] 0

example : (dependencyGraph [selfReference]).adjacencyList = [[0]] := by decide +kernel

theorem selfReference_hasCycle : HasCycle (dependencyGraph [selfReference]).Edge := by
  have hadj : (dependencyGraph [selfReference]).adjacencyList = [[0]] := by decide +kernel
  refine ⟨0, TransGen.single ?_⟩
  unfold Graph.Edge
  rw [hadj]
  decide

theorem run_reports_self_reference :
    ∃ names, run (fun _ => .ok ()) [selfReference] = .error (.circularReference names) :=
  ((run_sorts_or_reports_cycle (fun _ => .ok ()) [selfReference]).2.1 (by decide +kernel)).mpr
    selfReference_hasCycle

/-- With a cost tracker that refuses the charge, the cyclic contract gets the
cost error, not `CircularReference`. -/
theorem run_reports_cost_error_on_cycle :
    HasCycle (dependencyGraph [selfReference]).Edge ∧
      run (fun _ => .error .costBalanceExceeded) [selfReference] = .error .costBalanceExceeded :=
  ⟨selfReference_hasCycle, by decide +kernel⟩

end Run

end Ast

end BlockstackCore
