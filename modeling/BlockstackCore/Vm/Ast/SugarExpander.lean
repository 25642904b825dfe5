import BlockstackCore.Vm.Ast.Parser
import BlockstackCore.Vm.Ast.StackDepthChecker

/-!
# The sugar expander

`SugarExpander::transform` (`vm/ast/sugar_expander`) turns pre-expressions
into expressions:

* a value is a literal value, an atom an atom, and a list a list of its
  children transformed;
* a tuple literal `{k1: v1, k2: v2}` becomes `(tuple (k1 v1) (k2 v2))`: its
  children transformed, cut into pairs (`chunks(2)`), each pair a list;
* a sugared contract or field identifier gets the contract's issuer;
* a trait reference is looked up among the contract's referenced traits, and
  fails with `TraitReferenceUnknown` when it is not there.

`transform_depth`: a tuple literal costs two levels of nesting, where the
stack depth checker counts none. `stackDepthChecker_misses_tuple_nesting`
puts the two together on `{a: ( .. (1) .. )}`.
-/

namespace BlockstackCore

namespace Ast

/-- `chunks(2)`: consecutive pairs, the last one short if the length is odd. -/
def chunksOfTwo {α : Type} : List α → List (List α)
  | [] => []
  | [a] => [[a]]
  | a :: b :: rest => [a, b] :: chunksOfTwo rest

/-- The atom `tuple` put at the head of an expanded tuple literal. -/
def tupleName : ClarityName := ⟨[116, 117, 112, 108, 101], by decide⟩

/-- What the expander reads: the issuer of the contract, and
`contract_ast.get_referenced_trait`. -/
structure SugarExpander where
  issuer : StandardPrincipalData
  referencedTraits : ClarityName → Option TraitDefinition

namespace SugarExpander

mutual

/-- `transform`: the expressions transformed one by one, in order, stopping
at the first error. -/
def transform (self : SugarExpander) : List PreSymbolicExpression → Except ParseErrors (List SymbolicExpression)
  | [] => .ok []
  | pre_expr :: rest => do
    let expr ← self.transformExpr pre_expr
    let rest ← self.transform rest
    .ok (expr :: rest)

/-- The body of the loop of `transform`, on one pre-expression. -/
def transformExpr (self : SugarExpander) : PreSymbolicExpression → Except ParseErrors SymbolicExpression
  | .atomValue content _ => .ok (.literalValue content 0)
  | .atom content _ => .ok (.atom content 0)
  | .list pre_exprs _ => do
    let expression ← self.transform pre_exprs
    .ok (.list expression 0)
  | .tuple pre_exprs _ => do
    let expression ← self.transform pre_exprs
    let pairs := (chunksOfTwo expression).map fun pair => SymbolicExpression.list pair 0
    .ok (.list (.atom tupleName 0 :: pairs) 0)
  | .sugaredContractIdentifier contractName _ =>
    .ok (.literalValue (.principal (.contract ⟨self.issuer, contractName⟩)) 0)
  | .sugaredFieldIdentifier contractName name _ => .ok (.field ⟨name, ⟨self.issuer, contractName⟩⟩ 0)
  | .fieldIdentifier traitIdentifier _ => .ok (.field traitIdentifier 0)
  | .traitReference name _ =>
    match self.referencedTraits name with
    | some traitReference => .ok (.traitReference name traitReference 0)
    | none => .error (.traitReferenceUnknown name.bytes)

end

end SugarExpander

namespace SymbolicExpression

mutual

/-- The list nesting of an expression: a list is one level above its
deepest child. -/
def depth : SymbolicExpression → Nat
  | list exprs _ => forestDepth exprs + 1
  | _ => 0

def forestDepth : List SymbolicExpression → Nat
  | [] => 0
  | e :: rest => max e.depth (forestDepth rest)

end

@[simp] theorem forestDepth_nil : forestDepth [] = 0 := by
  rw [forestDepth]

@[simp] theorem forestDepth_cons (e : SymbolicExpression) (rest : List SymbolicExpression) :
    forestDepth (e :: rest) = max e.depth (forestDepth rest) := by
  rw [forestDepth]

@[simp] theorem depth_list (exprs : List SymbolicExpression) (id : Nat) :
    (list exprs id).depth = forestDepth exprs + 1 := by
  rw [depth]

/-- The pairs of a tuple literal are one level above its children, if it has
any. -/
theorem forestDepth_chunksOfTwo (exprs : List SymbolicExpression) (h : exprs ≠ []) :
    forestDepth ((chunksOfTwo exprs).map fun pair => list pair 0) = forestDepth exprs + 1 := by
  induction exprs using chunksOfTwo.induct with
  | case1 => exact absurd rfl h
  | case2 a => simp [chunksOfTwo]
  | case3 a b rest ih =>
    cases rest with
    | nil => simp [chunksOfTwo]
    | cons c rest =>
      simp only [chunksOfTwo, List.map_cons, forestDepth_cons, depth_list, forestDepth_nil] at ih ⊢
      rw [ih (List.cons_ne_nil _ _)]
      omega

end SymbolicExpression

namespace PreSymbolicExpression

mutual

/-- The list nesting an expression has once expanded: a tuple literal with
children is two levels, `(tuple (k v) ..)`, above them. -/
def expandedDepth : PreSymbolicExpression → Nat
  | list exprs _ => forestExpandedDepth exprs + 1
  | tuple [] _ => 1
  | tuple exprs _ => forestExpandedDepth exprs + 2
  | _ => 0

def forestExpandedDepth : List PreSymbolicExpression → Nat
  | [] => 0
  | e :: rest => max e.expandedDepth (forestExpandedDepth rest)

end

end PreSymbolicExpression

namespace SugarExpander

open SymbolicExpression PreSymbolicExpression

variable (self : SugarExpander)

theorem transform_cons (pre_expr : PreSymbolicExpression) (rest : List PreSymbolicExpression) :
    self.transform (pre_expr :: rest) = (do
      let expr ← self.transformExpr pre_expr
      let rest ← self.transform rest
      .ok (expr :: rest)) := by
  rw [transform]

theorem transform_eq_ok_cons {pre_expr : PreSymbolicExpression} {rest : List PreSymbolicExpression}
    {exprs : List SymbolicExpression} (h : self.transform (pre_expr :: rest) = .ok exprs) :
    ∃ expr exprs', self.transformExpr pre_expr = .ok expr ∧ self.transform rest = .ok exprs' ∧
      exprs = expr :: exprs' := by
  rw [transform_cons] at h
  cases hexpr : self.transformExpr pre_expr with
  | error err => rw [hexpr] at h; cases h
  | ok expr =>
    cases hrest : self.transform rest with
    | error err => simp [hexpr, hrest, bind, Except.bind] at h
    | ok exprs' =>
      simp only [hexpr, hrest, bind, Except.bind, Except.ok.injEq] at h
      exact ⟨expr, exprs', rfl, rfl, h.symm⟩

mutual

/-- The expansion has exactly the nesting `expandedDepth` says. -/
theorem transformExpr_depth : ∀ (pre_expr : PreSymbolicExpression) {expr : SymbolicExpression},
    self.transformExpr pre_expr = .ok expr → expr.depth = pre_expr.expandedDepth
  | .atomValue .., _, h | .atom .., _, h | .sugaredContractIdentifier .., _, h
  | .sugaredFieldIdentifier .., _, h | .fieldIdentifier .., _, h => by
    simp only [transformExpr, Except.ok.injEq] at h
    subst h
    simp [depth, expandedDepth]
  | .traitReference name _, _, h => by
    simp only [transformExpr] at h
    split at h
    · cases h
      simp [depth, expandedDepth]
    · cases h
  | .list pre_exprs _, _, h => by
    simp only [transformExpr, bind, Except.bind] at h
    split at h
    · cases h
    · rename_i exprs hexprs
      cases h
      simp [expandedDepth, (transform_depth pre_exprs hexprs).1]
  | .tuple pre_exprs _, _, h => by
    simp only [transformExpr, bind, Except.bind] at h
    split at h
    · cases h
    · rename_i exprs hexprs
      cases h
      obtain ⟨hdepth, hlength⟩ := transform_depth pre_exprs hexprs
      -- an empty tuple literal is `(tuple)`, one level; otherwise the pairs add one
      cases pre_exprs with
      | nil =>
        cases exprs with
        | nil => simp [chunksOfTwo, expandedDepth, depth]
        | cons _ _ => simp at hlength
      | cons p ps =>
        have hne : exprs ≠ [] := by
          intro hnil
          simp [hnil] at hlength
        simp only [forestDepth_cons, depth, forestDepth_chunksOfTwo exprs hne, hdepth]
        simp [expandedDepth]

theorem transform_depth : ∀ (pre_exprs : List PreSymbolicExpression) {exprs : List SymbolicExpression},
    self.transform pre_exprs = .ok exprs →
      forestDepth exprs = forestExpandedDepth pre_exprs ∧ exprs.length = pre_exprs.length
  | [], _, h => by
    simp only [transform, Except.ok.injEq] at h
    subst h
    simp [forestExpandedDepth]
  | pre_expr :: rest, _, h => by
    obtain ⟨expr, exprs', hexpr, hrest, rfl⟩ := self.transform_eq_ok_cons h
    obtain ⟨hd, hl⟩ := transform_depth rest hrest
    simp [forestExpandedDepth, transformExpr_depth pre_expr hexpr, hd, hl]

end

end SugarExpander

/-! ## Tuple literals escape the depth check -/

/-- `( .. (1) .. )`: `k` lists around the value `1`. -/
def nestedList : Nat → PreSymbolicExpression
  | 0 => .atomValue (.int 1) 0
  | k + 1 => .list [nestedList k] 0

theorem keyA_valid : guardedNameOk clarityNameRegex [97] = true := by decide

/-- The key `a`. -/
def keyA : ClarityName := ⟨[97], keyA_valid⟩

/-- `{a: ( .. (1) .. )}`. -/
def deepTuple (k : Nat) : PreSymbolicExpression :=
  .tuple [.atom keyA 0, nestedList k] 0

/-- The tokens the lexer makes of `{a: ( .. (1) .. )}`. -/
def deepTupleTokens (k : Nat) : List LexItem :=
  .leftCurly :: .variable [97] :: .colonSeparator :: .whitespace :: (nestedList k).tokens ++ [.rightCurly]

open PreSymbolicExpression SymbolicExpression

theorem nodeIds_nestedList (k : Nat) : ∀ i ∈ (nestedList k).nodeIds, i = 0 := by
  induction k with
  | zero => simp [nestedList, PreSymbolicExpression.nodeIds, PreSymbolicExpression.id]
  | succ k ih => simpa [nestedList, PreSymbolicExpression.nodeIds, PreSymbolicExpression.forestIds] using ih

theorem expandedDepth_nestedList (k : Nat) : (nestedList k).expandedDepth = k := by
  induction k with
  | zero => simp [nestedList, expandedDepth]
  | succ k ih => simp [nestedList, expandedDepth, forestExpandedDepth, ih]

theorem transformExpr_nestedList (expander : SugarExpander) (k : Nat) :
    ∃ expr, expander.transformExpr (nestedList k) = .ok expr := by
  induction k with
  | zero => exact ⟨_, rfl⟩
  | succ k ih =>
    obtain ⟨expr, hexpr⟩ := ih
    exact ⟨.list [expr] 0, by simp [nestedList, SugarExpander.transformExpr, SugarExpander.transform,
      hexpr, bind, Except.bind]⟩

/-- The parser makes `{a: ( .. (1) .. )}` of its tokens. -/
theorem parseLexed_deepTupleTokens (k : Nat) : parseLexed (deepTupleTokens k) = .ok [deepTuple k] := by
  apply (parseLexed_eq_ok_iff _ _).mpr
  -- inside the braces: `a`, the colon after one item, a space, then the lists
  have hlists := Items.of_tokens (nestedList k) (nodeIds_nestedList k)
    (Items.nil : Items (some .collectTuple) (1 + 1) [] [])
  have hbody : Items (some .collectTuple) 0
      (.variable [97] :: .colonSeparator :: .whitespace :: (nestedList k).tokens ++ [])
      [.atom keyA 0, nestedList k] :=
    .atom (.variable keyA) (.colon (by decide) (.whitespace hlists))
  simpa [deepTupleTokens, deepTuple, ParseContext.opener, ParseContext.closer, ParseContext.close] using
    Items.group .collectTuple hbody (Items.nil : Items none (0 + 1) [] [])

/-- For every `k`, the parser builds `{a: ( .. (1) .. )}` with `k` lists, the
stack depth checker accepts it, since it does not look inside tuple literals,
and the sugar expander makes of it an expression `k + 2` lists deep. -/
theorem stackDepthChecker_misses_tuple_nesting (expander : SugarExpander) (k : Nat) :
    parseLexed (deepTupleTokens k) = .ok [deepTuple k] ∧ check [deepTuple k] 0 = .ok () ∧
      ∃ exprs, expander.transform [deepTuple k] = .ok exprs ∧ forestDepth exprs = k + 2 := by
  refine ⟨parseLexed_deepTupleTokens k, ?_, ?_⟩
  · rw [check_eq]
    simp [deepTuple, checkedDepth, AST_CALL_STACK_DEPTH_BUFFER, MAX_CALL_STACK_DEPTH]
  · obtain ⟨expr, hexpr⟩ := transformExpr_nestedList expander k
    have htransform : expander.transform [deepTuple k] =
        .ok [.list [.atom tupleName 0, .list [.atom keyA 0, expr] 0] 0] := by
      simp [deepTuple, SugarExpander.transform, SugarExpander.transformExpr, hexpr, chunksOfTwo,
        bind, Except.bind]
    refine ⟨_, htransform, ?_⟩
    rw [(expander.transform_depth [deepTuple k] htransform).1]
    simp [deepTuple, forestExpandedDepth, expandedDepth, expandedDepth_nestedList]

/-- `{a: ( .. (1) .. )}` with 137 lists, in a contract of the transient
issuer with no traits: it passes the check and expands to 139 levels, past
`2 * (AST_CALL_STACK_DEPTH_BUFFER + MAX_CALL_STACK_DEPTH) = 138`. -/
theorem deepTuple_passes_check_past_bound :
    parseLexed (deepTupleTokens 137) = .ok [deepTuple 137] ∧ check [deepTuple 137] 0 = .ok () ∧
      ∃ exprs, SugarExpander.transform ⟨.transient, fun _ => none⟩ [deepTuple 137] = .ok exprs ∧
        2 * (AST_CALL_STACK_DEPTH_BUFFER + MAX_CALL_STACK_DEPTH) < forestDepth exprs := by
  obtain ⟨hparse, hcheck, exprs, htransform, hdepth⟩ :=
    stackDepthChecker_misses_tuple_nesting ⟨.transient, fun _ => none⟩ 137
  refine ⟨hparse, hcheck, exprs, htransform, ?_⟩
  rw [hdepth]
  decide

end Ast

end BlockstackCore
