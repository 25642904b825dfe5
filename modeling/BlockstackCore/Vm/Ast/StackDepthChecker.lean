import BlockstackCore.Vm.Ast.Expressions

/-!
# The stack depth checker

`StackDepthChecker` (`vm/ast/stack_depth_checker.rs`) bounds the nesting of
the pre-expressions before the later passes recurse over them. `check(args,
depth)` fails once `depth` reaches `AST_CALL_STACK_DEPTH_BUFFER +
MAX_CALL_STACK_DEPTH`, and recurses into the children of a `List` one level
deeper. Nothing else has children for it: a tuple literal is passed over with
its contents.

`check_eq` says exactly what it decides: the depth through lists only
(`checkedDepth`), from `depth`, must stay below the bound.
-/

namespace BlockstackCore

/-- `MAX_CALL_STACK_DEPTH` of `vm/mod.rs`. -/
def MAX_CALL_STACK_DEPTH : Nat := 64

namespace Ast

def AST_CALL_STACK_DEPTH_BUFFER : Nat := 5

mutual

/-- `check`: the guard on `depth`, then the loop over the expressions. -/
def check (args : List PreSymbolicExpression) (depth : Nat) : Except ParseErrors Unit :=
  if AST_CALL_STACK_DEPTH_BUFFER + MAX_CALL_STACK_DEPTH ≤ depth then .error .expressionStackDepthTooDeep
  else checkEach args depth
termination_by (sizeOf args, 1)

/-- The loop of `check`: a `List` is checked one level deeper; other
expressions "don't have depth impacts". -/
def checkEach : List PreSymbolicExpression → Nat → Except ParseErrors Unit
  | [], _ => .ok ()
  | expression :: rest, depth => do
    match expression with
    | .list exprs _ => check exprs (depth + 1)
    | _ => .ok ()
    checkEach rest depth
termination_by args => (sizeOf args, 0)

end

namespace PreSymbolicExpression

mutual

/-- How deep `check` goes below an expression: through lists only. -/
def checkedDepth : PreSymbolicExpression → Nat
  | list exprs _ => forestCheckedDepth exprs + 1
  | _ => 0

def forestCheckedDepth : List PreSymbolicExpression → Nat
  | [] => 0
  | e :: rest => max e.checkedDepth (forestCheckedDepth rest)

end

@[simp] theorem forestCheckedDepth_nil : forestCheckedDepth [] = 0 := by
  rw [forestCheckedDepth]

@[simp] theorem forestCheckedDepth_cons (e : PreSymbolicExpression) (rest : List PreSymbolicExpression) :
    forestCheckedDepth (e :: rest) = max e.checkedDepth (forestCheckedDepth rest) := by
  rw [forestCheckedDepth]

end PreSymbolicExpression

open PreSymbolicExpression

theorem check_of_lt {args : List PreSymbolicExpression} {depth : Nat}
    (h : depth < AST_CALL_STACK_DEPTH_BUFFER + MAX_CALL_STACK_DEPTH) : check args depth = checkEach args depth := by
  rw [check, if_neg (by omega)]

/-- The loop, below the bound: every expression's lists must stay below it. -/
theorem checkEach_eq : ∀ (args : List PreSymbolicExpression) (depth : Nat),
    depth < AST_CALL_STACK_DEPTH_BUFFER + MAX_CALL_STACK_DEPTH →
    checkEach args depth =
      if depth + forestCheckedDepth args < AST_CALL_STACK_DEPTH_BUFFER + MAX_CALL_STACK_DEPTH then .ok ()
      else .error .expressionStackDepthTooDeep
  | [], depth, h => by simp [checkEach, h]
  | .list exprs _ :: rest, depth, h => by
    have hrest := checkEach_eq rest depth h
    rw [checkEach]
    -- the list's children are checked one level deeper, with the guard first
    by_cases hfit : depth + 1 < AST_CALL_STACK_DEPTH_BUFFER + MAX_CALL_STACK_DEPTH
    · rw [check_of_lt hfit, checkEach_eq exprs (depth + 1) hfit]
      simp only [forestCheckedDepth_cons, checkedDepth, hrest]
      by_cases hexprs : depth + 1 + forestCheckedDepth exprs < AST_CALL_STACK_DEPTH_BUFFER + MAX_CALL_STACK_DEPTH
      · simp only [hexprs, if_true, bind, Except.bind]
        congr 1
        simp only [eq_iff_iff]
        omega
      · simp only [hexprs, if_false, bind, Except.bind]
        rw [if_neg (by omega)]
    · rw [check, if_pos (by omega)]
      simp only [forestCheckedDepth_cons, checkedDepth, bind, Except.bind]
      rw [if_neg (by omega)]
  | .atomValue .. :: rest, depth, h | .atom .. :: rest, depth, h | .tuple .. :: rest, depth, h
  | .sugaredContractIdentifier .. :: rest, depth, h | .sugaredFieldIdentifier .. :: rest, depth, h
  | .fieldIdentifier .. :: rest, depth, h | .traitReference .. :: rest, depth, h => by
    simp [checkEach, checkEach_eq rest depth h, checkedDepth]
termination_by args => sizeOf args

/-- `check` accepts exactly the expressions whose lists, from `depth`, stay
below `AST_CALL_STACK_DEPTH_BUFFER + MAX_CALL_STACK_DEPTH`. -/
theorem check_eq (args : List PreSymbolicExpression) (depth : Nat) :
    check args depth =
      if depth + forestCheckedDepth args < AST_CALL_STACK_DEPTH_BUFFER + MAX_CALL_STACK_DEPTH then .ok ()
      else .error .expressionStackDepthTooDeep := by
  by_cases h : depth < AST_CALL_STACK_DEPTH_BUFFER + MAX_CALL_STACK_DEPTH
  · rw [check_of_lt h, checkEach_eq args depth h]
  · rw [check, if_pos (by omega), if_neg (by omega)]

end Ast

end BlockstackCore
