import BlockstackCore.Vm.Types.Value

/-!
# Expressions of the AST passes

The parser builds `PreSymbolicExpression`s (`vm/representations.rs`): atoms,
values, lists `( .. )`, tuple literals `{ .. }` and the sugared identifiers.
The sugar expander turns them into `SymbolicExpression`s, which have no
tuples. Every node carries an `id`, which `update_expression_id` fills in.
The spans of developer mode are left out.

`SymbolicExpressionCommon` is the trait that `update_expression_id` is
generic over: it can set a node's id and reach the children of a list. The
mutable slice that `match_list_mut` hands out is rendered as the children and
a function that writes new children back.

The definitions live in `Ast`: `Vm.Iterables` has a `SymbolicExpression` of
its own, a fragment whose applications are resolved when built.
-/

namespace BlockstackCore

namespace Ast

/-- `ParseErrors`, with the variants the modelled passes raise. -/
inductive ParseErrors where
  | costOverflow
  | costBalanceExceeded
  | tooManyExpressions
  | expressionStackDepthTooDeep
  | illegalVariableName (name : List UInt8)
  | closingParenthesisUnexpected
  | closingParenthesisExpected
  | closingTupleLiteralUnexpected
  | closingTupleLiteralExpected
  | circularReference (names : List (List UInt8))
  | traitReferenceUnknown (name : List UInt8)
  | commaSeparatorUnexpected
  | colonSeparatorUnexpected
  deriving DecidableEq, Repr

inductive PreSymbolicExpression where
  | atomValue (value : Value) (id : Nat)
  | atom (name : ClarityName) (id : Nat)
  | list (exprs : List PreSymbolicExpression) (id : Nat)
  | tuple (exprs : List PreSymbolicExpression) (id : Nat)
  | sugaredContractIdentifier (name : ContractName) (id : Nat)
  | sugaredFieldIdentifier (contractName : ContractName) (name : ClarityName) (id : Nat)
  | fieldIdentifier (traitIdentifier : TraitIdentifier) (id : Nat)
  | traitReference (name : ClarityName) (id : Nat)
  deriving Repr

inductive TraitDefinition where
  | defined (traitIdentifier : TraitIdentifier)
  | imported (traitIdentifier : TraitIdentifier)
  deriving DecidableEq, Repr

inductive SymbolicExpression where
  | atomValue (value : Value) (id : Nat)
  | atom (name : ClarityName) (id : Nat)
  | list (exprs : List SymbolicExpression) (id : Nat)
  | literalValue (value : Value) (id : Nat)
  | field (traitIdentifier : TraitIdentifier) (id : Nat)
  | traitReference (name : ClarityName) (definition : TraitDefinition) (id : Nat)
  deriving Repr

/-- `SymbolicExpressionCommon`: set a node's id, and reach the children of a
list (`match_list_mut`), which `withList` writes back. `id` reads the field
that `set_id` writes. The children of a list are smaller than the list, which
is what lets the relabelling recurse into them. -/
class SymbolicExpressionCommon (T : Type) [SizeOf T] where
  id : T → Nat
  setId : T → Nat → T
  matchListMut : T → Option (List T)
  withList : T → List T → T
  sizeOf_lt : ∀ t cs, matchListMut t = some cs → sizeOf cs < sizeOf t

/-- What the relabelling's specification needs of an instance: `set_id` sets
the id and keeps the children, and writing children back keeps the id and
gives those children. -/
class LawfulSymbolicExpressionCommon (T : Type) [SizeOf T] [SymbolicExpressionCommon T] : Prop where
  id_setId : ∀ (t : T) n, SymbolicExpressionCommon.id (SymbolicExpressionCommon.setId t n) = n
  matchListMut_setId : ∀ (t : T) n,
    SymbolicExpressionCommon.matchListMut (SymbolicExpressionCommon.setId t n) =
      SymbolicExpressionCommon.matchListMut t
  id_withList : ∀ (t : T) cs,
    SymbolicExpressionCommon.id (SymbolicExpressionCommon.withList t cs) = SymbolicExpressionCommon.id t
  matchListMut_withList : ∀ (t : T) cs cs', SymbolicExpressionCommon.matchListMut t = some cs →
    SymbolicExpressionCommon.matchListMut (SymbolicExpressionCommon.withList t cs') = some cs'

namespace PreSymbolicExpression

def id : PreSymbolicExpression → Nat
  | atomValue _ id | atom _ id | list _ id | tuple _ id | sugaredContractIdentifier _ id
  | sugaredFieldIdentifier _ _ id | fieldIdentifier _ id | traitReference _ id => id

def setId (e : PreSymbolicExpression) (n : Nat) : PreSymbolicExpression :=
  match e with
  | atomValue v _ => atomValue v n
  | atom a _ => atom a n
  | list xs _ => list xs n
  | tuple xs _ => tuple xs n
  | sugaredContractIdentifier c _ => sugaredContractIdentifier c n
  | sugaredFieldIdentifier c a _ => sugaredFieldIdentifier c a n
  | fieldIdentifier t _ => fieldIdentifier t n
  | traitReference a _ => traitReference a n

/-- `match_list_mut`: only a `List` is a list; a tuple literal is not. -/
def matchListMut : PreSymbolicExpression → Option (List PreSymbolicExpression)
  | list xs _ => some xs
  | _ => none

def withList (e : PreSymbolicExpression) (xs : List PreSymbolicExpression) : PreSymbolicExpression :=
  match e with
  | list _ n => list xs n
  | e => e

instance : SymbolicExpressionCommon PreSymbolicExpression where
  id := id
  setId := setId
  matchListMut := matchListMut
  withList := withList
  sizeOf_lt t cs h := by
    cases t <;> simp only [matchListMut, reduceCtorEq, Option.some.injEq] at h
    subst h
    simp only [list.sizeOf_spec]
    omega

instance : LawfulSymbolicExpressionCommon PreSymbolicExpression where
  id_setId t n := by cases t <;> rfl
  matchListMut_setId t n := by cases t <;> rfl
  id_withList t cs := by cases t <;> rfl
  matchListMut_withList t cs cs' h := by
    cases t <;> simp_all [SymbolicExpressionCommon.matchListMut, matchListMut,
      SymbolicExpressionCommon.withList, withList]

end PreSymbolicExpression

namespace SymbolicExpression

def id : SymbolicExpression → Nat
  | atomValue _ id | atom _ id | list _ id | literalValue _ id | field _ id | traitReference _ _ id => id

def setId (e : SymbolicExpression) (n : Nat) : SymbolicExpression :=
  match e with
  | atomValue v _ => atomValue v n
  | atom a _ => atom a n
  | list xs _ => list xs n
  | literalValue v _ => literalValue v n
  | field t _ => field t n
  | traitReference a d _ => traitReference a d n

def matchListMut : SymbolicExpression → Option (List SymbolicExpression)
  | list xs _ => some xs
  | _ => none

def withList (e : SymbolicExpression) (xs : List SymbolicExpression) : SymbolicExpression :=
  match e with
  | list _ n => list xs n
  | e => e

instance : SymbolicExpressionCommon SymbolicExpression where
  id := id
  setId := setId
  matchListMut := matchListMut
  withList := withList
  sizeOf_lt t cs h := by
    cases t <;> simp only [matchListMut, reduceCtorEq, Option.some.injEq] at h
    subst h
    simp only [list.sizeOf_spec]
    omega

instance : LawfulSymbolicExpressionCommon SymbolicExpression where
  id_setId t n := by cases t <;> rfl
  matchListMut_setId t n := by cases t <;> rfl
  id_withList t cs := by cases t <;> rfl
  matchListMut_withList t cs cs' h := by
    cases t <;> simp_all [SymbolicExpressionCommon.matchListMut, matchListMut,
      SymbolicExpressionCommon.withList, withList]

end SymbolicExpression

end Ast

end BlockstackCore
