import BlockstackCore.Vm.Ast.ExpressionIdentifier

/-!
# The parser's stack machine

`parse_lexed` (`vm/ast/parser`) turns the lexer's tokens into a forest of
pre-expressions. It keeps a stack of open groups, each a list `( .. )` or a
tuple literal `{ .. }` with the items collected so far; an item goes to the
innermost open group, or to the output when none is open. Separators are
checked against the innermost group: a colon only after an odd number of items
of a tuple, a comma only after a non-zero even number.

Spans are left out, and with them the lengths and positions the lexer attaches
to tokens, which feed only the spans.

`Items` is the grammar of the token streams the parser accepts, and
`parseLexed_eq_ok_iff` says that `parseLexed` accepts exactly those, and builds
the forest the derivation gives. The two directions are a run lemma each:
`Items.run` runs the machine along a derivation; `Completes` says what the rest
of the input must be from a machine state, and is built backwards along a run.
-/

namespace BlockstackCore

namespace Ast

/-- `LexItem`, without the lengths and positions. -/
inductive LexItem where
  | leftParen
  | rightParen
  | leftCurly
  | rightCurly
  | literalValue (value : Value)
  | sugaredContractIdentifier (name : ContractName)
  | sugaredFieldIdentifier (contractName : ContractName) (name : ClarityName)
  | fieldIdentifier (traitIdentifier : TraitIdentifier)
  | traitReference (name : ClarityName)
  | variable (name : List UInt8)
  | commaSeparator
  | colonSeparator
  | whitespace
  deriving Repr

inductive ParseContext where
  | collectList
  | collectTuple
  deriving DecidableEq, Repr

namespace ParseContext

/-- The token that opens a group of this kind. -/
def opener : ParseContext → LexItem
  | collectList => .leftParen
  | collectTuple => .leftCurly

/-- The token that closes a group of this kind. -/
def closer : ParseContext → LexItem
  | collectList => .rightParen
  | collectTuple => .rightCurly

/-- The pre-expression a closed group becomes. -/
def close (ctx : ParseContext) (exprs : List PreSymbolicExpression) : PreSymbolicExpression :=
  match ctx with
  | collectList => .list exprs 0
  | collectTuple => .tuple exprs 0

end ParseContext

/-- The state of `parse_lexed`: `parse_stack`, innermost group first, and
`output_list`. -/
structure ParseState where
  parseStack : List (List PreSymbolicExpression × ParseContext)
  outputList : List PreSymbolicExpression

namespace ParseState

/-- `parse_stack.last_mut()`: push to the innermost open group, or to the
output when none is open. -/
def push (e : PreSymbolicExpression) : ParseState → ParseState
  | ⟨[], out⟩ => ⟨[], out ++ [e]⟩
  | ⟨(list, ctx) :: rest, out⟩ => ⟨(list ++ [e], ctx) :: rest, out⟩

def openGroup (ctx : ParseContext) (s : ParseState) : ParseState :=
  ⟨([], ctx) :: s.parseStack, s.outputList⟩

/-- The kind of the innermost open group, `none` at the top level. -/
def innerContext : ParseState → Option ParseContext
  | ⟨[], _⟩ => none
  | ⟨(_, ctx) :: _, _⟩ => some ctx

/-- The number of items the innermost open group holds. -/
def innerCount : ParseState → Nat
  | ⟨[], out⟩ => out.length
  | ⟨(list, _) :: _, _⟩ => list.length

/-- A forest pushed item by item. -/
def pushAll (exprs : List PreSymbolicExpression) (s : ParseState) : ParseState :=
  exprs.foldl (fun s e => s.push e) s

@[simp] theorem innerContext_push (e : PreSymbolicExpression) (s : ParseState) :
    (s.push e).innerContext = s.innerContext := by
  rcases s with ⟨_ | ⟨⟨list, ctx⟩, rest⟩, out⟩ <;> rfl

@[simp] theorem innerCount_push (e : PreSymbolicExpression) (s : ParseState) :
    (s.push e).innerCount = s.innerCount + 1 := by
  rcases s with ⟨_ | ⟨⟨list, ctx⟩, rest⟩, out⟩ <;> simp [push, innerCount]

@[simp] theorem innerContext_openGroup (ctx : ParseContext) (s : ParseState) :
    (s.openGroup ctx).innerContext = some ctx := rfl

@[simp] theorem innerCount_openGroup (ctx : ParseContext) (s : ParseState) :
    (s.openGroup ctx).innerCount = 0 := rfl

@[simp] theorem pushAll_nil (s : ParseState) : s.pushAll [] = s := rfl

@[simp] theorem pushAll_cons (e : PreSymbolicExpression) (exprs : List PreSymbolicExpression)
    (s : ParseState) : s.pushAll (e :: exprs) = (s.push e).pushAll exprs := rfl

theorem pushAll_top (exprs out : List PreSymbolicExpression) :
    (⟨[], out⟩ : ParseState).pushAll exprs = ⟨[], out ++ exprs⟩ := by
  induction exprs generalizing out with
  | nil => simp
  | cons e exprs ih => simp [push, ih]

theorem pushAll_group (exprs list : List PreSymbolicExpression) (ctx : ParseContext)
    (rest : List (List PreSymbolicExpression × ParseContext)) (out : List PreSymbolicExpression) :
    (⟨(list, ctx) :: rest, out⟩ : ParseState).pushAll exprs = ⟨(list ++ exprs, ctx) :: rest, out⟩ := by
  induction exprs generalizing list with
  | nil => simp
  | cons e exprs ih => simp [push, ih]

end ParseState

open ParseContext ParseState

/-- One token of the loop of `parse_lexed`. -/
def parseLexedStep (s : ParseState) : LexItem → Except ParseErrors ParseState
  | .leftParen => .ok (s.openGroup .collectList)
  | .rightParen =>
    match s.parseStack with
    | (value, .collectList) :: rest => .ok ((⟨rest, s.outputList⟩ : ParseState).push (.list value 0))
    | (_, .collectTuple) :: _ => .error .closingTupleLiteralExpected
    | [] => .error .closingParenthesisUnexpected
  | .leftCurly => .ok (s.openGroup .collectTuple)
  | .rightCurly =>
    match s.parseStack with
    | (value, .collectTuple) :: rest => .ok ((⟨rest, s.outputList⟩ : ParseState).push (.tuple value 0))
    | (_, .collectList) :: _ => .error .closingParenthesisExpected
    | [] => .error .closingTupleLiteralUnexpected
  | .variable value =>
    match ClarityName.tryFrom value with
    | some name => .ok (s.push (.atom name 0))
    | none => .error (.illegalVariableName value)
  | .literalValue value => .ok (s.push (.atomValue value 0))
  | .sugaredContractIdentifier name => .ok (s.push (.sugaredContractIdentifier name 0))
  | .sugaredFieldIdentifier contractName name => .ok (s.push (.sugaredFieldIdentifier contractName name 0))
  | .fieldIdentifier traitIdentifier => .ok (s.push (.fieldIdentifier traitIdentifier 0))
  | .traitReference name => .ok (s.push (.traitReference name 0))
  | .colonSeparator =>
    match s.parseStack with
    | [] => .error .colonSeparatorUnexpected
    | (list, .collectTuple) :: _ =>
      if list.length % 2 == 0 then .error .colonSeparatorUnexpected else .ok s
    | (_, .collectList) :: _ => .error .colonSeparatorUnexpected
  | .commaSeparator =>
    match s.parseStack with
    | [] => .error .commaSeparatorUnexpected
    | (list, .collectTuple) :: _ =>
      if list.length == 0 || list.length % 2 == 1 then .error .commaSeparatorUnexpected else .ok s
    | (_, .collectList) :: _ => .error .commaSeparatorUnexpected
  | .whitespace => .ok s

/-- `parse_lexed`: the loop, then `ClosingParenthesisExpected` if a group is
still open. -/
def parseLexed (input : List LexItem) : Except ParseErrors (List PreSymbolicExpression) := do
  let s ← input.foldlM parseLexedStep ⟨[], []⟩
  if s.parseStack.length > 0 then .error .closingParenthesisExpected else .ok s.outputList

/-! ## The grammar -/

/-- A token that is one item by itself, and the pre-expression it becomes. A
`Variable` is one only if its name is a legal `ClarityName`. -/
inductive AtomItem : LexItem → PreSymbolicExpression → Prop where
  | literalValue (value : Value) : AtomItem (.literalValue value) (.atomValue value 0)
  | variable (name : ClarityName) : AtomItem (.variable name.bytes) (.atom name 0)
  | sugaredContractIdentifier (name : ContractName) :
      AtomItem (.sugaredContractIdentifier name) (.sugaredContractIdentifier name 0)
  | sugaredFieldIdentifier (contractName : ContractName) (name : ClarityName) :
      AtomItem (.sugaredFieldIdentifier contractName name) (.sugaredFieldIdentifier contractName name 0)
  | fieldIdentifier (traitIdentifier : TraitIdentifier) :
      AtomItem (.fieldIdentifier traitIdentifier) (.fieldIdentifier traitIdentifier 0)
  | traitReference (name : ClarityName) : AtomItem (.traitReference name) (.traitReference name 0)

/-- `Items ctx n ts exprs`: `ts` is the rest of a group of kind `ctx` (`none`
at the top level) that holds `n` items so far, and `exprs` are the items it
adds. Brackets match and nest; whitespace goes anywhere; a colon stands only in
a tuple after an odd number of items, a comma only in a tuple after a non-zero
even number. -/
inductive Items : Option ParseContext → Nat → List LexItem → List PreSymbolicExpression → Prop where
  | nil {ctx n} : Items ctx n [] []
  | whitespace {ctx n ts exprs} : Items ctx n ts exprs → Items ctx n (.whitespace :: ts) exprs
  | colon {n ts exprs} : n % 2 = 1 → Items (some .collectTuple) n ts exprs →
      Items (some .collectTuple) n (.colonSeparator :: ts) exprs
  | comma {n ts exprs} : n ≠ 0 → n % 2 = 0 → Items (some .collectTuple) n ts exprs →
      Items (some .collectTuple) n (.commaSeparator :: ts) exprs
  | atom {ctx n t e ts exprs} : AtomItem t e → Items ctx (n + 1) ts exprs →
      Items ctx n (t :: ts) (e :: exprs)
  | group {ctx n ts exprs} (inner : ParseContext) {body xs} : Items (some inner) 0 body xs →
      Items ctx (n + 1) ts exprs →
      Items ctx n (inner.opener :: body ++ inner.closer :: ts) (inner.close xs :: exprs)

/-! ## What one step does -/

/-- What a successful step of `parse_lexed` does to the state. -/
inductive StepEffect : ParseState → LexItem → ParseState → Prop where
  | whitespace (s : ParseState) : StepEffect s .whitespace s
  | colon {list rest out} : list.length % 2 = 1 →
      StepEffect ⟨(list, .collectTuple) :: rest, out⟩ .colonSeparator ⟨(list, .collectTuple) :: rest, out⟩
  | comma {list rest out} : list.length ≠ 0 → list.length % 2 = 0 →
      StepEffect ⟨(list, .collectTuple) :: rest, out⟩ .commaSeparator ⟨(list, .collectTuple) :: rest, out⟩
  | atom {s t e} : AtomItem t e → StepEffect s t (s.push e)
  | openGroup (ctx : ParseContext) (s : ParseState) : StepEffect s ctx.opener (s.openGroup ctx)
  | closeGroup (ctx : ParseContext) {list rest out} :
      StepEffect ⟨(list, ctx) :: rest, out⟩ ctx.closer ((⟨rest, out⟩ : ParseState).push (ctx.close list))

theorem parseLexedStep_effect {s s' : ParseState} {t : LexItem} (h : parseLexedStep s t = .ok s') :
    StepEffect s t s' := by
  rcases s with ⟨stack, out⟩
  cases t with
  | leftParen => cases h; exact .openGroup .collectList _
  | leftCurly => cases h; exact .openGroup .collectTuple _
  | rightParen =>
    rcases stack with _ | ⟨⟨list, _ | _⟩, rest⟩ <;> simp only [parseLexedStep] at h <;> cases h
    exact .closeGroup .collectList
  | rightCurly =>
    rcases stack with _ | ⟨⟨list, _ | _⟩, rest⟩ <;> simp only [parseLexedStep] at h <;> cases h
    exact .closeGroup .collectTuple
  | «variable» value =>
    simp only [parseLexedStep] at h
    split at h
    · rename_i name hname
      cases h
      rw [← ClarityName.tryFrom_eq_some hname]
      exact .atom (.variable name)
    · cases h
  | literalValue value => cases h; exact .atom (.literalValue value)
  | sugaredContractIdentifier name => cases h; exact .atom (.sugaredContractIdentifier name)
  | sugaredFieldIdentifier contractName name => cases h; exact .atom (.sugaredFieldIdentifier contractName name)
  | fieldIdentifier traitIdentifier => cases h; exact .atom (.fieldIdentifier traitIdentifier)
  | traitReference name => cases h; exact .atom (.traitReference name)
  | colonSeparator =>
    rcases stack with _ | ⟨⟨list, _ | _⟩, rest⟩ <;> simp only [parseLexedStep] at h <;> try cases h
    split at h
    · cases h
    · cases h
      exact .colon (by simpa using ‹¬(list.length % 2 == 0) = true›)
  | commaSeparator =>
    rcases stack with _ | ⟨⟨list, _ | _⟩, rest⟩ <;> simp only [parseLexedStep] at h <;> try cases h
    split at h
    · cases h
    · rename_i hsep
      cases h
      simp only [Bool.or_eq_true, beq_iff_eq, not_or] at hsep
      exact .comma (by simpa using hsep.1) (by omega)
  | whitespace => cases h; exact .whitespace _

theorem AtomItem.step {t : LexItem} {e : PreSymbolicExpression} (h : AtomItem t e) (s : ParseState) :
    parseLexedStep s t = .ok (s.push e) := by
  cases h <;> simp [parseLexedStep]

theorem StepEffect.step {s s' : ParseState} {t : LexItem} (h : StepEffect s t s') :
    parseLexedStep s t = .ok s' := by
  cases h with
  | whitespace => rfl
  | colon hodd => simp [parseLexedStep, hodd]
  | comma hne heven => simp [parseLexedStep, hne, heven]
  | atom hatom => exact hatom.step _
  | openGroup ctx => cases ctx <;> rfl
  | closeGroup ctx => cases ctx <;> rfl

/-! ## Completeness: the machine runs along every derivation -/

theorem foldlM_parseLexedStep_cons (s : ParseState) (t : LexItem) (ts : List LexItem) :
    (t :: ts).foldlM parseLexedStep s = (parseLexedStep s t >>= fun s => ts.foldlM parseLexedStep s) := by
  simp [List.foldlM_cons]

/-- From every state whose innermost group is of the derivation's kind and
holds its number of items, the machine runs through the derived tokens and
pushes the derived items. -/
theorem Items.run {ctx : Option ParseContext} {n : Nat} {ts : List LexItem}
    {exprs : List PreSymbolicExpression} (h : Items ctx n ts exprs) :
    ∀ s : ParseState, s.innerContext = ctx → s.innerCount = n →
      ts.foldlM parseLexedStep s = .ok (s.pushAll exprs) := by
  induction h with
  | nil => intro s _ _; rfl
  | whitespace _ ih =>
    intro s hctx hn
    rw [foldlM_parseLexedStep_cons, (StepEffect.whitespace s).step]
    exact ih s hctx hn
  | colon hodd _ ih =>
    intro s hctx hn
    rcases s with ⟨_ | ⟨⟨list, _ | _⟩, rest⟩, out⟩ <;> simp [innerContext] at hctx
    simp only [innerCount] at hn
    subst hn
    rw [foldlM_parseLexedStep_cons, (StepEffect.colon hodd).step]
    exact ih _ rfl rfl
  | comma hne heven _ ih =>
    intro s hctx hn
    rcases s with ⟨_ | ⟨⟨list, _ | _⟩, rest⟩, out⟩ <;> simp [innerContext] at hctx
    simp only [innerCount] at hn
    subst hn
    rw [foldlM_parseLexedStep_cons, (StepEffect.comma hne heven).step]
    exact ih _ rfl rfl
  | atom hatom _ ih =>
    intro s hctx hn
    rw [foldlM_parseLexedStep_cons, hatom.step s]
    exact ih _ (by simp [hctx]) (by simp [hn])
  | group inner _ _ ihbody ihrest =>
    rename_i xs
    intro s hctx hn
    rcases s with ⟨stack, out⟩
    -- the group's body runs from the opened group, which then holds `xs`
    have hbody := ihbody ((⟨stack, out⟩ : ParseState).openGroup inner) rfl rfl
    rw [openGroup, pushAll_group, List.nil_append] at hbody
    rw [List.cons_append, foldlM_parseLexedStep_cons, (StepEffect.openGroup inner _).step]
    simp only [bind, Except.bind, List.foldlM_append, openGroup, hbody, foldlM_parseLexedStep_cons,
      (StepEffect.closeGroup inner).step]
    exact ihrest _ (by simp [hctx]) (by simp [hn])

/-! ## Soundness: every run is along a derivation -/

/-- `Completes s ts final`: from the state `s`, the tokens `ts` close every
open group and end the parse with the output `final`. Each open group,
innermost first, takes the rest of its body and its closing bracket; the top
level takes the rest. -/
inductive Completes : ParseState → List LexItem → List PreSymbolicExpression → Prop where
  | top {out ts exprs} : Items none out.length ts exprs → Completes ⟨[], out⟩ ts (out ++ exprs)
  | group {list ctx rest out body xs ts final} : Items (some ctx) list.length body xs →
      Completes ((⟨rest, out⟩ : ParseState).push (ctx.close (list ++ xs))) ts final →
      Completes ⟨(list, ctx) :: rest, out⟩ (body ++ ctx.closer :: ts) final

/-- Tokens that the innermost group's grammar takes without a new item can be
put in front. -/
theorem Completes.prepend_separator {s : ParseState} {ts : List LexItem} {final : List PreSymbolicExpression}
    (t : LexItem) (hsep : ∀ ts exprs, Items s.innerContext s.innerCount ts exprs →
      Items s.innerContext s.innerCount (t :: ts) exprs)
    (h : Completes s ts final) : Completes s (t :: ts) final := by
  cases h with
  | top hitems => exact .top (hsep _ _ hitems)
  | group hbody hrest =>
    rw [← List.cons_append]
    exact .group (hsep _ _ hbody) hrest

/-- Tokens that the grammar takes as one item `e` can be put in front of a run
from the state with `e` pushed. -/
theorem Completes.prepend_item {s : ParseState} {ts : List LexItem} {final : List PreSymbolicExpression}
    {e : PreSymbolicExpression} (pre : List LexItem)
    (hitem : ∀ ctx n ts exprs, Items ctx (n + 1) ts exprs → Items ctx n (pre ++ ts) (e :: exprs))
    (h : Completes (s.push e) ts final) : Completes s (pre ++ ts) final := by
  rcases s with ⟨_ | ⟨⟨list, ctx⟩, rest⟩, out⟩
  · simp only [push] at h
    cases h with
    | top hitems =>
      rw [List.append_assoc, List.singleton_append]
      exact .top (hitem _ _ _ _ (by simpa using hitems))
  · simp only [push] at h
    cases h with
    | group hbody hrest =>
      rw [← List.append_assoc]
      refine .group (hitem _ _ _ _ (by simpa using hbody)) ?_
      simpa using hrest

/-- One step back along a run: a step's token can be put in front. -/
theorem StepEffect.completes {s s' : ParseState} {t : LexItem} {ts : List LexItem}
    {final : List PreSymbolicExpression} (he : StepEffect s t s') (h : Completes s' ts final) :
    Completes s (t :: ts) final := by
  cases he with
  | whitespace => exact h.prepend_separator _ fun _ _ => .whitespace
  | colon hodd => exact h.prepend_separator _ fun _ _ => .colon hodd
  | comma hne heven => exact h.prepend_separator _ fun _ _ => .comma hne heven
  | atom hatom => exact h.prepend_item [t] fun _ _ _ _ => .atom hatom
  | openGroup ctx s =>
    -- the opened group is the innermost one, so the run closes it first
    cases h with
    | group hbody hrest =>
      have hitem := Completes.prepend_item (s := s) (ctx.opener :: _ ++ [ctx.closer])
        (fun _ _ _ _ hrest => by simpa using Items.group ctx hbody hrest) (by simpa using hrest)
      simpa using hitem
  | closeGroup ctx =>
    rw [← List.nil_append (ctx.closer :: ts)]
    exact .group .nil (by simpa using h)

/-- Every run that ends with no open group is along a derivation. -/
theorem completes_of_foldlM (ts : List LexItem) :
    ∀ s s' : ParseState, ts.foldlM parseLexedStep s = .ok s' → s'.parseStack = [] →
      Completes s ts s'.outputList := by
  induction ts with
  | nil =>
    intro s s' h hempty
    cases h
    rcases s with ⟨_ | _, out⟩
    · simpa using Completes.top (Items.nil : Items none out.length [] [])
    · cases hempty
  | cons t ts ih =>
    intro s s' h hempty
    rw [foldlM_parseLexedStep_cons] at h
    cases hstep : parseLexedStep s t with
    | error err => rw [hstep] at h; cases h
    | ok s₁ =>
      rw [hstep] at h
      exact (parseLexedStep_effect hstep).completes (ih s₁ s' h hempty)

/-- `parse_lexed` accepts exactly the token streams of the grammar, and builds
the forest the derivation gives. -/
theorem parseLexed_eq_ok_iff (input : List LexItem) (exprs : List PreSymbolicExpression) :
    parseLexed input = .ok exprs ↔ Items none 0 input exprs := by
  constructor
  · intro h
    simp only [parseLexed, bind, Except.bind] at h
    split at h
    · cases h
    · rename_i s hrun
      split at h
      · cases h
      · rename_i hopen
        cases h
        have hempty : s.parseStack = [] := List.eq_nil_of_length_eq_zero (by omega)
        cases completes_of_foldlM input _ s hrun hempty with
        | top hitems => simpa using hitems
  · intro h
    have hrun := h.run ⟨[], []⟩ rfl rfl
    rw [pushAll_top, List.nil_append] at hrun
    simp [parseLexed, hrun]

/-! ## Flattening -/

/-- Whitespace, colons and commas: the tokens that leave no trace in the
output. -/
def LexItem.isSeparator : LexItem → Bool
  | .whitespace | .colonSeparator | .commaSeparator => true
  | _ => false

namespace PreSymbolicExpression

mutual

/-- The tokens an expression is written as, each list as `( .. )` and each
tuple literal as `{ .. }`. -/
def tokens : PreSymbolicExpression → List LexItem
  | atomValue value _ => [.literalValue value]
  | atom name _ => [.variable name.bytes]
  | list exprs _ => .leftParen :: forestTokens exprs ++ [.rightParen]
  | tuple exprs _ => .leftCurly :: forestTokens exprs ++ [.rightCurly]
  | sugaredContractIdentifier name _ => [.sugaredContractIdentifier name]
  | sugaredFieldIdentifier contractName name _ => [.sugaredFieldIdentifier contractName name]
  | fieldIdentifier traitIdentifier _ => [.fieldIdentifier traitIdentifier]
  | traitReference name _ => [.traitReference name]

def forestTokens : List PreSymbolicExpression → List LexItem
  | [] => []
  | e :: exprs => tokens e ++ forestTokens exprs

end

@[simp] theorem forestTokens_nil : forestTokens [] = [] := by
  rw [forestTokens]

@[simp] theorem forestTokens_cons (e : PreSymbolicExpression) (exprs : List PreSymbolicExpression) :
    forestTokens (e :: exprs) = e.tokens ++ forestTokens exprs := by
  rw [forestTokens]

theorem tokens_close (ctx : ParseContext) (exprs : List PreSymbolicExpression) :
    (ctx.close exprs).tokens = ctx.opener :: forestTokens exprs ++ [ctx.closer] := by
  cases ctx <;> simp [ParseContext.close, ParseContext.opener, ParseContext.closer, tokens]

end PreSymbolicExpression

theorem AtomItem.tokens {t : LexItem} {e : PreSymbolicExpression} (h : AtomItem t e) :
    e.tokens = [t] ∧ t.isSeparator = false := by
  cases h <;> simp [PreSymbolicExpression.tokens, LexItem.isSeparator]

/-- A derivation's items, written out, are its tokens without the separators. -/
theorem Items.forestTokens {ctx : Option ParseContext} {n : Nat} {ts : List LexItem}
    {exprs : List PreSymbolicExpression} (h : Items ctx n ts exprs) :
    PreSymbolicExpression.forestTokens exprs = ts.filter fun t => !t.isSeparator := by
  induction h with
  | nil => rfl
  | whitespace _ ih | colon _ _ ih | comma _ _ _ ih => simp [LexItem.isSeparator, ih]
  | atom hatom _ ih =>
    obtain ⟨htokens, hsep⟩ := hatom.tokens
    simp [htokens, hsep, ih]
  | group inner _ _ ihbody ihrest =>
    have hopen : inner.opener.isSeparator = false := by cases inner <;> rfl
    have hclose : inner.closer.isSeparator = false := by cases inner <;> rfl
    simp [PreSymbolicExpression.tokens_close, ihbody, ihrest, hopen, hclose]

open PreSymbolicExpression in
mutual

/-- An expression the parser could have built (every id still 0), written
out, is one item of the grammar. -/
theorem Items.of_tokens : ∀ e : PreSymbolicExpression, (∀ i ∈ e.nodeIds, i = 0) →
    ∀ {ctx n ts exprs}, Items ctx (n + 1) ts exprs → Items ctx n (e.tokens ++ ts) (e :: exprs)
  | .atomValue value nid, h, _, _, _, _, hts => by
    obtain rfl : nid = 0 := h nid (by simp [nodeIds, PreSymbolicExpression.id])
    exact .atom (.literalValue value) hts
  | .atom name nid, h, _, _, _, _, hts => by
    obtain rfl : nid = 0 := h nid (by simp [nodeIds, PreSymbolicExpression.id])
    exact .atom (.variable name) hts
  | .list xs nid, h, _, _, _, _, hts => by
    obtain rfl : nid = 0 := h nid (by simp [nodeIds])
    have hxs := Items.of_forestTokens xs (fun i hi => h i (by simp [nodeIds, hi]))
      (Items.nil : Items (some .collectList) (0 + xs.length) [] [])
    simpa [PreSymbolicExpression.tokens, opener, closer, ParseContext.close] using Items.group .collectList (by simpa using hxs) hts
  | .tuple xs nid, h, _, _, _, _, hts => by
    obtain rfl : nid = 0 := h nid (by simp [nodeIds])
    have hxs := Items.of_forestTokens xs (fun i hi => h i (by simp [nodeIds, hi]))
      (Items.nil : Items (some .collectTuple) (0 + xs.length) [] [])
    simpa [PreSymbolicExpression.tokens, opener, closer, ParseContext.close] using Items.group .collectTuple (by simpa using hxs) hts
  | .sugaredContractIdentifier name nid, h, _, _, _, _, hts => by
    obtain rfl : nid = 0 := h nid (by simp [nodeIds, PreSymbolicExpression.id])
    exact .atom (.sugaredContractIdentifier name) hts
  | .sugaredFieldIdentifier contractName name nid, h, _, _, _, _, hts => by
    obtain rfl : nid = 0 := h nid (by simp [nodeIds, PreSymbolicExpression.id])
    exact .atom (.sugaredFieldIdentifier contractName name) hts
  | .fieldIdentifier traitIdentifier nid, h, _, _, _, _, hts => by
    obtain rfl : nid = 0 := h nid (by simp [nodeIds, PreSymbolicExpression.id])
    exact .atom (.fieldIdentifier traitIdentifier) hts
  | .traitReference name nid, h, _, _, _, _, hts => by
    obtain rfl : nid = 0 := h nid (by simp [nodeIds, PreSymbolicExpression.id])
    exact .atom (.traitReference name) hts

theorem Items.of_forestTokens : ∀ xs : List PreSymbolicExpression, (∀ i ∈ forestIds xs, i = 0) →
    ∀ {ctx n ts exprs}, Items ctx (n + xs.length) ts exprs →
      Items ctx n (PreSymbolicExpression.forestTokens xs ++ ts) (xs ++ exprs)
  | [], _, _, _, _, _, hts => by simpa using hts
  | e :: rest, h, _, n, _, _, hts => by
    have hrest := Items.of_forestTokens rest (fun i hi => h i (by simp [forestIds, hi]))
      (n := n + 1) (by simpa [Nat.add_assoc, Nat.add_comm 1] using hts)
    simpa using Items.of_tokens e (fun i hi => h i (by simp [forestIds, hi])) hrest

end

/-- Parsing what a forest is written as gives the forest back, for every
forest the parser could have built. -/
theorem parseLexed_forestTokens (exprs : List PreSymbolicExpression)
    (h : ∀ i ∈ PreSymbolicExpression.forestIds exprs, i = 0) :
    parseLexed (PreSymbolicExpression.forestTokens exprs) = .ok exprs := by
  have hitems := Items.of_forestTokens exprs h (Items.nil : Items none (0 + exprs.length) [] [])
  rw [List.append_nil, List.append_nil] at hitems
  exact (parseLexed_eq_ok_iff _ _).mpr hitems

/-- `(tuple (a 1))` as the parser builds it, every id still zero. -/
theorem parseLexed_forestTokens_tuple :
    (∀ i ∈ PreSymbolicExpression.forestIds [.tuple [.atom ⟨[97], by decide⟩ 0, .atomValue (.int 1) 0] 0],
      i = 0) ∧
    parseLexed (PreSymbolicExpression.forestTokens [.tuple [.atom ⟨[97], by decide⟩ 0, .atomValue (.int 1) 0] 0]) =
      .ok [.tuple [.atom ⟨[97], by decide⟩ 0, .atomValue (.int 1) 0] 0] := by
  have h : ∀ i ∈ PreSymbolicExpression.forestIds
      [.tuple [.atom ⟨[97], by decide⟩ 0, .atomValue (.int 1) 0] 0], i = 0 := by
    decide
  exact ⟨h, parseLexed_forestTokens _ h⟩

/-- `parse_lexed` accepts exactly the token streams the grammar `Items`
derives, and the forest it returns, written out with its brackets, is the input
without whitespace, colons and commas. -/
theorem parseLexed_accepts_items (input : List LexItem) (exprs : List PreSymbolicExpression) :
    (parseLexed input = .ok exprs ↔ Items none 0 input exprs) ∧
    (parseLexed input = .ok exprs →
      PreSymbolicExpression.forestTokens exprs = input.filter fun t => !t.isSeparator) := by
  refine ⟨parseLexed_eq_ok_iff input exprs, fun h => ?_⟩
  exact ((parseLexed_eq_ok_iff input exprs).mp h).forestTokens

/-- `(_x)`: balanced, with no separator, and rejected, since the lexer's
`Variable` takes `_x`, which is no `ClarityName`. -/
theorem parseLexed_rejects_illegal_variable :
    parseLexed [.leftParen, .variable [95, 120], .rightParen] = .error (.illegalVariableName [95, 120]) := by
  rfl

end Ast

end BlockstackCore
