import BlockstackCore.Vm.Types.Value
import BlockstackCore.Library.KeyedFold

/-!
# Asset maps

`AssetMap` (`vm/contexts.rs`) records, for one open level of a transaction,
the STX sent and burned by each principal, the fungible-token amounts they
sent, and the non-fungible tokens they transferred. Amounts are `u128`, kept
as `Nat` with `checked_add` as `checkedAdd 128`; an overflow is the runtime
error `ArithmeticOverflow`.

`commit_other` merges a nested level's map into the level below. It first
computes every new amount, failing on the first overflow, and only then
writes them, so a failed merge leaves the map unchanged. Its loops
`drain()` hash maps in an unspecified order, modelled as `toList`.
-/

namespace BlockstackCore

open ByteCodec

structure AssetMap where
  stxMap : Std.HashMap PrincipalData Nat
  burnMap : Std.HashMap PrincipalData Nat
  tokenMap : Std.HashMap PrincipalData (Std.HashMap AssetIdentifier Nat)
  assetMap : Std.HashMap PrincipalData (Std.HashMap AssetIdentifier (List Value))

namespace AssetMap

def new : AssetMap := ⟨∅, ∅, ∅, ∅⟩

/-- `current_amount.checked_add(amount).ok_or(ArithmeticOverflow)` on `u128`:
the step shared by the three `get_next_*` functions. -/
def nextAmount (currentAmount amount : Nat) : Except ClarityError Nat :=
  match checkedAdd 128 currentAmount amount with
  | some next => .ok next
  | none => .error (.runtime .arithmeticOverflow)

def getNextStxAmount (self : AssetMap) (principal : PrincipalData) (amount : Nat) :
    Except ClarityError Nat :=
  nextAmount (self.stxMap.getD principal 0) amount

def getNextStxBurnAmount (self : AssetMap) (principal : PrincipalData) (amount : Nat) :
    Except ClarityError Nat :=
  nextAmount (self.burnMap.getD principal 0) amount

def getNextAmount (self : AssetMap) (principal : PrincipalData) (asset : AssetIdentifier)
    (amount : Nat) : Except ClarityError Nat :=
  let currentAmount := match self.tokenMap[principal]? with
    | some principalMap => principalMap.getD asset 0
    | none => 0
  nextAmount currentAmount amount

def addStxTransfer (self : AssetMap) (principal : PrincipalData) (amount : Nat) :
    Except ClarityError AssetMap := do
  let next ← self.getNextStxAmount principal amount
  pure { self with stxMap := self.stxMap.insert principal next }

def addStxBurn (self : AssetMap) (principal : PrincipalData) (amount : Nat) :
    Except ClarityError AssetMap := do
  let next ← self.getNextStxBurnAmount principal amount
  pure { self with burnMap := self.burnMap.insert principal next }

/-- Append `transfers` to the list of `(principal, asset)`, creating the
principal's map and the asset's list when they are missing. -/
def appendTransfers (assetMap : Std.HashMap PrincipalData (Std.HashMap AssetIdentifier (List Value)))
    (principal : PrincipalData) (asset : AssetIdentifier) (transfers : List Value) :
    Std.HashMap PrincipalData (Std.HashMap AssetIdentifier (List Value)) :=
  let assetMap := if !assetMap.contains principal then assetMap.insert principal ∅ else assetMap
  assetMap.modify principal fun principalMap =>
    if principalMap.contains asset then principalMap.modify asset (· ++ transfers)
    else principalMap.insert asset transfers

/-- Set the amount of `(principal, asset)`, creating the principal's map
when it is missing. -/
def setTokenAmount (tokenMap : Std.HashMap PrincipalData (Std.HashMap AssetIdentifier Nat))
    (principal : PrincipalData) (asset : AssetIdentifier) (amount : Nat) :
    Std.HashMap PrincipalData (Std.HashMap AssetIdentifier Nat) :=
  let tokenMap := if !tokenMap.contains principal then tokenMap.insert principal ∅ else tokenMap
  tokenMap.modify principal fun principalMap => principalMap.insert asset amount

def addAssetTransfer (self : AssetMap) (principal : PrincipalData) (asset : AssetIdentifier)
    (transfered : Value) : AssetMap :=
  { self with assetMap := appendTransfers self.assetMap principal asset [transfered] }

def addTokenTransfer (self : AssetMap) (principal : PrincipalData) (asset : AssetIdentifier)
    (amount : Nat) : Except ClarityError AssetMap := do
  let next ← self.getNextAmount principal asset amount
  pure { self with tokenMap := setTokenAmount self.tokenMap principal asset next }

/-- The entries of a map of maps, principal by principal. -/
def flatEntries {β : Type} (m : Std.HashMap PrincipalData (Std.HashMap AssetIdentifier β)) :
    List (PrincipalData × AssetIdentifier × β) :=
  m.toList.flatMap fun (principal, principalMap) =>
    principalMap.toList.map fun (asset, b) => (principal, asset, b)

def commitOther (self other : AssetMap) : Except ClarityError AssetMap := do
  let toAdd ← (flatEntries other.tokenMap).mapM fun (principal, asset, amount) => do
    let next ← self.getNextAmount principal asset amount
    pure (principal, asset, next)
  let stxToAdd ← other.stxMap.toList.mapM fun (principal, stxAmount) => do
    let next ← self.getNextStxAmount principal stxAmount
    pure (principal, next)
  let stxBurnToAdd ← other.burnMap.toList.mapM fun (principal, stxBurnAmount) => do
    let next ← self.getNextStxBurnAmount principal stxBurnAmount
    pure (principal, next)
  -- After this point, this function will not fail.
  let assetMap := (flatEntries other.assetMap).foldl
    (fun m (principal, asset, transfers) => appendTransfers m principal asset transfers) self.assetMap
  let stxMap := stxToAdd.foldl (fun m (principal, stxAmount) => m.insert principal stxAmount)
    self.stxMap
  let burnMap := stxBurnToAdd.foldl
    (fun m (principal, stxBurnAmount) => m.insert principal stxBurnAmount) self.burnMap
  let tokenMap := toAdd.foldl
    (fun m (principal, asset, amount) => setTokenAmount m principal asset amount) self.tokenMap
  pure { stxMap, burnMap, tokenMap, assetMap }

def getStx (self : AssetMap) (principal : PrincipalData) : Option Nat := self.stxMap[principal]?

def getStxBurned (self : AssetMap) (principal : PrincipalData) : Option Nat :=
  self.burnMap[principal]?

/-- `get_stx_burned_total`: the sum of the burns, which `expect`s no overflow
("BURN OVERFLOW"); `none` is that panic. -/
def getStxBurnedTotal (self : AssetMap) : Option Nat :=
  self.burnMap.keys.foldlM (fun total principal => checkedAdd 128 total (self.burnMap.getD principal 0)) 0

def getFungibleTokens (self : AssetMap) (principal : PrincipalData) (asset : AssetIdentifier) :
    Option Nat :=
  self.tokenMap[principal]? >>= fun assets => assets[asset]?

def getNonfungibleTokens (self : AssetMap) (principal : PrincipalData) (asset : AssetIdentifier) :
    Option (List Value) :=
  self.assetMap[principal]? >>= fun assets => assets[asset]?

/-! ## `commit_other` -/

section Commit

open KeyedFold

/-- A map of maps read at a principal and an asset. -/
def lookup2 {β : Type} (m : Std.HashMap PrincipalData (Std.HashMap AssetIdentifier β))
    (k : PrincipalData × AssetIdentifier) : Option β :=
  m[k.1]? >>= fun inner => inner[k.2]?

/-- The entries of a map of maps, keyed by the pair of principal and asset. -/
def flatPairs {β : Type} (m : Std.HashMap PrincipalData (Std.HashMap AssetIdentifier β)) :
    List ((PrincipalData × AssetIdentifier) × β) :=
  (flatEntries m).map fun (principal, asset, b) => ((principal, asset), b)

/-- An entry of `other` whose sum with `self` does not fit in a `u128`. -/
def CommitOverflows (self other : AssetMap) : Prop :=
  (∃ p x, other.getStx p = some x ∧ 2 ^ 128 ≤ (self.getStx p).getD 0 + x) ∨
  (∃ p x, other.getStxBurned p = some x ∧ 2 ^ 128 ≤ (self.getStxBurned p).getD 0 + x) ∨
  (∃ p asset x, other.getFungibleTokens p asset = some x ∧
    2 ^ 128 ≤ (self.getFungibleTokens p asset).getD 0 + x)

theorem nextAmount_eq (currentAmount amount : Nat) :
    nextAmount currentAmount amount =
      if currentAmount + amount < 2 ^ 128 then .ok (currentAmount + amount)
      else .error (.runtime .arithmeticOverflow) := by
  unfold nextAmount checkedAdd
  split_ifs <;> rfl

theorem lookup2_eq {β : Type} (m : Std.HashMap PrincipalData (Std.HashMap AssetIdentifier β))
    (k : PrincipalData × AssetIdentifier) : lookup2 m k = (m[k.1]?.getD ∅)[k.2]? := by
  cases h : m[k.1]? <;> simp [lookup2, h]

/-- The amount `get_next_amount` starts from is the one the map records. -/
theorem getNextAmount_eq (self : AssetMap) (principal : PrincipalData) (asset : AssetIdentifier)
    (amount : Nat) : self.getNextAmount principal asset amount =
      nextAmount ((lookup2 self.tokenMap (principal, asset)).getD 0) amount := by
  unfold getNextAmount
  cases h : self.tokenMap[principal]? <;> simp [lookup2, h, Std.HashMap.getD_eq_getD_getElem?]

/-- The map after `if !m.contains_key(p) { m.insert(p, HashMap::new()) }`. -/
theorem getElem?_ensure {β : Type} (m : Std.HashMap PrincipalData (Std.HashMap AssetIdentifier β))
    (p p' : PrincipalData) :
    (if !m.contains p then m.insert p ∅ else m)[p']? = if p = p' then some (m[p]?.getD ∅) else m[p']? := by
  by_cases hp : p = p'
  · subst hp
    by_cases hmem : p ∈ m <;> simp [hmem]
  · by_cases hmem : p ∈ m
    · simp [hmem, hp]
    · simp [hmem, hp, Std.HashMap.getElem?_insert]

theorem getUpd_insert {κ β : Type} [DecidableEq κ] [Hashable κ] :
    GetUpd (fun (m : Std.HashMap κ β) k => m[k]?) (fun m k v => m.insert k v) (fun _ v => some v) := by
  intro m k v k'
  simp only [Std.HashMap.getElem?_insert, beq_iff_eq]

theorem getUpd_setTokenAmount :
    GetUpd lookup2 (fun tm k v => setTokenAmount tm k.1 k.2 v) (fun _ v => some v) := by
  rintro tm ⟨p, a⟩ x ⟨p', a'⟩
  simp only [lookup2_eq, setTokenAmount, Std.HashMap.getElem?_modify, beq_iff_eq, getElem?_ensure]
  by_cases hp : p = p'
  · subst hp
    by_cases ha : a = a' <;> simp [ha, Std.HashMap.getElem?_insert]
  · simp [hp]

theorem getUpd_appendTransfers :
    GetUpd lookup2 (fun am k v => appendTransfers am k.1 k.2 v) (fun o v => some (o.getD [] ++ v)) := by
  rintro am ⟨p, a⟩ t ⟨p', a'⟩
  simp only [lookup2_eq, appendTransfers, Std.HashMap.getElem?_modify, beq_iff_eq, getElem?_ensure]
  by_cases hp : p = p'
  · subst hp
    -- the asset's list is appended to if it is there, and made otherwise
    by_cases hin : a ∈ am[p]?.getD ∅
    · by_cases ha : a = a'
      · subst ha
        simp [hin]
      · simp [hin, ha, Std.HashMap.getElem?_modify]
    · by_cases ha : a = a'
      · subst ha
        simp [hin]
      · simp [hin, ha, Std.HashMap.getElem?_insert]
  · simp [hp]

theorem mem_toList_keys {κ β : Type} [DecidableEq κ] [Hashable κ] (m : Std.HashMap κ β) :
    (m.toList.map Prod.fst).Nodup := by
  have h := Std.HashMap.distinct_keys_toList (m := m)
  exact List.pairwise_map.mpr (h.imp fun hab heq => by simp [heq] at hab)

theorem mem_flatPairs {β : Type} (m : Std.HashMap PrincipalData (Std.HashMap AssetIdentifier β))
    (k : PrincipalData × AssetIdentifier) (b : β) : (k, b) ∈ flatPairs m ↔ lookup2 m k = some b := by
  rcases k with ⟨p, a⟩
  simp [flatPairs, flatEntries, lookup2, Option.bind_eq_some_iff]

theorem flatPairs_keys {β : Type} (m : Std.HashMap PrincipalData (Std.HashMap AssetIdentifier β)) :
    ((flatPairs m).map Prod.fst).Nodup := by
  simp only [flatPairs, flatEntries, List.map_flatMap, List.map_map]
  apply List.nodup_flatMap.mpr
  constructor
  · -- within one principal, the assets are distinct
    rintro ⟨p, inner⟩ -
    have h := (mem_toList_keys inner).map (f := fun a => (p, a)) fun a b hab => by simpa using hab
    rw [List.map_map] at h
    exact h
  · -- two principals' entries never share a principal
    have h := Std.HashMap.distinct_keys_toList (m := m)
    refine h.imp fun {x y} hxy => ?_
    rw [Function.onFun, List.disjoint_left]
    intro e hx hy
    obtain ⟨⟨a, _⟩, -, rfl⟩ := List.mem_map.mp hx
    obtain ⟨⟨a', _⟩, -, hxy'⟩ := List.mem_map.mp hy
    simp only [Function.comp_apply, Prod.mk.injEq] at hxy'
    simp [hxy'.1] at hxy

/-- The first loops of `commit_other`, on any list: the sums, or the
overflow if one of them does not fit. -/
theorem mapM_nextAmount {ι β : Type} {f : ι → Except ClarityError β} (c x : ι → Nat) (r : ι → Nat → β)
    (hf : ∀ i, f i = (do let next ← nextAmount (c i) (x i); pure (r i next))) :
    ∀ l : List ι, l.mapM f =
      if ∀ i ∈ l, c i + x i < 2 ^ 128 then .ok (l.map fun i => r i (c i + x i))
      else .error (.runtime .arithmeticOverflow)
  | [] => rfl
  | i :: l => by
    rw [List.mapM_cons, hf i, nextAmount_eq, mapM_nextAmount c x r hf l]
    by_cases hi : c i + x i < 2 ^ 128
    · rw [if_pos hi]
      by_cases hl : ∀ j ∈ l, c j + x j < 2 ^ 128
      · have hall : ∀ j ∈ i :: l, c j + x j < 2 ^ 128 := fun j hj =>
          (List.mem_cons.mp hj).elim (fun h => h ▸ hi) (hl j)
        rw [if_pos hl, if_pos hall]
        rfl
      · have hall : ¬∀ j ∈ i :: l, c j + x j < 2 ^ 128 := fun h =>
          hl fun j hj => h j (List.mem_cons_of_mem i hj)
        rw [if_neg hl, if_neg hall]
        rfl
    · have hall : ¬∀ j ∈ i :: l, c j + x j < 2 ^ 128 := fun h => hi (h i List.mem_cons_self)
      rw [if_neg hi, if_neg hall]
      rfl

/-- Adding the amounts of `other` into a store, one per key of `other`:
every key reads the sum, with a missing amount counted as 0. -/
theorem getD_run_sums {σ κ : Type} [DecidableEq κ] {get : σ → κ → Option Nat} {upd : σ → κ → Nat → σ}
    (law : GetUpd get upd fun _ v => some v) (entries : List (κ × Nat)) (hkeys : (entries.map Prod.fst).Nodup)
    (other : κ → Option Nat) (hmem : ∀ k x, (k, x) ∈ entries ↔ other k = some x) (s : σ) (k : κ) :
    (get (run upd s (entries.map fun e => (e.1, (get s e.1).getD 0 + e.2))) k).getD 0 =
      (get s k).getD 0 + (other k).getD 0 := by
  have hkeys' : ((entries.map fun e => (e.1, (get s e.1).getD 0 + e.2)).map Prod.fst).Nodup := by
    simpa [List.map_map, Function.comp_def] using hkeys
  cases hk : other k with
  | none =>
    have hnot : k ∉ (entries.map fun e => (e.1, (get s e.1).getD 0 + e.2)).map Prod.fst := by
      simp only [List.map_map, Function.comp_def, List.mem_map, not_exists, not_and]
      rintro ⟨k', x⟩ he rfl
      simp [(hmem _ _).mp he] at hk
    rw [get_run_of_not_mem law _ _ hnot]
    simp
  | some x =>
    have he : (k, (get s k).getD 0 + x) ∈ entries.map fun e => (e.1, (get s e.1).getD 0 + e.2) :=
      List.mem_map.mpr ⟨(k, x), (hmem k x).mpr hk, rfl⟩
    rw [get_run_of_mem law _ hkeys' _ he]
    simp

/-- `commit_other` exactly: if every sum fits, the merged maps; otherwise
`ArithmeticOverflow`, with nothing written. -/
theorem commitOther_eq (self other : AssetMap) :
    self.commitOther other =
      if (∀ e ∈ flatEntries other.tokenMap, (lookup2 self.tokenMap (e.1, e.2.1)).getD 0 + e.2.2 < 2 ^ 128) ∧
          (∀ e ∈ other.stxMap.toList, self.stxMap[e.1]?.getD 0 + e.2 < 2 ^ 128) ∧
          (∀ e ∈ other.burnMap.toList, self.burnMap[e.1]?.getD 0 + e.2 < 2 ^ 128) then
        .ok { stxMap := run (fun m k v => m.insert k v) self.stxMap
                (other.stxMap.toList.map fun e => (e.1, self.stxMap[e.1]?.getD 0 + e.2))
              burnMap := run (fun m k v => m.insert k v) self.burnMap
                (other.burnMap.toList.map fun e => (e.1, self.burnMap[e.1]?.getD 0 + e.2))
              tokenMap := run (fun tm k v => setTokenAmount tm k.1 k.2 v) self.tokenMap
                ((flatPairs other.tokenMap).map fun e => (e.1, (lookup2 self.tokenMap e.1).getD 0 + e.2))
              assetMap := run (fun am k v => appendTransfers am k.1 k.2 v) self.assetMap
                (flatPairs other.assetMap) }
      else .error (.runtime .arithmeticOverflow) := by
  unfold commitOther
  rw [mapM_nextAmount (fun e => (lookup2 self.tokenMap (e.1, e.2.1)).getD 0) (fun e => e.2.2)
      (fun e n => (e.1, e.2.1, n)) ?tok (flatEntries other.tokenMap),
    mapM_nextAmount (fun e => self.stxMap[e.1]?.getD 0) Prod.snd (fun e n => (e.1, n)) ?stx
      other.stxMap.toList,
    mapM_nextAmount (fun e => self.burnMap[e.1]?.getD 0) Prod.snd (fun e n => (e.1, n)) ?burn
      other.burnMap.toList]
  case tok =>
    rintro ⟨p, a, n⟩
    simp only [getNextAmount_eq]
  case stx =>
    rintro ⟨p, n⟩
    simp only [getNextStxAmount, Std.HashMap.getD_eq_getD_getElem?]
  case burn =>
    rintro ⟨p, n⟩
    simp only [getNextStxBurnAmount, Std.HashMap.getD_eq_getD_getElem?]
  -- the writes happen only once all three loops have succeeded
  by_cases htok : ∀ e ∈ flatEntries other.tokenMap,
      (lookup2 self.tokenMap (e.1, e.2.1)).getD 0 + e.2.2 < 2 ^ 128
  · by_cases hstx : ∀ e ∈ other.stxMap.toList, self.stxMap[e.1]?.getD 0 + e.2 < 2 ^ 128
    · by_cases hburn : ∀ e ∈ other.burnMap.toList, self.burnMap[e.1]?.getD 0 + e.2 < 2 ^ 128
      · rw [if_pos htok, if_pos hstx, if_pos hburn, if_pos ⟨htok, hstx, hburn⟩]
        simp only [run, flatPairs, List.foldl_map, bind, Except.bind, pure, Except.pure]
      · rw [if_pos htok, if_pos hstx, if_neg hburn,
          if_neg (not_and_of_not_right _ (not_and_of_not_right _ hburn))]
        rfl
    · rw [if_pos htok, if_neg hstx, if_neg (not_and_of_not_right _ (not_and_of_not_left _ hstx))]
      rfl
  · rw [if_neg htok, if_neg (not_and_of_not_left _ htok)]
    rfl

/-- Every sum fits exactly when no entry of `other` overflows. -/
theorem forall_fits_iff {κ : Type} (entries : List (κ × Nat)) (other : κ → Option Nat)
    (hmem : ∀ k x, (k, x) ∈ entries ↔ other k = some x) (current : κ → Nat) :
    (∀ e ∈ entries, current e.1 + e.2 < 2 ^ 128) ↔ ¬∃ k x, other k = some x ∧ 2 ^ 128 ≤ current k + x := by
  constructor
  · rintro h ⟨k, x, hk, hle⟩
    exact Nat.not_lt.mpr hle (h (k, x) ((hmem k x).mpr hk))
  · rintro h ⟨k, x⟩ he
    exact Nat.lt_of_not_le fun hle => h ⟨k, x, (hmem k x).mp he, hle⟩

/-- The condition of `commitOther_eq` is that nothing overflows. -/
theorem commitOther_fits_iff (self other : AssetMap) :
    ((∀ e ∈ flatEntries other.tokenMap, (lookup2 self.tokenMap (e.1, e.2.1)).getD 0 + e.2.2 < 2 ^ 128) ∧
      (∀ e ∈ other.stxMap.toList, self.stxMap[e.1]?.getD 0 + e.2 < 2 ^ 128) ∧
      (∀ e ∈ other.burnMap.toList, self.burnMap[e.1]?.getD 0 + e.2 < 2 ^ 128)) ↔
    ¬CommitOverflows self other := by
  have htok := forall_fits_iff (flatPairs other.tokenMap) (lookup2 other.tokenMap) (mem_flatPairs _)
    fun k => (lookup2 self.tokenMap k).getD 0
  have hstx := forall_fits_iff other.stxMap.toList (fun p => other.stxMap[p]?)
    (fun _ _ => Std.HashMap.mem_toList_iff_getElem?_eq_some) fun p => self.stxMap[p]?.getD 0
  have hburn := forall_fits_iff other.burnMap.toList (fun p => other.burnMap[p]?)
    (fun _ _ => Std.HashMap.mem_toList_iff_getElem?_eq_some) fun p => self.burnMap[p]?.getD 0
  simp only [flatPairs, List.forall_mem_map, Prod.exists] at htok
  rw [htok, hstx, hburn]
  unfold CommitOverflows
  rw [not_or, not_or]
  exact ⟨fun ⟨ht, hs, hb⟩ => ⟨hs, hb, ht⟩, fun ⟨hs, hb, ht⟩ => ⟨ht, hs, hb⟩⟩

/-- `lookup2` after the transfers of `other` are appended: the old list
followed by `other`'s. -/
theorem lookup2_run_appendTransfers (self other : Std.HashMap PrincipalData (Std.HashMap AssetIdentifier (List Value)))
    (k : PrincipalData × AssetIdentifier) :
    (lookup2 (run (fun am k v => appendTransfers am k.1 k.2 v) self (flatPairs other)) k).getD [] =
      (lookup2 self k).getD [] ++ (lookup2 other k).getD [] := by
  cases hk : lookup2 other k with
  | none =>
    have hnot : k ∉ (flatPairs other).map Prod.fst := by
      simp only [List.mem_map, not_exists, not_and]
      rintro ⟨k', t⟩ he rfl
      simp [(mem_flatPairs other _ _).mp he] at hk
    rw [get_run_of_not_mem getUpd_appendTransfers _ _ hnot]
    simp
  | some t =>
    rw [get_run_of_mem getUpd_appendTransfers _ (flatPairs_keys other) _ ((mem_flatPairs other k t).mpr hk)]
    simp

theorem commitOther_atomic_additive (a b : AssetMap) :
    (∀ a', a.commitOther b = .ok a' →
      (∀ p, (a'.getStx p).getD 0 = (a.getStx p).getD 0 + (b.getStx p).getD 0) ∧
      (∀ p, (a'.getStxBurned p).getD 0 = (a.getStxBurned p).getD 0 + (b.getStxBurned p).getD 0) ∧
      (∀ p asset, (a'.getFungibleTokens p asset).getD 0 =
        (a.getFungibleTokens p asset).getD 0 + (b.getFungibleTokens p asset).getD 0) ∧
      (∀ p asset, (a'.getNonfungibleTokens p asset).getD [] =
        (a.getNonfungibleTokens p asset).getD [] ++ (b.getNonfungibleTokens p asset).getD [])) ∧
    (∀ e, a.commitOther b = .error e → e = .runtime .arithmeticOverflow) ∧
    ((∃ e, a.commitOther b = .error e) ↔ CommitOverflows a b) := by
  have hfits := commitOther_fits_iff a b
  rw [commitOther_eq]
  refine ⟨fun a' h => ?_, fun e h => ?_, ?_⟩
  · split_ifs at h
    cases h
    -- each map reads the sum of the two, key by key
    refine ⟨fun p => ?_, fun p => ?_, fun p asset => ?_, fun p asset => ?_⟩
    · exact getD_run_sums getUpd_insert _ (mem_toList_keys _) (fun p => b.stxMap[p]?)
        (fun _ _ => Std.HashMap.mem_toList_iff_getElem?_eq_some) _ p
    · exact getD_run_sums getUpd_insert _ (mem_toList_keys _) (fun p => b.burnMap[p]?)
        (fun _ _ => Std.HashMap.mem_toList_iff_getElem?_eq_some) _ p
    · exact getD_run_sums getUpd_setTokenAmount _ (flatPairs_keys _) (lookup2 b.tokenMap)
        (mem_flatPairs _) _ (p, asset)
    · exact lookup2_run_appendTransfers _ _ (p, asset)
  · split_ifs at h
    cases h
    rfl
  · split_ifs with hc
    · exact iff_of_false (fun ⟨_, h⟩ => h) (hfits.mp hc)
    · exact iff_of_true ⟨_, rfl⟩ (not_not.mp (mt hfits.mpr hc))

end Commit

end AssetMap

/-- `EventBatch`: the events of one open level, in the order they were
emitted. The events themselves are kept abstract. -/
structure EventBatch (Ev : Type) where
  events : List Ev

end BlockstackCore
