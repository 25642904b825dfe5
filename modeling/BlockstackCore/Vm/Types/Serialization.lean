import BlockstackCore.Vm.Types.Value

/-!
# The consensus serialization of values

`serialize_write` and `inner_deserialize_read` (`vm/types/serialization.rs`):
a one-byte `TypePrefix`, then the payload, with lengths as big-endian `u32`.
A reader over an in-memory stream is the list of bytes not yet read.

`inner_deserialize_read` counts the nesting `depth` up from 0 and refuses to
read at `depth >= 16`. Here it counts the levels left, `16 - depth`, down to
0, so that it recurses structurally; `deserializeRead` starts it at 16.
`deserialize_read` reads through a `BoundReader` of
`BOUND_VALUE_SERIALIZATION_BYTES`: reads from it are reads from that prefix
of the stream.

Serializing panics on a buffer longer than `MAX_VALUE_SIZE` and on a list or
tuple of `2^32` entries or more (`unwrap`s of their lengths): it returns an
`Option` whose `none` is that panic.
-/

namespace BlockstackCore

open ByteCodec Outcome

def BOUND_VALUE_SERIALIZATION_BYTES : Nat := MAX_VALUE_SIZE * 2

inductive TypePrefix where
  | int
  | uInt
  | buffer
  | boolTrue
  | boolFalse
  | principalStandard
  | principalContract
  | responseOk
  | responseErr
  | optionalNone
  | optionalSome
  | list
  | tuple
  deriving DecidableEq, Repr

namespace TypePrefix

/-- `as u8`: the variants in order from 0. -/
def toU8 : TypePrefix → UInt8
  | .int => 0
  | .uInt => 1
  | .buffer => 2
  | .boolTrue => 3
  | .boolFalse => 4
  | .principalStandard => 5
  | .principalContract => 6
  | .responseOk => 7
  | .responseErr => 8
  | .optionalNone => 9
  | .optionalSome => 10
  | .list => 11
  | .tuple => 12

/-- `from_u8` of `define_u8_enum!`. -/
def fromU8 (v : UInt8) : Option TypePrefix :=
  [TypePrefix.int, .uInt, .buffer, .boolTrue, .boolFalse, .principalStandard, .principalContract,
    .responseOk, .responseErr, .optionalNone, .optionalSome, .list, .tuple].find? (·.toU8 == v)

def ofPrincipal : PrincipalData → TypePrefix
  | .standard _ => .principalStandard
  | .contract _ => .principalContract

def ofValue : Value → TypePrefix
  | .int _ => .int
  | .uInt _ => .uInt
  | .buffer _ => .buffer
  | .bool b => if b then .boolTrue else .boolFalse
  | .principal p => ofPrincipal p
  | .response committed _ => if committed then .responseOk else .responseErr
  | .optional none => .optionalNone
  | .optional (some _) => .optionalSome
  | .list _ _ => .list
  | .tuple _ _ => .tuple

end TypePrefix

inductive SerializationError where
  | ioError (e : ReadError)
  | badTypeError (e : CheckErrors)
  | deserializationError (msg : String)
  | deserializeExpected (t : TypeSignature)
  deriving DecidableEq, Repr

def StandardPrincipalData.serializeWrite (p : StandardPrincipalData) : Bytes := p.version :: p.bytes

/-- `serialize_guarded_string!`: the length as one byte, then the ASCII text. -/
def ClarityName.serializeWrite (n : ClarityName) : Bytes := UInt8.ofNat n.bytes.length :: n.bytes

def ContractName.serializeWrite (n : ContractName) : Bytes := UInt8.ofNat n.bytes.length :: n.bytes

def PrincipalData.serializeWrite (p : PrincipalData) : Bytes :=
  (TypePrefix.ofPrincipal p).toU8 :: match p with
    | .standard data => data.serializeWrite
    | .contract id => id.issuer.serializeWrite ++ id.name.serializeWrite

namespace Value

mutual
/-- `serialize_write`; `none` is the panic of a length that does not fit. -/
def serializeWrite (v : Value) : Option Bytes :=
  ((TypePrefix.ofValue v).toU8 :: ·) <$> match v with
    | .int value | .uInt value => .some (beBytes 16 value.toNat)
    | .buffer data => do
      let len ← (BufferLength.tryFrom data.length).toOption
      .some (beBytes 4 len.val ++ data)
    | .principal (.standard data) => .some data.serializeWrite
    | .principal (.contract id) => .some (id.issuer.serializeWrite ++ id.name.serializeWrite)
    | .response _ data => data.serializeWrite
    | .bool _ => .some []
    | .optional .none => .some []
    | .optional (.some value) => value.serializeWrite
    | .list data _ => do
      let len ← u32TryFrom data.length
      .some (beBytes 4 len ++ (← serializeList data))
    | .tuple _ dataMap => do
      let len ← u32TryFrom dataMap.length
      .some (beBytes 4 len ++ (← serializeMap dataMap))
def serializeList : List Value → Option Bytes
  | [] => .some []
  | item :: items => do .some ((← item.serializeWrite) ++ (← serializeList items))
def serializeMap : List (ClarityName × Value) → Option Bytes
  | [] => .some []
  | (key, value) :: rest => do
    .some (key.serializeWrite ++ (← value.serializeWrite) ++ (← serializeMap rest))
end

end Value

/-- Reads of the deserializer: an end of input is an `IOError`. -/
def readBytes (n : Nat) (r : Bytes) : Outcome SerializationError (Bytes × Bytes) :=
  (ofExcept (readExact n r)).mapErr .ioError

/-- `read_exact` into a one-byte buffer. -/
def readByte : Bytes → Outcome SerializationError (UInt8 × Bytes)
  | b :: r => ok (b, r)
  | [] => err (.ioError .unexpectedEof)

def StandardPrincipalData.deserializeRead (r : Bytes) :
    Outcome SerializationError (StandardPrincipalData × Bytes) := do
  let (version, r) ← readByte r
  match h : readExact 20 r with
  | .ok (data, r) => ok (⟨version, data, (readExact_eq_ok h).1⟩, r)
  | .error e => err (.ioError e)

/-- `deserialize_read` of `serialize_guarded_string!`, for the name type whose
`try_from` is given. -/
def readGuardedString {α : Type} (tryFrom : Bytes → Option α) (r : Bytes) :
    Outcome SerializationError (α × Bytes) := do
  let (len, r) ← readByte r
  if len.toNat > MAX_STRING_LEN then err (.deserializationError "String too long")
  else
    let (data, r) ← readBytes len.toNat r
    if !utf8Valid data then err (.deserializationError "Non-UTF8 string data")
    else
      match tryFrom data with
      | some name => ok (name, r)
      | none => err (.deserializationError "Illegal Clarity string")

def ClarityName.deserializeRead : Bytes → Outcome SerializationError (ClarityName × Bytes) :=
  readGuardedString ClarityName.tryFrom

def ContractName.deserializeRead : Bytes → Outcome SerializationError (ContractName × Bytes) :=
  readGuardedString ContractName.tryFrom

/-- `check_match!`: an expected type, if any, must have the given shape. -/
def checkMatch (expectedType : Option TypeSignature) (fits : TypeSignature → Bool) :
    Outcome SerializationError Unit :=
  match expectedType with
  | some x => if fits x then ok () else err (.deserializeExpected x)
  | none => ok ()

namespace Value

/-- A reader of one value at the next level: `inner_deserialize_read` at
`depth + 1`. -/
abbrev Reader := Bytes → Option TypeSignature → Outcome SerializationError (Value × Bytes)

/-- The `List` arm of `inner_deserialize_read`. -/
def deserializeList (read : Reader) (r : Bytes) (expectedType : Option TypeSignature) :
    Outcome SerializationError (Value × Bytes) := do
  let (len, r) ← readBytes 4 r
  let len := ofBeBytes len
  if len > MAX_VALUE_SIZE then err (.deserializationError "Illegal list type")
  else
    let (listType, entryType) ← (match expectedType with
      | .none => ok (.none, .none)
      | .some (.listType maxLen entryType) =>
        if len > maxLen then err (.deserializeExpected (.listType maxLen entryType))
        else ok (.some (ListTypeData.mk maxLen entryType), .some entryType)
      | .some x => err (.deserializeExpected x) :
        Outcome SerializationError (Option ListTypeData × Option TypeSignature))
    let (items, r) ← repeatN (fun r => read r entryType) len r
    let value ← (match listType with
      | .some listType => (listWithType items listType).mapErr
          fun _ => .deserializationError "Illegal list type"
      | .none => (listFrom items).mapErr fun _ => .deserializationError "Illegal list type" :
        Outcome SerializationError Value)
    ok (value, r)

/-- One entry of the `Tuple` arm: its name, then its value, read against the
field's type when the tuple's type is known. -/
def deserializeEntry (read : Reader) (tupleType : Option TupleTypeSignature) (r : Bytes) :
    Outcome SerializationError ((ClarityName × Value) × Bytes) := do
  let (key, r) ← ClarityName.deserializeRead r
  let expectedFieldType ← (match tupleType with
    | .none => ok .none
    | .some someTuple =>
      Option.some <$> ofOption (.deserializeExpected (.tupleType someTuple.typeMap))
        (someTuple.fieldType key) :
      Outcome SerializationError (Option TypeSignature))
  let (value, r) ← read r expectedFieldType
  ok ((key, value), r)

/-- The `Tuple` arm of `inner_deserialize_read`. -/
def deserializeTuple (read : Reader) (r : Bytes) (expectedType : Option TypeSignature) :
    Outcome SerializationError (Value × Bytes) := do
  let (len, r) ← readBytes 4 r
  let len := ofBeBytes len
  if len > MAX_VALUE_SIZE then err (.deserializationError "Illegal tuple type")
  else
    let tupleType ← (match expectedType with
      | .none => ok .none
      | .some (.tupleType typeMap) =>
        if len ≠ typeMap.length then err (.deserializeExpected (.tupleType typeMap))
        else ok (.some (TupleTypeSignature.mk typeMap))
      | .some x => err (.deserializeExpected x) :
        Outcome SerializationError (Option TupleTypeSignature))
    let (items, r) ← repeatN (deserializeEntry read tupleType) len r
    let tuple ← (match tupleType with
      | .some tupleType => (TupleData.fromDataTyped items tupleType).mapErr
          fun _ => .deserializationError "Illegal tuple type"
      | .none => (TupleData.fromData items).mapErr
          fun _ => .deserializationError "Illegal tuple type" :
        Outcome SerializationError TupleData)
    ok (tuple.toValue, r)

/-- The `ResponseOk`, `ResponseErr` and `OptionalSome` arms: the type the
wrapped value is read against. -/
def containedType (pre : TypePrefix) (expectedType : Option TypeSignature) :
    Outcome SerializationError (Option TypeSignature) :=
  match expectedType with
  | .none => ok .none
  | .some x =>
    match pre, x with
    | .responseOk, .responseType okType _ => ok (.some okType)
    | .responseErr, .responseType _ errType => ok (.some errType)
    | .optionalSome, .optionalType someType => ok (.some someType)
    | _, _ => err (.deserializeExpected x)

/-- The `Buffer` arm, after its length. -/
def checkBufferLength (bufferLen : BufferLength) (expectedType : Option TypeSignature) :
    Outcome SerializationError Unit :=
  match expectedType with
  | .some x =>
    let passedTest := match x with
      | .bufferType expectedLen => decide (bufferLen.val ≤ expectedLen.val)
      | _ => false
    if !passedTest then err (.deserializeExpected x) else ok ()
  | .none => ok ()

/-- `inner_deserialize_read` with `depthLeft = 16 - depth` levels left. -/
def innerDeserializeRead : Nat → Reader
  | 0, _, _ => err (.badTypeError .typeSignatureTooDeep)
  | depthLeft + 1, r, expectedType => do
    let (header, r) ← readByte r
    let pre ← ofOption (.deserializationError "Bad type prefix") (TypePrefix.fromU8 header)
    match pre with
    | .int =>
      checkMatch expectedType (· == .intType)
      let (intBytes, r) ← readBytes 16 r
      ok (.int (BitVec.ofNat 128 (ofBeBytes intBytes)), r)
    | .uInt =>
      checkMatch expectedType (· == .uIntType)
      let (intBytes, r) ← readBytes 16 r
      ok (.uInt (BitVec.ofNat 128 (ofBeBytes intBytes)), r)
    | .buffer =>
      let (bufferLen, r) ← readBytes 4 r
      let bufferLen ← (ofExcept (BufferLength.tryFrom (ofBeBytes bufferLen))).mapErr .badTypeError
      checkBufferLength bufferLen expectedType
      let (data, r) ← readBytes bufferLen.val r
      -- the length was checked above: the `unwrap` of `buff_from` holds
      let v ← (buffFrom data).expectOk
      ok (v, r)
    | .boolTrue =>
      checkMatch expectedType (· == .boolType)
      ok (.bool true, r)
    | .boolFalse =>
      checkMatch expectedType (· == .boolType)
      ok (.bool false, r)
    | .principalStandard =>
      checkMatch expectedType (· == .principalType)
      let (data, r) ← StandardPrincipalData.deserializeRead r
      ok (.principal (.standard data), r)
    | .principalContract =>
      checkMatch expectedType (· == .principalType)
      let (issuer, r) ← StandardPrincipalData.deserializeRead r
      let (name, r) ← ContractName.deserializeRead r
      ok (.principal (.contract ⟨issuer, name⟩), r)
    | .responseOk =>
      let (data, r) ← innerDeserializeRead depthLeft r (← containedType pre expectedType)
      let value ← (okay data).mapErr fun _ => .deserializationError "Value too large"
      ok (value, r)
    | .responseErr =>
      let (data, r) ← innerDeserializeRead depthLeft r (← containedType pre expectedType)
      let value ← (error data).mapErr fun _ => .deserializationError "Value too large"
      ok (value, r)
    | .optionalNone =>
      checkMatch expectedType fun | .optionalType _ => true | _ => false
      ok (none, r)
    | .optionalSome =>
      let (data, r) ← innerDeserializeRead depthLeft r (← containedType pre expectedType)
      let value ← (Value.some data).mapErr fun _ => .deserializationError "Value too large"
      ok (value, r)
    | .list => deserializeList (innerDeserializeRead depthLeft) r expectedType
    | .tuple => deserializeTuple (innerDeserializeRead depthLeft) r expectedType

/-- `deserialize_read`: read one value through a `BoundReader`, and return it
with the rest of the stream. -/
def deserializeRead (r : Bytes) (expectedType : Option TypeSignature) :
    Outcome SerializationError (Value × Bytes) := do
  let bounded := r.take BOUND_VALUE_SERIALIZATION_BYTES
  let (value, rest) ← innerDeserializeRead 16 bounded expectedType
  ok (value, r.drop (bounded.length - rest.length))

/-- Every value `read` returns is at most `k` levels deep. -/
def ReadsWithin (k : Nat) (read : Reader) : Prop :=
  ∀ r t v rest, read r t = ok (v, rest) → v.nesting ≤ k

section Nesting

variable {k : Nat} {read : Reader} {r rest : Bytes} {t : Option TypeSignature} {v : Value}

/-- What the list arm returns: a list of items that `read` returned. -/
theorem deserializeList_ok (h : deserializeList read r t = ok (v, rest)) :
    ∃ items lt, v = .list items lt ∧ ∀ w ∈ items, ∃ r' t' r'', read r' t' = ok (w, r'') := by
  unfold deserializeList at h
  simp only [bind_eq_ok] at h
  obtain ⟨a, -, h⟩ := h
  split_ifs at h
  simp only [bind_eq_ok] at h
  obtain ⟨⟨listType, entryType⟩, -, ⟨items, r₂⟩, hitems, value, hvalue, h⟩ := h
  simp only [ok.injEq, Prod.mk.injEq] at h
  obtain ⟨rfl, -⟩ := h
  have hread : ∀ w ∈ items, ∃ r' t' r'', read r' t' = ok (w, r'') := fun w hw => by
    obtain ⟨r', r'', hr⟩ := repeatN_ok hitems w hw
    exact ⟨r', entryType, r'', hr⟩
  cases listType with
  | some lt =>
    cases hl : listWithType items lt <;> simp only [hl, mapErr, reduceCtorEq, ok.injEq] at hvalue
    exact ⟨items, lt, hvalue ▸ listWithType_ok hl, hread⟩
  | none =>
    cases hl : listFrom items <;> simp only [hl, mapErr, reduceCtorEq, ok.injEq] at hvalue
    obtain ⟨lt, hlt⟩ := listFrom_ok hl
    exact ⟨items, lt, hvalue ▸ hlt, hread⟩

theorem deserializeEntry_ok {tupleType : Option TupleTypeSignature} {entry : ClarityName × Value}
    (h : deserializeEntry read tupleType r = ok (entry, rest)) :
    ∃ r' t' r'', read r' t' = ok (entry.2, r'') := by
  unfold deserializeEntry at h
  simp only [bind_eq_ok] at h
  obtain ⟨⟨key, r₁⟩, -, fieldType, -, ⟨value, r₂⟩, hvalue, h⟩ := h
  simp only [ok.injEq, Prod.mk.injEq] at h
  obtain ⟨rfl, -⟩ := h
  exact ⟨r₁, fieldType, r₂, hvalue⟩

/-- What the tuple arm returns: a tuple of entries whose values `read`
returned. -/
theorem deserializeTuple_ok (h : deserializeTuple read r t = ok (v, rest)) :
    ∃ tt dataMap, v = .tuple tt dataMap ∧
      ∀ p ∈ dataMap, ∃ r' t' r'', read r' t' = ok (p.2, r'') := by
  unfold deserializeTuple at h
  simp only [bind_eq_ok] at h
  obtain ⟨a, -, h⟩ := h
  split_ifs at h
  simp only [bind_eq_ok] at h
  obtain ⟨tupleType, -, ⟨items, r₂⟩, hitems, tuple, htuple, h⟩ := h
  simp only [ok.injEq, Prod.mk.injEq] at h
  obtain ⟨rfl, -⟩ := h
  have hread : ∀ p ∈ items, ∃ r' t' r'', read r' t' = ok (p.2, r'') := fun p hp => by
    obtain ⟨r', r'', hr⟩ := repeatN_ok hitems p hp
    exact deserializeEntry_ok hr
  refine ⟨tuple.typeSignature, tuple.dataMap, rfl, fun p hp => hread p ?_⟩
  cases tupleType with
  | some tt =>
    cases hd : TupleData.fromDataTyped items tt <;>
      simp only [hd, mapErr, reduceCtorEq, ok.injEq] at htuple
    exact TupleData.fromDataTyped_mem hd p (htuple ▸ hp)
  | none =>
    cases hd : TupleData.fromData items <;> simp only [hd, mapErr, reduceCtorEq, ok.injEq] at htuple
    exact TupleData.fromData_mem hd p (htuple ▸ hp)

theorem buffFrom_ok {data : Bytes} {v : Value} (h : buffFrom data = ok v) : v = .buffer data := by
  unfold buffFrom at h
  cases hb : BufferLength.tryFrom data.length <;>
    simp only [hb, ofExcept_ok, ofExcept_error, mapErr, ok_bind, err_bind, reduceCtorEq, ok.injEq] at h
  exact h.symm

/-- **The deserializer reads at most 16 levels.** With `k` levels left, every
value `inner_deserialize_read` returns is at most `k` deep; the induction is
on `k`, one case per type prefix. -/
theorem innerDeserializeRead_nesting : ∀ k, ReadsWithin k (innerDeserializeRead k)
  | 0 => fun r t v rest h => by simp [innerDeserializeRead] at h
  | k + 1 => fun r t v rest h => by
    have ih := innerDeserializeRead_nesting k
    simp only [innerDeserializeRead, bind_eq_ok] at h
    obtain ⟨⟨header, r₁⟩, -, pre, -, h⟩ := h
    cases pre with
    | list =>
      obtain ⟨items, lt, rfl, hitems⟩ := deserializeList_ok h
      have hle : nestingList items ≤ k := nestingList_le fun w hw => by
        obtain ⟨r', t', r'', hr⟩ := hitems w hw
        exact ih r' t' w r'' hr
      simp only [nesting]
      omega
    | tuple =>
      obtain ⟨tt, dataMap, rfl, hmap⟩ := deserializeTuple_ok h
      have hle : nestingMap dataMap ≤ k := nestingMap_le fun p hp => by
        obtain ⟨r', t', r'', hr⟩ := hmap p hp
        exact ih r' t' p.2 r'' hr
      simp only [nesting]
      omega
    | int | uInt | principalStandard =>
      simp only [bind_eq_ok, ok.injEq, Prod.mk.injEq] at h
      obtain ⟨-, -, -, -, rfl, -⟩ := h
      simp [nesting]
    | boolTrue | boolFalse | optionalNone =>
      simp only [bind_eq_ok, ok.injEq, Prod.mk.injEq] at h
      obtain ⟨-, -, rfl, -⟩ := h
      simp [nesting, Value.none]
    | principalContract =>
      simp only [bind_eq_ok, ok.injEq, Prod.mk.injEq] at h
      obtain ⟨-, -, -, -, -, -, rfl, -⟩ := h
      simp [nesting]
    | buffer =>
      simp only [bind_eq_ok, ok.injEq, Prod.mk.injEq, expectOk_eq_ok] at h
      obtain ⟨_, -, _, -, _, -, _, -, w, hw, rfl, -⟩ := h
      rw [buffFrom_ok hw]
      simp [nesting]
    | responseOk | responseErr | optionalSome =>
      simp only [bind_eq_ok, ok.injEq, Prod.mk.injEq, mapErr_eq_ok] at h
      obtain ⟨_, -, ⟨data, r₂⟩, hdata, value, hvalue, rfl, -⟩ := h
      have hle := ih _ _ _ _ hdata
      rw [checkWrapped_ok hvalue]
      simp only [nesting]
      omega

theorem deserializeRead_nesting (h : deserializeRead r t = ok (v, rest)) : v.nesting ≤ 16 := by
  unfold deserializeRead at h
  obtain ⟨⟨value, rest'⟩, hinner, h⟩ := bind_eq_ok.mp h
  simp only [ok.injEq, Prod.mk.injEq] at h
  obtain ⟨rfl, -⟩ := h
  exact innerDeserializeRead_nesting 16 _ _ _ _ hinner

/-- No input deserializes to a value more than 16 levels deep. -/
theorem deserializeRead_ne_of_nesting (hv : 16 < v.nesting) (r : Bytes) (t : Option TypeSignature)
    (rest : Bytes) : deserializeRead r t ≠ ok (v, rest) := fun h => by
  have := deserializeRead_nesting h
  omega

end Nesting

/-- `some` applied sixteen times to `1` is built by the checked constructor, is
17 levels deep against a `MAX_TYPE_DEPTH` of 32, and is admitted by its own
type; its serialization does not deserialize, with or without that type, and
no input at all deserializes to it. -/
theorem some_sixteen_deep_not_deserialized :
    let v : Value := (fun w => Value.optional (.some w))^[16] (.int 1)
    let T : TypeSignature := TypeSignature.optionalType^[16] .intType
    let b : Bytes := List.replicate 16 10 ++ [0] ++ List.replicate 15 0 ++ [1]
    (fun o => Outcome.bind o Value.some)^[16] (ok (.int 1)) = ok v ∧
      v.depth = .some 17 ∧ v.typeOf = .some T ∧ T.admits v = .some true ∧
      v.serializeWrite = .some b ∧
      deserializeRead b (.some T) = err (.badTypeError .typeSignatureTooDeep) ∧
      deserializeRead b .none = err (.badTypeError .typeSignatureTooDeep) ∧
      ∀ r t rest, deserializeRead r t ≠ ok (v, rest) := by
  intro v T b
  have hnesting : v.nesting = 17 := by decide
  refine ⟨by decide, by decide, by decide, by decide, by decide, by decide, by decide, ?_⟩
  intro r t rest
  exact deserializeRead_ne_of_nesting (by omega) r t rest

/-- A tuple read against `(tuple (a int) (b int))` whose two entries are both
named `a`: `from_data_typed` admits each and keeps the second, so the reader
returns a tuple of that type with no field `b`, which its type admits. -/
theorem tuple_repeated_key_deserialized :
    let a : ClarityName := ⟨[97], by decide⟩
    let b : ClarityName := ⟨[98], by decide⟩
    let T : TypeSignature := .tupleType [(a, .intType), (b, .intType)]
    let one : Bytes := 0 :: (List.replicate 15 0 ++ [1])
    let input : Bytes := [12, 0, 0, 0, 2] ++ (a.serializeWrite ++ one) ++ (a.serializeWrite ++ one)
    let v : Value := .tuple ⟨[(a, .intType), (b, .intType)]⟩ [(a, .int 1)]
    deserializeRead input (.some T) = ok (v, []) ∧ T.admits v = .some true ∧ v.wellFormed = false := by
  intro a b T one input v
  refine ⟨by decide, by decide, by decide⟩

end Value

end BlockstackCore
