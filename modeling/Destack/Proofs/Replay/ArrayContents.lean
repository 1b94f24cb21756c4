import Destack.Proofs.Bytecode.Numbers
import Destack.Proofs.Code.Valuation
import Destack.Proofs.Except
import Destack.Replay.ArrayData

namespace Destack

def rawNumber (data : List UInt8) (start width : Nat) : Nat :=
  ∑ k ∈ Finset.range width, (data.getD (start + k) 0).toNat * 256 ^ k

theorem Bytes.unsigned_eq_sum (bytes : List UInt8) :
    unsigned bytes = rawNumber bytes 0 bytes.length := by
  induction bytes with
  | nil => rfl
  | cons b bytes ih =>
      rw [unsigned, ih, rawNumber, rawNumber, List.length_cons, Finset.sum_range_succ',
        Finset.mul_sum, add_comm]
      congr 1
      · apply Finset.sum_congr rfl
        intro k _
        rw [← add_assoc, List.getD_cons_succ, pow_succ]
        ring
      · simp

theorem unsigned_slice {data : List UInt8} {start width : Nat}
    (enough : start + width ≤ data.length) :
    Bytes.unsigned ((data.drop start).take width) = rawNumber data start width := by
  have length : ((data.drop start).take width).length = width := by
    rw [List.length_take, List.length_drop]
    omega
  rw [Bytes.unsigned_eq_sum, length]
  apply Finset.sum_congr rfl
  intro k member
  have within := Finset.mem_range.mp member
  simp [List.getD_eq_getElem?_getD, List.getElem?_take_of_lt within, List.getElem?_drop]

theorem rawNumber_take {data : List UInt8} {start width limit : Nat}
    (within : start + width ≤ limit) :
    rawNumber (data.take limit) start width = rawNumber data start width := by
  apply Finset.sum_congr rfl
  intro k member
  have less := Finset.mem_range.mp member
  simp [List.getD_eq_getElem?_getD, List.getElem?_take_of_lt (by omega : start + k < limit)]

theorem Bytes.signed_eq {bytes : List UInt8} (some : bytes ≠ []) :
    signed bytes =
      if 2 * unsigned bytes < 256 ^ bytes.length then (unsigned bytes : Int)
      else unsigned bytes - 256 ^ bytes.length := by
  obtain ⟨n, length⟩ := Nat.exists_eq_succ_of_ne_zero (mt List.length_eq_zero_iff.mp some)
  obtain ⟨half, even⟩ : ∃ half, 256 ^ bytes.length = 2 * half :=
    ⟨128 * 256 ^ n, by rw [length, pow_succ]; ring⟩
  have less := unsigned_lt bytes
  have cast : ((256 ^ bytes.length : Nat) : Int) = 256 ^ bytes.length := by simp
  have modulus : Nat.pow 256 bytes.length = 2 * half := even
  rw [signed, modulus, ← cast, even, Int.bmod_def]
  rw [even] at less
  rw [Int.emod_eq_of_lt (by omega) (by exact_mod_cast less)]
  push_cast
  split_ifs <;> omega

inductive Reading
  | truth
  | integer (isSigned : Bool)
  | float
  deriving DecidableEq, Repr

structure Primitive where
  width : Nat
  reading : Reading
  deriving DecidableEq, Repr

def BaseType.primitive? : BaseType → Option Primitive
  | .bool => some ⟨1, .truth⟩
  | .int8 => some ⟨1, .integer true⟩
  | .uint8 => some ⟨1, .integer false⟩
  | .int16 => some ⟨2, .integer true⟩
  | .uint16 | .char => some ⟨2, .integer false⟩
  | .int32 => some ⟨4, .integer true⟩
  | .uint32 => some ⟨4, .integer false⟩
  | .int64 => some ⟨8, .integer true⟩
  | .uint64 => some ⟨8, .integer false⟩
  | .float32 => some ⟨4, .float⟩
  | .float64 => some ⟨8, .float⟩
  | _ => none

inductive Ty.Stores : Ty → Primitive → Prop
  | base {type : BaseType} {p : Primitive} (found : type.primitive? = some p) :
      Stores (.base type) p
  | enum {name : String} {underlying : Ty} {args : List Ty} {p : Primitive}
      (stores : Stores underlying p) : Stores (.enumType name underlying args) p

def Primitive.value (p : Primitive) (isSigned : Bool) (raw : Nat) : Int :=
  if isSigned && 256 ^ p.width ≤ 2 * raw then raw - 256 ^ p.width else raw

/-- The constant with the given bytes. Integers of up to four bytes are constants of four, and
those of eight bytes keep their width; unsigned ones that are too large for it wrap around. -/
def Primitive.constant (p : Primitive) (raw : Nat) : Const :=
  match p.reading with
  | .truth => .bool (raw != 0)
  | .integer isSigned =>
    if p.width ≤ 4 then .int32 (.ofInt (p.value isSigned raw))
    else .int64 (.ofInt (p.value isSigned raw))
  | .float => if p.width ≤ 4 then .float32 (.ofNat raw) else .float64 (.ofNat raw)

namespace ArrayData

theorem elementSize?_of_stores {elem : Ty} {p : Primitive} (stores : elem.Stores p) :
    elementSize? elem = some p.width := by
  induction stores with
  | @base type p found =>
      cases type <;> simp only [BaseType.primitive?, reduceCtorEq, Option.some.injEq] at found <;>
        subst found <;> rfl
  | enum _ ih => rwa [elementSize?]

theorem stores_of_elementSize? {elem : Ty} {size : Nat} (sized : elementSize? elem = some size) :
    ∃ p, elem.Stores p := by
  fun_induction elementSize? elem with
  | case13 name underlying args ih =>
      obtain ⟨p, stores⟩ := ih sized
      exact ⟨p, .enum stores⟩
  | case14 => cases sized
  | _ => exact ⟨_, .base rfl⟩

theorem value_signed {bytes : List UInt8} {p : Primitive} (length : bytes.length = p.width)
    (some : bytes ≠ []) : p.value true (Bytes.unsigned bytes) = Bytes.signed bytes := by
  rw [Bytes.signed_eq some, Primitive.value, length]
  simp only [Bool.true_and, decide_eq_true_eq]
  split_ifs <;> first | rfl | omega

theorem int32_signed {bytes : List UInt8} (length : bytes.length = 4) :
    Int32.ofInt (Bytes.signed bytes) = .ofInt (Bytes.unsigned bytes) := by
  apply Int32.toInt_inj.mp
  rw [Int32.toInt_ofInt, Int32.toInt_ofInt, Bytes.signed, length]
  exact Int.bmod_bmod

theorem int64_signed {bytes : List UInt8} (length : bytes.length = 8) :
    Int64.ofInt (Bytes.signed bytes) = .ofInt (Bytes.unsigned bytes) := by
  apply Int64.toInt_inj.mp
  rw [Int64.toInt_ofInt, Int64.toInt_ofInt, Bytes.signed, length]
  exact Int.bmod_bmod

theorem element?_of_stores {elem : Ty} {p : Primitive} (stores : elem.Stores p)
    {bytes : List UInt8} (length : bytes.length = p.width) :
    element? elem bytes = some (p.constant (Bytes.unsigned bytes)) := by
  induction stores with
  | @base type p found =>
      have some : p.width ≠ 0 → bytes ≠ [] := by
        rintro positive rfl
        exact positive length.symm
      cases type <;> simp only [BaseType.primitive?, reduceCtorEq, Option.some.injEq] at found <;>
        subst found
      case int8 | int16 | int32 | int64 =>
        simp [element?, Primitive.constant, value_signed length (some (by simp))]
      case uint32 => simp [element?, Primitive.constant, Primitive.value, int32_signed length]
      case uint64 => simp [element?, Primitive.constant, Primitive.value, int64_signed length]
      all_goals rfl
  | enum _ ih => exact ih length

/-- The last assignment to the variable assigns the expression to it. -/
def Latest (stmts : List Stmt) (v : Value) (e : Expr) : Prop :=
  ∃ before after, stmts = before ++ .set v e :: after ∧ ∀ s ∈ after, s.defined? ≠ some v

theorem definition?_eq_some {stmts : List Stmt} {v : Value} {e : Expr} :
    definition? stmts v = some e ↔ Latest stmts v e := by
  unfold definition?
  rw [List.findSome?_eq_some_iff]
  constructor
  · rintro ⟨after, s, before, same, found, later⟩
    refine ⟨before.reverse, after.reverse, ?_, fun t member defined => ?_⟩
    · split at found
      · split_ifs at found with here
        cases found
        rw [← List.reverse_inj, same, here]
        simp [Stmt.set]
      · cases found
    · have missed := later t (List.mem_reverse.mp member)
      unfold Stmt.defined? at defined
      split at defined
      · cases defined
        simp at missed
      · cases defined
  · rintro ⟨before, after, rfl, later⟩
    refine ⟨after.reverse, .set v e, before.reverse, by simp, by simp [Stmt.set], ?_⟩
    intro t member
    have other := later t (List.mem_reverse.mp member)
    split
    · rw [if_neg]
      rintro rfl
      exact other rfl
    · rfl

theorem allocation_eq_ok {stmts : List Stmt} {array : Value} {elem : Ty} {length : Nat} :
    allocation stmts array = .ok (elem, length) ↔
      ∃ n : Int32, Latest stmts array (.newArray elem (.const (.int32 n))) ∧ n.toInt = length := by
  simp only [← definition?_eq_some]
  unfold allocation
  constructor
  · intro found
    split at found
    · rename_i n defined
      split at found
      · cases found
        exact ⟨n, defined, by omega⟩
      · cases found
    · cases found
    · cases found
  · rintro ⟨n, defined, same⟩
    simp only [defined, same, Int.natCast_nonneg, if_true, Int.toNat_natCast]

theorem contents_eq_ok {stmts : List Stmt} {handle : Value} {data : List UInt8} :
    contents stmts handle = .ok data ↔
      ∃ field, Latest stmts handle (.handle (.field field)) ∧ field.initialData = some data := by
  simp only [← definition?_eq_some]
  unfold contents
  constructor
  · intro found
    split at found
    · rename_i field defined
      split at found
      · rename_i bytes initial
        cases found
        exact ⟨field, defined, initial⟩
      · cases found
    · cases found
  · rintro ⟨field, defined, initial⟩
    simp only [defined, initial]

/-- The array that the call fills was last assigned a new one of the given length, and the field
whose handle it gets has the given data. -/
def Fills (stmts : List Stmt) (args : List Value) (array : Value) (elem : Ty) (length : Nat)
    (data : List UInt8) : Prop :=
  (∃ n : Int32, Latest stmts array (.newArray elem (.const (.int32 n))) ∧ n.toInt = length) ∧
    ∃ handle field, args = [array, handle] ∧ Latest stmts handle (.handle (.field field)) ∧
      field.initialData = some data

def Elementwise (array : Value) (elem : Ty) (p : Primitive) (length : Nat) (data : List UInt8)
    (stores : List Stmt) : Prop :=
  stores.length = length ∧ ∀ i < length, ∃ index : Int32, index.toInt = i ∧
    stores[i]? = some (.assign (.element array (.const (.int32 index)) elem)
      (.value (.const (p.constant (rawNumber data (i * p.width) p.width)))))

theorem elementwise_iff {array : Value} {elem : Ty} {p : Primitive} {length : Nat}
    {data : List UInt8} {stores : List Stmt} (bounded : length < 2 ^ 31) :
    Elementwise array elem p length data stores ↔
      stores = (List.range length).map fun i =>
        store array elem i (p.constant (rawNumber data (i * p.width) p.width)) := by
  constructor
  · rintro ⟨counted, each⟩
    apply List.ext_getElem?
    intro i
    by_cases within : i < length
    · obtain ⟨index, here, found⟩ := each i within
      have same : index = .ofNat i := by
        apply Int32.toInt_inj.mp
        rw [here, Int32.toInt_ofNat_of_lt (within.trans bounded)]
      rw [found, List.getElem?_map, List.getElem?_range within, Option.map_some, store, same]
    · rw [List.getElem?_eq_none (by omega), List.getElem?_eq_none (by simpa using within)]
  · rintro rfl
    refine ⟨by simp, fun i within => ⟨.ofNat i, ?_, ?_⟩⟩
    · exact Int32.toInt_ofNat_of_lt (within.trans bounded)
    · rw [List.getElem?_map, List.getElem?_range within]
      rfl

theorem filterMap_element? {array : Value} {elem : Ty} {p : Primitive} (stores : elem.Stores p)
    {length : Nat} {data : List UInt8} (enough : p.width * length ≤ data.length) :
    ((List.range length).filterMap fun i =>
      (element? elem ((data.drop (i * p.width)).take p.width)).map (store array elem i)) =
    (List.range length).map fun i =>
      store array elem i (p.constant (rawNumber data (i * p.width) p.width)) := by
  -- The size of an element and the way it is read agree, so that no element is left out.
  rw [← List.filterMap_eq_map]
  apply List.filterMap_congr
  intro i member
  have within : i * p.width + p.width ≤ data.length := by
    have less := List.mem_range.mp member
    calc i * p.width + p.width = p.width * (i + 1) := by ring
      _ ≤ p.width * length := Nat.mul_le_mul_left _ less
      _ ≤ data.length := enough
  have size : ((data.drop (i * p.width)).take p.width).length = p.width := by
    rw [List.length_take, List.length_drop]
    omega
  rw [element?_of_stores stores size, unsigned_slice within]
  rfl

section Expand

variable {stmts : List Stmt} {vars : Variables} {args : List Value} {array : Value} {elem : Ty}
  {length : Nat} {data : List UInt8} {p : Primitive}

theorem Fills.length_lt (fills : Fills stmts args array elem length data) : length < 2 ^ 31 := by
  obtain ⟨⟨n, -, same⟩, -⟩ := fills
  have less := n.toInt_lt
  rw [same] at less
  exact_mod_cast less

theorem expand_of_fills (fills : Fills stmts args array elem length data)
    (stores : elem.Stores p) :
    expand stmts vars args =
      if vars.typeOf array ≠ .array elem then .error (.otherType array elem)
      else if data.length < p.width * length then
        .error (.tooShort data.length (p.width * length))
      else .ok ((List.range length).map fun i =>
        store array elem i (p.constant (rawNumber data (i * p.width) p.width))) := by
  obtain ⟨allocated, handle, field, rfl, loaded⟩ := fills
  simp only [expand, allocation_eq_ok.mpr allocated, contents_eq_ok.mpr ⟨field, loaded⟩,
    elementSize?_of_stores stores, bind, Except.bind]
  by_cases typed : vars.typeOf array = .array elem
  · by_cases short : data.length < p.width * length
    · simp only [typed, short, bne_self_eq_false, ne_eq, not_true_eq_false, Bool.false_eq_true,
        if_false, if_true]
      rfl
    · rw [← filterMap_element? stores (Nat.le_of_not_lt short)]
      simp only [typed, short, bne_self_eq_false, ne_eq, not_true_eq_false, Bool.false_eq_true,
        if_false]
      rfl
  · have other : (vars.typeOf array != .array elem) = true := bne_iff_ne.mpr typed
    simp only [other, typed, ne_eq, not_false_eq_true, if_true]
    rfl

theorem fills_of_expand {stores : List Stmt} (expanded : expand stmts vars args = .ok stores) :
    ∃ array elem length data p, Fills stmts args array elem length data ∧ elem.Stores p := by
  unfold expand at expanded
  split at expanded
  · rename_i array handle
    obtain ⟨⟨elem, length⟩, allocated, rest⟩ := bind_eq_ok.mp expanded
    dsimp only at rest
    split at rest
    · cases rest
    · obtain ⟨data, loaded, rest⟩ := bind_eq_ok.mp rest
      obtain ⟨field, loaded⟩ := contents_eq_ok.mp loaded
      split at rest
      · cases rest
      · rename_i size sized
        obtain ⟨p, stores⟩ := stores_of_elementSize? sized
        exact ⟨array, elem, length, data, p,
          ⟨allocation_eq_ok.mp allocated, handle, field, rfl, loaded⟩, stores⟩
  · cases expanded

theorem elementwise_take {stores : List Stmt} :
    Elementwise array elem p length (data.take (length * p.width)) stores ↔
      Elementwise array elem p length data stores := by
  apply and_congr_right
  intro _
  apply forall₂_congr
  intro i within
  rw [rawNumber_take]
  calc i * p.width + p.width = (i + 1) * p.width := by ring
    _ ≤ length * p.width := Nat.mul_le_mul_right _ within

end Expand

/-- Filling an array in place of a call writes the field's data exactly. It succeeds if and only if
the array was just allocated, with a primitive element type or an enumeration over one and a
constant length, and the field has enough data. The stores then are one for each element, in order,
and depend on nothing past the last element. -/
theorem expand_exact (stmts : List Stmt) (vars : Variables) (args : List Value) :
    (∀ stores, expand stmts vars args = .ok stores ↔
      ∃ array elem length data p, Fills stmts args array elem length data ∧ elem.Stores p ∧
        vars.typeOf array = .array elem ∧ length * p.width ≤ data.length ∧
        Elementwise array elem p length (data.take (length * p.width)) stores) ∧
    ∀ array elem length data p, Fills stmts args array elem length data → elem.Stores p →
      data.length < length * p.width →
        ∃ reason, expand stmts vars args = .error reason ∧
          (vars.typeOf array = .array elem →
            reason = .tooShort data.length (p.width * length)) := by
  refine ⟨fun stores => ⟨fun expanded => ?_, ?_⟩, ?_⟩
  · obtain ⟨array, elem, length, data, p, fills, primitive⟩ := fills_of_expand expanded
    rw [expand_of_fills fills primitive] at expanded
    split_ifs at expanded with typed short
    refine ⟨array, elem, length, data, p, fills, primitive, not_not.mp typed, ?_, ?_⟩
    · rw [Nat.mul_comm]
      exact Nat.le_of_not_lt short
    · rw [elementwise_take, elementwise_iff fills.length_lt]
      exact (Except.ok.inj expanded).symm
  · rintro ⟨array, elem, length, data, p, fills, primitive, typed, enough, each⟩
    rw [elementwise_take, elementwise_iff fills.length_lt] at each
    rw [expand_of_fills fills primitive, if_neg (not_not.mpr typed),
      if_neg (by rw [Nat.mul_comm]; exact Nat.not_lt_of_le enough), each]
  · intro array elem length data p fills primitive short
    rw [Nat.mul_comm] at short
    rw [expand_of_fills fills primitive, if_pos short]
    split_ifs with typed
    · exact ⟨_, rfl, fun same => absurd same typed⟩
    · exact ⟨_, rfl, fun _ => rfl⟩

def shade : Ty := .enumType "Shade" (.enumType "Level" .int16 []) []

def shadeVars : Variables where
  locals := []
  params := []
  temps := [.array shade, .handle]
  merges := []

def shadeData : Field where
  name := "shades"
  declaringType := .object
  type := .unknown
  isStatic := true
  initialData := some [1, 0, 255, 255, 7, 0, 9]

def shades (count : Int32) : List Stmt :=
  [.set (.temp 0) (.newArray shade (.const (.int32 count))),
    .set (.temp 1) (.handle (.field shadeData))]

theorem shades_exact :
    (∃ stores, expand (shades 3) shadeVars [.temp 0, .temp 1] = .ok stores ∧
      stores = [store (.temp 0) shade 0 (.int32 1), store (.temp 0) shade 1 (.int32 (-1)),
        store (.temp 0) shade 2 (.int32 7)] ∧
      ∃ array elem length data p, Fills (shades 3) [.temp 0, .temp 1] array elem length data ∧
        elem.Stores p ∧ shadeVars.typeOf array = .array elem ∧ length * p.width ≤ data.length ∧
        Elementwise array elem p length (data.take (length * p.width)) stores) ∧
    ∃ reason, expand (shades 4) shadeVars [.temp 0, .temp 1] = .error reason ∧
      (shadeVars.typeOf (.temp 0) = .array shade → reason = .tooShort 7 8) := by
  have expanded : expand (shades 3) shadeVars [.temp 0, .temp 1] =
      .ok [store (.temp 0) shade 0 (.int32 1), store (.temp 0) shade 1 (.int32 (-1)),
        store (.temp 0) shade 2 (.int32 7)] := by decide +kernel
  refine ⟨⟨_, expanded, rfl, ((expand_exact _ _ _).1 _).mp expanded⟩, ?_⟩
  have primitive : shade.Stores ⟨2, .integer true⟩ := .enum (.enum (.base rfl))
  have fills : Fills (shades 4) [.temp 0, .temp 1] (.temp 0) shade 4 [1, 0, 255, 255, 7, 0, 9] := by
    refine ⟨⟨4, ⟨[], _, rfl, by simp [Stmt.set, Stmt.defined?]⟩, rfl⟩, .temp 1, shadeData, rfl, ?_,
      rfl⟩
    exact ⟨[.set (.temp 0) (.newArray shade (.const (.int32 4)))], [], rfl, by simp⟩
  exact (expand_exact _ _ _).2 _ _ _ _ _ fills primitive (by decide)

end ArrayData
end Destack
