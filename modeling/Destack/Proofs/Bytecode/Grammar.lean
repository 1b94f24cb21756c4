import Destack.Bytecode.Assembly
import Destack.Bytecode.Decode
import Destack.Proofs.Bytecode.Numbered
import Destack.Proofs.Bytecode.Numbers

/-!
# The grammar of code

Code is the concatenation of the bytes of its instructions, and can be cut in no other way: the
scan of some code finds given instructions exactly if they are placed one after another, if each of
them is one that code can express, and if together they spell the code.
-/

namespace Destack

/-! ## Opcodes -/

def Encoding.number : Encoding → Nat
  | .short byte => byte.toNat
  | .extended byte => 256 + byte.toNat

namespace Opcode

theorem mem_all (op : Opcode) : op ∈ all := by
  have listed : all[op.ctorIdx]? = some op := by cases op <;> rfl
  exact List.mem_of_getElem? listed

theorem all_sorted : (all.map fun op => op.encoding.number).IsChain (· < ·) := by decide +kernel

theorem encoding_ne_escape (op : Opcode) : op.encoding ≠ .short Encoding.escape := by
  have listed : ∀ op ∈ all, op.encoding ≠ .short Encoding.escape := by decide +kernel
  exact listed op op.mem_all

theorem encoding_injective {op other : Opcode} (same : op.encoding = other.encoding) :
    op = other := by
  have sorted := List.isChain_iff_pairwise.mp all_sorted
  rw [List.pairwise_map] at sorted
  obtain ⟨j, within, rfl⟩ := List.getElem_of_mem op.mem_all
  obtain ⟨k, within', rfl⟩ := List.getElem_of_mem other.mem_all
  rcases Nat.lt_trichotomy j k with before | rfl | after
  · have less := List.pairwise_iff_getElem.mp sorted j k within within' before
    rw [same] at less
    exact absurd less (Nat.lt_irrefl _)
  · rfl
  · have less := List.pairwise_iff_getElem.mp sorted k j within' within after
    rw [same] at less
    exact absurd less (Nat.lt_irrefl _)

theorem ofEncoding?_eq_some {e : Encoding} {op : Opcode} :
    ofEncoding? e = some op ↔ op.encoding = e := by
  constructor
  · intro found
    simpa using List.find?_some found
  · rintro rfl
    cases found : ofEncoding? op.encoding with
    | none => exact absurd (List.find?_eq_none.mp found op op.mem_all) (by simp)
    | some other =>
        have same : other.encoding = op.encoding := by simpa using List.find?_some found
        rw [encoding_injective same]

theorem length_encoding_pos (op : Opcode) : 0 < op.encoding.bytes.length := by
  cases op.encoding <;> simp [Encoding.bytes]

end Opcode

namespace Decode

theorem opcode_bytes (offset : Nat) {first : UInt8} {rest after : List UInt8} {op : Opcode}
    (spelled : first :: rest = op.encoding.bytes ++ after) :
    opcode offset first rest = .ok (op, after) := by
  unfold opcode
  cases found : op.encoding with
  | short byte =>
      have plain : byte ≠ Encoding.escape := fun same => op.encoding_ne_escape (same ▸ found)
      rw [found] at spelled
      obtain ⟨rfl, rfl⟩ := List.cons.inj spelled
      rw [if_neg plain, Opcode.ofEncoding?_eq_some.mpr found]
  | extended byte =>
      rw [found] at spelled
      obtain ⟨rfl, same⟩ := List.cons.inj spelled
      obtain rfl : rest = byte :: after := same
      rw [if_pos rfl]
      simp only [Opcode.ofEncoding?_eq_some.mpr found]

theorem bytes_of_opcode {offset : Nat} {first : UInt8} {rest after : List UInt8} {op : Opcode}
    (read : opcode offset first rest = .ok (op, after)) :
    first :: rest = op.encoding.bytes ++ after := by
  unfold opcode at read
  split at read
  · rename_i escape
    cases rest with
    | nil => cases read
    | cons second rest =>
        dsimp only at read
        split at read
        · rename_i found
          cases read
          rw [Opcode.ofEncoding?_eq_some.mp found, escape]
          rfl
        · cases read
  · split at read
    · rename_i found
      cases read
      rw [Opcode.ofEncoding?_eq_some.mp found]
      rfl
    · cases read

end Decode

/-! ## Operands -/

def OperandKind.reach : OperandKind → Int
  | .shortBranch => 0x80
  | _ => 0x80000000

namespace Operand

/-- What code keeps of an operand: the lowest byte in short forms. -/
def stored {Place : Type} (kind : OperandKind) : Operand Place → Operand Place
  | .int32 value => .int32 (if kind = .shortInt then value.toInt8.toInt32 else value)
  | .var index => .var (if kind = .shortVar then index.toUInt8.toUInt16 else index)
  | o => o

/-- Code can express the operand, with branches that count from `next`. -/
structure Exact (kind : OperandKind) (next : Nat) (o : Operand Int) : Prop where
  fits : o.fits kind = true
  stored : o.stored kind = o
  reaches : ∀ t ∈ o.places, -kind.reach ≤ t - next ∧ t - next < kind.reach
  count : o.places.length < 2 ^ 32

theorem Exact.of_data {kind : OperandKind} {o : Operand Int} (next : Nat)
    (fits : o.fits kind = true) (stored : o.stored kind = o) (data : o.places = []) :
    o.Exact kind next := by
  refine ⟨fits, stored, ?_, ?_⟩ <;> simp [data]

def spelled (kind : OperandKind) (next : Nat) (o : Operand Int) : List UInt8 :=
  (o.map fun t : Int => t - next).bytes kind

theorem length_spelled (kind : OperandKind) (next : Nat) (o : Operand Int) :
    (o.spelled kind next).length = o.size kind := by
  cases o <;> simp [spelled, map, bytes, size, Function.comp_def, Nat.mul_comm]

end Operand

namespace Decode

variable {kind : OperandKind} {next : Nat}

/-! ### Reading what was written -/

theorem operandSize?_spelled {o : Operand Int} (exact : o.Exact kind next) (after : List UInt8) :
    operandSize? kind (o.spelled kind next ++ after) = some (o.size kind) := by
  obtain ⟨fits, -, -, count⟩ := exact
  cases o with
  | switch places =>
      have counted : Bytes.unsigned (Bytes.spell 4 places.length) = places.length :=
        Bytes.unsigned_spell_of_lt (count.trans_eq (by norm_num))
      obtain rfl : kind = .switch := by simpa [Operand.fits] using fits
      simp [operandSize?, OperandKind.size?, Operand.spelled, Operand.map, Operand.bytes,
        Operand.size, counted]
  | _ => cases kind <;> first | rfl | cases fits

theorem displaced {width : Nat} {t reach : Int} (half : 2 * reach = 256 ^ width)
    (reaches : -reach ≤ t - next ∧ t - next < reach) :
    next + Bytes.signed (Bytes.spell width (t - next)) = t := by
  rw [Bytes.signed_spell_of_lt half reaches.1 reaches.2, add_sub_cancel]

theorem displaced_all {places : List Int} (reaches : ∀ t ∈ places,
    -OperandKind.switch.reach ≤ t - next ∧ t - next < OperandKind.switch.reach) :
    ((places.map fun t : Int => t - next).map (Bytes.spell 4)).map
      (fun displacement => next + Bytes.signed displacement) = places := by
  have half : 2 * OperandKind.switch.reach = 256 ^ 4 := by norm_num [OperandKind.reach]
  induction places with
  | nil => rfl
  | cons t places ih =>
      rw [List.forall_mem_cons] at reaches
      rw [List.map_cons, List.map_cons, List.map_cons, displaced half reaches.1, ih reaches.2]

theorem operand_spelled {o : Operand Int} (exact : o.Exact kind next) :
    operand next kind (o.spelled kind next) = o := by
  obtain ⟨fits, stored, reaches, count⟩ := exact
  cases o with
  | none => cases kind <;> first | rfl | cases fits
  | int32 value =>
      have low := value.le_toInt
      have high := value.toInt_lt
      rcases (by simpa [Operand.fits] using fits : kind = .int32 ∨ kind = .shortInt) with
        rfl | rfl
      · change Operand.int32 (.ofInt (Bytes.signed (Bytes.spell 4 value.toInt))) = _
        rw [Bytes.signed_spell_of_lt (by norm_num) low high, Int32.ofInt_toInt]
      · change Operand.int32 (.ofInt (Bytes.signed (Bytes.spell 1 value.toInt))) = _
        have narrow : value.toInt8.toInt32 = value := by simpa [Operand.stored] using stored
        rw [Bytes.signed_spell, pow_one, ← Int32.toInt_toInt8, ← Int8.toInt_toInt32, narrow,
          Int32.ofInt_toInt]
  | int64 value =>
      obtain rfl : kind = .int64 := by simpa [Operand.fits] using fits
      change Operand.int64 (.ofInt (Bytes.signed (Bytes.spell 8 value.toInt))) = _
      rw [Bytes.signed_spell_of_lt (by norm_num) value.le_toInt value.toInt_lt, Int64.ofInt_toInt]
  | float32 bits =>
      obtain rfl : kind = .float32 := by simpa [Operand.fits] using fits
      change Operand.float32 (.ofNat (Bytes.unsigned (Bytes.spell 4 bits.toNat))) = _
      rw [Bytes.unsigned_spell_of_lt (bits.toNat_lt.trans_eq (by norm_num)), UInt32.ofNat_toNat]
  | float64 bits =>
      obtain rfl : kind = .float64 := by simpa [Operand.fits] using fits
      change Operand.float64 (.ofNat (Bytes.unsigned (Bytes.spell 8 bits.toNat))) = _
      rw [Bytes.unsigned_spell_of_lt (bits.toNat_lt.trans_eq (by norm_num)), UInt64.ofNat_toNat]
  | var index =>
      rcases (by simpa [Operand.fits] using fits : kind = .var ∨ kind = .shortVar) with rfl | rfl
      · change Operand.var (.ofNat (Bytes.unsigned (Bytes.spell 2 index.toNat))) = _
        rw [Bytes.unsigned_spell_of_lt (index.toNat_lt.trans_eq (by norm_num)), UInt16.ofNat_toNat]
      · change Operand.var (.ofNat (Bytes.unsigned (Bytes.spell 1 index.toNat))) = _
        have narrow : index.toUInt8.toUInt16 = index := by simpa [Operand.stored] using stored
        have less : index.toNat < 256 := by
          rw [← narrow]
          exact index.toUInt8.toNat_lt
        rw [Bytes.unsigned_spell_of_lt (less.trans_eq (by norm_num)), UInt16.ofNat_toNat]
  | token t =>
      obtain rfl : kind = .token := by simpa [Operand.fits] using fits
      change Operand.token ⟨.ofNat (Bytes.unsigned (Bytes.spell 4 t.raw.toNat))⟩ = _
      rw [Bytes.unsigned_spell_of_lt (t.raw.toNat_lt.trans_eq (by norm_num)), UInt32.ofNat_toNat]
  | target place =>
      have reaches := reaches place List.mem_cons_self
      rcases (by simpa [Operand.fits] using fits : kind = .branch ∨ kind = .shortBranch) with
        rfl | rfl
      · change Operand.target (next + Bytes.signed (Bytes.spell 4 (place - next))) = _
        rw [displaced (by norm_num [OperandKind.reach]) reaches]
      · change Operand.target (next + Bytes.signed (Bytes.spell 1 (place - next))) = _
        rw [displaced (by norm_num [OperandKind.reach]) reaches]
  | switch places =>
      obtain rfl : kind = .switch := by simpa [Operand.fits] using fits
      have same := displaced_all (show ∀ t ∈ places, _ from reaches)
      rw [Operand.spelled, Operand.map, Operand.bytes, operand,
        List.drop_left' (Bytes.length_spell 4 _), Bytes.words_spells, same]
  | byte value =>
      obtain rfl : kind = .byte := by simpa [Operand.fits] using fits
      change Operand.byte (.ofNat (value.toNat + 0)) = _
      rw [Nat.add_zero, UInt8.ofNat_toNat]

/-! ### Writing what was read -/

theorem exact_target {bytes : List UInt8}
    (branch : operand next kind bytes = .target (next + Bytes.signed bytes))
    (fits : (Operand.target (0 : Int)).fits kind = true)
    (half : 2 * kind.reach = 256 ^ bytes.length) : (operand next kind bytes).Exact kind next := by
  have bounds := Bytes.signed_bounds _ half
  rw [branch]
  refine ⟨fits, rfl, ?_, by simp [Operand.places]⟩
  intro t member
  obtain rfl : t = next + Bytes.signed bytes := List.mem_singleton.mp member
  rwa [add_sub_cancel_left]

section Whole

variable {bytes : List UInt8} (whole : operandSize? kind bytes = some bytes.length)
include whole

theorem switch_whole (switch : kind = .switch) :
    4 ≤ bytes.length ∧ (bytes.drop 4).length = 4 * Bytes.unsigned (bytes.take 4) := by
  subst switch
  simp only [operandSize?, OperandKind.size?] at whole
  split at whole
  · rename_i enough
    rw [Option.some.injEq] at whole
    exact ⟨enough, by rw [List.length_drop]; omega⟩
  · cases whole

theorem length_whole {size : Nat} (fixed : kind.size? = some size) : bytes.length = size := by
  rw [operandSize?, fixed] at whole
  exact (Option.some.inj whole).symm

theorem exact_operand : (operand next kind bytes).Exact kind next := by
  cases kind with
  | shortInt =>
      have length := length_whole whole rfl
      have bounds := Bytes.signed_bounds 0x80 (by rw [length]; norm_num)
      refine .of_data _ rfl (congrArg Operand.int32 (Int32.toInt_inj.mp ?_)) rfl
      rw [if_pos rfl, Int8.toInt_toInt32, Int32.toInt_toInt8, Int32.toInt_ofInt_of_le
        (by omega) (by omega), Int.bmod_eq_of_le_mul_two (by omega) (by omega)]
  | shortVar =>
      have length := length_whole whole rfl
      have less : Bytes.unsigned bytes < 256 := by simpa [length] using Bytes.unsigned_lt bytes
      refine .of_data _ rfl (congrArg Operand.var (UInt16.toNat_inj.mp ?_)) rfl
      rw [if_pos rfl, UInt8.toNat_toUInt16, UInt16.toNat_toUInt8, UInt16.toNat_ofNat']
      omega
  | shortBranch =>
      have length := length_whole whole rfl
      exact exact_target rfl rfl (by rw [length]; norm_num [OperandKind.reach])
  | branch =>
      have length := length_whole whole rfl
      exact exact_target rfl rfl (by rw [length]; norm_num [OperandKind.reach])
  | switch =>
      obtain ⟨enough, rest⟩ := switch_whole whole rfl
      obtain ⟨count, four, -⟩ := Bytes.words_whole _ _ rest
      have less := Bytes.unsigned_lt (bytes.take 4)
      rw [List.length_take, min_eq_left enough] at less
      refine ⟨rfl, rfl, ?_, ?_⟩
      · intro t member
        obtain ⟨w, listed, rfl⟩ := List.mem_map.mp member
        rw [add_sub_cancel_left]
        exact Bytes.signed_bounds _ (by rw [four w listed]; norm_num [OperandKind.reach])
      · rw [operand, Operand.places, List.length_map, count]
        exact less.trans_eq (by norm_num)
  | _ => exact .of_data _ rfl rfl rfl

theorem spelled_operand : (operand next kind bytes).spelled kind next = bytes := by
  cases kind with
  | none =>
      have length := length_whole whole rfl
      exact (List.length_eq_zero_iff.mp length).symm
  | shortInt =>
      have length := length_whole whole rfl
      have bounds := Bytes.signed_bounds 0x80 (by rw [length]; norm_num)
      change Bytes.spell 1 (Int32.ofInt (Bytes.signed bytes)).toInt = bytes
      rw [Int32.toInt_ofInt_of_le (by omega) (by omega), Bytes.spell_signed length]
  | int32 =>
      have length := length_whole whole rfl
      have bounds := Bytes.signed_bounds (2 ^ 31) (by rw [length]; norm_num)
      change Bytes.spell 4 (Int32.ofInt (Bytes.signed bytes)).toInt = bytes
      rw [Int32.toInt_ofInt_of_le bounds.1 bounds.2, Bytes.spell_signed length]
  | int64 =>
      have length := length_whole whole rfl
      have bounds := Bytes.signed_bounds (2 ^ 63) (by rw [length]; norm_num)
      change Bytes.spell 8 (Int64.ofInt (Bytes.signed bytes)).toInt = bytes
      rw [Int64.toInt_ofInt_of_le bounds.1 bounds.2, Bytes.spell_signed length]
  | float32 =>
      have length := length_whole whole rfl
      have less := Bytes.unsigned_lt bytes
      change Bytes.spell 4 (UInt32.ofNat (Bytes.unsigned bytes)).toNat = bytes
      rw [UInt32.toNat_ofNat_of_lt' (less.trans_eq (by rw [length]; rfl)),
        Bytes.spell_unsigned length]
  | float64 =>
      have length := length_whole whole rfl
      have less := Bytes.unsigned_lt bytes
      change Bytes.spell 8 (UInt64.ofNat (Bytes.unsigned bytes)).toNat = bytes
      rw [UInt64.toNat_ofNat_of_lt' (less.trans_eq (by rw [length]; rfl)),
        Bytes.spell_unsigned length]
  | shortVar =>
      have length := length_whole whole rfl
      have less : Bytes.unsigned bytes < 256 := by simpa [length] using Bytes.unsigned_lt bytes
      change Bytes.spell 1 (UInt16.ofNat (Bytes.unsigned bytes)).toNat = bytes
      rw [UInt16.toNat_ofNat_of_lt' (less.trans (by decide)), Bytes.spell_unsigned length]
  | var =>
      have length := length_whole whole rfl
      have less := Bytes.unsigned_lt bytes
      change Bytes.spell 2 (UInt16.ofNat (Bytes.unsigned bytes)).toNat = bytes
      rw [UInt16.toNat_ofNat_of_lt' (less.trans_eq (by rw [length]; rfl)),
        Bytes.spell_unsigned length]
  | shortBranch =>
      have length := length_whole whole rfl
      change Bytes.spell 1 (next + Bytes.signed bytes - next) = bytes
      rw [add_sub_cancel_left, Bytes.spell_signed length]
  | branch =>
      have length := length_whole whole rfl
      change Bytes.spell 4 (next + Bytes.signed bytes - next) = bytes
      rw [add_sub_cancel_left, Bytes.spell_signed length]
  | switch =>
      obtain ⟨enough, rest⟩ := switch_whole whole rfl
      obtain ⟨count, -, -⟩ := Bytes.words_whole _ _ rest
      have table : (List.map (fun w => next + Bytes.signed w) (Bytes.words (bytes.drop 4))).map
          (fun t : Int => t - next) = (Bytes.words (bytes.drop 4)).map Bytes.signed := by
        rw [List.map_map]
        exact List.map_congr_left fun w _ => add_sub_cancel_left _ _
      rw [operand, Operand.spelled, Operand.map, table, Operand.bytes, List.length_map, count,
        Bytes.spell_unsigned (by rw [List.length_take, min_eq_left enough]),
        Bytes.spells_words rest, List.take_append_drop]
  | token =>
      have length := length_whole whole rfl
      have less := Bytes.unsigned_lt bytes
      change Bytes.spell 4 (UInt32.ofNat (Bytes.unsigned bytes)).toNat = bytes
      rw [UInt32.toNat_ofNat_of_lt' (less.trans_eq (by rw [length]; rfl)),
        Bytes.spell_unsigned length]
  | byte =>
      obtain ⟨b, rfl⟩ := List.length_eq_one_iff.mp (length_whole whole rfl)
      change [UInt8.ofNat (b.toNat + 0)] = [b]
      rw [Nat.add_zero, UInt8.ofNat_toNat]

end Whole

theorem operandSize?_take {rest : List UInt8} {size : Nat}
    (read : operandSize? kind rest = some size) (enough : size ≤ rest.length) :
    operandSize? kind (rest.take size) = some (rest.take size).length := by
  have length : (rest.take size).length = size := by rw [List.length_take, min_eq_left enough]
  rw [length]
  unfold operandSize? at read ⊢
  cases fixed : kind.size? with
  | some fixed => simpa only [fixed] using read
  | none =>
      simp only [fixed] at read ⊢
      split at read
      · obtain rfl := Option.some.inj read
        rw [List.take_take, min_eq_left (by omega), length, if_pos (by omega)]
      · cases read

end Decode

/-! ## Instructions -/

namespace Instruction

structure Exact (i : Instruction Int) : Prop where
  operand : i.operand.Exact i.opcode.kind i.nextOffset
  size : i.size = i.opcode.encoding.bytes.length + i.operand.size i.opcode.kind

def spelled (i : Instruction Int) : List UInt8 :=
  i.opcode.encoding.bytes ++ i.operand.spelled i.opcode.kind i.nextOffset

theorem length_spelled (i : Instruction Int) :
    i.spelled.length = i.opcode.encoding.bytes.length + i.operand.size i.opcode.kind := by
  rw [spelled, List.length_append, Operand.length_spelled]

theorem Exact.size_pos {i : Instruction Int} (exact : i.Exact) : 0 < i.size := by
  rw [exact.size]
  exact Nat.add_pos_left i.opcode.length_encoding_pos _

end Instruction

namespace Decode

theorem instruction_spelled {i : Instruction Int} (exact : i.Exact) {first : UInt8}
    {rest after : List UInt8} (spelled : first :: rest = i.spelled ++ after) :
    instruction i.index i.offset first rest = .ok (i, after) := by
  have length := Operand.length_spelled i.opcode.kind i.nextOffset i.operand
  rw [Instruction.spelled, List.append_assoc] at spelled
  rw [instruction, opcode_bytes i.offset spelled]
  simp only [bind, Except.bind, operandSize?_spelled exact.operand after]
  rw [if_pos (by rw [List.length_append, length]; omega), List.take_left' length,
    List.drop_left' length, ← exact.size, ← Instruction.nextOffset, operand_spelled exact.operand]

theorem spelled_instruction {index offset : Nat} {first : UInt8} {rest after : List UInt8}
    {i : Instruction Int} (read : instruction index offset first rest = .ok (i, after)) :
    i.index = index ∧ i.offset = offset ∧ i.Exact ∧ first :: rest = i.spelled ++ after := by
  obtain ⟨⟨op, rest⟩, found, read⟩ := bind_eq_ok.mp read
  dsimp only at read
  rw [bytes_of_opcode found]
  cases sized : operandSize? op.kind rest with
  | none =>
      rw [sized] at read
      cases read
  | some size =>
      simp only [sized] at read
      split at read
      · rename_i enough
        have whole := operandSize?_take sized enough
        obtain ⟨next, ends⟩ : ∃ next, next = offset + (op.encoding.bytes.length + size) := ⟨_, rfl⟩
        have exact : (operand next op.kind (rest.take size)).Exact op.kind next :=
          exact_operand whole
        have same : (operand next op.kind (rest.take size)).spelled op.kind next = rest.take size :=
          spelled_operand whole
        have length := Operand.length_spelled op.kind next (operand next op.kind (rest.take size))
        rw [same, List.length_take, min_eq_left enough] at length
        rw [← ends] at read
        cases read
        refine ⟨rfl, rfl, ⟨?_, congrArg _ length⟩, ?_⟩
        · rw [Instruction.nextOffset, ← ends]
          exact exact
        · rw [Instruction.spelled, Instruction.nextOffset, ← ends, same, List.append_assoc,
            List.take_append_drop]
      · cases read

end Decode

/-! ## Placement -/

section Placement

variable {Place : Type} {index offset : Nat} {i : Instruction Place}
  {l : List (Instruction Place)}

def extent (l : List (Instruction Place)) : Nat := (l.map (·.size)).sum

theorem extent_cons : extent (i :: l) = i.size + extent l := by simp [extent]

theorem extent_concat : extent (l ++ [i]) = extent l + i.size := by simp [extent]

theorem extent_take_lt (positive : ∀ i ∈ l, 0 < i.size) {j k : Nat} (before : j < k)
    (within : k ≤ l.length) : extent (l.take j) < extent (l.take k) := by
  have here : j < l.length := by omega
  have step : extent (l.take (j + 1)) = extent (l.take j) + l[j].size := by
    rw [List.take_succ_eq_append_getElem here, extent_concat]
  have later : extent (l.take (j + 1)) ≤ extent (l.take k) :=
    (((List.take_prefix_take_left (Nat.succ_le_of_lt before)).sublist).map _).sum_le_sum
      fun _ _ => Nat.zero_le _
  have some := positive _ (List.getElem_mem here)
  omega

theorem extent_take_le (k : Nat) (l : List (Instruction Place)) : extent (l.take k) ≤ extent l :=
  (((List.take_sublist k l)).map _).sum_le_sum fun _ _ => Nat.zero_le _

structure Placed (index offset : Nat) (l : List (Instruction Place)) : Prop where
  numbered : Numbered index l
  offsets : ∀ k i, l[k]? = some i → i.offset = offset + extent (l.take k)

theorem placed_nil : Placed index offset ([] : List (Instruction Place)) :=
  ⟨fun k i found => by simp at found, fun k i found => by simp at found⟩

theorem placed_cons : Placed index offset (i :: l) ↔
    i.index = index ∧ i.offset = offset ∧ Placed (index + 1) (offset + i.size) l := by
  constructor
  · rintro ⟨numbered, offsets⟩
    refine ⟨numbered 0 i rfl, offsets 0 i rfl, fun k j found => ?_, fun k j found => ?_⟩
    · rw [numbered (k + 1) j found]
      omega
    · rw [offsets (k + 1) j found, List.take_succ_cons, extent_cons]
      omega
  · rintro ⟨here, starts, numbered, offsets⟩
    refine ⟨numbered_cons here numbered, fun k j found => ?_⟩
    cases k with
    | zero =>
        cases found
        exact starts
    | succ k =>
        rw [offsets k j found, List.take_succ_cons, extent_cons]
        omega

theorem Placed.concat (placed : Placed index offset l) (here : i.index = index + l.length)
    (starts : i.offset = offset + extent l) : Placed index offset (l ++ [i]) := by
  induction l generalizing index offset with
  | nil => exact placed_cons.mpr ⟨here, starts, placed_nil⟩
  | cons j l ih =>
      obtain ⟨first, start, placed⟩ := placed_cons.mp placed
      rw [List.length_cons] at here
      rw [extent_cons] at starts
      refine placed_cons.mpr ⟨first, start, ih placed ?_ ?_⟩
      · omega
      · omega

namespace Placed

theorem append_left {more : List (Instruction Place)} (placed : Placed index offset (l ++ more)) :
    Placed index offset l := by
  induction l generalizing index offset with
  | nil => exact placed_nil
  | cons i l ih =>
      obtain ⟨here, starts, placed⟩ := placed_cons.mp placed
      exact placed_cons.mpr ⟨here, starts, ih placed⟩

variable (placed : Placed index offset l)
include placed

theorem getLast?_eq : (l.getLast?.map (·.nextOffset)).getD offset = offset + extent l := by
  cases l using List.reverseRecOn with
  | nil => rfl
  | append_singleton l i =>
      have starts := placed.offsets l.length i (by simp)
      rw [List.take_left' rfl] at starts
      rw [List.getLast?_concat, Option.map_some, Option.getD_some, Instruction.nextOffset, starts,
        extent_concat, Nat.add_assoc]

theorem nextOffset_le (member : i ∈ l) : i.nextOffset ≤ offset + extent l := by
  obtain ⟨k, within, rfl⟩ := List.getElem_of_mem member
  have starts := placed.offsets k _ (List.getElem?_eq_getElem within)
  have ends := extent_take_le (k + 1) l
  rw [List.take_succ_eq_append_getElem within, extent_concat] at ends
  rw [Instruction.nextOffset]
  omega

variable (positive : ∀ i ∈ l, 0 < i.size)
include positive

theorem findIdx?_offset {k : Nat} (within : k < l.length) :
    l.findIdx? (fun i => i.offset = offset + extent (l.take k)) = some k := by
  rw [List.findIdx?_eq_some_iff_getElem]
  refine ⟨within, ?_, fun j before => ?_⟩
  · simpa using placed.offsets k _ (List.getElem?_eq_getElem within)
  · have less := extent_take_lt positive before within.le
    have starts := placed.offsets j _ (List.getElem?_eq_getElem (before.trans within))
    simp only [decide_eq_true_eq]
    omega

theorem findIdx?_end : l.findIdx? (fun i => i.offset = offset + extent l) = none := by
  rw [List.findIdx?_eq_none_iff]
  intro i member
  obtain ⟨k, within, rfl⟩ := List.getElem_of_mem member
  have less := extent_take_lt positive within le_rfl
  have starts := placed.offsets k _ (List.getElem?_eq_getElem within)
  rw [List.take_length] at less
  simp only [decide_eq_false_iff_not]
  omega

end Placed

theorem Placed.rising (placed : Placed index offset l) (positive : ∀ i ∈ l, 0 < i.size) :
    (l.map (·.offset)).Pairwise (· < ·) := by
  rw [List.pairwise_map, List.pairwise_iff_getElem]
  intro j k within within' before
  have less := extent_take_lt positive before within'.le
  rw [placed.offsets j _ (List.getElem?_eq_getElem within),
    placed.offsets k _ (List.getElem?_eq_getElem within')]
  omega

theorem bisect_of_getElem? {l : Listing} (rising : (l.map (·.offset)).Pairwise (· < ·)) {k : Nat}
    {i : Instruction Nat} (found : l[k]? = some i) {base size : Nat} (low : base ≤ k)
    (high : k < base + size) (bounded : base + size ≤ l.length) :
    l.bisect i.offset base size = k := by
  -- Halving finds the one instruction at an offset, as long as the offsets rise.
  rw [List.pairwise_map, List.pairwise_iff_getElem] at rising
  obtain ⟨within, rfl⟩ := List.getElem?_eq_some_iff.mp found
  fun_induction Listing.bisect l l[k].offset base size with
  | case1 base size more half middle above ih =>
      have inside : middle < l.length := by omega
      rw [List.getElem?_eq_getElem inside] at above
      have before : k < middle := by
        by_contra past
        rcases Nat.eq_or_lt_of_le (Nat.le_of_not_lt past) with same | past
        · simp [same] at above
        · have less := rising middle k inside within past
          simp at above
          omega
      exact ih low (by omega) (by omega)
  | case2 base size more half middle below ih =>
      have inside : middle < l.length := by omega
      rw [List.getElem?_eq_getElem inside] at below
      have after : middle ≤ k := by
        by_contra before
        have less := rising k middle within inside (Nat.lt_of_not_le before)
        simp at below
        omega
      exact ih after (by omega) (by omega)
  | case3 base size few => omega

theorem indexAt?_of_getElem? {l : Listing} (rising : (l.map (·.offset)).Pairwise (· < ·)) {k : Nat}
    {i : Instruction Nat} (found : l[k]? = some i) (before : i.offset ≠ l.codeSize) :
    l.indexAt? i.offset = some k := by
  have within := (List.getElem?_eq_some_iff.mp found).1
  have here := bisect_of_getElem? rising found (Nat.zero_le k)
    (by rwa [Nat.zero_add]) (Nat.zero_add _).le
  rw [Listing.indexAt?, if_neg before]
  simp [here, found]

theorem Placed.codeSize_eq {l : Listing} (placed : Placed 0 0 l) : l.codeSize = extent l := by
  have last := placed.getLast?_eq
  rwa [Nat.zero_add] at last

theorem Placed.indexAt?_extent {l : Listing} (placed : Placed 0 0 l)
    (positive : ∀ i ∈ l, 0 < i.size) {k : Nat} (within : k ≤ l.length) :
    l.indexAt? (extent (l.take k)) = some k := by
  rcases Nat.lt_or_eq_of_le within with inside | rfl
  · have found := List.getElem?_eq_getElem inside
    have starts := placed.offsets k _ found
    have less := extent_take_lt positive inside le_rfl
    rw [List.take_length] at less
    rw [Nat.zero_add] at starts
    rw [← starts]
    apply indexAt?_of_getElem? (placed.rising positive) found
    rw [starts, placed.codeSize_eq]
    exact less.ne
  · rw [List.take_length, ← placed.codeSize_eq, Listing.indexAt?, if_pos rfl]

end Placement

/-! ## Scans -/

namespace Decode

theorem scan_cons {index offset : Nat} {first : UInt8} {rest after : List UInt8}
    {i : Instruction Int} (read : instruction index offset first rest = .ok (i, after)) :
    scan index offset (first :: rest) =
      (scan (index + 1) i.nextOffset after >>= fun later => .ok (i :: later)) := by
  rw [scan]
  split
  · rename_i failed
    rw [read] at failed
    cases failed
  · rename_i found
    rw [read] at found
    cases found
    rfl

theorem scan_spelled {i : Instruction Int} (exact : i.Exact) (after : List UInt8) :
    scan i.index i.offset (i.spelled ++ after) =
      (scan (i.index + 1) i.nextOffset after >>= fun later => .ok (i :: later)) := by
  have nonempty : i.spelled ++ after ≠ [] := by
    have positive := exact.size_pos
    rw [exact.size, ← i.length_spelled] at positive
    exact List.append_ne_nil_of_left_ne_nil (List.ne_nil_of_length_pos positive) _
  obtain ⟨first, rest, code⟩ := List.exists_cons_of_ne_nil nonempty
  rw [code, scan_cons (instruction_spelled exact code.symm)]

/-- Code is cut into the instructions that spell it, and into no others. -/
theorem scan_eq_ok {index offset : Nat} {code : List UInt8} {scanned : List (Instruction Int)} :
    scan index offset code = .ok scanned ↔
      Placed index offset scanned ∧ (∀ i ∈ scanned, i.Exact) ∧
        code = scanned.flatMap Instruction.spelled := by
  constructor
  · intro read
    fun_induction scan index offset code generalizing scanned with
    | case1 index offset =>
        cases read
        exact ⟨placed_nil, by simp, rfl⟩
    | case2 index offset first rest e failed => cases read
    | case3 index offset first rest i after found _ ih =>
        obtain ⟨later, scanned, same⟩ := bind_eq_ok.mp read
        cases same
        obtain ⟨here, starts, exact, spelled⟩ := spelled_instruction found
        obtain ⟨placed, others, code⟩ := ih scanned
        rw [Instruction.nextOffset, starts] at placed
        refine ⟨placed_cons.mpr ⟨here, starts, placed⟩, ?_, ?_⟩
        · rw [List.forall_mem_cons]
          exact ⟨exact, others⟩
        · rw [spelled, List.flatMap_cons, ← code]
  · rintro ⟨placed, exact, rfl⟩
    induction scanned generalizing index offset with
    | nil => simp [scan]
    | cons i scanned ih =>
        rw [List.forall_mem_cons] at exact
        obtain ⟨rfl, rfl, placed⟩ := placed_cons.mp placed
        rw [List.flatMap_cons, scan_spelled exact.1, Instruction.nextOffset, ih placed exact.2]
        rfl

end Decode

end Destack
