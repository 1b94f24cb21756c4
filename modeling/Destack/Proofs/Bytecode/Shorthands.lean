import Destack.Proofs.Bytecode.Acceptance
import Destack.Proofs.Bytecode.Reports
import Destack.Proofs.Replay.Accesses

namespace Destack

namespace Operand

variable {Place Other : Type}

theorem eq_of_map {f g : Place → Other} {o r : Operand Place} (data : r.places = [])
    (same : o.map f = r.map g) : o = r := by
  cases r with
  | target place => cases data
  | switch places =>
      obtain rfl : places = [] := data
      cases o <;> simp_all [map]
  | _ =>
      cases o <;> cases same
      rfl

theorem stored_of_map {f : Place → Other} {kind : OperandKind} {o : Operand Place}
    (same : (o.map f).stored kind = o.map f) : o.stored kind = o := by
  cases o with
  | int32 value => exact congrArg int32 (int32.inj same)
  | var index => exact congrArg var (var.inj same)
  | _ => rfl

end Operand

structure Instruction.Whole (i : Instruction Nat) : Prop where
  stored : i.operand.stored i.opcode.kind = i.operand
  size : i.size = i.opcode.encoding.bytes.length + i.operand.size i.opcode.kind

theorem whole_of_decode {code : List UInt8} {l : Listing} (read : decode code = .ok l)
    {i : Instruction Nat} (member : i ∈ l) : i.Whole := by
  obtain ⟨cut, scanned, linked⟩ := bind_eq_ok.mp read
  have cuts := Decode.scan_eq_ok_iff.mp scanned
  rw [← map_byOffset linked] at cuts
  obtain ⟨operand, size⟩ := cuts.exact _ (List.mem_map_of_mem member)
  refine ⟨Operand.stored_of_map operand.stored, ?_⟩
  rwa [Listing.byOffset, Operand.size_map] at size

theorem length_of_decode_singleton {code : List UInt8} {i : Instruction Nat}
    (read : decode code = .ok [i]) : code.length = i.size := by
  obtain ⟨-, -, length⟩ := placed_decode read
  rw [← length, extent_cons]
  rfl

theorem Opcode.length_encoding_le (op : Opcode) : op.encoding.bytes.length ≤ 2 := by
  cases op.encoding <;> simp [Encoding.bytes]

namespace Operand

theorem size_le_of_data {Place : Type} {o : Operand Place} (kind : OperandKind)
    (data : o.places = []) : o.size kind ≤ 8 := by
  cases o with
  | target place => cases data
  | switch places =>
      obtain rfl : places = [] := data
      simp [size]
  | int32 value | var index =>
      rw [size]
      split <;> omega
  | _ => simp [size]

theorem stored_shortInt {Place : Type} {value : Int32} :
    (int32 value : Operand Place).stored .shortInt = int32 value ↔
      -128 ≤ value.toInt ∧ value.toInt ≤ 127 := by
  have low := value.toInt8.le_toInt
  have high := value.toInt8.toInt_lt
  rw [stored, if_pos rfl, int32.injEq, ← Int32.toInt_inj, Int8.toInt_toInt32]
  constructor
  · intro same
    omega
  · rintro ⟨least, most⟩
    rw [Int32.toInt_toInt8, Int.bmod_eq_of_le_mul_two (by omega) (by omega)]

theorem stored_shortVar {Place : Type} {index : UInt16} :
    (var index : Operand Place).stored .shortVar = var index ↔ index.toNat ≤ 255 := by
  rw [stored, if_pos rfl, var.injEq, ← UInt16.toNat_inj, UInt8.toNat_toUInt16,
    UInt16.toNat_toUInt8]
  omega

end Operand

namespace Assembly

/-- The call is a shortest spelling of the instructions with some meaning. -/
structure Spells (c : Call) (Means : Instruction Nat → Prop) : Prop where
  alone : ∃ f i, (write [c]).finish = .ok f ∧ decode f.code = .ok [i] ∧ Means i
  among : ∀ before after f l, OwnLabels 0 (before ++ c :: after) →
    (write (before ++ c :: after)).finish = .ok f → f.code.length < 2 ^ 31 →
    decode f.code = .ok l → ∃ i, l[(emitted before).length]? = some i ∧ Means i
  shortest : ∀ f, (write [c]).finish = .ok f → ∀ code i, decode code = .ok [i] → Means i →
    f.code.length ≤ code.length

structure Verbatim (e : Opcode × Operand Label) : Prop where
  fits : e.2.fits e.1.kind = true
  stored : e.2.stored e.1.kind = e.2
  data : e.2.places = []

section Verbatim

variable {c : Call} {e : Opcode × Operand Label} (emits : c.emitted? = some e)
include emits

theorem length_code_singleton {f : Finished} (finished : (write [c]).finish = .ok f) :
    f.code.length = emittedSize e := by
  have length := codeLength_concat emits []
  rw [length_code finished, extent_write]
  exact length.trans (Nat.zero_add _)

variable (verbatim : Verbatim e)
include verbatim

theorem exists_decoded {before after : List Call} {f : Finished} {l : Listing}
    (own : OwnLabels 0 (before ++ c :: after))
    (finished : (write (before ++ c :: after)).finish = .ok f) (short : f.code.length < 2 ^ 31)
    (read : decode f.code = .ok l) :
    ∃ i, l[(emitted before).length]? = some i ∧ i.opcode = e.1 ∧ i.operand = e.2 := by
  have same := congrArg (·[(emitted before).length]?) (emitted_decoded own finished short read)
  have here : (emitted (before ++ c :: after))[(emitted before).length]? = some e := by
    simp [emitted, emits]
  rw [List.getElem?_map, List.getElem?_map, here, Option.map_some] at same
  obtain ⟨i, found, same⟩ := Option.map_eq_some_iff.mp same
  obtain ⟨opcode, operand⟩ := Prod.mk.inj same
  rw [verbatim.stored] at operand
  exact ⟨i, found, opcode, Operand.eq_of_map verbatim.data operand⟩

theorem ownLabels_singleton : OwnLabels 0 [c] := by
  refine ⟨?_, trivial⟩
  rw [labels_of_emitted? emits, verbatim.data]
  simp

theorem exists_finish_singleton : ∃ f, (write [c]).finish = .ok f := by
  have written : write [c] = emit {} e.1 e.2 := perform_eq_emit {} emits
  have nowhere : named [c] = [] := by simp [named, emitted, emits, verbatim.data]
  refine ⟨_, finish_eq_ok.mpr ⟨?_, ?_, ?_, rfl⟩⟩
  · rw [written, fault_emit]
    exact ⟨rfl, verbatim.fits⟩
  · rw [unbound?_eq_none, referenced_write, nowhere]
    simp
  · intro i member
    rw [written, instructions_emit] at member
    obtain rfl := List.mem_singleton.mp member
    rw [overreach?_eq_none]
    intro _ label target
    have data := verbatim.data
    rw [show e.2 = .target label from target] at data
    cases data

theorem exists_decode_singleton {f : Finished} (finished : (write [c]).finish = .ok f) :
    ∃ i, decode f.code = .ok [i] ∧ i.opcode = e.1 ∧ i.operand = e.2 := by
  have own := ownLabels_singleton emits verbatim
  have short : f.code.length < 2 ^ 31 := by
    have opcode := e.1.length_encoding_le
    have operand := Operand.size_le_of_data e.1.kind verbatim.data
    rw [length_code_singleton emits finished, emittedSize]
    omega
  obtain ⟨l, read⟩ := (exists_decode_iff own finished short).mpr (by
    intro i member label target
    have listed : label ∈ named [c] :=
      referenced_write [c] ▸ List.mem_flatMap.mpr ⟨i, member, target⟩
    simp [named, emitted, emits, verbatim.data] at listed)
  have alone : OwnLabels 0 ([] ++ c :: []) := own
  obtain ⟨i, found, same⟩ := exists_decoded emits verbatim alone finished short read
  have length := congrArg List.length (emitted_decoded own finished short read)
  have single : (emitted [c]).length = 1 := by simp [emitted, emits]
  rw [List.length_map, List.length_map, single] at length
  obtain ⟨j, rfl⟩ := List.length_eq_one_iff.mp length
  cases found
  exact ⟨i, read, same⟩

theorem spells_of_verbatim {Means : Instruction Nat → Prop}
    (means : ∀ i, i.opcode = e.1 → i.operand = e.2 → Means i)
    (least : ∀ i : Instruction Nat, i.Whole → Means i → emittedSize e ≤ i.size) :
    Spells c Means where
  alone := by
    obtain ⟨f, finished⟩ := exists_finish_singleton emits verbatim
    obtain ⟨i, read, opcode, operand⟩ := exists_decode_singleton emits verbatim finished
    exact ⟨f, i, finished, read, means i opcode operand⟩
  among before after f l own finished short read := by
    obtain ⟨i, found, opcode, operand⟩ := exists_decoded emits verbatim own finished short read
    exact ⟨i, found, means i opcode operand⟩
  shortest f finished code i read meant := by
    rw [length_code_singleton emits finished, length_of_decode_singleton read]
    exact least i (whole_of_decode read List.mem_cons_self) meant

end Verbatim

structure Form (op : Opcode) (action : Action) (kind : OperandKind) (length : Nat) : Prop where
  action : op.action = action
  kind : op.kind = kind
  length : op.encoding.bytes.length = length

/-- Opcodes that access one thing out of many: some imply which, and the others take it as an
operand, in a byte or in full. -/
structure Family (α : Type) where
  action : Option α → Action
  operand : α → Operand Label
  short : OperandKind
  full : OperandKind
  length : Nat
  data : ∀ a, (operand a).places = []
  fits_short : ∀ a, (operand a).fits short = true
  fits_full : ∀ a, (operand a).fits full = true
  stored_full : ∀ a, (operand a).stored full = operand a
  size_short : ∀ a, (operand a).size short = 1
  size_full : ∀ a, 1 ≤ (operand a).size full
  explicit : ∀ op : Opcode, op.action = action none →
    op.kind = short ∨ op.kind = full ∧ op.encoding.bytes.length = length

namespace Family

variable {α : Type}

def Accesses (F : Family α) (a : α) (i : Instruction Nat) : Prop :=
  i.opcode.action = F.action (some a) ∨
    i.opcode.action = F.action none ∧ i.operand = F.operand a

inductive Shortest (F : Family α) (a : α) : Opcode × Operand Label → Prop
  | implied {op : Opcode} (form : Form op (F.action (some a)) .none 1) : Shortest F a (op, .none)
  | short {op : Opcode} (form : Form op (F.action none) F.short 1)
      (unimplied : ∀ op : Opcode, op.action ≠ F.action (some a))
      (fits : (F.operand a).stored F.short = F.operand a) : Shortest F a (op, F.operand a)
  | full {op : Opcode} (form : Form op (F.action none) F.full F.length)
      (unimplied : ∀ op : Opcode, op.action ≠ F.action (some a))
      (large : (F.operand a).stored F.short ≠ F.operand a) : Shortest F a (op, F.operand a)

namespace Shortest

variable {F : Family α} {a : α} {e : Opcode × Operand Label}

theorem verbatim (shortest : F.Shortest a e) : Verbatim e := by
  cases shortest with
  | implied form => exact ⟨by simp [Operand.fits, form.kind], rfl, rfl⟩
  | short form unimplied fits =>
      constructor
      · rw [form.kind]
        exact F.fits_short a
      · rw [form.kind]
        exact fits
      · exact F.data a
  | full form unimplied large =>
      constructor
      · rw [form.kind]
        exact F.fits_full a
      · rw [form.kind]
        exact F.stored_full a
      · exact F.data a

theorem accesses (shortest : F.Shortest a e) {i : Instruction Nat} (opcode : i.opcode = e.1)
    (operand : i.operand = e.2) : F.Accesses a i := by
  rw [Accesses, opcode, operand]
  cases shortest with
  | implied form => exact .inl form.action
  | short form | full form => exact .inr ⟨form.action, rfl⟩

theorem le_size (shortest : F.Shortest a e) {i : Instruction Nat} (whole : i.Whole)
    (accesses : F.Accesses a i) : emittedSize e ≤ i.size := by
  have positive := i.opcode.length_encoding_pos
  rw [whole.size, emittedSize]
  cases shortest with
  | implied form =>
      rw [form.length, Operand.size]
      omega
  | short form unimplied fits =>
      obtain ⟨action, operand⟩ := accesses.resolve_left (unimplied _)
      rw [form.length, form.kind, F.size_short, operand]
      have takes : 1 ≤ (F.operand a).size i.opcode.kind := by
        rcases F.explicit _ action with kind | ⟨kind, -⟩ <;> rw [kind]
        · exact (F.size_short a).ge
        · exact F.size_full a
      omega
  | full form unimplied large =>
      obtain ⟨action, operand⟩ := accesses.resolve_left (unimplied _)
      rcases F.explicit _ action with kind | ⟨kind, length⟩
      · -- What is read from a byte fits in a byte.
        have stored := whole.stored
        rw [kind, operand] at stored
        exact absurd stored large
      · rw [form.length, form.kind, length, kind, operand]

theorem spells {c : Call} (shortest : F.Shortest a e) (emits : c.emitted? = some e)
    {Means : Instruction Nat → Prop} (means : ∀ i, Means i ↔ F.Accesses a i) : Spells c Means := by
  apply spells_of_verbatim emits shortest.verbatim
  · intro i opcode operand
    exact (means i).mpr (shortest.accesses opcode operand)
  · intro i whole meant
    exact shortest.le_size whole ((means i).mp meant)

end Shortest

theorem kind_of_loadInt32 (op : Opcode) (action : op.action = .loadInt32 none) :
    op.kind = .shortInt ∨ op.kind = .int32 ∧ op.encoding.bytes.length = 1 := by
  have listed : ∀ op ∈ Opcode.all, op.action = .loadInt32 none →
      op.kind = .shortInt ∨ op.kind = .int32 ∧ op.encoding.bytes.length = 1 := by
    decide +kernel
  exact listed op op.mem_all action

def integers : Family Int32 where
  action := .loadInt32
  operand := .int32
  short := .shortInt
  full := .int32
  length := 1
  data _ := rfl
  fits_short _ := rfl
  fits_full _ := rfl
  stored_full _ := rfl
  size_short _ := rfl
  size_full _ := show 1 ≤ 4 by decide
  explicit := kind_of_loadInt32

def onVariables (action : Option UInt16 → Action)
    (explicit : ∀ op ∈ Opcode.all, op.action = action none →
      op.kind = .shortVar ∨ op.kind = .var ∧ op.encoding.bytes.length = 2) : Family UInt16 where
  action := action
  operand := .var
  short := .shortVar
  full := .var
  length := 2
  data _ := rfl
  fits_short _ := rfl
  fits_full _ := rfl
  stored_full _ := rfl
  size_short _ := rfl
  size_full _ := show 1 ≤ 2 by decide
  explicit op := explicit op op.mem_all

def loads (frame : Frame) : Family UInt16 :=
  onVariables (.load frame) (by cases frame <;> decide +kernel)

def stores (frame : Frame) : Family UInt16 :=
  onVariables (.store frame) (by cases frame <;> decide +kernel)

end Family

def impliedInt? : Action → Option Int32
  | .loadInt32 implicit => implicit
  | _ => none

def impliedVar? : Action → Option UInt16
  | .load _ implicit | .store _ implicit => implicit
  | _ => none

theorem impliedInt_bounds {op : Opcode} {value : Int32}
    (implied : impliedInt? op.action = some value) : -1 ≤ value.toInt ∧ value.toInt ≤ 8 := by
  have listed : ∀ op ∈ Opcode.all,
      (impliedInt? op.action).all fun value => -1 ≤ value.toInt ∧ value.toInt ≤ 8 := by
    decide +kernel
  have bounds := listed op op.mem_all
  rwa [implied, Option.all_some, decide_eq_true_eq] at bounds

theorem impliedVar_lt {op : Opcode} {index : UInt16}
    (implied : impliedVar? op.action = some index) : index.toNat < 4 := by
  have listed : ∀ op ∈ Opcode.all,
      (impliedVar? op.action).all fun index => index.toNat < 4 := by
    decide +kernel
  have bound := listed op op.mem_all
  rwa [implied, Option.all_some, decide_eq_true_eq] at bound

def numbered? : Action → Option (Opcode × Int)
  | .loadInt32 (some value) => some (.ldcI4_0, value.toInt)
  | .load .params (some index) => some (.ldarg0, index.toNat)
  | .load .locals (some index) => some (.ldloc0, index.toNat)
  | .store .locals (some index) => some (.stloc0, index.toNat)
  | _ => none

/-- The number that an opcode implies is its distance from the first one of its family. -/
theorem distance_of_implied {op : Opcode}
    (implies : (impliedInt? op.action).isSome ∨ (impliedVar? op.action).isSome) :
    ∃ first n, numbered? op.action = some (first, n) ∧
      (op.encoding.number : Int) - first.encoding.number = n := by
  have listed : ∀ op ∈ Opcode.all,
      (impliedInt? op.action).isSome ∨ (impliedVar? op.action).isSome →
        (numbered? op.action).any fun entry =>
          (op.encoding.number : Int) - entry.1.encoding.number = entry.2 := by
    decide +kernel
  obtain ⟨entry, found, distance⟩ := (Option.any_eq_true _ _).mp (listed op op.mem_all implies)
  exact ⟨entry.1, entry.2, found, of_decide_eq_true distance⟩

theorem shortest_of_toInt {op : Opcode} {value : Int32} {n : Int} (same : value.toInt = n)
    (form : Form op (.loadInt32 (some (.ofInt n))) .none 1) :
    Family.integers.Shortest value (op, .none) := by
  rw [← same, Int32.ofInt_toInt] at form
  exact .implied form

theorem shortest_loadInt (value : Int32) : Family.integers.Shortest value (loadInt value) := by
  have unimplied (op : Opcode) (outside : ¬(-1 ≤ value.toInt ∧ value.toInt ≤ 8)) :
      op.action ≠ .loadInt32 (some value) := by
    intro implied
    exact outside (impliedInt_bounds (congrArg impliedInt? implied))
  unfold loadInt
  split
  case h_11 =>
    have outside : ¬(-1 ≤ value.toInt ∧ value.toInt ≤ 8) := by grind
    split
    · rename_i byte
      simp only [Bool.and_eq_true, decide_eq_true_eq] at byte
      exact .short ⟨rfl, rfl, rfl⟩ (unimplied · outside) (Operand.stored_shortInt.mpr byte)
    · rename_i wide
      simp only [Bool.and_eq_true, decide_eq_true_eq] at wide
      refine .full ⟨rfl, rfl, rfl⟩ (unimplied · outside) fun stored => ?_
      exact wide (Operand.stored_shortInt.mp stored)
  all_goals
    rename_i same
    exact shortest_of_toInt same ⟨rfl, rfl, rfl⟩

theorem shortest_accessVar {action : Option UInt16 → Action}
    {explicit : ∀ op ∈ Opcode.all, op.action = action none →
      op.kind = .shortVar ∨ op.kind = .var ∧ op.encoding.bytes.length = 2}
    (implies : ∀ n, impliedVar? (action n) = n) {implicit : List Opcode} {short long : Opcode}
    (first : implicit.map (·.action) = (List.range 4).map fun k => action (some (.ofNat k)))
    (bare : ∀ op ∈ implicit, op.kind = .none ∧ op.encoding.bytes.length = 1)
    (brief : Form short (action none) .shortVar 1) (wide : Form long (action none) .var 2)
    (index : UInt16) :
    (Family.onVariables action explicit).Shortest index (accessVar implicit short long index) := by
  have count := congrArg List.length first
  rw [List.length_map, List.length_map, List.length_range] at count
  unfold accessVar
  cases found : implicit[index.toNat]? with
  | some op =>
      have within := (List.getElem?_eq_some_iff.mp found).1
      have acts := congrArg (·[index.toNat]?) first
      rw [List.getElem?_map, List.getElem?_map, found, List.getElem?_range (count ▸ within)] at acts
      have acts : op.action = action (some index) := by
        simpa only [Option.map_some, UInt16.ofNat_toNat] using Option.some.inj acts
      obtain ⟨kind, length⟩ := bare op (List.mem_of_getElem? found)
      exact .implied ⟨acts, kind, length⟩
  | none =>
      have outside := List.getElem?_eq_none_iff.mp found
      have unimplied (op : Opcode) : op.action ≠ action (some index) := by
        intro implied
        have less := impliedVar_lt ((congrArg impliedVar? implied).trans (implies _))
        omega
      dsimp only
      split
      · rename_i byte
        exact .short brief unimplied (Operand.stored_shortVar.mpr byte)
      · rename_i large
        refine .full wide unimplied fun stored => ?_
        exact large (Operand.stored_shortVar.mp stored)

theorem shortest_loadLocal (index : UInt16) :
    (Family.loads .locals).Shortest index (loadLocal index) :=
  shortest_accessVar (fun _ => rfl) rfl (by decide) ⟨rfl, rfl, rfl⟩ ⟨rfl, rfl, rfl⟩ index

theorem shortest_loadParam (index : UInt16) :
    (Family.loads .params).Shortest index (loadParam index) :=
  shortest_accessVar (fun _ => rfl) rfl (by decide) ⟨rfl, rfl, rfl⟩ ⟨rfl, rfl, rfl⟩ index

theorem shortest_storeLocal (index : UInt16) :
    (Family.stores .locals).Shortest index (storeLocal index) :=
  shortest_accessVar (fun _ => rfl) rfl (by decide) ⟨rfl, rfl, rfl⟩ ⟨rfl, rfl, rfl⟩ index

example : ([-129, -128, -1, 8, 9, 127, 128].map fun value => codeLength [.loadInt value]) =
      [5, 2, 1, 1, 2, 2, 5] ∧
    ([3, 4, 255, 256].map fun index => codeLength [.loadLocal index]) = [1, 2, 2, 4] := by
  decide

/-- The shorthands mean what they say: they push the integer, push the variable or assign to it, in
every state, and there is no shorter way to say so. -/
theorem shorthands_exact (value : Int32) (index : UInt16) :
    Spells (.loadInt value) (·.Pushes (.const (.int32 value))) ∧
    Spells (.loadLocal index) (·.Pushes (.localVar index)) ∧
    Spells (.loadParam index) (·.Pushes (.param index)) ∧
    Spells (.storeLocal index) (·.Stores (.localVar index)) := by
  have pushes (frame : Frame) (i : Instruction Nat) :
      i.Pushes (frame.value index) ↔ (Family.loads frame).Accesses index i :=
    Instruction.pushes_iff.trans Action.pushed?_eq_value
  have stores (frame : Frame) (i : Instruction Nat) :
      i.Stores (frame.value index) ↔ (Family.stores frame).Accesses index i :=
    Instruction.stores_iff.trans Action.stored?_eq_value
  refine ⟨?_, ?_, ?_, ?_⟩
  · apply (shortest_loadInt value).spells rfl
    exact fun i => Instruction.pushes_iff.trans Action.pushed?_eq_int32
  · exact (shortest_loadLocal index).spells rfl (pushes .locals)
  · exact (shortest_loadParam index).spells rfl (pushes .params)
  · exact (shortest_storeLocal index).spells rfl (stores .locals)

end Assembly

end Destack
