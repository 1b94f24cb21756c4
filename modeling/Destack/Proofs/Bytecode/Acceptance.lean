import Destack.Proofs.Bytecode.Linking

namespace Destack

namespace Decode

structure Cut (code : List UInt8) (l : List (Instruction Int)) : Prop where
  placed : Placed 0 0 l
  exact : ∀ i ∈ l, i.Exact
  spelled : code = l.flatMap Instruction.spelled

def Starts (l : List (Instruction Int)) (t : Int) : Prop := ∃ i ∈ l, (i.offset : Int) = t

/-- Why there is no instruction at the start of the code that begins at the offset: no opcode has
its first byte, or no opcode has its first two, or it ends before an instruction that begins like
it. -/
inductive Defect (offset : Nat) : List UInt8 → DecodeError → Prop
  | invalidOpcode {byte : UInt8} {rest : List UInt8} (plain : byte ≠ Encoding.escape)
      (unknown : ∀ op : Opcode, op.encoding ≠ .short byte) :
      Defect offset (byte :: rest) (.invalidOpcode byte offset)
  | invalidExtendedOpcode {byte : UInt8} {rest : List UInt8}
      (unknown : ∀ op : Opcode, op.encoding ≠ .extended byte) :
      Defect offset (Encoding.escape :: byte :: rest) (.invalidExtendedOpcode byte offset)
  | unexpectedEnd {i : Instruction Int} {code more : List UInt8} (exact : i.Exact)
      (here : i.offset = offset) (begun : code ≠ []) (unfinished : more ≠ [])
      (spelled : i.spelled = code ++ more) : Defect offset code (.unexpectedEnd offset)

theorem ofEncoding?_eq_none {e : Encoding} :
    Opcode.ofEncoding? e = none ↔ ∀ op : Opcode, op.encoding ≠ e := by
  simp only [Option.eq_none_iff_forall_ne_some, ne_eq, Opcode.ofEncoding?_eq_some]

section Broken

variable {kind : OperandKind} {offset : Nat}

theorem exists_completion_of_size {rest : List UInt8} {size : Nat}
    (sized : operandSize? kind rest = some size) (short : rest.length < size) :
    ∃ more, more ≠ [] ∧ operandSize? kind (rest ++ more) = some (rest ++ more).length := by
  refine ⟨List.replicate (size - rest.length) 0, ?_, ?_⟩
  · rw [ne_eq, List.replicate_eq_nil_iff]
    omega
  · have length : (rest ++ List.replicate (size - rest.length) 0).length = size := by
      rw [List.length_append, List.length_replicate]
      omega
    rw [length]
    unfold operandSize? at sized ⊢
    cases fixed : kind.size? with
    | some fixed => simpa only [fixed] using sized
    | none =>
        simp only [fixed] at sized ⊢
        split at sized
        · rename_i enough
          rw [if_pos (by omega), List.take_append_of_le_length enough]
          exact sized
        · cases sized

theorem exists_completion_of_none {rest : List UInt8} (unsized : operandSize? kind rest = none) :
    ∃ more, more ≠ [] ∧ operandSize? kind (rest ++ more) = some (rest ++ more).length := by
  unfold operandSize? at unsized ⊢
  cases fixed : kind.size? with
  | some fixed =>
      simp only [fixed] at unsized
      cases unsized
  | none =>
      simp only [fixed] at unsized ⊢
      split at unsized
      · cases unsized
      · rename_i short
        -- First the length of the table, then as many entries as it says.
        obtain ⟨head, padded⟩ : ∃ head, head = rest ++ List.replicate (4 - rest.length) 0 :=
          ⟨_, rfl⟩
        have length : head.length = 4 := by
          rw [padded, List.length_append, List.length_replicate]
          omega
        refine ⟨List.replicate (4 - rest.length) 0 ++
          List.replicate (4 * Bytes.unsigned head) 0, ?_, ?_⟩
        · simp
          omega
        · rw [← List.append_assoc, ← padded, List.take_left' length, List.length_append, length,
            List.length_replicate, if_pos (by omega)]

theorem unexpectedEnd_of_completion {op : Opcode} {rest more : List UInt8} (unfinished : more ≠ [])
    (whole : operandSize? op.kind (rest ++ more) = some (rest ++ more).length) :
    Defect offset (op.encoding.bytes ++ rest) (.unexpectedEnd offset) := by
  obtain ⟨next, ends⟩ : ∃ next, next =
    offset + (op.encoding.bytes.length + (rest ++ more).length) := ⟨_, rfl⟩
  have same : (operand next op.kind (rest ++ more)).spelled op.kind next = rest ++ more :=
    spelled_operand whole
  have length := Operand.length_spelled op.kind next (operand next op.kind (rest ++ more))
  rw [same] at length
  refine .unexpectedEnd (i := ⟨0, offset, op.encoding.bytes.length + (rest ++ more).length, op,
    operand next op.kind (rest ++ more)⟩) ⟨?_, congrArg _ length⟩ rfl ?_ unfinished ?_
  · rw [Instruction.nextOffset, ← ends]
    exact exact_operand whole
  · exact List.append_ne_nil_of_left_ne_nil (List.ne_nil_of_length_pos op.length_encoding_pos) _
  · rw [Instruction.spelled, Instruction.nextOffset, ← ends, same, List.append_assoc]

theorem defect_of_opcode {first : UInt8} {rest : List UInt8} {e : DecodeError}
    (failed : opcode offset first rest = .error e) : Defect offset (first :: rest) e := by
  unfold opcode at failed
  split at failed
  · rename_i escape
    subst escape
    cases rest with
    | nil =>
        cases failed
        exact .unexpectedEnd (i := ⟨0, offset, 2, .ceq, .none⟩)
          ⟨.of_data _ rfl rfl rfl, rfl⟩ rfl (by simp) (List.cons_ne_nil 1 []) rfl
    | cons second rest =>
        dsimp only at failed
        split at failed
        · cases failed
        · rename_i missing
          cases failed
          exact .invalidExtendedOpcode (ofEncoding?_eq_none.mp missing)
  · rename_i plain
    split at failed
    · cases failed
    · rename_i missing
      cases failed
      exact .invalidOpcode plain (ofEncoding?_eq_none.mp missing)

theorem defect_of_instruction {index : Nat} {first : UInt8} {rest : List UInt8} {e : DecodeError}
    (failed : instruction index offset first rest = .error e) :
    Defect offset (first :: rest) e := by
  rcases bind_eq_error.mp failed with failed | ⟨⟨op, after⟩, found, failed⟩
  · exact defect_of_opcode failed
  · dsimp only at failed
    rw [bytes_of_opcode found]
    split at failed
    · rename_i unsized
      cases failed
      obtain ⟨more, unfinished, whole⟩ := exists_completion_of_none unsized
      exact unexpectedEnd_of_completion unfinished whole
    · rename_i size sized
      split at failed
      · cases failed
      · rename_i short
        cases failed
        obtain ⟨more, unfinished, whole⟩ := exists_completion_of_size sized (Nat.lt_of_not_le short)
        exact unexpectedEnd_of_completion unfinished whole

theorem Defect.eq_unexpectedEnd {i : Instruction Int} {code more : List UInt8} {e : DecodeError}
    (defect : Defect offset code e) (spelled : i.spelled = code ++ more) :
    e = .unexpectedEnd offset := by
  cases defect with
  | @invalidOpcode byte rest plain unknown =>
      rw [Instruction.spelled] at spelled
      cases found : i.opcode.encoding with
      | short other =>
          rw [found] at spelled
          obtain ⟨rfl, -⟩ := List.cons.inj spelled
          exact absurd found (unknown _)
      | extended other =>
          rw [found] at spelled
          exact absurd (List.cons.inj spelled).1.symm plain
  | @invalidExtendedOpcode byte rest unknown =>
      rw [Instruction.spelled] at spelled
      cases found : i.opcode.encoding with
      | short other =>
          rw [found] at spelled
          obtain ⟨rfl, -⟩ := List.cons.inj spelled
          exact absurd found i.opcode.encoding_ne_escape
      | extended other =>
          rw [found] at spelled
          obtain ⟨-, same⟩ := List.cons.inj spelled
          obtain ⟨rfl, -⟩ := List.cons.inj same
          exact absurd found (unknown _)
  | unexpectedEnd => rfl

theorem not_instruction_of_unfinished {i j : Instruction Int} (exact : i.Exact)
    {index : Nat} {first : UInt8} {rest more after : List UInt8} (unfinished : more ≠ [])
    (spelled : i.spelled = first :: rest ++ more) :
    instruction index i.offset first rest ≠ .ok (j, after) := by
  -- The beginning of an instruction does not hold another one: an instruction is read in one way
  -- from whatever begins with it.
  intro read
  obtain ⟨rfl, here, other, split⟩ := spelled_instruction read
  have long : first :: (rest ++ more) = j.spelled ++ (after ++ more) := by
    rw [← List.append_assoc, ← split]
    rfl
  have whole : first :: (rest ++ more) =
      Instruction.spelled { i with index := j.index } ++ [] := by
    rw [List.append_nil]
    exact spelled.symm
  have once := instruction_spelled other long
  have again := instruction_spelled (i := { i with index := j.index })
    ⟨exact.operand, exact.size⟩ whole
  rw [here] at once
  rw [once] at again
  obtain ⟨-, empty⟩ := Prod.mk.inj (Except.ok.inj again)
  exact unfinished (List.append_eq_nil_iff.mp empty).2

theorem instruction_eq_error {index : Nat} {first : UInt8} {rest : List UInt8} {e : DecodeError} :
    instruction index offset first rest = .error e ↔ Defect offset (first :: rest) e := by
  refine ⟨defect_of_instruction, fun defect => ?_⟩
  cases defect with
  | invalidOpcode plain unknown =>
      simp [instruction, opcode, plain, ofEncoding?_eq_none.mpr unknown, bind, Except.bind]
  | invalidExtendedOpcode unknown =>
      simp [instruction, opcode, ofEncoding?_eq_none.mpr unknown, bind, Except.bind]
  | @unexpectedEnd i _ more exact here _ unfinished spelled =>
      subst here
      cases read : instruction index i.offset first rest with
      | ok found => exact absurd read (not_instruction_of_unfinished exact unfinished spelled)
      | error other => rw [(defect_of_instruction read).eq_unexpectedEnd spelled]

end Broken

theorem Defect.exists_cons {offset : Nat} {code : List UInt8} {e : DecodeError}
    (defect : Defect offset code e) : ∃ first rest, code = first :: rest := by
  cases defect with
  | unexpectedEnd _ _ begun => exact List.exists_cons_of_ne_nil begun
  | _ => exact ⟨_, _, rfl⟩

theorem scan_of_defect {index offset : Nat} {code : List UInt8} {e : DecodeError}
    (defect : Defect offset code e) : scan index offset code = .error e := by
  obtain ⟨first, rest, rfl⟩ := defect.exists_cons
  have failed : instruction index offset first rest = .error e := instruction_eq_error.mpr defect
  rw [scan]
  split
  · rename_i other found
    rw [failed] at found
    cases found
    rfl
  · rename_i found
    rw [failed] at found
    cases found

theorem scan_eq_error {index offset : Nat} {code : List UInt8} {e : DecodeError} :
    scan index offset code = .error e ↔
      ∃ l rest, Placed index offset l ∧ (∀ i ∈ l, i.Exact) ∧
        code = l.flatMap Instruction.spelled ++ rest ∧ Defect (offset + extent l) rest e := by
  constructor
  · intro failed
    fun_induction scan index offset code with
    | case1 index offset => cases failed
    | case2 index offset first rest other read =>
        cases failed
        exact ⟨[], first :: rest, placed_nil, by simp, rfl, instruction_eq_error.mp read⟩
    | case3 index offset first rest i after read _ ih =>
        obtain ⟨here, starts, exact, spelled⟩ := spelled_instruction read
        rcases bind_eq_error.mp failed with failed | ⟨later, -, failed⟩
        · obtain ⟨l, rest, placed, others, code, defect⟩ := ih failed
          rw [Instruction.nextOffset, starts] at placed defect
          refine ⟨i :: l, rest, placed_cons.mpr ⟨here, starts, placed⟩, ?_, ?_, ?_⟩
          · rw [List.forall_mem_cons]
            exact ⟨exact, others⟩
          · rw [spelled, code, List.flatMap_cons, List.append_assoc]
          · rwa [extent_cons, ← Nat.add_assoc]
        · cases failed
  · rintro ⟨l, rest, placed, exact, rfl, defect⟩
    induction l generalizing index offset with
    | nil => exact scan_of_defect defect
    | cons i l ih =>
        rw [List.forall_mem_cons] at exact
        obtain ⟨rfl, rfl, placed⟩ := placed_cons.mp placed
        rw [extent_cons, ← Nat.add_assoc] at defect
        rw [List.flatMap_cons, List.append_assoc, scan_spelled exact.1, Instruction.nextOffset,
          ih placed exact.2 defect]
        rfl

theorem length_flatMap_spelled {l : List (Instruction Int)} (exact : ∀ i ∈ l, i.Exact) :
    (l.flatMap Instruction.spelled).length = extent l := by
  rw [List.length_flatMap, extent]
  congr 1
  apply List.map_congr_left
  intro i member
  rw [i.length_spelled, (exact i member).size]

section Branches

variable {cut : List (Instruction Int)} {i : Instruction Int} {e : DecodeError}

theorem exists_place {offset : Nat} {t : Int} :
    (∃ k, place cut offset t = .ok k) ↔ Starts cut t := by
  simp only [place_eq_ok, ← Option.isSome_iff_exists, List.findIdx?_isSome, List.any_eq_true,
    decide_eq_true_eq]
  rfl

theorem place_eq_error {offset : Nat} {t : Int} :
    place cut offset t = .error e ↔ ¬ Starts cut t ∧ e = .danglingTarget offset t := by
  have placed : (∃ k, place cut offset t = .ok k) ↔ Starts cut t := exists_place
  rw [← placed]
  unfold place
  cases cut.findIdx? fun i => (i.offset : Int) = t with
  | some k => simp
  | none => simp [eq_comm]

theorem resolve_eq_error {Place Other ε : Type} {f : Place → Except ε Other} {o : Operand Place}
    {e : ε} : o.resolve f = .error e ↔ o.places.mapM f = .error e := by
  cases o with
  | target place =>
      simp only [Operand.resolve, Operand.places, List.mapM_cons, List.mapM_nil, bind_eq_error]
      simp [pure, Except.pure]
  | switch places => simp [Operand.resolve, Operand.places, bind_eq_error, pure, Except.pure]
  | _ => simp [Operand.resolve, Operand.places, pure, Except.pure]

theorem exists_link : (∃ j, link cut i = .ok j) ↔ ∀ t ∈ i.targets, Starts cut t := by
  rw [exists_link_eq_ok]
  exact forall₂_congr fun t _ => exists_place

theorem link_eq_error :
    link cut i = .error e ↔ ∃ good t more, i.targets = good ++ t :: more ∧
      (∀ u ∈ good, Starts cut u) ∧ ¬ Starts cut t ∧ e = .danglingTarget i.offset t := by
  have failed : link cut i = .error e ↔ i.operand.resolve (place cut i.offset) = .error e := by
    rw [link, bind_eq_error]
    simp [pure, Except.pure]
  rw [failed, resolve_eq_error, mapM_eq_error_iff]
  simp only [exists_place, place_eq_error]
  rfl

end Branches

/-- Whom to blame: the first instruction that is none, or else the first branch that leads to no
instruction. -/
inductive Blamed (code : List UInt8) : DecodeError → Prop
  | broken {front rest : List UInt8} {cut : List (Instruction Int)} {e : DecodeError}
      (split : code = front ++ rest) (before : Cut front cut)
      (defect : Defect front.length rest e) :
      Blamed code e
  | dangling {before after : List (Instruction Int)} {i : Instruction Int} {good more : List Int}
      {t : Int} (whole : Cut code (before ++ i :: after))
      (earlier : ∀ j ∈ before, ∀ u ∈ j.targets, Starts (before ++ i :: after) u)
      (targets : i.targets = good ++ t :: more)
      (arms : ∀ u ∈ good, Starts (before ++ i :: after) u)
      (missing : ¬ Starts (before ++ i :: after) t) :
      Blamed code (.danglingTarget i.offset t)

theorem scan_eq_ok_iff {code : List UInt8} {cut : List (Instruction Int)} :
    scan 0 0 code = .ok cut ↔ Cut code cut := by
  rw [scan_eq_ok]
  constructor
  · rintro ⟨placed, exact, spelled⟩
    exact ⟨placed, exact, spelled⟩
  · rintro ⟨placed, exact, spelled⟩
    exact ⟨placed, exact, spelled⟩

theorem scan_eq_error_iff {code : List UInt8} {e : DecodeError} :
    scan 0 0 code = .error e ↔ ∃ front rest cut, code = front ++ rest ∧ Cut front cut ∧
      Defect front.length rest e := by
  rw [scan_eq_error]
  constructor
  · rintro ⟨cut, rest, placed, exact, split, defect⟩
    refine ⟨_, rest, cut, split, ⟨placed, exact, rfl⟩, ?_⟩
    rwa [length_flatMap_spelled exact, ← Nat.zero_add (extent cut)]
  · rintro ⟨front, rest, cut, split, ⟨placed, exact, rfl⟩, defect⟩
    rw [length_flatMap_spelled exact] at defect
    refine ⟨cut, rest, placed, exact, split, ?_⟩
    rwa [Nat.zero_add]

end Decode

open Decode

theorem exists_decode (code : List UInt8) :
    (∃ l, decode code = .ok l) ↔
      ∃ cut, Cut code cut ∧ ∀ i ∈ cut, ∀ t ∈ i.targets, Starts cut t := by
  simp only [decode, bind_eq_ok, scan_eq_ok_iff]
  rw [exists_comm]
  simp only [exists_and_left, exists_mapM_eq_ok, exists_link]

theorem decode_eq_error {code : List UInt8} {e : DecodeError} :
    decode code = .error e ↔ Blamed code e := by
  simp only [decode, bind_eq_error, scan_eq_ok_iff, scan_eq_error_iff, mapM_eq_error_iff,
    exists_link, link_eq_error]
  constructor
  · rintro (⟨front, rest, cut, split, before, defect⟩ |
      ⟨cut, whole, before, i, after, rfl, earlier, good, t, more, targets, arms, missing, rfl⟩)
    · exact .broken split before defect
    · exact .dangling whole earlier targets arms missing
  · rintro (⟨split, before, defect⟩ | ⟨whole, earlier, targets, arms, missing⟩)
    · exact .inl ⟨_, _, _, split, before, defect⟩
    · exact .inr ⟨_, whole, _, _, _, rfl, earlier, _, _, _, targets, arms, missing, rfl⟩

def Listing.offsetAt (l : Listing) (k : Nat) : Int := (l[k]?.map (·.offset)).getD 0

def Listing.byOffset (l : Listing) (i : Instruction Nat) : Instruction Int :=
  ⟨i.index, i.offset, i.size, i.opcode, i.operand.map l.offsetAt⟩

/-- The instructions lie side by side from the start of the code to its end, and are numbered in
this order. -/
structure Listing.Tiles (l : Listing) (size : Nat) : Prop where
  first : ∀ i, l[0]? = some i → i.offset = 0
  next : ∀ (k : Nat) (i j : Instruction Nat), l[k]? = some i → l[k + 1]? = some j →
    j.offset = i.offset + i.size
  last : l.codeSize = size
  dense : ∀ (k : Nat) (i : Instruction Nat), l[k]? = some i → i.index = k

theorem Placed.tiles {l : Listing} (placed : Placed 0 0 l) : l.Tiles (extent l) where
  first i found := placed.offsets 0 i found
  next k i j here there := by
    obtain ⟨within, rfl⟩ := List.getElem?_eq_some_iff.mp here
    rw [placed.offsets _ _ there, placed.offsets _ _ here, List.take_succ_eq_append_getElem within,
      extent_concat, Nat.add_assoc]
  last := placed.codeSize_eq
  dense k i found := placed.numbered.index found

theorem map_byOffset {cut : List (Instruction Int)} {l : Listing}
    (linked : cut.mapM (link cut) = .ok l) : l.map l.byOffset = cut := by
  apply List.ext_getElem?
  intro k
  rw [List.getElem?_map]
  cases here : cut[k]? with
  | none =>
      have length := (mapM_eq_ok linked).1
      rw [List.getElem?_eq_none (length ▸ List.getElem?_eq_none_iff.mp here)]
      rfl
  | some i =>
      obtain ⟨j, there, link⟩ := mapM_getElem? linked here
      obtain ⟨⟨index, offset, size, opcode⟩, resolved⟩ := link_eq_ok.mp link
      have back : ∀ t k, place cut i.offset t = .ok k → l.offsetAt k = t := by
        intro t k placed
        obtain ⟨j, found, here⟩ := exists_of_place linked placed
        rw [Listing.offsetAt, found]
        exact here
      have operand := Operand.map_of_resolved resolved back
      rw [there, Option.map_some, Listing.byOffset, operand, index, offset, size, opcode]

theorem target_lt_of_linked {cut : List (Instruction Int)} {l : Listing}
    (linked : cut.mapM (link cut) = .ok l) {j : Instruction Nat} (member : j ∈ l) {k : Nat}
    (target : k ∈ j.targets) : k < l.length := by
  obtain ⟨i, -, link⟩ := (mapM_eq_ok linked).2 j member
  have resolved := congrArg Operand.places (link_eq_ok.mp link).2
  rw [Operand.places_map, Operand.places_map] at resolved
  have found : Except.ok k ∈ i.operand.places.map (place cut i.offset) :=
    resolved ▸ List.mem_map_of_mem target
  obtain ⟨t, -, placed⟩ := List.mem_map.mp found
  obtain ⟨other, here, -⟩ := exists_of_place linked placed
  exact (List.getElem?_eq_some_iff.mp here).1

theorem placed_decode {code : List UInt8} {l : Listing} (read : decode code = .ok l) :
    Placed 0 0 l ∧ (∀ i ∈ l, 0 < i.size) ∧ extent l = code.length := by
  obtain ⟨cut, scanned, linked⟩ := bind_eq_ok.mp read
  obtain ⟨placed, exact, spelled⟩ := scan_eq_ok_iff.mp scanned
  have spans := span_of_linked linked
  refine ⟨placed.congr spans, size_pos_congr spans fun i member => (exact i member).size_pos, ?_⟩
  rw [← extent_congr spans, spelled, length_flatMap_spelled exact]

/-- Decoding succeeds exactly if the code can be cut into whole instructions and every branch leads
to the start of one of them. The instructions then tile the code, and branches lead to positions in
the list. Otherwise the error is the one that the first broken instruction has, or, with all
instructions whole, the first branch that leads elsewhere. -/
theorem decode_accepts_or_blames (code : List UInt8) :
    ((∃ l, decode code = .ok l) ↔
      ∃ cut, Cut code cut ∧ ∀ i ∈ cut, ∀ t ∈ i.targets, Starts cut t) ∧
    (∀ l, decode code = .ok l → l.Tiles code.length ∧ (∀ i ∈ l, ∀ k ∈ i.targets, k < l.length) ∧
      Cut code (l.map l.byOffset)) ∧
    ∀ e, decode code = .error e ↔ Blamed code e := by
  refine ⟨exists_decode code, fun l read => ?_, fun e => decode_eq_error⟩
  obtain ⟨placed, -, length⟩ := placed_decode read
  obtain ⟨cut, scanned, linked⟩ := bind_eq_ok.mp read
  refine ⟨length ▸ placed.tiles, fun i member k => target_lt_of_linked linked member, ?_⟩
  rw [map_byOffset linked]
  exact scan_eq_ok_iff.mp scanned

theorem jumps_judged :
    (∃ l, decode [0x2b, 1, 0, 0x2a] = .ok l ∧ l.Tiles 4 ∧
      Cut [0x2b, 1, 0, 0x2a] (l.map l.byOffset)) ∧
    Blamed [0x2b, 1, 0x20, 0, 0, 0, 0, 0x2a] (.danglingTarget 0 3) ∧
    Blamed [0x2b, 1, 0x20, 0] (.unexpectedEnd 2) ∧
    Blamed [0, 0xfe, 8] (.invalidExtendedOpcode 8 1) := by
  refine ⟨⟨[⟨0, 0, 2, .brS, .target 2⟩, ⟨1, 2, 1, .nop, .none⟩, ⟨2, 3, 1, .ret, .none⟩], ?_⟩, ?_⟩
  · have read : decode [0x2b, 1, 0, 0x2a] =
        .ok [⟨0, 0, 2, .brS, .target 2⟩, ⟨1, 2, 1, .nop, .none⟩, ⟨2, 3, 1, .ret, .none⟩] := by
      decide +kernel
    obtain ⟨tiles, -, cut⟩ := (decode_accepts_or_blames _).2.1 _ read
    exact ⟨read, tiles, cut⟩
  · exact ⟨((decode_accepts_or_blames _).2.2 _).mp (by decide +kernel),
      ((decode_accepts_or_blames _).2.2 _).mp (by decide +kernel),
      ((decode_accepts_or_blames _).2.2 _).mp (by decide +kernel)⟩

end Destack
