import Destack.Proofs.Bytecode.Calls
import Destack.Proofs.Bytecode.Linking

namespace Destack

namespace Assembly

theorem finish_eq_ok {a : Assembly} {f : Finished} :
    a.finish = .ok f ↔ a.fault = none ∧ a.unbound? = none ∧
      (∀ i ∈ a.instructions, a.overreach? i = none) ∧
      f = ⟨a.instructions.flatMap a.encode, (List.range a.labels.length).map a.labelOffset⟩ := by
  rw [← List.findSome?_eq_none_iff]
  unfold finish
  cases a.fault <;> cases a.unbound? <;> cases a.instructions.findSome? a.overreach? <;>
    simp [eq_comm]

theorem unbound?_eq_none {a : Assembly} :
    a.unbound? = none ↔ ∀ label ∈ a.referenced, a.labels[label]? ≠ some none := by
  rw [unbound?, List.find?_eq_none]
  simp only [List.mem_range, Bool.and_eq_true, decide_eq_true_eq, List.contains_iff_mem, not_and]
  constructor
  · intro bound label named unbound
    exact bound label (List.getElem?_eq_some_iff.mp unbound).1 unbound named
  · intro bound label _ unbound named
    exact bound label named unbound

theorem overreach?_eq_none {a : Assembly} {i : Instruction Label} :
    a.overreach? i = none ↔ i.opcode.kind = .shortBranch → ∀ label, i.operand = .target label →
      -0x80 ≤ a.displacement i label ∧ a.displacement i label < 0x80 := by
  unfold overreach?
  split
  · rename_i label short branch
    simp only [short, branch, Operand.target.injEq, forall_eq', forall_const, Bool.and_eq_true,
      decide_eq_true_eq, ite_eq_left_iff, reduceCtorEq, imp_false, not_not]
    omega
  · rename_i other
    simp only [true_iff]
    intro short label branch
    exact absurd branch (other label short)

def located (a : Assembly) (i : Instruction Label) : Instruction Int :=
  ⟨i.index, i.offset, i.size, i.opcode,
    (i.operand.stored i.opcode.kind).map fun label => (a.labelOffset label : Int)⟩

theorem encode_eq (a : Assembly) (i : Instruction Label) : a.encode i = (a.located i).spelled := by
  have displaced : (a.located i).operand.map (fun t => t - (i.nextOffset : Int)) =
      (i.operand.map (a.displacement i)).stored i.opcode.kind := by
    rw [located, Operand.map_map, Operand.stored_map]
    rfl
  rw [encode, ← Operand.bytes_stored, ← displaced]
  rfl

theorem span_located (a : Assembly) (l : List (Instruction Label)) :
    (l.map a.located).map (·.span) = l.map (·.span) := by
  rw [List.map_map]
  rfl

section Finish

variable {calls : List Call} (own : OwnLabels 0 calls) {f : Finished}
  (finished : (write calls).finish = .ok f)

include finished in
theorem length_code : f.code.length = extent (write calls).instructions := by
  obtain ⟨-, -, -, rfl⟩ := finish_eq_ok.mp finished
  rw [List.length_flatMap, extent]
  congr 1
  apply List.map_congr_left
  intro i member
  rw [encode_eq, Instruction.length_spelled, (records_write calls).sized i member, located,
    Operand.size_map, Operand.size_stored]

include own finished in
theorem exists_bound {i : Instruction Label} (member : i ∈ (write calls).instructions)
    {label : Label} (named : label ∈ i.targets) :
    ∃ k ≤ (write calls).instructions.length,
      (write calls).labelOffset label = extent ((write calls).instructions.take k) ∧
        f.labels[label]? = some (extent ((write calls).instructions.take k)) := by
  have records := records_write calls
  obtain ⟨-, bound, -, rfl⟩ := finish_eq_ok.mp finished
  have known := records.owns own i member label named
  have here := List.getElem?_eq_getElem known
  cases found : (write calls).labels[label] with
  | none =>
      rw [found] at here
      exact absurd here (unbound?_eq_none.mp bound label (List.mem_flatMap.mpr ⟨i, member, named⟩))
  | some offset =>
      rw [found] at here
      obtain ⟨k, within, rfl⟩ := records.bound label offset here
      have offset : (write calls).labelOffset label =
          extent ((write calls).instructions.take k) := by
        rw [labelOffset, here]
        rfl
      refine ⟨k, within, offset, ?_⟩
      rw [List.getElem?_map, List.getElem?_range known, Option.map_some, offset]

include own finished in
theorem reaches (short : f.code.length < 2 ^ 31) {i : Instruction Label}
    (member : i ∈ (write calls).instructions) {label : Label} (named : label ∈ i.targets) :
    -i.opcode.kind.reach ≤ (write calls).displacement i label ∧
      (write calls).displacement i label < i.opcode.kind.reach := by
  have records := records_write calls
  obtain ⟨sound, -, reaches, -⟩ := finish_eq_ok.mp finished
  by_cases narrow : i.opcode.kind = .shortBranch
  · have fits := records.fits sound i member
    have near := overreach?_eq_none.mp (reaches i member) narrow
    rw [narrow] at fits ⊢
    rw [Instruction.targets] at named
    cases branch : i.operand with
    | target other =>
        rw [branch] at named
        rw [List.mem_singleton.mp named]
        exact near other branch
    | _ =>
        rw [branch] at fits
        cases fits
  · obtain ⟨k, -, offset, -⟩ := exists_bound own finished member named
    have length := length_code finished
    have before := extent_take_le k (write calls).instructions
    have after := records.placed.nextOffset_le member
    have wide : i.opcode.kind.reach = 0x80000000 := by
      unfold OperandKind.reach
      split
      · contradiction
      · rfl
    rw [displacement, offset, wide]
    omega

include own finished in
theorem exact_located (short : f.code.length < 2 ^ 31) {i : Instruction Label}
    (member : i ∈ (write calls).instructions) : ((write calls).located i).Exact := by
  have records := records_write calls
  have sound := (finish_eq_ok.mp finished).1
  have length := length_code finished
  refine ⟨⟨?_, ?_, ?_, ?_⟩, ?_⟩
  · rw [located, Operand.fits_map, Operand.fits_stored]
    exact records.fits sound i member
  · rw [located, Operand.stored_map, Operand.stored_stored]
  · intro t target
    rw [located, Operand.places_map, Operand.places_stored] at target
    obtain ⟨label, named, rfl⟩ := List.mem_map.mp target
    exact reaches own finished short member named
  · have few := i.operand.length_places_le i.opcode.kind
    have inside := records.placed.nextOffset_le member
    have size := records.sized i member
    rw [located, Operand.places_map, Operand.places_stored, List.length_map]
    rw [Instruction.nextOffset] at inside
    omega
  · rw [located, Operand.size_map, Operand.size_stored]
    exact records.sized i member

include own finished in
theorem scan_code (short : f.code.length < 2 ^ 31) :
    Decode.scan 0 0 f.code = .ok ((write calls).instructions.map (write calls).located) := by
  rw [Decode.scan_eq_ok]
  refine ⟨(records_write calls).placed.congr (span_located _ _).symm, ?_, ?_⟩
  · rw [List.forall_mem_map]
    exact fun i member => exact_located own finished short member
  · obtain ⟨-, -, -, rfl⟩ := finish_eq_ok.mp finished
    rw [List.flatMap_map]
    exact List.flatMap_congr fun i _ => encode_eq _ i

include own finished in
theorem exists_place_iff {i : Instruction Label} (member : i ∈ (write calls).instructions)
    {label : Label} (named : label ∈ i.targets) (offset : Nat) :
    (∃ k, Decode.place ((write calls).instructions.map (write calls).located) offset
      ((write calls).labelOffset label) = .ok k) ↔ f.labels[label]? ≠ some f.code.length := by
  have records := records_write calls
  obtain ⟨k, within, bound, found⟩ := exists_bound own finished member named
  simp only [Decode.place_eq_ok, bound, found, length_code finished, Nat.cast_inj]
  rw [findIdx?_offset_congr (span_located _ _) fun offset =>
    offset = extent ((write calls).instructions.take k)]
  rcases Nat.lt_or_eq_of_le within with inside | rfl
  · have here := records.placed.findIdx?_offset records.size_pos inside
    have less := extent_take_lt records.size_pos inside le_rfl
    rw [List.take_length] at less
    rw [Nat.zero_add] at here
    rw [here]
    exact iff_of_true ⟨k, rfl⟩ fun same => less.ne (Option.some.inj same)
  · have nowhere := records.placed.findIdx?_end records.size_pos
    rw [Nat.zero_add] at nowhere
    rw [List.take_length, nowhere]
    exact iff_of_false (by simp) (by simp)

include own finished in
theorem exists_decode_iff (short : f.code.length < 2 ^ 31) :
    (∃ l, decode f.code = .ok l) ↔ ∀ i ∈ (write calls).instructions, ∀ label ∈ i.targets,
      f.labels[label]? ≠ some f.code.length := by
  unfold decode
  rw [scan_code own finished short]
  change (∃ l, List.mapM _ _ = _) ↔ _
  rw [exists_mapM_eq_ok, List.forall_mem_map]
  apply forall₂_congr
  intro i member
  have targets : ((write calls).located i).targets =
      i.targets.map fun label => ((write calls).labelOffset label : Int) := by
    rw [Instruction.targets, located, Operand.places_map, Operand.places_stored]
    rfl
  rw [Decode.exists_link_eq_ok, targets, List.forall_mem_map]
  exact forall₂_congr fun label named => exists_place_iff own finished member named _

include own finished in
theorem span_decoded (short : f.code.length < 2 ^ 31) {l : Listing} (read : decode f.code = .ok l) :
    (write calls).instructions.map (·.span) = l.map (·.span) := by
  obtain ⟨scanned, cut, linked⟩ := bind_eq_ok.mp read
  rw [scan_code own finished short] at cut
  cases cut
  rw [← span_located (write calls), span_of_linked linked]

end Finish

def Finished.position? (f : Finished) (l : Listing) (label : Label) : Option Nat :=
  f.labels[label]?.bind fun offset => l.findIdx? fun i => i.offset = offset

section Decoded

variable {calls : List Call} (own : OwnLabels 0 calls) {f : Finished}
  (finished : (write calls).finish = .ok f) (short : f.code.length < 2 ^ 31) {l : Listing}
  (read : decode f.code = .ok l)
include own finished short read

theorem place_decoded {i : Instruction Label} (member : i ∈ (write calls).instructions)
    {label : Label} (named : label ∈ i.targets) (offset : Nat) :
    (Decode.place ((write calls).instructions.map (write calls).located) offset
      ((write calls).labelOffset label)).toOption = f.position? l label := by
  obtain ⟨k, -, bound, found⟩ := exists_bound own finished member named
  have same := (span_located (write calls) _).trans (span_decoded own finished short read)
  rw [Decode.toOption_place, Finished.position?, found, Option.bind_some, bound]
  simp only [Nat.cast_inj]
  exact findIdx?_offset_congr same fun offset =>
    offset = extent ((write calls).instructions.take k)

theorem emitted_decoded :
    l.map (fun i => (i.opcode, i.operand.map some)) =
      (emitted calls).map fun e => (e.1, (e.2.stored e.1.kind).map (f.position? l)) := by
  obtain ⟨scanned, cut, linked⟩ := bind_eq_ok.mp read
  rw [scan_code own finished short] at cut
  cases cut
  rw [← (records_write calls).emits, List.map_map]
  apply List.ext_getElem?
  intro k
  rw [List.getElem?_map, List.getElem?_map]
  cases here : (write calls).instructions[k]? with
  | none =>
      have length := (mapM_eq_ok linked).1
      rw [List.length_map] at length
      rw [List.getElem?_eq_none (length ▸ List.getElem?_eq_none_iff.mp here)]
      rfl
  | some i =>
      obtain ⟨j, there, link⟩ := mapM_getElem? linked
        (by rw [List.getElem?_map, here, Option.map_some])
      obtain ⟨⟨-, -, -, opcode⟩, resolved⟩ := Decode.link_eq_ok.mp link
      have places := congrArg (Operand.map Except.toOption) resolved
      rw [Operand.map_map, Operand.map_map, located, Operand.map_map] at places
      rw [there, Option.map_some, Option.map_some, opcode]
      congr 2
      refine Eq.trans places.symm (Operand.map_congr fun label named => ?_)
      rw [Operand.places_stored] at named
      exact place_decoded own finished short read (List.mem_of_getElem? here) named _

theorem indexAt?_of_marked {before after : List Call} {label : Label}
    (split : calls = before ++ .mark label :: after) :
    ∃ offset, f.labels[label]? = some offset ∧
      l.indexAt? offset = some (emitted before).length := by
  have records := records_write calls
  obtain ⟨sound, -, -, same⟩ := finish_eq_ok.mp finished
  have spans := span_decoded own finished short read
  have bound : (write calls).labels[label]? =
      some (some (extent ((write calls).instructions.take (emitted before).length))) := by
    subst split
    exact labels_of_marked sound own
  have known := (List.getElem?_eq_some_iff.mp bound).1
  refine ⟨extent ((write calls).instructions.take (emitted before).length), ?_, ?_⟩
  · rw [same, List.getElem?_map, List.getElem?_range known, Option.map_some, labelOffset, bound]
    rfl
  · have taken : ((write calls).instructions.take (emitted before).length).map (·.span) =
        (l.take (emitted before).length).map (·.span) := by
      rw [List.map_take, List.map_take, spans]
    have length : l.length = (emitted calls).length := by
      rw [← List.length_map (f := fun i : Instruction Nat => i.span), ← spans, List.length_map,
        records.length_instructions]
    rw [extent_congr taken]
    apply (records.placed.congr spans).indexAt?_extent (size_pos_congr spans records.size_pos)
    rw [length, split, emitted, emitted, List.filterMap_append, List.length_append]
    exact Nat.le_add_right _ _

end Decoded

/-- Finished code decodes, unless a branch leads to its very end, and then to what was emitted:
short forms keep one byte, branches lead to where their labels are, and labels are at the start of
instructions. -/
theorem decode_finish {calls : List Call} {f : Finished} (own : OwnLabels 0 calls)
    (finished : (write calls).finish = .ok f) (short : f.code.length < 2 ^ 31) :
    ((∃ l, decode f.code = .ok l) ↔
      ∀ e ∈ emitted calls, ∀ label ∈ e.2.places, f.labels[label]? ≠ some f.code.length) ∧
    ∀ l, decode f.code = .ok l →
      l.map (fun i => (i.opcode, i.operand.map some)) =
        (emitted calls).map (fun e => (e.1, (e.2.stored e.1.kind).map (f.position? l))) ∧
      ∀ before label after, calls = before ++ .mark label :: after →
        ∃ offset, f.labels[label]? = some offset ∧
          l.indexAt? offset = some (emitted before).length := by
  constructor
  · rw [exists_decode_iff own finished short, ← (records_write calls).emits, List.forall_mem_map]
    rfl
  · intro l read
    exact ⟨emitted_decoded own finished short read,
      fun before label after => indexAt?_of_marked own finished short read⟩

def detour : List Call :=
  [.define, .define, .mark 0, .emit .ldcI4S (.int32 300), .emit .switch (.switch [1, 0]),
    .loadLocal 300, .emit .brS (.target 0), .mark 1, .emit .ldargS (.var 257), .loadInt 1000]

def detourCode : List UInt8 :=
  [31, 44, 69, 2, 0, 0, 0, 6, 0, 0, 0, 241, 255, 255, 255, 254, 12, 44, 1, 43, 235, 14, 1, 32, 232,
    3, 0, 0]

theorem detour_decodes :
    OwnLabels 0 detour ∧ (write detour).finish = .ok ⟨detourCode, [0, 21]⟩ ∧
    detourCode.length < 2 ^ 31 ∧
    ((∃ l, decode detourCode = .ok l) ↔
      ∀ e ∈ emitted detour, ∀ label ∈ e.2.places, [0, 21][label]? ≠ some detourCode.length) ∧
    ∀ l, decode detourCode = .ok l →
      l.map (fun i => (i.opcode, i.operand.map some)) = (emitted detour).map (fun e =>
        (e.1, (e.2.stored e.1.kind).map (Finished.position? ⟨detourCode, [0, 21]⟩ l))) ∧
      ∀ before label after, detour = before ++ .mark label :: after →
        ∃ offset, [0, 21][label]? = some offset ∧
          l.indexAt? offset = some (emitted before).length :=
  have own : OwnLabels 0 detour := by decide
  have finished : (write detour).finish = .ok ⟨detourCode, [0, 21]⟩ := by decide +kernel
  have short : detourCode.length < 2 ^ 31 := by decide +kernel
  ⟨own, finished, short, decode_finish own finished short⟩

def reassembly (l : Listing) : List Call :=
  List.replicate l.length .define ++ l.flatMap fun i => [.mark i.index, .emit i.opcode i.operand]

def reassembled (l : Listing) : Assembly := ⟨l, l.map fun i => some i.offset, none⟩

theorem write_defines (n : Nat) :
    write (List.replicate n .define) = ⟨[], List.replicate n none, none⟩ := by
  induction n with
  | zero => rfl
  | succ n ih =>
      rw [List.replicate_succ', write_append, ih, List.replicate_succ']
      rfl

theorem foldl_emits (front : Listing) {back : Listing} (placed : Placed 0 0 (front ++ back))
    (fits : ∀ i ∈ back, i.operand.fits i.opcode.kind = true)
    (sized : ∀ i ∈ back,
      i.size = i.opcode.encoding.bytes.length + i.operand.size i.opcode.kind) :
    (back.flatMap fun i => [Call.mark i.index, .emit i.opcode i.operand]).foldl Call.perform
        ⟨front, front.map (fun i => some i.offset) ++ List.replicate back.length none, none⟩ =
      ⟨front ++ back, (front ++ back).map fun i => some i.offset, none⟩ := by
  induction back generalizing front with
  | nil => simp
  | cons i back ih =>
      rw [List.forall_mem_cons] at fits sized
      have here : (front ++ i :: back)[front.length]? = some i := by simp
      have index := placed.numbered _ _ here
      have starts := placed.offsets _ _ here
      rw [List.take_left' rfl, Nat.zero_add] at starts
      rw [Nat.zero_add] at index
      have offset (labels : List (Option Nat)) :
          Assembly.offset ⟨front, labels, none⟩ = i.offset := by
        have last := (placed.append_left).getLast?_eq
        rw [Nat.zero_add] at last
        exact last.trans starts.symm
      rw [List.append_cons] at placed ⊢
      rw [← ih (front ++ [i]) placed fits.2 sized.2, List.flatMap_cons, List.foldl_append]
      congr 1
      have marked : Assembly.mark ⟨front, front.map (fun i => some i.offset) ++
          List.replicate (i :: back).length none, none⟩ i.index =
          ⟨front, (front ++ [i]).map (fun i => some i.offset) ++
            List.replicate back.length none, none⟩ := by
        rw [mark_of_unbound (by simp [index, List.replicate_succ]), offset, index]
        simp [List.replicate_succ]
      change (Assembly.mark _ _).emit _ _ = _
      rw [marked, emit, if_pos fits.1, offset, ← sized.1]
      simp only [← index]

theorem write_reassembly {l : Listing} (placed : Placed 0 0 l)
    (fits : ∀ i ∈ l, i.operand.fits i.opcode.kind = true)
    (sized : ∀ i ∈ l, i.size = i.opcode.encoding.bytes.length + i.operand.size i.opcode.kind) :
    write (reassembly l) = reassembled l := by
  rw [reassembly, write_append, write_defines]
  exact foldl_emits [] placed fits sized

theorem labelOffset_of_getElem? {l : Listing} {k : Nat} {i : Instruction Nat}
    (found : l[k]? = some i) :
    (reassembled l).labelOffset k = i.offset := by
  simp [labelOffset, reassembled, found]

theorem map_labelOffset (l : Listing) :
    (List.range (reassembled l).labels.length).map (reassembled l).labelOffset =
      l.map (·.offset) := by
  have length : (reassembled l).labels.length = l.length := List.length_map _
  apply List.ext_getElem?
  intro k
  rw [length, List.getElem?_map, List.getElem?_map]
  cases found : l[k]? with
  | none =>
      have past := List.getElem?_eq_none_iff.mp found
      rw [List.getElem?_eq_none (by simpa using past)]
      rfl
  | some j =>
      have within := (List.getElem?_eq_some_iff.mp found).1
      rw [List.getElem?_range within, Option.map_some, labelOffset_of_getElem? found]
      rfl

section Read

variable {code : List UInt8} {l : Listing} {scanned : List (Instruction Int)}
  (cut : Decode.scan 0 0 code = .ok scanned)
  (linked : scanned.mapM (Decode.link scanned) = .ok l)
include linked

theorem labelOffset_of_place {offset : Nat} {t : Int} {k : Nat}
    (placed : Decode.place scanned offset t = .ok k) :
    ((reassembled l).labelOffset k : Int) = t := by
  obtain ⟨j, found, here⟩ := Decode.exists_of_place linked placed
  rw [labelOffset_of_getElem? found, here]

include cut

theorem located_of_link {i : Instruction Int} {j : Instruction Nat} (member : i ∈ scanned)
    (link : Decode.link scanned i = .ok j) :
    (reassembled l).located j = i := by
  obtain ⟨-, exact, -⟩ := Decode.scan_eq_ok.mp cut
  obtain ⟨⟨index, offset, size, opcode⟩, resolved⟩ := Decode.link_eq_ok.mp link
  have back := Operand.map_of_resolved resolved fun t k => labelOffset_of_place linked
  rw [located, ← Operand.stored_map, back, index, offset, size, opcode,
    (exact i member).operand.stored]

theorem map_located : l.map (reassembled l).located = scanned := by
  apply List.ext_getElem?
  intro k
  rw [List.getElem?_map]
  cases here : scanned[k]? with
  | none =>
      have length := (mapM_eq_ok linked).1
      rw [List.getElem?_eq_none (length ▸ List.getElem?_eq_none_iff.mp here)]
      rfl
  | some i =>
      obtain ⟨j, there, link⟩ := mapM_getElem? linked here
      rw [there, Option.map_some, located_of_link cut linked (List.mem_of_getElem? here) link]

theorem exact_decoded {j : Instruction Nat} (member : j ∈ l) :
    ((reassembled l).located j).Exact := by
  obtain ⟨-, exact, -⟩ := Decode.scan_eq_ok.mp cut
  apply exact
  rw [← map_located cut linked]
  exact List.mem_map_of_mem member

end Read

/-- Emitting what was read from some code gives the code back, with a label at the offset of each
instruction. -/
theorem finish_reassembly {code : List UInt8} {l : Listing} (read : decode code = .ok l) :
    (write (reassembly l)).finish = .ok ⟨code, l.map (·.offset)⟩ := by
  obtain ⟨scanned, cut, linked⟩ := bind_eq_ok.mp read
  have exact := fun j member => exact_decoded cut linked (j := j) member
  obtain ⟨placed, -, spelled⟩ := Decode.scan_eq_ok.mp cut
  have emitted : write (reassembly l) = reassembled l := by
    apply write_reassembly (placed.congr (span_of_linked linked))
    · intro j member
      have fits := (exact j member).operand.fits
      rwa [located, Operand.fits_map, Operand.fits_stored] at fits
    · intro j member
      have size := (exact j member).size
      rwa [located, Operand.size_map, Operand.size_stored] at size
  rw [emitted, finish_eq_ok]
  refine ⟨rfl, unbound?_eq_none.mpr ?_, fun j member => overreach?_eq_none.mpr ?_, ?_⟩
  · intro label _ unbound
    simp [reassembled] at unbound
  · intro short label branch
    have reaches := (exact j member).operand.reaches
      ((reassembled l).labelOffset label) (by
        rw [located, Operand.places_map, Operand.places_stored, branch]
        exact List.mem_cons_self)
    rw [show ((reassembled l).located j).opcode.kind = .shortBranch from short] at reaches
    exact reaches
  · congr 1
    · rw [spelled, ← map_located cut linked, List.flatMap_map]
      exact List.flatMap_congr fun j _ => (encode_eq _ j).symm
    · exact (map_labelOffset l).symm

def detourListing : Listing :=
  [⟨0, 0, 2, .ldcI4S, .int32 44⟩, ⟨1, 2, 13, .switch, .switch [4, 0]⟩,
    ⟨2, 15, 4, .ldloc, .var 300⟩, ⟨3, 19, 2, .brS, .target 0⟩, ⟨4, 21, 2, .ldargS, .var 1⟩,
    ⟨5, 23, 5, .ldcI4, .int32 1000⟩]

theorem detour_reassembled :
    decode detourCode = .ok detourListing ∧
      (write (reassembly detourListing)).finish = .ok ⟨detourCode, [0, 2, 15, 19, 21, 23]⟩ :=
  have read : decode detourCode = .ok detourListing := by decide +kernel
  ⟨read, finish_reassembly read⟩

end Assembly

end Destack
