import Destack.Proofs.Bytecode.Grammar

namespace Destack

namespace Operand

variable {Place Other Third : Type}

theorem places_map (f : Place → Other) (o : Operand Place) :
    (o.map f).places = o.places.map f := by
  cases o <;> rfl

theorem fits_map (f : Place → Other) (kind : OperandKind) (o : Operand Place) :
    (o.map f).fits kind = o.fits kind := by
  cases o <;> rfl

theorem size_map (f : Place → Other) (kind : OperandKind) (o : Operand Place) :
    (o.map f).size kind = o.size kind := by
  cases o <;> simp [map, size]

theorem map_map (f : Place → Other) (g : Other → Third) (o : Operand Place) :
    (o.map f).map g = o.map (g ∘ f) := by
  cases o <;> simp [map]

theorem map_congr {f g : Place → Other} {o : Operand Place} (same : ∀ p ∈ o.places, f p = g p) :
    o.map f = o.map g := by
  cases o with
  | target place => exact congrArg Operand.target (same place List.mem_cons_self)
  | switch places => exact congrArg Operand.switch (List.map_congr_left same)
  | _ => rfl

theorem places_stored (kind : OperandKind) (o : Operand Place) :
    (o.stored kind).places = o.places := by
  cases o <;> rfl

theorem fits_stored (kind : OperandKind) (o : Operand Place) :
    (o.stored kind).fits kind = o.fits kind := by
  cases o <;> rfl

theorem size_stored (kind : OperandKind) (o : Operand Place) :
    (o.stored kind).size kind = o.size kind := by
  cases o <;> rfl

theorem length_places_le (kind : OperandKind) (o : Operand Place) :
    o.places.length ≤ o.size kind := by
  cases o with
  | target place =>
      simp only [places, size, List.length_singleton]
      split <;> simp
  | switch places =>
      simp only [Operand.places, size]
      omega
  | _ => simp [places]

theorem stored_map (f : Place → Other) (kind : OperandKind) (o : Operand Place) :
    (o.map f).stored kind = (o.stored kind).map f := by
  cases o <;> rfl

theorem stored_stored (kind : OperandKind) (o : Operand Place) :
    (o.stored kind).stored kind = o.stored kind := by
  cases o with
  | int32 value => by_cases short : kind = .shortInt <;> simp [stored, short]
  | var index =>
      by_cases short : kind = .shortVar
      · have same : index.toUInt8.toUInt16.toUInt8 = index.toUInt8 := UInt8.toUInt8_toUInt16 _
        simp only [stored, short, if_pos, same]
      · simp [stored, short]
  | _ => rfl

theorem bytes_stored (kind : OperandKind) (o : Operand Int) :
    (o.stored kind).bytes kind = o.bytes kind := by
  cases o with
  | int32 value =>
      by_cases short : kind = .shortInt
      · simp only [stored, bytes, short, if_pos]
        apply Bytes.spell_congr
        rw [Int8.toInt_toInt32, Int32.toInt_toInt8]
        exact Int.bmod_emod
      · simp [stored, bytes, short]
  | var index =>
      by_cases short : kind = .shortVar
      · simp only [stored, bytes, short, if_pos]
        apply Bytes.spell_congr
        rw [UInt8.toNat_toUInt16, UInt16.toNat_toUInt8]
        omega
      · simp [stored, bytes, short]
  | _ => rfl

variable {ε : Type} {f : Place → Except ε Other}

theorem resolve_eq_ok {o : Operand Place} {r : Operand Other} :
    o.resolve f = .ok r ↔ o.map f = r.map Except.ok := by
  cases o with
  | target place =>
      rw [resolve, bind_eq_ok]
      cases r <;> simp [map, pure, Except.pure]
  | switch places =>
      rw [resolve, bind_eq_ok]
      cases r <;> simp [map, pure, Except.pure, mapM_eq_ok_iff]
  | _ => cases r <;> simp [resolve, map, pure, Except.pure]

theorem exists_resolve_eq_ok {o : Operand Place} :
    (∃ r, o.resolve f = .ok r) ↔ ∀ p ∈ o.places, ∃ q, f p = .ok q := by
  cases o with
  | target place =>
      simp only [resolve, bind_eq_ok, places, List.mem_singleton, forall_eq]
      constructor
      · rintro ⟨r, q, found, -⟩
        exact ⟨q, found⟩
      · rintro ⟨q, found⟩
        exact ⟨_, q, found, rfl⟩
  | switch places =>
      simp only [resolve, bind_eq_ok, Operand.places, ← exists_mapM_eq_ok]
      constructor
      · rintro ⟨r, qs, found, -⟩
        exact ⟨qs, found⟩
      · rintro ⟨qs, found⟩
        exact ⟨_, qs, found, rfl⟩
  | _ => simp [resolve, Operand.places, pure, Except.pure]

theorem map_of_resolved {o : Operand Place} {r : Operand Other} {g : Other → Place}
    (resolved : o.map f = r.map Except.ok) (back : ∀ p q, f p = .ok q → g q = p) :
    r.map g = o := by
  cases o <;> cases r <;> simp only [map, reduceCtorEq, target.injEq, switch.injEq] at resolved
  case target.target p q => exact congrArg Operand.target (back p q resolved)
  case switch.switch ps qs =>
      apply congrArg Operand.switch
      induction ps generalizing qs with
      | nil =>
          cases qs with
          | nil => rfl
          | cons q qs => cases resolved
      | cons p ps ih =>
          cases qs with
          | nil => cases resolved
          | cons q qs =>
              obtain ⟨first, later⟩ := List.cons.inj resolved
              rw [List.map_cons, back p q first, ih qs later]
  all_goals simp_all [map]

end Operand

namespace Decode

theorem link_eq_ok {scanned : List (Instruction Int)} {i : Instruction Int} {j : Instruction Nat} :
    link scanned i = .ok j ↔
      (j.index = i.index ∧ j.offset = i.offset ∧ j.size = i.size ∧ j.opcode = i.opcode) ∧
        i.operand.map (place scanned i.offset) = j.operand.map Except.ok := by
  rw [link, bind_eq_ok]
  obtain ⟨index, offset, size, opcode, operand⟩ := j
  simp only [Operand.resolve_eq_ok, pure, Except.pure, Except.ok.injEq, Instruction.mk.injEq]
  constructor
  · rintro ⟨r, resolved, rfl, rfl, rfl, rfl, rfl⟩
    exact ⟨⟨rfl, rfl, rfl, rfl⟩, resolved⟩
  · rintro ⟨⟨rfl, rfl, rfl, rfl⟩, resolved⟩
    exact ⟨_, resolved, rfl, rfl, rfl, rfl, rfl⟩

theorem exists_link_eq_ok {scanned : List (Instruction Int)} {i : Instruction Int} :
    (∃ j, link scanned i = .ok j) ↔ ∀ t ∈ i.targets, ∃ k, place scanned i.offset t = .ok k := by
  rw [Instruction.targets, ← Operand.exists_resolve_eq_ok]
  simp only [link, bind_eq_ok]
  constructor
  · rintro ⟨j, r, resolved, -⟩
    exact ⟨r, resolved⟩
  · rintro ⟨r, resolved⟩
    exact ⟨_, r, resolved, rfl⟩

theorem place_eq_ok {scanned : List (Instruction Int)} {offset : Nat} {t : Int} {k : Nat} :
    place scanned offset t = .ok k ↔ scanned.findIdx? (fun i => (i.offset : Int) = t) = some k := by
  unfold place
  cases scanned.findIdx? fun i => (i.offset : Int) = t <;> simp

theorem exists_of_place {scanned : List (Instruction Int)} {l : Listing}
    (linked : scanned.mapM (link scanned) = .ok l) {offset k : Nat} {t : Int}
    (placed : place scanned offset t = .ok k) : ∃ j, l[k]? = some j ∧ (j.offset : Int) = t := by
  rw [place_eq_ok, List.findIdx?_eq_some_iff_getElem] at placed
  obtain ⟨within, here, -⟩ := placed
  obtain ⟨j, found, link⟩ := mapM_getElem? linked (List.getElem?_eq_getElem within)
  obtain ⟨-, offset, -, -⟩ := (link_eq_ok.mp link).1
  refine ⟨j, found, ?_⟩
  rw [offset]
  simpa using here

theorem toOption_place (scanned : List (Instruction Int)) (offset : Nat) (t : Int) :
    (place scanned offset t).toOption = scanned.findIdx? fun i => (i.offset : Int) = t := by
  unfold place
  cases scanned.findIdx? fun i => (i.offset : Int) = t <;> rfl

end Decode

namespace Instruction

variable {Place Other : Type}

def span (i : Instruction Place) : Nat × Nat × Nat := (i.index, i.offset, i.size)

end Instruction

theorem extent_congr {Place Other : Type} {l : List (Instruction Place)}
    {r : List (Instruction Other)} (same : l.map (·.span) = r.map (·.span)) :
    extent l = extent r := by
  have sizes := congrArg (List.map fun s => s.2.2) same
  rw [List.map_map, List.map_map] at sizes
  exact congrArg List.sum sizes

theorem size_pos_congr {Place Other : Type} {l : List (Instruction Place)}
    {r : List (Instruction Other)} (same : l.map (·.span) = r.map (·.span))
    (positive : ∀ i ∈ l, 0 < i.size) : ∀ j ∈ r, 0 < j.size := by
  intro j member
  have listed : j.span ∈ l.map (·.span) := same ▸ List.mem_map_of_mem member
  obtain ⟨i, member, here⟩ := List.mem_map.mp listed
  have size : i.size = j.size := congrArg (fun s => s.2.2) here
  exact size ▸ positive i member

theorem Placed.congr {Place Other : Type} {index offset : Nat} {l : List (Instruction Place)}
    {r : List (Instruction Other)} (same : l.map (·.span) = r.map (·.span))
    (placed : Placed index offset l) : Placed index offset r := by
  induction l generalizing index offset r with
  | nil =>
      obtain rfl : r = [] := by simpa using same.symm
      exact placed_nil
  | cons i l ih =>
      cases r with
      | nil => cases same
      | cons j r =>
          obtain ⟨first, later⟩ := List.cons.inj same
          obtain ⟨index, offset, size⟩ :
              i.index = j.index ∧ i.offset = j.offset ∧ i.size = j.size := by
            simpa [Instruction.span] using first
          obtain ⟨here, starts, placed⟩ := placed_cons.mp placed
          rw [placed_cons, ← index, ← offset, ← size]
          exact ⟨here, starts, ih later placed⟩

theorem findIdx?_offset_congr {Place Other : Type} {l : List (Instruction Place)}
    {r : List (Instruction Other)} (same : l.map (·.span) = r.map (·.span)) (p : Nat → Bool) :
    l.findIdx? (fun i => p i.offset) = r.findIdx? fun i => p i.offset := by
  have offsets := congrArg (List.findIdx? fun s => p s.2.1) same
  rwa [List.findIdx?_map, List.findIdx?_map] at offsets

theorem span_of_linked {scanned all : List (Instruction Int)} {l : Listing}
    (linked : scanned.mapM (Decode.link all) = .ok l) :
    scanned.map (·.span) = l.map (·.span) := by
  have same := mapM_eq_ok_iff.mp linked
  clear linked
  induction scanned generalizing l with
  | nil =>
      obtain rfl : l = [] := by simpa using same.symm
      rfl
  | cons i scanned ih =>
      cases l with
      | nil => cases same
      | cons j l =>
          obtain ⟨first, later⟩ := List.cons.inj same
          obtain ⟨index, offset, size, -⟩ := (Decode.link_eq_ok.mp first).1
          rw [List.map_cons, List.map_cons, ih later, Instruction.span, Instruction.span, index,
            offset, size]

end Destack
