import Destack.Proofs.Bytecode.RoundTrip

namespace Destack

namespace Assembly

section First

variable (blame : List Call → Call → Option AssembleError)

def Clean (calls : List Call) : Prop :=
  ∀ before c after, calls = before ++ c :: after → blame before c = none

def First (calls : List Call) (e : AssembleError) : Prop :=
  ∃ before c after, calls = before ++ c :: after ∧ blame before c = some e ∧ Clean blame before

variable {blame} {calls : List Call} {c : Call} {e : AssembleError}

theorem concat_eq_split {before after : List Call} {d : Call} :
    calls ++ [c] = before ++ d :: after ↔
      (before = calls ∧ d = c ∧ after = []) ∨
        ∃ rest, calls = before ++ d :: rest ∧ after = rest ++ [c] := by
  constructor
  · intro split
    rcases List.eq_nil_or_concat after with rfl | ⟨rest, last, rfl⟩
    · obtain ⟨rfl, same⟩ := List.append_inj' split rfl
      exact .inl ⟨rfl, (List.cons.inj same).1.symm, rfl⟩
    · rw [List.concat_eq_append, ← List.cons_append, ← List.append_assoc] at split
      obtain ⟨same, last⟩ := List.append_inj' split rfl
      rw [List.concat_eq_append, (List.cons.inj last).1]
      exact .inr ⟨rest, same, rfl⟩
  · rintro (⟨rfl, rfl, rfl⟩ | ⟨rest, rfl, rfl⟩) <;> simp

theorem clean_concat : Clean blame (calls ++ [c]) ↔ Clean blame calls ∧ blame calls c = none := by
  constructor
  · intro clean
    refine ⟨fun before d after split => clean before d (after ++ [c]) ?_, clean calls c [] rfl⟩
    exact concat_eq_split.mpr (.inr ⟨after, split, rfl⟩)
  · rintro ⟨clean, fine⟩ before d after split
    rcases concat_eq_split.mp split with ⟨rfl, rfl, -⟩ | ⟨rest, split, -⟩
    · exact fine
    · exact clean before d rest split

theorem first_concat :
    First blame (calls ++ [c]) e ↔
      First blame calls e ∨ (Clean blame calls ∧ blame calls c = some e) := by
  constructor
  · rintro ⟨before, d, after, split, blamed, clean⟩
    rcases concat_eq_split.mp split with ⟨rfl, rfl, -⟩ | ⟨rest, split, -⟩
    · exact .inr ⟨clean, blamed⟩
    · exact .inl ⟨before, d, rest, split, blamed, clean⟩
  · rintro (⟨before, d, rest, split, blamed, clean⟩ | ⟨clean, blamed⟩)
    · exact ⟨before, d, rest ++ [c], concat_eq_split.mpr (.inr ⟨rest, split, rfl⟩), blamed, clean⟩
    · exact ⟨calls, c, [], rfl, blamed, clean⟩

theorem first_of_steps (noted : List Call → Option AssembleError) (start : noted [] = none)
    (step : ∀ before c after, calls = before ++ c :: after →
      noted (before ++ [c]) = (noted before).or (blame before c)) :
    (noted calls = none ↔ Clean blame calls) ∧ ∀ e, noted calls = some e ↔ First blame calls e := by
  -- A note that every call to blame adds to, and that the first of them settles.
  induction calls using List.reverseRecOn with
  | nil =>
      refine ⟨iff_of_true start ?_, fun e => iff_of_false (by simp [start]) ?_⟩
      · rintro before c after split
        simp at split
      · rintro ⟨before, c, after, split, -⟩
        simp at split
  | append_singleton calls c ih =>
      obtain ⟨none, some⟩ := ih fun before d after split =>
        step before d (after ++ [c]) (concat_eq_split.mpr (.inr ⟨after, split, rfl⟩))
      rw [step calls c [] rfl]
      refine ⟨?_, fun e => ?_⟩
      · rw [Option.or_eq_none_iff, none, clean_concat]
      · rw [Option.or_eq_some_iff, none, some, first_concat]

end First

def emittedSize (e : Opcode × Operand Label) : Nat := e.1.encoding.bytes.length + e.2.size e.1.kind

def codeLength (calls : List Call) : Nat := ((emitted calls).map emittedSize).sum

def markOffset (calls : List Call) (label : Label) : Nat :=
  codeLength (calls.takeWhile (· ≠ .mark label))

def named (calls : List Call) : List Label := (emitted calls).flatMap fun e => e.2.places

theorem extent_write (calls : List Call) :
    extent (write calls).instructions = codeLength calls := by
  have records := records_write calls
  rw [codeLength, ← records.emits, List.map_map, extent]
  congr 1
  exact List.map_congr_left records.sized

theorem offset_write (calls : List Call) : (write calls).offset = codeLength calls := by
  rw [(records_write calls).offset_eq, extent_write]

theorem referenced_write (calls : List Call) : (write calls).referenced = named calls := by
  rw [named, ← (records_write calls).emits, List.flatMap_map]
  rfl

def marked? (calls : List Call) (label : Label) : Option Nat :=
  if .mark label ∈ calls then some (markOffset calls label) else none

theorem marked?_concat (calls : List Call) (c : Call) (label : Label) :
    marked? (calls ++ [c]) label =
      (marked? calls label).or (if c = .mark label then some (codeLength calls) else none) := by
  have split : (calls ++ [c]).takeWhile (· ≠ .mark label) = if .mark label ∈ calls then
      calls.takeWhile (· ≠ .mark label) else calls ++ [c].takeWhile (· ≠ .mark label) := by
    split
    · rename_i marked
      rw [List.takeWhile_append, if_neg]
      intro whole
      have whole := (List.takeWhile_prefix _).eq_of_length whole
      simpa using List.takeWhile_eq_self_iff.mp whole _ marked
    · rename_i unmarked
      rw [List.takeWhile_append_of_pos]
      intro d member
      simpa using fun same : d = .mark label => unmarked (same ▸ member)
  unfold marked? markOffset
  rw [split]
  by_cases marked : .mark label ∈ calls
  · simp [marked]
  · by_cases here : c = .mark label <;> simp [marked, here, eq_comm]

theorem labels_perform_join (a : Assembly) (c : Call) (label : Label)
    (known : c = .mark label → label < a.labels.length) :
    (c.perform a).labels[label]?.join =
      (a.labels[label]?.join).or (if c = .mark label then some a.offset else none) := by
  rcases perform_cases a c with ⟨rfl, same⟩ | ⟨other, offset, rfl, bound, same⟩ |
    ⟨other, rfl, unbound, same⟩ | ⟨op, operand, emits, same⟩
  · rw [same, Assembly.define, List.getElem?_append]
    split
    · simp
    · rename_i past
      rw [List.getElem?_eq_none (Nat.le_of_not_lt past), List.getElem?_singleton]
      split <;> rfl
  · rw [same]
    by_cases here : other = label
    · subst here
      simp [fail, bound]
    · simp [fail, here]
  · rw [same]
    by_cases here : other = label
    · subst here
      have unbound : a.labels[other]?.join = none := by
        cases found : a.labels[other]? with
        | none => rfl
        | some bound =>
            cases bound with
            | none => rfl
            | some offset => exact absurd found (unbound offset)
      rw [List.getElem?_set_self (known rfl), unbound]
      simp
    · rw [List.getElem?_set_ne here]
      simp [here]
  · rw [same, labels_emit, if_neg, Option.or_none]
    rintro rfl
    cases emits

/-- What is wrong with a call after others: it marks a label again, or the operand that it emits
does not fit. -/
def Call.fault? (before : List Call) : Call → Option AssembleError
  | .mark label => if .mark label ∈ before then some (.reboundLabel label) else none
  | c => c.emitted?.bind fun e =>
    if e.2.fits e.1.kind then none else some (.operandMismatch e.1 (codeLength before))

theorem fault?_of_emitted? {c : Call} {op : Opcode} {operand : Operand Label}
    (emits : c.emitted? = some (op, operand)) (before : List Call) :
    c.fault? before =
      if operand.fits op.kind then none else some (.operandMismatch op (codeLength before)) := by
  unfold Call.fault?
  split
  · cases emits
  · rw [emits]
    rfl

theorem fault_emit_eq (a : Assembly) (op : Opcode) (operand : Operand Label) :
    (a.emit op operand).fault = a.fault.or
      (if operand.fits op.kind then none else some (.operandMismatch op a.offset)) := by
  unfold emit
  dsimp only
  split
  · rw [Option.or_none]
  · rfl

section Own

variable {calls : List Call} (own : OwnLabels 0 calls)
include own

theorem labels_write (label : Label) : (write calls).labels[label]?.join = marked? calls label := by
  induction calls using List.reverseRecOn with
  | nil => rfl
  | append_singleton calls c ih =>
      obtain ⟨ownBefore, here, -⟩ := ownLabels_append.mp own
      rw [write_append, List.foldl_cons, List.foldl_nil, labels_perform_join, ih ownBefore,
        marked?_concat, offset_write]
      rintro rfl
      rw [(records_write calls).defines, ← Nat.zero_add (defined calls)]
      exact here label List.mem_cons_self

theorem fault_write_concat (c : Call) :
    (write (calls ++ [c])).fault = (write calls).fault.or (c.fault? calls) := by
  have bound := labels_write own
  rw [write_append, List.foldl_cons, List.foldl_nil]
  rcases perform_cases (write calls) c with ⟨rfl, same⟩ | ⟨label, offset, rfl, found, same⟩ |
    ⟨label, rfl, unbound, same⟩ | ⟨op, operand, emits, same⟩
  · rw [same]
    simp [Assembly.define, Call.fault?, Call.emitted?]
  · have marked : .mark label ∈ calls := by
      by_contra unmarked
      have none := bound label
      rw [marked?, if_neg unmarked, found] at none
      cases none
    rw [same, Call.fault?, if_pos marked]
    rfl
  · have unmarked : .mark label ∉ calls := by
      intro marked
      have some := bound label
      rw [marked?, if_pos marked, Option.join_eq_some_iff] at some
      exact unbound _ some
    rw [same, Call.fault?, if_neg unmarked, Option.or_none]
  · rw [same, fault_emit_eq, fault?_of_emitted? emits, offset_write]

theorem fault_write :
    ((write calls).fault = none ↔ Clean Call.fault? calls) ∧
      ∀ e, (write calls).fault = some e ↔ First Call.fault? calls e := by
  refine first_of_steps (fun calls => (write calls).fault) rfl ?_
  rintro before c after rfl
  exact fault_write_concat (ownLabels_append.mp own).1 c

end Own

/-- A label is named but not marked. -/
def Loose (calls : List Call) (label : Label) : Prop := label ∈ named calls ∧ .mark label ∉ calls

theorem lt_defined_of_named {calls : List Call} (own : OwnLabels 0 calls) {label : Label}
    (listed : label ∈ named calls) : label < defined calls := by
  have records := records_write calls
  rw [← referenced_write] at listed
  obtain ⟨i, member, target⟩ := List.mem_flatMap.mp listed
  exact records.defines ▸ records.owns own i member label target

section Own

variable {calls : List Call} (own : OwnLabels 0 calls)
include own

theorem unbound_iff {label : Label} :
    ((write calls).labels[label]? = some none ∧ label ∈ (write calls).referenced) ↔
      Loose calls label := by
  have bound := labels_write own label
  rw [referenced_write, Loose, and_comm]
  refine and_congr_right fun listed => ?_
  have known : label < (write calls).labels.length := by
    rw [(records_write calls).defines]
    exact lt_defined_of_named own listed
  have found := List.getElem?_eq_getElem known
  rw [found] at bound ⊢
  unfold marked? at bound
  split at bound <;> simp_all

theorem unbound?_eq_some {label : Label} :
    (write calls).unbound? = some label ↔ IsLeast {label | Loose calls label} label := by
  have loose (label : Label) : ((write calls).labels[label]? = some none &&
      (write calls).referenced.contains label) = true ↔ Loose calls label := by
    rw [← unbound_iff own, Bool.and_eq_true, decide_eq_true_eq, List.contains_iff_mem]
  rw [unbound?, List.find?_range_eq_some, loose, List.mem_range, (records_write calls).defines]
  constructor
  · rintro ⟨here, -, before⟩
    refine ⟨here, fun other found => Nat.le_of_not_lt fun less => ?_⟩
    have clear := before other less
    rw [(loose other).mpr found] at clear
    cases clear
  · rintro ⟨here, least⟩
    refine ⟨here, lt_defined_of_named own here.1, fun other less => ?_⟩
    rw [Bool.not_eq_true', ← Bool.not_eq_true, loose]
    exact fun found => absurd (least found) (Nat.not_le_of_lt less)

theorem unbound?_eq_none_iff : (write calls).unbound? = none ↔ ∀ label, ¬Loose calls label := by
  rw [unbound?_eq_none]
  refine forall_congr' fun label => ?_
  rw [← unbound_iff own, not_and, imp_not_comm]

end Own

def Call.overreach? (all before : List Call) (c : Call) : Option AssembleError :=
  c.emitted?.bind fun e =>
    match e.2 with
    | .target label =>
      let displacement : Int := markOffset all label - codeLength (before ++ [c])
      if e.1.kind = .shortBranch ∧ ¬(-128 ≤ displacement ∧ displacement ≤ 127) then
        some (.shortBranchOutOfRange (codeLength before) displacement)
      else none
    | _ => none

theorem instructions_perform_eq (a : Assembly) (c : Call) :
    (c.perform a).instructions = a.instructions ++ (c.emitted?.map fun e =>
      (⟨a.instructions.length, a.offset, emittedSize e, e.1, e.2⟩ : Instruction Label)).toList := by
  rcases perform_cases a c with ⟨rfl, same⟩ | ⟨label, offset, rfl, -, same⟩ |
    ⟨label, rfl, -, same⟩ | ⟨op, operand, emits, same⟩
  · rw [same]
    exact (List.append_nil _).symm
  · rw [same]
    exact (List.append_nil _).symm
  · rw [same]
    exact (List.append_nil _).symm
  · rw [same, instructions_emit, emits]
    rfl

theorem codeLength_concat {c : Call} {e : Opcode × Operand Label} (emits : c.emitted? = some e)
    (calls : List Call) : codeLength (calls ++ [c]) = codeLength calls + emittedSize e := by
  rw [codeLength, codeLength, emitted, List.filterMap_append, List.map_append, List.sum_append]
  simp [emits, emitted]

section Own

variable {all : List Call} (own : OwnLabels 0 all) (bound : ∀ label, ¬Loose all label)
include own bound

theorem labelOffset_write {label : Label} (listed : label ∈ named all) :
    (write all).labelOffset label = markOffset all label := by
  have marked : .mark label ∈ all := by
    by_contra unmarked
    exact bound label ⟨listed, unmarked⟩
  rw [labelOffset, labels_write own, marked?, if_pos marked]
  rfl

theorem overreach?_emitted {before after : List Call} {c : Call} {e : Opcode × Operand Label}
    (split : all = before ++ c :: after) (emits : c.emitted? = some e) (index : Nat) :
    (write all).overreach? ⟨index, codeLength before, emittedSize e, e.1, e.2⟩ =
      c.overreach? all before := by
  obtain ⟨op, operand⟩ := e
  rw [Call.overreach?, emits, Option.bind_some, codeLength_concat emits]
  cases operand with
  | target label =>
      have listed : label ∈ named all := by
        refine List.mem_flatMap.mpr ⟨(op, .target label), ?_, List.mem_cons_self⟩
        exact List.mem_filterMap.mpr ⟨c, by simp [split], emits⟩
      by_cases short : op.kind = .shortBranch
      · have offset := labelOffset_write own bound listed
        simp only [overreach?, short, displacement, offset, Instruction.nextOffset, true_and,
          Bool.and_eq_true, decide_eq_true_eq, ite_not]
      · simp [overreach?, short]
  | _ => simp [overreach?]

theorem overreach_write_concat {before after : List Call} {c : Call}
    (split : all = before ++ c :: after) :
    (write (before ++ [c])).instructions.findSome? (write all).overreach? =
      ((write before).instructions.findSome? (write all).overreach?).or
        (c.overreach? all before) := by
  rw [write_append, List.foldl_cons, List.foldl_nil, instructions_perform_eq, List.findSome?_append]
  cases emits : c.emitted? with
  | none =>
      rw [Call.overreach?, emits]
      rfl
  | some e =>
      rw [Option.map_some, Option.toList_some, List.findSome?_singleton, offset_write,
        overreach?_emitted own bound split emits]

theorem overreach_write :
    ((write all).instructions.findSome? (write all).overreach? = none ↔
      Clean (Call.overreach? all) all) ∧
    ∀ e, (write all).instructions.findSome? (write all).overreach? = some e ↔
      First (Call.overreach? all) all e :=
  first_of_steps (fun calls => (write calls).instructions.findSome? (write all).overreach?)
    rfl fun _ _ _ => overreach_write_concat own bound

end Own

/-- What can be wrong with a sequence of calls, in the order in which it is reported. -/
inductive Fails (calls : List Call) : AssembleError → Prop
  | faulty {e : AssembleError} : First Call.fault? calls e → Fails calls e
  | loose {label : Label} : Clean Call.fault? calls → IsLeast {label | Loose calls label} label →
    Fails calls (.unboundLabel label)
  | short {e : AssembleError} : Clean Call.fault? calls → (∀ label, ¬Loose calls label) →
    First (Call.overreach? calls) calls e → Fails calls e

theorem finish_eq_error {calls : List Call} {e : AssembleError} (own : OwnLabels 0 calls) :
    (write calls).finish = .error e ↔ Fails calls e := by
  obtain ⟨clean, faulty⟩ := fault_write own
  constructor
  · intro failed
    unfold finish at failed
    split at failed
    · rename_i found
      cases failed
      exact .faulty ((faulty _).mp found)
    · rename_i sound found
      cases failed
      exact .loose (clean.mp sound) ((unbound?_eq_some own).mp found)
    · rename_i sound bound found
      cases failed
      have bound := (unbound?_eq_none_iff own).mp bound
      exact .short (clean.mp sound) bound (((overreach_write own bound).2 _).mp found)
    · cases failed
  · intro fails
    cases fails with
    | faulty first => rw [finish, (faulty _).mpr first]
    | loose sound least => rw [finish, clean.mpr sound, (unbound?_eq_some own).mpr least]
    | short sound bound first =>
        rw [finish, clean.mpr sound, (unbound?_eq_none_iff own).mpr bound,
          ((overreach_write own bound).2 _).mpr first]

/-- What is reported of any calls that name their own labels: exactly one error if something is
wrong with them, and otherwise code with the offsets of the labels, where one that nothing names or
marks is at the largest offset there is. -/
theorem finish_write {calls : List Call} (own : OwnLabels 0 calls) :
    (∀ e, (write calls).finish = .error e ↔ Fails calls e) ∧
    ((∀ e, ¬Fails calls e) → ∃ f, (write calls).finish = .ok f ∧
      f.code.length = codeLength calls ∧ f.labels.length = defined calls ∧
      ∀ label < defined calls,
        (.mark label ∈ calls → f.labels[label]? = some (markOffset calls label)) ∧
        (.mark label ∉ calls → label ∉ named calls ∧ f.labels[label]? = some (2 ^ 32 - 1))) := by
  refine ⟨fun e => finish_eq_error own, fun sound => ?_⟩
  cases finished : (write calls).finish with
  | error e => exact absurd ((finish_eq_error own).mp finished) (sound e)
  | ok f =>
      have length := length_code finished
      have records := records_write calls
      obtain ⟨-, bound, -, rfl⟩ := finish_eq_ok.mp finished
      refine ⟨_, rfl, length.trans (extent_write calls), by simp [records.defines], ?_⟩
      intro label known
      have offset := labels_write own label
      have found : ((List.range (write calls).labels.length).map
          (write calls).labelOffset)[label]? = some ((marked? calls label).getD unboundOffset) := by
        rw [List.getElem?_map, List.getElem?_range (records.defines ▸ known), Option.map_some,
          labelOffset, offset]
      refine ⟨fun marked => ?_, fun unmarked => ⟨fun listed => ?_, ?_⟩⟩
      · rw [found, marked?, if_pos marked]
        rfl
      · exact (unbound?_eq_none_iff own).mp bound label ⟨listed, unmarked⟩
      · rw [found, marked?, if_neg unmarked]
        rfl

def astray : List Call :=
  [.define, .define, .define, .emit .brS (.target 0)] ++
    List.replicate 15 (.emit .ldcI8 (.int64 0)) ++ [.emit .br (.target 1), .mark 0]

theorem astray_reports :
    (OwnLabels 0 (astray ++ [.mark 0, .emit .call .none]) ∧
      Fails (astray ++ [.mark 0, .emit .call .none]) (.reboundLabel 0)) ∧
    (OwnLabels 0 astray ∧ Fails astray (.unboundLabel 1)) ∧
    (OwnLabels 0 (astray ++ [.mark 1]) ∧
      Fails (astray ++ [.mark 1]) (.shortBranchOutOfRange 0 140)) :=
  have faulty : OwnLabels 0 (astray ++ [.mark 0, .emit .call .none]) := by decide +kernel
  have loose : OwnLabels 0 astray := by decide +kernel
  have short : OwnLabels 0 (astray ++ [.mark 1]) := by decide +kernel
  ⟨⟨faulty, ((finish_write faulty).1 _).mp (by decide +kernel)⟩,
    ⟨loose, ((finish_write loose).1 _).mp (by decide +kernel)⟩,
    ⟨short, ((finish_write short).1 _).mp (by decide +kernel)⟩⟩

end Assembly
end Destack
