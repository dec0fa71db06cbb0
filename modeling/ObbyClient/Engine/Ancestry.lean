import ObbyClient.Engine.Holding

/-!
# The batches that hold a batch open

A server may name any batch as the parent of any other, itself included.  The walk along the parents
is followed turn by turn, with the counter that stops it.

* `Batches.HeldOpenBy` — one link from an open batch to its parent;
* `Batches.walkLoop` — the loop of the source, and its counter;
* `Batches.isWithin_reaches` — the loop ends, and finds what there is to find.
-/

namespace ObbyClient.Batches

/-- This batch is open, and that one is named as its parent. -/
def HeldOpenBy (batches : Batches) (reference parent : Str) : Prop :=
  ∃ batch, batches.byReference[reference]? = some batch ∧ batch.parent = some parent

/-- Following the parents from here, this is one of the places come to. -/
def Reaches (batches : Batches) : Str → Str → Prop := Relation.ReflTransGen batches.HeldOpenBy

/-- An open batch of this type under this reference. -/
def OpenOf (batches : Batches) (kind reference : Str) : Prop :=
  ∃ batch, batches.byReference[reference]? = some batch ∧ batch.kind = kind

theorem nested_iff_reaches (batches : Batches) (kind reference : Str) :
    Nested batches kind reference ↔
      ∃ found, batches.Reaches reference found ∧ batches.OpenOf kind found := by
  constructor
  · intro h
    induction h with
    | here hopen h => exact ⟨_, .refl, _, hopen, h⟩
    | parent hopen hparent _ ih =>
      obtain ⟨found, hreaches, hfound⟩ := ih
      exact ⟨found, .head ⟨_, hopen, hparent⟩ hreaches, hfound⟩
  · rintro ⟨found, hreaches, batch, hopen, hkind⟩
    induction hreaches using Relation.ReflTransGen.head_induction_on with
    | refl => exact .here hopen hkind
    | head hlink _ ih =>
      obtain ⟨inner, hinner, hparent⟩ := hlink
      exact .parent hinner hparent ih

/-! ### The loop -/

/-- One turn of the loop: where it goes on, with its counter, or what it gives. -/
def turn (batches : Batches) (kind : Str) (current : Option OpenBatch) (steps : ℕ) :
    (Option OpenBatch × ℕ) ⊕ Bool :=
  match current with
  | none => .inr false
  | some batch =>
    if batch.kind = kind then .inr true
    else if batches.byReference.size < steps + 1 then .inr false
    else .inl (batch.parent.bind fun parent => batches.byReference[parent]?, steps + 1)

/-- The loop; `none` where it is still running after so many turns. -/
def walkLoop (batches : Batches) (kind : Str) : ℕ → Option OpenBatch → ℕ → Option Bool
  | 0, _, _ => none
  | turns + 1, current, steps =>
    match turn batches kind current steps with
    | .inr answer => some answer
    | .inl (current, steps) => walkLoop batches kind turns current steps

/-- The loop has as many turns left as its counter has, and gives what the walk gives. -/
theorem walkLoop_eq (batches : Batches) (kind : Str) {left turns steps : ℕ}
    (current : Option OpenBatch) (hleft : steps + left = batches.byReference.size)
    (hturns : left < turns) :
    walkLoop batches kind turns current steps = some (isWithin.go batches kind left current) := by
  induction left generalizing turns steps current with
  | zero =>
    obtain ⟨turns, rfl⟩ := Nat.exists_eq_succ_of_ne_zero (Nat.ne_of_gt hturns)
    rw [walkLoop, isWithin.go]
    unfold turn
    cases current with
    | none => rfl
    | some batch =>
      have hend : batches.byReference.size < steps + 1 := by omega
      by_cases hkind : batch.kind = kind
      · simp only [if_pos hkind, Option.any_some, beq_iff_eq.mpr hkind]
      · simp only [if_neg hkind, if_pos hend, Option.any_some, beq_eq_false_iff_ne.mpr hkind]
  | succ left ih =>
    obtain ⟨turns, rfl⟩ := Nat.exists_eq_succ_of_ne_zero (Nat.ne_of_gt (Nat.zero_lt_of_lt hturns))
    rw [walkLoop, isWithin.go]
    unfold turn
    cases current with
    | none => rfl
    | some batch =>
      have hon : ¬ batches.byReference.size < steps + 1 := by omega
      by_cases hkind : batch.kind = kind
      · simp only [if_pos hkind, Option.any_some, beq_iff_eq.mpr hkind, Bool.true_or]
      · simp only [if_neg hkind, if_neg hon, Option.any_some, beq_eq_false_iff_ne.mpr hkind,
          Bool.false_or]
        exact ih _ (by omega) (by omega)

/-- **The walk ends, and finds what there is to find.**  Whatever the parents are, the loop is over
within one turn more than there are open batches, and it gives `true` when a batch of the type is
come to by following the parents of open batches, the first one included, and in no other case. -/
theorem isWithin_reaches (batches : Batches) (reference kind : Str) :
    (∀ more, walkLoop batches kind (batches.byReference.size + 1 + more)
      batches.byReference[reference]? 0 = some (batches.isWithin reference kind)) ∧
    (batches.isWithin reference kind = true ↔
      ∃ found, Relation.ReflTransGen batches.HeldOpenBy reference found ∧
        ∃ batch, batches.byReference[found]? = some batch ∧ batch.kind = kind) := by
  refine ⟨fun more => ?_, ?_⟩
  · exact walkLoop_eq batches kind _ (Nat.zero_add _) (by omega)
  · rw [isWithin_iff]
    exact nested_iff_reaches batches kind reference

/-- Two batches that hold each other open, and one that holds itself. -/
example :
    let batches : Batches :=
      ⟨((∅ : Std.ExtTreeMap Str OpenBatch).insert "a" ⟨⟨"x", [], some "b", [], false⟩, ∅⟩).insert
        "b" ⟨⟨"y", [], some "a", [], false⟩, ∅⟩ |>.insert "c" ⟨⟨"z", [], some "c", [], false⟩, ∅⟩,
        1024, 64⟩
    batches.isWithin "a" "y" = true ∧ batches.isWithin "a" "z" = false ∧
      batches.isWithin "c" "x" = false := by
  decide +kernel

end ObbyClient.Batches
