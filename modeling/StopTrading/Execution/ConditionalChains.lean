import StopTrading.Execution.Conditional
import Mathlib

/-!
# Chains of conditions

`and` and `or` make the new node the right child of the root, in place of the one before it.  A
chain therefore has a root and one child, the condition that was added last (`chain_shape`), and
those in between are not looked at: `chainsExact_iff` says for each context whether that matters.

### What is load-bearing

`and` writes the new condition as the right child of the *root*, and the root keeps the operator
that came last.  So of a chain only the root and its last child can be reached, and the proof is
the statement of that shape: `chain_shape` is an induction on the chain, in which each step
overwrites what the step before has made.

The bound of 15 is the room for conditions besides the first.  A longer chain drops what does not
fit.
-/

namespace StopTrading.Execution.Conditional

namespace ConditionalExpression

/-- A first condition and further ones, chained with one operator. -/
def chain (operator : LogicalOp) (first : ConditionType) (further : List ConditionType) :
    ConditionalExpression :=
  further.foldl (link operator) (new.withCondition first)

/-- `new().with_condition(first).and(..)..`. -/
def andChain : ConditionType → List ConditionType → ConditionalExpression := chain .and

/-- `new().with_condition(first).or(..)..`. -/
def orChain : ConditionType → List ConditionType → ConditionalExpression := chain .or

variable {operator : LogicalOp} {first last : ConditionType} {further : List ConditionType}

/-- One condition more. -/
theorem chain_concat (operator : LogicalOp) (first last : ConditionType)
    (further : List ConditionType) :
    chain operator first (further ++ [last]) = (chain operator first further).link operator last :=
  List.foldl_concat ..

/-- What is at the root of a chain: it has a right child if anything was added to it. -/
structure Rooted (first : ConditionType) (n : Nat) (e : ConditionalExpression) : Prop where
  /-- conditions are counted -/
  count : e.conditionCount = n + 1
  /-- the first is the root -/
  root : e.rootIndex = 0
  /-- and stays there -/
  node : ∃ node, e.conditions 0 = some node ∧ node.condition = first

/-- The root is the first condition, whatever was added. -/
theorem rooted_chain (operator : LogicalOp) (first : ConditionType) {further : List ConditionType}
    (h : further.length ≤ 15) :
    Rooted first further.length (chain operator first further) := by
  induction further using List.reverseRecOn with
  | nil => exact ⟨rfl, rfl, _, rfl, rfl⟩
  | append_singleton further last ih =>
      rw [List.length_append, List.length_singleton] at h ⊢
      obtain ⟨hcount, hroot, node, hnode, hfirst⟩ := ih (by omega)
      have hroom : further.length + 1 < 16 ∧ further.length + 1 > 0 := by omega
      rw [chain_concat, link, hcount, hroot, hnode, if_pos hroom]
      refine ⟨rfl, rfl, { node with operator := operator, rightChild := some (further.length + 1) },
        ?_, hfirst⟩
      dsimp only
      rw [Function.update_of_ne (by omega), Function.update_self]

/-- **The shape of a chain**: the root, and the last condition for its right child. -/
theorem chain_shape (operator : LogicalOp) (first : ConditionType)
    (h : (further ++ [last]).length ≤ 15) :
    ∃ left, (chain operator first (further ++ [last])).conditions 0 =
        some ⟨first, operator, left, some (further.length + 1)⟩ ∧
      (chain operator first (further ++ [last])).conditions (further.length + 1) =
        some ⟨last, operator, none, none⟩ := by
  rw [List.length_append, List.length_singleton] at h
  have hshort : further.length ≤ 15 := by omega
  obtain ⟨hcount, hroot, node, hnode, rfl⟩ := rooted_chain operator first hshort
  have hroom : further.length + 1 < 16 ∧ further.length + 1 > 0 := by omega
  rw [chain_concat, link, hcount, hroot, hnode, if_pos hroom]
  refine ⟨node.leftChild, ?_, ?_⟩
  · dsimp only
    rw [Function.update_of_ne (by omega), Function.update_self]
  · exact Function.update_self ..

/-! ## What a chain evaluates to -/

variable {ctx : MarketContext}

/-- A node without children is its condition. -/
theorem evaluateNode_leaf {e : ConditionalExpression} {i rounds : Nat} {left : Option Nat}
    {condition : ConditionType} (hop : operator ≠ .not)
    (h : e.conditions i = some ⟨condition, operator, left, none⟩) :
    e.evaluateNode ctx (rounds + 1) i = evalCondition ctx condition := by
  simp only [evaluateNode, h]
  cases operator with
  | and | or => cases evalCondition ctx condition <;> rfl
  | not => exact absurd rfl hop

/-- A root and its right child, combined by the operator of the root. -/
def combine : LogicalOp → Bool → Bool → Bool
  | .and, a, b => a && b
  | .or, a, b => a || b
  | .not, a, _ => !a

/-- A node with a right child is both, combined. -/
theorem evaluateNode_root {e : ConditionalExpression} {i right rounds : Nat} {left : Option Nat}
    {condition : ConditionType}
    (h : e.conditions i = some ⟨condition, operator, left, some right⟩) :
    e.evaluateNode ctx (rounds + 1) i =
      combine operator (evalCondition ctx condition) (e.evaluateNode ctx rounds right) := by
  simp only [evaluateNode, h]
  cases operator <;> cases evalCondition ctx condition <;> rfl

/-- A chain of one condition is that condition. -/
theorem evaluate_chain_nil : (chain operator first []).evaluate ctx = evalCondition ctx first := by
  have hroot : (chain operator first []).conditions 0 = some ⟨first, .and, none, none⟩ := rfl
  have hleaf : (chain operator first []).evaluateNode ctx (15 + 1) 0 = evalCondition ctx first :=
    evaluateNode_leaf (by decide) hroot
  exact hleaf

/-- **A chain is its first and its last condition.** -/
theorem evaluate_chain_concat (hop : operator ≠ .not) (h : (further ++ [last]).length ≤ 15) :
    (chain operator first (further ++ [last])).evaluate ctx =
      combine operator (evalCondition ctx first) (evalCondition ctx last) := by
  obtain ⟨hcount, hroot, -⟩ := rooted_chain operator first h
  obtain ⟨left, hnode, hlast⟩ := chain_shape operator first h
  rw [evaluate, hcount, if_neg (Nat.succ_ne_zero _), hroot, evaluateNode_root hnode,
    evaluateNode_leaf hop hlast]

/-! ## Exact chains -/

/-- The condition holds in the context. -/
def Holds (ctx : MarketContext) (c : ConditionType) : Prop := evalCondition ctx c = true

instance (ctx : MarketContext) (c : ConditionType) : Decidable (Holds ctx c) :=
  inferInstanceAs (Decidable (_ = true))

/-- **A chain of `and`** is true just when all conditions hold. -/
def AndExact (first : ConditionType) (further : List ConditionType) (ctx : MarketContext) : Prop :=
  (andChain first further).evaluate ctx = true ↔ ∀ c ∈ first :: further, Holds ctx c

/-- **A chain of `or`** is true just when some condition holds. -/
def OrExact (first : ConditionType) (further : List ConditionType) (ctx : MarketContext) : Prop :=
  (orChain first further).evaluate ctx = true ↔ ∃ c ∈ first :: further, Holds ctx c

/-- **Which chains are exact in a context**: those of `and` unless the first and the last
condition hold and one in between does not, those of `or` unless neither of the two holds and one
in between does. -/
theorem chainsExact_iff (first : ConditionType) (further : List ConditionType)
    (h : further.length ≤ 15) (ctx : MarketContext) :
    (AndExact first further ctx ↔
      (Holds ctx first → (∀ last ∈ further.getLast?, Holds ctx last) →
        ∀ c ∈ further.dropLast, Holds ctx c)) ∧
    (OrExact first further ctx ↔
      ((∃ c ∈ further.dropLast, Holds ctx c) →
        Holds ctx first ∨ ∃ last ∈ further.getLast?, Holds ctx last)) := by
  unfold AndExact OrExact andChain orChain
  rcases further.eq_nil_or_concat' with rfl | ⟨between, last, rfl⟩
  · rw [evaluate_chain_nil, evaluate_chain_nil]
    simp [Holds]
  · have hall : (∀ c ∈ first :: (between ++ [last]), Holds ctx c) ↔
        Holds ctx first ∧ (∀ c ∈ between, Holds ctx c) ∧ Holds ctx last := by
      simp [or_imp, forall_and]
    have hsome : (∃ c ∈ first :: (between ++ [last]), Holds ctx c) ↔
        Holds ctx first ∨ (∃ c ∈ between, Holds ctx c) ∨ Holds ctx last := by
      simp [or_and_right, exists_or]
    rw [evaluate_chain_concat (by decide) h, evaluate_chain_concat (by decide) h, combine,
      combine, Bool.and_eq_true, Bool.or_eq_true, List.getLast?_concat, List.dropLast_concat,
      hall, hsome]
    simp only [Option.mem_def, Option.some.injEq, forall_eq', exists_eq_left']
    change ((Holds ctx first ∧ Holds ctx last ↔ _) ↔ _) ∧
      ((Holds ctx first ∨ Holds ctx last ↔ _) ↔ _)
    constructor
    · constructor
      · exact fun hexact hfirst hlast => (hexact.mp ⟨hfirst, hlast⟩).2.1
      · exact fun hbetween =>
          ⟨fun hends => ⟨hends.1, hbetween hends.1 hends.2, hends.2⟩, fun h => ⟨h.1, h.2.2⟩⟩
    · constructor
      · exact fun hexact hbetween => hexact.mpr (Or.inr (Or.inl hbetween))
      · exact fun hends => ⟨fun h => h.imp_right Or.inr,
          fun h => h.elim Or.inl fun h => h.elim hends Or.inr⟩

/-- The price is above three levels. -/
def levels : List ConditionType := [.priceAbove 2, .priceAbove 1]

/-- In the default context neither chain is exact, and both sides of the theorem say so. -/
theorem chainsExact_iff_levels :
    (AndExact (.priceAbove 3) levels .default ↔
      (Holds .default (.priceAbove 3) → (∀ last ∈ levels.getLast?, Holds .default last) →
        ∀ c ∈ levels.dropLast, Holds .default c)) ∧
    (OrExact (.priceAbove 3) levels .default ↔
      ((∃ c ∈ levels.dropLast, Holds .default c) →
        Holds .default (.priceAbove 3) ∨ ∃ last ∈ levels.getLast?, Holds .default last)) :=
  chainsExact_iff _ _ (by decide) .default

/-- **The condition in between is not looked at**, neither by a chain of `and` nor by one of
`or`. -/
theorem not_forall_chainsExact :
    (¬ ∀ (first : ConditionType) (further : List ConditionType), further.length ≤ 15 →
      ∀ ctx, AndExact first further ctx) ∧
    ¬ ∀ (first : ConditionType) (further : List ConditionType), further.length ≤ 15 →
      ∀ ctx, OrExact first further ctx := by
  constructor
  · intro h
    have hexact := h (.priceBelow 9) [.priceAbove 5, .priceBelow 8] (by decide) .default
    have hall := hexact.mp (by decide) (.priceAbove 5) (by decide)
    exact absurd hall (by decide)
  · intro h
    have hexact := h (.priceAbove 9) [.priceBelow 5, .priceAbove 8] (by decide) .default
    have hsome := hexact.mpr ⟨.priceBelow 5, by decide, by decide⟩
    exact absurd hsome (by decide)

end ConditionalExpression

end StopTrading.Execution.Conditional
