import Wdlp.Domain
import Wdlp.Lib.Sorting

/-!
# Policy selection

The policy crate: a rule names an extension, and among the rules that match the file the evaluator
takes the one with the highest priority, then the most restrictive, then the least rule id. The
candidates are sorted with an unstable sort, so the evaluator is modelled over every function that
meets the contract of such a sort. Rule ids are compared character by character, which is the order
of their UTF-8 bytes.

## Main definitions

* `EnforcementAction`, `DecisionReason`, `PolicyInput`, `PolicyDecision` — the domain types.
* `PolicyRule`, `PolicyEvaluator.evaluate` — a rule, and the selection.
* `PolicyRule.Outranks` — the declared order of the rules.
* `IsSelected` — a rule that outranks every rule that matches.

## Main results

* `evaluate_of_isSelected` — the decision is that of the selected rule, whatever the sort does with
  equal candidates.
* `evaluate_selects` — the decision in all cases, its independence of the order of the rules, and
  what one more matching rule can do.
-/

namespace Wdlp

open CrashSafe

inductive EnforcementAction where
  | allow
  | block
  | allowAndAudit
  | warn
  | requireJustification
  deriving DecidableEq, Repr

/-- Higher is more restrictive. -/
def EnforcementAction.restrictiveness : EnforcementAction → ℕ
  | allow => 0
  | allowAndAudit => 1
  | warn => 2
  | requireJustification => 3
  | block => 4

theorem EnforcementAction.restrictiveness_injective :
    Function.Injective EnforcementAction.restrictiveness := by
  intro a b h
  revert h
  cases a <;> cases b <;> decide

inductive DecisionReason where
  | matchedRule
  | equalPriorityConflict
  | defaultAction
  | emptyPolicy
  deriving DecidableEq, Repr

structure PolicyInput where
  fileName : Text
  extension : Text
  path : Text
  owner : UserSid
  sizeBytes : UInt64
  deriving DecidableEq

/-- `PolicyInput::new`. The fields are public, so an input may also be made without the check. -/
def PolicyInput.new (fileName extension path : Text) (owner : UserSid) (sizeBytes : UInt64) :
    Except DomainErrorKind PolicyInput :=
  if fileName.isEmpty || extension.isEmpty || path.isEmpty then .error .invalidPolicyInput
  else .ok { fileName, extension, path, owner, sizeBytes }

structure PolicyDecision where
  action : EnforcementAction
  reason : DecisionReason
  ruleId : Option Text
  deriving DecidableEq

structure PolicyRule where
  ruleId : Text
  extension : Text
  /-- A 32-bit number. -/
  priority : ℕ
  action : EnforcementAction
  deriving DecidableEq

namespace PolicyRule

/-- `matches`: the extensions are the same. -/
def matchesInput (rule : PolicyRule) (input : PolicyInput) : Bool :=
  rule.extension == input.extension

/-- The comparison the candidates are sorted by. -/
def order (left right : PolicyRule) : Ordering :=
  (compare right.priority left.priority).then
    ((compare right.action.restrictiveness left.action.restrictiveness).then
      (compare left.ruleId right.ruleId))

end PolicyRule

structure PolicyEvaluator where
  defaultAction : EnforcementAction
  deriving DecidableEq

/-- `PolicyEvaluator::evaluate`. -/
def PolicyEvaluator.evaluate (S : UnstableSort PolicyRule.order) (evaluator : PolicyEvaluator)
    (input : PolicyInput) (rules : List PolicyRule) : PolicyDecision :=
  let candidates := rules.filter (·.matchesInput input)
  if h : candidates = [] then
    { action := evaluator.defaultAction
      reason := if rules.isEmpty then .emptyPolicy else .defaultAction
      ruleId := none }
  else
    let sorted := S.sort candidates
    let selected := sorted.head (S.sort_ne_nil h)
    let equalPriorityConflict := sorted.tail.any (·.priority == selected.priority)
    { action := selected.action
      reason := if equalPriorityConflict then .equalPriorityConflict else .matchedRule
      ruleId := some selected.ruleId }

/-! ### The order of the rules -/

namespace PolicyRule

instance : Std.TransCmp PolicyRule.order :=
  have : Std.TransCmp fun a b : PolicyRule => compare b.priority a.priority :=
    inferInstanceAs (Std.TransCmp fun a b => compareOn PolicyRule.priority b a)
  have : Std.TransCmp fun a b : PolicyRule =>
      compare b.action.restrictiveness a.action.restrictiveness :=
    inferInstanceAs (Std.TransCmp fun a b =>
      compareOn (fun rule : PolicyRule => rule.action.restrictiveness) b a)
  inferInstanceAs (Std.TransCmp (compareLex (fun a b : PolicyRule => compare b.priority a.priority)
    (compareLex
      (fun a b : PolicyRule => compare b.action.restrictiveness a.action.restrictiveness)
      (compareOn PolicyRule.ruleId))))

/-- The declared order: higher priority, then more restrictive, then the lesser rule id. -/
def Outranks (a b : PolicyRule) : Prop :=
  b.priority < a.priority ∨ b.priority = a.priority ∧
    (b.action.restrictiveness < a.action.restrictiveness ∨
      b.action.restrictiveness = a.action.restrictiveness ∧
        (compare a.ruleId b.ruleId).isLE = true)

instance (a b : PolicyRule) : Decidable (a.Outranks b) := inferInstanceAs (Decidable (_ ∨ _))

variable {a b : PolicyRule}

theorem order_isLE : (order a b).isLE = true ↔ a.Outranks b := by
  simp only [order, Outranks, Ordering.isLE_then_iff_or, Std.compare_eq_lt,
    Std.LawfulEqOrd.compare_eq_iff_eq]

theorem Outranks.priority_le (h : a.Outranks b) : b.priority ≤ a.priority := by
  rcases h with h | h
  · exact h.le
  · exact h.1.le

/-- Of two rules of the same priority the one that outranks the other is no less restrictive. -/
theorem Outranks.restrictiveness_le (h : a.Outranks b) (hprio : b.priority = a.priority) :
    b.action.restrictiveness ≤ a.action.restrictiveness := by
  rcases h with h | ⟨-, h | h⟩
  · exact absurd h (hprio ▸ lt_irrefl _)
  · exact h.le
  · exact h.1.le

/-- Two rules that outrank each other say the same under the same name. -/
theorem Outranks.same (hab : a.Outranks b) (hba : b.Outranks a) :
    a.priority = b.priority ∧ a.action = b.action ∧ a.ruleId = b.ruleId := by
  have hprio : a.priority = b.priority := le_antisymm hba.priority_le hab.priority_le
  have hrest : a.action.restrictiveness = b.action.restrictiveness :=
    le_antisymm (hba.restrictiveness_le hprio) (hab.restrictiveness_le hprio.symm)
  refine ⟨hprio, EnforcementAction.restrictiveness_injective hrest, ?_⟩
  have hid : ∀ {x y : PolicyRule}, x.Outranks y → x.priority = y.priority →
      x.action.restrictiveness = y.action.restrictiveness →
      (compare x.ruleId y.ruleId).isLE = true := by
    rintro x y (h | ⟨-, h | h⟩) hp hr
    · exact absurd h (hp ▸ lt_irrefl _)
    · exact absurd h (hr ▸ lt_irrefl _)
    · exact h.2
  exact Std.LawfulEqOrd.eq_of_compare
    (Std.OrientedCmp.isLE_antisymm (hid hab hprio hrest) (hid hba hprio.symm hrest.symm))

end PolicyRule

/-! ### The selected rule -/

section Selection

variable {S S' : UnstableSort PolicyRule.order} {evaluator : PolicyEvaluator} {input : PolicyInput}
  {rules more : List PolicyRule} {rule selected : PolicyRule}

/-- A rule that matches the input and outranks every rule that does. -/
structure IsSelected (input : PolicyInput) (rules : List PolicyRule) (selected : PolicyRule) :
    Prop where
  mem : selected ∈ rules
  matching : selected.matchesInput input = true
  outranks : ∀ rule ∈ rules, rule.matchesInput input = true → selected.Outranks rule

/-- The matching entries of the list that have the given priority. -/
def atPriority (input : PolicyInput) (rules : List PolicyRule) (priority : ℕ) :
    List PolicyRule :=
  rules.filter fun rule => rule.matchesInput input && rule.priority == priority

theorem candidates_eq_nil :
    rules.filter (·.matchesInput input) = [] ↔ ∀ rule ∈ rules, rule.matchesInput input = false := by
  simp only [List.filter_eq_nil_iff, Bool.not_eq_true]

/-- The first candidate is selected. -/
theorem isSelected_head (h : rules.filter (·.matchesInput input) ≠ []) : IsSelected
    input rules ((S.sort (rules.filter (·.matchesInput input))).head (S.sort_ne_nil h)) := by
  have hmem := List.mem_filter.mp (S.head_mem h)
  refine ⟨hmem.1, hmem.2, fun rule hrule hmatch => ?_⟩
  exact PolicyRule.order_isLE.mp (S.head_isLE h (List.mem_filter.mpr ⟨hrule, hmatch⟩))

theorem exists_isSelected (h : ∃ rule ∈ rules, rule.matchesInput input = true) :
    ∃ selected, IsSelected input rules selected := by
  obtain ⟨rule, hrule, hmatch⟩ := h
  have hne : rules.filter (·.matchesInput input) ≠ [] :=
    List.ne_nil_of_mem (List.mem_filter.mpr ⟨hrule, hmatch⟩)
  exact ⟨_, isSelected_head (S := .stable) hne⟩

/-- Two rules can be selected only if they say the same under the same name. -/
theorem IsSelected.same (h : IsSelected input rules selected) (h' : IsSelected input rules rule) :
    selected.priority = rule.priority ∧ selected.action = rule.action ∧
      selected.ruleId = rule.ruleId :=
  (h.outranks rule h'.mem h'.matching).same (h'.outranks selected h.mem h.matching)

theorem IsSelected.of_perm (hperm : more.Perm rules) (h : IsSelected input rules selected) :
    IsSelected input more selected :=
  ⟨hperm.mem_iff.mpr h.mem, h.matching, fun rule hrule => h.outranks rule (hperm.mem_iff.mp hrule)⟩

/-- A second candidate of the priority of the first one is found exactly when the list has two
matching entries of that priority. -/
theorem any_tail_iff (h : rules.filter (·.matchesInput input) ≠ []) {priority : ℕ}
    (hprio : ((S.sort (rules.filter (·.matchesInput input))).head (S.sort_ne_nil h)).priority =
      priority) :
    (S.sort (rules.filter (·.matchesInput input))).tail.any (·.priority == priority) = true ↔
      2 ≤ (atPriority input rules priority).length := by
  have hcount := (S.cons_perm h).countP_eq (·.priority == priority)
  rw [List.countP_cons_of_pos (by simpa using hprio), List.countP_filter] at hcount
  have hlength : (atPriority input rules priority).length =
      (S.sort (rules.filter (·.matchesInput input))).tail.countP (·.priority == priority) + 1 := by
    rw [hcount, atPriority, ← List.countP_eq_length_filter]
    simp only [Bool.and_comm]
  rw [hlength, List.any_eq_true, ← List.countP_pos_iff]
  omega

theorem evaluate_of_no_match (h : ∀ rule ∈ rules, rule.matchesInput input = false) :
    evaluator.evaluate S input rules =
      { action := evaluator.defaultAction
        reason := if rules = [] then .emptyPolicy else .defaultAction
        ruleId := none } := by
  simp only [PolicyEvaluator.evaluate, dif_pos (candidates_eq_nil.mpr h), List.isEmpty_iff]

/-- The decision is that of the selected rule, and a conflict is reported when its priority is
shared. -/
theorem evaluate_of_isSelected (h : IsSelected input rules selected) :
    evaluator.evaluate S input rules =
      { action := selected.action
        reason := if 2 ≤ (atPriority input rules selected.priority).length then
          .equalPriorityConflict else .matchedRule
        ruleId := some selected.ruleId } := by
  have hne : rules.filter (·.matchesInput input) ≠ [] :=
    List.ne_nil_of_mem (List.mem_filter.mpr ⟨h.mem, h.matching⟩)
  obtain ⟨hprio, haction, hid⟩ := (isSelected_head (S := S) hne).same h
  simp only [PolicyEvaluator.evaluate, dif_neg hne, haction, hid, hprio, any_tail_iff hne hprio]

/-- The order of the rules and the arrangement of equal candidates do not matter. -/
theorem evaluate_perm (hperm : more.Perm rules) :
    evaluator.evaluate S' input more = evaluator.evaluate S input rules := by
  by_cases hmatch : ∃ rule ∈ rules, rule.matchesInput input = true
  · obtain ⟨selected, hselected⟩ := exists_isSelected hmatch
    rw [evaluate_of_isSelected hselected, evaluate_of_isSelected (hselected.of_perm hperm)]
    have hlength : (atPriority input more selected.priority).length =
        (atPriority input rules selected.priority).length := (hperm.filter _).length_eq
    rw [hlength]
  · have hnone : ∀ rule ∈ rules, rule.matchesInput input = false := by
      intro rule hrule
      exact Bool.eq_false_iff.mpr fun hmatching => hmatch ⟨rule, hrule, hmatching⟩
    rw [evaluate_of_no_match hnone,
      evaluate_of_no_match fun rule hrule => hnone rule (hperm.mem_iff.mp hrule)]
    have hnil : more = [] ↔ rules = [] := by
      constructor
      · rintro rfl
        exact List.nil_perm.mp hperm
      · rintro rfl
        exact List.perm_nil.mp hperm
    simp only [hnil]

/-- One more rule that some matching rule is not below in priority leaves an action that is no less
restrictive. -/
theorem restrictiveness_evaluate_cons (hmatching : ∃ other ∈ rules,
    other.matchesInput input = true ∧ rule.priority ≤ other.priority) :
    (evaluator.evaluate S input rules).action.restrictiveness ≤
      (evaluator.evaluate S' input (rule :: rules)).action.restrictiveness := by
  obtain ⟨other, hother, hmatch, hle⟩ := hmatching
  obtain ⟨before, hbefore⟩ := exists_isSelected ⟨other, hother, hmatch⟩
  obtain ⟨after, hafter⟩ := exists_isSelected ⟨other, List.mem_cons_of_mem rule hother, hmatch⟩
  rw [evaluate_of_isSelected hbefore, evaluate_of_isSelected hafter]
  have hrank := hafter.outranks before (List.mem_cons_of_mem rule hbefore.mem) hbefore.matching
  refine hrank.restrictiveness_le (le_antisymm hrank.priority_le ?_)
  -- the new winner is not above the old one in priority
  rcases List.mem_cons.mp hafter.mem with rfl | hmem
  · exact hle.trans (hbefore.outranks other hother hmatch).priority_le
  · exact (hbefore.outranks after hmem hafter.matching).priority_le

/-- Policy selection is the declared maximum and does not depend on the order of the rules. -/
theorem evaluate_selects (S : UnstableSort PolicyRule.order) (evaluator : PolicyEvaluator)
    (input : PolicyInput) (rules : List PolicyRule) :
    ((∀ rule ∈ rules, rule.matchesInput input = false) →
      evaluator.evaluate S input rules =
        ⟨evaluator.defaultAction, if rules = [] then .emptyPolicy else .defaultAction, none⟩) ∧
    ((∃ rule ∈ rules, rule.matchesInput input = true) →
      ∃ selected, IsSelected input rules selected) ∧
    (∀ selected, IsSelected input rules selected →
      evaluator.evaluate S input rules =
        ⟨selected.action,
          if 2 ≤ (atPriority input rules selected.priority).length then .equalPriorityConflict
          else .matchedRule,
          some selected.ruleId⟩) ∧
    (∀ (S' : UnstableSort PolicyRule.order) (permuted : List PolicyRule), permuted.Perm rules →
      evaluator.evaluate S' input permuted = evaluator.evaluate S input rules) ∧
    (∀ (S' : UnstableSort PolicyRule.order) (rule : PolicyRule) (more : List PolicyRule),
      more.Perm (rule :: rules) → rule.matchesInput input = true →
      ¬(∀ other ∈ rules, other.matchesInput input = true → other.priority < rule.priority) →
      (evaluator.evaluate S input rules).action.restrictiveness ≤
        (evaluator.evaluate S' input more).action.restrictiveness) := by
  refine ⟨evaluate_of_no_match, exists_isSelected, fun _ => evaluate_of_isSelected,
    fun S' permuted => evaluate_perm, fun S' rule more hmore _ hnot => ?_⟩
  rw [evaluate_perm (S := S') hmore]
  refine restrictiveness_evaluate_cons ?_
  push Not at hnot
  exact hnot

end Selection

end Wdlp
