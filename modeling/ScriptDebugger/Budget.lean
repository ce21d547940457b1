/-
  Instruction budgets

  A budget bounds the instructions that one stepping call may execute. The
  bound is a 64-bit number; counts of executed instructions are natural
  numbers, so a count never wraps around.

  Correspondence (stepvm ↔ here):
    `DebuggerLimits`                     ↔ `Budget`
    the field `max_instructions`         ↔ `instructions`
    `new`                                ↔ `unlimited`
    the call `max_instructions`          ↔ `atMost`
    `exhausted`                          ↔ `exhausted`
-/

namespace ScriptDebugger

/-- A bound on the instructions of one stepping call, if there is one. -/
structure Budget where
  instructions : Option UInt64
  deriving DecidableEq, Repr

namespace Budget

def unlimited : Budget := ⟨none⟩

instance : Inhabited Budget := ⟨unlimited⟩

def atMost (n : UInt64) : Budget := ⟨some n⟩

/-- Whether that many executed instructions use up the budget. -/
def exhausted (budget : Budget) (executed : Nat) : Bool :=
  match budget.instructions with
  | none => false
  | some limit => limit.toNat ≤ executed

theorem exhausted_iff {budget : Budget} {executed : Nat} :
    budget.exhausted executed = true ↔
      ∃ most, budget.instructions = some most ∧ most.toNat ≤ executed := by
  unfold exhausted
  cases budget.instructions <;> simp

end Budget

end ScriptDebugger
