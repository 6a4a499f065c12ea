import Mathlib.Tactic
import Fern.Proofs.Parsing.Grammar
import Fern.Proofs.Parsing.Steps

/-!
The operators of the language, and the runs of the parser over them.

* `Tables.level`, `level`: the rank of a kind of token among the operators of some tables, and among
  those of the language; below zero if it is none.
* `operator_cases`, `operator_of_layer`: the tables and the layers of the grammar agree, an operator
  of the layer `k + 1` having the level `5 - k`, and the assignments a level below all these.
* `climbWithin_stop`, `climbWithin_operator_eq_ok`: a run over the operators after an operand ends
  before an operator that is too weak, and otherwise goes on with a joined operand.
-/

namespace Fern.Parsing

variable {T : Tables} {k : Token.Kind} {power : Power} {rule : OperatorRule}

namespace Tables

/-- The rank of a kind of token among the operators of some tables. -/
def level (T : Tables) (k : Token.Kind) : ℤ := (T.power k).level

lemma level_neg_of_operator (h : T.operator k = none) : T.level k < 0 := by
  simp [level, power, h, Power.level]

lemma level_of_operator (h : T.operator k = some (power, rule)) : T.level k = power.level := by
  simp [level, Tables.power, h]

end Tables

/-- The rank of a kind of token among the operators, below zero if it is none. -/
def level (k : Token.Kind) : ℤ := Tables.standard.level k

lemma level_neg_of_operator (h : Tables.standard.operator k = none) : level k < 0 :=
  Tables.level_neg_of_operator h

lemma level_of_operator (h : Tables.standard.operator k = some (power, rule)) :
    level k = power.level :=
  Tables.level_of_operator h

/-- No operator is stronger than those of the lowest layer. -/
lemma level_le (k : Token.Kind) : level k ≤ 6 := by
  unfold level Tables.level
  cases (Tables.standard.power k) <;> decide

/-- An operator makes an assignment or belongs to one of the four layers. -/
lemma operator_cases (h : Tables.standard.operator k = some (power, rule)) :
    (rule = .assignment ∧ power.level = 1 ∧ (k = .equal ∨ k = .colonEqual)) ∨
      rule = .binary ∧ ∃ layer : ℕ, layer < 4 ∧ k ∈ layerOperators (layer + 1) ∧
        power.level = 5 - layer := by
  cases k <;> simp only [Tables.standard, Option.some.injEq, Prod.mk.injEq, reduceCtorEq] at h
  all_goals obtain ⟨rfl, rfl⟩ := h
  case equal => exact .inl ⟨rfl, rfl, .inl rfl⟩
  case colonEqual => exact .inl ⟨rfl, rfl, .inr rfl⟩
  case star => exact .inr ⟨rfl, 0, by decide⟩
  case slash => exact .inr ⟨rfl, 0, by decide⟩
  case plus => exact .inr ⟨rfl, 1, by decide⟩
  case minus => exact .inr ⟨rfl, 1, by decide⟩
  case less => exact .inr ⟨rfl, 2, by decide⟩
  case lessEqual => exact .inr ⟨rfl, 2, by decide⟩
  case greater => exact .inr ⟨rfl, 2, by decide⟩
  case greaterEqual => exact .inr ⟨rfl, 2, by decide⟩
  case equalEqual => exact .inr ⟨rfl, 3, by decide⟩
  case bangEqual => exact .inr ⟨rfl, 3, by decide⟩

/-- The operators of the layers are those of the tables that join any operands. -/
lemma operator_of_layer {layer : ℕ} (h : k ∈ layerOperators (layer + 1)) :
    ∃ power, Tables.standard.operator k = some (power, .binary) ∧ 2 ≤ power.level := by
  rcases layer with _ | _ | _ | _ | layer <;>
    simp only [layerOperators, List.mem_cons, List.not_mem_nil, or_false] at h
  · rcases h with rfl | rfl <;> exact ⟨_, rfl, by decide⟩
  · rcases h with rfl | rfl <;> exact ⟨_, rfl, by decide⟩
  · rcases h with rfl | rfl | rfl | rfl <;> exact ⟨_, rfl, by decide⟩
  · rcases h with rfl | rfl <;> exact ⟨_, rfl, by decide⟩

/-! ### Runs over operators -/

variable {n : ℕ} {least : ℤ} {left t : Tree} {s s' : State} {token : Token} {ts : List Token}

attribute [local simp] climbWithin

/-- Before an operator that is too weak, and where there is none, the operand is complete. -/
lemma climbWithin_stop (h : T.level s.kind < least) :
    climbWithin T (n + 1) least left s = .ok left s := by
  cases hrule : T.operator s.kind with
  | none => simp [kind_bind, hrule, pure, EStateM.pure]
  | some found =>
      obtain ⟨power, rule⟩ := found
      rw [T.level_of_operator hrule] at h
      simp [kind_bind, hrule, h, pure, EStateM.pure]

/-- Where the next token is not too weak, it is an operator. -/
lemma exists_operator (hleast : 0 ≤ least) (h : ¬ level s.kind < least) :
    ∃ operator ts power rule, s.rest = operator :: ts ∧
      Tables.standard.operator operator.kind = some (power, rule) ∧ least ≤ power.level := by
  cases hrule : Tables.standard.operator s.kind with
  | none =>
      have := level_neg_of_operator hrule
      omega
  | some found =>
      obtain ⟨power, rule⟩ := found
      have hkind : s.kind ≠ .endOfInput := by
        intro hend
        rw [hend] at hrule
        cases hrule
      obtain ⟨operator, ts, hs, hoperator⟩ := State.exists_of_kind rfl hkind
      rw [level_of_operator hrule] at h
      exact ⟨operator, ts, power, rule, hs, hoperator ▸ hrule, by omega⟩

/-- An operator that is not too weak takes an operand and all that stronger operators join to it.
What it makes of the operands takes the place of the left one. -/
lemma climbWithin_operator_eq_ok (hs : s.rest = token :: ts)
    (hrule : T.operator token.kind = some (power, rule)) (hle : least ≤ power.level) :
    climbWithin T (n + 1) least left s = .ok t s' ↔
      ∃ first s₁ right s₂ joined s₃,
        operandWithin T n (s.moved ts) = .ok first s₁ ∧
          (if power.level < T.level s₁.kind then
            climbWithin T n (power.level + 1) first else pure first) s₁ = .ok right s₂ ∧
          join rule left token right s₂ = .ok joined s₃ ∧
          climbWithin T n least joined s₃ = .ok t s' := by
  have hlt : ¬ power.level < least := by omega
  rw [climbWithin, kind_bind, State.kind_of_rest hs]
  simp only [hrule, hlt, if_false, advance_bind, hs, List.head?_cons, List.tail_cons, bind_eq_ok,
    kind_bind, ← exists_and_left]
  rfl

/-- Joining two operands by an operator of a layer always succeeds. -/
lemma join_binary {right : Tree} :
    join .binary left token right s = add (.binary token.kind left right) token.location s := rfl

/-- Nothing can be assigned to what is no name. -/
lemma join_assignment_ne_ok {right : Tree} (h : left.name? = none) :
    join .assignment left token right s ≠ .ok t s' := by
  simp only [join, h]
  exact fail_ne_ok

lemma join_equal {right : Tree} {name : String} (h : left.name? = some name)
    (htoken : token.kind = .equal) :
    join .assignment left token right s
      = add (.binary .equal left right) token.location s := by
  simp [join, h, htoken]

lemma join_colonEqual {right : Tree} {name : String} (h : left.name? = some name)
    (htoken : token.kind = .colonEqual) :
    join .assignment left token right s = add (.binding name none right) left.location s := by
  simp [join, h, htoken]

end Fern.Parsing
