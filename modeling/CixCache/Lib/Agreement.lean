import Mathlib.Data.List.Basic

/-!
Contract: what a list of candidate answers settles on.

Owns: `settle`, which keeps the first candidate while every later one carries
the same value and gives up as soon as one does not, with its three verdicts
characterised by membership and its behaviour when candidates are added.

Does not own: where candidates come from.
-/

namespace CixCache.Lib

variable {κ δ : Type}

/-- Nothing to answer with, one value under the key of its first candidate, or
candidates that disagree. -/
inductive Verdict (κ δ : Type) where
  | absent
  | one (key : κ) (value : δ)
  | ambiguous
deriving DecidableEq, Repr

variable [DecidableEq δ]

/-- Compare the remaining candidates with the one that is held. -/
def settleWith (key : κ) (value : δ) : List (κ × δ) → Verdict κ δ
  | [] => .one key value
  | candidate :: rest =>
      if value = candidate.2 then settleWith key value rest else .ambiguous

def settle : List (κ × δ) → Verdict κ δ
  | [] => .absent
  | candidate :: rest => settleWith candidate.1 candidate.2 rest

theorem settleWith_of_agree {key : κ} {value : δ} {rest : List (κ × δ)}
    (agree : ∀ candidate ∈ rest, candidate.2 = value) :
    settleWith key value rest = .one key value := by
  induction rest with
  | nil => rfl
  | cons head tail inductionHypothesis =>
      rw [settleWith, if_pos (agree head List.mem_cons_self).symm]
      apply inductionHypothesis
      intro candidate member
      exact agree candidate (List.mem_cons_of_mem _ member)

theorem settleWith_of_disagree {key : κ} {value : δ} {rest : List (κ × δ)}
    (disagree : ∃ candidate ∈ rest, candidate.2 ≠ value) :
    settleWith key value rest = .ambiguous := by
  induction rest with
  | nil => simp at disagree
  | cons head tail inductionHypothesis =>
      unfold settleWith
      split
      next same =>
        apply inductionHypothesis
        obtain ⟨candidate, member, differs⟩ := disagree
        rcases List.mem_cons.mp member with first | later
        · exact absurd (first ▸ same.symm) differs
        · exact ⟨candidate, later, differs⟩
      next => rfl

theorem settle_eq_absent {candidates : List (κ × δ)} :
    settle candidates = .absent ↔ candidates = [] := by
  cases candidates with
  | nil => simp [settle]
  | cons head tail =>
      have decided : settleWith head.1 head.2 tail ≠ .absent := by
        by_cases agree : ∀ candidate ∈ tail, candidate.2 = head.2
        · simp [settleWith_of_agree agree]
        · push Not at agree
          simp [settleWith_of_disagree agree]
      simpa [settle] using decided

theorem settle_eq_one {candidates : List (κ × δ)} {key : κ} {value : δ} :
    settle candidates = .one key value ↔
      candidates.head? = some (key, value) ∧ ∀ candidate ∈ candidates, candidate.2 = value := by
  cases candidates with
  | nil => simp [settle]
  | cons head tail =>
      rw [settle]
      by_cases agree : ∀ candidate ∈ tail, candidate.2 = head.2
      · rw [settleWith_of_agree agree]
        constructor
        · intro same
          injection same with sameKey sameValue
          subst sameKey sameValue
          exact ⟨rfl, List.forall_mem_cons.mpr ⟨rfl, agree⟩⟩
        · intro facts
          have same := Option.some.inj facts.1
          rw [same]
      · have disagree : ∃ candidate ∈ tail, candidate.2 ≠ head.2 := by
          push Not at agree
          exact agree
        rw [settleWith_of_disagree disagree]
        constructor
        · intro same
          contradiction
        · intro facts
          have same := Option.some.inj facts.1
          obtain ⟨candidate, member, differs⟩ := disagree
          apply absurd _ differs
          rw [same]
          exact facts.2 candidate (List.mem_cons_of_mem _ member)

theorem settle_eq_ambiguous {candidates : List (κ × δ)} :
    settle candidates = .ambiguous ↔
      ∃ first ∈ candidates, ∃ second ∈ candidates, first.2 ≠ second.2 := by
  constructor
  · intro verdict
    by_contra agree
    push Not at agree
    cases candidates with
    | nil => simp [settle] at verdict
    | cons head tail =>
        have one : settle (head :: tail) = .one head.1 head.2 :=
          settle_eq_one.mpr
            ⟨rfl, fun candidate member => agree candidate member head List.mem_cons_self⟩
        rw [one] at verdict
        contradiction
  · intro pair
    obtain ⟨first, firstMember, second, secondMember, differ⟩ := pair
    cases verdict : settle candidates with
    | absent =>
        rw [settle_eq_absent.mp verdict] at firstMember
        contradiction
    | one key value =>
        have agree := (settle_eq_one.mp verdict).2
        exact absurd ((agree first firstMember).trans (agree second secondMember).symm) differ
    | ambiguous => rfl

/-- Adding candidates keeps the value or makes it ambiguous. -/
theorem settle_mono {candidates more : List (κ × δ)} {key : κ} {value : δ}
    (kept : ∀ candidate ∈ candidates, ∃ other ∈ more, other.2 = candidate.2)
    (one : settle candidates = .one key value) :
    (∃ other, settle more = .one other value) ∨ settle more = .ambiguous := by
  obtain ⟨first, agree⟩ := settle_eq_one.mp one
  have member : (key, value) ∈ candidates := List.mem_of_mem_head? first
  obtain ⟨witness, witnessMember, witnessValue⟩ := kept _ member
  cases verdict : settle more with
  | absent =>
      rw [settle_eq_absent.mp verdict] at witnessMember
      contradiction
  | one other found =>
      have same : found = value := by
        rw [← (settle_eq_one.mp verdict).2 witness witnessMember, witnessValue]
      exact Or.inl ⟨other, by rw [same]⟩
  | ambiguous => exact Or.inr rfl

end CixCache.Lib
