import Mathlib.Data.List.Basic
import Mathlib.Logic.Function.Basic

/-!
Contract: singly linked lists whose links are a field of their nodes.

Owns: `Chain`, the nodes met by following the links from a head; `chainNodes`, that walk
with a bound on its length; pushing a node; `Links.unlink`, the walk over the places a
link can stand at, which takes one node out.

Several lists may share one link field: what is proved of a list leaves the links of the
nodes outside it alone.

Does not own: what the nodes are.
-/

namespace CixCache.Lib

variable {α : Type}

/-! ## Chains -/

/-- Following the links from a head meets these nodes and then ends. -/
def Chain (next : α → Option α) : Option α → List α → Prop
  | head, [] => head = none
  | head, node :: rest => head = some node ∧ Chain next (next node) rest

/-- The nodes met from a head, at most as many as the bound. -/
def chainNodes (next : α → Option α) : Nat → Option α → List α
  | 0, _ => []
  | _ + 1, none => []
  | bound + 1, some node => node :: chainNodes next bound (next node)

section Chains

variable {next other : α → Option α} {head : Option α} {nodes : List α}

/-- Only the links of its own nodes make a chain. -/
theorem Chain.congr (chain : Chain next head nodes)
    (same : ∀ node ∈ nodes, other node = next node) : Chain other head nodes := by
  induction nodes generalizing head with
  | nil => exact chain
  | cons first rest inductionHypothesis =>
      refine ⟨chain.1, ?_⟩
      rw [same first List.mem_cons_self]
      exact inductionHypothesis chain.2 fun node member =>
        same node (List.mem_cons_of_mem _ member)

theorem Chain.nodes_eq (chain : Chain next head nodes) {bound : Nat}
    (enough : nodes.length ≤ bound) : chainNodes next bound head = nodes := by
  induction nodes generalizing head bound with
  | nil =>
      rw [show head = none from chain]
      cases bound <;> rfl
  | cons first rest inductionHypothesis =>
      rw [chain.1]
      cases bound with
      | zero => simp at enough
      | succ bound =>
          rw [chainNodes, inductionHypothesis chain.2 (by simpa using enough)]

theorem Chain.head_eq (chain : Chain next head nodes) : head = nodes.head? := by
  cases nodes with
  | nil => exact chain
  | cons first rest => exact chain.1

/-- The link of a node leads to the nodes behind it. -/
theorem Chain.next_eq {before rest : List α} {node : α}
    (chain : Chain next head (before ++ node :: rest)) : next node = rest.head? := by
  induction before generalizing head with
  | nil => exact chain.2.head_eq
  | cons first before inductionHypothesis => exact inductionHypothesis chain.2

variable [DecidableEq α]

/-- A node outside the list becomes its head. -/
theorem Chain.push (chain : Chain next head nodes) {node : α} (outside : node ∉ nodes) :
    Chain (Function.update next node head) (some node) (node :: nodes) := by
  refine ⟨rfl, ?_⟩
  rw [Function.update_self]
  apply chain.congr
  intro other member
  apply Function.update_of_ne
  intro same
  rw [same] at member
  exact outside member

end Chains

/-! ## Taking a node out -/

/-- A list as its head and the links of all nodes. -/
structure Links (α : Type) where
  head : Option α
  next : α → Option α

/-- The link that stands at a place: the head of the list, or the link of a node. -/
def Links.load (links : Links α) : Option α → Option α
  | none => links.head
  | some node => links.next node

variable [DecidableEq α]

def Links.store (links : Links α) (place link : Option α) : Links α :=
  match place with
  | none => { links with head := link }
  | some node => { links with next := Function.update links.next node link }

/-- The walk from a place to the one that leads to the target, which is taken out. -/
def Links.unlinkFrom (target : α) : Nat → Option α → Links α → Links α
  | 0, _, links => links
  | bound + 1, place, links =>
      match links.load place with
      | none => links
      | some node =>
          if node = target then links.store place (links.next node)
          else Links.unlinkFrom target bound (some node) links

def Links.unlink (links : Links α) (target : α) (bound : Nat) : Links α :=
  links.unlinkFrom target bound none

section Unlinking

variable {links : Links α} {target : α} {before after : List α} {bound : Nat} {place : Option α}

/-- What the walk leaves behind a place that is not one of the nodes it leads to. -/
theorem Links.unlinkFrom_chain
    (chain : Chain links.next (links.load place) (before ++ target :: after))
    (distinct : (before ++ target :: after).Nodup)
    (outside : ∀ node ∈ before ++ target :: after, place ≠ some node)
    (enough : before.length < bound) :
    let done := links.unlinkFrom target bound place
    Chain done.next (done.load place) (before ++ after) ∧
      (∀ node, node ∉ before → place ≠ some node → done.next node = links.next node) ∧
      (place ≠ none → done.head = links.head) := by
  induction before generalizing place bound with
  | nil =>
      obtain ⟨bound, rfl⟩ : ∃ less, bound = less + 1 := ⟨bound - 1, by simp at enough; omega⟩
      have atTarget : links.load place = some target := chain.1
      have rest : Chain links.next (links.next target) after := chain.2
      simp only [Links.unlinkFrom, atTarget, if_pos]
      cases place with
      | none => exact ⟨rest, fun _ _ _ => rfl, fun absent => absurd rfl absent⟩
      | some node =>
          refine ⟨?_, ?_, fun _ => rfl⟩
          · show Chain (Function.update links.next node _)
              (Function.update links.next node _ node) after
            rw [Function.update_self]
            apply rest.congr
            intro other member
            apply Function.update_of_ne
            intro same
            exact outside other (List.mem_cons_of_mem _ member) (congrArg some same.symm)
          · intro other _ different
            exact Function.update_of_ne (fun same => different (congrArg some same.symm)) _ _
  | cons first rest inductionHypothesis =>
      obtain ⟨bound, rfl⟩ : ∃ less, bound = less + 1 := ⟨bound - 1, by simp at enough; omega⟩
      have atFirst : links.load place = some first := chain.1
      obtain ⟨fresh, distinctRest⟩ := List.nodup_cons.mp distinct
      have notTarget : first ≠ target := by
        intro same
        exact fresh (by simp [same])
      simp only [Links.unlinkFrom, atFirst, if_neg notTarget]
      have restOutside : ∀ node ∈ rest ++ target :: after, some first ≠ some node := by
        intro node member same
        rw [← Option.some.inj same] at member
        exact fresh member
      have restChain : Chain links.next (links.load (some first)) (rest ++ target :: after) :=
        chain.2
      obtain ⟨restChain, kept, sameHead⟩ :=
        inductionHypothesis restChain distinctRest restOutside (by simpa using enough)
      have placeKept : (links.unlinkFrom target bound (some first)).load place =
          links.load place := by
        cases place with
        | none => exact sameHead (Option.some_ne_none _)
        | some node =>
            apply kept node
            · intro member
              exact outside node (by simp [member]) rfl
            · intro same
              exact outside node (by simp [← Option.some.inj same]) rfl
      refine ⟨⟨placeKept.trans atFirst, restChain⟩, ?_, fun _ => sameHead (Option.some_ne_none _)⟩
      intro node absent _
      apply kept node
      · exact fun member => absent (List.mem_cons_of_mem _ member)
      · intro same
        exact absent (by simp [Option.some.inj same])

/-- Taking a node of the list out, with enough turns to reach it. -/
theorem Links.unlink_chain (chain : Chain links.next links.head (before ++ target :: after))
    (distinct : (before ++ target :: after).Nodup) (enough : before.length < bound) :
    Chain (links.unlink target bound).next (links.unlink target bound).head (before ++ after) ∧
      ∀ node, node ∉ before → (links.unlink target bound).next node = links.next node := by
  have walked := @Links.unlinkFrom_chain _ _ links _ _ _ _ none chain distinct
    (fun _ _ => (Option.some_ne_none _).symm) enough
  exact ⟨walked.1, fun node absent => walked.2.1 node absent (Option.some_ne_none _).symm⟩

end Unlinking

end CixCache.Lib
