import Nameless.Term.Force

/-!
# Free occurrences of an index

Whether an index is free in a term is found by a search that keeps its own list of what is still
to be looked at, so the search itself makes no calls below one another. Exposing the nodes that it
meets does: each abstraction that is crossed adds an entry to the substitutions that wait below it,
and composing them recurses over their entries. So the calls go as deep as the term, and it is only
because the call stack is idealised that this makes no difference here.

The function of an application is searched before its argument, and the first hit or the first
failure ends the search.
-/

namespace Nameless.Term

/-- Nodes still to be searched, each with the index that is looked for at that depth. -/
abbrev Agenda := List (Int × Term)

/-- The work that an agenda can cause. -/
def Agenda.cost : Agenda → Nat
  | [] => 0
  | (_, node) :: rest => node.cost Charge.zero + Agenda.cost rest

/-- Every node causes some work. -/
theorem cost_pos (e : Term) (ρ : Charge) : 0 < e.cost ρ := by
  cases e <;> simp [cost]

/-- Works an agenda off from the front: whether one of its entries holds the index it is searched
for. -/
def search : Agenda → Except Failure Bool
  | [] => .ok false
  | (target, node) :: rest =>
    match _h : node.expose with
    | .error x => .error x
    | .ok (var _ index) => if index = target then .ok true else search rest
    | .ok (lam _ _ body) => search ((target + 1, body) :: rest)
    | .ok (app _ fn arg) => search ((target, fn) :: (target, arg) :: rest)
    | .ok r => .error (.raise (.uninspectable r))
termination_by agenda => agenda.cost
decreasing_by
  · have := node.cost_pos Charge.zero
    simp only [Agenda.cost]
    omega
  · have := weight_expose_le _h
    have := node.weight_le_cost
    simp only [Agenda.cost, weight_lam] at *
    omega
  · have := weight_expose_le _h
    have := node.weight_le_cost
    simp only [Agenda.cost, weight_app] at *
    omega

/-- A search goes on from what is exposed of its first node. -/
theorem search_cons (target : Int) (node : Term) (rest : Agenda) :
    search ((target, node) :: rest) = node.expose >>= fun
    | var _ index => if index = target then .ok true else search rest
    | lam _ _ body => search ((target + 1, body) :: rest)
    | app _ fn arg => search ((target, fn) :: (target, arg) :: rest)
    | r => .error (.raise (.uninspectable r)) := by
  rw [search]
  cases hexp : node.expose with
  | error x => rfl
  | ok r =>
    cases r with
    | _ => rfl

/-- Whether an index is free in a term. -/
def occurs (index : Int) (e : Term) : Except Failure Bool := search [(index, e)]

end Nameless.Term
