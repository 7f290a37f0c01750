import Nameless.Proofs.Occurrence

/-!
# Every operation comes to an end

The operations on terms and substitutions call each other, and some of them go round a loop. Here
they are taken apart into single rounds. A round of an operation (`Operation.round`) looks at the
arguments once, and then stops or calls an operation and waits for its answer; another turn of a
loop is a call whose answer is handed on. Nothing in a round promises that the calls ever stop.

A `Course` is what is still to be done, and it **advances** by one round of the operation that is
called first. So the number of times that a course advances counts all the calls and all the turns
of loops together.

* **Courses in sequence** (`Course.Ends.bind`): if a course ends, and what is done with its answer
  ends, then both together do.
* **One lemma for each operation** says that its rounds end in the outcome of the function:
  `Operation.compose_ends` and `Operation.defer_ends` by recursion on the second argument,
  `Operation.lookup_ends` on the substitution. Forcing (`Operation.force_ends`) and the walks over
  exposed nodes (`Operation.forceAll_ends`, `Operation.search_ends`) have no such argument. They
  follow the recursion that `Term.cost` and `Term.weight` bound.
* **Every operation comes to an end** (`Operation.exists_after_eq_stop`), on all arguments.
-/

namespace Nameless

/-- An operation and its arguments. -/
inductive Operation where
  /-- Composing two substitutions. -/
  | compose (outer inner : Subst)
  /-- Putting a substitution over a term. -/
  | defer (s : Subst) (e : Term)
  /-- Looking an index up in a substitution. -/
  | lookup (span : Option Span) (index : Int) (s : Subst) (k : Int)
  /-- Applying a substitution to the head of a term. -/
  | force (s : Subst) (e : Term)
  /-- Bringing the head of a term into the open. -/
  | expose (e : Term)
  /-- Carrying everything out. -/
  | forceAll (e : Term)
  /-- Working an agenda off. -/
  | search (agenda : Term.Agenda)
  /-- Asking whether an index is free in a term. -/
  | occurs (index : Int) (e : Term)

namespace Operation

/-- What an operation answers. -/
abbrev Answer : Operation → Type
  | compose .. => Subst
  | defer .. | lookup .. | force .. | expose _ | forceAll _ => Term
  | search _ | occurs .. => Bool

/-- How an operation ends. -/
def outcome : (op : Operation) → Except Failure op.Answer
  | compose outer inner => outer.compose inner
  | defer s e => e.defer s
  | lookup span index s k => s.lookup span index k
  | force s e => e.force s
  | expose e => e.expose
  | forceAll e => e.forceAll
  | search agenda => Term.search agenda
  | occurs index e => e.occurs index

end Operation

/-- What is still to be done: nothing, or a call and what to do with its answer. -/
inductive Course (α : Type) where
  /-- Nothing is left to be done. -/
  | stop (outcome : Except Failure α)
  /-- An operation is called, and its answer is waited for. -/
  | call (op : Operation) (resume : op.Answer → Course α)

namespace Course

/-- A course that ends in an answer. -/
def answer {α : Type} (a : α) : Course α := .stop (.ok a)

/-- A course that ends in a failure. -/
def fail {α : Type} (cause : Fault) : Course α := .stop (.error (.raise cause))

/-- A course that hands on what an operation answers. -/
def goOn (op : Operation) : Course op.Answer := .call op answer

/-- A course, and what to do with its answer. A failure ends both. -/
def bind {α β : Type} : Course β → (β → Course α) → Course α
  | stop (.ok b), f => f b
  | stop (.error x), _ => stop (.error x)
  | call op resume, f => call op fun a => (resume a).bind f

/-- Going on twice is going on with what goes on. -/
theorem bind_bind {α β γ : Type} (c : Course γ) (f : γ → Course β) (g : β → Course α) :
    (c.bind f).bind g = c.bind fun b => (f b).bind g := by
  induction c with
  | stop outcome =>
    cases outcome with
    | ok b => rfl
    | error x => rfl
  | call op resume ih =>
    simp only [bind]
    congr
    funext a
    exact ih a

end Course

/-- One round of an operation. -/
def Operation.round : (op : Operation) → Course op.Answer
  | compose outer (.shift n) =>
    if n = 0 then .answer outer
    else match outer with
    | .shift m => .answer (.shift (m + n))
    | .dot head rest =>
      if n < 0 then .fail (.incomposable (.dot head rest) (.shift n))
      else .goOn (compose rest (.shift (n - 1)))
    | .unknown => .fail (.incomposable .unknown (.shift n))
  | compose outer (.dot head rest) =>
    .call (defer outer head) fun head => .call (compose outer rest) fun rest =>
      .answer (.dot head rest)
  | compose _ .unknown => .fail (.unknownInner .unknown)
  | defer s e =>
    if s.isIdentity then .answer e
    else match e with
    | .pending loc t body => .call (compose s t) fun merged => .answer (.pending loc merged body)
    | e => .answer (.pending e.span s e)
  | lookup span index (.shift n) k =>
    if k + n < 0 then .fail (.negative index (k + n) span) else .answer (.var span (k + n))
  | lookup span index (.dot head rest) k =>
    if k = 0 then .answer head else .goOn (lookup span index rest (k - 1))
  | lookup span _ .unknown _ => .fail (.unknownSubst .unknown span)
  | force s (.pending _ t body) => .call (compose s t) fun merged => .goOn (force merged body)
  | force s (.var loc k) =>
    .call (lookup loc k s k) fun r =>
      if r.isPending then .goOn (force .identity r) else .answer r
  | force s (.lam loc hint body) =>
    if s.isIdentity then .answer (.lam loc hint body)
    else .call (compose (.shift 1) s) fun rest =>
      .call (defer (.dot (.var none 0) rest) body) fun body => .answer (.lam loc hint body)
  | force s (.app loc fn arg) =>
    if s.isIdentity then .answer (.app loc fn arg)
    else .call (defer s fn) fun fn => .call (defer s arg) fun arg => .answer (.app loc fn arg)
  | force s (.unknown loc) =>
    if s.isIdentity then .answer (.unknown loc) else .fail (.unforceable (.unknown loc))
  | expose (.pending _ s body) => .goOn (force s body)
  | expose e => .answer e
  | forceAll e => .call (expose e) fun
    | .lam loc hint body => .call (forceAll body) fun body => .answer (.lam loc hint body)
    | .app loc fn arg =>
      .call (forceAll fn) fun fn => .call (forceAll arg) fun arg => .answer (.app loc fn arg)
    | r => .answer r
  | search [] => .answer false
  | search ((target, node) :: rest) => .call (expose node) fun
    | .var _ index => if index = target then .answer true else .goOn (search rest)
    | .lam _ _ body => .goOn (search ((target + 1, body) :: rest))
    | .app _ fn arg => .goOn (search ((target, fn) :: (target, arg) :: rest))
    | r => .fail (.uninspectable r)
  | occurs index e => .goOn (search [(index, e)])

namespace Course

variable {α β : Type}

/-- Does one round of the operation that is called. -/
def advance : Course α → Course α
  | stop outcome => stop outcome
  | call op resume => op.round.bind resume

/-- What is left to be done after a number of rounds. -/
def after : Nat → Course α → Course α
  | 0, c => c
  | n + 1, c => c.advance.after n

/-- After finitely many rounds, the course has stopped with that outcome. -/
def Ends (c : Course α) (outcome : Except Failure α) : Prop := ∃ n, c.after n = stop outcome

/-- What has stopped ends where it stopped. -/
theorem ends_stop (outcome : Except Failure α) : (stop outcome).Ends outcome := ⟨0, rfl⟩

/-- A course ends if it does after one more round. -/
theorem Ends.of_advance {c : Course α} {outcome : Except Failure α} (h : c.advance.Ends outcome) :
    c.Ends outcome := by
  obtain ⟨n, hn⟩ := h
  exact ⟨n + 1, hn⟩

/-- What has stopped stays where it is. -/
theorem after_stop (outcome : Except Failure α) (n : Nat) :
    (stop outcome).after n = stop outcome := by
  induction n with
  | zero => rfl
  | succ n ih => exact ih

/-- **Courses in sequence.** If a course ends, and with its answer, should it have one, the next
course does too, then both together end. -/
theorem Ends.bind {c : Course β} {outcome : Except Failure β} (h : c.Ends outcome)
    {f : β → Course α} {g : β → Except Failure α}
    (hf : ∀ b, outcome = .ok b → (f b).Ends (g b)) : (c.bind f).Ends (outcome >>= g) := by
  obtain ⟨n, hn⟩ := h
  induction n generalizing c with
  | zero =>
    have hc : c = stop outcome := hn
    rw [hc]
    cases outcome with
    | ok b => exact hf b rfl
    | error x => exact ends_stop (.error x)
  | succ n ih =>
    cases c with
    | stop o =>
      rw [after_stop] at hn
      exact ih (by rw [after_stop, hn])
    | call op resume =>
      apply Ends.of_advance
      -- the round is the same, whatever is done with the answer in the end
      have hround : ((call op resume).bind f).advance = (op.round.bind resume).bind f :=
        (bind_bind op.round resume f).symm
      rw [hround]
      exact ih hn

/-- A call ends if the rounds of the operation do, and what is done with its answer does. -/
theorem Ends.call {op : Operation} {outcome : Except Failure op.Answer}
    (h : op.round.Ends outcome) {resume : op.Answer → Course α} {g : op.Answer → Except Failure α}
    (hresume : ∀ a, outcome = .ok a → (resume a).Ends (g a)) :
    (Course.call op resume).Ends (outcome >>= g) :=
  Ends.of_advance (h.bind hresume)

/-- A call that is answered goes on with the answer. -/
theorem Ends.call_ok {op : Operation} {result : Except Failure op.Answer}
    (h : op.round.Ends result) {a : op.Answer} (ha : result = .ok a)
    {resume : op.Answer → Course α} {outcome : Except Failure α}
    (hresume : (resume a).Ends outcome) : (Course.call op resume).Ends outcome := by
  subst ha
  refine h.call (g := fun _ => outcome) ?_
  rintro _ ⟨⟩
  exact hresume

/-- A call that fails ends in the failure. -/
theorem Ends.call_error {op : Operation} {result : Except Failure op.Answer}
    (h : op.round.Ends result) {x : Failure} (hx : result = .error x)
    (resume : op.Answer → Course α) : (Course.call op resume).Ends (.error x) := by
  subst hx
  refine h.call (g := fun _ => .error x) ?_
  rintro _ ⟨⟩

/-- Handing on an answer ends as the operation does. -/
theorem Ends.goOn {op : Operation} {outcome : Except Failure op.Answer}
    (h : op.round.Ends outcome) : (Course.goOn op).Ends outcome := by
  cases outcome with
  | ok a => exact h.call_ok rfl (ends_stop (.ok a))
  | error x => exact h.call_error rfl answer

end Course

/-! ## The operations -/

namespace Operation

open Course

/-- The turns of composing with a shift end: each of them drops the head of a dot, or stops. -/
theorem compose_shift_ends (outer : Subst) (n : Int) :
    (compose outer (.shift n)).round.Ends (outer.afterShift n) := by
  fun_induction Subst.afterShift outer n with
  | case1 m n =>
    by_cases hn : n = 0
    · rw [round, if_pos hn, hn, Int.add_zero]
      exact ends_stop _
    · rw [round, if_neg hn]
      exact ends_stop _
  | case2 head rest => exact ends_stop _
  | case3 head rest n h0 hneg =>
    rw [round, if_neg h0]
    simp only [if_pos hneg]
    exact ends_stop _
  | case4 head rest n h0 hneg ih =>
    rw [round, if_neg h0]
    simp only [if_neg hneg]
    exact ih.goOn
  | case5 => exact ends_stop _
  | case6 n h0 =>
    rw [round, if_neg h0]
    exact ends_stop _

/-- A term that is not pending is wrapped in one round. -/
theorem defer_ends_of_not_pending {e : Term} (he : e.isPending = false) (s : Subst) :
    (defer s e).round.Ends (e.defer s) := by
  have hround : (defer s e).round = .answer (if s.isIdentity then e else .pending e.span s e) := by
    cases e with
    | pending => cases he
    | _ => simp only [round]; split <;> rfl
  rw [Term.defer_of_not_pending he, hround]
  exact ends_stop _

mutual

/-- **Composing ends**, by recursion on the inner substitution. -/
theorem compose_ends (outer : Subst) : (inner : Subst) →
    (compose outer inner).round.Ends (outer.compose inner)
  | .shift n => compose_shift_ends outer n
  | .dot head rest => by
    rw [round, Subst.compose]
    refine (defer_ends outer head).call fun head' _ => ?_
    refine (compose_ends outer rest).call fun rest' _ => ?_
    exact ends_stop _
  | .unknown => ends_stop _

/-- **Deferring ends**, by recursion on the term below. -/
theorem defer_ends (s : Subst) : (e : Term) → (defer s e).round.Ends (e.defer s)
  | .pending loc t body => by
    rw [round, Term.defer]
    split
    · exact ends_stop _
    · refine (compose_ends s t).call fun merged _ => ?_
      exact ends_stop _
  | .var _ _ => defer_ends_of_not_pending rfl s
  | .lam _ _ _ => defer_ends_of_not_pending rfl s
  | .app _ _ _ => defer_ends_of_not_pending rfl s
  | .unknown _ => defer_ends_of_not_pending rfl s

end

/-- **Looking an index up ends**: each turn goes past one dot. -/
theorem lookup_ends (span : Option Span) (index : Int) (s : Subst) (k : Int) :
    (lookup span index s k).round.Ends (s.lookup span index k) := by
  fun_induction Subst.lookup span index s k with
  | case1 n k hneg =>
    rw [round, if_pos hneg]
    exact ends_stop _
  | case2 n k hneg =>
    rw [round, if_neg hneg]
    exact ends_stop _
  | case3 head rest => exact ends_stop _
  | case4 head rest k h0 ih =>
    rw [round, if_neg h0]
    exact ih.goOn
  | case5 => exact ends_stop _

/-- **Forcing ends.** A turn merges a substitution, or starts again with a replacement; the
induction is that of forcing itself, which the cost of the term bounds. -/
theorem force_ends (s : Subst) (e : Term) : (force s e).round.Ends (e.force s) := by
  fun_induction Term.force s e with
  | case1 s loc t body x hx =>
    exact (compose_ends s t).call_error hx _
  | case2 s loc t body merged hm ih =>
    exact (compose_ends s t).call_ok hm ih.goOn
  | case3 s loc k x hx =>
    exact (lookup_ends loc k s k).call_error hx _
  | case4 s loc k r hl hp ih =>
    refine (lookup_ends loc k s k).call_ok hl ?_
    rw [if_pos hp]
    exact ih.goOn
  | case5 s loc k r hl hp =>
    refine (lookup_ends loc k s k).call_ok hl ?_
    rw [if_neg hp]
    exact ends_stop _
  | case6 s loc hint body hid =>
    rw [round, if_pos hid]
    exact ends_stop _
  | case7 s loc hint body hid =>
    rw [round, if_neg hid, Subst.lifted, bind_assoc]
    refine (compose_ends (.shift 1) s).call fun rest _ => ?_
    refine (defer_ends (.dot (.var none 0) rest) body).call fun body' _ => ?_
    exact ends_stop _
  | case8 s loc fn arg hid =>
    rw [round, if_pos hid]
    exact ends_stop _
  | case9 s loc fn arg hid =>
    rw [round, if_neg hid]
    refine (defer_ends s fn).call fun fn' _ => ?_
    refine (defer_ends s arg).call fun arg' _ => ?_
    exact ends_stop _
  | case10 s loc hid =>
    rw [round, if_pos hid]
    exact ends_stop _
  | case11 s loc hid =>
    rw [round, if_neg hid]
    exact ends_stop _

/-- Exposing ends. -/
theorem expose_ends (e : Term) : (expose e).round.Ends e.expose := by
  cases e with
  | pending loc s body => exact (force_ends s body).goOn
  | _ => exact ends_stop _

/-- **Carrying everything out ends**: the nodes that are exposed one below the other weigh less and
less. -/
theorem forceAll_ends (e : Term) : (forceAll e).round.Ends e.forceAll := by
  fun_induction Term.forceAll e with
  | case1 e x hx =>
    exact (expose_ends e).call_error hx _
  | case2 e loc hint body hexp ih =>
    refine (expose_ends e).call_ok hexp ?_
    refine ih.call fun body' _ => ?_
    exact ends_stop _
  | case3 e loc fn arg hexp ihf iha =>
    refine (expose_ends e).call_ok hexp ?_
    refine ihf.call fun fn' _ => ?_
    refine iha.call fun arg' _ => ?_
    exact ends_stop _
  | case4 e r hlam happ hexp =>
    refine (expose_ends e).call_ok hexp ?_
    cases r with
    | lam loc hint body => exact absurd rfl (hlam loc hint body)
    | app loc fn arg => exact absurd rfl (happ loc fn arg)
    | _ => exact ends_stop _

/-- **Working an agenda off ends**: what takes the place of an entry costs less than the entry. -/
theorem search_ends (agenda : Term.Agenda) : (search agenda).round.Ends (Term.search agenda) := by
  fun_induction Term.search agenda with
  | case1 => exact ends_stop _
  | case2 target node rest x hx =>
    exact (expose_ends node).call_error hx _
  | case3 node rest loc target hexp =>
    refine (expose_ends node).call_ok hexp ?_
    simp only [if_true]
    exact ends_stop _
  | case4 target node rest loc index hexp hne ih =>
    refine (expose_ends node).call_ok hexp ?_
    simp only [if_neg hne]
    exact ih.goOn
  | case5 target node rest loc hint body hexp ih =>
    exact (expose_ends node).call_ok hexp ih.goOn
  | case6 target node rest loc fn arg hexp ih =>
    exact (expose_ends node).call_ok hexp ih.goOn
  | case7 target node rest r hvar hlam happ hexp =>
    refine (expose_ends node).call_ok hexp ?_
    cases r with
    | var loc k => exact absurd rfl (hvar loc k)
    | lam loc hint body => exact absurd rfl (hlam loc hint body)
    | app loc fn arg => exact absurd rfl (happ loc fn arg)
    | _ => exact ends_stop _

/-- **Every operation comes to an end.** On all arguments, with any integers, any nesting of pending
nodes and nodes of no known shape anywhere, there is a number of rounds after which the operation
has stopped, with the answer or the failure that the function gives. -/
theorem exists_after_eq_stop (op : Operation) : ∃ n, (goOn op).after n = .stop op.outcome := by
  cases op with
  | compose outer inner => exact (compose_ends outer inner).goOn
  | defer s e => exact (defer_ends s e).goOn
  | lookup span index s k => exact (lookup_ends span index s k).goOn
  | force s e => exact (force_ends s e).goOn
  | expose e => exact (expose_ends e).goOn
  | forceAll e => exact (forceAll_ends e).goOn
  | search agenda => exact (search_ends agenda).goOn
  | occurs index e =>
    have hround : (occurs index e).round.Ends (e.occurs index) := (search_ends [(index, e)]).goOn
    exact hround.goOn

end Operation

end Nameless
