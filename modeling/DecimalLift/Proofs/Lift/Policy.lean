import DecimalLift.Proofs.Lift.Children

/-!
# What the policy decides

A walk meets arithmetic that it cannot lift. One policy leaves it alone and counts it, the other
one gives up. Apart from that the two walks are one.

* `Expression.obstacle?` — the operand that keeps an expression from being lifted.
* `refusals` — the obstacles of all arithmetic in a list of parts, in the order of a walk.
* `Lifts.refusals_eq` — lifting hides no such arithmetic from a walk and shows it no new one.
* `InStep` — two walks in step, and `inStep_program`: a walk under either policy.
* `strict_iff_passthrough` — when the two policies differ, and how.
-/

set_option autoImplicit false

namespace DecimalLift

namespace Expression

/-- Whether an expression is arithmetic that the rules have a method for. -/
def isMapped (rules : Rules) : Expression → Bool
  | .binary _ op _ _ => (rules.method? op).isSome
  | _ => false

/-- The leftmost operand, reached through mapped arithmetic only, that is neither a number nor a
call nor mapped arithmetic. -/
def obstacle? (rules : Rules) : Expression → Option Unsupported
  | .number .. | .call .. => none
  | .binary n op left right =>
    if (rules.method? op).isSome then (left.obstacle? rules).or (right.obstacle? rules)
    else some ⟨(Expression.binary n op left right).kindName, n.span.start⟩
  | e => some ⟨e.kindName, e.span.start⟩

/-- Why mapped arithmetic cannot be lifted. -/
def refusal? (rules : Rules) (e : Expression) : Option Unsupported :=
  if e.isMapped rules then e.obstacle? rules else none

variable {rules : Rules}

theorem obstacle?_eq_none_iff : ∀ {e : Expression},
    e.obstacle? rules = none ↔ e.liftable rules = true
  | .number .. | .call .. => by simp [obstacle?, liftable]
  | .binary _ op left right => by
    have hleft := obstacle?_eq_none_iff (e := left)
    have hright := obstacle?_eq_none_iff (e := right)
    cases hmethod : rules.method? op <;>
      simp [obstacle?, liftable, hmethod, hleft, hright]
  | .string .. | .boolean .. | .null .. | .identifier .. | .unary .. | .construct .. | .member ..
  | .index .. | .conditional .. | .array .. => by simp [obstacle?, liftable]

/-- **A failure to lift names the obstacle.** -/
theorem obstacle?_of_lift {e : Expression} {u : Unsupported} {next next' : UInt32}
    (h : e.lift rules next = .error u next') : e.obstacle? rules = some u := by
  replace h := failsFrom_of_lift h
  induction h with
  | @other e _ hshape =>
    cases e with
    | number | binary | call => cases hshape
    | _ => rfl
  | unmapped hmethod => simp [obstacle?, hmethod]
  | left hmethod _ ih => simp [obstacle?, hmethod, ih]
  | right hmethod hleft _ ih =>
    have hnone := obstacle?_eq_none_iff.2 hleft.lifts.liftable
    simp [obstacle?, hmethod, hnone, ih]

/-- Arithmetic is refused if the rules have a method for it and an operand cannot be lifted. -/
theorem refusal?_isSome (rules : Rules) (e : Expression) :
    (e.refusal? rules).isSome = (e.isMapped rules && !e.liftable rules) := by
  unfold refusal?
  cases hmapped : e.isMapped rules with
  | false => rfl
  | true =>
    cases hliftable : e.liftable rules with
    | true => simp [obstacle?_eq_none_iff.2 hliftable]
    | false =>
      cases hobstacle : e.obstacle? rules with
      | none => simp [obstacle?_eq_none_iff.1 hobstacle] at hliftable
      | some u => simp

theorem liftNode_of_mapped {e : Expression} (h : e.isMapped rules = true) :
    e.liftNode rules = e.lift rules := by
  cases e with
  | binary n op left right =>
    have hmethod : (rules.method? op).isSome = true := h
    simp only [liftNode, liftBinary, hmethod, if_true]
  | _ => cases h

theorem refusal?_of_ok {e : Expression} {l : Lifted} {next next' : UInt32}
    (h : e.liftNode rules next = .ok l next') : e.refusal? rules = none := by
  unfold refusal?
  split
  · rename_i hmapped
    rw [liftNode_of_mapped hmapped] at h
    exact obstacle?_eq_none_iff.2 (lifts_of_lift h).liftable
  · rfl

theorem refusal?_of_error {e : Expression} {u : Unsupported} {next next' : UInt32}
    (h : e.liftNode rules next = .error u next') : e.refusal? rules = some u := by
  unfold refusal?
  split
  · rename_i hmapped
    rw [liftNode_of_mapped hmapped] at h
    exact obstacle?_of_lift h
  · rename_i hmapped
    cases e with
    | binary n op left right =>
      have hmethod : (rules.method? op).isSome = false := by simpa [isMapped] using hmapped
      simp only [liftNode, liftBinary, hmethod] at h
      cases h
    | call n callee arguments =>
      have hobstacle : (Expression.call n callee arguments).obstacle? rules = some u :=
        obstacle?_of_lift h
      cases hobstacle
    | _ => cases h

end Expression

/-! ## Refusals -/

section

variable {rules : Rules}

/-- Why a part is arithmetic that cannot be lifted. -/
def Part.refusal? (rules : Rules) : Part → Option Unsupported
  | .expression e => e.refusal? rules
  | _ => none

/-- The obstacles of all arithmetic that cannot be lifted. -/
def refusals (rules : Rules) (ps : List Part) : List Unsupported :=
  ps.filterMap (Part.refusal? rules)

@[simp] theorem refusals_append (ps qs : List Part) :
    refusals rules (ps ++ qs) = refusals rules ps ++ refusals rules qs :=
  List.filterMap_append

@[simp] theorem refusals_statement (s : Statement) (ps : List Part) :
    refusals rules (.statement s :: ps) = refusals rules ps := rfl

@[simp] theorem refusals_declarator (d : Declarator) (ps : List Part) :
    refusals rules (.declarator d :: ps) = refusals rules ps := rfl

theorem refusals_expression (e : Expression) (ps : List Part) :
    refusals rules (.expression e :: ps) = (e.refusal? rules).toList ++ refusals rules ps := by
  unfold refusals
  rw [List.filterMap_cons, Part.refusal?]
  cases e.refusal? rules <;> rfl

/-- The refusals of an expression are its own and those of its children. -/
theorem refusals_parts (e : Expression) :
    refusals rules e.parts =
      (e.refusal? rules).toList ++ e.children.flatMap fun c => refusals rules c.value.parts := by
  rw [e.parts_eq, refusals_expression]
  unfold refusals
  rw [List.filterMap_flatMap]

theorem refusals_member (n : Node) (object : Expression) (property : String) :
    refusals rules (Expression.member n object property).parts = refusals rules object.parts := rfl

theorem refusals_construct (n : Node) (callee argument : Expression) :
    refusals rules (Expression.construct n callee [argument]).parts =
      refusals rules callee.parts ++ refusals rules argument.parts := by
  rw [refusals_parts]
  simp [Expression.refusal?, Expression.isMapped, Expression.children]

theorem refusals_call (n : Node) (callee : Expression) (arguments : List Expression) :
    refusals rules (Expression.call n callee arguments).parts =
      refusals rules callee.parts ++ arguments.flatMap fun e => refusals rules e.parts := by
  rw [refusals_parts]
  simp [Expression.refusal?, Expression.isMapped, Expression.children, List.flatMap_map]

/-- What was lifted is a number or a call, which is never refused. -/
theorem Lifts.refusal?_eq_none {e r : Expression} (h : Lifts rules e r) :
    r.refusal? rules = none := by
  cases h <;> rfl

/-- **Lifting hides no arithmetic that cannot be lifted, and shows no new one.** -/
theorem Lifts.refusals_eq {e r : Expression} (h : Lifts rules e r) :
    refusals rules r.parts = refusals rules e.parts := by
  induction h with
  | number | call_kept => rfl
  | @call n n₁ n₂ n₃ callee arguments target htarget =>
    -- both callees are members of a name, so only the arguments count
    obtain ⟨m, k, scope, method, rfl, -⟩ := exists_of_targetOf? htarget
    rw [refusals_call, refusals_call, refusals_member, refusals_member]
    rfl
  | @binary n n₁ n₂ n₃ n₄ op left right left' right' method hmethod hleft hright ihleft ihright =>
    have hnone : (Expression.binary n op left right).refusal? rules = none := by
      have hliftable : (Expression.binary n op left right).liftable rules = true := by
        simp [Expression.liftable, hmethod, hleft.liftable, hright.liftable]
      unfold Expression.refusal?
      rw [Expression.obstacle?_eq_none_iff.2 hliftable, ite_self]
    have hname : refusals rules (Expression.identifier n₁ rules.typeName).parts = [] := rfl
    rw [refusals_call, refusals_member, refusals_construct, hname,
      refusals_parts (.binary n op left right), hnone]
    simp [Expression.children, ihleft, ihright]

end

namespace Walk

/-! ## Walks in step -/

section

variable {α β : Type} {us vs : List Unsupported} {s s₁ s' : WalkState}

/-- The walk `lenient` succeeds and leaves as much arithmetic alone as there are refusals. The walk
`strict` does the same if there is none, and else fails with the first one. -/
structure InStep (us : List Unsupported) (lenient strict : Walk α) (s : WalkState) (a : α)
    (s' : WalkState) : Prop where
  runs : lenient s = .ok a s'
  left : s'.counts.left = s.counts.left + us.length
  agrees : us = [] → strict s = .ok a s'
  fails : ∀ u, us.head? = some u → ∃ t, strict s = .error u t

/-- The walks are in step, whatever state they start in. -/
def Together (us : List Unsupported) (lenient strict : Walk α) : Prop :=
  ∀ s, ∃ a s', InStep us lenient strict s a s'

theorem InStep.bind {w w' : Walk α} {f f' : α → Walk β} {a : α} {b : β}
    (h : InStep us w w' s a s₁) (hf : InStep vs (f a) (f' a) s₁ b s') :
    InStep (us ++ vs) (w >>= f) (w' >>= f') s b s' where
  runs := (bind_of_ok h.runs).trans hf.runs
  left := by
    have := h.left
    have := hf.left
    rw [List.length_append]
    omega
  agrees := by
    intro hnil
    obtain ⟨hus, hvs⟩ := List.append_eq_nil_iff.1 hnil
    exact (bind_of_ok (h.agrees hus)).trans (hf.agrees hvs)
  fails := by
    intro u hu
    cases us with
    | nil =>
      obtain ⟨t, ht⟩ := hf.fails u hu
      exact ⟨t, (bind_of_ok (h.agrees rfl)).trans ht⟩
    | cons v us =>
      -- the first walk has failed, and the second one does not begin
      obtain ⟨t, ht⟩ := h.fails u hu
      exact ⟨t, bind_of_error ht⟩

theorem InStep.eq_nil_of_ok {w w' : Walk α} {a b : α} {t : WalkState} (h : InStep us w w' s a s')
    (hok : w' s = .ok b t) : us = [] := by
  cases us with
  | nil => rfl
  | cons u us =>
    obtain ⟨t', herror⟩ := h.fails u rfl
    rw [herror] at hok
    cases hok

theorem InStep.head?_of_error {w w' : Walk α} {a : α} {u : Unsupported} {t : WalkState}
    (h : InStep us w w' s a s') (herror : w' s = .error u t) : us.head? = some u := by
  cases us with
  | nil =>
    rw [h.agrees rfl] at herror
    cases herror
  | cons v us =>
    obtain ⟨t', hv⟩ := h.fails v rfl
    rw [hv] at herror
    cases herror
    rfl

theorem together_pure (a : α) : Together [] (pure a) (pure a) := by
  intro s
  refine ⟨a, s, rfl, rfl, fun _ => rfl, ?_⟩
  intro u hu
  cases hu

theorem Together.bind {w w' : Walk α} {f f' : α → Walk β} (h : Together us w w')
    (hf : ∀ a, Together vs (f a) (f' a)) : Together (us ++ vs) (w >>= f) (w' >>= f') := by
  intro s
  obtain ⟨a, s₁, hw⟩ := h s
  obtain ⟨b, s', hb⟩ := hf a s₁
  exact ⟨b, s', hw.bind hb⟩

/-- What is done with the result plays no part. -/
theorem Together.map {w w' : Walk α} (h : Together us w w') (f : α → β) :
    Together us (do let a ← w; return f a) (do let a ← w'; return f a) := by
  have hbind := h.bind fun a => together_pure (f a)
  rwa [List.append_nil] at hbind

theorem Together.mapM {γ : Type} {f f' : γ → Walk α} {r : γ → List Unsupported} :
    ∀ {xs : List γ}, (∀ x ∈ xs, Together (r x) (f x) (f' x)) →
      Together (xs.flatMap r) (xs.mapM f) (xs.mapM f') := by
  intro xs
  induction xs with
  | nil =>
    intro _
    rw [List.mapM_nil, List.mapM_nil]
    exact together_pure _
  | cons x xs ih =>
    intro h
    rw [List.mapM_cons, List.mapM_cons, List.flatMap_cons]
    have hx := h x List.mem_cons_self
    have hxs := ih fun y hy => h y (List.mem_cons_of_mem _ hy)
    exact hx.bind fun a => hxs.map (List.cons a)

end

variable (rules : Rules)

/-- One expression under either policy. What is kept in its place has the same refusals inside. -/
theorem inStep_retain (e : Expression) (slot : Option Slot) (s : WalkState) :
    ∃ r s', InStep (e.refusal? rules).toList (retain ⟨rules, .passthrough⟩ e slot)
        (retain ⟨rules, .strict⟩ e slot) s r s' ∧
      (r.1.children.flatMap fun c => refusals rules c.value.parts) =
        e.children.flatMap fun c => refusals rules c.value.parts := by
  cases hlift : e.liftNode rules s.nextId with
  | ok l next =>
    rw [Expression.refusal?_of_ok hlift]
    have hsame : ∀ {r s'}, retain ⟨rules, .passthrough⟩ e slot s = .ok r s' →
        s'.counts.left = s.counts.left → retain ⟨rules, .strict⟩ e slot s = .ok r s' →
          InStep [] (retain ⟨rules, .passthrough⟩ e slot) (retain ⟨rules, .strict⟩ e slot) s r s' :=
      fun hrun hleft hstrict => ⟨hrun, hleft, fun _ => hstrict, fun _ hu => nomatch hu⟩
    cases l with
    | kept =>
      exact ⟨_, _, hsame (retain_of_kept hlift) rfl (retain_of_kept hlift), rfl⟩
    | replaced r =>
      cases slot with
      | none =>
        exact ⟨_, _, hsame (retain_of_loose hlift) rfl (retain_of_loose hlift), rfl⟩
      | some place =>
        refine ⟨_, _, hsame (retain_of_held hlift place) rfl (retain_of_held hlift place), ?_⟩
        have hlifts := lifts_of_liftNode hlift
        have hparts := hlifts.refusals_eq
        rw [refusals_parts, refusals_parts, Expression.refusal?_of_ok hlift,
          hlifts.refusal?_eq_none] at hparts
        exact hparts
  | error u next =>
    rw [Expression.refusal?_of_error hlift]
    refine ⟨_, _, ⟨retain_of_passed rfl hlift, rfl, (fun h => nomatch h), ?_⟩, rfl⟩
    intro v hv
    cases hv
    exact ⟨_, retain_of_failed rfl hlift⟩

/-- **An expression under either policy.** -/
theorem together_expression (e : Expression) : ∀ slot : Option Slot,
    Together (refusals rules e.parts) (expression ⟨rules, .passthrough⟩ e slot)
      (expression ⟨rules, .strict⟩ e slot) := by
  induction e using Expression.weight_induction with
  | _ e ih =>
    intro slot s
    obtain ⟨r, s₁, hretain, hchildren⟩ := inStep_retain rules e slot s
    have hinto : Together (r.1.children.flatMap fun c => refusals rules c.value.parts)
        (r.1.children.mapM (child ⟨rules, .passthrough⟩))
        (r.1.children.mapM (child ⟨rules, .strict⟩)) :=
      Together.mapM fun c hc => ih r.1 r.2 c hc _
    obtain ⟨e', s', hfill⟩ := hinto.map r.1.fill s₁
    refine ⟨e', s', ?_⟩
    rw [refusals_parts, ← hchildren, expression_children, expression_children]
    exact hretain.bind hfill

/-! ## Statements -/

theorem together_expression? (e : Option Expression) :
    Together (refusals rules (Expression.partsOption e)) (expression? ⟨rules, .passthrough⟩ e)
      (expression? ⟨rules, .strict⟩ e) := by
  cases e with
  | none => exact together_pure none
  | some e =>
    rw [Expression.partsOption_some]
    exact (together_expression rules e none).map some

theorem together_declarators (ds : List Declarator) :
    Together (refusals rules (ds.flatMap Declarator.parts))
      (declarators ⟨rules, .passthrough⟩ ds) (declarators ⟨rules, .strict⟩ ds) := by
  induction ds with
  | nil => exact together_pure []
  | cons d ds ih =>
    obtain ⟨n, name, type, initial⟩ := d
    have hd : Together (refusals rules (Declarator.parts ⟨n, name, type, initial⟩))
        (declarator ⟨rules, .passthrough⟩ ⟨n, name, type, initial⟩)
        (declarator ⟨rules, .strict⟩ ⟨n, name, type, initial⟩) := by
      cases initial with
      | none => exact together_pure _
      | some e =>
        rw [Declarator.parts, refusals_declarator, Expression.partsOption_some]
        exact (together_expression rules e (some .initial)).map _
    rw [List.flatMap_cons, refusals_append]
    exact hd.bind fun d' => ih.map (List.cons d')

mutual

/-- **A statement under either policy.** -/
theorem together_statement : ∀ st : Statement,
    Together (refusals rules st.parts) (statement ⟨rules, .passthrough⟩ st)
      (statement ⟨rules, .strict⟩ st)
  | .imports .. | .empty _ => by
    rw [statement, statement]
    exact together_pure _
  | .variable n word ds => by
    rw [statement, statement]
    exact (together_declarators rules ds).map _
  | .function n name ps result body => by
    rw [statement, statement]
    exact (together_statements body).map _
  | .exports n inner => by
    rw [statement, statement]
    exact (together_statement inner).map _
  | .expression n e => by
    rw [statement, statement]
    exact (together_expression rules e none).map _
  | .returns n value => by
    rw [statement, statement]
    exact (together_expression? rules value).map _
  | .branch n condition yes no => by
    rw [statement, statement, Statement.parts, refusals_statement, refusals_append,
      refusals_append]
    exact (together_expression rules condition none).bind fun _ =>
      (together_statement yes).bind fun _ => (together_statement? no).map _
  | .whileLoop n condition body => by
    rw [statement, statement, Statement.parts, refusals_statement, refusals_append]
    exact (together_expression rules condition none).bind fun _ => (together_statement body).map _
  | .forLoop n start condition update body => by
    rw [statement, statement, Statement.parts, refusals_statement, refusals_append,
      refusals_append, refusals_append]
    exact (together_statement? start).bind fun _ =>
      (together_expression? rules condition).bind fun _ =>
        (together_expression? rules update).bind fun _ => (together_statement body).map _
  | .block n ss => by
    rw [statement, statement]
    exact (together_statements ss).map _

theorem together_statement? : ∀ st : Option Statement,
    Together (refusals rules (Statement.partsOption st)) (statement? ⟨rules, .passthrough⟩ st)
      (statement? ⟨rules, .strict⟩ st)
  | none => by
    rw [statement?, statement?]
    exact together_pure _
  | some st => by
    rw [statement?, statement?]
    exact (together_statement st).map _

theorem together_statements : ∀ ss : List Statement,
    Together (refusals rules (Statement.partsAll ss)) (statements ⟨rules, .passthrough⟩ ss)
      (statements ⟨rules, .strict⟩ ss)
  | [] => by
    rw [statements, statements]
    exact together_pure _
  | st :: ss => by
    rw [statements, statements, Statement.partsAll, refusals_append]
    exact (together_statement st).bind fun st' => (together_statements ss).map _

end

/-- **A program under either policy.** -/
theorem together_program (p : Program) :
    Together (refusals rules p.parts) (program ⟨rules, .passthrough⟩ p)
      (program ⟨rules, .strict⟩ p) :=
  (together_statements rules p.statements).map _

/-! ## The two policies -/

theorem refusals_eq_filterMap (p : Program) :
    refusals rules p.parts = p.expressions.filterMap (Expression.refusal? rules) := by
  unfold refusals Program.expressions
  rw [List.filterMap_filterMap]
  congr
  funext x
  cases x <;> rfl

/-- There is no refusal if all mapped arithmetic can be lifted. -/
theorem refusals_eq_nil_iff (p : Program) :
    refusals rules p.parts = [] ↔
      ∀ e ∈ p.expressions, e.isMapped rules = true → e.liftable rules = true := by
  rw [refusals_eq_filterMap, List.filterMap_eq_nil_iff]
  refine forall_congr' fun e => forall_congr' fun _ => ?_
  rw [← Option.not_isSome_iff_eq_none, Expression.refusal?_isSome]
  cases e.isMapped rules <;> cases e.liftable rules <;> simp

/-- The first refusal is that of the first mapped arithmetic that cannot be lifted. -/
theorem exists_of_head?_refusals {p : Program} {u : Unsupported}
    (h : (refusals rules p.parts).head? = some u) :
    ∃ e, p.expressions.find? (fun e => e.isMapped rules && !e.liftable rules) = some e ∧
      e.obstacle? rules = some u := by
  rw [refusals_eq_filterMap, List.head?_filterMap] at h
  obtain ⟨before, e, after, hsplit, he, hbefore⟩ := List.findSome?_eq_some_iff.1 h
  have hmapped : e.isMapped rules = true ∧ e.liftable rules = false := by
    have hsome := Expression.refusal?_isSome rules e
    rw [he] at hsome
    simpa using hsome.symm
  refine ⟨e, ?_, ?_⟩
  · rw [List.find?_eq_some_iff_append]
    refine ⟨by simp [hmapped], before, after, hsplit, ?_⟩
    intro x hx
    have hnone := Expression.refusal?_isSome rules x
    rw [hbefore x hx, Option.isSome_none] at hnone
    rw [← hnone]
    rfl
  · simpa [Expression.refusal?, hmapped.1] using he

/-- **The policies agree except for the failure.** A walk that leaves arithmetic alone always
succeeds. A strict one succeeds exactly if nothing was left alone, which is to say if all mapped
arithmetic of the program can be lifted, and then it returns the same tree in the same state. Else
it fails at the first arithmetic that cannot be lifted, and names the operand in its way. -/
theorem strict_iff_passthrough (p : Program) (nextId : UInt32) :
    ∃ p' s', program ⟨rules, .passthrough⟩ p (.start nextId) = .ok p' s' ∧
      ((∃ q t, program ⟨rules, .strict⟩ p (.start nextId) = .ok q t) ↔ s'.counts.left = 0) ∧
      (s'.counts.left = 0 ↔
        ∀ e ∈ p.expressions, e.isMapped rules = true → e.liftable rules = true) ∧
      (∀ q t, program ⟨rules, .strict⟩ p (.start nextId) = .ok q t → q = p' ∧ t = s') ∧
      ∀ u t, program ⟨rules, .strict⟩ p (.start nextId) = .error u t →
        ∃ e, p.expressions.find? (fun e => e.isMapped rules && !e.liftable rules) = some e ∧
          e.obstacle? rules = some u := by
  obtain ⟨p', s', hstep⟩ := together_program rules p (.start nextId)
  have hleft : s'.counts.left = 0 ↔ refusals rules p.parts = [] := by
    have hcount : s'.counts.left = 0 + (refusals rules p.parts).length := hstep.left
    rw [hcount, Nat.zero_add, List.length_eq_zero_iff]
  refine ⟨p', s', hstep.runs, ?_, hleft.trans (refusals_eq_nil_iff rules p), ?_, ?_⟩
  · rw [hleft]
    constructor
    · rintro ⟨q, t, hok⟩
      exact hstep.eq_nil_of_ok hok
    · intro hnil
      exact ⟨p', s', hstep.agrees hnil⟩
  · intro q t hok
    have hstrict := hstep.agrees (hstep.eq_nil_of_ok hok)
    rw [hstrict] at hok
    cases hok
    exact ⟨rfl, rfl⟩
  · intro u t herror
    exact exists_of_head?_refusals rules (hstep.head?_of_error herror)

end Walk

end DecimalLift
