import DecimalLift.Lift.Walk
import DecimalLift.Proofs.Sequence
import DecimalLift.Proofs.Tree

/-!
# What a walk does to expressions

A walk counts, hands out ids and may fail. What it does to a tree does not depend on any of that,
and these relations between trees say it once.

* `Lifts` — what an operand is lifted to; `Expression.liftable` says whether it can be lifted.
* `LiftsFrom` — the same with the ids that are handed out, and `liftsFrom_of_lift`, that lifting
  goes by these rules.
* `FailsFrom` — an attempt that fails, at the operand that it names, and `failsFrom_of_lift`.
* `Fate` — what the rules do with one expression, and `Rests`, when a walk leaves it alone.
* `retain_of_kept`, `retain_of_held`, `retain_of_loose`, `retain_of_passed`, `retain_of_failed` — the
  step of a walk at one expression, with the state after it, by the outcome of lifting.
* `Retains`, `Walks` — what a walk keeps in the place of an expression, and what it returns.
* `walks_of_ok` — the walk of an expression returns nothing else.
-/

set_option autoImplicit false

namespace DecimalLift

/-! ## Lifting -/

theorem Expression.scopedMethod?_relabel (c : Relabel) (e : Expression) :
    (e.relabel c).scopedMethod? = e.scopedMethod? := by
  cases e <;> simp only [relabel, scopedMethod?, name?_relabel]

/-- The method of the decimal type that takes over the calls of a callee. -/
def Rules.targetOf? (rules : Rules) (callee : Expression) : Option String :=
  callee.scopedMethod?.bind fun (scope, method) => rules.target? scope method

/-- A callee that is taken over is `scope.method`. -/
theorem exists_of_targetOf? {rules : Rules} {callee : Expression} {target : String}
    (h : rules.targetOf? callee = some target) :
    ∃ n m scope method, callee = .member n (.identifier m scope) method ∧
      rules.target? scope method = some target := by
  obtain ⟨⟨scope, method⟩, hcallee, htarget⟩ := Option.bind_eq_some_iff.1 h
  match callee, hcallee with
  | .member n object property, hcallee =>
    obtain ⟨name, hname, heq⟩ := Option.map_eq_some_iff.1 hcallee
    cases heq
    match object, hname with
    | .identifier m _, rfl => exact ⟨n, m, _, _, rfl, htarget⟩

/-- Whether an operand can be lifted. -/
def Expression.liftable (rules : Rules) : Expression → Bool
  | .number .. | .call .. => true
  | .binary _ op left right =>
    (rules.method? op).isSome && left.liftable rules && right.liftable rules
  | _ => false

/-- What an operand is lifted to. -/
inductive Lifts (rules : Rules) : Expression → Expression → Prop
  | number {n : Node} {raw : String} : Lifts rules (.number n raw) (.number n raw)
  | call_kept {n : Node} {callee : Expression} {arguments : List Expression}
      (htarget : rules.targetOf? callee = none) :
      Lifts rules (.call n callee arguments) (.call n callee arguments)
  | call {n n₁ n₂ n₃ : Node} {callee : Expression} {arguments : List Expression} {target : String}
      (htarget : rules.targetOf? callee = some target) :
      Lifts rules (.call n callee arguments)
        (.call n₃ (.member n₂ (.identifier n₁ rules.typeName) target) arguments)
  | binary {n n₁ n₂ n₃ n₄ : Node} {op : BinaryOp} {left right left' right' : Expression}
      {method : String} (hmethod : rules.method? op = some method) (hleft : Lifts rules left left')
      (hright : Lifts rules right right') :
      Lifts rules (.binary n op left right)
        (.call n₄ (.member n₃ (.construct n₂ (.identifier n₁ rules.typeName) [left']) method)
          [right'])

variable {rules : Rules} {config : Config}

/-- Lifting an operand while the next id goes from the first number to the second one. -/
inductive LiftsFrom (rules : Rules) : Expression → Lifted → UInt32 → UInt32 → Prop
  | number {n : Node} {raw : String} {a : UInt32} : LiftsFrom rules (.number n raw) .kept a a
  | call_kept {n : Node} {callee : Expression} {arguments : List Expression} {a : UInt32}
      (htarget : rules.targetOf? callee = none) :
      LiftsFrom rules (.call n callee arguments) .kept a a
  | call {n : Node} {callee : Expression} {arguments : List Expression} {target : String}
      {a : UInt32} (htarget : rules.targetOf? callee = some target) :
      LiftsFrom rules (.call n callee arguments)
        (.replaced (.call ⟨a + 2, n.span⟩
          (.member ⟨a + 1, n.span⟩ (.identifier ⟨a, n.span⟩ rules.typeName) target) arguments))
        a (a + 3)
  | binary {n : Node} {op : BinaryOp} {left right : Expression} {l r : Lifted} {method : String}
      {a b c : UInt32} (hmethod : rules.method? op = some method)
      (hleft : LiftsFrom rules left l a b) (hright : LiftsFrom rules right r b c) :
      LiftsFrom rules (.binary n op left right)
        (.replaced (.call ⟨c + 3, n.span⟩
          (.member ⟨c + 2, n.span⟩
            (.construct ⟨c + 1, n.span⟩ (.identifier ⟨c, n.span⟩ rules.typeName) [l.result left])
            method)
          [r.result right]))
        a (c + 4)

/-- **Lifting goes by these rules.** -/
theorem liftsFrom_of_lift : ∀ {e : Expression} {l : Lifted} {next next' : UInt32},
    e.lift rules next = .ok l next' → LiftsFrom rules e l next next'
  | .number .., _, _, _, h => by
    cases h
    exact .number
  | .call n callee arguments, l, next, next', h => by
    unfold Expression.lift Expression.liftCall at h
    cases htarget : rules.targetOf? callee with
    | none =>
      unfold Rules.targetOf? at htarget
      simp only [htarget] at h
      cases h
      exact .call_kept htarget
    | some target =>
      unfold Rules.targetOf? at htarget
      simp only [htarget] at h
      cases h
      simp only [UInt32.add_assoc]
      exact .call htarget
  | .binary n op left right, l, next, next', h => by
    unfold Expression.lift at h
    cases hmethod : rules.method? op with
    | none =>
      rw [hmethod] at h
      cases h
    | some method =>
      rw [hmethod] at h
      obtain ⟨l₁, next₁, hleft, h⟩ := bind_eq_ok.1 h
      obtain ⟨l₂, next₂, hright, h⟩ := bind_eq_ok.1 h
      cases h
      simp only [UInt32.add_assoc]
      exact .binary hmethod (liftsFrom_of_lift hleft) (liftsFrom_of_lift hright)
  | .string .., _, _, _, h | .boolean .., _, _, _, h | .null .., _, _, _, h
  | .identifier .., _, _, _, h | .unary .., _, _, _, h | .construct .., _, _, _, h
  | .member .., _, _, _, h | .index .., _, _, _, h | .conditional .., _, _, _, h
  | .array .., _, _, _, h => by cases h

theorem LiftsFrom.lifts {e : Expression} {l : Lifted} {a b : UInt32} (h : LiftsFrom rules e l a b) :
    Lifts rules e (l.result e) := by
  induction h with
  | number => exact .number
  | call_kept htarget => exact .call_kept htarget
  | call htarget => exact .call htarget
  | binary hmethod _ _ ihleft ihright => exact .binary hmethod ihleft ihright

theorem lifts_of_lift {e : Expression} {l : Lifted} {next next' : UInt32}
    (h : e.lift rules next = .ok l next') : Lifts rules e (l.result e) :=
  (liftsFrom_of_lift h).lifts

/-- Lifting succeeds if the operand can be lifted, whatever the next id is. -/
theorem lift_of_liftable : ∀ {e : Expression} (next : UInt32), e.liftable rules = true →
    ∃ l next', e.lift rules next = .ok l next'
  | .number .., next, _ => ⟨.kept, next, rfl⟩
  | .call n callee arguments, next, _ => by
    unfold Expression.lift Expression.liftCall
    cases htarget : rules.targetOf? callee with
    | none =>
      unfold Rules.targetOf? at htarget
      simp only [htarget]
      exact ⟨_, _, rfl⟩
    | some target =>
      unfold Rules.targetOf? at htarget
      simp only [htarget]
      exact ⟨_, _, rfl⟩
  | .binary n op left right, next, h => by
    simp only [Expression.liftable, Bool.and_eq_true] at h
    obtain ⟨⟨hmethod, hleft⟩, hright⟩ := h
    obtain ⟨method, hmethod⟩ := Option.isSome_iff_exists.1 hmethod
    obtain ⟨l₁, next₁, hleft⟩ := lift_of_liftable next hleft
    obtain ⟨l₂, next₂, hright⟩ := lift_of_liftable next₁ hright
    unfold Expression.lift
    rw [hmethod]
    simp only
    rw [bind_of_ok hleft, bind_of_ok hright]
    exact ⟨_, _, rfl⟩

theorem Lifts.liftable {e r : Expression} (h : Lifts rules e r) : e.liftable rules = true := by
  induction h with
  | number | call_kept | call => rfl
  | binary hmethod _ _ ihleft ihright =>
    simp only [Expression.liftable, hmethod, ihleft, ihright]
    rfl

/-- Lifting fails if the operand cannot be lifted. -/
theorem lift_of_not_liftable {e : Expression} (next : UInt32) (h : e.liftable rules = false) :
    ∃ u next', e.lift rules next = .error u next' := by
  cases hlift : e.lift rules next with
  | error u next' => exact ⟨u, next', rfl⟩
  | ok l next' =>
    rw [(lifts_of_lift hlift).liftable] at h
    cases h

/-- An attempt to lift that fails while the next id goes from the first number to the second one.
The operand that it names is the first one that is met. -/
inductive FailsFrom (rules : Rules) : Expression → Unsupported → UInt32 → UInt32 → Prop
  | other {e : Expression} {a : UInt32} (hshape : e.shape = .other e.kindName) :
      FailsFrom rules e ⟨e.kindName, e.span.start⟩ a a
  | unmapped {n : Node} {op : BinaryOp} {left right : Expression} {a : UInt32}
      (hmethod : rules.method? op = none) :
      FailsFrom rules (.binary n op left right)
        ⟨(Expression.binary n op left right).kindName, n.span.start⟩ a a
  | left {n : Node} {op : BinaryOp} {left right : Expression} {method : String} {u : Unsupported}
      {a b : UInt32} (hmethod : rules.method? op = some method)
      (hleft : FailsFrom rules left u a b) :
      FailsFrom rules (.binary n op left right) u a b
  | right {n : Node} {op : BinaryOp} {left right : Expression} {l : Lifted} {method : String}
      {u : Unsupported} {a b c : UInt32} (hmethod : rules.method? op = some method)
      (hleft : LiftsFrom rules left l a b) (hright : FailsFrom rules right u b c) :
      FailsFrom rules (.binary n op left right) u a c

/-- **Lifting fails by these rules.** -/
theorem failsFrom_of_lift : ∀ {e : Expression} {u : Unsupported} {next next' : UInt32},
    e.lift rules next = .error u next' → FailsFrom rules e u next next'
  | .binary n op left right, u, next, next', h => by
    unfold Expression.lift at h
    cases hmethod : rules.method? op with
    | none =>
      rw [hmethod] at h
      cases h
      exact .unmapped hmethod
    | some method =>
      rw [hmethod] at h
      rcases bind_eq_error.1 h with h | ⟨l, next₁, hleft, h⟩
      · exact .left hmethod (failsFrom_of_lift h)
      · rcases bind_eq_error.1 h with h | ⟨r, next₂, _, h⟩
        · exact .right hmethod (liftsFrom_of_lift hleft) (failsFrom_of_lift h)
        · cases h
  | .number .., _, _, _, h => by cases h
  | .call n callee arguments, u, next, next', h => by
    have hliftable : (Expression.call n callee arguments).liftable rules = true := rfl
    obtain ⟨l, next₁, hok⟩ := lift_of_liftable next hliftable
    rw [hok] at h
    cases h
  | .string .., _, _, _, h | .boolean .., _, _, _, h | .null .., _, _, _, h
  | .identifier .., _, _, _, h | .unary .., _, _, _, h | .construct .., _, _, _, h
  | .member .., _, _, _, h | .index .., _, _, _, h | .conditional .., _, _, _, h
  | .array .., _, _, _, h => by
    cases h
    exact .other rfl

theorem FailsFrom.liftable {e : Expression} {u : Unsupported} {a b : UInt32}
    (h : FailsFrom rules e u a b) : e.liftable rules = false := by
  induction h with
  | @other e _ hshape => cases e <;> first | rfl | cases hshape
  | unmapped hmethod =>
    simp only [Expression.liftable, hmethod]
    rfl
  | left _ _ ih => simp only [Expression.liftable, ih, Bool.and_false, Bool.false_and]
  | right _ _ _ ih => simp only [Expression.liftable, ih, Bool.and_false]

/-! ## One expression -/

/-- What the rules do with one expression. -/
inductive Fate where
  | kept
  | replaced
  /-- Arithmetic with an operand that cannot be lifted. -/
  | refused
  deriving DecidableEq, Repr

/-- What the rules do with an expression. -/
def Expression.fate (rules : Rules) : Expression → Fate
  | .binary _ op left right =>
    if (rules.method? op).isSome then
      if left.liftable rules && right.liftable rules then .replaced else .refused
    else .kept
  | .call _ callee _ => if (rules.targetOf? callee).isSome then .replaced else .kept
  | _ => .kept

/-- When a walk leaves an expression alone; `held` says whether it stands in a slot. -/
structure Rests (config : Config) (held : Bool) (e : Expression) : Prop where
  dropped : e.fate config.rules = .replaced → held = false
  passed : e.fate config.rules = .refused → config.policy = .passthrough

/-- What comes of lifting one expression, by its fate. -/
inductive LiftOutcome (rules : Rules) (e : Expression) (next : UInt32) : Prop
  | kept (hfate : e.fate rules = .kept) (h : e.liftNode rules next = .ok .kept next)
  | replaced {r : Expression} {next' : UInt32} (hfate : e.fate rules = .replaced)
      (h : e.liftNode rules next = .ok (.replaced r) next') (hlifts : Lifts rules e r)
  | refused {u : Unsupported} {next' : UInt32} (hfate : e.fate rules = .refused)
      (h : e.liftNode rules next = .error u next')

theorem liftOutcome_binary (n : Node) (op : BinaryOp) (left right : Expression) (next : UInt32) :
    LiftOutcome rules (.binary n op left right) next := by
  have hnode : (Expression.binary n op left right).liftNode rules =
      if (rules.method? op).isSome then (Expression.binary n op left right).lift rules
      else pure .kept := rfl
  cases hmethod : rules.method? op with
  | none =>
    refine .kept ?_ ?_
    · simp only [Expression.fate, hmethod, Option.isSome_none]
      rfl
    · rw [hnode, hmethod]
      rfl
  | some method =>
    have hlift : (Expression.binary n op left right).liftNode rules =
        (Expression.binary n op left right).lift rules := by
      rw [hnode, hmethod]
      rfl
    cases hoperands : left.liftable rules && right.liftable rules with
    | true =>
      have hliftable : (Expression.binary n op left right).liftable rules = true := by
        simpa [Expression.liftable, hmethod] using hoperands
      obtain ⟨l, next', hok⟩ := lift_of_liftable next hliftable
      have hlifts := lifts_of_lift hok
      cases l with
      | kept =>
        -- Arithmetic that is lifted never stays what it is.
        cases hlifts
      | replaced r =>
        refine .replaced ?_ (hlift ▸ hok) hlifts
        simp only [Expression.fate, hmethod, hoperands]
        rfl
    | false =>
      have hliftable : (Expression.binary n op left right).liftable rules = false := by
        simpa [Expression.liftable, hmethod] using hoperands
      obtain ⟨u, next', herror⟩ := lift_of_not_liftable next hliftable
      refine .refused ?_ (hlift ▸ herror)
      simp only [Expression.fate, hmethod, hoperands]
      rfl

theorem liftOutcome_call (n : Node) (callee : Expression) (arguments : List Expression)
    (next : UInt32) : LiftOutcome rules (.call n callee arguments) next := by
  cases htarget : rules.targetOf? callee with
  | none =>
    refine .kept ?_ ?_
    · simp only [Expression.fate, htarget, Option.isSome_none]
      rfl
    · unfold Rules.targetOf? at htarget
      simp only [Expression.liftNode, Expression.liftCall, htarget]
      rfl
  | some target =>
    have hok : ∃ r next', (Expression.call n callee arguments).liftNode rules next =
        .ok (.replaced r) next' := by
      unfold Rules.targetOf? at htarget
      simp only [Expression.liftNode, Expression.liftCall, htarget]
      exact ⟨_, _, rfl⟩
    obtain ⟨r, next', hok⟩ := hok
    have hlift : (Expression.call n callee arguments).lift rules next = .ok (.replaced r) next' :=
      hok
    refine .replaced ?_ hok (lifts_of_lift hlift)
    simp only [Expression.fate, htarget, Option.isSome_some]
    rfl

theorem liftOutcome (e : Expression) (next : UInt32) : LiftOutcome rules e next := by
  cases e with
  | binary n op left right => exact liftOutcome_binary n op left right next
  | call n callee arguments => exact liftOutcome_call n callee arguments next
  | _ => exact .kept rfl rfl

theorem lifts_of_liftNode {e r : Expression} {next next' : UInt32}
    (h : e.liftNode rules next = .ok (.replaced r) next') : Lifts rules e r := by
  have houtcome : LiftOutcome rules e next := liftOutcome e next
  cases houtcome with
  | kept _ hlift => rw [hlift] at h; cases h
  | replaced _ hlift hlifts =>
    rw [hlift] at h
    cases h
    exact hlifts
  | refused _ hlift => rw [hlift] at h; cases h

namespace Walk

/-! ## What stands in the place of an expression -/

section

variable {e r : Expression} {u : Unsupported} {slot : Option Slot} {s : WalkState} {next : UInt32}

theorem attempt_of_ok_kept (h : e.liftNode config.rules s.nextId = .ok .kept next) :
    attempt config e s = .ok none { s with nextId := next } := by
  unfold attempt
  split <;> rename_i hlift <;> rw [h] at hlift <;> cases hlift
  rfl

theorem attempt_of_ok_replaced (h : e.liftNode config.rules s.nextId = .ok (.replaced r) next) :
    attempt config e s =
      .ok (some ⟨r, Expression.weight_liftNode_le h⟩) { s with nextId := next } := by
  unfold attempt
  split <;> rename_i hlift <;> rw [h] at hlift <;> cases hlift
  rfl

/-- Where nothing is to be lifted, the expression stays. -/
theorem retain_of_kept (h : e.liftNode config.rules s.nextId = .ok .kept next) :
    retain config e slot s = .ok ⟨e, Nat.le_refl _⟩ { s with nextId := next } := by
  unfold retain
  rw [bind_of_ok (attempt_of_ok_kept h)]
  rfl

/-- In a slot, a lifted expression is attached. -/
theorem retain_of_held (h : e.liftNode config.rules s.nextId = .ok (.replaced r) next)
    (place : Slot) :
    retain config e (some place) s =
      .ok ⟨r, Expression.weight_liftNode_le h⟩
        ⟨next, { s.counts with attached := s.counts.attached + 1 }⟩ := by
  unfold retain
  rw [bind_of_ok (attempt_of_ok_replaced h)]
  rfl

/-- Elsewhere it is dropped, and its ids stay used. -/
theorem retain_of_loose (h : e.liftNode config.rules s.nextId = .ok (.replaced r) next) :
    retain config e none s =
      .ok ⟨e, Nat.le_refl _⟩ ⟨next, { s.counts with dropped := s.counts.dropped + 1 }⟩ := by
  unfold retain
  rw [bind_of_ok (attempt_of_ok_replaced h)]
  rfl

/-- Arithmetic that cannot be lifted is left alone under the one policy. -/
theorem retain_of_passed (hpolicy : config.policy = .passthrough)
    (h : e.liftNode config.rules s.nextId = .error u next) :
    retain config e slot s =
      .ok ⟨e, Nat.le_refl _⟩ ⟨next, { s.counts with left := s.counts.left + 1 }⟩ := by
  have hattempt : attempt config e s =
      .ok none ⟨next, { s.counts with left := s.counts.left + 1 }⟩ := by
    unfold attempt
    split <;> rename_i hlift <;> rw [h] at hlift <;> cases hlift
    rw [hpolicy]
  unfold retain
  rw [bind_of_ok hattempt]
  rfl

/-- Under the other one it ends the walk. -/
theorem retain_of_failed (hpolicy : config.policy = .strict)
    (h : e.liftNode config.rules s.nextId = .error u next) :
    retain config e slot s = .error u { s with nextId := next } := by
  have hattempt : attempt config e s = .error u { s with nextId := next } := by
    unfold attempt
    split <;> rename_i hlift <;> rw [h] at hlift <;> cases hlift
    rw [hpolicy]
  unfold retain
  rw [bind_of_error hattempt]

end

/-- What stands in the place of an expression. -/
inductive Retains (config : Config) : Bool → Expression → Expression → Prop
  | rests {held : Bool} {e : Expression} (h : Rests config held e) : Retains config held e e
  | lifted {e r : Expression} (h : Lifts config.rules e r)
      (hfate : e.fate config.rules = .replaced) : Retains config true e r

theorem retains_of_ok {e : Expression} {slot : Option Slot} {r : Bounded e} {s s' : WalkState}
    (h : retain config e slot s = .ok r s') : Retains config slot.isSome e r.1 := by
  have houtcome : LiftOutcome config.rules e s.nextId := liftOutcome e s.nextId
  cases houtcome with
  | kept hfate hlift =>
    rw [retain_of_kept hlift] at h
    cases h
    exact .rests ⟨by simp [hfate], by simp [hfate]⟩
  | replaced hfate hlift hlifts =>
    cases slot with
    | none =>
      rw [retain_of_loose hlift] at h
      cases h
      exact .rests ⟨fun _ => rfl, by simp [hfate]⟩
    | some place =>
      rw [retain_of_held hlift place] at h
      cases h
      exact .lifted hlifts hfate
  | refused hfate hlift =>
    cases hpolicy : config.policy with
    | passthrough =>
      rw [retain_of_passed hpolicy hlift] at h
      cases h
      exact .rests ⟨by simp [hfate], fun _ => hpolicy⟩
    | strict =>
      rw [retain_of_failed hpolicy hlift] at h
      cases h

/-! ## Expressions -/

/-- The walk of the parts of an expression. -/
def into (config : Config) : Expression → Walk Expression
  | .binary n op left right => do
    let left ← expression config left none
    let right ← expression config right none
    return .binary n op left right
  | .unary n op operand => do
    let operand ← expression config operand none
    return .unary n op operand
  | .call n callee arguments => do
    let callee ← expression config callee none
    let arguments ← expressions config true 0 arguments
    return .call n callee arguments
  | .construct n callee arguments => do
    let callee ← expression config callee none
    let arguments ← expressions config false 0 arguments
    return .construct n callee arguments
  | .member n object property => do
    let object ← expression config object none
    return .member n object property
  | .index n object position => do
    let object ← expression config object none
    let position ← expression config position none
    return .index n object position
  | .conditional n condition yes no => do
    let condition ← expression config condition none
    let yes ← expression config yes none
    let no ← expression config no none
    return .conditional n condition yes no
  | .array n elements => do
    let elements ← expressions config false 0 elements
    return .array n elements
  | e => return e

theorem expression_eq (config : Config) (e : Expression) (slot : Option Slot) :
    expression config e slot = retain config e slot >>= fun r => into config r.1 := by
  rw [expression]
  congr
  funext ⟨r, hr⟩
  cases r <;> rfl

mutual

/-- What the walk of an expression returns; `held` says whether it stands in a slot. -/
inductive Walks (config : Config) : Bool → Expression → Expression → Prop
  | mk {held : Bool} {e r e' : Expression} (h : Retains config held e r)
      (hinto : Descends config r e') : Walks config held e e'

/-- What the walk of the parts of an expression returns. -/
inductive Descends (config : Config) : Expression → Expression → Prop
  | number {n : Node} {raw : String} : Descends config (.number n raw) (.number n raw)
  | string {n : Node} {value : String} {quote : Quote} {raw : Option String} :
      Descends config (.string n value quote raw) (.string n value quote raw)
  | boolean {n : Node} {value : Bool} : Descends config (.boolean n value) (.boolean n value)
  | null {n : Node} : Descends config (.null n) (.null n)
  | identifier {n : Node} {name : String} :
      Descends config (.identifier n name) (.identifier n name)
  | binary {n : Node} {op : BinaryOp} {left right left' right' : Expression}
      (hleft : Walks config false left left') (hright : Walks config false right right') :
      Descends config (.binary n op left right) (.binary n op left' right')
  | unary {n : Node} {op : UnaryOp} {operand operand' : Expression}
      (h : Walks config false operand operand') :
      Descends config (.unary n op operand) (.unary n op operand')
  | call {n : Node} {callee callee' : Expression} {arguments arguments' : List Expression}
      (hcallee : Walks config false callee callee')
      (harguments : WalksAll config true arguments arguments') :
      Descends config (.call n callee arguments) (.call n callee' arguments')
  | construct {n : Node} {callee callee' : Expression} {arguments arguments' : List Expression}
      (hcallee : Walks config false callee callee')
      (harguments : WalksAll config false arguments arguments') :
      Descends config (.construct n callee arguments) (.construct n callee' arguments')
  | member {n : Node} {object object' : Expression} {property : String}
      (h : Walks config false object object') :
      Descends config (.member n object property) (.member n object' property)
  | index {n : Node} {object object' position position' : Expression}
      (hobject : Walks config false object object')
      (hposition : Walks config false position position') :
      Descends config (.index n object position) (.index n object' position')
  | conditional {n : Node} {condition condition' yes yes' no no' : Expression}
      (hcondition : Walks config false condition condition') (hyes : Walks config false yes yes')
      (hno : Walks config false no no') :
      Descends config (.conditional n condition yes no) (.conditional n condition' yes' no')
  | array {n : Node} {elements elements' : List Expression}
      (h : WalksAll config false elements elements') :
      Descends config (.array n elements) (.array n elements')

/-- What the walk of several expressions returns. -/
inductive WalksAll (config : Config) : Bool → List Expression → List Expression → Prop
  | nil {held : Bool} : WalksAll config held [] []
  | cons {held : Bool} {e e' : Expression} {es es' : List Expression} (h : Walks config held e e')
      (hes : WalksAll config held es es') : WalksAll config held (e :: es) (e' :: es')

end

/-- Below a weight, a walk returns nothing else. -/
structure SoundWalk (config : Config) (weight : Nat) : Prop where
  expression : ∀ {e e' : Expression} {slot : Option Slot} {s s' : WalkState}, e.weight < weight →
    expression config e slot s = .ok e' s' → Walks config slot.isSome e e'
  expressions : ∀ {es es' : List Expression} {slots : Bool} {i : Nat} {s s' : WalkState},
    Expression.listWeight es < weight →
      expressions config slots i es s = .ok es' s' → WalksAll config slots es es'

theorem descends_of_ok {weight : Nat} (ih : SoundWalk config weight) {r e' : Expression}
    {s s' : WalkState} (hweight : r.weight ≤ weight) (h : into config r s = .ok e' s') :
    Descends config r e' := by
  cases r with
  | number | string | boolean | null | identifier =>
    cases h
    constructor
  | binary n op left right =>
    simp only [Expression.weight] at hweight
    obtain ⟨left', s₁, hleft, h⟩ := bind_eq_ok.1 h
    obtain ⟨right', s₂, hright, h⟩ := bind_eq_ok.1 h
    cases h
    exact .binary (ih.expression (by omega) hleft) (ih.expression (by omega) hright)
  | unary n op operand =>
    simp only [Expression.weight] at hweight
    obtain ⟨operand', s₁, hoperand, h⟩ := bind_eq_ok.1 h
    cases h
    exact .unary (ih.expression (by omega) hoperand)
  | call n callee arguments =>
    simp only [Expression.weight] at hweight
    have := callee.weight_pos
    have := Expression.listWeight_pos arguments
    obtain ⟨callee', s₁, hcallee, h⟩ := bind_eq_ok.1 h
    obtain ⟨arguments', s₂, harguments, h⟩ := bind_eq_ok.1 h
    cases h
    exact .call (ih.expression (by omega) hcallee) (ih.expressions (by omega) harguments)
  | construct n callee arguments =>
    simp only [Expression.weight] at hweight
    have := callee.weight_pos
    have := Expression.listWeight_pos arguments
    obtain ⟨callee', s₁, hcallee, h⟩ := bind_eq_ok.1 h
    obtain ⟨arguments', s₂, harguments, h⟩ := bind_eq_ok.1 h
    cases h
    exact .construct (ih.expression (by omega) hcallee) (ih.expressions (by omega) harguments)
  | member n object property =>
    simp only [Expression.weight] at hweight
    obtain ⟨object', s₁, hobject, h⟩ := bind_eq_ok.1 h
    cases h
    exact .member (ih.expression (by omega) hobject)
  | index n object position =>
    simp only [Expression.weight] at hweight
    obtain ⟨object', s₁, hobject, h⟩ := bind_eq_ok.1 h
    obtain ⟨position', s₂, hposition, h⟩ := bind_eq_ok.1 h
    cases h
    exact .index (ih.expression (by omega) hobject) (ih.expression (by omega) hposition)
  | conditional n condition yes no =>
    simp only [Expression.weight] at hweight
    obtain ⟨condition', s₁, hcondition, h⟩ := bind_eq_ok.1 h
    obtain ⟨yes', s₂, hyes, h⟩ := bind_eq_ok.1 h
    obtain ⟨no', s₃, hno, h⟩ := bind_eq_ok.1 h
    cases h
    exact .conditional (ih.expression (by omega) hcondition) (ih.expression (by omega) hyes)
      (ih.expression (by omega) hno)
  | array n elements =>
    simp only [Expression.weight] at hweight
    obtain ⟨elements', s₁, helements, h⟩ := bind_eq_ok.1 h
    cases h
    exact .array (ih.expressions (by omega) helements)

theorem walksAll_of_ok {weight : Nat} (ih : SoundWalk config weight) :
    ∀ {es es' : List Expression} {slots : Bool} {i : Nat} {s s' : WalkState},
      Expression.listWeight es ≤ weight →
        expressions config slots i es s = .ok es' s' → WalksAll config slots es es'
  | [], es', slots, i, s, s', _, h => by
    rw [expressions] at h
    cases h
    exact .nil
  | e :: es, es', slots, i, s, s', hweight, h => by
    simp only [Expression.listWeight] at hweight
    have := e.weight_pos
    have := Expression.listWeight_pos es
    rw [expressions] at h
    obtain ⟨first, s₁, hfirst, h⟩ := bind_eq_ok.1 h
    obtain ⟨rest, s₂, hrest, h⟩ := bind_eq_ok.1 h
    cases h
    have hwalks := ih.expression (by omega) hfirst
    refine .cons ?_ (ih.expressions (by omega) hrest)
    cases slots <;> exact hwalks

theorem soundWalk (config : Config) (weight : Nat) : SoundWalk config weight := by
  induction weight with
  | zero => exact ⟨fun h => absurd h (Nat.not_lt_zero _), fun h => absurd h (Nat.not_lt_zero _)⟩
  | succ weight ih =>
    constructor
    · intro e e' slot s s' hweight h
      rw [expression_eq] at h
      obtain ⟨⟨r, hr⟩, s₁, hretain, h⟩ := bind_eq_ok.1 h
      -- what is lifted is no part of the expression, but it weighs no more
      have hbound : r.weight ≤ weight := Nat.le_trans hr (Nat.le_of_lt_succ hweight)
      exact .mk (retains_of_ok hretain) (descends_of_ok ih hbound h)
    · intro es es' slots i s s' hweight h
      exact walksAll_of_ok ih (by omega) h

/-- **What the walk of an expression returns is related to it.** -/
theorem walks_of_ok {e e' : Expression} {slot : Option Slot} {s s' : WalkState}
    (h : expression config e slot s = .ok e' s') : Walks config slot.isSome e e' :=
  (soundWalk config (e.weight + 1)).expression (Nat.lt_succ_self _) h

end Walk

end DecimalLift
