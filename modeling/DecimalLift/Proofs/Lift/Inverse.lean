import DecimalLift.Proofs.Lift.Policy
import DecimalLift.Proofs.Lift.Walks.Statement

/-!
# Lifting can be undone

* `Rules.Invertible` — rules under which a lifted call tells what it was lifted from.
* `Expression.unlift`, `Program.unlift` — every lifted call is replaced by what it was lifted from.
* `Walk.unlift_program` — a walk loses nothing: undoing it gives the program back.
-/

set_option autoImplicit false

namespace DecimalLift

/-! ## Rules read backwards -/

/-- No two operators have one method, no two calls one target, and no call has the decimal type as
its scope. -/
structure Rules.Invertible (rules : Rules) : Prop where
  methods : (rules.operators.map (·.method)).Nodup
  targets : (rules.calls.map (·.target)).Nodup
  scopes : ∀ c ∈ rules.calls, c.scope ≠ rules.typeName

namespace Rules

variable {rules : Rules}

/-- The operator that a method stands for. -/
def operatorOf? (rules : Rules) (method : String) : Option BinaryOp :=
  (rules.operators.find? (·.method == method)).map (·.operator.toBinaryOp)

/-- Scope and method of the calls that a target takes over. -/
def sourceOf? (rules : Rules) (target : String) : Option (String × String) :=
  (rules.calls.find? (·.target == target)).map fun c => (c.scope, c.method)

/-- The first entry with a key is the only one if keys do not repeat. -/
theorem find?_eq_of_nodup {α : Type} {key : α → String} {a : α} : ∀ {as : List α},
    (as.map key).Nodup → a ∈ as → as.find? (key · == key a) = some a
  | b :: as, hnodup, ha => by
    rw [List.map_cons, List.nodup_cons] at hnodup
    rcases List.mem_cons.1 ha with rfl | ha
    · rw [List.find?_cons_of_pos (by simp)]
    · have hne : key b ≠ key a := fun h => hnodup.1 (h ▸ List.mem_map_of_mem ha)
      rw [List.find?_cons_of_neg (by simpa using hne)]
      exact find?_eq_of_nodup hnodup.2 ha

theorem operatorOf?_of_method? (h : rules.Invertible) {op : BinaryOp} {method : String}
    (hmethod : rules.method? op = some method) : rules.operatorOf? method = some op := by
  obtain ⟨arithmetic, hop, hrule⟩ := Option.bind_eq_some_iff.1 hmethod
  obtain ⟨rule, hfind, rfl⟩ := Option.map_eq_some_iff.1 hrule
  have hmem := List.mem_of_find?_eq_some hfind
  have hoperator : rule.operator = arithmetic := by simpa using List.find?_some hfind
  unfold operatorOf?
  rw [find?_eq_of_nodup h.methods hmem, Option.map_some, hoperator]
  cases op <;> cases hop <;> rfl

theorem sourceOf?_of_target? (h : rules.Invertible) {scope method target : String}
    (htarget : rules.target? scope method = some target) :
    rules.sourceOf? target = some (scope, method) ∧ scope ≠ rules.typeName := by
  obtain ⟨rule, hfind, rfl⟩ := Option.map_eq_some_iff.1 htarget
  have hmem := List.mem_of_find?_eq_some hfind
  obtain ⟨rfl, rfl⟩ : rule.scope = scope ∧ rule.method = method := by
    simpa using List.find?_some hfind
  unfold sourceOf?
  rw [find?_eq_of_nodup h.targets hmem]
  exact ⟨rfl, h.scopes rule hmem⟩

end Rules

/-! ## Undoing -/

namespace Expression

/-- The argument of `new typeName(argument)`. -/
def wrapped? (typeName : String) : Expression → Option Expression
  | .construct _ callee [argument] =>
    if callee.name? = some typeName then some argument else none
  | _ => none

/-- Method and operands of `new typeName(left).method(right)`, from its callee and arguments. -/
def methodCall? (typeName : String) :
    Expression → List Expression → Option (String × Expression × Expression)
  | .member _ object method, [right] =>
    (object.wrapped? typeName).map fun left => (method, left, right)
  | _, _ => none

/-- Operator and operands of the arithmetic that a call was lifted from. -/
def arithmetic? (rules : Rules) (callee : Expression) (arguments : List Expression) :
    Option (BinaryOp × Expression × Expression) :=
  (methodCall? rules.typeName callee arguments).bind fun (method, left, right) =>
    (rules.operatorOf? method).map fun op => (op, left, right)

/-- Scope and method of the call that a call of the decimal type was lifted from. -/
def source? (rules : Rules) (callee : Expression) : Option (String × String) :=
  callee.scopedMethod?.bind fun (scope, target) =>
    if scope = rules.typeName then rules.sourceOf? target else none

/-- The call, or what it was lifted from. -/
def unliftCall (rules : Rules) (n : Node) (callee : Expression) (arguments : List Expression) :
    Expression :=
  match arithmetic? rules callee arguments with
  | some (op, left, right) => .binary n op left right
  | none =>
    match source? rules callee with
    | some (scope, method) => .call n (.member n (.identifier n scope) method) arguments
    | none => .call n callee arguments

mutual

/-- The expression with every lifted call in it replaced by what it was lifted from. -/
def unlift (rules : Rules) : Expression → Expression
  | .call n callee arguments =>
    unliftCall rules n (callee.unlift rules) (unliftAll rules arguments)
  | .binary n op left right => .binary n op (left.unlift rules) (right.unlift rules)
  | .unary n op operand => .unary n op (operand.unlift rules)
  | .construct n callee arguments =>
    .construct n (callee.unlift rules) (unliftAll rules arguments)
  | .member n object property => .member n (object.unlift rules) property
  | .index n object position => .index n (object.unlift rules) (position.unlift rules)
  | .conditional n condition yes no =>
    .conditional n (condition.unlift rules) (yes.unlift rules) (no.unlift rules)
  | .array n elements => .array n (unliftAll rules elements)
  | e => e

def unliftAll (rules : Rules) : List Expression → List Expression
  | [] => []
  | e :: es => e.unlift rules :: unliftAll rules es

end

/-! Labels play no part in it. -/

theorem wrapped?_relabel (c : Relabel) (typeName : String) (e : Expression) :
    (e.relabel c).wrapped? typeName = (e.wrapped? typeName).map (relabel c) := by
  cases e with
  | construct n callee arguments =>
    match arguments with
    | [] => rfl
    | [argument] =>
      simp only [relabel, relabelAll, wrapped?, name?_relabel]
      split <;> rfl
    | _ :: _ :: _ => rfl
  | _ => rfl

theorem methodCall?_relabel (c : Relabel) (typeName : String) (callee : Expression)
    (arguments : List Expression) :
    methodCall? typeName (callee.relabel c) (relabelAll c arguments) =
      (methodCall? typeName callee arguments).map
        fun (method, left, right) => (method, left.relabel c, right.relabel c) := by
  cases callee with
  | member n object method =>
    match arguments with
    | [] => rfl
    | [right] =>
      simp only [relabel, relabelAll, methodCall?, wrapped?_relabel, Option.map_map]
      rfl
    | _ :: _ :: _ => rfl
  | _ => cases arguments <;> rfl

theorem arithmetic?_relabel (c : Relabel) (rules : Rules) (callee : Expression)
    (arguments : List Expression) :
    arithmetic? rules (callee.relabel c) (relabelAll c arguments) =
      (arithmetic? rules callee arguments).map
        fun (op, left, right) => (op, left.relabel c, right.relabel c) := by
  unfold arithmetic?
  rw [methodCall?_relabel]
  cases methodCall? rules.typeName callee arguments with
  | none => rfl
  | some call => cases hop : rules.operatorOf? call.1 <;> simp [hop]

theorem source?_relabel (c : Relabel) (rules : Rules) (callee : Expression) :
    source? rules (callee.relabel c) = source? rules callee := by
  unfold source?
  rw [scopedMethod?_relabel]

theorem unliftCall_relabel (c : Relabel) (rules : Rules) (n : Node) (callee : Expression)
    (arguments : List Expression) : (unliftCall rules n callee arguments).relabel c =
      unliftCall rules (c.node n) (callee.relabel c) (relabelAll c arguments) := by
  unfold unliftCall
  rw [arithmetic?_relabel, source?_relabel]
  cases arithmetic? rules callee arguments with
  | some arithmetic => rfl
  | none =>
    cases source? rules callee with
    | some source => rfl
    | none => rfl

/-! Where the name of the type does not occur, there is nothing to undo. -/

theorem unliftCall_of_free {rules : Rules} {callee : Expression} (n : Node)
    (h : callee.All fun e => e.name? ≠ some rules.typeName) (arguments : List Expression) :
    unliftCall rules n callee arguments = .call n callee arguments := by
  have hmethod : methodCall? rules.typeName callee arguments = none := by
    unfold methodCall?
    split
    · rename_i m object method right
      rw [Option.map_eq_none_iff]
      unfold wrapped?
      split
      · rename_i k inner argument
        exact if_neg (All.self h.2.2.1)
      · rfl
    · rfl
  have hsource : source? rules callee = none := by
    unfold source? scopedMethod?
    split
    · rename_i m object property
      cases hname : object.name? with
      | none => rfl
      | some scope =>
        have hne : scope ≠ rules.typeName := fun heq => All.self h.2 (heq ▸ hname)
        simp only [Option.map_some, Option.bind_some, if_neg hne]
    · rfl
  simp only [unliftCall, arithmetic?, hmethod, Option.bind_none, hsource]

mutual

theorem unlift_of_free {rules : Rules} : ∀ {e : Expression},
    (e.All fun e => e.name? ≠ some rules.typeName) → e.unlift rules = e
  | .number .., _ | .string .., _ | .boolean .., _ | .null .., _ | .identifier .., _ => rfl
  | .call n callee arguments, h => by
    simp only [unlift, unlift_of_free h.2.1, unliftAll_of_free h.2.2]
    exact unliftCall_of_free n h.2.1 arguments
  | .binary .., h | .index .., h => by
    simp only [unlift, unlift_of_free h.2.1, unlift_of_free h.2.2]
  | .unary .., h | .member .., h => by
    simp only [unlift, unlift_of_free h.2]
  | .construct .., h => by
    simp only [unlift, unlift_of_free h.2.1, unliftAll_of_free h.2.2]
  | .conditional .., h => by
    simp only [unlift, unlift_of_free h.2.1, unlift_of_free h.2.2.1, unlift_of_free h.2.2.2]
  | .array .., h => by
    simp only [unlift, unliftAll_of_free h.2]

theorem unliftAll_of_free {rules : Rules} : ∀ {es : List Expression},
    AllOf (fun e => e.name? ≠ some rules.typeName) es → unliftAll rules es = es
  | [], _ => rfl
  | _ :: _, h => by simp only [unliftAll, unlift_of_free h.1, unliftAll_of_free h.2]

end

end Expression

/-- The program with every lifted call in it replaced by what it was lifted from. -/
def Program.unlift (rules : Rules) (p : Program) : Program :=
  p.mapExpressions (Expression.unlift rules)

/-! ## Walks -/

section

variable {rules : Rules}

/-- A call of `scope.method` was lifted from a call, if from anything. -/
theorem unliftCall_scoped (n m k : Node) (scope method : String) (arguments : List Expression) :
    Expression.unliftCall rules n (.member m (.identifier k scope) method) arguments =
      match (if scope = rules.typeName then rules.sourceOf? method else none) with
      | some (scope', method') =>
        .call n (.member n (.identifier n scope') method') arguments
      | none => .call n (.member m (.identifier k scope) method) arguments := by
  have harithmetic : Expression.arithmetic? rules (.member m (.identifier k scope) method)
      arguments = none := by
    match arguments with
    | [] | [_] | _ :: _ :: _ => rfl
  unfold Expression.unliftCall
  rw [harithmetic]
  rfl

/-- Undoing a lifted operand gives what undoing the operand gives. -/
theorem Lifts.unlift (hrules : rules.Invertible) {e r : Expression} (h : Lifts rules e r) :
    (r.unlift rules).relabel .erase = (e.unlift rules).relabel .erase := by
  induction h with
  | number | call_kept => rfl
  | @call n n₁ n₂ n₃ callee arguments target htarget =>
    obtain ⟨m, k, scope, method, rfl, htarget⟩ := exists_of_targetOf? htarget
    obtain ⟨hsource, hscope⟩ := Rules.sourceOf?_of_target? hrules htarget
    have hlifted : Expression.unliftCall rules n₃
        (.member n₂ (.identifier n₁ rules.typeName) target) (Expression.unliftAll rules arguments) =
        .call n₃ (.member n₃ (.identifier n₃ scope) method)
          (Expression.unliftAll rules arguments) := by
      rw [unliftCall_scoped, if_pos rfl, hsource]
    have hplain : Expression.unliftCall rules n (.member m (.identifier k scope) method)
        (Expression.unliftAll rules arguments) =
        .call n (.member m (.identifier k scope) method)
          (Expression.unliftAll rules arguments) := by
      rw [unliftCall_scoped, if_neg hscope]
    simp only [Expression.unlift, hlifted, hplain]
    rfl
  | @binary n n₁ n₂ n₃ n₄ op left right left' right' method hmethod _ _ ihleft ihright =>
    have hop := Rules.operatorOf?_of_method? hrules hmethod
    have hlifted : Expression.unliftCall rules n₄ (.member n₃ (.construct n₂
        (.identifier n₁ rules.typeName) [left'.unlift rules]) method) [right'.unlift rules] =
        .binary n₄ op (left'.unlift rules) (right'.unlift rules) := by
      simp only [Expression.unliftCall, Expression.arithmetic?, Expression.methodCall?,
        Expression.wrapped?, Expression.name?, if_true, Option.map_some, Option.bind_some, hop]
    simp only [Expression.unlift, Expression.unliftAll, hlifted,
      Expression.relabel, ihleft, ihright]
    rfl

namespace Walk

mutual

/-- Undoing what a walk returns gives what undoing the expression gives. -/
theorem Walks.unlift {config : Config} (hrules : config.rules.Invertible) {held : Bool}
    {e e' : Expression} : Walks config held e e' →
      (e'.unlift config.rules).relabel .erase = (e.unlift config.rules).relabel .erase
  | .mk (.rests _) hinto => hinto.unlift hrules
  | .mk (.lifted h _) hinto => (hinto.unlift hrules).trans (h.unlift hrules)

theorem Descends.unlift {config : Config} (hrules : config.rules.Invertible) {e e' : Expression} :
    Descends config e e' →
      (e'.unlift config.rules).relabel .erase = (e.unlift config.rules).relabel .erase
  | .number | .string | .boolean | .null | .identifier => rfl
  | .binary hleft hright => by
    have hleft := hleft.unlift hrules
    have hright := hright.unlift hrules
    simp only [Expression.unlift, Expression.relabel, hleft, hright]
  | .unary h => by
    have h := h.unlift hrules
    simp only [Expression.unlift, Expression.relabel, h]
  | .call hcallee harguments => by
    have hcallee := hcallee.unlift hrules
    have harguments := harguments.unlift hrules
    simp only [Expression.unlift, Expression.unliftCall_relabel, hcallee,
      harguments]
  | .construct hcallee harguments => by
    have hcallee := hcallee.unlift hrules
    have harguments := harguments.unlift hrules
    simp only [Expression.unlift, Expression.relabel, hcallee, harguments]
  | .member h => by
    have h := h.unlift hrules
    simp only [Expression.unlift, Expression.relabel, h]
  | .index hobject hposition => by
    have hobject := hobject.unlift hrules
    have hposition := hposition.unlift hrules
    simp only [Expression.unlift, Expression.relabel, hobject, hposition]
  | .conditional hcondition hyes hno => by
    have hcondition := hcondition.unlift hrules
    have hyes := hyes.unlift hrules
    have hno := hno.unlift hrules
    simp only [Expression.unlift, Expression.relabel, hcondition, hyes, hno]
  | .array h => by
    have h := h.unlift hrules
    simp only [Expression.unlift, Expression.relabel, h]

theorem WalksAll.unlift {config : Config} (hrules : config.rules.Invertible) {held : Bool}
    {es es' : List Expression} : WalksAll config held es es' →
      Expression.relabelAll .erase (Expression.unliftAll config.rules es') =
        Expression.relabelAll .erase (Expression.unliftAll config.rules es)
  | .nil => rfl
  | .cons h hes => by
    have h := h.unlift hrules
    have hes := hes.unlift hrules
    simp only [Expression.unliftAll, Expression.relabelAll, h, hes]

end

/-! ## Statements and programs -/

section

variable {config : Config} {f : Expression → Expression}

theorem WalksOption.map_relabel {held : Bool} {e e' : Option Expression}
    (hf : ∀ {held e e'}, Walks config held e e' → (f e').relabel .erase = (f e).relabel .erase)
    (h : WalksOption config held e e') :
    (e'.map f).map (Expression.relabel .erase) = (e.map f).map (Expression.relabel .erase) := by
  cases h with
  | none => rfl
  | some h => exact congrArg Option.some (hf h)

theorem WalksDeclarators.map_relabel {ds ds' : List Declarator}
    (hf : ∀ {held e e'}, Walks config held e e' → (f e').relabel .erase = (f e).relabel .erase)
    (h : WalksDeclarators config ds ds') :
    (ds'.map fun d => { d with initial := d.initial.map f }).map (Declarator.relabel .erase) =
      (ds.map fun d => { d with initial := d.initial.map f }).map (Declarator.relabel .erase) := by
  induction h with
  | nil => rfl
  | cons h _ ih =>
    simp only [List.map_cons, Declarator.relabel, h.map_relabel hf, ih]

mutual

/-- A change of expressions that walks do not show in does not show in statements either. -/
theorem WalksStatement.mapExpressions
    (hf : ∀ {held e e'}, Walks config held e e' → (f e').relabel .erase = (f e).relabel .erase)
    {st st' : Statement} : WalksStatement config st st' →
      (st'.mapExpressions f).relabel .erase = (st.mapExpressions f).relabel .erase
  | .imports | .empty => rfl
  | .declared h => by
    simp only [Statement.mapExpressions, Statement.relabel, h.map_relabel hf]
  | .function h => by
    simp only [Statement.mapExpressions, Statement.relabel, h.mapExpressions hf]
  | .exports h => by
    simp only [Statement.mapExpressions, Statement.relabel, h.mapExpressions hf]
  | .expression h => by
    simp only [Statement.mapExpressions, Statement.relabel, hf h]
  | .returns h => by
    simp only [Statement.mapExpressions, Statement.relabel, h.map_relabel hf]
  | .branch hcondition hyes hno => by
    simp only [Statement.mapExpressions, Statement.relabel, hf hcondition,
      hyes.mapExpressions hf, hno.mapExpressions hf]
  | .whileLoop hcondition hbody => by
    simp only [Statement.mapExpressions, Statement.relabel, hf hcondition,
      hbody.mapExpressions hf]
  | .forLoop hstart hcondition hupdate hbody => by
    simp only [Statement.mapExpressions, Statement.relabel, hstart.mapExpressions hf,
      hcondition.map_relabel hf, hupdate.map_relabel hf, hbody.mapExpressions hf]
  | .block h => by
    simp only [Statement.mapExpressions, Statement.relabel, h.mapExpressions hf]

theorem WalksStatement?.mapExpressions
    (hf : ∀ {held e e'}, Walks config held e e' → (f e').relabel .erase = (f e).relabel .erase)
    {st st' : Option Statement} : WalksStatement? config st st' →
      Statement.relabelOption .erase (Statement.mapExpressionsOption f st') =
        Statement.relabelOption .erase (Statement.mapExpressionsOption f st)
  | .none => rfl
  | .some h => congrArg some (h.mapExpressions hf)

theorem WalksStatements.mapExpressions
    (hf : ∀ {held e e'}, Walks config held e e' → (f e').relabel .erase = (f e).relabel .erase)
    {ss ss' : List Statement} : WalksStatements config ss ss' →
      Statement.relabelAll .erase (Statement.mapExpressionsAll f ss') =
        Statement.relabelAll .erase (Statement.mapExpressionsAll f ss)
  | .nil => rfl
  | .cons h hss => by
    simp only [Statement.mapExpressionsAll, Statement.relabelAll, h.mapExpressions hf,
      hss.mapExpressions hf]

end

end

/-- **A walk can be undone.** Whatever it lifted, dropped or left alone under either policy,
replacing every lifted call by what it was lifted from gives the program back up to ids and spans.
There may be two rules for one operator or one call: the second one is never used. -/
theorem unlift_program {config : Config} (hrules : config.rules.Invertible) {p p' : Program}
    (hfree : p.AllExpressions fun e => e.name? ≠ some config.rules.typeName) {s s' : WalkState}
    (h : program config p s = .ok p' s') : (p'.unlift config.rules).erase = p.erase := by
  obtain ⟨ss, hwalks, rfl⟩ := walksProgram_of_ok h
  have hsame : Statement.relabelAll .erase
      (Statement.mapExpressionsAll (Expression.unlift config.rules) ss) =
      Statement.relabelAll .erase
        (Statement.mapExpressionsAll (Expression.unlift config.rules) p.statements) :=
    hwalks.mapExpressions fun h => h.unlift hrules
  have hself : Statement.mapExpressionsAll (Expression.unlift config.rules) p.statements =
      p.statements :=
    Statement.mapExpressionsAll_eq_self
      (hfree.mono fun _ hs e he => Expression.unlift_of_free (hs e he))
  simp only [Program.unlift, Program.mapExpressions, Program.erase, Program.relabel, hsame, hself]

/-- `const x = 1 + Math.sin(2 * 3);` with arithmetic behind it that cannot be lifted. -/
def sine : Program :=
  ⟨.blank, "m.ts",
    [.variable .blank .constWord [⟨.blank, "x", none, some (.binary .blank .add (.number .blank "1")
      (.call .blank (.member .blank (.identifier .blank "Math") "sin")
        [.binary .blank .mul (.number .blank "2") (.number .blank "3")]))⟩],
      .expression .blank (.binary .blank .sub (.identifier .blank "y") (.number .blank "1"))], 0⟩

theorem unlift_program_sine :
    Config.standard.rules.Invertible ∧
    (sine.AllExpressions fun e => e.name? ≠ some Config.standard.rules.typeName) ∧
    ∃ p' s', program Config.standard sine (.start 0) = .ok p' s' ∧
      (p'.unlift Config.standard.rules).erase = sine.erase := by
  have hrules : Config.standard.rules.Invertible := ⟨by decide, by decide, by decide⟩
  have hfree : sine.AllExpressions
      fun e => e.name? ≠ some Config.standard.rules.typeName := by
    decide
  -- under this policy every walk succeeds
  obtain ⟨p', s', hstep⟩ := together_program Rules.standard sine (.start 0)
  have h : program Config.standard sine (.start 0) = .ok p' s' := hstep.runs
  exact ⟨hrules, hfree, p', s', h, unlift_program hrules hfree h⟩

end Walk

end

end DecimalLift
