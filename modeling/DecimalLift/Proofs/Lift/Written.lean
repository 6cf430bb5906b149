import DecimalLift.Proofs.Layout.Statement
import DecimalLift.Proofs.Lift.Stable

/-!
# Walks keep what can be written

* `Rules.Written` — the names that lifting puts into a program can be written; of rules that pass
  the check, `written_iff_of_check` says that they can unless one of them is a keyword.
* `Walk.WalksStatements.written` — the walk of statements that can be written returns statements
  that can be written.
-/

set_option autoImplicit false

namespace DecimalLift

/-! ## Names of the rules -/

/-- The names that lifting puts into a program that can be written can be written too. -/
structure Rules.Written (rules : Rules) : Prop where
  typeName : WrittenName rules.typeName
  method : ∀ {op : BinaryOp} {method : String}, rules.method? op = some method → WrittenName method
  target : ∀ {scope method target : String}, WrittenName scope → WrittenName method →
    rules.target? scope method = some target → WrittenName target

/-- None of the names that the rules give is a keyword. -/
structure Rules.AvoidsKeywords (rules : Rules) : Prop where
  typeName : Keyword.ofText? rules.typeName = none
  methods : ∀ r ∈ rules.operators, Keyword.ofText? r.method = none
  targets : ∀ c ∈ rules.calls, Keyword.ofText? c.target = none

/-- None of the names that lifting puts into a program is a keyword. Of several rules for one call
only the first one counts, and a rule for a call that is spelt with a keyword never does. -/
structure Rules.WritesNoKeyword (rules : Rules) : Prop where
  typeName : Keyword.ofText? rules.typeName = none
  methods : ∀ op method, rules.method? op = some method → Keyword.ofText? method = none
  targets : ∀ scope method target, Keyword.ofText? scope = none → Keyword.ofText? method = none →
    rules.target? scope method = some target → Keyword.ofText? target = none

namespace Rules

variable {rules : Rules}

theorem exists_of_method? {op : BinaryOp} {method : String} (h : rules.method? op = some method) :
    ∃ r ∈ rules.operators, r.method = method := by
  obtain ⟨arithmetic, -, hrule⟩ := Option.bind_eq_some_iff.1 h
  obtain ⟨rule, hfind, rfl⟩ := Option.map_eq_some_iff.1 hrule
  exact ⟨rule, List.mem_of_find?_eq_some hfind, rfl⟩

theorem exists_of_target? {scope method target : String}
    (h : rules.target? scope method = some target) : ⟨scope, method, target⟩ ∈ rules.calls := by
  obtain ⟨rule, hfind, rfl⟩ := Option.map_eq_some_iff.1 h
  have hrule := List.find?_some hfind
  simp only [Bool.and_eq_true, beq_iff_eq] at hrule
  obtain ⟨rfl, rfl⟩ := hrule
  exact List.mem_of_find?_eq_some hfind

theorem AvoidsKeywords.writesNoKeyword (h : rules.AvoidsKeywords) : rules.WritesNoKeyword where
  typeName := h.typeName
  methods := by
    intro op method hmethod
    obtain ⟨rule, hrule, rfl⟩ := exists_of_method? hmethod
    exact h.methods rule hrule
  targets := fun _ _ _ _ _ htarget => h.targets _ (exists_of_target? htarget)

theorem isName_of_checkOperators : ∀ {ops : List OperatorRule} {seen : List ArithmeticOp},
    checkOperators seen ops = .ok () → ∀ r ∈ ops, Text.isName r.method = true
  | [], _, _, _, hr => nomatch hr
  | rule :: rest, seen, h, r, hr => by
    unfold checkOperators at h
    split at h
    · cases h
    · rename_i hname
      split at h
      · cases h
      · rcases List.mem_cons.1 hr with rfl | hr
        · simpa using hname
        · exact isName_of_checkOperators h r hr

theorem isName_of_checkCalls : ∀ {calls : List CallRule}, checkCalls calls = .ok () →
    ∀ c ∈ calls, ∀ name ∈ [c.scope, c.method, c.target], Text.isName name = true
  | [], _, _, hc => nomatch hc
  | rule :: rest, h, c, hc => by
    unfold checkCalls at h
    split at h
    · cases h
    · rename_i hnames
      rcases List.mem_cons.1 hc with rfl | hc
      · intro name hname
        simpa using List.find?_eq_none.1 hnames name hname
      · exact isName_of_checkCalls h c hc

/-- What the check asks of the names. -/
theorem isName_of_check (h : rules.check = .ok ()) :
    Text.isName rules.typeName = true ∧ (∀ r ∈ rules.operators, Text.isName r.method = true) ∧
      ∀ c ∈ rules.calls, ∀ name ∈ [c.scope, c.method, c.target], Text.isName name = true := by
  -- the stages of the check in order: the type's name, the module, the operators, the calls
  unfold check at h
  cases hname : Text.isName rules.typeName with
  | false =>
    rw [hname] at h
    cases h
  | true =>
    rw [hname] at h
    cases hmodule : rules.moduleName.isEmpty with
    | true =>
      rw [hmodule] at h
      cases h
    | false =>
      rw [hmodule] at h
      replace h : (checkOperators [] rules.operators >>= fun _ => checkCalls rules.calls) =
        .ok () := h
      cases hoperators : checkOperators [] rules.operators with
      | error e =>
        rw [hoperators] at h
        cases h
      | ok =>
        rw [hoperators] at h
        exact ⟨rfl, isName_of_checkOperators hoperators, isName_of_checkCalls h⟩

/-- **Rules that pass the check** have names that can be written, unless one of them is a
keyword. -/
theorem written_iff_of_check (h : rules.check = .ok ()) :
    rules.Written ↔ rules.WritesNoKeyword := by
  obtain ⟨htype, hoperators, hcalls⟩ := isName_of_check h
  constructor
  · intro hwritten
    refine ⟨hwritten.typeName.2, fun op method hmethod => (hwritten.method hmethod).2, ?_⟩
    intro scope method target hscope hmethod htarget
    have hnames := hcalls _ (exists_of_target? htarget)
    exact (hwritten.target ⟨hnames scope (by simp), hscope⟩ ⟨hnames method (by simp), hmethod⟩
      htarget).2
  · intro hwords
    refine ⟨⟨htype, hwords.typeName⟩, ?_, ?_⟩
    · intro op method hmethod
      obtain ⟨rule, hrule, rfl⟩ := exists_of_method? hmethod
      exact ⟨hoperators rule hrule, hwords.methods op _ hmethod⟩
    · intro scope method target hscope hmethod htarget
      have hnames := hcalls _ (exists_of_target? htarget)
      exact ⟨hnames target (by simp), hwords.targets _ _ _ hscope.2 hmethod.2 htarget⟩

/-- Rules that pass the check and avoid keywords have names that can be written. -/
theorem written_of_check (h : rules.check = .ok ()) (hwords : rules.AvoidsKeywords) :
    rules.Written :=
  (written_iff_of_check h).2 hwords.writesNoKeyword

theorem Written.targetOf (h : rules.Written) {callee : Expression} {target : String}
    (hcallee : callee.All Expression.Written) (htarget : rules.targetOf? callee = some target) :
    WrittenName target := by
  obtain ⟨n, m, scope, method, rfl, htarget⟩ := exists_of_targetOf? htarget
  exact h.target hcallee.2 hcallee.1 htarget

end Rules

/-! ## Walks keep what can be written -/

theorem Lifts.written {rules : Rules} (hrules : rules.Written) {e r : Expression}
    (h : Lifts rules e r) : e.All Expression.Written → r.All Expression.Written := by
  induction h with
  | number | call_kept => exact id
  | call htarget =>
    intro he
    exact ⟨trivial, ⟨hrules.targetOf he.2.1 htarget, hrules.typeName⟩, he.2.2⟩
  | binary hmethod _ _ ihleft ihright =>
    intro he
    -- the callee is a method of `new T(left)`, and the right operand is its only argument
    exact ⟨trivial, ⟨hrules.method hmethod, trivial, hrules.typeName, ihleft he.2.1, trivial⟩,
      ihright he.2.2, trivial⟩

namespace Walk

variable {config : Config}

theorem Descends.isAssignable {e e' : Expression} (h : Descends config e e') :
    e'.isAssignable = e.isAssignable := by
  cases h <;> rfl

theorem Descends.isTrailing {e e' : Expression} (h : Descends config e e') :
    e'.isTrailing = e.isTrailing := by
  cases h <;> rfl

mutual

/-- **A walk keeps what can be written.** -/
theorem Walks.written (hrules : config.rules.Written) {held : Bool} {e e' : Expression} :
    Walks config held e e' → e.All Expression.Written → e'.All Expression.Written
  | .mk (.rests _) hinto, he => hinto.written hrules he
  | .mk (.lifted h _) hinto, he => hinto.written hrules (h.written hrules he)

theorem Descends.written (hrules : config.rules.Written) {e e' : Expression} :
    Descends config e e' → e.All Expression.Written → e'.All Expression.Written
  | .number, he | .string, he | .boolean, he | .null, he | .identifier, he => he
  -- The target of an assignment and the operand of a trailing operator stand in no slot, so that
  -- they are walked into but never replaced.
  | .binary hleft hright, he =>
    ⟨fun hop => hleft.descends.2.isAssignable.trans (he.1 hop), hleft.written hrules he.2.1,
      hright.written hrules he.2.2⟩
  | .unary h, he =>
    ⟨fun hop => h.descends.2.isTrailing.trans (he.1 hop), h.written hrules he.2⟩
  | .call hcallee harguments, he =>
    ⟨trivial, hcallee.written hrules he.2.1, harguments.written hrules he.2.2⟩
  | .construct hcallee harguments, he =>
    ⟨trivial, hcallee.written hrules he.2.1, harguments.written hrules he.2.2⟩
  | .member h, he => ⟨he.1, h.written hrules he.2⟩
  | .index hobject hposition, he =>
    ⟨trivial, hobject.written hrules he.2.1, hposition.written hrules he.2.2⟩
  | .conditional hcondition hyes hno, he =>
    ⟨trivial, hcondition.written hrules he.2.1, hyes.written hrules he.2.2.1,
      hno.written hrules he.2.2.2⟩
  | .array h, he => ⟨trivial, h.written hrules he.2⟩

theorem WalksAll.written (hrules : config.rules.Written) {held : Bool}
    {es es' : List Expression} : WalksAll config held es es' →
      Expression.AllOf Expression.Written es → Expression.AllOf Expression.Written es'
  | .nil, _ => trivial
  | .cons h hes, hwritten => ⟨h.written hrules hwritten.1, hes.written hrules hwritten.2⟩

end

/-- A walk keeps how many variables are declared, their names and their ascriptions. -/
theorem WalksDeclarators.names {ds ds' : List Declarator} (h : WalksDeclarators config ds ds') :
    ds'.map (fun d => (d.name, d.ascription)) = ds.map (fun d => (d.name, d.ascription)) := by
  induction h with
  | nil => rfl
  | cons _ _ ih => simp only [List.map_cons, ih]

theorem WalksStatement.isDeclaration {st st' : Statement} (h : WalksStatement config st st') :
    st'.isDeclaration = st.isDeclaration := by
  cases h <;> rfl

theorem WalksStatement.isStart {st st' : Statement} (h : WalksStatement config st st') :
    st'.isStart = st.isStart := by
  cases h <;> rfl

theorem WalksStatement.isOpen : ∀ {st st' : Statement}, WalksStatement config st st' →
    st'.isOpen = st.isOpen
  | .branch .., _, .branch _ _ .none => rfl
  | .branch _ _ _ (some _), _, .branch _ _ (.some hno) => hno.isOpen
  | .whileLoop .., _, .whileLoop _ hbody => hbody.isOpen
  | .forLoop .., _, .forLoop _ _ _ hbody => hbody.isOpen
  | .imports .., _, .imports => rfl
  | .variable .., _, .declared _ => rfl
  | .function .., _, .function _ => rfl
  | .exports .., _, .exports _ => rfl
  | .expression .., _, .expression _ => rfl
  | .returns .., _, .returns _ => rfl
  | .block .., _, .block _ => rfl
  | .empty .., _, .empty => rfl

theorem WalksStatement.shaped {st st' : Statement} (h : WalksStatement config st st')
    (hst : st.Shaped) : st'.Shaped := by
  cases h with
  | imports | function | expression | returns | whileLoop | block | empty => exact hst
  | @declared n word ds ds' h =>
    have hnames := h.names
    obtain ⟨hne, hds⟩ := hst
    constructor
    · rintro rfl
      exact hne (List.map_eq_nil_iff.1 hnames.symm)
    · intro d hd
      have hmem : (d.name, d.ascription) ∈ ds.map (fun d => (d.name, d.ascription)) :=
        hnames ▸ List.mem_map.2 ⟨d, hd, rfl⟩
      obtain ⟨d', hd', heq⟩ := List.mem_map.1 hmem
      obtain ⟨hname, htype⟩ := Prod.mk.inj heq
      exact hname ▸ htype ▸ hds d' hd'
  | exports h => exact h.isDeclaration.trans hst
  | branch _ hyes hno =>
    intro helse
    refine hyes.isOpen.trans (hst ?_)
    cases hno with
    | none => cases helse
    | some _ => rfl
  | forLoop hstart =>
    cases hstart with
    | none => exact hst
    | some h =>
      rintro first ⟨⟩
      exact h.isStart.trans (hst _ rfl)

/-- **A walk of statements keeps what can be written.** -/
theorem WalksStatements.written (hrules : config.rules.Written) {ss ss' : List Statement}
    (h : WalksStatements config ss ss') (hss : Statement.AllOf Statement.Written ss) :
    Statement.AllOf Statement.Written ss' := by
  refine h.allOf (fun {st st'} hst hwritten => ⟨hst.shaped hwritten.1, fun x' hx' => ?_⟩) hss
  obtain ⟨x, hx, hwalks⟩ := hst.exists_of_mem_own hx'
  exact hwalks.written hrules (hwritten.2 x hx)

end Walk

end DecimalLift
