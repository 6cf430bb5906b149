import DecimalLift.Proofs.Lift.Walks
import DecimalLift.Proofs.Tree.Statement

/-!
# What a walk does to statements

* `WalksStatement`, `WalksStatements` — what the walk of statements returns.
* `walksProgram_of_ok` — the walk of a program returns nothing else.
* `WalksStatement.exists_of_mem_own` — each expression of a walked statement is the walk of one that
  stood there.
* `WalksStatements.allOf` — what one walked statement has from the one it was, a whole tree has.
-/

set_option autoImplicit false

namespace DecimalLift

/-- The initial values of variables stand in slots, all other expressions do not. -/
def Statement.holds : Statement → Bool
  | .variable .. => true
  | _ => false

namespace Walk

variable {config : Config}

/-- An expression that may be missing. -/
inductive WalksOption (config : Config) (held : Bool) :
    Option Expression → Option Expression → Prop
  | none : WalksOption config held none none
  | some {e e' : Expression} (h : Walks config held e e') :
      WalksOption config held (some e) (some e')

/-- The initial values of variables stand in slots. -/
inductive WalksDeclarators (config : Config) : List Declarator → List Declarator → Prop
  | nil : WalksDeclarators config [] []
  | cons {d : Declarator} {initial : Option Expression} {ds ds' : List Declarator}
      (h : WalksOption config true d.initial initial) (hds : WalksDeclarators config ds ds') :
      WalksDeclarators config (d :: ds) ({ d with initial := initial } :: ds')

mutual

/-- What the walk of a statement returns. -/
inductive WalksStatement (config : Config) : Statement → Statement → Prop
  | imports {n : Node} {d : ImportDeclaration} :
      WalksStatement config (.imports n d) (.imports n d)
  | declared {n : Node} {word : DeclarationWord} {ds ds' : List Declarator}
      (h : WalksDeclarators config ds ds') :
      WalksStatement config (.variable n word ds) (.variable n word ds')
  | function {n : Node} {name : String} {ps : List Parameter} {result : Option String}
      {body body' : List Statement} (h : WalksStatements config body body') :
      WalksStatement config (.function n name ps result body) (.function n name ps result body')
  | exports {n : Node} {inner inner' : Statement} (h : WalksStatement config inner inner') :
      WalksStatement config (.exports n inner) (.exports n inner')
  | expression {n : Node} {e e' : Expression} (h : Walks config false e e') :
      WalksStatement config (.expression n e) (.expression n e')
  | returns {n : Node} {value value' : Option Expression}
      (h : WalksOption config false value value') :
      WalksStatement config (.returns n value) (.returns n value')
  | branch {n : Node} {condition condition' : Expression} {yes yes' : Statement}
      {no no' : Option Statement} (hcondition : Walks config false condition condition')
      (hyes : WalksStatement config yes yes') (hno : WalksStatement? config no no') :
      WalksStatement config (.branch n condition yes no) (.branch n condition' yes' no')
  | whileLoop {n : Node} {condition condition' : Expression} {body body' : Statement}
      (hcondition : Walks config false condition condition')
      (hbody : WalksStatement config body body') :
      WalksStatement config (.whileLoop n condition body) (.whileLoop n condition' body')
  | forLoop {n : Node} {start start' : Option Statement}
      {condition condition' update update' : Option Expression} {body body' : Statement}
      (hstart : WalksStatement? config start start')
      (hcondition : WalksOption config false condition condition')
      (hupdate : WalksOption config false update update')
      (hbody : WalksStatement config body body') :
      WalksStatement config (.forLoop n start condition update body)
        (.forLoop n start' condition' update' body')
  | block {n : Node} {ss ss' : List Statement} (h : WalksStatements config ss ss') :
      WalksStatement config (.block n ss) (.block n ss')
  | empty {n : Node} : WalksStatement config (.empty n) (.empty n)

inductive WalksStatement? (config : Config) : Option Statement → Option Statement → Prop
  | none : WalksStatement? config none none
  | some {s s' : Statement} (h : WalksStatement config s s') :
      WalksStatement? config (some s) (some s')

inductive WalksStatements (config : Config) : List Statement → List Statement → Prop
  | nil : WalksStatements config [] []
  | cons {s s' : Statement} {ss ss' : List Statement} (h : WalksStatement config s s')
      (hss : WalksStatements config ss ss') : WalksStatements config (s :: ss) (s' :: ss')

end

theorem walksOption_of_ok {e e' : Option Expression} {s s' : WalkState}
    (h : expression? config e s = .ok e' s') : WalksOption config false e e' := by
  cases e with
  | none =>
    cases h
    exact .none
  | some e =>
    obtain ⟨e', s₁, he, h⟩ := bind_eq_ok.1 h
    cases h
    exact .some (walks_of_ok he)

theorem walksDeclarators_of_ok : ∀ {ds ds' : List Declarator} {s s' : WalkState},
    declarators config ds s = .ok ds' s' → WalksDeclarators config ds ds'
  | [], _, _, _, h => by
    cases h
    exact .nil
  | d :: ds, _, _, _, h => by
    obtain ⟨d', s₁, hd, h⟩ := bind_eq_ok.1 h
    obtain ⟨ds', s₂, hds, h⟩ := bind_eq_ok.1 h
    cases h
    obtain ⟨n, name, type, initial⟩ := d
    cases initial with
    | none =>
      cases hd
      exact .cons .none (walksDeclarators_of_ok hds)
    | some e =>
      obtain ⟨e', s₃, he, hd⟩ := bind_eq_ok.1 hd
      cases hd
      exact .cons (.some (walks_of_ok he)) (walksDeclarators_of_ok hds)

mutual

/-- **What the walk of a statement returns is related to it.** -/
theorem walksStatement_of_ok : ∀ {st st' : Statement} {s s' : WalkState},
    statement config st s = .ok st' s' → WalksStatement config st st'
  | .imports .., _, _, _, h => by
    rw [statement] at h
    cases h
    exact .imports
  | .variable .., _, _, _, h => by
    rw [statement] at h
    obtain ⟨ds', s₁, hds, h⟩ := bind_eq_ok.1 h
    cases h
    exact .declared (walksDeclarators_of_ok hds)
  | .function .., _, _, _, h => by
    rw [statement] at h
    obtain ⟨body', s₁, hbody, h⟩ := bind_eq_ok.1 h
    cases h
    exact .function (walksStatements_of_ok hbody)
  | .exports .., _, _, _, h => by
    rw [statement] at h
    obtain ⟨inner', s₁, hinner, h⟩ := bind_eq_ok.1 h
    cases h
    exact .exports (walksStatement_of_ok hinner)
  | .expression .., _, _, _, h => by
    rw [statement] at h
    obtain ⟨e', s₁, he, h⟩ := bind_eq_ok.1 h
    cases h
    exact .expression (walks_of_ok he)
  | .returns .., _, _, _, h => by
    rw [statement] at h
    obtain ⟨value', s₁, hvalue, h⟩ := bind_eq_ok.1 h
    cases h
    exact .returns (walksOption_of_ok hvalue)
  | .branch .., _, _, _, h => by
    rw [statement] at h
    obtain ⟨condition', s₁, hcondition, h⟩ := bind_eq_ok.1 h
    obtain ⟨yes', s₂, hyes, h⟩ := bind_eq_ok.1 h
    obtain ⟨no', s₃, hno, h⟩ := bind_eq_ok.1 h
    cases h
    exact .branch (walks_of_ok hcondition) (walksStatement_of_ok hyes) (walksStatement?_of_ok hno)
  | .whileLoop .., _, _, _, h => by
    rw [statement] at h
    obtain ⟨condition', s₁, hcondition, h⟩ := bind_eq_ok.1 h
    obtain ⟨body', s₂, hbody, h⟩ := bind_eq_ok.1 h
    cases h
    exact .whileLoop (walks_of_ok hcondition) (walksStatement_of_ok hbody)
  | .forLoop .., _, _, _, h => by
    rw [statement] at h
    obtain ⟨start', s₁, hstart, h⟩ := bind_eq_ok.1 h
    obtain ⟨condition', s₂, hcondition, h⟩ := bind_eq_ok.1 h
    obtain ⟨update', s₃, hupdate, h⟩ := bind_eq_ok.1 h
    obtain ⟨body', s₄, hbody, h⟩ := bind_eq_ok.1 h
    cases h
    exact .forLoop (walksStatement?_of_ok hstart) (walksOption_of_ok hcondition)
      (walksOption_of_ok hupdate) (walksStatement_of_ok hbody)
  | .block .., _, _, _, h => by
    rw [statement] at h
    obtain ⟨ss', s₁, hss, h⟩ := bind_eq_ok.1 h
    cases h
    exact .block (walksStatements_of_ok hss)
  | .empty .., _, _, _, h => by
    rw [statement] at h
    cases h
    exact .empty

theorem walksStatement?_of_ok : ∀ {st st' : Option Statement} {s s' : WalkState},
    statement? config st s = .ok st' s' → WalksStatement? config st st'
  | none, _, _, _, h => by
    rw [statement?] at h
    cases h
    exact .none
  | some st, _, _, _, h => by
    rw [statement?] at h
    obtain ⟨st', s₁, hst, h⟩ := bind_eq_ok.1 h
    cases h
    exact .some (walksStatement_of_ok hst)

theorem walksStatements_of_ok : ∀ {ss ss' : List Statement} {s s' : WalkState},
    statements config ss s = .ok ss' s' → WalksStatements config ss ss'
  | [], _, _, _, h => by
    rw [statements] at h
    cases h
    exact .nil
  | st :: ss, _, _, _, h => by
    rw [statements] at h
    obtain ⟨st', s₁, hst, h⟩ := bind_eq_ok.1 h
    obtain ⟨ss', s₂, hss, h⟩ := bind_eq_ok.1 h
    cases h
    exact .cons (walksStatement_of_ok hst) (walksStatements_of_ok hss)

end

/-- **What the walk of a program returns**: its statements are walked, and nothing else changes. -/
theorem walksProgram_of_ok {p p' : Program} {s s' : WalkState}
    (h : program config p s = .ok p' s') :
    ∃ ss, WalksStatements config p.statements ss ∧ p' = { p with statements := ss } := by
  obtain ⟨ss, s₁, hss, h⟩ := bind_eq_ok.1 h
  cases h
  exact ⟨ss, walksStatements_of_ok hss, rfl⟩

/-! ## From one statement to a tree -/

theorem WalksOption.exists_of_mem {held : Bool} {e e' : Option Expression} {x' : Expression}
    (h : WalksOption config held e e') (hx : x' ∈ e'.toList) :
    ∃ x ∈ e.toList, Walks config held x x' := by
  cases h with
  | none => cases hx
  | some h =>
    obtain rfl := List.mem_singleton.1 hx
    exact ⟨_, List.mem_cons_self, h⟩

theorem WalksDeclarators.exists_of_mem {ds ds' : List Declarator} {x' : Expression}
    (h : WalksDeclarators config ds ds') (hx : x' ∈ ds'.filterMap (·.initial)) :
    ∃ x ∈ ds.filterMap (·.initial), Walks config true x x' := by
  induction h with
  | nil => cases hx
  | @cons d initial ds ds' h _ ih =>
    obtain ⟨d', hd', hx'⟩ := List.mem_filterMap.1 hx
    rcases List.mem_cons.1 hd' with rfl | hd'
    · obtain ⟨x, hx, hwalks⟩ := h.exists_of_mem (Option.mem_toList.2 hx')
      exact ⟨x, List.mem_filterMap.2 ⟨d, List.mem_cons_self, Option.mem_toList.1 hx⟩, hwalks⟩
    · obtain ⟨x, hx, hwalks⟩ := ih (List.mem_filterMap.2 ⟨d', hd', hx'⟩)
      obtain ⟨d₀, hd₀, hinitial⟩ := List.mem_filterMap.1 hx
      exact ⟨x, List.mem_filterMap.2 ⟨d₀, List.mem_cons_of_mem _ hd₀, hinitial⟩, hwalks⟩

theorem WalksStatement.holds {st st' : Statement} (h : WalksStatement config st st') :
    st'.holds = st.holds := by
  cases h <;> rfl

/-- Each expression of a walked statement is the walk of one that stood there. -/
theorem WalksStatement.exists_of_mem_own {st st' : Statement} {x' : Expression}
    (h : WalksStatement config st st') (hx : x' ∈ st'.own) :
    ∃ x ∈ st.own, Walks config st.holds x x' := by
  cases h with
  | imports | function | exports | block | empty => cases hx
  | declared h => exact h.exists_of_mem hx
  | expression h => exact (WalksOption.some h).exists_of_mem hx
  | returns h => exact h.exists_of_mem hx
  | branch hcondition _ _ => exact (WalksOption.some hcondition).exists_of_mem hx
  | whileLoop hcondition _ => exact (WalksOption.some hcondition).exists_of_mem hx
  | forLoop _ hcondition hupdate _ =>
    rcases List.mem_append.1 hx with hx | hx
    · obtain ⟨x, hx, hwalks⟩ := hcondition.exists_of_mem hx
      exact ⟨x, List.mem_append_left _ hx, hwalks⟩
    · obtain ⟨x, hx, hwalks⟩ := hupdate.exists_of_mem hx
      exact ⟨x, List.mem_append_right _ hx, hwalks⟩

mutual

theorem WalksStatement.all {P Q : Statement → Prop}
    (hstep : ∀ {st st' : Statement}, WalksStatement config st st' → P st → Q st')
    {st st' : Statement} : WalksStatement config st st' → st.All P → st'.All Q
  | .imports, hst => hstep .imports hst
  | .empty, hst => hstep .empty hst
  | .declared h, hst => hstep (.declared h) hst
  | .expression h, hst => hstep (.expression h) hst
  | .returns h, hst => hstep (.returns h) hst
  | .function h, hst => ⟨hstep (.function h) hst.1, h.allOf hstep hst.2⟩
  | .exports h, hst => ⟨hstep (.exports h) hst.1, h.all hstep hst.2⟩
  | .branch hcondition hyes hno, hst =>
    ⟨hstep (.branch hcondition hyes hno) hst.1, hyes.all hstep hst.2.1,
      hno.allOption hstep hst.2.2⟩
  | .whileLoop hcondition hbody, hst =>
    ⟨hstep (.whileLoop hcondition hbody) hst.1, hbody.all hstep hst.2⟩
  | .forLoop hstart hcondition hupdate hbody, hst =>
    ⟨hstep (.forLoop hstart hcondition hupdate hbody) hst.1, hstart.allOption hstep hst.2.1,
      hbody.all hstep hst.2.2⟩
  | .block h, hst => ⟨hstep (.block h) hst.1, h.allOf hstep hst.2⟩

theorem WalksStatement?.allOption {P Q : Statement → Prop}
    (hstep : ∀ {st st' : Statement}, WalksStatement config st st' → P st → Q st')
    {st st' : Option Statement} :
    WalksStatement? config st st' → Statement.AllOption P st → Statement.AllOption Q st'
  | .none, _ => trivial
  | .some h, hst => h.all hstep hst

/-- **What a walked statement has from the one it was, every statement of a walked tree has.** -/
theorem WalksStatements.allOf {P Q : Statement → Prop}
    (hstep : ∀ {st st' : Statement}, WalksStatement config st st' → P st → Q st')
    {ss ss' : List Statement} :
    WalksStatements config ss ss' → Statement.AllOf P ss → Statement.AllOf Q ss'
  | .nil, _ => trivial
  | .cons h hss, hst => ⟨h.all hstep hst.1, hss.allOf hstep hst.2⟩

end

end Walk

end DecimalLift
