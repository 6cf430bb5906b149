import DecimalLift.Proofs.Lift.Children
import DecimalLift.Proofs.Lift.Walks.Statement

/-!
# A walk leaves nothing for a second walk

* `Stable` — a walk leaves the expression and all its parts alone.
* `Walks.stable` — what a walk returns is stable, if no rule takes over calls of the decimal type.
* `expression_of_stable`, `statement_of_stable`, `program_of_stable` — a walk of what is stable
  succeeds, attaches nothing and changes nothing, whatever its state.
* `stable_relabel` — labels play no part in it.
-/

set_option autoImplicit false

namespace DecimalLift

variable {rules : Rules} {config : Config}

/-! ## Fates -/

theorem Rules.targetOf?_congr {callee callee' : Expression}
    (h : callee'.scopedMethod? = callee.scopedMethod?) :
    rules.targetOf? callee' = rules.targetOf? callee := by
  unfold targetOf?
  rw [h]

/-- Calls of the decimal type are not taken over, if no rule names it as a scope. -/
theorem Rules.targetOf?_typeName (hscopes : ∀ c ∈ rules.calls, c.scope ≠ rules.typeName)
    (n m : Node) (method : String) :
    rules.targetOf? (.member n (.identifier m rules.typeName) method) = none := by
  show rules.target? rules.typeName method = none
  unfold Rules.target?
  rw [Option.map_eq_none_iff, List.find?_eq_none]
  intro c hc
  simp [hscopes c hc]

namespace Expression

theorem liftable_relabel (rules : Rules) (c : Relabel) :
    ∀ e : Expression, (e.relabel c).liftable rules = e.liftable rules
  | .binary _ op left right => by
    simp only [relabel, liftable, liftable_relabel rules c left, liftable_relabel rules c right]
  | .number .. | .string .. | .boolean .. | .null .. | .identifier .. | .unary .. | .call ..
  | .construct .. | .member .. | .index .. | .conditional .. | .array .. => by
    simp only [relabel, liftable]

theorem fate_relabel (rules : Rules) (c : Relabel) (e : Expression) :
    (e.relabel c).fate rules = e.fate rules := by
  cases e with
  | binary => simp only [relabel, fate, liftable_relabel]
  | call _ callee _ =>
    simp only [relabel, fate, Rules.targetOf?_congr (scopedMethod?_relabel c callee)]
  | _ => simp only [relabel, fate]

end Expression

theorem Rests.iff_of_fate {held : Bool} {e e' : Expression}
    (h : e'.fate config.rules = e.fate config.rules) :
    Rests config held e' ↔ Rests config held e := by
  constructor
  · rintro ⟨hdropped, hpassed⟩
    exact ⟨h ▸ hdropped, h ▸ hpassed⟩
  · rintro ⟨hdropped, hpassed⟩
    exact ⟨h.symm ▸ hdropped, h.symm ▸ hpassed⟩

theorem rests_of_kept {held : Bool} {e : Expression} (h : e.fate config.rules = .kept) :
    Rests config held e :=
  ⟨by simp [h], by simp [h]⟩

/-- What was lifted is not lifted again. -/
theorem Lifts.fate_eq_kept (hscopes : ∀ c ∈ rules.calls, c.scope ≠ rules.typeName)
    {e r : Expression} (h : Lifts rules e r) (hfate : e.fate rules = .replaced) :
    r.fate rules = .kept := by
  cases h with
  | number => cases hfate
  | call_kept htarget =>
    simp only [Expression.fate, htarget] at hfate
    cases hfate
  | call htarget =>
    simp only [Expression.fate, Rules.targetOf?_typeName hscopes]
    rfl
  | binary => rfl

namespace Walk

/-! ## What a walk keeps of an expression in no slot -/

theorem Walks.descends {e e' : Expression} (h : Walks config false e e') :
    Rests config false e ∧ Descends config e e' := by
  obtain ⟨hretains, hinto⟩ := h
  cases hretains with
  | rests h => exact ⟨h, hinto⟩

theorem Descends.name? {e e' : Expression} (h : Descends config e e') : e'.name? = e.name? := by
  cases h <;> rfl

theorem Descends.scopedMethod? {e e' : Expression} (h : Descends config e e') :
    e'.scopedMethod? = e.scopedMethod? := by
  cases h with
  | member h => simp only [Expression.scopedMethod?, h.descends.2.name?]
  | _ => rfl

theorem Descends.liftable : ∀ {e e' : Expression}, Descends config e e' →
    e'.liftable config.rules = e.liftable config.rules
  | .binary .., _, h => by
    cases h with
    | binary hleft hright =>
      have hleft := hleft.descends.2.liftable
      have hright := hright.descends.2.liftable
      simp only [Expression.liftable, hleft, hright]
  | .number .., _, h | .string .., _, h | .boolean .., _, h | .null .., _, h
  | .identifier .., _, h | .unary .., _, h | .call .., _, h | .construct .., _, h
  | .member .., _, h | .index .., _, h | .conditional .., _, h | .array .., _, h => by
    cases h
    rfl

/-- The rules do with what a walk returns what they do with what it kept. -/
theorem Descends.fate {e e' : Expression} (h : Descends config e e') :
    e'.fate config.rules = e.fate config.rules := by
  cases h with
  | binary hleft hright =>
    simp only [Expression.fate, hleft.descends.2.liftable, hright.descends.2.liftable]
  | call hcallee _ =>
    simp only [Expression.fate, Rules.targetOf?_congr hcallee.descends.2.scopedMethod?]
  | _ => rfl

/-! ## Stable expressions -/

mutual

/-- A walk leaves the expression and all its parts alone; `held` says whether it stands in a
slot. -/
def Stable (config : Config) : Bool → Expression → Prop
  | held, .binary n op left right =>
    Rests config held (.binary n op left right) ∧ Stable config false left ∧
      Stable config false right
  | held, .call n callee arguments =>
    Rests config held (.call n callee arguments) ∧ Stable config false callee ∧
      StableAll config true arguments
  | _, .unary _ _ operand => Stable config false operand
  | _, .construct _ callee arguments =>
    Stable config false callee ∧ StableAll config false arguments
  | _, .member _ object _ => Stable config false object
  | _, .index _ object position => Stable config false object ∧ Stable config false position
  | _, .conditional _ condition yes no =>
    Stable config false condition ∧ Stable config false yes ∧ Stable config false no
  | _, .array _ elements => StableAll config false elements
  | _, .number .. | _, .string .. | _, .boolean .. | _, .null .. | _, .identifier .. => True

def StableAll (config : Config) : Bool → List Expression → Prop
  | _, [] => True
  | held, e :: es => Stable config held e ∧ StableAll config held es

end

theorem Retains.rests_result (hscopes : ∀ c ∈ config.rules.calls, c.scope ≠ config.rules.typeName)
    {held : Bool} {e r : Expression} (h : Retains config held e r) : Rests config held r := by
  cases h with
  | rests h => exact h
  | lifted h hfate => exact rests_of_kept (h.fate_eq_kept hscopes hfate)

mutual

/-- **What a walk returns is stable.** -/
theorem Walks.stable (hscopes : ∀ c ∈ config.rules.calls, c.scope ≠ config.rules.typeName)
    {held : Bool} {e e' : Expression} : Walks config held e e' → Stable config held e'
  | .mk h hinto => hinto.stable hscopes ((Rests.iff_of_fate hinto.fate).2 (h.rests_result hscopes))

theorem Descends.stable (hscopes : ∀ c ∈ config.rules.calls, c.scope ≠ config.rules.typeName)
    {held : Bool} {r e' : Expression} :
    Descends config r e' → Rests config held e' → Stable config held e'
  | .number, _ | .string, _ | .boolean, _ | .null, _ | .identifier, _ => trivial
  | .binary hleft hright, hrests => ⟨hrests, hleft.stable hscopes, hright.stable hscopes⟩
  | .unary h, _ => h.stable hscopes
  | .call hcallee harguments, hrests =>
    ⟨hrests, hcallee.stable hscopes, harguments.stable hscopes⟩
  | .construct hcallee harguments, _ => ⟨hcallee.stable hscopes, harguments.stable hscopes⟩
  | .member h, _ => h.stable hscopes
  | .index hobject hposition, _ => ⟨hobject.stable hscopes, hposition.stable hscopes⟩
  | .conditional hcondition hyes hno, _ =>
    ⟨hcondition.stable hscopes, hyes.stable hscopes, hno.stable hscopes⟩
  | .array h, _ => h.stable hscopes

theorem WalksAll.stable (hscopes : ∀ c ∈ config.rules.calls, c.scope ≠ config.rules.typeName)
    {held : Bool} {es es' : List Expression} : WalksAll config held es es' →
      StableAll config held es'
  | .nil => trivial
  | .cons h hes => ⟨h.stable hscopes, hes.stable hscopes⟩

end

mutual

/-- Labels play no part in it. -/
theorem stable_relabel (c : Relabel) : ∀ {held : Bool} {e : Expression},
    Stable config held (e.relabel c) ↔ Stable config held e
  | _, .binary n op left right =>
    and_congr (Rests.iff_of_fate (Expression.fate_relabel _ c (.binary n op left right)))
      (and_congr (stable_relabel c) (stable_relabel c))
  | _, .call n callee arguments =>
    and_congr (Rests.iff_of_fate (Expression.fate_relabel _ c (.call n callee arguments)))
      (and_congr (stable_relabel c) (stableAll_relabel c))
  | _, .unary _ _ operand => stable_relabel c (e := operand)
  | _, .construct .. => and_congr (stable_relabel c) (stableAll_relabel c)
  | _, .member _ object _ => stable_relabel c (e := object)
  | _, .index .. => and_congr (stable_relabel c) (stable_relabel c)
  | _, .conditional .. =>
    and_congr (stable_relabel c) (and_congr (stable_relabel c) (stable_relabel c))
  | _, .array _ elements => @stableAll_relabel c false elements
  | _, .number .. | _, .string .. | _, .boolean .. | _, .null .. | _, .identifier .. => Iff.rfl

theorem stableAll_relabel (c : Relabel) : ∀ {held : Bool} {es : List Expression},
    StableAll config held (Expression.relabelAll c es) ↔ StableAll config held es
  | _, [] => Iff.rfl
  | _, _ :: _ => and_congr (stable_relabel c) (stableAll_relabel c)

end

/-! ## A second walk -/

theorem Stable.rests {held : Bool} {e : Expression} (h : Stable config held e) :
    Rests config held e := by
  cases e with
  | binary | call => exact h.1
  | _ => exact rests_of_kept rfl

/-- The step succeeds in every state, returns `a` and attaches nothing. -/
def Gives {α : Type} (w : Walk α) (a : α) : Prop :=
  ∀ s, ∃ s', w s = .ok a s' ∧ s'.counts.attached = s.counts.attached

theorem gives_pure {α : Type} (a : α) : Gives (pure a) a := fun s => ⟨s, rfl, rfl⟩

theorem Gives.bind {α β : Type} {w : Walk α} {f : α → Walk β} {a : α} {b : β} (h : Gives w a)
    (hf : Gives (f a) b) : Gives (w >>= f) b := by
  intro s
  obtain ⟨s₁, hw, hcount₁⟩ := h s
  obtain ⟨s', hb, hcount⟩ := hf s₁
  exact ⟨s', (bind_of_ok hw).trans hb, hcount.trans hcount₁⟩

/-- A walk keeps an expression that it leaves alone. -/
theorem retain_of_rests {e : Expression} {slot : Option Slot} (h : Rests config slot.isSome e) :
    Gives (retain config e slot) ⟨e, Nat.le_refl _⟩ := by
  intro s
  have houtcome : LiftOutcome config.rules e s.nextId := liftOutcome e s.nextId
  cases houtcome with
  | kept _ hlift => exact ⟨_, retain_of_kept hlift, rfl⟩
  | replaced hfate hlift _ =>
    obtain rfl : slot = none := by simpa using h.dropped hfate
    exact ⟨_, retain_of_loose hlift, rfl⟩
  | refused hfate hlift => exact ⟨_, retain_of_passed (h.passed hfate) hlift, rfl⟩

theorem expression_of_into {e : Expression} (slot : Option Slot)
    (h : Stable config slot.isSome e) (hinto : Gives (into config e) e) :
    Gives (expression config e slot) e := by
  rw [expression_eq]
  exact (retain_of_rests h.rests).bind hinto

mutual

theorem into_of_stable : ∀ {held : Bool} {e : Expression}, Stable config held e →
    Gives (into config e) e
  | _, .number .., _ | _, .string .., _ | _, .boolean .., _ | _, .null .., _
  | _, .identifier .., _ => gives_pure _
  | _, .binary .., h =>
    (expression_of_into none h.2.1 (into_of_stable h.2.1)).bind
      ((expression_of_into none h.2.2 (into_of_stable h.2.2)).bind (gives_pure _))
  | _, .unary _ _ operand, h =>
    have hoperand : Stable config false operand := h
    (expression_of_into none hoperand (into_of_stable hoperand)).bind (gives_pure _)
  | _, .call .., h =>
    (expression_of_into none h.2.1 (into_of_stable h.2.1)).bind
      ((expressions_of_stable 0 h.2.2).bind (gives_pure _))
  | _, .construct .., h =>
    (expression_of_into none h.1 (into_of_stable h.1)).bind
      ((expressions_of_stable 0 h.2).bind (gives_pure _))
  | _, .member _ object _, h =>
    have hobject : Stable config false object := h
    (expression_of_into none hobject (into_of_stable hobject)).bind (gives_pure _)
  | _, .index .., h =>
    (expression_of_into none h.1 (into_of_stable h.1)).bind
      ((expression_of_into none h.2 (into_of_stable h.2)).bind (gives_pure _))
  | _, .conditional .., h =>
    (expression_of_into none h.1 (into_of_stable h.1)).bind
      ((expression_of_into none h.2.1 (into_of_stable h.2.1)).bind
        ((expression_of_into none h.2.2 (into_of_stable h.2.2)).bind (gives_pure _)))
  | _, .array _ elements, h =>
    have helements : StableAll config false elements := h
    (expressions_of_stable 0 helements).bind (gives_pure _)

theorem expressions_of_stable : ∀ {slots : Bool} {es : List Expression} (i : Nat),
    StableAll config slots es → Gives (expressions config slots i es) es
  | _, [], i, _ => by
    rw [expressions]
    exact gives_pure _
  | slots, e :: es, i, h => by
    rw [expressions]
    refine (expression_of_into _ ?_ (into_of_stable h.1)).bind
      ((expressions_of_stable (i + 1) h.2).bind (gives_pure _))
    cases slots <;> exact h.1

end

/-- **A walk of a stable expression succeeds and changes nothing.** -/
theorem expression_of_stable {e : Expression} (slot : Option Slot)
    (h : Stable config slot.isSome e) : Gives (expression config e slot) e :=
  expression_of_into slot h (into_of_stable h)

/-! ## Statements -/

end Walk

/-- A walk leaves the expressions of a statement alone. -/
def Statement.Stable (config : Config) (st : Statement) : Prop :=
  ∀ e ∈ st.own, Walk.Stable config st.holds e

namespace Walk

theorem expression?_of_stable {e : Option Expression}
    (h : ∀ e' ∈ e.toList, Stable config false e') : Gives (expression? config e) e := by
  cases e with
  | none => exact gives_pure _
  | some e => exact (expression_of_stable none (h e List.mem_cons_self)).bind (gives_pure _)

theorem declarators_of_stable : ∀ {ds : List Declarator},
    (∀ e ∈ ds.filterMap (·.initial), Stable config true e) → Gives (declarators config ds) ds
  | [], _ => gives_pure _
  | ⟨n, name, type, none⟩ :: ds, h => by
    have hds : Gives (declarators config ds) ds := declarators_of_stable h
    exact Gives.bind (gives_pure _) (hds.bind (gives_pure _))
  | ⟨n, name, type, some e⟩ :: ds, h => by
    have he : Stable config true e := h e List.mem_cons_self
    have hds := declarators_of_stable fun e' he' => h e' (List.mem_cons_of_mem _ he')
    exact Gives.bind ((expression_of_stable (some .initial) he).bind (gives_pure _))
      (hds.bind (gives_pure _))

mutual

/-- **A walk of a stable statement succeeds and changes nothing.** -/
theorem statement_of_stable : ∀ {st : Statement}, st.All (Statement.Stable config) →
    Gives (statement config st) st
  | .imports .., _ | .empty _, _ => by
    rw [statement]
    exact gives_pure _
  | .variable .., h => by
    rw [statement]
    exact (declarators_of_stable h).bind (gives_pure _)
  | .function .., h => by
    rw [statement]
    exact (statements_of_stable h.2).bind (gives_pure _)
  | .exports .., h => by
    rw [statement]
    exact (statement_of_stable h.2).bind (gives_pure _)
  | .expression _ e, h => by
    rw [statement]
    exact (expression_of_stable none (h e List.mem_cons_self)).bind (gives_pure _)
  | .returns .., h => by
    rw [statement]
    exact (expression?_of_stable h).bind (gives_pure _)
  | .branch _ e _ _, h => by
    rw [statement]
    exact (expression_of_stable none (h.1 e List.mem_cons_self)).bind
      ((statement_of_stable h.2.1).bind ((statement?_of_stable h.2.2).bind (gives_pure _)))
  | .whileLoop _ e _, h => by
    rw [statement]
    exact (expression_of_stable none (h.1 e List.mem_cons_self)).bind
      ((statement_of_stable h.2).bind (gives_pure _))
  | .forLoop .., h => by
    rw [statement]
    exact (statement?_of_stable h.2.1).bind
      ((expression?_of_stable fun e he => h.1 e (List.mem_append_left _ he)).bind
        ((expression?_of_stable fun e he => h.1 e (List.mem_append_right _ he)).bind
          ((statement_of_stable h.2.2).bind (gives_pure _))))
  | .block .., h => by
    rw [statement]
    exact (statements_of_stable h.2).bind (gives_pure _)

theorem statement?_of_stable : ∀ {st : Option Statement},
    Statement.AllOption (Statement.Stable config) st → Gives (statement? config st) st
  | none, _ => by
    rw [statement?]
    exact gives_pure _
  | some _, h => by
    rw [statement?]
    exact (statement_of_stable h).bind (gives_pure _)

theorem statements_of_stable : ∀ {ss : List Statement},
    Statement.AllOf (Statement.Stable config) ss → Gives (statements config ss) ss
  | [], _ => by
    rw [statements]
    exact gives_pure _
  | _ :: _, h => by
    rw [statements]
    exact (statement_of_stable h.1).bind ((statements_of_stable h.2).bind (gives_pure _))

end

/-- **A walk of a stable program succeeds and changes nothing.** -/
theorem program_of_stable {p : Program}
    (h : Statement.AllOf (Statement.Stable config) p.statements) : Gives (program config p) p :=
  (statements_of_stable h).bind (gives_pure _)

/-! ## What a walk returns -/

/-- **What the walk of statements returns is stable.** -/
theorem WalksStatements.stable
    (hscopes : ∀ c ∈ config.rules.calls, c.scope ≠ config.rules.typeName)
    {ss ss' : List Statement} (h : WalksStatements config ss ss') :
    Statement.AllOf (Statement.Stable config) ss' := by
  refine h.allOf (fun {st st'} hst _ x' hx' => ?_) (Statement.allOf_of_forall (fun _ => trivial) ss)
  obtain ⟨x, -, hwalks⟩ := hst.exists_of_mem_own hx'
  rw [hst.holds]
  exact hwalks.stable hscopes

end Walk

theorem Statement.stable_relabel (c : Relabel) (st : Statement) :
    (st.relabel c).Stable config ↔ st.Stable config := by
  have hholds : (st.relabel c).holds = st.holds := by
    cases st <;> simp only [relabel, holds]
  unfold Statement.Stable
  rw [hholds, own_relabel]
  simp only [List.mem_map, forall_exists_index, and_imp, forall_apply_eq_imp_iff₂,
    Walk.stable_relabel]

end DecimalLift
