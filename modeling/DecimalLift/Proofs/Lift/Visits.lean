import DecimalLift.Proofs.Lift.Children
import DecimalLift.Proofs.Supply

/-!
# A walk, part by part

A walk does one thing at every part of a tree: something is kept in its place, and the walk goes on
into the children of that. With the states in between, what is true of every walk needs one case
for a part and two for a list of parts.

* `Expression.idsToLift` — how many ids an attempt to lift draws.
* `Keeps` — the step at one part: it rests, or it stands in a slot and is lifted.
* `Visits`, `VisitsAll` — the walk of a part and of a list of parts, from state to state.
* `visits_expression`, `visits_statement`, `visits_statements` — the walks are such walks.
-/

set_option autoImplicit false

namespace DecimalLift

/-! ## Ids of lifted expressions -/

/-- How many ids an attempt to lift an operand draws, also one that fails. -/
def Expression.idsToLift (rules : Rules) : Expression → Nat
  | .binary _ op left right =>
    if (rules.method? op).isSome then
      left.idsToLift rules +
        if left.liftable rules then
          right.idsToLift rules + if right.liftable rules then 4 else 0
        else 0
    else 0
  | .call _ callee _ => if (rules.targetOf? callee).isSome then 3 else 0
  | _ => 0

section

variable {rules : Rules} {e : Expression} {l : Lifted} {u : Unsupported} {a b : UInt32}

/-- An operation that is lifted takes the ids of its operands, and four of its own. -/
theorem Expression.idsToLift_binary {n : Node} {op : BinaryOp} {left right : Expression}
    {method : String} (hmethod : rules.method? op = some method)
    (hleft : left.liftable rules = true) (hright : right.liftable rules = true) :
    (Expression.binary n op left right).idsToLift rules =
      left.idsToLift rules + (right.idsToLift rules + 4) := by
  simp only [idsToLift, hmethod, hleft, hright]
  rfl

/-- Lifting draws so many ids, and what is lifted has one of them. -/
theorem LiftsFrom.ids (h : LiftsFrom rules e l a b) :
    b = a + .ofNat (e.idsToLift rules) ∧
      ∀ r, l = .replaced r → r.node.id ∈ draws a (e.idsToLift rules) := by
  induction h with
  | number => exact ⟨(UInt32.add_zero _).symm, nofun⟩
  | call_kept htarget =>
    simp only [Expression.idsToLift, htarget]
    exact ⟨(UInt32.add_zero _).symm, nofun⟩
  | call htarget =>
    simp only [Expression.idsToLift, htarget]
    refine ⟨rfl, ?_⟩
    rintro r ⟨⟩
    exact mem_draws_of_lt (m := 2) (Nat.lt_succ_self 2)
  | @binary n op left right l r method a b c hmethod hleft hright ihleft ihright =>
    have hc : ∀ k, c + UInt32.ofNat k =
        a + .ofNat (left.idsToLift rules + (right.idsToLift rules + k)) := by
      intro k
      rw [ihright.1, ihleft.1, UInt32.ofNat_add, UInt32.ofNat_add, UInt32.add_assoc,
        UInt32.add_assoc]
    rw [Expression.idsToLift_binary hmethod hleft.lifts.liftable hright.lifts.liftable]
    refine ⟨hc 4, ?_⟩
    rintro r ⟨⟩
    show c + UInt32.ofNat 3 ∈ _
    rw [hc 3]
    exact mem_draws_of_lt (by omega)

/-- An attempt to lift that fails has drawn so many ids. -/
theorem FailsFrom.next_eq (h : FailsFrom rules e u a b) :
    b = a + .ofNat (e.idsToLift rules) := by
  induction h with
  | @other e a hshape =>
    have hids : e.idsToLift rules = 0 := by
      cases e <;> first | rfl | cases hshape
    rw [hids]
    exact (UInt32.add_zero a).symm
  | unmapped hmethod =>
    simp only [Expression.idsToLift, hmethod]
    exact (UInt32.add_zero _).symm
  | @left n op left right method u a b hmethod hleft ih =>
    simp only [Expression.idsToLift, hmethod, hleft.liftable]
    exact ih
  | @right n op left right l method u a b c hmethod hleft hright ih =>
    simp only [Expression.idsToLift, hmethod, hleft.lifts.liftable, hright.liftable]
    rw [ih, hleft.ids.1, UInt32.add_assoc, ← UInt32.ofNat_add]
    rfl

theorem liftNode_cases (rules : Rules) (e : Expression) :
    e.liftNode rules = e.lift rules ∨
      e.liftNode rules = pure .kept ∧ e.idsToLift rules = 0 := by
  cases e with
  | binary n op left right =>
    cases hmethod : (rules.method? op).isSome with
    | true => exact Or.inl (by simp [Expression.liftNode, Expression.liftBinary, hmethod])
    | false =>
      refine Or.inr ⟨by simp [Expression.liftNode, Expression.liftBinary, hmethod], ?_⟩
      simp [Expression.idsToLift, hmethod]
  | call n callee arguments => exact Or.inl rfl
  | _ => exact Or.inr ⟨rfl, rfl⟩

theorem ids_of_liftNode (h : e.liftNode rules a = .ok l b) :
    b = a + .ofNat (e.idsToLift rules) ∧
      ∀ r, l = .replaced r → r.node.id ∈ draws a (e.idsToLift rules) := by
  rcases liftNode_cases rules e with hlift | ⟨hkept, hids⟩
  · rw [hlift] at h
    exact (liftsFrom_of_lift h).ids
  · rw [hkept] at h
    cases h
    rw [hids]
    exact ⟨(UInt32.add_zero a).symm, nofun⟩

theorem next_of_liftNode_error (h : e.liftNode rules a = .error u b) :
    b = a + .ofNat (e.idsToLift rules) := by
  rcases liftNode_cases rules e with hlift | ⟨hkept, -⟩
  · rw [hlift] at h
    exact (failsFrom_of_lift h).next_eq
  · rw [hkept] at h
    cases h

end

/-- How many ids an attempt to lift a part draws. Only expressions are lifted. -/
def Part.idsToLift (rules : Rules) : Part → Nat
  | .expression e => e.idsToLift rules
  | _ => 0

namespace Walk

variable {config : Config}

/-! ## From state to state -/

/-- What is kept in the place of a part; `held` says whether it stands in a slot. -/
inductive Keeps (config : Config) (held : Bool) (s s' : WalkState) : Part → Part → Prop
  /-- The part stays, whatever was tried. -/
  | rests {x : Part} (hrests : ∀ e, x = .expression e → Rests config held e)
      (hnext : s'.nextId = s.nextId + .ofNat (x.idsToLift config.rules))
      (hattached : s'.counts.attached = s.counts.attached) : Keeps config held s s' x x
  | lifted {e r : Expression} (hheld : held = true)
      (hlift : e.liftNode config.rules s.nextId = .ok (.replaced r) s'.nextId)
      (hattached : s'.counts.attached = s.counts.attached + 1) :
      Keeps config held s s' (.expression e) (.expression r)

/-- An expression that stays, although an attempt to lift it drew ids. -/
theorem Keeps.stays {e : Expression} {held : Bool} {s s' : WalkState} (h : Rests config held e)
    (hnext : s'.nextId = s.nextId + .ofNat (e.idsToLift config.rules))
    (hattached : s'.counts.attached = s.counts.attached) :
    Keeps config held s s' (.expression e) (.expression e) := by
  refine .rests (fun e' heq => ?_) hnext hattached
  cases heq
  exact h

theorem keeps_of_retain {e : Expression} {slot : Option Slot} {r : Bounded e} {s s' : WalkState}
    (h : retain config e slot s = .ok r s') :
    Keeps config slot.isSome s s' (.expression e) (.expression r.1) := by
  have houtcome : LiftOutcome config.rules e s.nextId := liftOutcome e s.nextId
  cases houtcome with
  | kept hfate hlift =>
    have hrests : Rests config slot.isSome e := ⟨by simp [hfate], by simp [hfate]⟩
    rw [retain_of_kept hlift] at h
    cases h
    exact .stays hrests (ids_of_liftNode hlift).1 rfl
  | replaced hfate hlift _ =>
    cases slot with
    | none =>
      have hrests : Rests config false e := ⟨fun _ => rfl, by simp [hfate]⟩
      rw [retain_of_loose hlift] at h
      cases h
      exact .stays hrests (ids_of_liftNode hlift).1 rfl
    | some place =>
      rw [retain_of_held hlift place] at h
      cases h
      exact .lifted rfl hlift rfl
  | refused hfate hlift =>
    cases hpolicy : config.policy with
    | passthrough =>
      have hrests : Rests config slot.isSome e := ⟨by simp [hfate], fun _ => hpolicy⟩
      rw [retain_of_passed hpolicy hlift] at h
      cases h
      exact .stays hrests (next_of_liftNode_error hlift) rfl
    | strict =>
      rw [retain_of_failed hpolicy hlift] at h
      cases h

mutual

/-- The walk of a part: something is kept in its place, and the children of that are walked. -/
inductive Visits (config : Config) : Bool → Part → Part → WalkState → WalkState → Prop
  | mk {held : Bool} {x r y : Part} {s s₁ s' : WalkState} (hkeeps : Keeps config held s s₁ x r)
      (hbare : y.bare = r.bare) (hchildren : VisitsAll config r.children y.children s₁ s') :
      Visits config held x y s s'

/-- The walk of several parts, one after the other. -/
inductive VisitsAll (config : Config) : List Inner → List Inner → WalkState → WalkState → Prop
  | nil {s : WalkState} : VisitsAll config [] [] s s
  | cons {held : Bool} {x y : Part} {cs ds : List Inner} {s s₁ s' : WalkState}
      (h : Visits config held x y s s₁) (hrest : VisitsAll config cs ds s₁ s') :
      VisitsAll config (⟨held, x⟩ :: cs) (⟨held, y⟩ :: ds) s s'

end

theorem VisitsAll.length_eq {cs ds : List Inner} {s s' : WalkState} :
    VisitsAll config cs ds s s' → ds.length = cs.length
  | .nil => rfl
  | .cons _ hrest => congrArg (· + 1) hrest.length_eq

theorem VisitsAll.append {cs ds cs' ds' : List Inner} {s s₁ s' : WalkState} :
    VisitsAll config cs ds s s₁ → VisitsAll config cs' ds' s₁ s' →
      VisitsAll config (cs ++ cs') (ds ++ ds') s s'
  | .nil, h' => h'
  | .cons h hrest, h' => .cons h (hrest.append h')

theorem VisitsAll.single {held : Bool} {x y : Part} {s s' : WalkState}
    (h : Visits config held x y s s') : VisitsAll config [⟨held, x⟩] [⟨held, y⟩] s s' :=
  .cons h .nil

/-! ## Expressions -/

/-- The children are walked one after the other and stand in slots as before. -/
theorem visitsAll_mapM : ∀ {cs ds : List Child} {s s' : WalkState},
    (∀ c ∈ cs, ∀ {e : Expression} {s s' : WalkState}, child config c s = .ok e s' →
      Visits config c.held (.expression c.value) (.expression e) s s') →
    ds.map Child.held = cs.map Child.held →
    cs.mapM (child config) s = .ok (ds.map Child.value) s' →
    VisitsAll config (cs.map Inner.ofChild) (ds.map Inner.ofChild) s s'
  | [], [], _, _, _, _, h => by
    rw [List.mapM_nil] at h
    cases h
    exact .nil
  | ⟨held, x⟩ :: cs, ⟨held', y⟩ :: ds, s, s', hchild, hheld, h => by
    obtain ⟨rfl, hheld'⟩ : held' = held ∧ ds.map Child.held = cs.map Child.held :=
      List.cons.inj hheld
    rw [List.mapM_cons] at h
    obtain ⟨e, s₁, he, h⟩ := bind_eq_ok.1 h
    obtain ⟨es, s₂, hes, h⟩ := bind_eq_ok.1 h
    cases h
    refine .cons (hchild _ List.mem_cons_self he) ?_
    exact visitsAll_mapM (fun c hc => hchild c (List.mem_cons_of_mem _ hc)) hheld' hes

theorem length_of_mapM : ∀ {cs : List Child} {es : List Expression} {s s' : WalkState},
    cs.mapM (child config) s = .ok es s' → es.length = cs.length
  | [], es, s, s', h => by
    rw [List.mapM_nil] at h
    cases h
    rfl
  | c :: cs, es, s, s', h => by
    rw [List.mapM_cons] at h
    obtain ⟨e, s₁, he, h⟩ := bind_eq_ok.1 h
    obtain ⟨es', s₂, hes, h⟩ := bind_eq_ok.1 h
    cases h
    exact congrArg (· + 1) (length_of_mapM hes)

/-- **The walk of an expression goes part by part.** -/
theorem visits_expression (e : Expression) :
    ∀ {slot : Option Slot} {e' : Expression} {s s' : WalkState},
      expression config e slot s = .ok e' s' →
        Visits config slot.isSome (.expression e) (.expression e') s s' := by
  induction e using Expression.weight_induction with
  | _ e ih =>
    intro slot e' s s' h
    rw [expression_children] at h
    obtain ⟨⟨r, hr⟩, s₁, hretain, h⟩ := bind_eq_ok.1 h
    obtain ⟨es, s₂, hes, h⟩ := bind_eq_ok.1 h
    cases h
    obtain ⟨hbare, hvalues⟩ := Expression.bare_fill (length_of_mapM hes)
    have hheld : (r.fill es).children.map Child.held = r.children.map Child.held := by
      rw [← Expression.held_children_bare, hbare, Expression.held_children_bare]
    have hchild : ∀ c ∈ r.children, ∀ {e : Expression} {s s' : WalkState},
        child config c s = .ok e s' →
          Visits config c.held (.expression c.value) (.expression e) s s' := by
      rintro ⟨held, x⟩ hc e s s' hx
      have hvisits := ih r hr _ hc hx
      cases held <;> exact hvisits
    refine .mk (keeps_of_retain hretain) (congrArg Part.expression hbare) ?_
    rw [← hvalues] at hes
    exact visitsAll_mapM hchild hheld hes

/-! ## Statements -/

section

variable {s s' : WalkState}

theorem visits_expression? {e e' : Option Expression} (h : expression? config e s = .ok e' s') :
    (e'.map fun _ => Expression.hole) = (e.map fun _ => Expression.hole) ∧
      VisitsAll config (e.toList.map .ofExpression) (e'.toList.map .ofExpression) s s' := by
  cases e with
  | none =>
    cases h
    exact ⟨rfl, .nil⟩
  | some e =>
    obtain ⟨e', s₁, he, h⟩ := bind_eq_ok.1 h
    cases h
    exact ⟨rfl, .single (visits_expression e he)⟩

theorem visits_declarator {d d' : Declarator} (h : declarator config d s = .ok d' s') :
    Visits config false (.declarator d) (.declarator d') s s' := by
  obtain ⟨n, name, type, initial⟩ := d
  cases initial with
  | none =>
    cases h
    exact .mk (.rests nofun (UInt32.add_zero _).symm rfl) rfl .nil
  | some e =>
    obtain ⟨e', s₁, he, h⟩ := bind_eq_ok.1 h
    cases h
    exact .mk (.rests nofun (UInt32.add_zero _).symm rfl) rfl (.single (visits_expression e he))

end

theorem visits_declarators : ∀ {ds ds' : List Declarator} {s s' : WalkState},
    declarators config ds s = .ok ds' s' →
      VisitsAll config (ds.map .ofDeclarator) (ds'.map .ofDeclarator) s s'
  | [], _, _, _, h => by
    cases h
    exact .nil
  | d :: ds, _, _, _, h => by
    obtain ⟨d', s₁, hd, h⟩ := bind_eq_ok.1 h
    obtain ⟨ds', s₂, hds, h⟩ := bind_eq_ok.1 h
    cases h
    exact .cons (visits_declarator hd) (visits_declarators hds)

/-- A statement stays and its children are walked. -/
theorem Visits.statement {st st' : Statement} {s s' : WalkState} (hbare : st'.bare = st.bare)
    (h : VisitsAll config st.children st'.children s s') :
    Visits config false (.statement st) (.statement st') s s' :=
  .mk (.rests nofun (UInt32.add_zero _).symm rfl) (congrArg Part.statement hbare) h

mutual

/-- **The walk of a statement goes part by part.** -/
theorem visits_statement : ∀ {st st' : Statement} {s s' : WalkState},
    statement config st s = .ok st' s' →
      Visits config false (.statement st) (.statement st') s s'
  | .imports .., _, _, _, h | .empty .., _, _, _, h => by
    rw [statement] at h
    cases h
    exact .statement rfl .nil
  | .variable n word ds, _, _, _, h => by
    rw [statement] at h
    obtain ⟨ds', s₁, hds, h⟩ := bind_eq_ok.1 h
    cases h
    have hvisits := visits_declarators hds
    have hlength : ds'.length = ds.length := by simpa using hvisits.length_eq
    exact .statement (by simp [Statement.bare, List.map_const', hlength]) hvisits
  | .function n name ps result body, _, _, _, h => by
    rw [statement] at h
    obtain ⟨body', s₁, hbody, h⟩ := bind_eq_ok.1 h
    cases h
    have hvisits := visits_statements hbody
    have hlength : body'.length = body.length := by simpa using hvisits.length_eq
    exact .statement (by simp [Statement.bare, List.map_const', hlength]) hvisits
  | .exports .., _, _, _, h => by
    rw [statement] at h
    obtain ⟨inner', s₁, hinner, h⟩ := bind_eq_ok.1 h
    cases h
    exact .statement rfl (.single (visits_statement hinner))
  | .expression n e, _, _, _, h => by
    rw [statement] at h
    obtain ⟨e', s₁, he, h⟩ := bind_eq_ok.1 h
    cases h
    exact .statement rfl (.single (visits_expression e he))
  | .returns n value, _, _, _, h => by
    rw [statement] at h
    obtain ⟨value', s₁, hvalue, h⟩ := bind_eq_ok.1 h
    cases h
    obtain ⟨hholes, hvisits⟩ := visits_expression? hvalue
    exact .statement (congrArg (Statement.returns n) hholes) hvisits
  | .branch n condition yes no, _, _, _, h => by
    rw [statement] at h
    obtain ⟨condition', s₁, hcondition, h⟩ := bind_eq_ok.1 h
    obtain ⟨yes', s₂, hyes, h⟩ := bind_eq_ok.1 h
    obtain ⟨no', s₃, hno, h⟩ := bind_eq_ok.1 h
    cases h
    obtain ⟨hholes, hvisits⟩ := visits_statement? hno
    refine .statement (congrArg (Statement.branch n .hole .hole) hholes) ?_
    exact .cons (visits_expression condition hcondition) (.cons (visits_statement hyes) hvisits)
  | .whileLoop n condition body, _, _, _, h => by
    rw [statement] at h
    obtain ⟨condition', s₁, hcondition, h⟩ := bind_eq_ok.1 h
    obtain ⟨body', s₂, hbody, h⟩ := bind_eq_ok.1 h
    cases h
    refine .statement rfl ?_
    exact .cons (visits_expression condition hcondition) (.single (visits_statement hbody))
  | .forLoop n start condition update body, _, _, _, h => by
    rw [statement] at h
    obtain ⟨start', s₁, hstart, h⟩ := bind_eq_ok.1 h
    obtain ⟨condition', s₂, hcondition, h⟩ := bind_eq_ok.1 h
    obtain ⟨update', s₃, hupdate, h⟩ := bind_eq_ok.1 h
    obtain ⟨body', s₄, hbody, h⟩ := bind_eq_ok.1 h
    cases h
    obtain ⟨hstart', hvisits⟩ := visits_statement? hstart
    obtain ⟨hcondition', hvisits'⟩ := visits_expression? hcondition
    obtain ⟨hupdate', hvisits''⟩ := visits_expression? hupdate
    refine .statement (by simp only [Statement.bare, hstart', hcondition', hupdate']) ?_
    exact hvisits.append (hvisits'.append (hvisits''.append (.single (visits_statement hbody))))
  | .block n ss, _, _, _, h => by
    rw [statement] at h
    obtain ⟨ss', s₁, hss, h⟩ := bind_eq_ok.1 h
    cases h
    have hvisits := visits_statements hss
    have hlength : ss'.length = ss.length := by simpa using hvisits.length_eq
    exact .statement (by simp [Statement.bare, List.map_const', hlength]) hvisits

theorem visits_statement? : ∀ {st st' : Option Statement} {s s' : WalkState},
    statement? config st s = .ok st' s' →
      (st'.map fun _ => Statement.hole) = (st.map fun _ => Statement.hole) ∧
        VisitsAll config (st.toList.map .ofStatement) (st'.toList.map .ofStatement) s s'
  | none, _, _, _, h => by
    rw [statement?] at h
    cases h
    exact ⟨rfl, .nil⟩
  | some st, _, _, _, h => by
    rw [statement?] at h
    obtain ⟨st', s₁, hst, h⟩ := bind_eq_ok.1 h
    cases h
    exact ⟨rfl, .single (visits_statement hst)⟩

theorem visits_statements : ∀ {ss ss' : List Statement} {s s' : WalkState},
    statements config ss s = .ok ss' s' →
      VisitsAll config (ss.map .ofStatement) (ss'.map .ofStatement) s s'
  | [], _, _, _, h => by
    rw [statements] at h
    cases h
    exact .nil
  | st :: ss, _, _, _, h => by
    rw [statements] at h
    obtain ⟨st', s₁, hst, h⟩ := bind_eq_ok.1 h
    obtain ⟨ss', s₂, hss, h⟩ := bind_eq_ok.1 h
    cases h
    exact .cons (visits_statement hst) (visits_statements hss)

end

end Walk

end DecimalLift
