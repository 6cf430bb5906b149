import DecimalLift.Proofs.Lift.Policy
import DecimalLift.Proofs.Lift.Stable
import DecimalLift.Tree.Layout

/-!
# Lifting before or after the parts

A walk lifts an expression first and then goes on into what it has built. There an operand can
stand in a slot that it did not stand in before. All the same the walk could go into the parts first
and lift the expression last: the trees are the same, up to the ids of their nodes.

* `Expression.unnumbered` — an expression without its ids. Unlike `erase` it keeps the spans.
* `Expression.bottomUp` — every expression in a slot lifted, inner ones first, without any state.
* `inside_liftOf` — lifting and going inside can change places.
* `yields_expression` — the walk of an expression returns what `bottomUp` says.
* `expression_eq_descendFirst` — both orders of the walk return the same.
-/

set_option autoImplicit false

namespace DecimalLift

/-! ## Expressions without ids -/

/-- Forgets ids, and keeps spans. -/
def Relabel.unnumber : Relabel := ⟨fun n => ⟨0, n.span⟩, fun _ _ raw => raw, fun a => a⟩

namespace Expression

/-- The expression without its ids. -/
def unnumbered (e : Expression) : Expression := e.relabel .unnumber

theorem relabelAll_eq_map (c : Relabel) (es : List Expression) :
    relabelAll c es = es.map (relabel c) := by
  induction es with
  | nil => rfl
  | cons e es ih => rw [relabelAll, ih, List.map_cons]

theorem relabel_fill (c : Relabel) (e : Expression) (es : List Expression) :
    (e.fill es).relabel c = (e.relabel c).fill (es.map (relabel c)) := by
  cases e with
  | number | string | boolean | null | identifier => simp only [fill, relabel]
  | unary | member =>
    obtain _ | ⟨x, _ | ⟨y, es⟩⟩ := es <;> simp only [fill, relabel, List.map_cons, List.map_nil]
  | binary | index =>
    obtain _ | ⟨x, _ | ⟨y, _ | ⟨z, es⟩⟩⟩ := es <;>
      simp only [fill, relabel, List.map_cons, List.map_nil]
  | conditional =>
    obtain _ | ⟨x, _ | ⟨y, _ | ⟨z, _ | ⟨w, es⟩⟩⟩⟩ := es <;>
      simp only [fill, relabel, List.map_cons, List.map_nil]
  | call | construct =>
    cases es <;> simp only [fill, relabel, List.map_cons, List.map_nil, relabelAll_eq_map]
  | array => simp only [fill, relabel, relabelAll_eq_map]

/-- An expression filled with alike expressions gives alike expressions. -/
theorem unnumbered_fill_congr (e : Expression) {es es' : List Expression}
    (h : es.map unnumbered = es'.map unnumbered) :
    (e.fill es).unnumbered = (e.fill es').unnumbered := by
  have hmap : es.map (relabel .unnumber) = es'.map (relabel .unnumber) := h
  unfold unnumbered
  rw [relabel_fill, relabel_fill, hmap]

/-! ## Lifting without state -/

/-- What an operand is lifted to, with `0` for every new id. -/
def liftOf (rules : Rules) : Expression → Expression
  | .binary n op left right =>
    let m : Node := ⟨0, n.span⟩
    match rules.method? op with
    | some method =>
      .call m (.member m (.construct m (.identifier m rules.typeName) [left.liftOf rules]) method)
        [right.liftOf rules]
    | none => .binary n op left right
  | .call n callee arguments =>
    let m : Node := ⟨0, n.span⟩
    match rules.targetOf? callee with
    | some target => .call m (.member m (.identifier m rules.typeName) target) arguments
    | none => .call n callee arguments
  | e => e

/-- The expression lifted where the rules say so, and else as it is. -/
def rewritten (rules : Rules) (e : Expression) : Expression :=
  if e.fate rules = .replaced then e.liftOf rules else e

mutual

/-- The expression with the root in place and everything inside it done. -/
def inside (rules : Rules) : Expression → Expression
  | .binary n op left right => .binary n op (left.inside rules) (right.inside rules)
  | .unary n op operand => .unary n op (operand.inside rules)
  | .call n callee arguments => .call n (callee.inside rules) (insideAll rules true arguments)
  | .construct n callee arguments =>
    .construct n (callee.inside rules) (insideAll rules false arguments)
  | .member n object property => .member n (object.inside rules) property
  | .index n object position => .index n (object.inside rules) (position.inside rules)
  | .conditional n condition yes no =>
    .conditional n (condition.inside rules) (yes.inside rules) (no.inside rules)
  | .array n elements => .array n (insideAll rules false elements)
  | e => e

/-- The same for several expressions; `held` says whether they stand in slots. -/
def insideAll (rules : Rules) : Bool → List Expression → List Expression
  | _, [] => []
  | held, e :: es =>
    (if held then (e.inside rules).rewritten rules else e.inside rules) :: insideAll rules held es

end

/-- Every expression in a slot lifted, inner ones first; `held` says whether this one stands in a
slot. -/
def bottomUp (rules : Rules) (held : Bool) (e : Expression) : Expression :=
  if held then (e.inside rules).rewritten rules else e.inside rules

variable {rules : Rules}

attribute [local simp] inside insideAll

theorem insideAll_eq_map (held : Bool) (es : List Expression) :
    insideAll rules held es = es.map (bottomUp rules held) := by
  induction es with
  | nil => rfl
  | cons e es ih => rw [insideAll, ih, List.map_cons, bottomUp]

/-- Going inside is going bottom up in the children. -/
theorem inside_eq_fill (e : Expression) :
    e.inside rules = e.fill (e.children.map fun c => c.value.bottomUp rules c.held) := by
  have hcomp : ∀ held : Bool, (fun c : Child => c.value.bottomUp rules c.held) ∘ Child.mk held =
      bottomUp rules held := fun _ => rfl
  have hloose : ∀ x : Expression, x.bottomUp rules false = x.inside rules := fun _ => rfl
  cases e <;>
    simp only [inside, children, fill, List.map_cons, List.map_nil, List.map_map, hcomp, hloose,
      insideAll_eq_map]

/-! ### What going inside keeps -/

theorem name?_inside (e : Expression) : (e.inside rules).name? = e.name? := by
  cases e <;> simp [name?]

theorem targetOf?_inside (e : Expression) :
    rules.targetOf? (e.inside rules) = rules.targetOf? e := by
  refine Rules.targetOf?_congr ?_
  cases e <;> simp [scopedMethod?, name?_inside]

theorem liftable_inside : ∀ e : Expression, (e.inside rules).liftable rules = e.liftable rules
  | .binary _ op left right => by
    simp [liftable, liftable_inside left, liftable_inside right]
  | .number .. | .string .. | .boolean .. | .null .. | .identifier .. | .unary .. | .call ..
  | .construct .. | .member .. | .index .. | .conditional .. | .array .. => by simp [liftable]

/-- The rules do with an expression what they do with it once everything inside is done. -/
theorem fate_inside (e : Expression) : (e.inside rules).fate rules = e.fate rules := by
  cases e with
  | binary => simp [fate, liftable_inside]
  | call => simp [fate, targetOf?_inside]
  | _ => simp [fate]

/-- What was lifted is not lifted again. -/
theorem fate_liftOf (hscopes : ∀ c ∈ rules.calls, c.scope ≠ rules.typeName) {e : Expression}
    (h : e.liftable rules = true) : (e.liftOf rules).fate rules = .kept := by
  cases e with
  | number => rfl
  | binary n op left right =>
    simp only [liftable, Bool.and_eq_true] at h
    obtain ⟨method, hmethod⟩ := Option.isSome_iff_exists.1 h.1.1
    simp only [liftOf, hmethod]
    rfl
  | call n callee arguments =>
    cases htarget : rules.targetOf? callee with
    | none => simp [liftOf, htarget, fate]
    | some target => simp [liftOf, htarget, fate, Rules.targetOf?_typeName hscopes]
  | _ => cases h

/-- **Lifting and going inside can change places.** The right operand moves into a slot on the way,
but there it is lifted already. -/
theorem inside_liftOf (hscopes : ∀ c ∈ rules.calls, c.scope ≠ rules.typeName) :
    ∀ {e : Expression}, e.liftable rules = true →
      (e.liftOf rules).inside rules = (e.inside rules).liftOf rules
  | .number .., _ => rfl
  | .call n callee arguments, _ => by
    cases htarget : rules.targetOf? callee with
    | none => simp [liftOf, targetOf?_inside, htarget]
    | some target => simp [liftOf, targetOf?_inside, htarget]
  | .binary n op left right, h => by
    simp only [liftable, Bool.and_eq_true] at h
    obtain ⟨⟨hmethod, hleft⟩, hright⟩ := h
    obtain ⟨method, hmethod⟩ := Option.isSome_iff_exists.1 hmethod
    have hdone : ((right.inside rules).liftOf rules).rewritten rules =
        (right.inside rules).liftOf rules := by
      have hkept := fate_liftOf hscopes ((liftable_inside right).trans hright)
      simp [rewritten, hkept]
    simp [liftOf, hmethod, inside_liftOf hscopes hleft, inside_liftOf hscopes hright, hdone]

/-! ### Ids play no part -/

theorem unnumbered_liftOf : ∀ e : Expression,
    (e.liftOf rules).unnumbered = e.unnumbered.liftOf rules
  | .binary n op left right => by
    have hleft : (left.liftOf rules).relabel .unnumber = (left.relabel .unnumber).liftOf rules :=
      unnumbered_liftOf left
    have hright : (right.liftOf rules).relabel .unnumber = (right.relabel .unnumber).liftOf rules :=
      unnumbered_liftOf right
    unfold unnumbered
    cases hmethod : rules.method? op with
    | none => simp only [liftOf, hmethod, relabel]
    | some method =>
      simp only [liftOf, hmethod, relabel, relabelAll, hleft, hright]
      rfl
  | .call n callee arguments => by
    have hcallee : rules.targetOf? (callee.relabel .unnumber) = rules.targetOf? callee :=
      Rules.targetOf?_congr (scopedMethod?_relabel .unnumber callee)
    unfold unnumbered
    cases htarget : rules.targetOf? callee with
    | none => simp only [liftOf, htarget, relabel, hcallee]
    | some target =>
      simp only [liftOf, htarget, relabel, hcallee]
      rfl
  | .number .. | .string .. | .boolean .. | .null .. | .identifier .. | .unary .. | .construct ..
  | .member .. | .index .. | .conditional .. | .array .. => by
    simp only [unnumbered, liftOf, relabel]

theorem unnumbered_rewritten (e : Expression) :
    (e.rewritten rules).unnumbered = e.unnumbered.rewritten rules := by
  have hfate : e.unnumbered.fate rules = e.fate rules := fate_relabel rules .unnumber e
  unfold rewritten
  rw [hfate]
  split
  · exact unnumbered_liftOf e
  · rfl

mutual

theorem unnumbered_inside : ∀ e : Expression,
    (e.inside rules).relabel .unnumber = (e.relabel .unnumber).inside rules
  | .number .. | .string .. | .boolean .. | .null .. | .identifier .. => rfl
  | .binary _ _ left right => by
    simp [relabel, unnumbered_inside left, unnumbered_inside right]
  | .unary _ _ operand => by simp [relabel, unnumbered_inside operand]
  | .call _ callee arguments => by
    simp [relabel, unnumbered_inside callee, unnumbered_insideAll true arguments]
  | .construct _ callee arguments => by
    simp [relabel, unnumbered_inside callee, unnumbered_insideAll false arguments]
  | .member _ object _ => by simp [relabel, unnumbered_inside object]
  | .index _ object position => by
    simp [relabel, unnumbered_inside object, unnumbered_inside position]
  | .conditional _ condition yes no => by
    simp [relabel, unnumbered_inside condition, unnumbered_inside yes, unnumbered_inside no]
  | .array _ elements => by simp [relabel, unnumbered_insideAll false elements]

theorem unnumbered_insideAll (held : Bool) : ∀ es : List Expression,
    relabelAll .unnumber (insideAll rules held es) =
      insideAll rules held (relabelAll .unnumber es)
  | [] => rfl
  | e :: es => by
    have hrewritten : ((e.inside rules).rewritten rules).relabel .unnumber =
        ((e.inside rules).relabel .unnumber).rewritten rules := unnumbered_rewritten _
    cases held with
    | true =>
      simp [relabelAll, hrewritten, unnumbered_inside e, unnumbered_insideAll true es]
    | false =>
      simp [relabelAll, unnumbered_inside e, unnumbered_insideAll false es]

end

/-! ## Lifting with state -/

/-- **Lifting returns what it returns without state**, up to ids. -/
theorem unnumbered_of_liftsFrom {e : Expression} {l : Lifted} {a b : UInt32}
    (h : LiftsFrom rules e l a b) : (l.result e).unnumbered = (e.liftOf rules).unnumbered := by
  induction h with
  | number => rfl
  | call_kept htarget | call htarget =>
    unfold liftOf
    rw [htarget]
    rfl
  | @binary n op left right l r method a b c hmethod _ _ ihleft ihright =>
    have hleft : (l.result left).relabel .unnumber = (left.liftOf rules).relabel .unnumber := ihleft
    have hright : (r.result right).relabel .unnumber = (right.liftOf rules).relabel .unnumber :=
      ihright
    unfold unnumbered
    simp only [liftOf, hmethod, relabel, relabelAll, ← hleft, ← hright]
    rfl

theorem unnumbered_of_liftNode {e r : Expression} {next next' : UInt32}
    (h : e.liftNode rules next = .ok (.replaced r) next') :
    r.unnumbered = (e.liftOf rules).unnumbered := by
  have hlift : e.lift rules next = .ok (.replaced r) next' := by
    cases e with
    | binary n op left right =>
      cases hmapped : (Expression.binary n op left right).isMapped rules with
      | true => rwa [liftNode_of_mapped hmapped] at h
      | false =>
        have hmethod : (rules.method? op).isSome = false := hmapped
        simp only [liftNode, liftBinary, hmethod] at h
        cases h
    | call => exact h
    | _ => cases h
  exact unnumbered_of_liftsFrom (liftsFrom_of_lift hlift)

end Expression

namespace Walk

open Expression

variable {rules : Rules}

/-- In every state the walk succeeds and returns this expression, up to ids. -/
def Yields (w : Walk Expression) (e : Expression) : Prop :=
  ∀ s, ∃ r s', w s = .ok r s' ∧ r.unnumbered = e.unnumbered

/-- In every state the walk succeeds and returns these expressions, up to ids. -/
def YieldsAll (w : Walk (List Expression)) (es : List Expression) : Prop :=
  ∀ s, ∃ rs s', w s = .ok rs s' ∧ rs.map unnumbered = es.map unnumbered

theorem yieldsAll_mapM {α : Type} {f : α → Walk Expression} {g : α → Expression} :
    ∀ {xs : List α}, (∀ x ∈ xs, Yields (f x) (g x)) → YieldsAll (xs.mapM f) (xs.map g)
  | [], _, s => ⟨[], s, by rw [List.mapM_nil]; rfl, rfl⟩
  | x :: xs, h, s => by
    obtain ⟨r, s₁, hrun, hr⟩ := h x List.mem_cons_self s
    obtain ⟨rs, s', hruns, hrs⟩ := yieldsAll_mapM (fun y hy => h y (List.mem_cons_of_mem x hy)) s₁
    refine ⟨r :: rs, s', ?_, ?_⟩
    · rw [List.mapM_cons, bind_of_ok hrun, bind_of_ok hruns]
      rfl
    · simp only [List.map_cons, hr, hrs]

/-- A walk that yields in every child what there is bottom up yields in its parts what is inside. -/
theorem yields_into {config : Config} {e : Expression}
    (h : ∀ c ∈ e.children, ∀ slot : Option Slot,
      Yields (expression config c.value slot) (c.value.bottomUp rules slot.isSome)) :
    Yields (into config e) (e.inside rules) := by
  have hchild : ∀ c ∈ e.children, Yields (child config c) (c.value.bottomUp rules c.held) := by
    rintro ⟨held, x⟩ hc
    cases held with
    | true => exact h _ hc (some .initial)
    | false => exact h _ hc none
  intro s
  obtain ⟨es, s', hrun, hes⟩ := yieldsAll_mapM hchild s
  refine ⟨e.fill es, s', ?_, ?_⟩
  · rw [into_eq, bind_of_ok hrun]
    rfl
  · rw [inside_eq_fill]
    exact unnumbered_fill_congr e hes

/-- **The walk of an expression returns what is there bottom up.** -/
theorem yields_expression (hscopes : ∀ c ∈ rules.calls, c.scope ≠ rules.typeName)
    (e : Expression) : ∀ slot : Option Slot,
      Yields (expression ⟨rules, .passthrough⟩ e slot) (e.bottomUp rules slot.isSome) := by
  induction e using Expression.weight_induction with
  | _ e ih =>
    intro slot s
    have hinto : ∀ r : Expression, r.weight ≤ e.weight →
        Yields (into ⟨rules, .passthrough⟩ r) (r.inside rules) :=
      fun r hr => yields_into (ih r hr)
    rw [expression_eq]
    -- where the expression stays, its parts are all that is done
    have hstay : ∀ {s₁}, e.fate rules ≠ .replaced ∨ slot = none →
        retain ⟨rules, .passthrough⟩ e slot s = .ok ⟨e, Nat.le_refl _⟩ s₁ →
          ∃ r s', (retain ⟨rules, .passthrough⟩ e slot >>= fun r => into ⟨rules, .passthrough⟩ r.1)
            s = .ok r s' ∧ r.unnumbered = (e.bottomUp rules slot.isSome).unnumbered := by
      intro s₁ hfate hretain
      obtain ⟨r, s', hrun, hr⟩ := hinto e (Nat.le_refl _) s₁
      refine ⟨r, s', (bind_of_ok hretain).trans hrun, ?_⟩
      rcases hfate with hfate | rfl
      · simpa [bottomUp, rewritten, fate_inside, hfate] using hr
      · exact hr
    have houtcome : LiftOutcome rules e s.nextId := liftOutcome e s.nextId
    cases houtcome with
    | kept hfate hlift => exact hstay (Or.inl (by simp [hfate])) (retain_of_kept hlift)
    | refused hfate hlift => exact hstay (Or.inl (by simp [hfate])) (retain_of_passed rfl hlift)
    | @replaced x next' hfate hlift hlifts =>
      cases slot with
      | none => exact hstay (Or.inr rfl) (retain_of_loose hlift)
      | some place =>
        obtain ⟨r, s', hrun, hr⟩ := hinto x (Expression.weight_liftNode_le hlift) _
        refine ⟨r, s', (bind_of_ok (retain_of_held hlift place)).trans hrun, ?_⟩
        calc r.unnumbered = (x.inside rules).unnumbered := hr
          _ = x.unnumbered.inside rules := unnumbered_inside x
          _ = (e.liftOf rules).unnumbered.inside rules := by rw [unnumbered_of_liftNode hlift]
          _ = ((e.liftOf rules).inside rules).unnumbered := (unnumbered_inside _).symm
          _ = ((e.inside rules).liftOf rules).unnumbered := by
            rw [inside_liftOf hscopes hlifts.liftable]
          _ = (e.bottomUp rules true).unnumbered := by
            simp [bottomUp, rewritten, fate_inside, hfate]

/-- A walk in the other order: first the parts, and then the expression that they leave. -/
def descendFirst (config : Config) (e : Expression) (slot : Option Slot) : Walk Expression := do
  let walked ← into config e
  let r ← retain config walked slot
  return r.1

/-- One expression in a slot is lifted as the rules say, and stays where they do not. -/
theorem yields_retain (e : Expression) (slot : Option Slot) (s : WalkState) :
    ∃ r s', retain ⟨rules, .passthrough⟩ e slot s = .ok r s' ∧
      r.1.unnumbered = (if slot.isSome then e.rewritten rules else e).unnumbered := by
  have houtcome : LiftOutcome rules e s.nextId := liftOutcome e s.nextId
  cases houtcome with
  | kept hfate hlift => exact ⟨_, _, retain_of_kept hlift, by simp [rewritten, hfate]⟩
  | refused hfate hlift => exact ⟨_, _, retain_of_passed rfl hlift, by simp [rewritten, hfate]⟩
  | replaced hfate hlift _ =>
    cases slot with
    | none => exact ⟨_, _, retain_of_loose hlift, rfl⟩
    | some place =>
      refine ⟨_, _, retain_of_held hlift place, ?_⟩
      simpa [rewritten, hfate] using unnumbered_of_liftNode hlift

/-- **Lifting first and going inside first come to the same**, up to ids, if no rule takes over
calls of the decimal type. -/
theorem expression_eq_descendFirst (rules : Rules)
    (hscopes : ∀ c ∈ rules.calls, c.scope ≠ rules.typeName) (e : Expression)
    (slot : Option Slot) (s t : WalkState) :
    ∃ r s' w t', expression ⟨rules, .passthrough⟩ e slot s = .ok r s' ∧
      descendFirst ⟨rules, .passthrough⟩ e slot t = .ok w t' ∧ r.unnumbered = w.unnumbered := by
  obtain ⟨r, s', hrun, hr⟩ := yields_expression hscopes e slot s
  have hinto : Yields (into ⟨rules, .passthrough⟩ e) (e.inside rules) :=
    yields_into fun c _ => yields_expression hscopes c.value
  obtain ⟨walked, t₁, hwalked, hwalk⟩ := hinto t
  obtain ⟨w, t', hretain, hw⟩ := yields_retain walked slot t₁
  refine ⟨r, s', w.1, t', hrun, ?_, ?_⟩
  · unfold descendFirst
    rw [bind_of_ok hwalked, bind_of_ok hretain]
    rfl
  · rw [hr, hw]
    cases slot with
    | none => exact hwalk.symm
    | some place =>
      have halike : (walked.rewritten rules).unnumbered =
          ((e.inside rules).rewritten rules).unnumbered := by
        rw [unnumbered_rewritten, unnumbered_rewritten, hwalk]
      exact halike.symm

/-- `1 * 2 + Math.sin(3 - 4)` -/
def stacked : Expression :=
  .binary .blank .add (.binary .blank .mul (.number .blank "1") (.number .blank "2"))
    (.call .blank (.member .blank (.identifier .blank "Math") "sin")
      [.binary .blank .sub (.number .blank "3") (.number .blank "4")])

def stackedText : String :=
  "new Decimal(new Decimal(1).times(2)).plus(Decimal.sin(new Decimal(3).minus(4)))"

/-- The argument of the call is lifted in a slot of its own, and the rest with the root. -/
theorem expression_eq_descendFirst_stacked :
    ∃ r s' w t', expression .standard stacked (some .initial) (.start 0) = .ok r s' ∧
      descendFirst .standard stacked (some .initial) (.start 0) = .ok w t' ∧
      r.unnumbered = w.unnumbered ∧ r.render = stackedText := by
  have htext : ((expression .standard stacked (some .initial)).run' (.start 0)).any
      (fun r => r.render == stackedText) = true := by
    decide +kernel
  obtain ⟨r, s', w, t', hrun, hfirst, heq⟩ :=
    expression_eq_descendFirst .standard (by decide) stacked (some .initial) (.start 0) (.start 0)
  have hrun : expression .standard stacked (some .initial) (.start 0) = .ok r s' := hrun
  unfold EStateM.run' EStateM.run at htext
  rw [hrun] at htext
  exact ⟨r, s', w, t', hrun, hfirst, heq, eq_of_beq htext⟩

end Walk

end DecimalLift
