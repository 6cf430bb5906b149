import DecimalLift.Proofs.Parse.Assembly
import DecimalLift.Proofs.Supply

/-!
# The numbers of the nodes

The counter of the parser is drawn once for every part of the tree, when all inside the part has
its number. So the numbers of a program that was read, listed with every part behind those inside
it, are `0, 1, …` without a gap, and the program has the number after them.

* `Part.postorder`, `Program.postorder` — the parts of a tree, each behind those inside it.
* `Numbered` — parts with consecutive numbers.
* `Program.postorder_ids_of_parse` — the numbers of a program that was read.
-/

set_option autoImplicit false

namespace DecimalLift

/-! ## Parts behind the parts inside them -/

mutual

/-- The expressions in an expression and the expression itself, each behind those inside it. -/
def Expression.postorder : Expression → List Part
  | .binary n op left right =>
    left.postorder ++ (right.postorder ++ [.expression (.binary n op left right)])
  | .unary n op operand => operand.postorder ++ [.expression (.unary n op operand)]
  | .call n callee arguments =>
    callee.postorder ++
      (Expression.postorderAll arguments ++ [.expression (.call n callee arguments)])
  | .construct n callee arguments =>
    callee.postorder ++
      (Expression.postorderAll arguments ++ [.expression (.construct n callee arguments)])
  | .member n object property => object.postorder ++ [.expression (.member n object property)]
  | .index n object position =>
    object.postorder ++ (position.postorder ++ [.expression (.index n object position)])
  | .conditional n condition yes no =>
    condition.postorder ++ (yes.postorder ++
      (no.postorder ++ [.expression (.conditional n condition yes no)]))
  | .array n elements => Expression.postorderAll elements ++ [.expression (.array n elements)]
  | e => [.expression e]

def Expression.postorderAll : List Expression → List Part
  | [] => []
  | e :: es => e.postorder ++ Expression.postorderAll es

end

/-- A declarator behind its initial value. -/
def Declarator.postorder (d : Declarator) : List Part :=
  d.initial.toList.flatMap Expression.postorder ++ [.declarator d]

mutual

/-- The parts of a statement, each behind those inside it. -/
def Statement.postorder : Statement → List Part
  | .variable n word ds =>
    ds.flatMap Declarator.postorder ++ [.statement (.variable n word ds)]
  | .function n name ps result body =>
    Statement.postorderAll body ++ [.statement (.function n name ps result body)]
  | .exports n inner => inner.postorder ++ [.statement (.exports n inner)]
  | .expression n e => e.postorder ++ [.statement (.expression n e)]
  | .returns n value =>
    value.toList.flatMap Expression.postorder ++ [.statement (.returns n value)]
  | .branch n condition yes no =>
    condition.postorder ++ (yes.postorder ++
      (Statement.postorderOption no ++ [.statement (.branch n condition yes no)]))
  | .whileLoop n condition body =>
    condition.postorder ++ (body.postorder ++ [.statement (.whileLoop n condition body)])
  | .forLoop n start condition update body =>
    Statement.postorderOption start ++ (condition.toList.flatMap Expression.postorder ++
      (update.toList.flatMap Expression.postorder ++
        (body.postorder ++ [.statement (.forLoop n start condition update body)])))
  | .block n ss => Statement.postorderAll ss ++ [.statement (.block n ss)]
  | s => [.statement s]

def Statement.postorderOption : Option Statement → List Part
  | none => []
  | some s => s.postorder

def Statement.postorderAll : List Statement → List Part
  | [] => []
  | s :: ss => s.postorder ++ Statement.postorderAll ss

end

/-- A part behind all parts in it. -/
def Part.postorder : Part → List Part
  | .statement s => s.postorder
  | .declarator d => d.postorder
  | .expression e => e.postorder

/-- The statements, declarators and expressions of a program, each behind those inside it. -/
def Program.postorder (p : Program) : List Part := Statement.postorderAll p.statements

theorem Expression.postorderAll_eq (es : List Expression) :
    postorderAll es = es.flatMap postorder := by
  induction es with
  | nil => rfl
  | cons e es ih => rw [postorderAll, ih, List.flatMap_cons]

theorem Statement.postorderAll_eq (ss : List Statement) :
    postorderAll ss = ss.flatMap postorder := by
  induction ss with
  | nil => rfl
  | cons s ss ih => rw [postorderAll, ih, List.flatMap_cons]

theorem Statement.postorderOption_eq (s : Option Statement) :
    postorderOption s = s.toList.flatMap postorder := by
  cases s with
  | none => rfl
  | some s => exact (List.append_nil s.postorder).symm

/-- **A part stands behind the parts inside it.** -/
theorem Part.postorder_eq (x : Part) : x.postorder = x.inside.flatMap postorder ++ [x] := by
  cases x with
  | statement s =>
    cases s <;>
      simp [postorder, Statement.postorder, inside, children, Statement.children,
        Statement.postorderAll_eq, Statement.postorderOption_eq, List.flatMap_map,
        Inner.ofStatement, Inner.ofDeclarator, Inner.ofExpression]
  | declarator d =>
    simp [postorder, Declarator.postorder, inside, children, List.flatMap_map, Inner.ofInitial]
  | expression e =>
    cases e <;>
      simp [postorder, Expression.postorder, inside, children, Expression.children,
        Expression.postorderAll_eq, List.flatMap_map, Inner.ofChild]

/-! ## Consecutive numbers -/

/-- The numbers of the parts, in their order, are those that are drawn from `first` on, and `next`
comes after them. -/
structure Numbered (first : UInt32) (xs : List Part) (next : UInt32) : Prop where
  next_eq : next = first + .ofNat xs.length
  ids : xs.map Part.id = draws first xs.length

namespace Numbered

variable {first middle next : UInt32} {xs ys : List Part}

theorem nil : Numbered first [] first := ⟨(UInt32.add_zero first).symm, rfl⟩

theorem append (h : Numbered first xs middle) (h' : Numbered middle ys next) :
    Numbered first (xs ++ ys) next := by
  obtain ⟨rfl, hxs⟩ := h
  obtain ⟨rfl, hys⟩ := h'
  constructor
  · rw [List.length_append, UInt32.ofNat_add, UInt32.add_assoc]
  · rw [List.map_append, hxs, hys, List.length_append, draws_add]

theorem snoc {x : Part} (h : Numbered first xs x.id) : Numbered first (xs ++ [x]) (x.id + 1) :=
  h.append ⟨rfl, (draws_one x.id).symm⟩

end Numbered

namespace Parse

mutual

/-- Between two states, a part and all in it get the numbers that the counter goes through. -/
theorem Built.numbered {s s' : ParserState} {x : Part} :
    Built s x s' → Numbered s.nextId x.postorder s'.nextId
  | .mk hbefore hinside hid _ hbehind => by
    have h := hinside.numbered
    rw [hbefore.nextId, ← hid] at h
    rw [Part.postorder_eq, hbehind.nextId, ParserState.grown, ← hid]
    exact h.snoc

theorem BuiltAll.numbered {s s' : ParserState} {xs : List Part} :
    BuiltAll s xs s' → Numbered s.nextId (xs.flatMap Part.postorder) s'.nextId
  | .nil h => by
    rw [h.nextId]
    exact .nil
  | .cons h hrest => h.numbered.append hrest.numbered

end

end Parse

/-! ## Programs -/

/-- **The numbers of a program that was read have no gap.** Listed with every part behind those
inside it, the statements, declarators and expressions have the numbers that a counter draws from
zero on; the program has the one after them, and the counter is left behind it. As long as the
counter suffices, these are the numbers `0, 1, …` themselves. -/
theorem Program.postorder_ids_of_parse {source file : String} {p : Program}
    (h : Program.parse source file = .ok p) :
    let n := p.postorder.length
    (p.postorder.map Part.id = draws 0 n ∧ p.node.id = .ofNat n ∧ p.nextId = .ofNat (n + 1)) ∧
      (n + 1 < UInt32.size → p.postorder.map (·.id.toNat) = List.range n ∧ p.node.id.toNat = n ∧
        p.nextId.toNat = n + 1) := by
  intro n
  have hnumbers : p.postorder.map Part.id = draws 0 n ∧ p.node.id = .ofNat n ∧
      p.nextId = .ofNat (n + 1) := by
    obtain ⟨ts, ss, s', -, hread, rfl⟩ := Program.parse_eq_ok.1 h
    obtain ⟨hnext, hids⟩ := hread.built.numbered
    have hpostorder :
        (ss.map Part.statement).flatMap Part.postorder = Statement.postorderAll ss := by
      rw [List.flatMap_map, Statement.postorderAll_eq]
      rfl
    rw [hpostorder] at hnext hids
    have hlast : s'.nextId = .ofNat (Statement.postorderAll ss).length := by
      rw [hnext]
      exact UInt32.zero_add _
    refine ⟨hids, hlast, ?_⟩
    rw [UInt32.ofNat_add]
    exact congrArg (· + 1) hlast
  refine ⟨hnumbers, fun hfits => ?_⟩
  obtain ⟨hids, hnode, hnext⟩ := hnumbers
  have hsupplies : Supplies 0 n := by
    show 0 + n < UInt32.size
    omega
  refine ⟨?_, ?_, ?_⟩
  · have hmap : p.postorder.map (·.id.toNat) = (p.postorder.map Part.id).map UInt32.toNat := by
      rw [List.map_map]
      rfl
    rw [hmap, hids, hsupplies.map_toNat, List.range_eq_range']
    rfl
  · rw [hnode]
    exact UInt32.toNat_ofNat_of_lt' (Nat.lt_of_succ_lt hfits)
  · rw [hnext]
    exact UInt32.toNat_ofNat_of_lt' hfits

/-- A loop whose first statement comes before its condition, groups that have no node, and a
declarator behind its initial value. -/
def Program.numberedSample : String :=
  "for (let i = 0; i < (n); i++) x = (a + b) * c;\nlet y: A<B<C>> = f(1, [z]), w"

theorem postorder_ids_numberedSample :
    ∃ p, Program.parse Program.numberedSample "m.ts" = .ok p ∧
      p.postorder.map (·.id.toNat) = List.range 25 ∧ p.node.id.toNat = 25 ∧
      p.nextId.toNat = 26 := by
  have h : (Program.parse Program.numberedSample "m.ts").toOption.any
      (fun p => p.postorder.length == 25) = true := by
    decide +kernel
  cases hp : Program.parse Program.numberedSample "m.ts" with
  | error e =>
    rw [hp] at h
    cases h
  | ok p =>
    rw [hp] at h
    have hlength : p.postorder.length = 25 := of_decide_eq_true h
    have hids := (Program.postorder_ids_of_parse hp).2
    rw [hlength] at hids
    exact ⟨p, rfl, hids (by decide)⟩

end DecimalLift
