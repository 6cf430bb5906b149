import DecimalLift.Token.Quoted
import DecimalLift.Tree

/-!
# Trees up to their labels

Two trees can have the same shape and differ in labels only: the nodes that say where a part was
read, the spelling of strings, and the ascriptions. This file has one traversal that changes all
labels of a tree, and one that asks something of every expression in a tree.

* `Relabel` — what becomes of each label; `Relabel.erase` forgets ids and spans, `Relabel.spell`
  gives every string a spelling, `Relabel.unspell` takes them away, `Relabel.untype` drops the
  ascriptions.
* `Expression.relabel` — the traversal, with the law `relabel_relabel`.
* `Expression.All` — a property of every expression in a tree.
* `relabel_eq` — when two changes of labels are one.
-/

set_option autoImplicit false

namespace DecimalLift

/-- What becomes of the labels of a tree. -/
structure Relabel where
  node : Node → Node
  /-- The spelling of a string, from its value, its quote and the spelling it had. -/
  spelling : String → Quote → Option String → Option String
  ascription : Option String → Option String

namespace Relabel

/-- Forgets ids and spans. -/
def erase : Relabel := ⟨fun _ => .blank, fun _ _ raw => raw, fun a => a⟩

/-- Gives every string the spelling that it is written with. -/
def spell : Relabel :=
  ⟨fun n => n, fun value quote raw => some (raw.getD (Quoted.escape quote value)), fun a => a⟩

/-- Takes the spelling of every string away. -/
def unspell : Relabel := ⟨fun n => n, fun _ _ _ => none, fun a => a⟩

/-- Drops every ascription. -/
def untype : Relabel := ⟨fun n => n, fun _ _ raw => raw, fun _ => none⟩

/-- First `c`, then `d`. -/
def andThen (c d : Relabel) : Relabel :=
  ⟨fun n => d.node (c.node n),
    fun value quote raw => d.spelling value quote (c.spelling value quote raw),
    fun a => d.ascription (c.ascription a)⟩

end Relabel

/-! ## Expressions -/

namespace Expression

mutual

def relabel (c : Relabel) : Expression → Expression
  | .number n raw => .number (c.node n) raw
  | .string n value quote raw => .string (c.node n) value quote (c.spelling value quote raw)
  | .boolean n value => .boolean (c.node n) value
  | .null n => .null (c.node n)
  | .identifier n name => .identifier (c.node n) name
  | .binary n op left right => .binary (c.node n) op (left.relabel c) (right.relabel c)
  | .unary n op operand => .unary (c.node n) op (operand.relabel c)
  | .call n callee arguments => .call (c.node n) (callee.relabel c) (relabelAll c arguments)
  | .construct n callee arguments =>
    .construct (c.node n) (callee.relabel c) (relabelAll c arguments)
  | .member n object property => .member (c.node n) (object.relabel c) property
  | .index n object position => .index (c.node n) (object.relabel c) (position.relabel c)
  | .conditional n condition yes no =>
    .conditional (c.node n) (condition.relabel c) (yes.relabel c) (no.relabel c)
  | .array n elements => .array (c.node n) (relabelAll c elements)

def relabelAll (c : Relabel) : List Expression → List Expression
  | [] => []
  | e :: es => e.relabel c :: relabelAll c es

end

/-- The expression without ids and spans. -/
def erase (e : Expression) : Expression := e.relabel .erase

/-- The expression with every string spelt out. -/
def spelled (e : Expression) : Expression := e.relabel .spell

/-- The expression without the spelling of strings. -/
def unspelled (e : Expression) : Expression := e.relabel .unspell

mutual

/-- Two changes of labels, one after the other. -/
theorem relabel_relabel (c d : Relabel) :
    ∀ e : Expression, (e.relabel c).relabel d = e.relabel (c.andThen d)
  | .number .. | .string .. | .boolean .. | .null .. | .identifier .. => rfl
  | .binary _ _ left right => by
    simp only [relabel, relabel_relabel c d left, relabel_relabel c d right]
    rfl
  | .unary _ _ operand => by
    simp only [relabel, relabel_relabel c d operand]
    rfl
  | .call _ callee arguments => by
    simp only [relabel, relabel_relabel c d callee, relabelAll_relabelAll c d arguments]
    rfl
  | .construct _ callee arguments => by
    simp only [relabel, relabel_relabel c d callee, relabelAll_relabelAll c d arguments]
    rfl
  | .member _ object _ => by
    simp only [relabel, relabel_relabel c d object]
    rfl
  | .index _ object position => by
    simp only [relabel, relabel_relabel c d object, relabel_relabel c d position]
    rfl
  | .conditional _ condition yes no => by
    simp only [relabel, relabel_relabel c d condition, relabel_relabel c d yes,
      relabel_relabel c d no]
    rfl
  | .array _ elements => by
    simp only [relabel, relabelAll_relabelAll c d elements]
    rfl

theorem relabelAll_relabelAll (c d : Relabel) :
    ∀ es : List Expression, relabelAll d (relabelAll c es) = relabelAll (c.andThen d) es
  | [] => rfl
  | e :: es => by
    simp only [relabelAll, relabel_relabel c d e, relabelAll_relabelAll c d es]

end

theorem precedence_relabel (c : Relabel) (e : Expression) :
    (e.relabel c).precedence = e.precedence := by
  cases e <;> simp only [relabel, precedence]

theorem isAssignable_relabel (c : Relabel) (e : Expression) :
    (e.relabel c).isAssignable = e.isAssignable := by
  cases e <;> simp only [relabel, isAssignable]

theorem name?_relabel (c : Relabel) (e : Expression) : (e.relabel c).name? = e.name? := by
  cases e <;> simp only [relabel, name?]

mutual

/-- `P` holds of the expression and of all expressions in it. -/
def All (P : Expression → Prop) : Expression → Prop
  | .binary n op left right => P (.binary n op left right) ∧ left.All P ∧ right.All P
  | .unary n op operand => P (.unary n op operand) ∧ operand.All P
  | .call n callee arguments => P (.call n callee arguments) ∧ callee.All P ∧ AllOf P arguments
  | .construct n callee arguments =>
    P (.construct n callee arguments) ∧ callee.All P ∧ AllOf P arguments
  | .member n object property => P (.member n object property) ∧ object.All P
  | .index n object position => P (.index n object position) ∧ object.All P ∧ position.All P
  | .conditional n condition yes no =>
    P (.conditional n condition yes no) ∧ condition.All P ∧ yes.All P ∧ no.All P
  | .array n elements => P (.array n elements) ∧ AllOf P elements
  | e => P e

def AllOf (P : Expression → Prop) : List Expression → Prop
  | [] => True
  | e :: es => e.All P ∧ AllOf P es

end

mutual

/-- The property can be tested in a whole tree if it can be tested at each expression. -/
def decideAll (P : Expression → Prop) [DecidablePred P] : ∀ e : Expression, Decidable (e.All P)
  | .number .. | .string .. | .boolean .. | .null .. | .identifier .. =>
    inferInstanceAs (Decidable (P _))
  | .binary _ _ left right =>
    have := decideAll P left
    have := decideAll P right
    inferInstanceAs (Decidable (P _ ∧ _ ∧ _))
  | .unary _ _ operand =>
    have := decideAll P operand
    inferInstanceAs (Decidable (P _ ∧ _))
  | .call _ callee arguments | .construct _ callee arguments =>
    have := decideAll P callee
    have := decideAllOf P arguments
    inferInstanceAs (Decidable (P _ ∧ _ ∧ _))
  | .member _ object _ =>
    have := decideAll P object
    inferInstanceAs (Decidable (P _ ∧ _))
  | .index _ object position =>
    have := decideAll P object
    have := decideAll P position
    inferInstanceAs (Decidable (P _ ∧ _ ∧ _))
  | .conditional _ condition yes no =>
    have := decideAll P condition
    have := decideAll P yes
    have := decideAll P no
    inferInstanceAs (Decidable (P _ ∧ _ ∧ _ ∧ _))
  | .array _ elements =>
    have := decideAllOf P elements
    inferInstanceAs (Decidable (P _ ∧ _))

def decideAllOf (P : Expression → Prop) [DecidablePred P] :
    ∀ es : List Expression, Decidable (AllOf P es)
  | [] => isTrue trivial
  | e :: es =>
    have := decideAll P e
    have := decideAllOf P es
    inferInstanceAs (Decidable (e.All P ∧ AllOf P es))

end

instance (P : Expression → Prop) [DecidablePred P] : DecidablePred (All P) := decideAll P

theorem All.self {P : Expression → Prop} {e : Expression} (h : e.All P) : P e := by
  cases e with
  | number | string | boolean | null | identifier => exact h
  | _ => exact h.1

mutual

/-- What follows from two properties at each expression follows in all of a tree. -/
theorem All.imp₂ {P Q R : Expression → Prop} (hR : ∀ e, P e → Q e → R e) :
    ∀ {e : Expression}, e.All P → e.All Q → e.All R
  | .number .., h, h' | .string .., h, h' | .boolean .., h, h' | .null .., h, h'
  | .identifier .., h, h' => hR _ h h'
  | .binary .., h, h' => ⟨hR _ h.1 h'.1, All.imp₂ hR h.2.1 h'.2.1, All.imp₂ hR h.2.2 h'.2.2⟩
  | .unary .., h, h' => ⟨hR _ h.1 h'.1, All.imp₂ hR h.2 h'.2⟩
  | .call .., h, h' => ⟨hR _ h.1 h'.1, All.imp₂ hR h.2.1 h'.2.1, AllOf.imp₂ hR h.2.2 h'.2.2⟩
  | .construct .., h, h' =>
    ⟨hR _ h.1 h'.1, All.imp₂ hR h.2.1 h'.2.1, AllOf.imp₂ hR h.2.2 h'.2.2⟩
  | .member .., h, h' => ⟨hR _ h.1 h'.1, All.imp₂ hR h.2 h'.2⟩
  | .index .., h, h' => ⟨hR _ h.1 h'.1, All.imp₂ hR h.2.1 h'.2.1, All.imp₂ hR h.2.2 h'.2.2⟩
  | .conditional .., h, h' =>
    ⟨hR _ h.1 h'.1, All.imp₂ hR h.2.1 h'.2.1, All.imp₂ hR h.2.2.1 h'.2.2.1,
      All.imp₂ hR h.2.2.2 h'.2.2.2⟩
  | .array .., h, h' => ⟨hR _ h.1 h'.1, AllOf.imp₂ hR h.2 h'.2⟩

theorem AllOf.imp₂ {P Q R : Expression → Prop} (hR : ∀ e, P e → Q e → R e) :
    ∀ {es : List Expression}, AllOf P es → AllOf Q es → AllOf R es
  | [], _, _ => trivial
  | _ :: _, h, h' => ⟨All.imp₂ hR h.1 h'.1, AllOf.imp₂ hR h.2 h'.2⟩

end

theorem All.mono {P Q : Expression → Prop} (hPQ : ∀ e, P e → Q e) {e : Expression} (h : e.All P) :
    e.All Q :=
  All.imp₂ (fun e hP _ => hPQ e hP) h h

mutual

theorem all_of_forall {P : Expression → Prop} (h : ∀ e, P e) : ∀ e : Expression, e.All P
  | .number .. | .string .. | .boolean .. | .null .. | .identifier .. => h _
  | .binary _ _ left right => ⟨h _, all_of_forall h left, all_of_forall h right⟩
  | .unary _ _ operand => ⟨h _, all_of_forall h operand⟩
  | .call _ callee arguments | .construct _ callee arguments =>
    ⟨h _, all_of_forall h callee, allOf_of_forall h arguments⟩
  | .member _ object _ => ⟨h _, all_of_forall h object⟩
  | .index _ object position => ⟨h _, all_of_forall h object, all_of_forall h position⟩
  | .conditional _ condition yes no =>
    ⟨h _, all_of_forall h condition, all_of_forall h yes, all_of_forall h no⟩
  | .array _ elements => ⟨h _, allOf_of_forall h elements⟩

theorem allOf_of_forall {P : Expression → Prop} (h : ∀ e, P e) : ∀ es, AllOf P es
  | [] => trivial
  | e :: es => ⟨all_of_forall h e, allOf_of_forall h es⟩

end

/-- The string at this node, if it is one, is spelt alike by both changes. -/
def SpeltAlike (c d : Relabel) : Expression → Prop
  | .string _ value quote raw => c.spelling value quote raw = d.spelling value quote raw
  | _ => True

mutual

/-- Two changes are one on a tree if they treat nodes and the strings of the tree alike. -/
theorem relabel_eq {c d : Relabel} (hnode : c.node = d.node) :
    ∀ {e : Expression}, e.All (SpeltAlike c d) → e.relabel c = e.relabel d
  | .number .., _ | .boolean .., _ | .null .., _ | .identifier .., _ => by
    simp only [relabel, hnode]
  | .string _ value quote raw, h => by
    have hspelling : c.spelling value quote raw = d.spelling value quote raw := h
    simp only [relabel, hnode, hspelling]
  | .binary .., h | .index .., h => by
    simp only [relabel, hnode, relabel_eq hnode h.2.1, relabel_eq hnode h.2.2]
  | .unary .., h | .member .., h => by
    simp only [relabel, hnode, relabel_eq hnode h.2]
  | .call .., h | .construct .., h => by
    simp only [relabel, hnode, relabel_eq hnode h.2.1, relabelAll_eq hnode h.2.2]
  | .conditional .., h => by
    simp only [relabel, hnode, relabel_eq hnode h.2.1, relabel_eq hnode h.2.2.1,
      relabel_eq hnode h.2.2.2]
  | .array .., h => by
    simp only [relabel, hnode, relabelAll_eq hnode h.2]

theorem relabelAll_eq {c d : Relabel} (hnode : c.node = d.node) :
    ∀ {es : List Expression}, AllOf (SpeltAlike c d) es → relabelAll c es = relabelAll d es
  | [], _ => rfl
  | _ :: _, h => by simp only [relabelAll, relabel_eq hnode h.1, relabelAll_eq hnode h.2]

end

end Expression

end DecimalLift
