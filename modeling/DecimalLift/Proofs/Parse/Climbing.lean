import DecimalLift.Proofs.Parse.Locality

/-!
# Climbing precedence finds the one right grouping

Operands with operators between them can be grouped in many ways. Precedence and associativity
single one of them out, and the reader of operators returns that one.

* `Grouping` — operands joined by operators, and `Grouping.inorder`, what it is a grouping of.
* `Grouping.Grouped` — every operator stands above operators that bind tightly enough.
* `Grouping.eq_of_inorder` — operands and operators have at most one such grouping.
* `Operand`, `Link` — an operand as a sequence of tokens, and an operator with the operand behind it.
* `Builds` — the expression that is built for a grouping, with its ids.
* `climbsOver` — what the reader makes of a run of links, by induction on their number.
* `binary_groups` — the reader takes the operators that bind tightly enough and groups them right.
-/

set_option autoImplicit false

namespace DecimalLift

/-! ## Operators side by side -/

namespace BinaryOp

/-- Whether `inner` may join the left operand of `op`. -/
def AdmitsLeft (op inner : BinaryOp) : Prop :=
  if op = .exp then op.precedence < inner.precedence else op.precedence ≤ inner.precedence

/-- Whether `inner` may join the right operand of `op`. -/
def AdmitsRight (op inner : BinaryOp) : Prop :=
  if op = .exp then op.precedence ≤ inner.precedence else op.precedence < inner.precedence

instance (op inner : BinaryOp) : Decidable (op.AdmitsLeft inner) :=
  inferInstanceAs (Decidable
    (if op = .exp then op.precedence < inner.precedence else op.precedence ≤ inner.precedence))

instance (op inner : BinaryOp) : Decidable (op.AdmitsRight inner) :=
  inferInstanceAs (Decidable
    (if op = .exp then op.precedence ≤ inner.precedence else op.precedence < inner.precedence))

variable {op inner next : BinaryOp}

theorem AdmitsLeft.le (h : op.AdmitsLeft inner) : op.precedence ≤ inner.precedence := by
  unfold AdmitsLeft at h
  split at h
  · exact Nat.le_of_lt h
  · exact h

theorem AdmitsRight.le (h : op.AdmitsRight inner) : op.precedence ≤ inner.precedence := by
  unfold AdmitsRight at h
  split at h
  · exact h
  · exact Nat.le_of_lt h

/-- Exponentiation binds tighter than every other operator. -/
theorem eq_exp_of_le (h : BinaryOp.exp.precedence ≤ op.precedence) : op = .exp := by
  cases op <;> first | rfl | exact absurd h (by decide)

/-- Of two operators that stand side by side, only one can be above the other. -/
theorem not_admitsLeft_of_admitsRight {inner' : BinaryOp} (hright : op.AdmitsRight inner)
    (hnext : inner.precedence ≤ next.precedence) (hop : inner'.precedence ≤ op.precedence) :
    ¬ next.AdmitsLeft inner' := by
  intro hleft
  have hle : next.precedence ≤ op.precedence := Nat.le_trans hleft.le hop
  by_cases hexp : op = .exp
  · subst hexp
    obtain rfl : next = .exp := eq_exp_of_le (Nat.le_trans hright.le hnext)
    rw [AdmitsLeft, if_pos rfl] at hleft
    omega
  · rw [AdmitsRight, if_neg hexp] at hright
    omega

theorem isRightAssociative_iff (h : op.isAssignment = false) :
    op.isRightAssociative = true ↔ op = .exp := by
  unfold isRightAssociative
  rw [h, Bool.or_false, beq_iff_eq]

/-- What the right operand takes may stand there. -/
theorem admitsRight_of_rightLevel_le (h : op.isAssignment = false)
    (hle : op.rightLevel ≤ inner.precedence) : op.AdmitsRight inner := by
  unfold rightLevel at hle
  unfold AdmitsRight
  by_cases hexp : op = .exp
  · rw [if_pos ((isRightAssociative_iff h).2 hexp)] at hle
    rwa [if_pos hexp]
  · rw [if_neg (fun hright => hexp ((isRightAssociative_iff h).1 hright))] at hle
    rwa [if_neg hexp]

/-- What the right operand leaves may stand above. -/
theorem admitsLeft_of_lt_rightLevel (hlt : next.precedence < op.rightLevel) :
    next.AdmitsLeft op := by
  have hle : op.rightLevel ≤ BinaryOp.exp.precedence := by
    cases op <;> decide
  have hnext : next ≠ .exp := by
    rintro rfl
    omega
  unfold AdmitsLeft
  rw [if_neg hnext]
  unfold rightLevel at hlt
  split at hlt <;> omega

end BinaryOp

/-! ## Groupings -/

/-- Operands joined by operators. -/
inductive Grouping (α : Type) where
  | operand (a : α)
  | join (op : BinaryOp) (left right : Grouping α)

namespace Grouping

variable {α : Type}

/-- Operands and operators from left to right. -/
def inorder : Grouping α → List (α ⊕ BinaryOp)
  | operand a => [.inl a]
  | join op left right => left.inorder ++ .inr op :: right.inorder

/-- The operator that is applied last. -/
def root? : Grouping α → Option BinaryOp
  | operand _ => none
  | join op _ _ => some op

/-- Every operator admits those that join its operands. -/
def Grouped : Grouping α → Prop
  | operand _ => True
  | join op left right =>
    ((∀ o ∈ left.root?, op.AdmitsLeft o) ∧ ∀ o ∈ right.root?, op.AdmitsRight o) ∧
      left.Grouped ∧ right.Grouped

instance decideGrouped : ∀ t : Grouping α, Decidable t.Grouped
  | operand _ => isTrue trivial
  | join op left right =>
    have := decideGrouped left
    have := decideGrouped right
    inferInstanceAs (Decidable
      (((∀ o ∈ left.root?, op.AdmitsLeft o) ∧ ∀ o ∈ right.root?, op.AdmitsRight o) ∧
        left.Grouped ∧ right.Grouped))

/-- The last operator binds least. -/
theorem Grouped.root_le {t : Grouping α} (h : t.Grouped) {o : BinaryOp} (ho : .inr o ∈ t.inorder) :
    ∃ r ∈ t.root?, r.precedence ≤ o.precedence := by
  induction t with
  | operand a => simp [inorder] at ho
  | join op left right ihleft ihright =>
    obtain ⟨⟨hleft, hright⟩, hl, hr⟩ := h
    refine ⟨op, rfl, ?_⟩
    rw [inorder, List.mem_append, List.mem_cons] at ho
    rcases ho with ho | ho | ho
    · obtain ⟨r, hr, hle⟩ := ihleft hl ho
      exact Nat.le_trans (hleft r hr).le hle
    · cases ho
      exact Nat.le_refl _
    · obtain ⟨r, hr, hle⟩ := ihright hr ho
      exact Nat.le_trans (hright r hr).le hle

/-- The last operator of one grouping is not to the left of that of another one. -/
theorem Grouped.root_not_left {op op' : BinaryOp} {left right left' right' : Grouping α}
    {between : List (α ⊕ BinaryOp)} (h : (join op left right).Grouped)
    (h' : (join op' left' right').Grouped)
    (hleft : left'.inorder = left.inorder ++ .inr op :: between)
    (hright : right.inorder = between ++ .inr op' :: right'.inorder) : False := by
  obtain ⟨⟨-, hadmits⟩, -, hr⟩ := h
  obtain ⟨⟨hadmits', -⟩, hl', -⟩ := h'
  obtain ⟨o, ho, hle⟩ := hr.root_le (o := op') (by rw [hright]; simp)
  obtain ⟨o', ho', hle'⟩ := hl'.root_le (o := op) (by rw [hleft]; simp)
  exact BinaryOp.not_admitsLeft_of_admitsRight (hadmits o ho) hle hle' (hadmits' o' ho')

theorem inorder_ne_nil (t : Grouping α) : t.inorder ≠ [] := by
  cases t <;> simp [inorder]

/-- Where the heads of two splittings of one list are. -/
theorem append_cons_eq_append_cons {β : Type} {xs xs' ys ys' : List β} {x x' : β}
    (h : xs ++ x :: ys = xs' ++ x' :: ys') :
    (xs = xs' ∧ x = x' ∧ ys = ys') ∨ (∃ zs, xs' = xs ++ x :: zs ∧ ys = zs ++ x' :: ys') ∨
      ∃ zs, xs = xs' ++ x' :: zs ∧ ys' = zs ++ x :: ys := by
  rcases List.append_eq_append_iff.1 h with ⟨zs, hxs, hys⟩ | ⟨zs, hxs, hys⟩
  · cases zs with
    | nil =>
      injection hys with hx hys
      exact Or.inl ⟨by rw [hxs, List.append_nil], hx, hys⟩
    | cons z zs =>
      injection hys with hx hys
      exact Or.inr (Or.inl ⟨zs, hx ▸ hxs, hys⟩)
  · cases zs with
    | nil =>
      injection hys with hx hys
      exact Or.inl ⟨by rw [hxs, List.append_nil], hx.symm, hys.symm⟩
    | cons z zs =>
      injection hys with hx hys
      exact Or.inr (Or.inr ⟨zs, hx ▸ hxs, hys⟩)

/-- **Operands and operators have at most one right grouping.** -/
theorem eq_of_inorder : ∀ {t t' : Grouping α}, t.Grouped → t'.Grouped → t.inorder = t'.inorder →
    t = t'
  | operand a, operand a', _, _, h => by
    cases h
    rfl
  | operand a, join op left right, _, _, h | join op left right, operand a, _, _, h => by
    have hlength := congrArg List.length h
    have := List.length_pos_iff.2 left.inorder_ne_nil
    simp only [inorder, List.length_append, List.length_cons, List.length_nil] at hlength
    omega
  | join op left right, join op' left' right', ht, ht', h => by
    -- the last operators are in the same place, or one is to the left of the other
    rcases append_cons_eq_append_cons h with ⟨hleft, hop, hright⟩ | ⟨_, hleft, hright⟩ |
      ⟨_, hleft, hright⟩
    · cases hop
      rw [eq_of_inorder ht.2.1 ht'.2.1 hleft, eq_of_inorder ht.2.2 ht'.2.2 hright]
    · exact (ht.root_not_left ht' hleft hright).elim
    · exact (ht'.root_not_left ht hleft hright).elim

end Grouping

/-! ## Operands and links -/

namespace Parse

/-- A sequence of tokens that the reader of operands takes as a whole. -/
structure Operand where
  tokens : List Token
  whole : TakesWhole tokens []

/-- The token of an operator, and the operand behind it. -/
structure Link where
  token : Token
  op : BinaryOp
  operator : BinaryOp.ofOperand? token.kind = some op
  operand : Operand

/-- The tokens of links, one link after the other. -/
def Link.spread (links : List Link) : List Token :=
  links.flatMap fun l => l.token :: l.operand.tokens

/-- The operators and operands of links. -/
def Link.items (links : List Link) : List (Operand ⊕ BinaryOp) :=
  links.flatMap fun l => [.inr l.op, .inl l.operand]

/-- The last operand of a chain that starts with `first`. -/
def lastOperand (first : Operand) (links : List Link) : Operand :=
  (links.getLast?.map Link.operand).getD first

/-- What follows a chain does not go on with its last operand. -/
def Operand.EndsBefore (u : Operand) (rest : List Token) : Prop :=
  ∀ t ∈ rest.head?, TakesWhole u.tokens [t]

/-- A token that stands between operands does not go on with one. -/
theorem Link.endsOperand (l : Link) (ts : List Token) : EndsOperand (l.token :: ts) := by
  intro t ht
  cases ht
  have hkind := BinaryOp.kind_of_ofOperand? l.operator
  rw [hkind]
  cases l.op <;> exact ⟨nofun, nofun, nofun, fun _ => rfl⟩

/-- The expression `e` is what the reader makes of an operand, with the ids from `a` up to `b`. -/
def Operand.ReadsAs (u : Operand) (a : UInt32) (e : Expression) (b : UInt32) : Prop :=
  ∃ s s', s.tokens = u.tokens ∧ s.nextId = a ∧ unary s = .ok e s' ∧ s'.tokens = [] ∧ s'.nextId = b

/-- An operand is read in every place where it does not go on. -/
theorem Operand.reads (u : Operand) {rest vs : List Token} (hwhole : TakesWhole u.tokens rest)
    (hvs : Follows .unary rest vs) {s : ParserState} (hs : s.tokens = u.tokens ++ vs) :
    ∃ e s', Reads .unary s e s' ∧ s'.tokens = vs ∧ u.ReadsAs s.nextId e s'.nextId := by
  obtain ⟨e, s', hread, rfl⟩ := hwhole.reads hvs hs
  have halone := hread.alone hs
  exact ⟨e, s', hread, rfl, { s with tokens := u.tokens }, { s' with tokens := [] }, rfl, rfl,
    unary_eq_ok.2 halone, rfl, rfl⟩

theorem Operand.EndsBefore.reads {u : Operand} {rest : List Token} (h : u.EndsBefore rest)
    {s : ParserState} (hs : s.tokens = u.tokens ++ rest) :
    ∃ e s', Reads .unary s e s' ∧ s'.tokens = rest ∧ u.ReadsAs s.nextId e s'.nextId := by
  cases rest with
  | nil => exact u.reads u.whole (Or.inl rfl) hs
  | cons t rest =>
    have hfollows : Follows .unary [t] (t :: rest) := Or.inl rfl
    exact u.reads (h t rfl) hfollows hs

/-- The expression that is built for a grouping: an operand is what it is read as, and a join spans
its operands and gets the first id behind theirs. -/
inductive Builds : Grouping Operand → UInt32 → Expression → UInt32 → Prop
  | operand {u : Operand} {a b : UInt32} {e : Expression} (h : u.ReadsAs a e b) :
      Builds (.operand u) a e b
  | join {op : BinaryOp} {left right : Grouping Operand} {a b c : UInt32} {e f : Expression}
      (hleft : Builds left a e b) (hright : Builds right b f c) :
      Builds (.join op left right) a (.binary ⟨c, e.span.join f.span⟩ op e f) (c + 1)

/-! ## Climbing -/

/-- What the reader holds in front of some links: a right grouping, made of operators that bind as
tightly as `least`, that may become the left operand of the first link. -/
structure Holds (least : Nat) (links : List Link) (t : Grouping Operand) (a : UInt32)
    (e : Expression) (b : UInt32) : Prop where
  grouped : t.Grouped
  builds : Builds t a e b
  tight : ∀ o ∈ t.root?, least ≤ o.precedence
  admits : ∀ l ∈ links.head?, ∀ o ∈ t.root?, l.op.AdmitsLeft o

/-- What the reader has made when it stops: it has taken the links up to the first one that does not
bind as tightly as `least`, and grouped them with what it held, `before`. -/
def Climbed (least : Nat) (links : List Link) (rest : List Token)
    (before : List (Operand ⊕ BinaryOp)) (a : UInt32) (e : Expression) (s' : ParserState) : Prop :=
  ∃ taken left t, links = taken ++ left ∧ (∀ l ∈ taken, least ≤ l.op.precedence) ∧
    (∀ l ∈ left.head?, l.op.precedence < least) ∧ s'.tokens = Link.spread left ++ rest ∧
    t.inorder = before ++ Link.items taken ∧ Holds least [] t a e s'.nextId

/-- The loop of the reader gets past some links. -/
def ClimbsOver (rest : List Token) (links : List Link) : Prop :=
  ∀ ⦃least : Nat⦄ ⦃s : ParserState⦄ ⦃t : Grouping Operand⦄ ⦃a : UInt32⦄ ⦃e : Expression⦄,
    s.tokens = Link.spread links ++ rest → Holds least links t a e s.nextId →
    (∀ l ∈ links.getLast?, l.operand.EndsBefore rest) →
    ∃ e' s', Reads (.climb least e) s e' s' ∧ Climbed least links rest t.inorder a e' s'

variable {rest : List Token} {links : List Link} {least : Nat}

/-- The reader takes the first operand and gets past the links behind it. -/
theorem ClimbsOver.binary (h : ClimbsOver rest links) {first : Operand} {s : ParserState}
    (hs : s.tokens = first.tokens ++ (Link.spread links ++ rest))
    (hlast : (lastOperand first links).EndsBefore rest) :
    ∃ e s', Reads (.binary least) s e s' ∧ Climbed least links rest [.inl first] s.nextId e s' := by
  have hfirst : ∃ e s', Reads .unary s e s' ∧ s'.tokens = Link.spread links ++ rest ∧
      first.ReadsAs s.nextId e s'.nextId := by
    cases links with
    | nil => exact hlast.reads hs
    | cons l links => exact first.reads first.whole (Or.inr ⟨rfl, l.endsOperand _⟩) hs
  obtain ⟨e, s₁, hread, hs₁, hreads⟩ := hfirst
  have hholds : Holds least links (.operand first) s.nextId e s₁.nextId :=
    ⟨trivial, .operand hreads, (fun _ ho => nomatch ho), fun _ _ _ ho => nomatch ho⟩
  obtain ⟨e', s', hclimb, hclimbed⟩ := h hs₁ hholds (by
    intro l hl
    have hoperand : lastOperand first links = l.operand := by
      unfold lastOperand
      rw [hl]
      rfl
    exact hoperand ▸ hlast)
  exact ⟨e', s', .binary hread hclimb, hclimbed⟩

/-- The reader stops before an operator that does not bind tightly enough. -/
theorem climbed_of_stop {s : ParserState} {t : Grouping Operand} {a : UInt32} {e : Expression}
    (hs : s.tokens = Link.spread links ++ rest) (hholds : Holds least links t a e s.nextId)
    (hstop : ∀ l ∈ links.head?, l.op.precedence < least) :
    Climbed least links rest t.inorder a e s :=
  ⟨[], links, t, rfl, (fun _ hl => nomatch hl), hstop, hs, (List.append_nil _).symm, hholds.grouped,
    hholds.builds, hholds.tight, fun _ hl => nomatch hl⟩

/-- An operator is put above what the reader holds and the right operand that it has read. -/
theorem Holds.join {l : Link} {left links' : List Link} {t t' : Grouping Operand}
    {a b c : UInt32} {e f : Expression} (h : Holds least (l :: links') t a e b)
    (hleast : least ≤ l.op.precedence) (h' : Holds l.op.rightLevel [] t' b f c)
    (hstop : ∀ l' ∈ left.head?, l'.op.precedence < l.op.rightLevel) :
    Holds least left (.join l.op t t') a (.binary ⟨c, e.span.join f.span⟩ l.op e f) (c + 1) := by
  have hop : l.op.isAssignment = false := BinaryOp.not_isAssignment_of_ofOperand? l.operator
  refine ⟨⟨⟨h.admits l rfl, fun o ho => ?_⟩, h.grouped, h'.grouped⟩, .join h.builds h'.builds,
    ?_, ?_⟩
  · exact BinaryOp.admitsRight_of_rightLevel_le hop (h'.tight o ho)
  · intro o ho
    cases ho
    exact hleast
  · intro l' hl' o ho
    cases ho
    exact BinaryOp.admitsLeft_of_lt_rightLevel (hstop l' hl')

theorem lastOperand_of_getLast? {l : Link}
    (hlast : ∀ l' ∈ (l :: links).getLast?, l'.operand.EndsBefore rest) :
    (lastOperand l.operand links).EndsBefore rest := by
  rw [List.getLast?_cons] at hlast
  unfold lastOperand
  rw [Option.getD_map]
  exact hlast _ rfl

/-- **The loop gets past any links.** The right operand takes some of them, and the loop goes on with
the others, so the induction is on how many there are. -/
theorem climbsOver (hrest : ∀ t ∈ rest.head?, BinaryOp.ofOperand? t.kind = none)
    (links : List Link) : ClimbsOver rest links := by
  induction hn : links.length using Nat.strongRecOn generalizing links with
  | _ n ih =>
    subst hn
    intro least s t a e hs hholds hlast
    cases links with
    | nil =>
      refine ⟨e, s, .climb_stop fun op hop => ?_, climbed_of_stop hs hholds fun _ hl => nomatch hl⟩
      obtain ⟨u, us, hu, hop⟩ := ParserState.exists_of_bind_kind? hop
      have htokens : rest = u :: us := hs.symm.trans hu
      have hhead : rest.head? = some u := by
        rw [htokens]
        rfl
      rw [hrest u hhead] at hop
      cases hop
    | cons l links =>
      have hs' : s.tokens = l.token :: (l.operand.tokens ++ (Link.spread links ++ rest)) := by
        rw [hs]
        simp [Link.spread]
      by_cases hleast : least ≤ l.op.precedence
      · obtain ⟨f, s₁, hright, taken, left, t', rfl, htaken, hleft, hs₁, hinorder, hholds'⟩ :=
          ClimbsOver.binary (ih links.length (Nat.lt_succ_self _) links rfl)
            (s := s.past l.token (l.operand.tokens ++ (Link.spread links ++ rest))) rfl
            (lastOperand_of_getLast? hlast)
        have hjoined := hholds.join hleast hholds' hleft
        have hshorter : left.length < (l :: (taken ++ left)).length := by
          rw [List.length_cons, List.length_append]
          omega
        obtain ⟨e', s', hclimb, taken', left', t'', rfl, htaken', hleft', hs'', hinorder', hdone⟩ :=
          ih left.length hshorter left rfl (s := s₁.grown) hs₁ hjoined fun l' hl' => by
            refine hlast l' ?_
            rw [← List.cons_append, List.getLast?_append, hl']
            rfl
        refine ⟨e', s', .climb_step hs' l.operator hleast hright hclimb, l :: taken ++ taken', left',
          t'', by simp, ?_, hleft', hs'', ?_, hdone⟩
        · intro l' hl'
          rw [List.mem_append, List.mem_cons] at hl'
          rcases hl' with (rfl | hl') | hl'
          · exact hleast
          · have hlevel := l.op.precedence_le_rightLevel
            have := htaken l' hl'
            omega
          · exact htaken' l' hl'
        · rw [hinorder', Grouping.inorder, hinorder]
          simp [Link.items]
      · refine ⟨e, s, .climb_stop fun op hop => ?_, climbed_of_stop hs hholds fun l' hl' => ?_⟩
        · rw [ParserState.kind?_of_tokens hs', Option.bind_some, l.operator] at hop
          cases hop
          exact Nat.lt_of_not_le hleast
        · cases hl'
          exact Nat.lt_of_not_le hleast

/-- How far the reader gets: up to the first link that does not bind tightly enough. -/
theorem takeWhile_append_of_head {taken left : List Link}
    (htaken : ∀ l ∈ taken, least ≤ l.op.precedence)
    (hleft : ∀ l ∈ left.head?, l.op.precedence < least) :
    (taken ++ left).takeWhile (fun l => decide (least ≤ l.op.precedence)) = taken ∧
      (taken ++ left).dropWhile (fun l => decide (least ≤ l.op.precedence)) = left := by
  have hall : ∀ l ∈ taken, decide (least ≤ l.op.precedence) = true :=
    fun l hl => decide_eq_true (htaken l hl)
  rw [List.takeWhile_append_of_pos hall, List.dropWhile_append_of_pos hall]
  cases left with
  | nil => exact ⟨List.append_nil _, rfl⟩
  | cons l left =>
    have hstop : ¬ least ≤ l.op.precedence := Nat.not_le.2 (hleft l rfl)
    simp [hstop]

/-- **Climbing precedence finds the one right grouping.** From operands with operators between them
the reader takes all up to the first operator that binds looser than `least`, and what it builds is
the only grouping of what it took in which every operator admits those that join its operands. -/
theorem binary_groups (least : Nat) (first : Operand) (links : List Link) {rest : List Token}
    {s : ParserState} (hs : s.tokens = first.tokens ++ (Link.spread links ++ rest))
    (hrest : ∀ t ∈ rest.head?, BinaryOp.ofOperand? t.kind = none)
    (hlast : (lastOperand first links).EndsBefore rest) :
    ∃ e s' t, binary least s = .ok e s' ∧
      s'.tokens =
        Link.spread (links.dropWhile fun l => decide (least ≤ l.op.precedence)) ++ rest ∧
      Builds t s.nextId e s'.nextId ∧
      ∀ t' : Grouping Operand,
        (t'.Grouped ∧ t'.inorder = .inl first ::
          Link.items (links.takeWhile fun l => decide (least ≤ l.op.precedence))) ↔ t' = t := by
  obtain ⟨e, s', hread, taken, left, t, rfl, htaken, hleft, hs', hinorder, hholds⟩ :=
    (climbsOver hrest links).binary hs hlast
  obtain ⟨htake, hdrop⟩ := takeWhile_append_of_head htaken hleft
  rw [htake, hdrop]
  refine ⟨e, s', t, binary_eq_ok.2 hread, hs', hholds.builds, fun t' => ⟨?_, ?_⟩⟩
  · rintro ⟨hgrouped, ht'⟩
    exact Grouping.eq_of_inorder hgrouped hholds.grouped (ht'.trans hinorder.symm)
  · rintro rfl
    exact ⟨hholds.grouped, hinorder⟩

/-- A symbol, and a name, somewhere on a line. -/
def symbolToken (y : Symbol) : Token := ⟨.symbol y, .synthesized, false⟩

def nameToken (x : String) : Token := ⟨.identifier x, .synthesized, false⟩

def Operand.ofName (x : String) : Operand :=
  ⟨[nameToken x], ⟨_, "", .synthesized, 0⟩, _, _, rfl, rfl, rfl⟩

/-- `-x` -/
def Operand.negated (x : String) : Operand :=
  ⟨[symbolToken .minus, nameToken x], ⟨_, "", .synthesized, 0⟩, _, _, rfl, rfl, rfl⟩

/-- `(x + y)` -/
def Operand.sum (x y : String) : Operand :=
  ⟨[symbolToken .leftParen, nameToken x, symbolToken .plus, nameToken y, symbolToken .rightParen],
    ⟨_, "", .synthesized, 0⟩, _, _, rfl, rfl, rfl⟩

/-- The links of `a - b ** -c ** (d + e) * f < g`. -/
def mixedLinks : List Link :=
  [⟨symbolToken .minus, .sub, rfl, .ofName "b"⟩, ⟨symbolToken .starStar, .exp, rfl, .negated "c"⟩,
    ⟨symbolToken .starStar, .exp, rfl, .sum "d" "e"⟩, ⟨symbolToken .star, .mul, rfl, .ofName "f"⟩,
    ⟨symbolToken .less, .less, rfl, .ofName "g"⟩]

/-- `a - ((b ** (-c ** (d + e))) * f)` -/
def mixedGrouping : Grouping Operand :=
  .join .sub (.operand (.ofName "a"))
    (.join .mul
      (.join .exp (.operand (.ofName "b"))
        (.join .exp (.operand (.negated "c")) (.operand (.sum "d" "e"))))
      (.operand (.ofName "f")))

def mixedState : ParserState :=
  ⟨(Operand.ofName "a").tokens ++ (Link.spread mixedLinks ++ [symbolToken .semicolon]), "m.ts",
    .start "m.ts", 7⟩

theorem binary_groups_mixed :
    ∃ e s', binary Precedence.additive mixedState = .ok e s' ∧
      s'.tokens = [symbolToken .less, nameToken "g", symbolToken .semicolon] ∧
      Builds mixedGrouping 7 e s'.nextId := by
  have hlast : (lastOperand (.ofName "a") mixedLinks).EndsBefore [symbolToken .semicolon] := by
    intro t ht
    cases ht
    exact ⟨⟨_, "", .synthesized, 0⟩, _, _, rfl, rfl, rfl⟩
  have hrest : ∀ t ∈ [symbolToken .semicolon].head?, BinaryOp.ofOperand? t.kind = none := by
    intro t ht
    cases ht
    rfl
  obtain ⟨e, s', t, hread, hleft, hbuilds, hunique⟩ :=
    binary_groups Precedence.additive (.ofName "a") mixedLinks (s := mixedState) rfl hrest hlast
  obtain rfl : mixedGrouping = t := (hunique _).1 ⟨by decide, rfl⟩
  exact ⟨e, s', hread, hleft, hbuilds⟩

end Parse

end DecimalLift
