import FlowLint.Proofs.Grammar.Bound
import FlowLint.Proofs.Token.Lexical

namespace FlowLint
set_option autoImplicit true

namespace BinaryOp

variable {op inner : BinaryOp}

/-- An operator may have another one on top of its left operand. -/
def AllowsLeft (op inner : BinaryOp) : Prop :=
  if op = power then op.precedence < inner.precedence else op.precedence ≤ inner.precedence

/-- An operator may have another one on top of its right operand. -/
def AllowsRight (op inner : BinaryOp) : Prop :=
  if op = power then op.precedence ≤ inner.precedence else op.precedence < inner.precedence

theorem precedence_lt (h : op ≠ power) : op.precedence < 12 := by
  cases op with
  | power => exact absurd rfl h
  | _ => decide

theorem precedence_le_rightPrecedence (op : BinaryOp) : op.precedence ≤ op.rightPrecedence := by
  unfold rightPrecedence
  split <;> omega

theorem allowsRight_iff : op.AllowsRight inner ↔ op.rightPrecedence ≤ inner.precedence := by
  unfold AllowsRight rightPrecedence
  split
  · exact Iff.rfl
  · exact Nat.lt_iff_add_one_le

theorem allowsLeft_iff : op.AllowsLeft inner ↔ op.precedence < inner.rightPrecedence := by
  have hpower : power.precedence = 12 := rfl
  have hop : op ≠ power → op.precedence < 12 := precedence_lt
  have hinner : inner ≠ power → inner.precedence < 12 := precedence_lt
  unfold AllowsLeft rightPrecedence
  grind

/-- Two operators side by side can be grouped in one way only. -/
theorem AllowsLeft.not_allowsRight (h : op.AllowsLeft inner) : ¬ inner.AllowsRight op := by
  rw [allowsLeft_iff] at h
  rw [allowsRight_iff]
  omega

theorem AllowsLeft.precedence_le (h : op.AllowsLeft inner) : op.precedence ≤ inner.precedence := by
  unfold AllowsLeft at h
  split at h <;> omega

theorem AllowsRight.precedence_le (h : op.AllowsRight inner) :
    op.precedence ≤ inner.precedence := by
  unfold AllowsRight at h
  split at h <;> omega

theorem AllowsLeft.mono (h : op.AllowsLeft inner) (hle : inner.precedence ≤ other.precedence) :
    op.AllowsLeft other := by
  unfold AllowsLeft at *
  split at h <;> simp_all <;> omega

theorem AllowsRight.mono (h : op.AllowsRight inner) (hle : inner.precedence ≤ other.precedence) :
    op.AllowsRight other := by
  rw [allowsRight_iff] at *
  omega

end BinaryOp

/-- A grouping of operands that are joined by binary operators. The operands are whole, even one
that is itself an operator with its operands in parentheses. -/
inductive Grouping
  | operand (expr : Expr)
  | join (op : BinaryOp) (left right : Grouping)

namespace Grouping

def expr : Grouping → Expr
  | operand expr => expr
  | join op left right =>
    .binary ⟨left.expr.range.start, right.expr.range.stop⟩ op left.expr right.expr

def first : Grouping → Expr
  | operand expr => expr
  | join _ left _ => left.first

def rest : Grouping → List (BinaryOp × Expr)
  | operand _ => []
  | join op left right => left.rest ++ (op, right.first) :: right.rest

def top? : Grouping → Option BinaryOp
  | operand _ => none
  | join op _ _ => some op

/-- Every operator may have those that are on top of its operands. -/
def Lawful : Grouping → Prop
  | operand _ => True
  | join op left right =>
    left.Lawful ∧ right.Lawful ∧ (∀ inner ∈ left.top?, op.AllowsLeft inner) ∧
      ∀ inner ∈ right.top?, op.AllowsRight inner

/-- A grouping is lawful, and its operands and operators are those of a chain in this order. -/
structure Groups (tree : Grouping) (first : Expr) (rest : List (BinaryOp × Expr)) : Prop where
  first : tree.first = first
  rest : tree.rest = rest
  lawful : tree.Lawful

variable {tree other left right : Grouping} {op : BinaryOp} {pair : BinaryOp × Expr}

theorem exists_mem_rest (h : tree.top? = some op) : ∃ operand, (op, operand) ∈ tree.rest := by
  cases tree with
  | operand => cases h
  | join _ left right =>
    cases h
    exact ⟨right.first, List.mem_append_right _ (List.mem_cons_self ..)⟩

/-- No operator binds looser than the one on top. -/
theorem Lawful.exists_top_le (h : tree.Lawful) (hm : pair ∈ tree.rest) :
    ∃ op, tree.top? = some op ∧ op.precedence ≤ pair.1.precedence := by
  induction tree with
  | operand => cases hm
  | join op left right ihl ihr =>
    obtain ⟨hl, hr, hleft, hright⟩ := h
    refine ⟨op, rfl, ?_⟩
    rcases List.mem_append.1 hm with hm | hm
    · obtain ⟨inner, hi, hle⟩ := ihl hl hm
      exact Nat.le_trans (hleft inner hi).precedence_le hle
    rcases List.mem_cons.1 hm with rfl | hm
    · exact Nat.le_refl _
    · obtain ⟨inner, hi, hle⟩ := ihr hr hm
      exact Nat.le_trans (hright inner hi).precedence_le hle

theorem Lawful.allowsLeft (h : (join op left right).Lawful) (hm : pair ∈ left.rest) :
    op.AllowsLeft pair.1 := by
  obtain ⟨inner, hi, hle⟩ := h.1.exists_top_le hm
  exact (h.2.2.1 inner hi).mono hle

theorem Lawful.allowsRight (h : (join op left right).Lawful) (hm : pair ∈ right.rest) :
    op.AllowsRight pair.1 := by
  obtain ⟨inner, hi, hle⟩ := h.2.1.exists_top_le hm
  exact (h.2.2.2 inner hi).mono hle

/-- The operator on top of a lawful grouping cannot stand further left than that of another one: each
of the two would stand beside the other on the wrong side. -/
theorem Lawful.no_earlier_top (h : (join op left right).Lawful)
    (h' : (join op' left' right').Lawful) {between : List (BinaryOp × Expr)}
    (hl : left'.rest = left.rest ++ (op, right.first) :: between)
    (hr : right.rest = between ++ (op', right'.first) :: right'.rest) : False := by
  have hin' : (op, right.first) ∈ left'.rest := by simp [hl]
  have hin : (op', right'.first) ∈ right.rest := by simp [hr]
  exact (h'.allowsLeft hin').not_allowsRight (h.allowsRight hin)

/-- A chain has one lawful grouping at most. -/
theorem Lawful.unique (h : tree.Lawful) (h' : other.Lawful) (hf : tree.first = other.first)
    (hr : tree.rest = other.rest) : tree = other := by
  induction tree generalizing other with
  | operand expr =>
    cases other with
    | operand expr' => exact congrArg operand hf
    | join op' left' right' => simp [rest] at hr
  | join op left right ihl ihr =>
    cases other with
    | operand expr' => simp [rest] at hr
    | join op' left' right' =>
      rw [rest, rest] at hr
      -- The two operators on top stand at the same place, or one of them stands earlier.
      rcases List.append_eq_append_iff.1 hr with
        ⟨_ | ⟨pair, between⟩, hl, hr⟩ | ⟨_ | ⟨pair, between⟩, hl, hr⟩
      case inl.nil | inr.nil =>
        obtain ⟨hpair, hrest⟩ := List.cons.inj hr
        rw [List.append_nil] at hl
        grind [Lawful, first]
      case inl.cons =>
        obtain ⟨rfl, hrest⟩ := List.cons.inj hr
        exact (h.no_earlier_top h' hl hrest).elim
      case inr.cons =>
        obtain ⟨rfl, hrest⟩ := List.cons.inj hr
        exact (h'.no_earlier_top h hl hrest).elim

theorem Groups.unique {first : Expr} {rest : List (BinaryOp × Expr)} (h : tree.Groups first rest)
    (h' : other.Groups first rest) : tree = other :=
  h.lawful.unique h'.lawful (h.first.trans h'.first.symm) (h.rest.trans h'.rest.symm)

end Grouping

/-- From one cursor to another across binary operators, each with what is read as an operand behind
it. -/
inductive Cursor.Joins (noIn : Bool) : Cursor → List (BinaryOp × Expr) → Cursor → Prop
  | nil : Joins noIn c [] c
  | cons (ho : c.Passes token c₁) (hk : token.kind.binaryOp? noIn = some op)
      (hu : Production.unary.parse c₁ = .ok (operand, c₂)) (h : Joins noIn c₂ rest d) :
      Joins noIn c ((op, operand) :: rest) d

namespace Cursor.Joins

variable {noIn : Bool} {c m d : Cursor} {kept others : List (BinaryOp × Expr)}

theorem append (h : Joins noIn c kept m) (h' : Joins noIn m others d) :
    Joins noIn c (kept ++ others) d := by
  induction h with
  | nil => exact h'
  | cons ho hk hu _ ih => exact .cons ho hk hu (ih h')

end Cursor.Joins

namespace Production

variable {c c₁ c₂ d : Cursor} {least : Nat} {noIn : Bool}

theorem closed_of_parse {p : Production α} (hc : c.Closed) (ha : p.Admits c)
    (h : p.parse c = .ok (a, d)) : d.Closed :=
  (Grammar.sound_upTo _ p c hc ha a d h).1

theorem parse_binary_of_unary (hc : c.Closed) (hu : unary.parse c = .ok (left, c₁))
    (hr : (binaryRest least noIn left).parse c₁ = result) :
    (binary least noIn).parse c = result := by
  have hread : (binary least noIn).parse c = Grammar.binary parse least noIn c :=
    parse_eq_read hc trivial
  have hunary : unary.parse c = Grammar.unary parse c := parse_eq_read hc trivial
  have hrest : (binaryRest least noIn left).parse c₁ = Grammar.binaryRest parse least noIn left c₁ :=
    parse_eq_read (closed_of_parse (p := unary) hc trivial hu) trivial
  rw [hread, ← hr, hrest]
  change (Grammar.unary parse c >>= fun (left, d) => Grammar.binaryRest parse least noIn left d) = _
  rw [← hunary, hu]
  rfl

theorem parse_binaryRest (hc : c.Closed) :
    (binaryRest least noIn left).parse c =
      (match c.current.kind.binaryOp? noIn with
      | some op =>
        if op.precedence < least then .ok (left, c)
        else (binary op.rightPrecedence noIn).parse c.advance >>= fun (right, d) =>
          (binaryRest least noIn (.binary ⟨left.range.start, right.range.stop⟩ op left right)).parse d
      | none => .ok (left, c)) := by
  have hread : (binaryRest least noIn left).parse c = Grammar.binaryRest parse least noIn left c :=
    parse_eq_read hc trivial
  rw [hread]
  change (match c.current.kind.binaryOp? noIn with | some op => _ | none => _ : TokenReader Expr) c
    = _
  cases c.current.kind.binaryOp? noIn with
  | none => rfl
  | some op =>
    dsimp only
    split <;> rfl

/-- A chain ends in front of a token that is no operator, or one that binds too loosely. -/
theorem parse_binaryRest_stop (hc : c.Closed)
    (h : ∀ op ∈ c.current.kind.binaryOp? noIn, op.precedence < least) :
    (binaryRest least noIn left).parse c = .ok (left, c) := by
  rw [parse_binaryRest hc]
  split
  · next op ho => exact if_pos (h op ho)
  · rfl

/-- Behind an operator that binds tightly enough comes its right operand, and then the rest. -/
theorem parse_binaryRest_op (hc : c.Closed) (ho : c.current.kind.binaryOp? noIn = some op)
    (hle : least ≤ op.precedence) :
    (binaryRest least noIn left).parse c =
      ((binary op.rightPrecedence noIn).parse >>= fun right => (binaryRest least noIn
        (.binary ⟨left.range.start, right.range.stop⟩ op left right)).parse) c.advance := by
  rw [parse_binaryRest hc, ho]
  exact if_neg (Nat.not_lt.2 hle)

theorem parse_binaryRest_cons (hc : c.Closed) (hp : c.Passes token c₁)
    (ho : token.kind.binaryOp? noIn = some op) (hle : least ≤ op.precedence)
    (hr : (binary op.rightPrecedence noIn).parse c₁ = .ok (right, c₂)) :
    (binaryRest least noIn left).parse c = (binaryRest least noIn
      (.binary ⟨left.range.start, right.range.stop⟩ op left right)).parse c₂ := by
  rw [parse_binaryRest_op hc (hp.current.symm ▸ ho) hle, hp.advance]
  change ((binary op.rightPrecedence noIn).parse c₁ >>= _) = _
  rw [hr]
  rfl

/-- Behind a left operand, a chain is read up to the first operator that binds too loosely. -/
structure Climbs (least : Nat) (noIn : Bool) (left : Grouping) (c : Cursor) (tree : Grouping)
    (e : Cursor) (kept others : List (BinaryOp × Expr)) (d : Cursor) : Prop where
  before : c.Joins noIn kept e
  behind : e.Joins noIn others d
  tight : ∀ pair ∈ kept, least ≤ pair.1.precedence
  loose : ∀ pair ∈ others.head?, pair.1.precedence < least
  groups : tree.Groups left.first (left.rest ++ kept)
  parse : (binaryRest least noIn left.expr).parse c = .ok (tree.expr, e)

theorem climbs_self (hd : d.current.kind.binaryOp? noIn = none) {left : Grouping}
    {rest : List (BinaryOp × Expr)} (hc : c.Closed) (h : c.Joins noIn rest d) (hl : left.Lawful)
    (hr : ∀ pair ∈ rest.head?, pair.1.precedence < least) :
    Climbs least noIn left c left c [] rest d := by
  refine ⟨.nil, h, nofun, hr, ⟨rfl, by simp, hl⟩, parse_binaryRest_stop hc ?_⟩
  cases h with
  | nil => simp [hd]
  | cons ho hk => simpa [ho.current, hk] using hr

/-- The induction is on the length of the chain: the right operand of an operator takes a part of
it, and the reading goes on with the rest. -/
theorem exists_climbs (hd : d.current.kind.binaryOp? noIn = none) (n least : Nat)
    (left : Grouping) {rest : List (BinaryOp × Expr)} (hn : rest.length ≤ n) (hc : c.Closed)
    (h : c.Joins noIn rest d) (hl : left.Lawful)
    (hf : ∀ inner ∈ left.top?, ∀ pair ∈ rest.head?, pair.1.AllowsLeft inner) :
    ∃ tree e kept others, rest = kept ++ others ∧
      Climbs least noIn left c tree e kept others d := by
  induction n generalizing c least left rest with
  | zero =>
    obtain rfl := List.length_eq_zero_iff.1 (Nat.le_zero.1 hn)
    exact ⟨left, c, [], [], rfl, climbs_self hd hc h hl nofun⟩
  | succ n ih =>
    cases h with
    | nil => exact ⟨left, d, [], [], rfl, climbs_self hd hc .nil hl nofun⟩
    | @cons op c₁ operand c₂ rest _ _ token ho hk hu h =>
      by_cases hlt : op.precedence < least
      · have hloose : ∀ pair ∈ ((op, operand) :: rest).head?, pair.1.precedence < least := by
          simpa using hlt
        exact ⟨left, c, [], _, rfl, climbs_self hd hc (.cons ho hk hu h) hl hloose⟩
      have hle := Nat.not_lt.1 hlt
      have hc₁ := ho.closed hc
      have hc₂ := closed_of_parse (p := unary) hc₁ trivial hu
      have hlen : rest.length ≤ n := Nat.le_of_succ_le_succ hn
      -- The right operand takes the operators that bind tightly enough.
      obtain ⟨right, e₁, kept₁, others₁, rfl, hright⟩ :=
        ih op.rightPrecedence (.operand operand) hlen hc₂ h trivial nofun
      have hparse := parse_binary_of_unary hc₁ hu hright.parse
      have he₁ : e₁.Closed := closed_of_parse (p := binary op.rightPrecedence noIn) hc₁ trivial hparse
      have hjoin : (Grouping.join op left right).Lawful := by
        refine ⟨hl, hright.groups.lawful, fun inner hi => hf inner hi _ rfl, fun inner hi => ?_⟩
        obtain ⟨operand, hm⟩ := Grouping.exists_mem_rest hi
        rw [hright.groups.rest] at hm
        exact BinaryOp.allowsRight_iff.2 (hright.tight _ hm)
      have hfit : ∀ inner ∈ (Grouping.join op left right).top?, ∀ pair ∈ others₁.head?,
          pair.1.AllowsLeft inner := by
        rintro inner ⟨⟩ pair hp
        exact BinaryOp.allowsLeft_iff.2 (hright.loose pair hp)
      have hlen₁ : others₁.length ≤ n := by
        rw [List.length_append] at hlen
        omega
      obtain ⟨tree, e, kept, others, rfl, htree⟩ :=
        ih least (.join op left right) hlen₁ he₁ hright.behind hjoin hfit
      have hkept : c.Joins noIn ((op, operand) :: kept₁ ++ kept) e :=
        (Cursor.Joins.cons ho hk hu hright.before).append htree.before
      refine ⟨tree, e, (op, operand) :: kept₁ ++ kept, others, by simp, hkept, htree.behind, ?tight,
        htree.loose, ?groups, ?parse⟩
      case tight =>
        have hop := op.precedence_le_rightPrecedence
        rw [List.cons_append, List.forall_mem_cons, List.forall_mem_append]
        refine ⟨hle, fun pair hm => ?_, htree.tight⟩
        exact Nat.le_trans hle (Nat.le_trans hop (hright.tight pair hm))
      case groups =>
        obtain ⟨hfirst, hrest, hlawful⟩ := htree.groups
        refine ⟨hfirst, ?_, hlawful⟩
        rw [hrest, Grouping.rest, hright.groups.first, hright.groups.rest]
        simp [Grouping.first, Grouping.rest]
      case parse => exact (parse_binaryRest_cons hc ho hk hle hparse).trans htree.parse

variable {first : Expr} {rest : List (BinaryOp × Expr)}

/-- A chain of operands and binary operators is read as a whole, and as its only lawful grouping.
When a least precedence is asked for, the same holds of the longest front part of the chain whose
operators all have it. An operand is whatever is read as one in front of the next token, and with
`noIn` the word `in` is no operator. -/
theorem parse_chain (hc : c.Closed) (hu : unary.parse c = .ok (first, c₁))
    (h : c₁.Joins noIn rest d) (hd : d.current.kind.binaryOp? noIn = none) :
    (∃ tree : Grouping, (binary 0 noIn).parse c = .ok (tree.expr, d) ∧
      ∀ other : Grouping, other.Groups first rest ↔ other = tree) ∧
    ∀ least, ∃ e, c₁.Joins noIn (rest.takeWhile (least ≤ ·.1.precedence)) e ∧
      e.Joins noIn (rest.dropWhile (least ≤ ·.1.precedence)) d ∧
      ∃ tree : Grouping, (binary least noIn).parse c = .ok (tree.expr, e) ∧
        ∀ other : Grouping,
          other.Groups first (rest.takeWhile (least ≤ ·.1.precedence)) ↔ other = tree := by
  have hc₁ := closed_of_parse (p := unary) hc trivial hu
  have hread : ∀ least, ∃ tree e kept others, rest = kept ++ others ∧
      Climbs least noIn (.operand first) c₁ tree e kept others d := fun least =>
    exists_climbs hd rest.length least _ (Nat.le_refl _) hc₁ h trivial nofun
  have honly {tree : Grouping} {kept : List (BinaryOp × Expr)} (hg : tree.Groups first kept)
      (other : Grouping) : other.Groups first kept ↔ other = tree :=
    ⟨fun ho => ho.unique hg, fun he => he ▸ hg⟩
  constructor
  · obtain ⟨tree, e, kept, others, rfl, hclimbs⟩ := hread 0
    have hnone : others = [] := by
      cases others with
      | nil => rfl
      | cons pair others => exact absurd (hclimbs.loose pair rfl) (Nat.not_lt_zero _)
    subst hnone
    cases hclimbs.behind
    rw [List.append_nil]
    exact ⟨tree, parse_binary_of_unary hc hu hclimbs.parse, honly hclimbs.groups⟩
  · intro least
    obtain ⟨tree, e, kept, others, rfl, hclimbs⟩ := hread least
    have htight : ∀ pair ∈ kept, decide (least ≤ pair.1.precedence) = true :=
      fun pair hm => decide_eq_true (hclimbs.tight pair hm)
    have hloose : ∀ pair ∈ others.head?, decide (least ≤ pair.1.precedence) = false :=
      fun pair hm => decide_eq_false (Nat.not_le.2 (hclimbs.loose pair hm))
    rw [takeWhile_append_stop htight hloose, dropWhile_append_stop htight hloose]
    exact ⟨e, hclimbs.before, hclimbs.behind, tree, parse_binary_of_unary hc hu hclimbs.parse,
      honly hclimbs.groups⟩

/-- The cursor behind some tokens of `a - b ** -c ** d * e in f`. -/
def inMixedChain (count : Nat) : Cursor :=
  Nat.repeat Cursor.advance count
    ⟨[⟨.name, "a", ⟨0, 1⟩, false⟩, ⟨.symbol .minus, "-", ⟨2, 3⟩, false⟩,
      ⟨.name, "b", ⟨4, 5⟩, false⟩, ⟨.symbol .power, "**", ⟨6, 8⟩, false⟩,
      ⟨.symbol .minus, "-", ⟨9, 10⟩, false⟩, ⟨.name, "c", ⟨10, 11⟩, false⟩,
      ⟨.symbol .power, "**", ⟨12, 14⟩, false⟩, ⟨.name, "d", ⟨15, 16⟩, false⟩,
      ⟨.symbol .star, "*", ⟨17, 18⟩, false⟩, ⟨.name, "e", ⟨19, 20⟩, false⟩,
      ⟨.keyword .in, "in", ⟨21, 23⟩, false⟩, ⟨.name, "f", ⟨24, 25⟩, false⟩],
    ⟨.endOfFile, "", ⟨25, 25⟩, false⟩, 0⟩

def mixedChain : List (BinaryOp × Expr) :=
  [(.subtract, .name ⟨4, 5⟩ "b"),
    (.power, .unary ⟨9, 11⟩ .minus (.name ⟨10, 11⟩ "c")),
    (.power, .name ⟨15, 16⟩ "d"), (.multiply, .name ⟨19, 20⟩ "e")]

/-- `a - ((b ** (-c ** d)) * e)` -/
def mixedGrouping : Grouping :=
  .join .subtract (.operand (.name ⟨0, 1⟩ "a"))
    (.join .multiply
      (.join .power (.operand (.name ⟨4, 5⟩ "b"))
        (.join .power (.operand (.unary ⟨9, 11⟩ .minus (.name ⟨10, 11⟩ "c")))
          (.operand (.name ⟨15, 16⟩ "d"))))
      (.operand (.name ⟨19, 20⟩ "e")))

theorem parse_chain_mixed :
    (inMixedChain 0).Closed ∧
    unary.parse (inMixedChain 0) = .ok (.name ⟨0, 1⟩ "a", inMixedChain 1) ∧
    (inMixedChain 1).Joins true mixedChain (inMixedChain 10) ∧
    (inMixedChain 10).current.kind.binaryOp? true = none ∧
    (binary 0 true).parse (inMixedChain 0) = .ok (mixedGrouping.expr, inMixedChain 10) ∧
    (binary 12 true).parse (inMixedChain 0) = .ok (.name ⟨0, 1⟩ "a", inMixedChain 1) := by
  have hclosed : (inMixedChain 0).Closed := ⟨rfl, rfl, by decide⟩
  have hfirst : unary.parse (inMixedChain 0) = .ok (.name ⟨0, 1⟩ "a", inMixedChain 1) := rfl
  have hjoins : (inMixedChain 1).Joins true mixedChain (inMixedChain 10) := by
    have hminus : (inMixedChain 1).Passes _ (inMixedChain 2) := ⟨rfl, rfl, rfl⟩
    have hb : unary.parse (inMixedChain 2) = .ok (_, inMixedChain 3) := rfl
    have hpower : (inMixedChain 3).Passes _ (inMixedChain 4) := ⟨rfl, rfl, rfl⟩
    have hc : unary.parse (inMixedChain 4) = .ok (_, inMixedChain 6) := rfl
    have hpower' : (inMixedChain 6).Passes _ (inMixedChain 7) := ⟨rfl, rfl, rfl⟩
    have hd : unary.parse (inMixedChain 7) = .ok (_, inMixedChain 8) := rfl
    have hstar : (inMixedChain 8).Passes _ (inMixedChain 9) := ⟨rfl, rfl, rfl⟩
    have he : unary.parse (inMixedChain 9) = .ok (_, inMixedChain 10) := rfl
    exact .cons hminus rfl hb (.cons hpower rfl hc (.cons hpower' rfl hd (.cons hstar rfl he .nil)))
  have hstop : (inMixedChain 10).current.kind.binaryOp? true = none := rfl
  obtain ⟨⟨tree, hparse, honly⟩, hall⟩ := parse_chain hclosed hfirst hjoins hstop
  have hgroups : mixedGrouping.Groups (.name ⟨0, 1⟩ "a") mixedChain := by
    refine ⟨rfl, rfl, ?_⟩
    simp [mixedGrouping, Grouping.Lawful, Grouping.top?, BinaryOp.AllowsLeft,
      BinaryOp.AllowsRight, BinaryOp.precedence]
  refine ⟨hclosed, hfirst, hjoins, hstop, (honly _).1 hgroups ▸ hparse, ?_⟩
  obtain ⟨e, hkept, -, tight, htight, htightOnly⟩ := hall 12
  cases hkept
  have hoperand : (Grouping.operand (.name ⟨0, 1⟩ "a")).Groups (.name ⟨0, 1⟩ "a") [] :=
    ⟨rfl, rfl, trivial⟩
  obtain rfl := (htightOnly _).1 hoperand
  exact htight

end Production

end FlowLint
