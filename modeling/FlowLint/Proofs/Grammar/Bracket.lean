import FlowLint.Grammar.Expression

namespace FlowLint
set_option autoImplicit true

/-- What encloses tokens. -/
inductive Bracket
  | paren
  | square
  | brace
  /-- The middle operand of a conditional. -/
  | middle

/-- What is open behind a token, the innermost first. A colon that ends no middle operand stands
behind a label or in front of a clause; behind a bracket that closes nothing, nothing is open. -/
def TokenKind.nest : TokenKind → List Bracket → List Bracket
  | .symbol .leftParen, within => .paren :: within
  | .symbol .leftBracket, within => .square :: within
  | .symbol .leftBrace, within => .brace :: within
  | .symbol .question, within => .middle :: within
  | .symbol .rightParen, .paren :: within => within
  | .symbol .rightBracket, .square :: within => within
  | .symbol .rightBrace, .brace :: within => within
  | .symbol .colon, .middle :: within => within
  | .symbol .rightParen, _ | .symbol .rightBracket, _ | .symbol .rightBrace, _ => []
  | _, within => within

/-- What is open behind some tokens. The word behind a dot is a property name, whatever it is, and
nothing is known while it is missing. -/
def nest : List Bracket → List Token → Option (List Bracket)
  | within, [] => some within
  | within, token :: rest =>
    if token.kind = .symbol .dot then
      match rest with
      | [] => none
      | _ :: rest => nest within rest
    else
      nest (token.kind.nest within) rest

/-- Behind these tokens nothing is open, and no property name is expected. -/
def Outside (read : List Token) : Prop :=
  nest [] read = some []

/-- A word `in` is ahead behind some tokens, outside of brackets and of the middle operand of a
conditional, and is no property name. -/
structure Cursor.FreeIn (c : Cursor) (read : List Token) (word : Token) (rest : List Token) :
    Prop where
  ahead : c.ahead = read ++ word :: rest
  kind : word.kind = .keyword .in
  outside : Outside read

structure TokenKind.Plain (kind : TokenKind) : Prop where
  ne_dot : kind ≠ .symbol .dot
  nest : ∀ within, kind.nest within = within

namespace TokenKind

variable {kind : TokenKind}

theorem plain_keyword (keyword : Keyword) : (TokenKind.keyword keyword).Plain :=
  ⟨nofun, fun _ => rfl⟩

theorem plain_name : TokenKind.name.Plain :=
  ⟨nofun, fun _ => rfl⟩

theorem plain_of_unaryOp? (h : kind.unaryOp? = some op) : kind.Plain := by
  unfold unaryOp? at h
  split at h <;> first | exact ⟨nofun, fun _ => rfl⟩ | cases h

theorem plain_of_updateOp? (h : kind.updateOp? = some op) : kind.Plain := by
  unfold updateOp? at h
  split at h <;> first | exact ⟨nofun, fun _ => rfl⟩ | cases h

theorem plain_of_binaryOp? (h : kind.binaryOp? noIn = some op) : kind.Plain := by
  unfold binaryOp? at h
  split at h <;> first | exact ⟨nofun, fun _ => rfl⟩ | cases h

theorem plain_of_assignOp? (h : kind.assignOp? = some op) : kind.Plain := by
  unfold assignOp? at h
  split at h <;> first | exact ⟨nofun, fun _ => rfl⟩ | cases h

end TokenKind

section Nest

variable {within inner outer : List Bracket} {token : Token} {left right : List Token}

theorem nest_cons (h : token.kind ≠ .symbol .dot) :
    nest within (token :: left) = nest (token.kind.nest within) left := by
  rw [nest.eq_def]
  exact if_neg h

theorem nest_dot (h : token.kind = .symbol .dot) :
    nest within (token :: property :: left) = nest within left := by
  rw [nest.eq_def]
  exact if_pos h

theorem nest_append (h : nest within left = some inner) :
    nest within (left ++ right) = nest inner right := by
  fun_induction nest within left with
  | case1 within =>
    cases h
    rfl
  | case2 within token hdot => cases h
  | case3 within token hdot property rest ih =>
    rw [List.cons_append, List.cons_append, nest_dot hdot]
    exact ih h
  | case4 within token rest hdot ih =>
    rw [List.cons_append, nest_cons hdot]
    exact ih h

end Nest

end FlowLint
