import FlowLint.Proofs.Grammar.ReadStatement
import FlowLint.Proofs.Token.Stream

namespace FlowLint
set_option autoImplicit true

namespace Word

/-- Whether a word says something that the shape of the tree does not. -/
def isKept : Word → Bool
  | symbol .leftParen | symbol .rightParen | symbol .comma | symbol .semicolon => false
  | _ => true

def kept (words : List Word) : List Word :=
  words.filter isKept

@[simp] theorem kept_nil : kept [] = [] := rfl

@[simp] theorem kept_append : kept (xs ++ ys) = kept xs ++ kept ys :=
  List.filter_append ..

@[simp] theorem kept_cons :
    kept (word :: words) = if isKept word then word :: kept words else kept words :=
  List.filter_cons

@[simp] theorem kept_parenthesized : kept (parenthesized words) = kept words := by
  simp [parenthesized, enclosed, isKept]

@[simp] theorem isKept_property : isKept (property s) = true := by
  unfold property
  split <;> rfl

@[simp] theorem isKept_unaryOp (op : UnaryOp) : isKept op.word = true := by
  cases op <;> rfl

@[simp] theorem isKept_updateOp (op : UpdateOp) : isKept op.word = true := by
  cases op <;> rfl

@[simp] theorem isKept_binaryOp (op : BinaryOp) : isKept op.word = true := by
  cases op <;> rfl

@[simp] theorem isKept_assignOp (op : Option BinaryOp) : isKept (BinaryOp.assignWord op) = true := by
  rcases op with _ | op
  · rfl
  · cases op <;> rfl

end Word

def Token.word? (token : Token) : Option Word :=
  match token.kind with
  | .symbol s => some (.symbol s)
  | .keyword k => some (.keyword k)
  | .name => some (.name token.text)
  | .number => some (.number token.text (NumberLiteral.valueOf? token.text.toList))
  | .string => some (.string token.text (String.ofList (Quoted.value token.text.toList)))
  | .endOfFile => none

@[simp] theorem Expr.kept_restWords (exprs : List Expr) :
    Word.kept (Expr.restWords exprs) = Word.kept (Expr.listWords exprs) := by
  cases exprs <;> simp [restWords, listWords, Word.isKept]

@[simp] theorem Declarator.kept_restWords (declarators : List Declarator) :
    Word.kept (Declarator.restWords declarators) = Word.kept (Declarator.words declarators) := by
  rcases declarators with _ | ⟨⟨_, _, _⟩, _⟩ <;> simp [restWords, words, Word.isKept]

theorem Token.word?_of_unaryOp? {token : Token} (h : token.kind.unaryOp? = some op) :
    token.word? = some op.word := by
  unfold TokenKind.unaryOp? at h
  split at h <;> cases h <;> simp [word?, UnaryOp.word, *]

theorem Token.word?_of_updateOp? {token : Token} (h : token.kind.updateOp? = some op) :
    token.word? = some op.word := by
  unfold TokenKind.updateOp? at h
  split at h <;> cases h <;> simp [word?, UpdateOp.word, *]

theorem Token.word?_of_binaryOp? {token : Token} (h : token.kind.binaryOp? noIn = some op) :
    token.word? = some op.word := by
  have h := TokenKind.binaryOp?_false h
  unfold TokenKind.binaryOp? at h
  split at h <;> cases h <;> simp [word?, BinaryOp.word, *]

theorem Token.word?_of_assignOp? {token : Token} (h : token.kind.assignOp? = some op) :
    token.word? = some (BinaryOp.assignWord op) := by
  unfold TokenKind.assignOp? at h
  split at h <;> cases h <;> simp [word?, BinaryOp.assignWord, *]

/-- A token that starts like a name is a property name, whether it is reserved or not. -/
theorem Token.word?_of_isNameStart {token : Token}
    (ht : Lexeme.IsToken token.kind token.text.toList)
    (hs : token.text.toList.head?.any Character.isNameStart = true) :
    token.word? = some (Word.property token.text) := by
  rcases ht.kind_cases with ⟨-, hk⟩ | ⟨hn, -⟩
  · unfold Word.property
    cases ho : Keyword.ofWord? token.text.toList <;> simp_all [word?]
  · simp [hs] at hn

def Phrase.words : Phrase → List Word
  | .expr e => e.words
  | .parenthesized e => Word.parenthesized e.words
  | .parts es => Expr.restWords es
  | .elements close es => Expr.listWords es ++ [.symbol close]
  | .option e => Expr.optionWords e
  | .initializer e => Expr.initializerWords e
  | .stmt s => s.words
  | .stmts ss => Stmt.listWords ss
  | .orElse s => Stmt.elseWords s
  | .declarators ds => Declarator.words ds
  | .head s => s.headWords
  | .init s => Stmt.initWords s
  | .block b => b.words
  | .parameter e => Expr.parameterWords e
  | .handler h => Handler.words h
  | .finalizer b => Block.finallyWords b
  | .test e => Expr.testWords e
  | .clauses cs => Clause.words cs

namespace Cursor

/-- The tokens ahead are texts that the lexer reads. -/
def Lexical (c : Cursor) : Prop :=
  ∀ token ∈ c.ahead, Lexeme.IsToken token.kind token.text.toList

def words (c : Cursor) : List Word :=
  c.ahead.filterMap Token.word?

/-- The words between two cursors are the given ones, up to those that are not kept. -/
def Takes (c : Cursor) (words : List Word) (d : Cursor) : Prop :=
  c.Lexical → d.Lexical ∧ Word.kept c.words = Word.kept words ++ Word.kept d.words

namespace Takes

theorem nil : Takes c [] c :=
  fun h => ⟨h, rfl⟩

theorem append (h : Takes c xs m) (h' : Takes m ys d) : Takes c (xs ++ ys) d := by
  intro hc
  obtain ⟨hm, he⟩ := h hc
  obtain ⟨hd, he'⟩ := h' hm
  exact ⟨hd, by rw [he, he', Word.kept_append, List.append_assoc]⟩

theorem congr (h : Takes c xs d) (he : Word.kept xs = Word.kept ys) : Takes c ys d :=
  fun hc => he ▸ h hc

end Takes

variable {c d : Cursor} {token : Token}

theorem Passes.takes_of_isToken (h : c.Passes token d)
    (hw : Lexeme.IsToken token.kind token.text.toList → token.word? = some word) :
    c.Takes [word] d := by
  intro hc
  rw [Lexical, h.ahead] at hc
  refine ⟨fun t ht => hc t (List.mem_cons_of_mem _ ht), ?_⟩
  rw [words, h.ahead, List.filterMap_cons_some (hw (hc token (List.mem_cons_self ..))),
    ← Word.kept_append]
  rfl

theorem Passes.takes (h : c.Passes token d) (hw : token.word? = some word) : c.Takes [word] d :=
  h.takes_of_isToken fun _ => hw

theorem PassesSymbol.takes (h : c.PassesSymbol s d) : c.Takes [.symbol s] d := by
  obtain ⟨token, hp, hk⟩ := h
  exact hp.takes (by simp [Token.word?, hk])

theorem PassesKeyword.takes (h : c.PassesKeyword k d) : c.Takes [.keyword k] d := by
  obtain ⟨token, hp, hk⟩ := h
  exact hp.takes (by simp [Token.word?, hk])

theorem PassesName.takes (h : c.PassesName name d) : c.Takes [.name name.name] d := by
  obtain ⟨token, hp, hk, rfl⟩ := h
  exact hp.takes (by simp [Token.word?, hk])

theorem PassesFunctionName.takes (h : c.PassesFunctionName name d) :
    c.Takes (name.toList.map fun id => .name id.name) d := by
  cases h with
  | absent => exact .nil
  | present h => exact h.takes

theorem PassesLabel.takes (h : c.PassesLabel label d) :
    c.Takes (label.toList.map fun id => .name id.name) d := by
  cases h with
  | absent => exact .nil
  | present h => exact h.takes

theorem PassesParameters.takes (h : PassesParameters c names d) :
    c.Takes (Word.names names ++ [.symbol .rightParen]) d := by
  induction h with
  | nil h => exact h.takes
  | last h hr => exact h.takes.append hr.takes
  | @cons c name c₁ c₂ names d h hc hr ih =>
    refine (h.takes.append (hc.takes.append ih)).congr ?_
    cases names <;> simp [Word.names, Word.isKept]

theorem PassesEach.takes (h : c.PassesEach kind d) : c.Takes [kind.word] d := by
  cases h with
  | keys h => exact h.takes
  | items h ho =>
    simp only [Token.isOf, Bool.and_eq_true, beq_iff_eq] at ho
    exact h.takes (by simp [Token.word?, EachKind.word, ho])

theorem Ends.takes (h : c.Ends d) : c.Takes [] d := by
  cases h with
  | semicolon h => exact h.takes.congr rfl
  | implied => exact .nil

theorem MayEnd.takes (h : c.MayEnd d) : c.Takes [] d := by
  cases h with
  | semicolon h => exact h.takes.congr rfl
  | absent => exact .nil

end Cursor

theorem Stands.takes (h : Stands p c d) : c.Takes p.words d := by
  induction h with
  | parenthesized hl h hr ih => exact hl.takes.append (ih.append hr.takes)
  | parens h ih => exact ih.congr (by simp [Phrase.words])
  | name h hk => exact h.takes (by simp [Token.word?, hk])
  | number h hk hv => exact h.takes (by simp [Token.word?, hk, hv])
  | string h hk => exact h.takes (by simp [Token.word?, hk])
  | boolean h hk => exact h.takes (by simp [Token.word?, hk])
  | null h hk => exact h.takes (by simp [Token.word?, hk])
  | array hl h ih => exact hl.takes.append ih
  | call h hl ha ih iha =>
    exact (ih.append (hl.takes.append iha)).congr (by simp [Phrase.words, Expr.words, Word.isKept])
  | new hn h hl ha ih iha =>
    refine (hn.takes.append (ih.append (hl.takes.append iha))).congr ?_
    simp [Phrase.words, Expr.words, Word.isKept]
  | bareNew hn h hl ih =>
    refine (hn.takes.append ih).congr ?_
    simp [Phrase.words, Expr.words, Expr.listWords]
  | member h hd hp hs ih =>
    have hw := hp.takes_of_isToken fun ht => Token.word?_of_isNameStart ht hs
    refine (ih.append (hd.takes.append hw)).congr ?_
    simp [Phrase.words, Expr.words]
  | subscript h hl hi hr ih ihi =>
    refine (ih.append (hl.takes.append (ihi.append hr.takes))).congr ?_
    simp [Phrase.words, Expr.words, Word.enclosed]
  | unary ho hk h ih =>
    refine ((ho.takes (Token.word?_of_unaryOp? hk)).append ih).congr ?_
    simp [Phrase.words, Expr.words]
  | before ho hk h ih =>
    refine ((ho.takes (Token.word?_of_updateOp? hk)).append ih).congr ?_
    simp [Phrase.words, Expr.words]
  | after h ho hk hn ih =>
    refine (ih.append (ho.takes (Token.word?_of_updateOp? hk))).congr ?_
    simp [Phrase.words, Expr.words]
  | binary hl ho hk hr ihl ihr =>
    refine (ihl.append ((ho.takes (Token.word?_of_binaryOp? hk)).append ihr)).congr ?_
    simp [Phrase.words, Expr.words]
  | assign ht ha ho hk hv iht ihv =>
    refine (iht.append ((ho.takes (Token.word?_of_assignOp? hk)).append ihv)).congr ?_
    simp [Phrase.words, Expr.words]
  | conditional ht hq hw hc hf iht ihw ihf =>
    refine (iht.append (hq.takes.append (ihw.append (hc.takes.append ihf)))).congr ?_
    simp [Phrase.words, Expr.words]
  | sequence h hc h' hp ih ih' ihp =>
    refine (ih.append (hc.takes.append (ih'.append ihp))).congr ?_
    simp [Phrase.words, Expr.words, Expr.listWords, Expr.restWords, Word.isKept]
  | functionExpr hf hn hl hp ho hb hr ih =>
    refine (hf.takes.append (hn.takes.append (hl.takes.append (hp.takes.append
      (ho.takes.append (ih.append hr.takes)))))).congr ?_
    simp [Phrase.words, Expr.words, Word.parenthesized, Word.braced, Word.enclosed]
  | noParts h => exact .nil
  | parts hc h hp ih ihp =>
    exact (hc.takes.append (ih.append ihp)).congr (by simp [Phrase.words, Expr.restWords])
  | noElements h => exact h.takes
  | lastElement hn h hr ih =>
    refine (ih.append hr.takes).congr ?_
    simp [Phrase.words, Expr.listWords, Expr.restWords]
  | elements hn h hc he ih ihe =>
    refine (ih.append (hc.takes.append ihe)).congr ?_
    simp [Phrase.words, Expr.listWords, Word.isKept]
  | noOption => exact .nil
  | option h ih => exact ih.congr (by simp [Phrase.words, Expr.optionWords])
  | noInitializer => exact .nil
  | initializer ha h ih =>
    exact (ha.takes.append ih).congr (by simp [Phrase.words, Expr.initializerWords])
  | expression h he ih =>
    exact (ih.append he.takes).congr (by simp [Phrase.words, Stmt.words, Word.isKept])
  | declaration hk hd he ih =>
    refine (hk.takes.append (ih.append he.takes)).congr ?_
    simp [Phrase.words, Stmt.words, Word.isKept]
  | function hf hn hl hp ho hb hr ih =>
    refine (hf.takes.append (hn.takes.append (hl.takes.append (hp.takes.append
      (ho.takes.append (ih.append hr.takes)))))).congr ?_
    simp [Phrase.words, Stmt.words, Word.parenthesized, Word.braced, Word.enclosed]
  | ifStmt hk ht hb he iht ihb ihe =>
    refine (hk.takes.append (iht.append (ihb.append ihe))).congr ?_
    simp [Phrase.words, Stmt.words]
  | whileStmt hk ht hb iht ihb =>
    exact (hk.takes.append (iht.append ihb)).congr (by simp [Phrase.words, Stmt.words])
  | doStmt hk hb hw ht he ihb iht =>
    refine (hk.takes.append (ihb.append (hw.takes.append (iht.append he.takes)))).congr ?_
    simp [Phrase.words, Stmt.words, Word.isKept]
  | forStmt hk hl hi hs ht hs' hu hr hb ihi iht ihu ihb =>
    refine (hk.takes.append (hl.takes.append (ihi.append (hs.takes.append (iht.append
      (hs'.takes.append (ihu.append (hr.takes.append ihb)))))))).congr ?_
    simp [Phrase.words, Stmt.words]
  | forEach hk hl hh he h hr hb ihh ih ihb =>
    refine (hk.takes.append (hl.takes.append (ihh.append (he.takes.append (ih.append
      (hr.takes.append ihb)))))).congr ?_
    simp [Phrase.words, Stmt.words]
  | jump hk hl he =>
    refine (hk.takes.append (hl.takes.append he.takes)).congr ?_
    simp [Phrase.words, Stmt.words, Word.isKept]
  | bareReturn hk he =>
    refine (hk.takes.append he.takes).congr ?_
    simp [Phrase.words, Stmt.words, Expr.optionWords, Word.isKept]
  | returnStmt hk hn h he ih =>
    refine (hk.takes.append (ih.append he.takes)).congr ?_
    simp [Phrase.words, Stmt.words, Expr.optionWords, Word.isKept]
  | throwStmt hk hn h he ih =>
    refine (hk.takes.append (ih.append he.takes)).congr ?_
    simp [Phrase.words, Stmt.words, Word.isKept]
  | tryStmt hk hb hh hf hs ihb ihh ihf =>
    exact hk.takes.append (ihb.append (ihh.append ihf))
  | switchStmt hk hd hl hc hr ihd ihc =>
    refine (hk.takes.append (ihd.append (hl.takes.append (ihc.append hr.takes)))).congr ?_
    simp [Phrase.words, Stmt.words, Word.braced, Word.enclosed]
  | blockStmt h ih => exact ih
  | labeled hn hc hb ih => exact hn.takes.append (hc.takes.append ih)
  | empty h => exact h.takes
  | debugger hk he =>
    exact (hk.takes.append he.takes).congr (by simp [Phrase.words, Stmt.words, Word.isKept])
  | withStmt hk ho hb iho ihb =>
    exact (hk.takes.append (iho.append ihb)).congr (by simp [Phrase.words, Stmt.words])
  | noStmts => exact .nil
  | stmts h hs ih ihs => exact ih.append ihs
  | noElse h => exact .nil
  | orElse hk h ih => exact hk.takes.append ih
  | lastDeclarator hn hi ih =>
    refine (hn.takes.append ih).congr ?_
    simp [Phrase.words, Declarator.words, Declarator.restWords]
  | declarators hn hi hc hd ihi ihd =>
    refine (hn.takes.append (ihi.append (hc.takes.append ihd))).congr ?_
    simp [Phrase.words, Declarator.words, Word.isKept]
  | headExpression h ih => exact ih.congr (by simp [Phrase.words, Stmt.headWords])
  | headDeclaration hk hd ih => exact hk.takes.append ih
  | noInit => exact .nil
  | init h ih => exact ih
  | block hl h hr ih => exact hl.takes.append (ih.append hr.takes)
  | noParameter => exact .nil
  | parameter h ih => exact ih.congr (by simp [Phrase.words, Expr.parameterWords])
  | noHandler => exact .nil
  | handler hk hp hb ihp ihb => exact hk.takes.append (ihp.append ihb)
  | noFinalizer => exact .nil
  | finalizer hk hb ih => exact hk.takes.append ih
  | defaultTest hk => exact hk.takes
  | test hk h ih => exact (hk.takes.append ih).congr (by simp [Phrase.words, Expr.testWords])
  | noClauses => exact .nil
  | clauses ht hc hb hs iht ihb ihs =>
    refine (iht.append (hc.takes.append (ihb.append ihs))).congr ?_
    simp [Phrase.words, Clause.words]

/-- What is compared of a word: the text, or the value of a literal. -/
inductive Item
  | text (text : String)
  | number (value : Option Binary64)
  | string (value : String)
deriving DecidableEq

def Word.item? : Word → Option Item
  | symbol .leftParen | symbol .rightParen | symbol .comma | symbol .semicolon => none
  | number _ value => some (.number value)
  | string _ value => some (.string value)
  | word => some (.text word.text)

def Token.item? (token : Token) : Option Item :=
  match token.kind with
  | .endOfFile => none
  | .symbol .leftParen | .symbol .rightParen | .symbol .comma | .symbol .semicolon => none
  | .number => some (.number (NumberLiteral.valueOf? token.text.toList))
  | .string => some (.string (String.ofList (Quoted.value token.text.toList)))
  | _ => some (.text token.text)

/-- The keywords, names, operators and literals of a script, and its brackets, braces, points and
colons, in the order of the source. -/
def Script.items (script : Script) : List Item :=
  script.words.filterMap Word.item?

theorem Word.filterMap_item?_kept (words : List Word) :
    (kept words).filterMap item? = words.filterMap item? := by
  have hd {word : Word} (h : isKept word = false) : item? word = none := by
    unfold isKept at h
    split at h <;> first | rfl | cases h
  induction words with
  | nil => rfl
  | cons word words ih =>
    cases hk : isKept word with
    | true => simp [hk, List.filterMap_cons, ih]
    | false => simp [hk, hd hk, ih]

theorem Token.item?_eq (token : Token) (h : Lexeme.IsToken token.kind token.text.toList) :
    token.item? = token.word?.bind Word.item? := by
  obtain ⟨kind, text, range, newline⟩ := token
  cases kind with
  | keyword k =>
    have ht : text = k.text := String.toList_inj.1 h.text_of_keyword
    simp [item?, word?, Word.item?, Word.text, ht]
  | symbol s =>
    have ht : text = s.text := String.toList_inj.1 h.text_of_symbol
    cases s <;> simp [item?, word?, Word.item?, Word.text, ht]
  | _ => rfl

theorem Cursor.ofTokens_append (others : List Token) (last : Token) :
    Cursor.ofTokens (others ++ [last]) = ⟨others, last, 0⟩ := by
  simp [Cursor.ofTokens]

/-- How a script was spelled. -/
theorem Script.exists_stands_of_parse (h : Script.parse source = .ok script) :
    ∃ others last d, tokens source = .ok (others ++ [last]) ∧ last.kind = .endOfFile ∧
      (∀ token ∈ others, Lexeme.IsToken token.kind token.text.toList) ∧
      Stands (.stmts script.body) ⟨others, last, 0⟩ d ∧ d.ahead = [] := by
  obtain ⟨list, ht, ho⟩ := bind_eq_ok.1 h
  obtain ⟨others, last, rfl, hk, he, hm⟩ := tokens_eq_append ht
  have hc : (Cursor.ofTokens (others ++ [last])).Closed := by
    rw [Cursor.ofTokens_append]
    exact ⟨hk, he, fun token h => (hm token h).kind_ne_endOfFile⟩
  obtain ⟨d, hs, hd⟩ := Script.stands_of_ofTokens hc ho
  rw [Cursor.ofTokens_append] at hs
  exact ⟨others, last, d, ht, hk, hm, hs, hd⟩

theorem Script.exists_tokens_of_parse (h : Script.parse source = .ok script) :
    ∃ others last, tokens source = .ok (others ++ [last]) ∧ last.kind = .endOfFile ∧
      (∀ token ∈ others, Lexeme.IsToken token.kind token.text.toList) ∧
      Word.kept (others.filterMap Token.word?) = Word.kept script.words := by
  obtain ⟨others, last, d, ht, hk, hm, hs, hd⟩ := Script.exists_stands_of_parse h
  obtain ⟨-, hw⟩ := hs.takes hm
  refine ⟨others, last, ht, hk, hm, ?_⟩
  rw [Cursor.words, Cursor.words, hd, List.filterMap_nil, Word.kept_nil, List.append_nil] at hw
  exact hw

/-- Every token of a source but parentheses, commas and semicolons has its place in the tree, once
and in the order of the source. -/
theorem Script.parse_linear (h : Script.parse source = .ok script) :
    ∃ list, tokens source = .ok list ∧ list.filterMap Token.item? = script.items := by
  obtain ⟨others, last, ht, hk, hm, hw⟩ := Script.exists_tokens_of_parse h
  refine ⟨others ++ [last], ht, ?_⟩
  have hlast : last.item? = none := by simp [Token.item?, hk]
  have hothers : others.filterMap Token.item? =
      (others.filterMap Token.word?).filterMap Word.item? := by
    rw [List.filterMap_filterMap]
    exact List.filterMap_congr fun token h => token.item?_eq (hm token h)
  rw [List.filterMap_append, List.filterMap_cons_none hlast, List.filterMap_nil, List.append_nil,
    hothers, ← Word.filterMap_item?_kept, hw, Word.filterMap_item?_kept]
  rfl

namespace Script

/-- A loop over items whose body writes a property with a reserved name. -/
def itemLoop : String :=
  "for (x of [y, 'b',]) x.if = 0x10"

theorem parse_linear_itemLoop :
    ∃ script list, Script.parse itemLoop = .ok script ∧ tokens itemLoop = .ok list ∧
      list.filterMap Token.item? = script.items ∧
      (tokens itemLoop).toOption.map (·.filterMap Token.item?) = some
        [.text "for", .text "x", .text "of", .text "[", .text "y", .string "b", .text "]",
          .text "x", .text ".", .text "if", .text "=", .number (some (.ofNat 16))] := by
  obtain ⟨script, hs⟩ : ∃ script, Script.parse itemLoop = .ok script :=
    exists_ok_of_isOk (by decide +kernel)
  obtain ⟨list, hl, he⟩ := Script.parse_linear hs
  exact ⟨script, list, hs, hl, he, by decide +kernel⟩

end Script

end FlowLint
