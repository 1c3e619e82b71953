import FlowLint.Proofs.Grammar.Linear
import FlowLint.Proofs.Grammar.RereadControl
import FlowLint.Proofs.Literal.Quoted

namespace FlowLint
set_option autoImplicit true

section Rereading

/-- Whatever a phrase is made of is read again where it is written. -/
def Phrase.Rereads : Phrase → Prop
  | .expr e | .parenthesized e => e.Rereads
  | .parts es | .elements _ es => ∀ e ∈ es, e.Rereads
  | .option o | .initializer o | .parameter o | .test o => ∀ e ∈ o, e.Rereads
  | .stmt s => s.Rereads
  | .stmts ss => ∀ s ∈ ss, s.Rereads
  | .orElse o => ∀ s ∈ o, s.Rereads
  | .declarators ds => ds ≠ [] ∧ ∀ declarator ∈ ds, ∀ e ∈ declarator.init, e.Rereads
  | .head s => s.HeadRereads
  | .init o => ∀ s ∈ o, s.HeadRereads
  | .block b => ∀ s ∈ b.body, s.Rereads
  | .handler o => ∀ handler ∈ o, Stmt.Rereads.Handles handler
  | .finalizer o => ∀ b ∈ o, ∀ s ∈ b.body, s.Rereads
  | .clauses cs => ∀ clause ∈ cs, Stmt.Rereads.Selects clause

theorem TokenKind.assignOp?_assignWord {kind : TokenKind} (h : kind.assignOp? = some op) :
    (BinaryOp.assignWord op).kind.assignOp? = some op := by
  unfold assignOp? at h
  split at h <;> cases h <;> rfl

theorem Stands.endsOpen_eq_false {s : Stmt} {orElse : Option Stmt} (h : Stands (.stmt s) c m)
    (he : Stands (.orElse orElse) m d) (ho : orElse.isSome = true) : s.endsOpen = false := by
  cases he with
  | noElse => cases ho
  | orElse hk =>
    cases hs : s.endsOpen with
    | false => rfl
    | true => exact absurd hk.current (h.current_ne_else hs)

theorem forall_mem_some {P : α → Prop} (h : P a) : ∀ b ∈ some a, P b := by
  rintro b ⟨⟩
  exact h

/-- What was spelled is read again. -/
theorem Stands.rereads (h : Stands p c d) : p.Rereads := by
  induction h with
  | parenthesized _ _ _ ih => exact ih
  | parens _ ih => exact ih
  | name => exact Expr.Rereads.name
  | number _ _ hv => exact Expr.Rereads.number hv
  | string => exact Expr.Rereads.string
  | boolean => exact Expr.Rereads.boolean
  | null => exact Expr.Rereads.null
  | array _ _ ih => exact Expr.Rereads.array ih
  | call _ _ _ ih iha => exact Expr.Rereads.call ih iha
  | new _ _ _ _ ih iha => exact Expr.Rereads.new ih iha
  | bareNew _ _ _ ih => exact Expr.Rereads.new ih nofun
  | member _ _ _ hs ih => exact Expr.Rereads.member ih hs
  | subscript _ _ _ _ ih ihi => exact Expr.Rereads.subscript ih ihi
  | unary _ _ _ ih => exact Expr.Rereads.unary ih
  | before _ _ _ ih => exact Expr.Rereads.before ih
  | after _ _ _ _ ih => exact Expr.Rereads.after ih
  | binary _ _ _ _ ihl ihr => exact Expr.Rereads.binary ihl ihr
  | assign _ ha _ hk _ iht ihv =>
    exact Expr.Rereads.assign iht ha (TokenKind.assignOp?_assignWord hk) ihv
  | conditional _ _ _ _ _ iht ihw ihf => exact Expr.Rereads.conditional iht ihw ihf
  | sequence _ _ _ _ ih ih' ihp => exact Expr.Rereads.sequence ih ih' ihp
  | functionExpr _ _ _ _ _ _ _ ih => exact Stmt.Rereads.functionExpr ih
  | noParts => exact nofun
  | parts _ _ _ ih ihp => exact List.forall_mem_cons.2 ⟨ih, ihp⟩
  | noElements => exact nofun
  | lastElement _ _ _ ih => exact List.forall_mem_singleton.2 ih
  | elements _ _ _ _ ih ihe => exact List.forall_mem_cons.2 ⟨ih, ihe⟩
  | noOption => exact nofun
  | option _ ih => exact forall_mem_some ih
  | noInitializer => exact nofun
  | initializer _ _ ih => exact forall_mem_some ih
  | expression _ _ ih => exact Stmt.Rereads.expression ih
  | declaration _ _ _ ih => exact Stmt.Rereads.declaration ih.1 ih.2
  | function _ _ _ _ _ _ _ ih => exact Stmt.Rereads.function ih
  | ifStmt _ _ hb he iht ihb ihe => exact Stmt.Rereads.ifStmt iht ihb ihe (hb.endsOpen_eq_false he)
  | whileStmt _ _ _ iht ihb => exact Stmt.Rereads.whileStmt iht ihb
  | doStmt _ _ _ _ _ ihb iht => exact Stmt.Rereads.doStmt ihb iht
  | forStmt _ _ _ _ _ _ _ _ _ ihi iht ihu ihb => exact Stmt.Rereads.forStmt ihi iht ihu ihb
  | forEach _ _ _ _ _ _ _ ihh ih ihb => exact Stmt.Rereads.forEach ihh ih ihb
  | jump => exact Stmt.Rereads.jump
  | bareReturn => exact Stmt.Rereads.returnStmt nofun
  | returnStmt _ _ _ _ ih => exact Stmt.Rereads.returnStmt (forall_mem_some ih)
  | throwStmt _ _ _ _ ih => exact Stmt.Rereads.throwStmt ih
  | tryStmt _ _ _ _ hs ihb ihh ihf => exact Stmt.Rereads.tryStmt ihb ihh ihf hs
  | switchStmt _ _ _ _ _ ihd ihc => exact Stmt.Rereads.switchStmt ihd ihc
  | blockStmt _ ih => exact Stmt.Rereads.block ih
  | labeled _ _ _ ih => exact Stmt.Rereads.labeled ih
  | empty => exact Stmt.Rereads.empty
  | debugger => exact Stmt.Rereads.debugger
  | withStmt _ _ _ iho ihb => exact Stmt.Rereads.withStmt iho ihb
  | noStmts => exact nofun
  | stmts _ _ ih ihs => exact List.forall_mem_cons.2 ⟨ih, ihs⟩
  | noElse => exact nofun
  | orElse _ _ ih => exact forall_mem_some ih
  | lastDeclarator _ _ ih => exact ⟨nofun, List.forall_mem_singleton.2 ih⟩
  | declarators _ _ _ _ ihi ihd => exact ⟨nofun, List.forall_mem_cons.2 ⟨ihi, ihd.2⟩⟩
  | headExpression _ ih => exact Stmt.HeadRereads.expression ih
  | headDeclaration _ _ ih => exact Stmt.HeadRereads.declaration ih.1 ih.2
  | noInit => exact nofun
  | init _ ih => exact forall_mem_some ih
  | block _ _ _ ih => exact ih
  | noParameter => exact nofun
  | parameter _ ih => exact forall_mem_some ih
  | noHandler => exact nofun
  | handler _ _ _ ihp ihb => exact forall_mem_some ⟨ihp, ihb⟩
  | noFinalizer => exact nofun
  | finalizer _ _ ih => exact forall_mem_some ih
  | defaultTest => exact nofun
  | test _ _ ih => exact forall_mem_some ih
  | noClauses => exact nofun
  | clauses _ _ _ _ iht ihb ihs => exact List.forall_mem_cons.2 ⟨⟨iht, ihb⟩, ihs⟩

end Rereading

section Printing

variable {word : Word} {words : List Word}

theorem Word.kind_ne_endOfFile (word : Word) : word.kind ≠ .endOfFile := by
  cases word <;> nofun

theorem Word.isToken_of_word? {token : Token} (h : token.word? = some word)
    (ht : Lexeme.IsToken token.kind token.text.toList) :
    Lexeme.IsToken word.kind word.text.toList := by
  obtain ⟨kind, text, range, newline⟩ := token
  cases kind with
  | symbol s =>
    cases h
    exact .symbol s
  | keyword k =>
    cases h
    exact .keyword k
  | endOfFile => cases h
  | name =>
    cases h
    exact ht
  | number =>
    cases h
    exact ht
  | string =>
    cases h
    exact ht

theorem Script.isToken_of_mem_words (h : Script.parse source = .ok script)
    (hm : word ∈ script.words) : Lexeme.IsToken word.kind word.text.toList := by
  obtain ⟨others, last, -, -, ht, hw⟩ := Script.exists_tokens_of_parse h
  cases hk : word.isKept with
  | true =>
    have hmem : word ∈ Word.kept (others.filterMap Token.word?) := by
      rw [hw]
      exact List.mem_filter.2 ⟨hm, hk⟩
    obtain ⟨token, hto, hword⟩ := List.mem_filterMap.1 (List.mem_filter.1 hmem).1
    exact Word.isToken_of_word? hword (ht token hto)
  | false =>
    unfold Word.isKept at hk
    split at hk
    · exact .symbol _
    · exact .symbol _
    · exact .symbol _
    · exact .symbol _
    · cases hk

/-- The lexemes of words with single blanks between them. -/
def Word.spaced : List Word → List Lexeme
  | [] => []
  | [word] => [.token word.kind word.text.toList]
  | word :: words => .token word.kind word.text.toList :: .trivia [' '] :: Word.spaced words

theorem lexemes_spaced (h : ∀ word ∈ words, Lexeme.IsToken word.kind word.text.toList)
    (offset : Nat) :
    lexemes offset (" ".intercalate (words.map Word.text)).toList = .ok (Word.spaced words) := by
  induction words generalizing offset with
  | nil => rw [List.map_nil, String.intercalate_nil, String.toList_empty, lexemes_nil, Word.spaced]
  | cons word words ih =>
    obtain ⟨hw, hws⟩ := List.forall_mem_cons.1 h
    cases words with
    | nil =>
      have hread : lexemes offset (word.text.toList ++ []) = _ := lexemes_token hw Apart.nil
      rw [List.append_nil, lexemes_nil] at hread
      rw [List.map_singleton, String.intercalate_singleton, hread]
      rfl
    | cons next words =>
      have htext : (" ".intercalate ((word :: next :: words).map Word.text)).toList =
          word.text.toList ++ ' ' :: (" ".intercalate ((next :: words).map Word.text)).toList := by
        simp [String.intercalate_cons_cons]
      rw [htext, lexemes_token hw Apart.blank, lexemes_blank rfl, ih hws]
      rfl

/-- A token that is a word, on the line of the token before. -/
structure Token.Spells (token : Token) (word : Word) : Prop where
  kind : token.kind = word.kind
  text : token.text = word.text
  newlineBefore : token.newlineBefore = false

theorem Lexeme.placed_spaced (words : List Word) (offset : Nat) :
    ∃ others last, placed offset false (Word.spaced words) = others ++ [last] ∧
      last.kind = .endOfFile ∧ last.text = "" ∧ List.Forall₂ Token.Spells others words := by
  induction words generalizing offset with
  | nil => exact ⟨[], _, rfl, rfl, rfl, .nil⟩
  | cons word words ih =>
    have hspells {range : Range} :
        Token.Spells ⟨word.kind, String.ofList word.text.toList, range, false⟩ word :=
      ⟨rfl, String.ofList_toList, rfl⟩
    cases words with
    | nil => exact ⟨[_], _, rfl, rfl, rfl, .cons hspells .nil⟩
    | cons next words =>
      obtain ⟨others, last, he, hk, ht, hw⟩ :=
        ih (offset + byteLength word.text.toList + byteLength [' '])
      exact ⟨_ :: others, last, congrArg _ he, hk, ht, .cons hspells hw⟩

theorem Cursor.shows_of_spells (h : List.Forall₂ Token.Spells others words) (last : Token)
    (stop : Nat) : ∃ stop', Cursor.Shows ⟨others, last, stop⟩ words ⟨[], last, stop'⟩ := by
  induction h generalizing stop with
  | nil => exact ⟨stop, rfl⟩
  | @cons token word others words hs _ ih =>
    obtain ⟨stop', hw⟩ := ih token.range.stop
    have hp : Cursor.Passes ⟨token :: others, last, stop⟩ token ⟨others, last, token.range.stop⟩ :=
      ⟨rfl, rfl, rfl⟩
    exact ⟨stop', _, ⟨token, hp, hs.kind, hs.text, hs.newlineBefore⟩, hw⟩

theorem Token.kind_ne_endOfFile_of_spells (h : List.Forall₂ Token.Spells others words) :
    ∀ token ∈ others, token.kind ≠ .endOfFile := by
  induction h with
  | nil => nofun
  | @cons token word others words hs _ ih =>
    refine List.forall_mem_cons.2 ⟨?_, ih⟩
    rw [hs.kind]
    exact word.kind_ne_endOfFile

end Printing

namespace Script

theorem tokens_print (h : Script.parse source = .ok script)
    (hsize : byteLength script.print.toList < sizeLimit) :
    ∃ others last, tokens script.print = .ok (others ++ [last]) ∧ last.kind = .endOfFile ∧
      last.text = "" ∧ List.Forall₂ Token.Spells others script.words := by
  obtain ⟨others, last, he, hlast⟩ := Lexeme.placed_spaced script.words 0
  refine ⟨others, last, ?_, hlast⟩
  rw [← he]
  exact tokens_of_lexemes hsize (lexemes_spaced (fun word hm => isToken_of_mem_words h hm) 0)

/-- A script whose own text fits into a source is read again from it, in everything but the
places. -/
theorem parse_print (h : Script.parse source = .ok script)
    (hsize : byteLength script.print.toList < sizeLimit) :
    ∃ script', Script.parse script.print = .ok script' ∧ script'.unplaced = script.unplaced := by
  obtain ⟨_, _, _, _, _, _, hs, _⟩ := exists_stands_of_parse h
  -- The printed text has the words of the script for tokens, all on one line.
  obtain ⟨others, last, ht, hk, htext, hw⟩ := tokens_print h hsize
  obtain ⟨stop, hshows⟩ := Cursor.shows_of_spells hw last 0
  have hc : Cursor.Closed ⟨others, last, 0⟩ := ⟨hk, htext, Token.kind_ne_endOfFile_of_spells hw⟩
  -- How the script was spelled at first says that each part of it is read again from its words.
  have hread := TokenReader.Reads.parse (p := .program) trivial
    (Stmt.Rereads.reads_program hs.rereads hshows hk)
  obtain ⟨-, body, hb, he⟩ := hread hc
  refine ⟨⟨⟨0, last.range.stop⟩, body⟩, ?_, congrArg (Script.mk ⟨0, 0⟩) he⟩
  apply bind_eq_ok.2 ⟨_, ht, ?_⟩
  rw [ofTokens, Cursor.ofTokens_append]
  exact bind_eq_ok.2 ⟨_, hb, rfl⟩

theorem byteLength_print_string (place : Range) (text value : String) :
    byteLength (print ⟨place, [.expression place (.string place text value)]⟩).toList =
      byteLength text.toList + 6 := by
  have hwords : words ⟨place, [.expression place (.string place text value)]⟩ =
      [.symbol .leftParen, .string text value, .symbol .rightParen, .symbol .semicolon] :=
    rfl
  have hprint : (print ⟨place, [.expression place (.string place text value)]⟩).toList =
      ['(', ' '] ++ (text.toList ++ [' ', ')', ' ', ';']) := by
    simp [print, hwords, Word.text, Symbol.text, String.intercalate_cons_cons]
  have hopening : byteLength ['(', ' '] = 2 := rfl
  have hclosing : byteLength [' ', ')', ' ', ';'] = 4 := rfl
  rw [hprint, byteLength_append, byteLength_append, hopening, hclosing]
  omega

theorem print_letters {n : Nat} (h : n + 2 < sizeLimit) (hp : sizeLimit ≤ n + 8) :
    ∃ script, parse (Quoted.literal '\'' (Quoted.letters n)) = .ok script ∧
      parse script.print = .error ⟨.sourceTooLong, ⟨0, 0⟩⟩ := by
  have hlength := Quoted.byteLength_literal_letters n
  refine ⟨_, parse_literal (.inr rfl) _ (hlength ▸ h), bind_eq_error.2 (.inl (tokens_of_le ?_))⟩
  rw [byteLength_print_string, hlength]
  exact hp

/-- A string that leaves no room in its source for the parentheses around it and the semicolon. -/
theorem parse_print_overlong :
    ∃ script, parse (Quoted.literal '\'' (Quoted.letters (sizeLimit - 3))) = .ok script ∧
      parse script.print = .error ⟨.sourceTooLong, ⟨0, 0⟩⟩ :=
  print_letters (by decide) (by decide)

/-- An `else` behind two `if` statements, on a line of its own. -/
def innerElse : String :=
  "if (a) while (b) if (c) x = new D\nelse e.if++"

theorem parse_print_innerElse :
    ∃ script script', Script.parse innerElse = .ok script ∧
      Script.parse script.print = .ok script' ∧ script'.unplaced = script.unplaced ∧
      (Script.parse innerElse).toOption.map Script.print = some
        ("if ( ( a ) ) while ( ( b ) ) if ( ( c ) ) ( ( x ) = ( new ( D ) ( ) ) ) ; " ++
          "else ( ( ( e ) . if ) ++ ) ;") := by
  obtain ⟨script, hs⟩ : ∃ script, Script.parse innerElse = .ok script :=
    exists_ok_of_isOk (by decide +kernel)
  have hprint : (Script.parse innerElse).toOption.map Script.print = some
      ("if ( ( a ) ) while ( ( b ) ) if ( ( c ) ) ( ( x ) = ( new ( D ) ( ) ) ) ; " ++
        "else ( ( ( e ) . if ) ++ ) ;") := by
    decide +kernel
  have htext : script.print = _ := Option.some.inj (hs ▸ hprint)
  obtain ⟨script', hp, he⟩ := Script.parse_print hs (by rw [htext]; decide +kernel)
  exact ⟨script, script', hs, hp, he, hprint⟩

end Script

end FlowLint
