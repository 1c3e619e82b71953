import FlowLint.Proofs.Grammar.Alone
import FlowLint.Proofs.Grammar.MoveStatement
import FlowLint.Proofs.Token.Wrapped

namespace FlowLint
set_option autoImplicit true

open TokenReader (Concludes Reads)

namespace Grammar

variable {c d m m' : Cursor} {P : Expr → Prop}

theorem reads_semicolon_end (hc : c.current.kind = .endOfFile) :
    Reads TokenReader.semicolon c c fun _ => True := by
  refine .eat_false (by rw [hc]; nofun) (.peek (.ite_pos ?_ (.pure trivial)))
  rw [TokenReader.impliesEnd, hc]
  rfl

/-- An expression in parentheses and nothing else is a script of one statement. -/
theorem reads_enclosed (hl : c.PassesWord (.symbol .leftParen) m)
    (h : Reads (Production.expression false).parse m m' P)
    (hr : m'.PassesWord (.symbol .rightParen) d) (hd : d.current.kind = .endOfFile) :
    Reads (program Production.parse) c d fun stmts =>
      ∃ range expr, stmts = [.expression range expr] ∧ P expr := by
  have hk : c.current.kind = .symbol .leftParen := hl.current
  have hprimary : Reads (primary Production.parse) c d P := by
    refine .peek ?_
    simp only [hk]
    exact .symbol hl (.bind h fun expr he => .symbol hr (.pure he))
  have hexpression : Reads (expression Production.parse false) c d P :=
    reads_lone_primary hprimary hk (by rw [hd]; rfl)
  have hstatement : Reads (statement Production.parse) c d fun stmt =>
      ∃ range expr, stmt = .expression range expr ∧ P expr := by
    refine .peek ?_
    simp only [hk]
    refine .peek (.bind hexpression fun expr he => .bind (reads_semicolon_end hd) fun _ _ => ?_)
    exact .rangeFrom fun range => .pure ⟨range, expr, rfl, he⟩
  have hrest : Reads Production.program.parse d d fun stmts => stmts = [] :=
    .parse trivial (.isAt_true hd (.ite_pos rfl (.pure rfl)))
  refine .isAt_false (by rw [hk]; nofun) (.ite_neg Bool.false_ne_true ?_)
  refine .bind hstatement fun stmt ⟨range, expr, hstmt, he⟩ => .bind hrest fun stmts hnil => ?_
  exact .pure ⟨range, expr, by rw [hstmt, hnil], he⟩

end Grammar

theorem TokenReader.Concludes.leading {read : List Token}
    (h : Concludes (Production.expression false).parse read start expr) (start' : Nat) :
    Concludes (Production.expression false).parse (Token.leading read) start' expr := by
  obtain ⟨token, read, rfl⟩ := List.exists_cons_of_ne_nil h.ne_nil
  exact h.relined false start'

/-- Tokens that an expression is read from, in parentheses, are a script of that expression. -/
theorem Script.ofTokens_enclosed {read : List Token} {last : Token} {f : Range → Range}
    (h : ∀ start, Concludes (Production.expression false).parse read start expr)
    (hc : Cursor.Closed
      ⟨Token.opening.relocate f :: (read ++ [(Token.closing stop).relocate f]), last, 0⟩) :
    ∃ script range,
      ofTokens (Token.opening.relocate f :: (read ++ [(Token.closing stop).relocate f]) ++ [last]) =
        .ok script ∧ script.body = [.expression range expr] := by
  let opening := Token.opening.relocate f
  let closing := (Token.closing stop).relocate f
  let c : Cursor := ⟨opening :: (read ++ [closing]), last, 0⟩
  let m : Cursor := ⟨read ++ [closing], last, opening.range.stop⟩
  let m' : Cursor := ⟨[closing], last, Token.stopOf read opening.range.stop⟩
  let d : Cursor := ⟨[], last, closing.range.stop⟩
  have hl : c.PassesWord (.symbol .leftParen) m :=
    ⟨opening, ⟨rfl, rfl, rfl⟩, rfl, rfl, rfl⟩
  have hr : m'.PassesWord (.symbol .rightParen) d :=
    ⟨closing, ⟨rfl, rfl, rfl⟩, rfl, rfl, rfl⟩
  have hm' : m'.Closed :=
    ⟨hc.endOfFile, hc.text, fun token hm =>
      hc.ahead token (List.mem_cons_of_mem _ (List.mem_append_right _ hm))⟩
  have hread : Reads (Production.expression false).parse m m' (· = expr) :=
    h opening.range.stop m' hm' rfl rfl
  obtain ⟨-, body, hbody, range, expr', rfl, rfl⟩ :=
    Reads.parse (p := .program) trivial (Grammar.reads_enclosed hl hread hr hc.endOfFile) hc
  refine ⟨⟨⟨0, last.range.stop⟩, [.expression range expr']⟩, range, ?_, rfl⟩
  rw [ofTokens, Cursor.ofTokens_append]
  dsimp only
  rw [hbody]
  rfl

/-- Where a place in a part of a source in parentheses is in the source, if the part starts there at
the given byte. All places in the part lie behind the parenthesis. -/
def Placement.unwrap (start : Nat) : Placement where
  start place := if place = 0 then 0 else place - 1 + start
  stop place := if place = 0 then 0 else place - 1 + start
  start_zero := rfl
  stop_zero := rfl

theorem Placement.unwrap_shift (start : Nat) (range : Range) :
    (unwrap start).place (range.shift 1) = range.shift start := rfl

theorem Token.map_relocate_unwrap (start : Nat) (list : List Token) :
    (list.map (·.relocate (Range.shift 1))).map (·.relocate (Placement.unwrap start).place) =
      list.map (·.relocate (Range.shift start)) := by
  rw [List.map_map]
  exact List.map_congr_left fun token _ => congrArg (fun range => { token with range })
    (Placement.unwrap_shift start token.range)

namespace Script

/-- Every expression in a script was read from some tokens of its source. -/
theorem excerpted_of_parse (ht : tokens source = .ok (others ++ [last]))
    (h : parse source = .ok script) (hm : .expression expr ∈ script.pieces) :
    ∃ read start, read <:+: others ∧
      Concludes (Production.expression false).parse read start expr := by
  obtain ⟨list, ht', ho⟩ := bind_eq_ok.1 h
  obtain rfl := Except.ok.inj (ht'.symm.trans ht)
  obtain ⟨⟨body, d⟩, hp, he⟩ := bind_eq_ok.1 ho
  cases he
  have hc : (Cursor.ofTokens (others ++ [last])).Rests others := by
    rw [Cursor.ofTokens_append]
    exact ⟨(Cursor.over_of_tokens ht).closed, List.suffix_rfl⟩
  obtain ⟨-, -, hquoted, -⟩ := (Production.repeatsAt hc).program body d hp
  obtain ⟨top, htop, hpiece⟩ := List.mem_flatMap.1 hm
  exact hquoted top htop _ hpiece

/-- Tokens of a source that an expression is read from are a script of it, where they stand in
parentheses. -/
theorem exists_parse_wrapped {before read after : List Token}
    (ht : tokens source = .ok (before ++ read ++ after)) (ha : after ≠ [])
    (hf : read.head? = some first) (hl : read.getLast? = some final)
    (hread : Concludes (Production.expression false).parse read start expr)
    (hsize : byteLength (wrapped ⟨first.range.start, final.range.stop⟩ source).toList < sizeLimit) :
    ∃ script range value,
      parse (wrapped ⟨first.range.start, final.range.stop⟩ source) = .ok script ∧
      script.body = [.expression range value] ∧
      value.relocate (Placement.unwrap first.range.start).place = expr := by
  obtain ⟨base, stop, eof, hw, hbase⟩ := tokens_wrapped ht ha hf hl hsize
  let p := Placement.unwrap first.range.start
  let inner := base.map (·.relocate (Range.shift 1))
  have hinner : inner.map (·.relocate p.place) = Token.leading read :=
    (Token.map_relocate_unwrap _ _).trans hbase
  have hmap : (Token.opening :: (inner ++ [Token.closing stop])).map (·.relocate p.place) =
      Token.opening.relocate p.place ::
        (Token.leading read ++ [(Token.closing stop).relocate p.place]) := by
    rw [List.map_cons, List.map_append, hinner]
    rfl
  replace hw : tokens (wrapped ⟨first.range.start, final.range.stop⟩ source) =
      .ok (Token.opening :: (inner ++ [Token.closing stop]) ++ [eof]) := by
    rw [hw, List.cons_append, List.append_assoc]
    rfl
  have hover := Cursor.over_of_tokens hw
  have hclosed := hover.closed.relocate p
  rw [Cursor.relocate, hmap] at hclosed
  obtain ⟨moved, range, hmoved, hbody⟩ := ofTokens_enclosed hread.leading hclosed
  have hcarries := ofTokens_relocate (p := p) hover
  rw [List.map_append, hmap, List.map_singleton, hmoved] at hcarries
  obtain ⟨script, hparse, rfl⟩ := hcarries.exists_ok
  obtain ⟨range, value, hvalue, hexpr⟩ := Stmt.exists_of_relocates hbody
  refine ⟨script, range, value, ?_, hvalue, hexpr⟩
  rw [parse, hw]
  exact hparse

/-- Every expression in a script is read again from a part of the source that is put in parentheses,
with all places moved by one distance, if the parentheses leave the text below the size limit. The
range of the expression is this part but for parentheses
at its ends, and leaves out none where the expression has a token of its own. -/
theorem parse_parenthesized (h : parse source = .ok script)
    (hm : .expression expr ∈ script.pieces) :
    ∃ before read after first final, tokens source = .ok (before ++ read ++ after) ∧
      read.head? = some first ∧ read.getLast? = some final ∧ expr.Covers read ∧
      (byteLength (wrapped ⟨first.range.start, final.range.stop⟩ source).toList < sizeLimit →
        ∃ script' range value,
          parse (wrapped ⟨first.range.start, final.range.stop⟩ source) = .ok script' ∧
          script'.body = [.expression range value] ∧
          value.relocate (Placement.unwrap first.range.start).place = expr) := by
  obtain ⟨list, ht, -⟩ := bind_eq_ok.1 h
  obtain ⟨others, last, rfl, -⟩ := tokens_eq_append ht
  obtain ⟨all, start, hall, hread⟩ := excerpted_of_parse ht h hm
  have hover := Cursor.over_of_tokens ht
  obtain ⟨read, start, hown, hread, hbare⟩ := hread.exists_bare (hover.excerpt hall).closed
  have hinfix := hown.trans hall
  have hcovers : expr.Covers read := hread.covers (hover.excerpt hinfix) hbare
  obtain ⟨before, after, rfl⟩ := hinfix
  obtain ⟨first, hf⟩ := Option.isSome_iff_exists.1 (List.isSome_head?.2 hread.ne_nil)
  obtain ⟨final, hl⟩ := Option.isSome_iff_exists.1 (List.getLast?_isSome.2 hread.ne_nil)
  rw [List.append_assoc] at ht
  exact ⟨before, read, after ++ [last], first, final, ht, hf, hl, hcovers,
    exists_parse_wrapped ht (List.append_ne_nil_of_right_ne_nil _ (List.cons_ne_nil _ _)) hf hl
      hread⟩

/-- The expression that is all of a script. -/
def value? (script : Script) : Option Expr :=
  match script.body with
  | [.expression _ value] => some value
  | _ => none

theorem mem_pieces_of_value {script : Script} (h : script.value? = some expr) :
    .expression expr ∈ script.pieces := by
  unfold value? at h
  split at h
  case h_1 range value hbody =>
    obtain rfl := Option.some.inj h
    refine List.mem_flatMap.2 ⟨.statement (.expression range value), ?_, ?_⟩
    · rw [hbody]
      exact List.mem_singleton_self _
    · exact Piece.mem_pieces_of_child (List.mem_singleton_self _)
  case h_2 => cases h

theorem exists_value {range : Range} (h : (parse source).toOption.map
      (fun script => script.value?.map (·.range)) = some (some range)) :
    ∃ script expr, parse source = .ok script ∧ .expression expr ∈ script.pieces ∧
      expr.range = range := by
  obtain ⟨script, hs, hv⟩ := exists_ok_of_map h
  obtain ⟨expr, he, hr⟩ := Option.map_eq_some_iff.1 hv
  exact ⟨script, expr, hs, mem_pieces_of_value he, hr⟩

/-- A sum and a name in parentheses, and the negation of a name in parentheses in the sum. The range
of the product begins and ends inside of the outer ones. -/
def product : String :=
  "(-(a) + b) * (c)"

theorem parse_parenthesized_product :
    ∃ script expr, parse product = .ok script ∧ .expression expr ∈ script.pieces ∧
      expr.range = ⟨1, 15⟩ ∧
      ∃ before read after first final, tokens product = .ok (before ++ read ++ after) ∧
        read.head? = some first ∧ read.getLast? = some final ∧ expr.Covers read ∧
        ∃ script' range value,
          parse (wrapped ⟨first.range.start, final.range.stop⟩ product) = .ok script' ∧
          script'.body = [.expression range value] ∧
          value.relocate (Placement.unwrap first.range.start).place = expr := by
  obtain ⟨script, expr, hs, hm, hr⟩ :=
    exists_value (by decide +kernel : (parse product).toOption.map
      (fun script => script.value?.map (·.range)) = some (some ⟨1, 15⟩))
  obtain ⟨before, read, after, first, final, ht, hf, hl, hcovers, hread⟩ :=
    parse_parenthesized hs hm
  have hsize := byteLength_wrapped_le ⟨first.range.start, final.range.stop⟩ product
  have hlimit : byteLength product.toList + 2 < sizeLimit := by decide
  exact ⟨script, expr, hs, hm, hr, before, read, after, first, final, ht, hf, hl, hcovers,
    hread (hsize.trans_lt hlimit)⟩

/-- The range of a negation leaves out the parenthesis behind its operand, and the text there cannot
be read. -/
theorem parse_negation_cut :
    ∃ script expr, parse "-(a)" = .ok script ∧ .expression expr ∈ script.pieces ∧
      expr.range = ⟨0, 3⟩ ∧ wrapped expr.range "-(a)" = "(-(a)" ∧
      ∀ script', parse (wrapped expr.range "-(a)") ≠ .ok script' := by
  obtain ⟨script, expr, hs, hm, hr⟩ :=
    exists_value (by decide +kernel : (parse "-(a)").toOption.map
      (fun script => script.value?.map (·.range)) = some (some ⟨0, 3⟩))
  refine ⟨script, expr, hs, hm, hr, by rw [hr]; decide +kernel, fun script' h => ?_⟩
  have herror : (parse (wrapped ⟨0, 3⟩ "-(a)")).isOk = false := by decide +kernel
  rw [hr] at h
  rw [h] at herror
  cases herror

end Script

end FlowLint
