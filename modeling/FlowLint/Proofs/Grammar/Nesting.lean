import FlowLint.Proofs.Flow.Census
import FlowLint.Proofs.Grammar.Laid
import FlowLint.Proofs.Grammar.Linear
import FlowLint.Proofs.Tree.Visited

namespace FlowLint
set_option autoImplicit true

/-- The pieces that a phrase puts side by side. -/
def Phrase.row : Phrase → List Piece
  | expr e | parenthesized e => [.expression e]
  | parts es | elements _ es => es.map .expression
  | option e | initializer e | parameter e | test e => e.toList.map .expression
  | stmt s | head s => [.statement s]
  | stmts ss => ss.map .statement
  | orElse s | init s => s.toList.map .statement
  | declarators ds => ds.map .declarator
  | block b => [.block b]
  | handler h => h.toList.map .handler
  | finalizer b => b.toList.map .block
  | clauses cs => cs.map .clause

theorem Stands.isHead (h : Stands (.head stmt) c d) : stmt.isHead = true := by
  cases h <;> rfl

theorem Cursor.PassesName.declarator {c m d : Cursor} (hn : c.PassesName name m)
    (hi : Lays list m (init.toList.map .expression) d) :
    Crosses list c [.declarator ⟨⟨name.range.start, d.stop⟩, name, init⟩] d :=
  (hn.crosses.append hi).wrap (.inr ⟨_, rfl, rfl⟩) (.inl rfl)

/-- A phrase lays its pieces between the cursors it stands between. -/
theorem Stands.lays (h : Stands p c d) : Cursor.Lays list c p.row d := by
  induction h with
  | parenthesized hl h hr ih => exact .cross ((hl.crosses.append ih).skip hr.lays)
  | parens h ih => exact ih
  | name h | number h | string h | boolean h | null h => exact .cross (h.leaf rfl rfl)
  | array hl h ih => exact .cross ((hl.crosses.append ih).whole rfl)
  | call h hl ha ih iha =>
    have hparts := (ih.crosses.skip hl.lays).append iha
    exact .cross (hparts.wrap (.inr ⟨_, rfl, rfl⟩) (.inl rfl))
  | new hn h hl ha ih iha =>
    exact .cross ((((hn.crosses.append ih).skip hl.lays).append iha).whole rfl)
  | bareNew hn h hl ih => exact .cross ((hn.crosses.append ih).whole rfl)
  | member h hd hp hs ih =>
    have hparts := (ih.crosses.skip hd.lays).join hp.identifier
    exact .cross (hparts.wrap (.inr ⟨_, rfl, rfl⟩) (.inl rfl))
  | subscript h hl hi hr ih ihi =>
    have hparts := ((ih.crosses.skip hl.lays).append ihi).skip hr.lays
    exact .cross (hparts.wrap (.inr ⟨_, rfl, rfl⟩) (.inl rfl))
  | unary ho hk h ih | before ho hk h ih =>
    have hparts := ho.crosses.append ih
    have hstart := congrArg (·.range.start) ho.current.symm
    exact .cross (hparts.wrap (.inl hstart) (.inr ⟨_, rfl, rfl⟩))
  | after h ho hk hn ih =>
    have hparts := ih.crosses.skip (.cross ho.crosses)
    exact .cross (hparts.wrap (.inr ⟨_, rfl, rfl⟩) (.inl ho.stop.symm))
  | binary hl ho hk hr ihl ihr =>
    have hparts := (ihl.crosses.skip (.cross ho.crosses)).append ihr
    exact .cross (hparts.wrap (.inr ⟨_, rfl, rfl⟩) (.inr ⟨_, rfl, rfl⟩))
  | assign ht ha ho hk hv iht ihv =>
    have hparts := (iht.crosses.skip (.cross ho.crosses)).append ihv
    exact .cross (hparts.wrap (.inr ⟨_, rfl, rfl⟩) (.inr ⟨_, rfl, rfl⟩))
  | conditional ht hq hw hc hf iht ihw ihf =>
    have hparts := (((iht.crosses.skip hq.lays).append ihw).skip hc.lays).append ihf
    exact .cross (hparts.wrap (.inr ⟨_, rfl, rfl⟩) (.inr ⟨_, rfl, rfl⟩))
  | sequence h hc h' hp ih ih' ihp =>
    have hparts := ((ih.crosses.skip hc.lays).append ih').append ihp
    exact .cross (hparts.wrap (.inr ⟨_, rfl, rfl⟩) (.inl rfl))
  | functionExpr hf hn hl hp ho hb hr ih =>
    have hparts := ((((hf.crosses.append hn.lays).skip hl.lays).join hp.crosses).skip
      ho.lays).append ih
    exact .cross ((hparts.skip hr.lays).whole rfl)
  | noParts => exact .stay
  | parts hc h hp ih ihp => exact .cross ((hc.crosses.append ih).append ihp)
  | noElements h => exact h.lays
  | lastElement hn h hr ih => exact .cross (ih.crosses.skip hr.lays)
  | elements hn h hc he ih ihe => exact .cross ((ih.crosses.skip hc.lays).append ihe)
  | noOption => exact .stay
  | option h ih => exact ih
  | noInitializer => exact .stay
  | initializer ha h ih => exact .cross (ha.crosses.append ih)
  | expression h he ih => exact .cross ((ih.crosses.skip he.lays).whole rfl)
  | declaration hk hd he ih => exact .cross (((hk.crosses.append ih).skip he.lays).whole rfl)
  | function hf hn hl hp ho hb hr ih =>
    have hparts := ((((hf.crosses.join hn.crosses).skip hl.lays).join hp.crosses).skip
      ho.lays).append ih
    exact .cross ((hparts.skip hr.lays).whole rfl)
  | ifStmt hk ht hb he iht ihb ihe =>
    exact .cross ((((hk.crosses.append iht).append ihb).append ihe).whole rfl)
  | whileStmt hk ht hb iht ihb => exact .cross (((hk.crosses.append iht).append ihb).whole rfl)
  | doStmt hk hb hw ht he ihb iht =>
    have hparts := ((hk.crosses.append ihb).join hw.crosses).append iht
    exact .cross ((hparts.skip he.lays).whole rfl)
  | forStmt hk hl hi hs ht hs' hu hr hb ihi iht ihu ihb =>
    have hinit := (hl.crosses.append ihi).skip hs.lays
    have htest := (hinit.append iht).skip hs'.lays
    have hparts := ((htest.append ihu).skip hr.lays).append ihb
    have hfirst := hk.start_lt hparts
    exact .cross ((hk.crosses.join hparts).whole rfl fun hc => ⟨trivial, hfirst hc⟩)
  | forEach hk hl hh he h hr hb ihh ih ihb =>
    have hleft := ((hk.crosses.skip hl.lays).append ihh).join he.crosses
    have hright := (hleft.append ih).skip hr.lays
    exact .cross ((hright.append ihb).whole rfl fun _ => ⟨hh.isHead, trivial⟩)
  | jump hk hl he => exact .cross (((hk.crosses.append hl.lays).skip he.lays).whole rfl)
  | bareReturn hk he => exact .cross ((hk.crosses.skip he.lays).whole rfl)
  | returnStmt hk hn h he ih => exact .cross (((hk.crosses.append ih).skip he.lays).whole rfl)
  | throwStmt hk hn h he ih => exact .cross (((hk.crosses.append ih).skip he.lays).whole rfl)
  | tryStmt hk hb hh hf hs ihb ihh ihf =>
    exact .cross ((((hk.crosses.append ihb).append ihh).append ihf).whole rfl)
  | switchStmt hk hd hl hc hr ihd ihc =>
    have hparts := ((hk.crosses.append ihd).skip hl.lays).append ihc
    exact .cross ((hparts.skip hr.lays).whole rfl)
  | blockStmt h ih => exact .cross (ih.crosses.replace rfl rfl)
  | labeled hn hc hb ih =>
    have hparts := (hn.crosses.skip hc.lays).append ih
    exact .cross (hparts.wrap (.inr ⟨_, rfl, rfl⟩) (.inl rfl))
  | empty h => exact .cross (h.crosses.whole rfl)
  | debugger hk he => exact .cross ((hk.crosses.skip he.lays).whole rfl)
  | withStmt hk ho hb iho ihb => exact .cross (((hk.crosses.append iho).append ihb).whole rfl)
  | noStmts => exact .stay
  | stmts h hs ih ihs => exact .cross (ih.crosses.append ihs)
  | noElse => exact .stay
  | orElse hk h ih => exact .cross (hk.crosses.append ih)
  | lastDeclarator hn hi ih => exact .cross (hn.declarator ih)
  | declarators hn hi hc hd ihi ihd =>
    exact .cross (((hn.declarator ihi).skip hc.lays).append ihd)
  | headExpression h ih =>
    exact .cross (ih.crosses.wrap (.inr ⟨_, rfl, rfl⟩) (.inr ⟨_, rfl, rfl⟩))
  | headDeclaration hk hd ih => exact .cross ((hk.crosses.append ih).whole rfl)
  | noInit => exact .stay
  | init h ih => exact ih
  | block hl h hr ih => exact .cross (((hl.crosses.append ih).skip hr.lays).whole rfl)
  | noParameter => exact .stay
  | parameter h ih => exact ih
  | noHandler => exact .stay
  | handler hk hp hb ihp ihb => exact .cross (((hk.crosses.append ihp).append ihb).whole rfl)
  | noFinalizer => exact .stay
  | finalizer hk hb ih => exact .cross (hk.crosses.append ih)
  | defaultTest hk => exact .cross hk.crosses
  | test hk h ih => exact .cross (hk.crosses.append ih)
  | noClauses => exact .stay
  | clauses ht hc hb hs iht ihb ihs =>
    have hfirst := (iht.next hc.crosses).append ihb
    exact .cross ((hfirst.whole rfl).append ihs)

theorem Range.Spans.exists_cuts {range : Range} (h : range.Spans others)
    (hc : ∀ token ∈ others, token.range.Cuts source token.text.toList) :
    ∃ text, range.Cuts source text := by
  obtain ⟨hne, ⟨first, hf, hstart⟩, ⟨last, hl, hstop⟩⟩ := h
  obtain ⟨text, ht⟩ := (hc first hf).span (hc last hl) (by omega)
  rw [hstart, hstop] at ht
  exact ⟨text, ht⟩

theorem Cursor.over_of_tokens (h : tokens source = .ok (others ++ [last])) :
    Cursor.Over others last ⟨others, last, 0⟩ := by
  obtain ⟨others', last', he, hk, ht, hm⟩ := tokens_eq_append h
  obtain ⟨rfl, rfl⟩ := List.append_singleton_inj.1 he
  obtain ⟨hfollow, -, -⟩ := tokens_follow h
  exact ⟨⟨hk, ht, fun token hm' => (hm token hm').kind_ne_endOfFile⟩, ⟨fun _ hm => hm, hfollow⟩,
    rfl⟩

theorem Script.range_of_ofTokens (h : Script.ofTokens (others ++ [last]) = .ok script) :
    script.range = ⟨0, last.range.stop⟩ := by
  obtain ⟨⟨body, d⟩, -, hs⟩ := bind_eq_ok.1 h
  obtain rfl := pure_eq_ok.1 hs
  rw [Cursor.ofTokens_append]

/-- The pieces of a script are placed over its tokens. -/
theorem Script.placed_of_ofTokens (hc : Cursor.Over others last ⟨others, last, 0⟩)
    (hlast : last.range.start ≤ last.range.stop)
    (h : Script.ofTokens (others ++ [last]) = .ok script) :
    (∀ piece ∈ script.pieces, piece.Placed others ∧ piece.HasPlainHead ∧ piece.OpensFirst) ∧
      Piece.Row script.range (script.body.map .statement) := by
  have hclosed : (Cursor.ofTokens (others ++ [last])).Closed := by
    rw [Cursor.ofTokens_append]
    exact hc.closed
  obtain ⟨d, hs, -⟩ := Script.stands_of_ofTokens hclosed h
  rw [Cursor.ofTokens_append] at hs
  have hlays : Cursor.Lays others _ (script.body.map .statement) d := hs.lays
  rw [range_of_ofTokens h, pieces]
  generalize script.body.map Piece.statement = row at hlays
  cases hlays with
  | stay => exact ⟨List.forall_mem_nil _, .nil⟩
  | cross hcross =>
    obtain ⟨-, hspans, hrow, hlaid⟩ := hcross hc.along
    obtain ⟨token, hm, hstop⟩ := hspans.stop
    have hbefore := hc.along.follow.stop_le hm
    have hle : d.stop ≤ last.range.stop := by
      rw [hstop] at hbefore
      exact Nat.le_trans hbefore hlast
    exact ⟨List.forall_mem_flatMap.2 hlaid, hrow.widen (Nat.zero_le _) hle⟩

theorem Script.placed_of_parse (h : Script.parse source = .ok script) :
    ∃ others last, tokens source = .ok (others ++ [last]) ∧ last.kind = .endOfFile ∧
      (∀ piece ∈ script.pieces, piece.Placed others ∧ piece.HasPlainHead ∧ piece.OpensFirst) ∧
      Piece.Row script.range (script.body.map .statement) ∧
      script.range = ⟨0, last.range.stop⟩ := by
  obtain ⟨list, ht, ho⟩ := bind_eq_ok.1 h
  obtain ⟨others, last, rfl, hk, -⟩ := tokens_eq_append ht
  obtain ⟨-, hlast, -⟩ := tokens_follow ht
  obtain ⟨hpieces, hrow⟩ :=
    placed_of_ofTokens (Cursor.over_of_tokens ht) (by rw [hlast]) ho
  exact ⟨others, last, ht, hk, hpieces, hrow, range_of_ofTokens ho⟩

theorem Body.exists_piece {script : Script} {body : Body} {element : Element}
    (hb : body ∈ script.bodies) (hnode : element ∈ body.nodes) :
    ∃ piece ∈ script.pieces, piece.node? = some element.node := by
  have hwalk : element ∈ Event.elements script.walk :=
    script.nodes_perm.subset (List.mem_flatMap.2 ⟨body, hb, hnode⟩)
  exact Script.exists_piece_of_mem_walk hwalk

theorem Piece.range_of_node? {piece : Piece} (h : piece.node? = some node) :
    piece.range = node.range := by
  cases piece <;> cases h <;> rfl

/-- Ranges are well formed: each starts and ends with a token and is not empty, holds those of the
children of its piece, and they stand one behind the other. So a source can be cut at each of them,
and at the elements of every graph. -/
theorem Script.parse_nesting (h : Script.parse source = .ok script) :
    ∃ others last, tokens source = .ok (others ++ [last]) ∧ last.kind = .endOfFile ∧
      (∀ piece ∈ script.pieces,
        piece.Placed others ∧ ∃ text, piece.range.Cuts source.toList text) ∧
      Piece.Row script.range (script.body.map .statement) ∧
      script.range.Cuts source.toList source.toList ∧
      ∀ options, ∀ body ∈ script.bodies, ∀ graph, body.graph options = .ok graph →
        ∀ element ∈ graph.elements, ∃ text, element.range.Cuts source.toList text ∧
          element.range.slice source = String.ofList text := by
  obtain ⟨others, last, ht, hk, hplaced, hrow, hrange⟩ := placed_of_parse h
  obtain ⟨-, hlast, hcuts⟩ := tokens_follow ht
  have hpieces : ∀ piece ∈ script.pieces, ∃ text, piece.range.Cuts source.toList text :=
    fun piece hm => (hplaced piece hm).1.spans.exists_cuts hcuts
  have hscript : script.range.Cuts source.toList source.toList := by
    rw [hrange, hlast]
    exact ⟨[], [], by simp, rfl, rfl⟩
  refine ⟨others, last, ht, hk, fun piece hm => ⟨(hplaced piece hm).1, hpieces piece hm⟩, hrow,
    hscript, ?_⟩
  intro options body hb graph hg element he
  have hnode : element ∈ body.nodes :=
    body.evaluated_sublist.subset ((Body.elements_perm hg).subset he)
  obtain ⟨piece, hm, hn⟩ := Body.exists_piece hb hnode
  obtain ⟨text, hc⟩ := hpieces piece hm
  rw [Piece.range_of_node? hn] at hc
  exact ⟨text, hc, hc.slice⟩

namespace Script

/-- A loop in parentheses and letters of two bytes, without semicolons. -/
def accented : String :=
  "for (é of (ü)(x)) \x7b\n (ö) \n ++é \x7d"

theorem parse_nesting_accented :
    ∃ script others last, Script.parse accented = .ok script ∧
      tokens accented = .ok (others ++ [last]) ∧ last.kind = .endOfFile ∧
      (∀ piece ∈ script.pieces,
        piece.Placed others ∧ ∃ text, piece.range.Cuts accented.toList text) ∧
      (Script.parse accented).toOption.map (·.body.map (·.range)) = some [⟨0, 36⟩] := by
  obtain ⟨script, hs⟩ : ∃ script, Script.parse accented = .ok script :=
    exists_ok_of_isOk (by decide +kernel)
  obtain ⟨others, last, ht, hk, hpieces, -⟩ := parse_nesting hs
  exact ⟨script, others, last, hs, ht, hk, hpieces, by decide +kernel⟩

end Script

end FlowLint
