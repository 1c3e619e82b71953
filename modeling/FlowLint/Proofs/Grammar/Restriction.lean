import FlowLint.Proofs.Grammar.InWords
import FlowLint.Proofs.Grammar.NoIn

namespace FlowLint
set_option autoImplicit true

/-- Tokens that start in ascending order are split in one way in front of a token that starts at a
byte. -/
theorem split_unique {left left' rest rest' : List Token} {token token' : Token}
    (h : (left ++ token :: rest).Pairwise fun a b => a.range.start < b.range.start)
    (he : left ++ token :: rest = left' ++ token' :: rest')
    (hs : token.range.start = token'.range.start) :
    left = left' ∧ token = token' ∧ rest = rest' := by
  obtain ⟨-, hcons, hcross⟩ := List.pairwise_append.1 h
  apply (List.append_cons_inj_of_notMem ?_ ?_).1 he
  · intro hm
    have hlt := hcross token' hm token (List.mem_cons_self ..)
    omega
  · intro hm
    have hlt := (List.pairwise_cons.1 hcons).1 token' hm
    omega

namespace Phrase.SpelledBy

variable {phrase : Phrase} {read more rest rest' others : List Token} {word : Token}

theorem kept_eq (h : phrase.SpelledBy read rest)
    (hl : ∀ token ∈ read ++ rest, Lexeme.IsToken token.kind token.text.toList) :
    Word.kept (read.filterMap Token.word?) = Word.kept phrase.words := by
  obtain ⟨c, d, hs, hc, hd⟩ := h
  have hlexical : c.Lexical := fun token hm => hl token (hc ▸ hm)
  obtain ⟨-, hwords⟩ := hs.takes hlexical
  rw [Cursor.words, Cursor.words, hc, hd, List.filterMap_append, Word.kept_append] at hwords
  exact List.append_cancel_right hwords

/-- Tokens that spell a phrase in front of a word `in` do not spell it together with the word. -/
theorem not_beyond (h : phrase.SpelledBy read rest)
    (h' : phrase.SpelledBy (read ++ word :: more) rest') (hk : word.kind = .keyword .in)
    (hl : ∀ token ∈ read ++ rest, Lexeme.IsToken token.kind token.text.toList)
    (he : read ++ rest = (read ++ word :: more) ++ rest') : False := by
  have hwords := (h'.kept_eq (he ▸ hl)).trans (h.kept_eq hl).symm
  have hword : word.word? = some (.keyword .in) := by simp [Token.word?, hk]
  rw [List.filterMap_append, List.filterMap_cons_some hword, Word.kept_append] at hwords
  have hnil := List.append_right_eq_self.1 hwords
  simp [Word.isKept] at hnil

end Phrase.SpelledBy

/-- In a `for` the first part of the head ends in front of one word `in` only. -/
theorem Heads.unique {others head head' : List Token} {word word' : Token}
    (h : Heads others start first head word) (h' : Heads others start first head' word')
    (hk : word.kind = .keyword .in) (hk' : word'.kind = .keyword .in)
    (ho : others.Pairwise fun a b => a.range.start < b.range.start)
    (hl : ∀ token ∈ others, Lexeme.IsToken token.kind token.text.toList) :
    head = head' ∧ word = word' := by
  obtain ⟨before, opener, paren, after, he, -, hstart, -, hspelled⟩ := h
  obtain ⟨before', opener', paren', after', he', -, hstart', -, hspelled'⟩ := h'
  obtain ⟨-, -, hrest⟩ := split_unique (he ▸ ho) (he.symm.trans he') (hstart.trans hstart'.symm)
  have hbehind := (List.cons.inj hrest).2
  have hlexical : ∀ token ∈ head ++ word :: after, Lexeme.IsToken token.kind token.text.toList := by
    intro token hm
    apply hl
    rw [he]
    exact List.mem_append_right _ (List.mem_cons_of_mem _ (List.mem_cons_of_mem _ hm))
  rcases List.append_eq_append_iff.1 hbehind with ⟨more, rfl, hmore⟩ | ⟨more, rfl, hmore⟩
  · cases more with
    | nil =>
      obtain ⟨rfl, -⟩ := List.cons.inj hmore
      exact ⟨(List.append_nil _).symm, rfl⟩
    | cons token more =>
      obtain ⟨rfl, -⟩ := List.cons.inj hmore
      exact (hspelled.not_beyond hspelled' hk hlexical hbehind).elim
  · cases more with
    | nil =>
      obtain ⟨rfl, -⟩ := List.cons.inj hmore
      exact ⟨List.append_nil _, rfl⟩
    | cons token more =>
      obtain ⟨rfl, -⟩ := List.cons.inj hmore
      exact (hspelled'.not_beyond hspelled hk' (hbehind ▸ hlexical) hbehind.symm).elim

theorem Piece.HeadedBy.separatedBy {piece : Piece} (h : piece.HeadedBy others word)
    (hs : piece.Separates others) (hk : word.kind = .keyword .in)
    (ho : others.Pairwise fun a b => a.range.start < b.range.start)
    (hl : ∀ token ∈ others, Lexeme.IsToken token.kind token.text.toList) :
    piece.SeparatedBy others word := by
  unfold Piece.HeadedBy at h
  split at h
  · obtain ⟨head, hheads⟩ := h
    obtain ⟨separator, head', hheads', hrest⟩ := hs rfl
    obtain ⟨rfl, rfl⟩ := hheads.unique hheads' hk hrest.2.1 ho hl
    exact ⟨head, hheads', hrest⟩
  · exact h.elim

namespace Script

/-- Every `for` in a script has a separator. -/
theorem separated_of_parse (ht : tokens source = .ok (others ++ [last]))
    (h : Script.parse source = .ok script) :
    ∀ piece ∈ script.pieces, piece.Separates others := by
  obtain ⟨list, hlist, ho⟩ := bind_eq_ok.1 h
  cases ht.symm.trans hlist
  obtain ⟨⟨body, d⟩, hp, hs⟩ := bind_eq_ok.1 ho
  cases hs
  rw [Cursor.ofTokens_append] at hp
  have hc : Cursor.Remains others last ⟨others, last, 0⟩ :=
    ⟨Cursor.over_of_tokens ht, List.suffix_rfl⟩
  obtain ⟨-, hrow⟩ := Grammar.separating_upTo others last _ .program .nil _ hc body d hp
  exact List.forall_mem_flatMap.2 hrow

theorem explained_of_parse (ht : tokens source = .ok (others ++ [last]))
    (h : Script.parse source = .ok script) :
    Explained others (script.body.map .statement) others := by
  obtain ⟨others', last', d, hlist, -, -, hs, hd⟩ := exists_stands_of_parse h
  obtain ⟨rfl, rfl⟩ := List.append_singleton_inj.1 (Except.ok.inj (ht.symm.trans hlist))
  have hc : Cursor.Remains others last ⟨others, last, 0⟩ :=
    ⟨Cursor.over_of_tokens ht, List.suffix_rfl⟩
  obtain ⟨-, read, hread, hx⟩ := hs.explains hc
  rw [hd, List.append_nil] at hread
  obtain rfl : others = read := hread
  exact hx

/-- Every word `in` of a script is a property name, an operator or the separator of a loop. -/
theorem owned_of_parse (ht : tokens source = .ok (others ++ [last]))
    (h : Script.parse source = .ok script) (hm : word ∈ others) (hk : word.kind = .keyword .in) :
    word.BehindDot others ∨
      ∃ piece ∈ script.pieces, piece.OperatedBy word ∨ piece.SeparatedBy others word := by
  have hstarts := (List.pairwise_append.1 (tokens_follow ht).1.starts_pairwise).1
  obtain ⟨others', last', he, -, -, hlexical⟩ := tokens_eq_append ht
  obtain ⟨rfl, rfl⟩ := List.append_singleton_inj.1 he
  obtain hdot | ⟨piece, hp, hoperated | hheaded⟩ := explained_of_parse ht h word hm hk
  · exact .inl hdot
  · exact .inr ⟨piece, hp, .inl hoperated⟩
  · have hseparates := separated_of_parse ht h piece hp
    exact .inr ⟨piece, hp, .inr (hheaded.separatedBy hseparates hk hstarts hlexical)⟩

/-- With `noIn` an expression is read as without where no word `in` outside of brackets is read, and
such a word is left ahead. So the separator of a loop over keys is the first such word behind
`for (`, none stands in front of the separators of other loops, and every other word `in` is an
operator or a property name. -/
theorem parse_no_in :
    (∀ c : Cursor, c.Closed →
      ((∀ read word rest, c.FreeIn read word rest →
          (Production.expression false).parse.Leaves c read word rest) →
        (Production.expression true).parse c = (Production.expression false).parse c) ∧
      ∀ read word rest, c.FreeIn read word rest →
        (Production.expression true).parse.Leaves c read word rest) ∧
    ∀ source others last script, tokens source = .ok (others ++ [last]) →
      Script.parse source = .ok script →
      (∀ piece ∈ script.pieces, piece.isFor = true →
        ∃ separator, piece.SeparatedBy others separator) ∧
      ∀ word ∈ others, word.kind = .keyword .in → word.BehindDot others ∨
        ∃ piece ∈ script.pieces, piece.OperatedBy word ∨ piece.SeparatedBy others word := by
  constructor
  · intro c hc
    exact ⟨Production.parse_expression_eq hc, fun _ _ _ => Production.leaves_expression hc⟩
  · intro source others last script ht h
    exact ⟨separated_of_parse ht h, fun word => owned_of_parse ht h⟩

/-- A loop over keys, and one that begins with an assignment, with words `in` in brackets and one for
a property. -/
def nestedHeads : String :=
  "for (x[a in b] in c.in) for (y = (d in e);;) ;"

def enclosedIn : Cursor :=
  ⟨[⟨.symbol .leftParen, "(", ⟨0, 1⟩, false⟩, ⟨.name, "a", ⟨1, 2⟩, false⟩,
    ⟨.keyword .in, "in", ⟨3, 5⟩, false⟩, ⟨.name, "b", ⟨6, 7⟩, false⟩,
    ⟨.symbol .rightParen, ")", ⟨7, 8⟩, false⟩], ⟨.endOfFile, "", ⟨8, 8⟩, false⟩, 0⟩

theorem enclosedIn_closed : enclosedIn.Closed :=
  ⟨rfl, rfl, by decide⟩

theorem enclosedIn_not_freeIn (read : List Token) (word : Token) (rest : List Token) :
    ¬ enclosedIn.FreeIn read word rest := by
  rintro ⟨ha, hk, hout⟩
  rcases read with _ | ⟨paren, _ | ⟨left, _ | ⟨word', _ | ⟨right, _ | ⟨paren', read⟩⟩⟩⟩⟩
  · cases ha
    cases hk
  · cases ha
    cases hk
  · cases ha
    cases hout
  · cases ha
    cases hk
  · cases ha
    cases hk
  · simp [enclosedIn] at ha

theorem parse_no_in_nestedHeads :
    (Production.expression true).parse enclosedIn = (Production.expression false).parse enclosedIn ∧
    (∃ read word rest, enclosedIn.advance.FreeIn read word rest ∧
      (Production.expression true).parse.Leaves enclosedIn.advance read word rest) ∧
    ∃ others last script, tokens nestedHeads = .ok (others ++ [last]) ∧
      Script.parse nestedHeads = .ok script ∧
      (∀ piece ∈ script.pieces, piece.isFor = true →
        ∃ separator, piece.SeparatedBy others separator) ∧
      (∀ word ∈ others, word.kind = .keyword .in → word.BehindDot others ∨
        ∃ piece ∈ script.pieces, piece.OperatedBy word ∨ piece.SeparatedBy others word) ∧
      (tokens nestedHeads).toOption.map (fun list =>
        (list.filter (·.kind = .keyword .in)).map (·.range.start)) = some [9, 15, 20, 36] := by
  obtain ⟨hexpression, hscript⟩ := parse_no_in
  obtain ⟨script, hs⟩ : ∃ script, Script.parse nestedHeads = .ok script :=
    exists_ok_of_isOk (by decide +kernel)
  obtain ⟨others, last, -, ht, -⟩ := exists_stands_of_parse hs
  obtain ⟨hseparated, hwords⟩ := hscript nestedHeads others last script ht hs
  have hfree : enclosedIn.advance.FreeIn [⟨.name, "a", ⟨1, 2⟩, false⟩]
      ⟨.keyword .in, "in", ⟨3, 5⟩, false⟩
      [⟨.name, "b", ⟨6, 7⟩, false⟩, ⟨.symbol .rightParen, ")", ⟨7, 8⟩, false⟩] := ⟨rfl, rfl, rfl⟩
  have hadvance : enclosedIn.advance.Closed := ⟨rfl, rfl, by decide⟩
  have hsame := (hexpression enclosedIn enclosedIn_closed).1 fun read word rest h =>
    absurd h (enclosedIn_not_freeIn read word rest)
  have hleaves := (hexpression _ hadvance).2 _ _ _ hfree
  exact ⟨hsame, ⟨_, _, _, hfree, hleaves⟩, others, last, script, ht, hs, hseparated, hwords,
    by decide +kernel⟩

def propertyHead : String :=
  "for (a.in;;) ;"

def propertyIn : Cursor :=
  ⟨[⟨.name, "a", ⟨5, 6⟩, false⟩, ⟨.symbol .dot, ".", ⟨6, 7⟩, false⟩,
    ⟨.keyword .in, "in", ⟨7, 9⟩, false⟩], ⟨.endOfFile, "", ⟨9, 9⟩, false⟩, 5⟩

theorem propertyIn_closed : propertyIn.Closed :=
  ⟨rfl, rfl, by decide⟩

/-- Any word may be a property name, so with `noIn` too a word `in` outside of brackets is read
behind a dot, and stands in front of the first semicolon of a head. -/
theorem parse_property_in :
    (¬ ∀ c : Cursor, c.Closed → ∀ read word rest, c.ahead = read ++ word :: rest →
      word.kind = .keyword .in →
      read.foldl (fun within token => token.kind.nest within) [] = [] →
      (Production.expression true).parse.Leaves c read word rest) ∧
    (Script.parse propertyHead).isOk = true ∧
    (tokens propertyHead).toOption.map (·.map (·.kind)) = some
      [.keyword .for, .symbol .leftParen, .name, .symbol .dot, .keyword .in, .symbol .semicolon,
        .symbol .semicolon, .symbol .rightParen, .symbol .semicolon, .endOfFile] := by
  refine ⟨fun h => ?_, by decide +kernel, by decide +kernel⟩
  have hleaves := h propertyIn propertyIn_closed (propertyIn.ahead.take 2) _ [] rfl rfl rfl
  obtain ⟨⟨a, d⟩, hp⟩ : ∃ result, (Production.expression true).parse propertyIn = .ok result :=
    exists_ok_of_isOk (by decide +kernel)
  have hd : ((Production.expression true).parse propertyIn).toOption.map (·.2.ahead) = some [] := by
    decide +kernel
  rw [hp] at hd
  have hnil : d.ahead = [] := Option.some.inj hd
  have hsuffix := hleaves.suffix hp
  rw [hnil] at hsuffix
  exact List.cons_ne_nil _ _ (List.suffix_nil.1 hsuffix)

end Script

end FlowLint
