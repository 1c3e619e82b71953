import FlowLint.Proofs.Token.Place

namespace FlowLint
set_option autoImplicit true

/-- What separates a token from the one before: blanks, which include the ends of lines, and
comments. `rest` is what follows. A comment behind `//` goes on to the end of its line, and one
behind `/*` to the first `*/`. -/
inductive Separates (rest : List Char) : List Char → Prop
  | nil : Separates rest []
  | blank (hc : Character.isBlank c = true) (h : Separates rest gap) : Separates rest (c :: gap)
  | lineComment (hb : ∀ c ∈ body, Character.isLineEnd c = false)
      (he : ∀ c ∈ (gap ++ rest).head?, Character.isLineEnd c = true) (h : Separates rest gap) :
      Separates rest ('/' :: '/' :: body ++ gap)
  | blockComment (hb : ¬ ['*', '/'] <:+: body) (h : Separates rest gap) :
      Separates rest ('/' :: '*' :: body ++ '*' :: '/' :: gap)

/-- Only separators stand in a source between a byte and a token, and the token says whether a line
ends in them. -/
def Token.Follows (source : List Char) (stop : Nat) (token : Token) : Prop :=
  ∃ before gap rest, source = before ++ gap ++ rest ∧ stop = byteLength before ∧
    token.range.start = byteLength (before ++ gap) ∧ Separates rest gap ∧
    (token.newlineBefore = true ↔ ∃ c ∈ gap, Character.isLineEnd c = true)

namespace Lexeme

variable {c : Char} {cs text gap rest : List Char} {lexeme : Lexeme}

/-- The text of a comment is closed by the first `*/` in it. -/
theorem body_of_splitComment (h : splitComment cs = some (text, rest)) :
    ∃ body, text = body ++ ['*', '/'] ∧ ¬ ['*', '/'] <:+: body := by
  fun_induction splitComment cs generalizing text rest with
  | case1 => cases h
  | case2 cs =>
    cases h
    exact ⟨[], rfl, by simp⟩
  | case3 c cs hclose ih =>
    obtain ⟨⟨tail, behind⟩, hs, he⟩ := Option.map_eq_some_iff.1 h
    cases he
    obtain ⟨body, rfl, hbody⟩ := ih hs
    refine ⟨c :: body, rfl, ?_⟩
    rw [List.infix_cons_iff, not_or]
    refine ⟨fun hp => ?_, hbody⟩
    obtain ⟨rfl, hslash⟩ := List.cons_prefix_cons.1 hp
    obtain ⟨tail, rfl⟩ := hslash
    exact hclose _ rfl (splitComment_text hs).symm

theorem exists_token_of_splitToken (h : splitToken c cs = .ok (lexeme, rest)) :
    ∃ kind text, lexeme = .token kind text := by
  unfold splitToken at h
  split at h
  · cases h
    exact ⟨_, _, rfl⟩
  · split at h
    · unfold splitNumber at h
      split at h
      · cases h
      · split at h
        · cases h
        · cases h
          exact ⟨_, _, rfl⟩
    · split at h
      · unfold splitString at h
        split at h
        · cases h
          exact ⟨_, _, rfl⟩
        · cases h
      · unfold splitSymbol at h
        split at h
        · cases h
          exact ⟨_, _, rfl⟩
        · cases h

/-- Trivia separate tokens, together with what separates them from the next one. -/
theorem separates_of_split (h : split c cs = .ok (.trivia text, gap ++ rest))
    (hg : Separates rest gap) : Separates rest (text ++ gap) := by
  unfold split at h
  split at h
  · next hb =>
    cases h
    exact .blank hb hg
  · split at h
    · next tail _ =>
      simp only [Except.ok.injEq, Prod.mk.injEq, trivia.injEq] at h
      obtain ⟨rfl, hrest⟩ := h
      refine .lineComment (fun d hd => ?_) (fun d hd => ?_) hg
      · simpa using List.mem_takeWhile_imp hd
      · rw [← hrest] at hd
        have hstop := List.head?_dropWhile_not (!Character.isLineEnd ·) tail
        rw [Option.mem_def.1 hd] at hstop
        simpa using hstop
    · split at h
      · next body behind hs =>
        cases h
        obtain ⟨body, rfl, hbody⟩ := body_of_splitComment hs
        have hcomment := Separates.blockComment hbody hg
        simpa using hcomment
      · cases h
    · obtain ⟨_, _, he⟩ := exists_token_of_splitToken h
      cases he

/-- The first of the tokens placed behind a text stands behind separators, and each of the others
follows the one before. -/
theorem placed_follows (hl : lexemes offset cs = .ok found) (front : List Char)
    (ho : offset = byteLength front) (newline : Bool) :
    ∃ first others gap behind, placed offset newline found = first :: others ∧
      cs = gap ++ behind ∧ first.range.start = byteLength (front ++ gap) ∧
      Separates behind gap ∧ first.newlineBefore = (newline || gap.any Character.isLineEnd) ∧
      (first :: others).IsChain fun token next =>
        next.Follows (front ++ cs) token.range.stop := by
  fun_induction lexemes offset cs generalizing found front newline with
  | case1 =>
    cases hl
    exact ⟨_, [], [], [], rfl, rfl, by simp [ho], .nil, by simp, .singleton _⟩
  | case2 => cases hl
  | case3 => cases hl
  | case4 offset c cs lexeme rest hs others hrest ih =>
    cases hl
    obtain ⟨htext, -⟩ := split_splitsOff hs
    have hfront : offset + byteLength lexeme.text = byteLength (front ++ lexeme.text) := by
      rw [ho, byteLength_append]
    have hsource : front ++ (c :: cs) = front ++ lexeme.text ++ rest := by
      rw [List.append_assoc, htext]
    rw [hsource, ← htext]
    cases lexeme with
    | trivia text =>
      obtain ⟨first, tokens, gap, behind, hp, rfl, hstart, hgap, hn, hchain⟩ :=
        ih hrest (front ++ text) hfront (newline || text.any Character.isLineEnd)
      refine ⟨first, tokens, text ++ gap, behind, hp, ?_, ?_, separates_of_split hs hgap, ?_,
        hchain⟩
      · simp [Lexeme.text]
      · simpa using hstart
      · rw [hn, List.any_append, Bool.or_assoc]
    | token kind text =>
      obtain ⟨next, tokens, gap, behind, hp, rfl, hstart, hgap, hn, hchain⟩ :=
        ih hrest (front ++ text) hfront false
      refine ⟨_, next :: tokens, [], _, congrArg _ hp, rfl, by simp [ho], .nil, by simp, ?_⟩
      refine .cons_cons ?_ hchain
      refine ⟨front ++ text, gap, behind, ?_, hfront, hstart, hgap, ?_⟩
      · simp [Lexeme.text]
      · simp [hn]

end Lexeme

/-- The tokens of a source tile it. Each of them covers its own text and is not empty, but for the
end of the file, which stands once, at the end of the source. Only blanks and complete comments
stand in front of the first token and between a token and the next, and a token has a new line
before it if and only if the end of a line is among them. -/
theorem tokens_tile (h : tokens source = .ok list) :
    ∃ others last, list = others ++ [last] ∧
      last.kind = .endOfFile ∧
      last.range = ⟨byteLength source.toList, byteLength source.toList⟩ ∧
      (∀ token ∈ others, token.kind ≠ .endOfFile ∧ token.range.start < token.range.stop ∧
        token.range.Cuts source.toList token.text.toList) ∧
      (∀ first ∈ list.head?, first.Follows source.toList 0) ∧
      list.IsChain fun token next => next.Follows source.toList token.range.stop := by
  obtain ⟨others, last, rfl, hlast, -, hkinds⟩ := tokens_eq_append h
  obtain ⟨hfollow, hend, hcuts⟩ := tokens_follow h
  obtain ⟨found, hl, hp⟩ := exists_lexemes_of_tokens h
  obtain ⟨first, rest, gap, behind, hplaced, hsource, hstart, hgap, hn, hchain⟩ :=
    Lexeme.placed_follows hl [] rfl false
  rw [hp] at hplaced
  refine ⟨others, last, rfl, hlast, hend, fun token hm => ?_, ?_, ?_⟩
  · exact ⟨(hkinds token hm).kind_ne_endOfFile, hfollow.start_lt_stop hm, hcuts token hm⟩
  · rw [hplaced]
    rintro token ⟨⟩
    exact ⟨[], gap, behind, hsource, rfl, hstart, hgap, by simp [hn]⟩
  · rw [hplaced]
    exact hchain

/-- Letters of two bytes, a line end inside a comment, one behind a comment, and a comment that ends
with the source. -/
def commentedSource : String :=
  "ü/* \n */+ // x\r\n 'é' //"

theorem tokens_tile_commented :
    ∃ list, tokens commentedSource = .ok list ∧
      list.map (fun token => (token.range, token.newlineBefore)) =
        [(⟨0, 2⟩, false), (⟨9, 10⟩, true), (⟨18, 22⟩, true), (⟨25, 25⟩, false)] ∧
      (∀ first ∈ list.head?, first.Follows commentedSource.toList 0) ∧
      list.IsChain fun token next => next.Follows commentedSource.toList token.range.stop := by
  obtain ⟨list, hl⟩ : ∃ list, tokens commentedSource = .ok list :=
    exists_ok_of_isOk (by decide +kernel)
  have hplaces : (tokens commentedSource).toOption.map (·.map fun token =>
      (token.range, token.newlineBefore)) =
        some [(⟨0, 2⟩, false), (⟨9, 10⟩, true), (⟨18, 22⟩, true), (⟨25, 25⟩, false)] := by
    decide +kernel
  rw [hl] at hplaces
  obtain ⟨others, last, -, -, -, -, hfirst, hchain⟩ := tokens_tile hl
  exact ⟨list, hl, Option.some.inj hplaces, hfirst, hchain⟩

end FlowLint
