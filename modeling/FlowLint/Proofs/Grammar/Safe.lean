import FlowLint.Proofs.Grammar.Bound
import FlowLint.Proofs.Grammar.Ended
import FlowLint.Proofs.Grammar.MoveStatement
import FlowLint.Proofs.Token.Lexing

namespace FlowLint
set_option autoImplicit true

namespace Cursor

variable {others : List Token} {last : Token} {c : Cursor}

instance : Kept (Reached others last) where
  closed := fun ⟨_, h⟩ => h.closed
  passes := fun ⟨_, h⟩ hp => ⟨_, h.passes hp⟩

theorem Reached.exists_index (h : c.Reached others last) :
    ∃ index, (others ++ [last])[index]? = some c.current ∧ c.ahead = others.drop index := by
  obtain ⟨read, h⟩ := h
  obtain ⟨after, hlist⟩ := h.exists_current
  refine ⟨read.length, ?_, ?_⟩
  · rw [hlist, List.getElem?_append_right (Nat.le_refl _), Nat.sub_self]
    rfl
  · rw [h.split, List.drop_left]

end Cursor

/-- The lexer is safe in a state: it stands between characters, and the next step takes it over some
of them or blames some of them. -/
structure Lexing.Safe (source : List Char) (offset : Nat) (rest : List Char) : Prop where
  boundary : ∃ before, source = before ++ rest ∧ offset = byteLength before
  forward : ∀ c cs lexeme rest', rest = c :: cs → Lexeme.split c cs = .ok (lexeme, rest') →
    0 < byteLength lexeme.text ∧
      Range.Cuts ⟨offset, offset + byteLength lexeme.text⟩ source lexeme.text
  blames : ∀ c cs failure, rest = c :: cs → Lexeme.split c cs = .error failure →
    Range.Cuts ⟨offset, offset + byteLength failure.read⟩ source failure.read

theorem Lexing.safe (h : Lexing source offset rest) : Lexing.Safe source offset rest where
  boundary := h.exists_before
  forward := by
    rintro c cs lexeme rest' rfl hs
    exact h.step_forward hs
  blames := by
    rintro c cs failure rfl hs
    exact h.cuts (Lexeme.blames_of_split hs).1

/-- Reading a production is safe at a cursor over the tokens of a source. It comes to others only at
cursors over these tokens, with fewer of them ahead, and so reads the same with any reader for them
that does the same there. It blames a range of the source, or it reads up to such a cursor what the
tokens in between spell. -/
structure Production.SafeAt (source : List Char) (others : List Token) (last : Token) {α : Type}
    (p : Production α) (c : Cursor) : Prop where
  descends : ∀ g : Grammar, (∀ {β : Type} (q : Production β) d, d.Reached others last → q.Admits d →
    d.ahead.length < c.ahead.length → g q d = q.parse d) → Grammar.read g p c = p.parse c
  blames : ∀ error, p.parse c = .error error → ∃ text, error.range.Cuts source text
  spells : ∀ a d, p.parse c = .ok (a, d) →
    d.Reached others last ∧ d.ahead.length ≤ c.ahead.length ∧ p.Spelled a c d

section Tokens

variable {source : String} {others : List Token} {last : Token} {c d : Cursor}

theorem Range.Marks.exists_cuts {range : Range} (h : range.Marks others last)
    (ht : tokens source = .ok (others ++ [last])) : ∃ text, range.Cuts source.toList text := by
  obtain ⟨-, hlast, hcuts⟩ := tokens_follow ht
  rcases h with h | rfl
  · exact h.exists_cuts hcuts
  · refine ⟨[], source.toList, [], ?_, ?_, ?_⟩ <;> simp [hlast]

theorem Production.safeAt {α : Type} (p : Production α) (ht : tokens source = .ok (others ++ [last]))
    (hc : c.Reached others last) (ha : p.Admits c) : p.SafeAt source.toList others last c where
  descends g hg := Production.read_eq_parse hc ha hg
  blames error he := by
    obtain ⟨read, hread⟩ := hc
    have hmoved := Grammar.moved_upTo ⟨id, id, rfl, rfl⟩ others last (c.ahead.length + 1) p
    exact (hmoved.marks c hread.toOver error he).exists_cuts ht
  spells a d he := by
    have hagree := Grammar.agreeBelow_upTo (I := Cursor.Reached others last) (Nat.le_refl _) p c hc
      ha (Nat.lt_succ_self c.ahead.length)
    obtain ⟨-, hd, hlt⟩ := hagree.2 a d he
    have hclosed : c.Closed := Cursor.Kept.closed hc
    exact ⟨hd, Nat.le_of_lt_succ hlt, (Grammar.sound_upTo _ p c hclosed ha a d he).2⟩

/-- Whatever stands between two cursors over the tokens of a source has ranges of it. -/
theorem Stands.cuts (h : Stands phrase c d) (ht : tokens source = .ok (others ++ [last]))
    (hc : c.Reached others last) :
    ∀ piece ∈ phrase.row.flatMap Piece.pieces, piece.range.start < piece.range.stop ∧
      ∃ text, piece.range.Cuts source.toList text := by
  obtain ⟨read, hc⟩ := hc
  obtain ⟨-, -, hcuts⟩ := tokens_follow ht
  have hlays : Cursor.Lays others c phrase.row d := h.lays
  generalize phrase.row = row at hlays ⊢
  cases hlays with
  | stay => exact nofun
  | cross hcross =>
    rw [List.forall_mem_flatMap]
    intro piece hm part hp
    have hspans := ((hcross hc.along).laid piece hm part hp).1.spans
    exact ⟨hspans.nonempty, hspans.exists_cuts hcuts⟩

end Tokens

/-- Every place that an error reports is a range of the source. -/
theorem Script.cuts_of_parse_error (h : Script.parse source = .error error) :
    ∃ text, error.range.Cuts source.toList text := by
  cases ht : tokens source with
  | error first =>
    have hparse : Script.parse source = .error first := bind_eq_error.2 (.inl ht)
    obtain rfl := Except.error.inj (hparse.symm.trans h)
    exact cuts_of_tokens_error ht
  | ok list =>
    obtain ⟨others, last, rfl, -⟩ := tokens_eq_append ht
    have hparse : Script.parse source = Script.ofTokens (others ++ [last]) := by
      rw [Script.parse, ht]
      rfl
    have hmarks := Script.marks_of_ofTokens (Cursor.over_of_tokens ht) (hparse.symm.trans h)
    exact hmarks.exists_cuts ht

namespace Script

/-- The front end is safe for every source. Each state of the lexer is safe, and so is reading each
production at each cursor over its tokens, which is an index into them. All tokens and all pieces
of syntax that stand over them have ranges that begin and end between characters of the source, and
so do the errors, of the lexer and of the parser. -/
theorem parse_safe (source : String) :
    (∀ offset rest, Lexing source.toList offset rest → Lexing.Safe source.toList offset rest) ∧
    (∀ error, Script.parse source = .error error → ∃ text, error.range.Cuts source.toList text) ∧
    ∀ others last, tokens source = .ok (others ++ [last]) →
      (∀ token ∈ others ++ [last], token.range.Cuts source.toList token.text.toList ∧
        (token.kind = .string → ∃ quote inner, (quote = '"' ∨ quote = '\'') ∧
          token.text.toList = quote :: (inner ++ [quote]))) ∧
      ∀ c, Cursor.Reached others last c →
        (∃ index, (others ++ [last])[index]? = some c.current ∧ c.ahead = others.drop index) ∧
        (∀ {α : Type} (p : Production α), p.Admits c → p.SafeAt source.toList others last c) ∧
        ∀ phrase d, Stands phrase c d → ∀ piece ∈ phrase.row.flatMap Piece.pieces,
          piece.range.start < piece.range.stop ∧ ∃ text, piece.range.Cuts source.toList text := by
  refine ⟨fun _ _ => Lexing.safe, fun _ => cuts_of_parse_error, fun others last ht => ⟨?_, ?_⟩⟩
  · intro token hm
    obtain ⟨-, hlast, hcuts⟩ := tokens_follow ht
    obtain ⟨others', last', he, hk, htext, hkinds⟩ := tokens_eq_append ht
    obtain ⟨rfl, rfl⟩ := List.append_singleton_inj.1 he
    rcases List.mem_append.1 hm with hm | hm
    · exact ⟨hcuts token hm, fun hs => (hs ▸ hkinds token hm).quoted⟩
    · obtain rfl := List.mem_singleton.1 hm
      refine ⟨?_, fun hs => nomatch hk.symm.trans hs⟩
      exact ⟨source.toList, [], by simp [htext], by simp [hlast], by simp [hlast, htext]⟩
  · exact fun c hc => ⟨hc.exists_index, fun p ha => p.safeAt ht hc ha, fun _ _ h => h.cuts ht hc⟩

/-- A source that ends inside of a call and an array, behind a string with a letter of two bytes. -/
def truncatedSource : String :=
  "f('é', [x +"

theorem parse_safe_truncated :
    ∃ error others last, Script.parse truncatedSource = .error error ∧
      tokens truncatedSource = .ok (others ++ [last]) ∧ error.range = ⟨12, 12⟩ ∧
      (∃ text, error.range.Cuts truncatedSource.toList text) ∧
      Production.program.SafeAt truncatedSource.toList others last ⟨others, last, 0⟩ := by
  obtain ⟨list, ht⟩ : ∃ list, tokens truncatedSource = .ok list :=
    exists_ok_of_isOk (by decide +kernel)
  obtain ⟨others, last, rfl, -⟩ := tokens_eq_append ht
  obtain ⟨-, herror, htokens⟩ := parse_safe truncatedSource
  obtain ⟨-, hcursor⟩ := htokens others last ht
  have hsafe := (hcursor _ (Cursor.reached_of_tokens ht)).2.1 .program trivial
  have hrange : (Script.parse truncatedSource).toOption.isNone ∧
      (match Script.parse truncatedSource with
        | .error error => error.range
        | .ok script => script.range) = ⟨12, 12⟩ := by
    decide +kernel
  cases hp : Script.parse truncatedSource with
  | ok script =>
    rw [hp] at hrange
    cases hrange.1
  | error error =>
    rw [hp] at hrange
    exact ⟨error, others, last, rfl, ht, hrange.2, herror error hp, hsafe⟩

end Script

end FlowLint
