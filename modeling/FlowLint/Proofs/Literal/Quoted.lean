import FlowLint.Grammar.Script
import FlowLint.Proofs.Token.Lexing

/-!
String literals as they are written. The characters between the quotes come in glyphs: single
characters, and characters behind a backslash. The lexer and the decoder take the same glyphs, so a
literal ends at the first quote that is a glyph of its own; and every text has a literal.
-/
namespace FlowLint
set_option autoImplicit true

namespace Quoted

/-- What the decoder takes at once. -/
inductive Glyph
  | plain (c : Char)
  /-- A backslash and the character behind it. -/
  | escaped (c : Char)
  /-- A backslash with nothing behind it. -/
  | dangling
deriving DecidableEq, Repr

namespace Glyph

def text : Glyph → List Char
  | plain c => [c]
  | escaped c => ['\\', c]
  | dangling => ['\\']

def value : Glyph → List Char
  | plain c => [c]
  | escaped c => [unescape c]
  | dangling => []

end Glyph

def glyphs : List Char → List Glyph
  | [] => []
  | ['\\'] => [.dangling]
  | '\\' :: c :: cs => .escaped c :: glyphs cs
  | c :: cs => .plain c :: glyphs cs

variable {c quote : Char} {cs body inner rest : List Char}

theorem glyphs_cons (hc : c ≠ '\\') : glyphs (c :: cs) = .plain c :: glyphs cs :=
  glyphs.eq_4 _ _ (fun h => absurd h hc) fun _ _ h => absurd h hc

/-- The cases of the decoder are the glyphs. -/
theorem decode_eq (cs : List Char) : decode cs = (glyphs cs).flatMap Glyph.value := by
  fun_induction glyphs cs with
  | case1 | case2 => rfl
  | case3 c cs ih =>
    rw [decode, ih]
    rfl
  | case4 c cs hn hs ih =>
    rw [decode.eq_4 _ _ hn hs, ih]
    rfl

theorem glyphs_text (cs : List Char) : (glyphs cs).flatMap Glyph.text = cs := by
  fun_induction glyphs cs with
  | case1 | case2 => rfl
  | case3 c cs ih | case4 c cs hn hs ih =>
    rw [List.flatMap_cons, ih]
    rfl

/-- Behind a text without a dangling backslash the glyphs are those of what follows. -/
theorem glyphs_append (h : .dangling ∉ glyphs cs) (rest : List Char) :
    glyphs (cs ++ rest) = glyphs cs ++ glyphs rest := by
  fun_induction glyphs cs with
  | case1 => rfl
  | case2 => simp at h
  | case3 c cs ih => exact congrArg _ (ih fun hm => h (List.mem_cons_of_mem _ hm))
  | case4 c cs hn hs ih =>
    rw [List.cons_append, glyphs_cons (ne_backslash hn hs)]
    exact congrArg _ (ih fun hm => h (List.mem_cons_of_mem _ hm))

/-- A character that delimits string literals. -/
def IsQuote (c : Char) : Prop :=
  c = '"' ∨ c = '\''

theorem IsQuote.ne_backslash (h : IsQuote quote) : quote ≠ '\\' := by
  rcases h with rfl | rfl <;> decide

/-- A glyph that a literal goes on behind: no closing quote, no end of a line, and no backslash
with nothing behind it. -/
def Glyph.GoesOn (quote : Char) : Glyph → Prop
  | plain c => c ≠ quote ∧ Character.isLineEnd c = false
  | escaped _ => True
  | dangling => False

/-- A text behind an opening quote goes on inside the literal for some glyphs, and the glyph behind
them is the closing quote. -/
structure Closes (quote : Char) (cs inner rest : List Char) : Prop where
  text : cs = inner ++ quote :: rest
  read : glyphs cs = glyphs inner ++ .plain quote :: glyphs rest
  goesOn : ∀ glyph ∈ glyphs inner, glyph.GoesOn quote

theorem dangling_not_mem (h : ∀ glyph ∈ glyphs inner, glyph.GoesOn quote) :
    .dangling ∉ glyphs inner :=
  fun hm => h _ hm

theorem Closes.of_goesOn (hq : IsQuote quote) (h : ∀ glyph ∈ glyphs inner, glyph.GoesOn quote)
    (rest : List Char) : Closes quote (inner ++ quote :: rest) inner rest where
  text := rfl
  read := by rw [glyphs_append (dangling_not_mem h), glyphs_cons hq.ne_backslash]
  goesOn := h

/-- Splits glyphs behind the first closing quote, as the lexer splits a text. -/
def Glyph.split (quote : Char) : List Glyph → Except (List Char) (List Char × List Char)
  | [] => .error []
  | .dangling :: _ => .error ['\\']
  | .escaped c :: glyphs =>
    match split quote glyphs with
    | .ok (body, rest) => .ok ('\\' :: c :: body, rest)
    | .error read => .error ('\\' :: c :: read)
  | .plain c :: glyphs =>
    if c = quote then .ok ([c], glyphs.flatMap text)
    else if Character.isLineEnd c then .error [c]
    else
      match split quote glyphs with
      | .ok (body, rest) => .ok (c :: body, rest)
      | .error read => .error (c :: read)

/-- The lexer goes by the glyphs that the decoder takes, whether it finds a closing quote or not. -/
theorem splitBody_eq_split (quote : Char) (cs : List Char) :
    splitBody quote cs = Glyph.split quote (glyphs cs) := by
  fun_induction glyphs cs with
  | case1 | case2 => rfl
  | case3 c cs ih =>
    cases hsplit : Glyph.split quote (glyphs cs) with
    | ok | error => rw [splitBody, Glyph.split, ih, hsplit]
  | case4 c cs hn hs ih =>
    cases hsplit : Glyph.split quote (glyphs cs) with
    | ok | error =>
      rw [splitBody_cons (Quoted.ne_backslash hn hs), Glyph.split, glyphs_text, ih, hsplit]

/-- The lexer passes over glyphs that the literal goes on behind, up to the closing quote. -/
theorem closes_of_splitBody (hq : IsQuote quote) (h : splitBody quote cs = .ok (body, rest)) :
    ∃ inner, body = inner ++ [quote] ∧ Closes quote cs inner rest := by
  suffices ∃ inner, body = inner ++ [quote] ∧ ∀ glyph ∈ glyphs inner, glyph.GoesOn quote by
    obtain ⟨inner, rfl, hinner⟩ := this
    obtain rfl : inner ++ quote :: rest = cs := by
      rw [← splitBody_text h, List.append_assoc]
      rfl
    exact ⟨inner, rfl, .of_goesOn hq hinner rest⟩
  fun_induction splitBody quote cs generalizing body rest with
  | case1 | case2 => cases h
  | case3 c cs body rest hs ih =>
    cases h
    obtain ⟨inner, rfl, hinner⟩ := ih hs
    exact ⟨'\\' :: c :: inner, rfl, List.forall_mem_cons.2 ⟨trivial, hinner⟩⟩
  | case4 => cases h
  | case5 cs hn hs =>
    cases h
    exact ⟨[], rfl, List.forall_mem_nil _⟩
  | case6 => cases h
  | case7 c cs hn hs hne hl body rest hr ih =>
    cases h
    obtain ⟨inner, rfl, hinner⟩ := ih hr
    refine ⟨c :: inner, rfl, ?_⟩
    rw [glyphs_cons (Quoted.ne_backslash hn hs)]
    exact List.forall_mem_cons.2 ⟨⟨hne, Bool.eq_false_iff.2 hl⟩, hinner⟩
  | case8 => cases h

/-- The lexer stops at the first quote that is a glyph of its own. -/
theorem Closes.splitBody (hq : IsQuote quote) (h : Closes quote cs inner rest) :
    splitBody quote cs = .ok (inner ++ [quote], rest) := by
  obtain ⟨rfl, -, hinner⟩ := h
  fun_induction glyphs inner with
  | case1 => exact (splitBody_cons hq.ne_backslash).trans (if_pos rfl)
  | case2 => exact absurd (hinner _ (List.mem_singleton_self _)) id
  | case3 c cs ih =>
    obtain ⟨-, hcs⟩ := List.forall_mem_cons.1 hinner
    rw [List.cons_append, List.cons_append, Quoted.splitBody, ih hcs]
    rfl
  | case4 c cs hn hs ih =>
    obtain ⟨⟨hne, hl⟩, hcs⟩ := List.forall_mem_cons.1 hinner
    rw [List.cons_append, splitBody_cons (Quoted.ne_backslash hn hs), if_neg hne,
      if_neg (Bool.eq_false_iff.1 hl), ih hcs]
    rfl

/-- The glyph that a character is written with. -/
def glyph (quote c : Char) : Glyph :=
  if c = '\\' ∨ c = quote ∨ c = '\u2028' ∨ c = '\u2029' then .escaped c
  else if c = '\n' then .escaped 'n'
  else if c = '\r' then .escaped 'r'
  else .plain c

/-- The characters between the quotes of the literal of a text. -/
def encode (quote : Char) (cs : List Char) : List Char :=
  cs.flatMap fun c => (glyph quote c).text

def literal (quote : Char) (value : String) : String :=
  String.ofList (quote :: (encode quote value.toList ++ [quote]))

theorem glyph_goesOn (quote c : Char) : (glyph quote c).GoesOn quote := by
  unfold glyph
  split
  · trivial
  · split
    · trivial
    · split
      · trivial
      · simp_all [Glyph.GoesOn, Character.isLineEnd]

theorem value_glyph (hq : IsQuote quote) (c : Char) : (glyph quote c).value = [c] := by
  unfold glyph
  split
  · next hc =>
    rcases hc with rfl | rfl | rfl | rfl
    · rfl
    · rcases hq with rfl | rfl <;> rfl
    · rfl
    · rfl
  · split
    · next hc => rw [hc]; rfl
    · split
      · next hc => rw [hc]; rfl
      · rfl

theorem glyphs_encode (quote : Char) (cs : List Char) :
    glyphs (encode quote cs) = cs.map (glyph quote) := by
  induction cs with
  | nil => rfl
  | cons c cs ih =>
    have hc := glyph_goesOn quote c
    have hplain (d : Char) (hd : glyph quote c = .plain d) : d ≠ '\\' := by
      rintro rfl
      unfold glyph at hd
      split at hd <;> grind
    rw [encode, List.flatMap_cons, ← encode, List.map_cons, ← ih]
    generalize glyph quote c = g at hc hplain
    cases g with
    | plain d => exact glyphs_cons (hplain d rfl)
    | escaped d => rfl
    | dangling => exact hc.elim

theorem decode_encode (hq : IsQuote quote) (cs : List Char) : decode (encode quote cs) = cs := by
  rw [decode_eq, glyphs_encode, List.flatMap_map]
  simp [value_glyph hq]

theorem value_literal (hq : IsQuote quote) (v : String) :
    String.ofList (value (literal quote v).toList) = v := by
  rw [literal, String.toList_ofList, value, List.tail_cons, List.dropLast_concat, decode_encode hq,
    String.ofList_toList]

theorem closes_encode (hq : IsQuote quote) (cs : List Char) :
    Closes quote (encode quote cs ++ [quote]) (encode quote cs) [] := by
  refine .of_goesOn hq ?_ []
  rw [glyphs_encode]
  exact List.forall_mem_map.2 fun c _ => glyph_goesOn quote c

end Quoted

open Quoted (IsQuote)

theorem Lexeme.split_quote (hq : IsQuote quote) (cs : List Char) :
    split quote cs = splitString quote cs := by
  rcases hq with rfl | rfl <;> rfl

/-- The literal of a text is one token, which covers the source. -/
theorem tokens_literal (hq : IsQuote quote) (value : String)
    (hsize : byteLength (Quoted.literal quote value).toList < sizeLimit) :
    let source := Quoted.literal quote value
    let stop := byteLength source.toList
    tokens source =
      .ok [⟨.string, source, ⟨0, stop⟩, false⟩, ⟨.endOfFile, "", ⟨stop, stop⟩, false⟩] := by
  intro source stop
  have hchars : source.toList = quote :: (Quoted.encode quote value.toList ++ [quote]) :=
    String.toList_ofList
  have hsplit : Lexeme.split quote (Quoted.encode quote value.toList ++ [quote]) =
      .ok (.token .string source.toList, []) := by
    rw [Lexeme.split_quote hq, Lexeme.splitString, (Quoted.closes_encode hq _).splitBody hq, hchars]
  have hlexemes : lexemes 0 source.toList = .ok [.token .string source.toList] := by
    rw [hchars, lexemes_cons hsplit, lexemes_nil, hchars]
    rfl
  rw [tokens_of_lexemes hsize hlexemes]
  simp [Lexeme.placed, stop]

theorem Script.ofTokens_string (text : String) (stop : Nat) :
    Script.ofTokens [⟨.string, text, ⟨0, stop⟩, false⟩, ⟨.endOfFile, "", ⟨stop, stop⟩, false⟩] =
      .ok ⟨⟨0, stop⟩, [.expression ⟨0, stop⟩
        (.string ⟨0, stop⟩ text (String.ofList (Quoted.value text.toList)))]⟩ :=
  rfl

theorem Script.parse_literal (hq : IsQuote quote) (value : String)
    (hsize : byteLength (Quoted.literal quote value).toList < sizeLimit) :
    let source := Quoted.literal quote value
    let stop := byteLength source.toList
    Script.parse source =
      .ok ⟨⟨0, stop⟩, [.expression ⟨0, stop⟩ (.string ⟨0, stop⟩ source value)]⟩ := by
  intro source stop
  have hscript := Script.ofTokens_string source stop
  rw [Quoted.value_literal hq] at hscript
  exact bind_eq_ok.2 ⟨_, tokens_literal hq value hsize, hscript⟩

/-- A string in a source stands between two quotes, and the closing one is the first that decoding
the rest of the source would take by itself. -/
theorem Token.exists_closes (h : tokens source = .ok list) (hm : token ∈ list)
    (hk : token.kind = .string) :
    ∃ quote before inner after, IsQuote quote ∧
      source.toList = before ++ quote :: (inner ++ quote :: after) ∧
      token.text.toList = quote :: (inner ++ [quote]) ∧
      token.range = ⟨byteLength before, byteLength before + byteLength token.text.toList⟩ ∧
      Quoted.Closes quote (inner ++ quote :: after) inner after := by
  obtain ⟨others, last, rfl, hlast, -, hkinds⟩ := tokens_eq_append h
  obtain ⟨-, -, hcuts⟩ := tokens_follow h
  have hm : token ∈ others := by
    rcases List.mem_append.1 hm with hm | hm
    · exact hm
    · rw [List.mem_singleton.1 hm, hlast] at hk
      cases hk
  obtain ⟨quote, cs, body, rest, hq, hb, htext⟩ := (hk ▸ hkinds token hm).exists_splitBody
  obtain ⟨inner, rfl, hcloses⟩ := Quoted.closes_of_splitBody hq hb
  obtain ⟨before, after, hsource, hstart, hstop⟩ := hcuts token hm
  refine ⟨quote, before, inner, after, hq, ?_, htext, ?_, .of_goesOn hq hcloses.goesOn after⟩
  · rw [hsource, htext]
    simp
  · rw [← byteLength_append, ← hstop, ← hstart]

/-- String literals round-trip. The literal of a text that fits into a source is read as one token
over the whole source, and parsed as that text. And wherever a string stands in a source, the lexer
and the decoder take the same glyphs: the closing quote is the first one that the decoder would take
by itself, no backslash is left dangling in front of it, and the value is what these glyphs stand
for. -/
theorem Quoted.literal_roundTrip :
    (∀ quote value, IsQuote quote → byteLength (literal quote value).toList < sizeLimit →
      let source := literal quote value
      let stop := byteLength source.toList
      tokens source =
        .ok [⟨.string, source, ⟨0, stop⟩, false⟩, ⟨.endOfFile, "", ⟨stop, stop⟩, false⟩] ∧
      Script.parse source =
        .ok ⟨⟨0, stop⟩, [.expression ⟨0, stop⟩ (.string ⟨0, stop⟩ source value)]⟩) ∧
    (∀ quote cs, splitBody quote cs = Glyph.split quote (glyphs cs)) ∧
    ∀ source list token, tokens source = .ok list → token ∈ list → token.kind = .string →
      ∃ quote before inner after, IsQuote quote ∧
        source.toList = before ++ quote :: (inner ++ quote :: after) ∧
        token.text.toList = quote :: (inner ++ [quote]) ∧
        token.range = ⟨byteLength before, byteLength before + byteLength token.text.toList⟩ ∧
        splitBody quote (inner ++ quote :: after) = .ok (inner ++ [quote], after) ∧
        glyphs (inner ++ quote :: after) = glyphs inner ++ .plain quote :: glyphs after ∧
        .plain quote ∉ glyphs inner ∧ .dangling ∉ glyphs inner ∧
        Quoted.value token.text.toList = (glyphs inner).flatMap Glyph.value := by
  refine ⟨fun quote value hq hsize => ?_, splitBody_eq_split, fun source list token h hm hk => ?_⟩
  · exact ⟨tokens_literal hq value hsize, Script.parse_literal hq value hsize⟩
  · obtain ⟨quote, before, inner, after, hq, hsource, htext, hrange, hcloses⟩ :=
      Token.exists_closes h hm hk
    refine ⟨quote, before, inner, after, hq, hsource, htext, hrange, hcloses.splitBody hq,
      hcloses.read, fun hp => (hcloses.goesOn _ hp).1 rfl, dangling_not_mem hcloses.goesOn, ?_⟩
    rw [Quoted.value, htext, List.tail_cons, List.dropLast_concat, decode_eq]

/-- A text of `n` bytes. -/
def Quoted.letters (n : Nat) : String :=
  String.ofList (List.replicate n 'a')

theorem Quoted.encode_replicate (n : Nat) :
    encode '\'' (List.replicate n 'a') = List.replicate n 'a' := by
  induction n with
  | zero => rfl
  | succ n ih =>
    rw [List.replicate_succ, encode, List.flatMap_cons, ← encode, ih]
    rfl

theorem byteLength_replicate (n : Nat) : byteLength (List.replicate n 'a') = n := by
  induction n with
  | zero => rfl
  | succ n ih =>
    rw [List.replicate_succ, byteLength, ih, Nat.add_comm]
    rfl

theorem Quoted.byteLength_literal_letters (n : Nat) :
    byteLength (literal '\'' (letters n)).toList = n + 2 := by
  have hquote : byteLength ['\''] = 1 := rfl
  rw [literal, letters, String.toList_ofList, String.toList_ofList, encode_replicate,
    ← List.singleton_append, byteLength_append, byteLength_append, byteLength_replicate, hquote,
    Nat.add_comm]

/-- A text that fills a source has no literal that is one. -/
theorem Quoted.literal_overlong :
    tokens (literal '\'' (letters sizeLimit)) = .error ⟨.sourceTooLong, ⟨0, 0⟩⟩ ∧
      Script.parse (literal '\'' (letters sizeLimit)) = .error ⟨.sourceTooLong, ⟨0, 0⟩⟩ := by
  have htokens : tokens (literal '\'' (letters sizeLimit)) = .error ⟨.sourceTooLong, ⟨0, 0⟩⟩ := by
    apply tokens_of_le
    rw [byteLength_literal_letters]
    exact Nat.le_add_right _ _
  exact ⟨htokens, bind_eq_error.2 (.inl htokens)⟩

/-- Backslashes in a row, both quotes, and line ends. -/
def Quoted.crowdedText : String :=
  "\\\\'\n\"\r\u2028é\\"

/-- A string with an escaped quote behind an escaped backslash, one with a line end behind a
backslash, and a comment with a quote. -/
def Quoted.backslashSource : String :=
  "'a\\\\\\'b' + \"\\\n\\\\\" // '"

theorem Quoted.literal_roundTrip_backslashes :
    Script.parse (literal '\'' crowdedText) =
      .ok ⟨⟨0, 21⟩, [.expression ⟨0, 21⟩ (.string ⟨0, 21⟩ (literal '\'' crowdedText) crowdedText)]⟩ ∧
    ∃ list token, tokens backslashSource = .ok list ∧ token ∈ list ∧ token.kind = .string ∧
      ∃ before inner after, backslashSource.toList = before ++ '\'' :: (inner ++ '\'' :: after) ∧
        glyphs inner = [.plain 'a', .escaped '\\', .escaped '\'', .plain 'b'] ∧
        Quoted.value token.text.toList = ['a', '\\', '\'', 'b'] := by
  obtain ⟨hliteral, -, hstring⟩ := literal_roundTrip
  have hstop : byteLength (literal '\'' crowdedText).toList = 21 := by decide
  obtain ⟨-, hparse⟩ := hliteral '\'' crowdedText (.inr rfl) (by rw [hstop]; decide)
  rw [hstop] at hparse
  obtain ⟨list, hl⟩ : ∃ list, tokens backslashSource = .ok list :=
    exists_ok_of_isOk (by decide +kernel)
  have hfirst : (tokens backslashSource).toOption.bind List.head? =
      some ⟨.string, "'a\\\\\\'b'", ⟨0, 8⟩, false⟩ := by
    decide +kernel
  rw [hl] at hfirst
  have hm := List.mem_of_head? hfirst
  obtain ⟨quote, before, inner, after, -, hsource, htext, -, -, -, -, -, hvalue⟩ :=
    hstring _ list _ hl hm rfl
  obtain ⟨rfl, htext⟩ := List.cons.inj htext
  obtain rfl : ['a', '\\', '\\', '\\', '\'', 'b'] = inner := (List.append_singleton_inj.1 htext).1
  exact ⟨hparse, list, _, hl, hm, rfl, before, _, after, hsource, rfl, hvalue⟩

end FlowLint
