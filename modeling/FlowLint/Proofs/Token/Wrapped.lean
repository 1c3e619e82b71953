import FlowLint.Proofs.Grammar.Moved
import FlowLint.Proofs.Token.Cut

namespace FlowLint
set_option autoImplicit true

def Range.shift (count : Nat) (range : Range) : Range :=
  ⟨range.start + count, range.stop + count⟩

namespace Lexeme

def isToken : Lexeme → Bool
  | trivia _ => false
  | token _ _ => true

theorem placed_append (h : placed offset newline front = others ++ [last]) (back : List Lexeme) :
    placed offset newline (front ++ back) =
      others ++ placed last.range.start last.newlineBefore back := by
  induction front generalizing offset newline others with
  | nil =>
    obtain ⟨rfl, rfl⟩ := List.append_singleton_inj.1 (show [] ++ [_] = others ++ [last] from h)
    rfl
  | cons lexeme front ih =>
    cases lexeme with
    | trivia text => exact ih h
    | token kind text =>
      cases others with
      | nil => exact absurd (List.cons.inj h).2 (placed_ne_nil _ _ _)
      | cons token others =>
        obtain ⟨rfl, hrest⟩ := List.cons.inj h
        exact congrArg _ (ih hrest)

/-- A token stands where the lexemes in front of it end. -/
theorem exists_token_of_placed (h : placed offset newline found = others ++ next :: rest)
    (hr : rest ≠ []) :
    ∃ front kind text back last, found = front ++ .token kind text :: back ∧
      placed offset newline front = others ++ [last] ∧
      placed last.range.start last.newlineBefore (.token kind text :: back) = next :: rest := by
  induction found generalizing offset newline others with
  | nil =>
    have hlength := congrArg List.length h
    have hpos := List.length_pos_iff.2 hr
    simp only [placed, List.length_append, List.length_cons, List.length_nil] at hlength
    omega
  | cons lexeme found ih =>
    cases lexeme with
    | trivia text =>
      obtain ⟨front, kind, text', back, last, rfl, hf, hb⟩ := ih h
      exact ⟨.trivia text :: front, kind, text', back, last, rfl, hf, hb⟩
    | token kind text =>
      cases others with
      | nil => exact ⟨[], kind, text, found, _, rfl, rfl, h⟩
      | cons first others =>
        obtain ⟨rfl, hrest⟩ := List.cons.inj h
        obtain ⟨front, kind', text', back, last, rfl, hf, hb⟩ := ih hrest
        exact ⟨.token kind text :: front, kind', text', back, last, rfl, congrArg _ hf, hb⟩

/-- Some tokens in a row are the tokens of some lexemes in a row, from the first of the tokens to the
last of them. -/
theorem exists_part_of_placed (h : placed 0 false found = before ++ part ++ after)
    (ha : after ≠ []) (hf : part.head? = some first) (hl : part.getLast? = some final) :
    ∃ front body kind s back last, found = front ++ (body ++ token kind s :: back) ∧
      placed 0 false front = before ++ [last] ∧ last.range.start = first.range.start ∧
      (body ++ [token kind s]).head?.any isToken = true ∧
      placed last.range.start last.newlineBefore (body ++ [token kind s]) =
        part ++ [⟨.endOfFile, "", ⟨final.range.stop, final.range.stop⟩, false⟩] := by
  obtain ⟨init, rfl⟩ := List.getLast?_eq_some_iff.1 hl
  obtain ⟨tail, htail⟩ : ∃ tail, init ++ [final] = first :: tail := List.head?_eq_some_iff.1 hf
  obtain ⟨front, kind, s, rest, last, rfl, hfront, hpart⟩ :=
    exists_token_of_placed (h.trans (by rw [htail, List.append_assoc, List.cons_append] :
      before ++ (init ++ [final]) ++ after = before ++ first :: (tail ++ after))) (by simp [ha])
  have hstart : last.range.start = first.range.start := by
    obtain ⟨rfl, -⟩ := List.cons.inj hpart
    rfl
  rw [← List.cons_append, ← htail, List.append_assoc] at hpart
  obtain ⟨body, kind', s', back, last', hbody, hinit, hfinal⟩ := exists_token_of_placed hpart ha
  refine ⟨front, body, kind', s', back, last, by rw [hbody], hfront, hstart, ?_, ?_⟩
  · cases body with
    | nil => rfl
    | cons lexeme body =>
      obtain ⟨rfl, -⟩ := List.cons.inj hbody
      rfl
  · rw [placed_append hinit, List.append_assoc]
    obtain ⟨rfl, -⟩ := List.cons.inj hfinal
    rfl

theorem start_of_placed (h : ∀ lexeme ∈ found, lexeme.text ≠ [])
    (hp : placed 0 false found = others ++ [last]) :
    last.range.start = byteLength (found.flatMap text) := by
  obtain ⟨others', last', he, -, hlast, -⟩ := placed_follow h []
  obtain ⟨-, rfl⟩ := List.append_singleton_inj.1 (hp.symm.trans he)
  rw [hlast]
  rfl

theorem placed_shift (count : Nat) (found : List Lexeme) :
    placed (offset + count) newline found =
      (placed offset newline found).map (·.relocate (Range.shift count)) := by
  fun_induction placed offset newline found with
  | case1 => rfl
  | case2 offset newline text found ih => rw [placed, Nat.add_right_comm, ih]
  | case3 offset newline kind text found stop ih =>
    rw [placed, Nat.add_right_comm, ih]
    rfl

end Lexeme

/-- The tokens without what is said about line ends in front of the first. -/
def Token.leading : List Token → List Token
  | [] => []
  | first :: others => { first with newlineBefore := false } :: others

theorem Token.leading_append (h : list ≠ []) : leading (list ++ others) = leading list ++ others := by
  cases list with
  | nil => exact absurd rfl h
  | cons => rfl

theorem Lexeme.placed_leading {found : List Lexeme} (h : found.head?.any isToken = true) :
    placed offset false found = Token.leading (placed offset newline found) := by
  cases found with
  | nil => cases h
  | cons lexeme found =>
    cases lexeme with
    | trivia => cases h
    | token => rfl

def wrapped (range : Range) (source : String) : String :=
  "(" ++ range.slice source ++ ")"

theorem byteLength_takeBytes_le (n : Nat) (cs : List Char) :
    byteLength (takeBytes n cs) ≤ byteLength cs := by
  fun_induction takeBytes n cs with
  | case1 | case2 => exact Nat.zero_le _
  | case3 _ _ _ _ ih => exact Nat.add_le_add_left ih _

theorem byteLength_dropBytes_le (n : Nat) (cs : List Char) :
    byteLength (dropBytes n cs) ≤ byteLength cs := by
  fun_induction dropBytes n cs with
  | case1 | case2 => exact Nat.le_refl _
  | case3 _ _ _ _ ih => exact ih.trans (Nat.le_add_left _ _)

/-- Parentheses around a part of a source add at most their own two bytes to it. -/
theorem byteLength_wrapped_le (range : Range) (source : String) :
    byteLength (wrapped range source).toList ≤ byteLength source.toList + 2 := by
  have hchars : (wrapped range source).toList = '(' :: ((range.slice source).toList ++ [')']) := by
    simp [wrapped]
  have hslice : byteLength (range.slice source).toList ≤ byteLength source.toList := by
    rw [Range.slice, String.toList_ofList]
    exact (byteLength_takeBytes_le _ _).trans (byteLength_dropBytes_le _ _)
  have hopening : '('.utf8Size = 1 := rfl
  have hclosing : byteLength [')'] = 1 := rfl
  rw [hchars, byteLength, byteLength_append, hopening, hclosing]
  omega

def Token.opening : Token :=
  ⟨.symbol .leftParen, "(", ⟨0, 1⟩, false⟩

def Token.closing (start : Nat) : Token :=
  ⟨.symbol .rightParen, ")", ⟨start, start + 1⟩, false⟩

/-- The lexemes of a part in parentheses are those of the part, between the parentheses. -/
theorem lexemes_wrapped {front body back : List Lexeme}
    (h : lexemes 0 source.toList = .ok (front ++ (body ++ .token kind s :: back)))
    (hs : range.slice source = String.ofList ((body ++ [Lexeme.token kind s]).flatMap Lexeme.text)) :
    lexemes 0 (wrapped range source).toList = .ok (.token (.symbol .leftParen) ['('] ::
      (body ++ [.token kind s, .token (.symbol .rightParen) [')']])) := by
  obtain ⟨offset, hread⟩ := lexemes_drop h
  have hopen (cs : List Char) :
      Lexeme.split '(' cs = .ok (.token (.symbol .leftParen) ['('], cs) := rfl
  have hchars : (wrapped range source).toList =
      '(' :: ((body ++ [Lexeme.token kind s]).flatMap Lexeme.text ++ [')']) := by
    simp [wrapped, hs]
  rw [hchars, lexemes_cons (hopen _), lexemes_cut hread]
  rfl

/-- From the first to the last token of a part there are the texts of its lexemes. -/
theorem slice_part {front body back : List Lexeme} {part : List Token}
    (h : lexemes 0 source.toList = .ok (front ++ (body ++ back)))
    (hf : Lexeme.placed 0 false front = before ++ [last])
    (hb : Lexeme.placed last.range.start last.newlineBefore body = part ++ [final]) :
    Range.slice ⟨last.range.start, final.range.start⟩ source =
      String.ofList (body.flatMap Lexeme.text) := by
  obtain ⟨htext, hne⟩ := lexemes_text h
  have hall := Lexeme.placed_append hf body
  rw [hb, ← List.append_assoc] at hall
  refine Range.Cuts.slice ⟨front.flatMap Lexeme.text, back.flatMap Lexeme.text, ?_, ?_, ?_⟩
  · rw [← htext]
    simp
  · exact Lexeme.start_of_placed (fun lexeme hm => hne lexeme (List.mem_append_left _ hm)) hf
  · rw [← List.flatMap_append]
    refine Lexeme.start_of_placed (fun lexeme hm => hne lexeme ?_) hall
    rw [← List.append_assoc]
    exact List.mem_append_left _ hm

/-- Lexemes are placed as from the start of a source, but for the distance. -/
theorem Lexeme.exists_base {found : List Lexeme} {part : List Token}
    (ht : found.head?.any isToken = true) (hne : part ≠ [])
    (h : placed start newline found = part ++ [⟨.endOfFile, "", range, false⟩]) :
    ∃ (base : List Token) (last : Token),
      base.map (·.relocate (Range.shift start)) = Token.leading part ∧
      last.newlineBefore = false ∧ ∀ offset, placed offset false found =
        (base ++ [last]).map (·.relocate (Range.shift offset)) := by
  obtain ⟨base, last, hbase, -⟩ := placed_eq_append 0 false found
  have hshift (offset : Nat) : placed offset false found =
      (base ++ [last]).map (·.relocate (Range.shift offset)) := by
    rw [← hbase, ← placed_shift, Nat.zero_add]
  have hleading : base.map (·.relocate (Range.shift start)) ++ [last.relocate (Range.shift start)] =
      Token.leading part ++ [⟨.endOfFile, "", range, false⟩] := by
    rw [← Token.leading_append hne, ← h, ← placed_leading ht, hshift, List.map_append]
    rfl
  obtain ⟨hpart, hlast⟩ := List.append_singleton_inj.1 hleading
  exact ⟨base, last, hpart, congrArg Token.newlineBefore hlast, hshift⟩

/-- The tokens of a part of a source in parentheses are those of the part, at other places, between
the parentheses. -/
theorem tokens_wrapped {part : List Token} (h : tokens source = .ok (before ++ part ++ after))
    (ha : after ≠ []) (hf : part.head? = some first) (hl : part.getLast? = some final)
    (hsize : byteLength (wrapped ⟨first.range.start, final.range.stop⟩ source).toList < sizeLimit) :
    ∃ (base : List Token) (start : Nat) (eof : Token),
      tokens (wrapped ⟨first.range.start, final.range.stop⟩ source) =
        .ok (Token.opening :: (base.map (·.relocate (Range.shift 1)) ++ [.closing start, eof])) ∧
      base.map (·.relocate (Range.shift first.range.start)) = Token.leading part := by
  obtain ⟨found, hlex, hplaced⟩ := exists_lexemes_of_tokens h
  obtain ⟨front, body, kind, s, back, last, rfl, hfront, hstart, htoken, hpart⟩ :=
    Lexeme.exists_part_of_placed hplaced ha hf hl
  have hne : part ≠ [] := by
    rintro rfl
    cases hf
  obtain ⟨base, last', hbase, hnewline, hshift⟩ := Lexeme.exists_base htoken hne hpart
  have hslice : Range.slice ⟨last.range.start, final.range.stop⟩ source =
      String.ofList ((body ++ [Lexeme.token kind s]).flatMap Lexeme.text) :=
    slice_part (by rw [hlex, List.append_assoc, List.singleton_append]) hfront hpart
  have hclosing := Lexeme.placed_append ((hshift 1).trans (List.map_append ..))
    [.token (.symbol .rightParen) [')']]
  let stop := last'.range.start + 2
  refine ⟨base, last'.range.start + 1, ⟨.endOfFile, "", ⟨stop, stop⟩, false⟩, ?_, hstart ▸ hbase⟩
  rw [tokens_of_lt hsize, ← hstart, lexemes_wrapped hlex hslice]
  refine congrArg (fun list => Except.ok (Token.opening :: list)) ?_
  rw [List.append_assoc] at hclosing
  refine hclosing.trans ?_
  rw [show (last'.relocate (Range.shift 1)).newlineBefore = false from hnewline]
  rfl

end FlowLint
