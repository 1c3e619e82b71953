import FlowLint.Proofs.Token.Tiling

/-!
A part of a source that ends with a token is read as it is read there, when a closing parenthesis
follows in place of the rest. No token looks further than to the character behind it, symbols apart,
and no symbol goes on with a parenthesis.
-/
namespace FlowLint
set_option autoImplicit true

/-- What is left of a text when its end is cut off and a closing parenthesis follows instead. -/
def Cut (text cut : List Char) : Prop :=
  ∃ kept lost, text = kept ++ lost ∧ cut = kept ++ [')']

namespace Cut

variable {text cut front : List Char}

theorem append (h : Cut text cut) (front : List Char) : Cut (front ++ text) (front ++ cut) := by
  obtain ⟨kept, lost, rfl, rfl⟩ := h
  exact ⟨front ++ kept, lost, (List.append_assoc ..).symm, (List.append_assoc ..).symm⟩

/-- No character that a cut text starts with is new but the parenthesis. -/
theorem head (h : Cut text cut) : ∀ c ∈ cut.head?, c = ')' ∨ c ∈ text.head? := by
  obtain ⟨_ | ⟨d, kept⟩, lost, rfl, rfl⟩ := h
  · rintro c ⟨⟩
    exact .inl rfl
  · exact fun c hc => .inr hc

theorem head_not (h : Cut text cut) {p : Char → Bool} (hp : p ')' = false)
    (ht : ∀ c ∈ text.head?, p c = false) : ∀ c ∈ cut.head?, p c = false := by
  intro c hc
  rcases h.head c hc with rfl | hc
  · exact hp
  · exact ht c hc

theorem head_any (h : Cut text cut) {p : Char → Bool} (hp : p ')' = false)
    (ht : text.head?.any p = false) : cut.head?.any p = false := by
  have hnot := h.head_not hp fun c hc => by simpa [Option.mem_def.1 hc] using ht
  cases cut with
  | nil => rfl
  | cons c cut => exact hnot c rfl

/-- What a cut text starts with without the parenthesis, the text starts with. -/
theorem begins (h : Cut text cut) {front : List Char} (hp : front <+: cut) (hf : ')' ∉ front) :
    front <+: text := by
  obtain ⟨kept, lost, rfl, rfl⟩ := h
  rcases List.prefix_concat_iff.1 hp with rfl | hp
  · simp at hf
  · exact hp.trans (List.prefix_append ..)

end Cut

variable {p : Char → Bool} {cs t rest cut : List Char} {c : Char}

theorem takeWhile_cut (hp : p ')' = false) (h : Cut (cs.dropWhile p) cut) :
    (cs.takeWhile p ++ cut).takeWhile p = cs.takeWhile p ∧
      (cs.takeWhile p ++ cut).dropWhile p = cut := by
  have htaken : ∀ d ∈ cs.takeWhile p, p d = true := fun d hd => List.mem_takeWhile_imp hd
  have hstop : ∀ d ∈ cut.head?, p d = false := by
    refine h.head_not hp fun d hd => ?_
    have hnot := List.head?_dropWhile_not p cs
    rwa [Option.mem_def.1 hd] at hnot
  exact ⟨takeWhile_append_stop htaken hstop, dropWhile_append_stop htaken hstop⟩

section Numbers

theorem Exponent.afterMarker_cut {marker : Char} (h : Cut (afterMarker marker cs).2 cut) :
    ∃ tail, (afterMarker marker cs).1.text = marker :: tail ∧
      afterMarker marker (tail ++ cut) = ((afterMarker marker cs).1, cut) := by
  fun_cases afterMarker marker cs with
  | case1 cs =>
    obtain ⟨htake, hdrop⟩ := takeWhile_cut rfl h
    exact ⟨_, rfl, by simp [afterMarker, htake, hdrop]⟩
  | case2 cs =>
    obtain ⟨htake, hdrop⟩ := takeWhile_cut rfl h
    exact ⟨_, rfl, by simp [afterMarker, htake, hdrop]⟩
  | case3 cs hplus hminus =>
    rw [afterMarker.eq_3 _ _ hplus hminus] at h
    obtain ⟨htake, hdrop⟩ := takeWhile_cut rfl h
    have hcut : Cut cs (cs.takeWhile Char.isDigit ++ cut) := by
      simpa using h.append (cs.takeWhile Char.isDigit)
    have hsign (sign : Char) (hs : sign ≠ ')') (hne : ∀ tail, cs ≠ sign :: tail) (tail : List Char) :
        cs.takeWhile Char.isDigit ++ cut ≠ sign :: tail := by
      intro he
      have hp : [sign] <+: cs.takeWhile Char.isDigit ++ cut := ⟨tail, he.symm⟩
      obtain ⟨tail, ht⟩ := hcut.begins hp (by simpa using hs.symm)
      exact hne tail ht.symm
    refine ⟨_, rfl, ?_⟩
    rw [Option.toList_none, List.nil_append, afterMarker.eq_3 _ _ (hsign '+' (by decide) hplus)
      (hsign '-' (by decide) hminus), htake, hdrop]

theorem Exponent.split_cut (h : Cut (split cs).2 cut) :
    split ((split cs).1.elim [] text ++ cut) = ((split cs).1, cut) := by
  have hnone (hm : ∀ c ∈ cut.head?, decide (c = 'e' ∨ c = 'E') = false) : split cut = (none, cut) := by
    cases cut with
    | nil => rfl
    | cons c cut => exact if_neg (of_decide_eq_false (hm c rfl))
  fun_cases split cs with
  | case1 =>
    exact hnone (h.head_not rfl nofun)
  | case2 c cs hm exponent rest he =>
    simp only [split, if_pos hm] at h
    obtain ⟨tail, ht, hs⟩ := afterMarker_cut h
    rw [he] at ht hs
    change split (exponent.text ++ cut) = _
    rw [ht, List.cons_append, split, if_pos hm, hs]
  | case3 c cs hm =>
    simp only [split, if_neg hm] at h
    refine hnone (h.head_not rfl ?_)
    rintro d ⟨⟩
    exact decide_eq_false hm

theorem Decimal.splitFraction_cut (h : Cut (splitFraction cs).2 cut) :
    splitFraction ((splitFraction cs).1.elim [] ('.' :: ·) ++ cut) = ((splitFraction cs).1, cut) := by
  fun_cases splitFraction cs with
  | case1 cs =>
    obtain ⟨htake, hdrop⟩ := takeWhile_cut rfl h
    simp [splitFraction, htake, hdrop]
  | case2 cs hpoint =>
    rw [splitFraction.eq_2 _ hpoint] at h
    refine splitFraction.eq_2 _ fun tail he => ?_
    have hp : ['.'] <+: cut := ⟨tail, he.symm⟩
    obtain ⟨tail, ht⟩ := h.begins hp (by decide)
    exact hpoint tail ht.symm

theorem Decimal.split_cut (h : Cut (split cs).2 cut) :
    split ((split cs).1.text ++ cut) = ((split cs).1, cut) := by
  obtain ⟨fraction, behind, hf⟩ : ∃ fraction behind,
      splitFraction (cs.dropWhile Char.isDigit) = (fraction, behind) := ⟨_, _, rfl⟩
  obtain ⟨exponent, rest, he⟩ : ∃ exponent rest, Exponent.split behind = (exponent, rest) :=
    ⟨_, _, rfl⟩
  have hsplit : split cs = (⟨cs.takeWhile Char.isDigit, fraction, exponent⟩, rest) := by
    simp only [split, hf, he]
  rw [hsplit] at h ⊢
  have hbehind : Cut behind (exponent.elim [] Exponent.text ++ cut) := by
    have htext := Exponent.split_text behind
    rw [he] at htext
    exact htext ▸ h.append _
  have hfirst : Cut (cs.dropWhile Char.isDigit)
      (fraction.elim [] ('.' :: ·) ++ (exponent.elim [] Exponent.text ++ cut)) := by
    have htext := splitFraction_text (cs.dropWhile Char.isDigit)
    rw [hf] at htext
    exact htext ▸ hbehind.append _
  have hexponent := Exponent.split_cut (show Cut (Exponent.split behind).2 cut by rwa [he])
  have hfraction := splitFraction_cut
    (show Cut (splitFraction (cs.dropWhile Char.isDigit)).2 _ by rw [hf]; exact hbehind)
  rw [he] at hexponent
  rw [hf] at hfraction
  obtain ⟨htake, hdrop⟩ := takeWhile_cut rfl hfirst
  simp only [split, text, List.append_assoc, htake, hdrop, hfraction, hexponent]

namespace NumberLiteral

/-- A decimal does not become hexadecimal. -/
theorem split_cut_decimal (hs : split cs = (.decimal value, rest))
    (hd : Decimal.split cs = (value, rest)) (h : Cut rest cut) :
    split (value.text ++ cut) = (.decimal value, cut) := by
  have hcut : Cut cs (value.text ++ cut) := by
    have htext := Decimal.split_text cs
    rw [hd] at htext
    exact htext ▸ h.append _
  have hdecimal := Decimal.split_cut (show Cut (Decimal.split cs).2 cut by rwa [hd])
  rw [hd] at hdecimal
  unfold split
  split
  · next marker tail he =>
    split
    · next hm =>
      have hx : ')' ∉ ['0', marker] := by
        rcases hm with rfl | rfl <;> decide
      obtain ⟨tail, rfl⟩ := hcut.begins ⟨tail, he.symm⟩ hx
      simp [split, hm] at hs
    · rw [← he, hdecimal]
  · rw [hdecimal]

theorem split_cut (h : Cut (split cs).2 cut) :
    split ((split cs).1.text ++ cut) = ((split cs).1, cut) := by
  fun_cases split cs with
  | case1 marker cs hm =>
    simp only [split, if_pos hm] at h
    obtain ⟨htake, hdrop⟩ := takeWhile_cut rfl h
    simp [text, split, hm, htake, hdrop]
  | case2 marker cs hm value rest he =>
    have hs : split ('0' :: marker :: cs) = (.decimal value, rest) := by
      simp only [split, if_neg hm, he]
    rw [hs] at h
    exact split_cut_decimal hs he h
  | case3 cs hx value rest he =>
    have hs : split cs = (.decimal value, rest) := by
      rw [split.eq_2 _ hx, he]
    rw [hs] at h
    exact split_cut_decimal hs he h

end NumberLiteral

end Numbers

namespace Lexeme

theorem splitName_cut (h : splitName cs = (lexeme, rest)) (hc : Cut rest cut) :
    splitName (lexeme.text ++ cut) = (lexeme, cut) := by
  obtain ⟨rfl, rfl⟩ := Prod.mk.inj h
  obtain ⟨htake, hdrop⟩ := takeWhile_cut (by decide) hc
  simp only [splitName, text, htake, hdrop]

theorem splitNumber_cut (h : splitNumber cs = .ok (lexeme, rest)) (hc : Cut rest cut) :
    splitNumber (lexeme.text ++ cut) = .ok (lexeme, cut) := by
  unfold splitNumber at h
  split at h
  · cases h
  · next literal rest' hx hs =>
    split at h
    · cases h
    · next hname =>
      cases h
      have hsplit := NumberLiteral.split_cut (show Cut (NumberLiteral.split cs).2 cut by rwa [hs])
      rw [hs] at hsplit
      unfold splitNumber
      rw [text, hsplit]
      split
      · next he =>
        cases he
        exact (hx _ rfl).elim
      · next he =>
        cases he
        exact if_neg (Bool.eq_false_iff.1 (hc.head_any (by decide) (Bool.eq_false_iff.2 hname)))

theorem exists_number_of_splitNumber (h : splitNumber cs = .ok (lexeme, rest)) :
    ∃ text, lexeme = token .number text := by
  unfold splitNumber at h
  split at h
  · cases h
  · split at h
    · cases h
    · cases h
      exact ⟨_, rfl⟩

theorem splitString_cut (h : splitString c cs = .ok (lexeme, rest)) (ht : lexeme.text = c :: t) :
    splitString c (t ++ cut) = .ok (lexeme, cut) := by
  unfold splitString at h
  split at h
  · next body rest hb =>
    cases h
    obtain ⟨-, rfl⟩ := List.cons.inj ht
    simp [splitString, Quoted.splitBody_append hb]
  · cases h

end Lexeme

/-- The symbols a cut text starts with are among those the text starts with, behind the first. -/
theorem Symbol.longest?_cut (h : longest? cs = some symbol) (hc : Cut rest cut)
    (hcs : cs = symbol.text.toList ++ rest) : longest? (symbol.text.toList ++ cut) = some symbol := by
  have hbegins (other : Symbol) (hp : other.text.toList <+: symbol.text.toList ++ cut) :
      other.text.toList <+: cs := by
    by_cases hparen : ')' ∈ other.text.toList
    · obtain rfl : other = .rightParen := by
        revert hparen
        cases other <;> decide
      obtain ⟨d, t, hd⟩ := List.exists_cons_of_ne_nil symbol.text_ne_nil
      rw [hd] at hp
      have hd' : [')'] <+: d :: (t ++ cut) := hp
      rw [hcs, hd]
      exact List.cons_prefix_cons.2 ⟨(List.cons_prefix_cons.1 hd').1, List.nil_prefix⟩
    · exact hcs ▸ (hc.append _).begins hp hparen
  obtain ⟨-, before, after, hall, hbefore⟩ := List.find?_eq_some_iff_append.1 h
  refine List.find?_eq_some_iff_append.2 ⟨?_, before, after, hall, fun other hm => ?_⟩
  · exact List.isPrefixOf_iff_prefix.2 (List.prefix_append ..)
  · have hnot := hbefore other hm
    rw [Bool.not_eq_true', Bool.eq_false_iff] at hnot ⊢
    intro hp
    exact hnot (List.isPrefixOf_iff_prefix.2 (hbegins other (List.isPrefixOf_iff_prefix.1 hp)))

namespace Lexeme

theorem splitSymbol_cut (h : splitSymbol c cs = .ok (lexeme, rest)) (hc : Cut rest cut)
    (ht : lexeme.text = c :: t) : splitSymbol c (t ++ cut) = .ok (lexeme, cut) := by
  obtain ⟨htext, -⟩ := splitSymbol_splitsOff h
  unfold splitSymbol at h
  split at h
  · next symbol hs =>
    cases h
    have ht : symbol.text.toList = c :: t := ht
    have hl := Symbol.longest?_cut hs hc htext.symm
    rw [ht, List.cons_append] at hl
    unfold splitSymbol
    rw [hl]
    simp only [ht, ← List.cons_append, List.drop_left]
  · cases h

theorem splitToken_cut (h : splitToken c cs = .ok (lexeme, rest)) (hc : Cut rest cut) :
    ∃ t, lexeme.text = c :: t ∧ splitToken c (t ++ cut) = .ok (lexeme, cut) := by
  obtain ⟨htext, hne⟩ := splitToken_splitsOff h
  obtain ⟨d, t, ht⟩ := List.exists_cons_of_ne_nil hne
  dsimp only at htext ht
  rw [ht] at htext
  obtain ⟨rfl, rfl⟩ := List.cons.inj htext
  refine ⟨t, ht, ?_⟩
  unfold splitToken at h ⊢
  split at h
  · next hname =>
    rw [if_pos hname]
    have hsplit := splitName_cut (Except.ok.inj h) hc
    rw [ht] at hsplit
    exact congrArg _ hsplit
  · next hname =>
    rw [if_neg hname]
    split at h
    · next hnumber =>
      have hsplit := splitNumber_cut h hc
      obtain ⟨text, rfl⟩ := exists_number_of_splitNumber h
      obtain rfl : text = d :: t := ht
      rw [if_pos (startsNumber_append h hnumber)]
      exact hsplit
    · next hnumber =>
      have hstart : ¬ startsNumber d (t ++ cut) = true := by
        rw [Bool.not_eq_true, startsNumber, Bool.or_eq_false_iff, Bool.and_eq_false_imp] at hnumber ⊢
        exact ⟨hnumber.1, fun hp => (hc.append t).head_any rfl (hnumber.2 hp)⟩
      rw [if_neg hstart]
      split at h
      · next hquote =>
        rw [if_pos hquote]
        exact splitString_cut h ht
      · next hquote =>
        rw [if_neg hquote]
        exact splitSymbol_cut h hc ht

theorem splitComment_cut (h : splitComment cs = some (body, rest)) (cut : List Char) :
    splitComment (body ++ cut) = some (body, cut) := by
  fun_induction splitComment cs generalizing body rest with
  | case1 => cases h
  | case2 cs =>
    cases h
    rfl
  | case3 c cs hclose ih =>
    obtain ⟨⟨tail, behind⟩, hs, he⟩ := Option.map_eq_some_iff.1 h
    cases he
    have htext := splitComment_text hs
    have hopen (read : List Char) (hc : c = '*') : tail ++ cut ≠ '/' :: read := by
      intro hread
      obtain ⟨closed, rfl, -⟩ := body_of_splitComment hs
      cases closed with
      | nil => cases hread
      | cons d closed =>
        obtain ⟨rfl, -⟩ := List.cons.inj hread
        exact hclose _ hc htext.symm
    rw [List.cons_append, splitComment.eq_3 _ _ fun read hc => hopen read hc, ih hs]
    rfl

theorem split_token_cut {kind : TokenKind} {text : List Char}
    (h : split c cs = .ok (token kind text, rest)) (hc : Cut rest cut) :
    ∃ t, text = c :: t ∧ split c (t ++ cut) = .ok (token kind text, cut) := by
  obtain ⟨hb, hcomment, htoken⟩ := splitToken_of_split h
  obtain ⟨t, ht, hs⟩ := splitToken_cut htoken hc
  refine ⟨t, ht, (split_of_not_startsComment hb ?_).trans hs⟩
  obtain ⟨t', rfl, rfl⟩ := exists_cons_of_split h
  obtain ⟨-, rfl⟩ := List.cons.inj ht
  rw [startsComment, Bool.and_eq_false_imp] at hcomment ⊢
  exact fun hd => (hc.append t').head_any rfl (hcomment hd)

/-- A comment or a blank is read the same where the character behind it is still there. -/
theorem split_trivia_cut {text : List Char} (h : split c cs = .ok (trivia text, d :: rest))
    (cut : List Char) :
    ∃ t, text = c :: t ∧ split c (t ++ d :: cut) = .ok (trivia text, d :: cut) := by
  unfold split at h
  split at h
  · next hb =>
    cases h
    exact ⟨[], rfl, if_pos hb⟩
  · next hb =>
    split at h
    · next cs =>
      simp only [Except.ok.injEq, Prod.mk.injEq, trivia.injEq] at h
      obtain ⟨rfl, hrest⟩ := h
      have htaken : ∀ e ∈ cs.takeWhile (!Character.isLineEnd ·), (!Character.isLineEnd e) = true := by
        intro e he
        simpa using List.mem_takeWhile_imp he
      have hstop : ∀ e ∈ (d :: cut).head?, (!Character.isLineEnd e) = false := by
        rintro e ⟨⟩
        have hnot := List.head?_dropWhile_not (!Character.isLineEnd ·) cs
        rwa [hrest] at hnot
      refine ⟨_, rfl, ?_⟩
      unfold split
      simp only [hb, List.cons_append]
      simp only [takeWhile_append_stop htaken hstop, dropWhile_append_stop htaken hstop]
      simp
    · next cs =>
      split at h
      · next body rest hs =>
        cases h
        refine ⟨_, rfl, ?_⟩
        unfold split
        simp [hb, splitComment_cut hs]
      · cases h
    · obtain ⟨_, _, he⟩ := exists_token_of_splitToken h
      cases he

/-- A lexeme is read the same with the rest cut off behind it, where something is left of the rest
or the lexeme is a token: a comment would go on with the parenthesis. -/
theorem split_cut (h : split c cs = .ok (lexeme, kept ++ lost))
    (hk : kept = [] → ∃ kind text, lexeme = token kind text) :
    ∃ t, lexeme.text = c :: t ∧ split c (t ++ (kept ++ [')'])) = .ok (lexeme, kept ++ [')']) := by
  cases lexeme with
  | token kind text => exact split_token_cut h ⟨kept, lost, rfl, rfl⟩
  | trivia text =>
    obtain ⟨d, kept, rfl⟩ : ∃ d kept', kept = d :: kept' := by
      apply List.exists_cons_of_ne_nil
      intro hn
      obtain ⟨_, _, he⟩ := hk hn
      cases he
    exact split_trivia_cut h _

end Lexeme

theorem lexemes_eq_cons (h : lexemes offset cs = .ok (lexeme :: others)) :
    ∃ c tail rest, cs = c :: tail ∧ Lexeme.split c tail = .ok (lexeme, rest) ∧
      lexemes (offset + byteLength lexeme.text) rest = .ok others := by
  cases cs with
  | nil =>
    rw [lexemes_nil] at h
    cases h
  | cons c tail =>
    cases hs : Lexeme.split c tail with
    | error failure =>
      unfold lexemes at h
      split at h
      · cases h
      · next hs' => cases hs.symm.trans hs'
    | ok result =>
      obtain ⟨first, rest⟩ := result
      rw [lexemes_cons hs] at h
      cases hr : lexemes (offset + byteLength first.text) rest with
      | error error =>
        rw [hr] at h
        cases h
      | ok found =>
        rw [hr] at h
        cases h
        exact ⟨c, tail, rest, rfl, hs, hr⟩

theorem lexemes_drop (h : lexemes offset cs = .ok (front ++ back)) :
    ∃ offset', lexemes offset' (back.flatMap Lexeme.text) = .ok back := by
  induction front generalizing offset cs with
  | nil =>
    have htext := (lexemes_text h).1
    exact ⟨offset, by rwa [List.nil_append, ← htext] at h⟩
  | cons lexeme front ih =>
    obtain ⟨c, tail, rest, rfl, -, hrest⟩ := lexemes_eq_cons h
    exact ih hrest

/-- Lexemes up to a token are read again with the rest cut off behind them. -/
theorem lexemes_cut (h : lexemes offset cs = .ok (front ++ .token kind text :: back)) (start : Nat) :
    lexemes start ((front ++ [.token kind text]).flatMap Lexeme.text ++ [')']) =
      .ok (front ++ [.token kind text, .token (.symbol .rightParen) [')']]) := by
  induction front generalizing offset cs start with
  | nil =>
    obtain ⟨c, tail, rest, rfl, hs, -⟩ := lexemes_eq_cons h
    have hs : Lexeme.split c tail = .ok (.token kind text, [] ++ rest) := hs
    obtain ⟨t, ht, hcut⟩ := Lexeme.split_cut hs fun _ => ⟨_, _, rfl⟩
    have hparen : Lexeme.split ')' [] = .ok (.token (.symbol .rightParen) [')'], []) := rfl
    rw [List.nil_append] at hcut
    rw [List.nil_append, List.flatMap_singleton, ht, List.cons_append, lexemes_cons hcut,
      lexemes_cons hparen, lexemes_nil]
    rfl
  | cons lexeme front ih =>
    obtain ⟨c, tail, rest, rfl, hs, hrest⟩ := lexemes_eq_cons h
    obtain ⟨htext, hne⟩ := lexemes_text hrest
    have hkept : rest = (front ++ [Lexeme.token kind text]).flatMap Lexeme.text ++
        back.flatMap Lexeme.text := by
      rw [← htext]
      simp
    rw [hkept] at hs
    have hnot (hn : (front ++ [Lexeme.token kind text]).flatMap Lexeme.text = []) : False := by
      have hnil := List.flatMap_eq_nil_iff.1 hn (.token kind text) (by simp)
      exact hne (.token kind text) (by simp) hnil
    obtain ⟨t, ht, hcut⟩ := Lexeme.split_cut hs fun hn => (hnot hn).elim
    rw [List.cons_append, List.flatMap_cons, ht, List.append_assoc, List.cons_append,
      lexemes_cons hcut, ih hrest]
    rfl

end FlowLint
