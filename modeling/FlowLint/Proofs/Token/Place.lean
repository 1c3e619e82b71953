import FlowLint.Proofs.Token.Stream
import Mathlib.Data.List.Infix

namespace FlowLint
set_option autoImplicit true

theorem byteLength_pos {cs : List Char} (h : cs ≠ []) : 0 < byteLength cs := by
  obtain ⟨c, cs, rfl⟩ := List.exists_cons_of_ne_nil h
  have hc := c.utf8Size_pos
  rw [byteLength]
  omega

/-- A range covers a text that stands in the source: both its ends lie between characters. -/
def Range.Cuts (range : Range) (source text : List Char) : Prop :=
  ∃ before after, source = before ++ text ++ after ∧ range.start = byteLength before ∧
    range.stop = byteLength (before ++ text)

theorem Range.Cuts.slice {range : Range} {source : String} {text : List Char}
    (h : range.Cuts source.toList text) : range.slice source = String.ofList text := by
  obtain ⟨before, after, hs, hstart, hstop⟩ := h
  have hlength : range.stop - range.start = byteLength text := by
    rw [hstart, hstop, byteLength_append]
    omega
  rw [Range.slice, hlength, hstart, hs, List.append_assoc, dropBytes_append, takeBytes_append]

theorem Range.Cuts.span {first last : Range} (hf : first.Cuts source text)
    (hl : last.Cuts source text') (h : first.start ≤ last.stop) :
    ∃ covered, Range.Cuts ⟨first.start, last.stop⟩ source covered := by
  obtain ⟨before, after, hs, hstart, -⟩ := hf
  obtain ⟨before', after', hs', -, hstop⟩ := hl
  have hb : before <+: source := ⟨text ++ after, by rw [hs, List.append_assoc]⟩
  have hb' : before' ++ text' <+: source := ⟨after', hs'.symm⟩
  have hp : before <+: before' ++ text' := by
    rcases List.prefix_or_prefix_of_prefix hb hb' with hp | ⟨extra, he⟩
    · exact hp
    · have hextra : byteLength extra = 0 := by
        rw [hstart, hstop, ← he, byteLength_append] at h
        omega
      have hnil : extra = [] := by
        by_contra hne
        exact Nat.ne_of_gt (byteLength_pos hne) hextra
      rw [← he, hnil, List.append_nil]
  obtain ⟨covered, he⟩ := hp
  exact ⟨covered, before, after', by rw [he, hs'], hstart, by rw [he, hstop]⟩

/-- Tokens from byte `pos` on, one behind the other and none of them empty, and the end of the
file behind them. -/
def Token.Follow (endOfFile : Token) : (pos : Nat) → List Token → Prop
  | pos, [] => pos ≤ endOfFile.range.start
  | pos, token :: tokens =>
    pos ≤ token.range.start ∧ token.range.start < token.range.stop ∧
      Follow endOfFile token.range.stop tokens

theorem Token.Follow.earlier {endOfFile : Token} (h : endOfFile.Follow pos list) (hp : pos' ≤ pos) :
    endOfFile.Follow pos' list := by
  cases list with
  | nil => exact Nat.le_trans hp h
  | cons token list => exact ⟨Nat.le_trans hp h.1, h.2⟩

theorem Token.Follow.le_start {endOfFile token : Token} (h : endOfFile.Follow pos list)
    (hm : token ∈ list ++ [endOfFile]) : pos ≤ token.range.start := by
  induction list generalizing pos with
  | nil =>
    obtain rfl := List.mem_singleton.1 hm
    exact h
  | cons first list ih =>
    obtain ⟨hstart, hne, hlist⟩ := h
    rcases List.mem_cons.1 hm with rfl | hm
    · exact hstart
    · exact Nat.le_trans (Nat.le_trans hstart (Nat.le_of_lt hne)) (ih hlist hm)

theorem Token.Follow.le_last {endOfFile : Token} (h : endOfFile.Follow pos list) :
    pos ≤ endOfFile.range.start :=
  h.le_start (List.mem_append_right _ (List.mem_singleton_self _))

theorem Token.Follow.stop_le {endOfFile token : Token} (h : endOfFile.Follow pos list)
    (hm : token ∈ list) : token.range.stop ≤ endOfFile.range.start := by
  induction list generalizing pos with
  | nil => cases hm
  | cons first list ih =>
    obtain ⟨-, -, hlist⟩ := h
    rcases List.mem_cons.1 hm with rfl | hm
    · exact hlist.le_last
    · exact ih hlist hm

theorem Token.Follow.start_lt_stop {endOfFile token : Token} (h : endOfFile.Follow pos list)
    (hm : token ∈ list) : token.range.start < token.range.stop := by
  induction list generalizing pos with
  | nil => cases hm
  | cons first list ih =>
    obtain ⟨-, hne, hlist⟩ := h
    rcases List.mem_cons.1 hm with rfl | hm
    · exact hne
    · exact ih hlist hm

theorem Token.Follow.sublist {last : Token} (h : last.Follow pos list) (hs : list'.Sublist list) :
    last.Follow pos list' := by
  induction hs generalizing pos with
  | slnil => exact h
  | cons token hs ih => exact (ih h.2.2).earlier (Nat.le_trans h.1 (Nat.le_of_lt h.2.1))
  | cons_cons token hs ih => exact ⟨h.1, h.2.1, ih h.2.2⟩

theorem Token.Follow.starts_pairwise {endOfFile : Token} (h : endOfFile.Follow pos list) :
    (list ++ [endOfFile]).Pairwise fun left right => left.range.start < right.range.start := by
  induction list generalizing pos with
  | nil => exact List.pairwise_singleton _ _
  | cons first list ih =>
    obtain ⟨-, hne, hlist⟩ := h
    apply List.Pairwise.cons
    · exact fun token hm => Nat.lt_of_lt_of_le hne (hlist.le_start hm)
    · exact ih hlist

theorem lexemes_text (h : lexemes offset cs = .ok found) :
    found.flatMap Lexeme.text = cs ∧ ∀ lexeme ∈ found, lexeme.text ≠ [] := by
  fun_induction lexemes offset cs generalizing found with
  | case1 =>
    cases h
    exact ⟨rfl, List.forall_mem_nil _⟩
  | case2 => cases h
  | case3 => cases h
  | case4 offset c cs lexeme rest hs others hl ih =>
    cases h
    obtain ⟨hsplit, hne⟩ := Lexeme.split_splitsOff hs
    obtain ⟨hrest, hothers⟩ := ih hl
    exact ⟨by rw [List.flatMap_cons, hrest, hsplit], List.forall_mem_cons.2 ⟨hne, hothers⟩⟩

/-- Tokens placed from a byte on follow each other, and each covers its text. -/
theorem Lexeme.placed_follow {found : List Lexeme} (h : ∀ lexeme ∈ found, lexeme.text ≠ [])
    (front : List Char) :
    let source := front ++ found.flatMap text
    ∃ others last, placed (byteLength front) newline found = others ++ [last] ∧
      last.Follow (byteLength front) others ∧
      last.range = ⟨byteLength source, byteLength source⟩ ∧
      ∀ token ∈ others, token.range.Cuts source token.text.toList := by
  intro source
  induction found generalizing front newline with
  | nil => exact ⟨[], _, rfl, Nat.le_refl _, by simp [source], List.forall_mem_nil _⟩
  | cons lexeme found ih =>
    obtain ⟨htext, hfound⟩ := List.forall_mem_cons.1 h
    have hpos := byteLength_pos htext
    dsimp only [source]
    rw [List.flatMap_cons, ← List.append_assoc]
    cases lexeme with
    | trivia s =>
      obtain ⟨others, last, he, hf, hlast, hcuts⟩ := ih hfound (front ++ s)
      rw [byteLength_append] at he hf
      exact ⟨others, last, he, hf.earlier (Nat.le_add_right ..), hlast, hcuts⟩
    | token kind s =>
      obtain ⟨others, last, he, hf, hlast, hcuts⟩ := ih hfound (front ++ s)
      rw [byteLength_append] at he hf
      have hhead : Range.Cuts ⟨byteLength front, byteLength front + byteLength s⟩
          (front ++ s ++ found.flatMap text) (String.ofList s).toList := by
        rw [String.toList_ofList]
        exact ⟨front, found.flatMap text, rfl, rfl, (byteLength_append ..).symm⟩
      exact ⟨_ :: others, last, congrArg _ he, ⟨Nat.le_refl _, Nat.lt_add_of_pos_right hpos, hf⟩,
        hlast, List.forall_mem_cons.2 ⟨hhead, hcuts⟩⟩

/-- The tokens of a source follow each other up to its end, and each covers its text. -/
theorem tokens_follow (h : tokens source = .ok (others ++ [last])) :
    last.Follow 0 others ∧
      last.range = ⟨byteLength source.toList, byteLength source.toList⟩ ∧
      ∀ token ∈ others, token.range.Cuts source.toList token.text.toList := by
  obtain ⟨found, hl, hplaced⟩ := exists_lexemes_of_tokens h
  obtain ⟨htext, hne⟩ := lexemes_text hl
  obtain ⟨others', last', he, hf, hlast, hcuts⟩ := Lexeme.placed_follow hne []
  obtain ⟨rfl, rfl⟩ := List.append_singleton_inj.1 (hplaced.symm.trans he)
  rw [List.nil_append, htext] at hlast hcuts
  exact ⟨hf, hlast, hcuts⟩

end FlowLint
