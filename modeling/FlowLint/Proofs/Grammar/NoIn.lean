import FlowLint.Proofs.Grammar.Balanced
import FlowLint.Proofs.Grammar.StayStatement
import FlowLint.Proofs.Grammar.Tracks

namespace FlowLint
set_option autoImplicit true

/-- A run leaves a word behind some tokens ahead. Where it fails, it fails in this way whatever
stands behind the word. -/
def TokenReader.Leaves (x : TokenReader α) (c : Cursor) (read : List Token) (word : Token)
    (rest : List Token) : Prop :=
  match x c with
  | .ok (_, d) => word :: rest <:+ d.ahead
  | .error error => ∀ rest endOfFile, Cursor.Closed ⟨read ++ word :: rest, endOfFile, c.stop⟩ →
    x ⟨read ++ word :: rest, endOfFile, c.stop⟩ = .error error

theorem TokenReader.Leaves.suffix {x : TokenReader α} {read rest : List Token} {word : Token}
    (h : x.Leaves c read word rest) (hp : x c = .ok (a, d)) : word :: rest <:+ d.ahead := by
  unfold Leaves at h
  rwa [hp] at h

namespace Production

variable {α : Type} {p : Production α} {c d : Cursor} {read rest : List Token} {word : Token}
  {within : List Bracket} {left : List Token}

/-- Where a production fits in front of a word `in`, what it does is the same whatever stands behind
the word. The bound on the recursion depends on the tokens there, and plays no part. -/
theorem exists_outcome (word : InWord) (stop : Nat) (hclose : Closes within left)
    (hfit : p.Fits within (word.current left).kind) (hadmits : ∀ rest endOfFile,
      p.Admits ⟨left ++ word.1 :: rest, endOfFile, stop⟩) :
    ∃ outcome : Except ParseError (α × List Token × Nat), ∀ rest endOfFile,
      Cursor.Closed ⟨left ++ word.1 :: rest, endOfFile, stop⟩ →
      p.parse ⟨left ++ word.1 :: rest, endOfFile, stop⟩ =
        outcome.map fun (a, left, stop) => (a, ⟨left ++ word.1 :: rest, endOfFile, stop⟩) := by
  have hstays (bound : Nat) := Grammar.stays_upTo word bound p within left stop hclose hfit
  obtain ⟨outcome, hread, -⟩ := hstays ((left ++ [word.1]).length + 1)
  refine ⟨outcome, fun rest endOfFile hc => ?_⟩
  obtain ⟨outcome', hread', -⟩ := hstays ((left ++ word.1 :: rest).length + 1)
  have hshort : Cursor.Closed ⟨left ++ [word.1], endOfFile, stop⟩ := by
    refine ⟨hc.endOfFile, hc.text, fun token ht => hc.ahead token ?_⟩
    rcases List.mem_append.1 ht with ht | ht
    · exact List.mem_append_left _ ht
    · exact List.mem_append_right _ (List.mem_singleton.1 ht ▸ List.mem_cons_self ..)
  -- With nothing behind the word, both bounds are large enough.
  have hle : (left ++ [word.1]).length + 1 ≤ (left ++ word.1 :: rest).length + 1 := by simp
  have hagree := (Grammar.agreeBelow_upTo hle p _ hshort (hadmits [] endOfFile)
    (Nat.lt_succ_self _)).1
  rw [hread [] endOfFile, hread' [] endOfFile] at hagree
  have houtcome : outcome = outcome' := by
    cases outcome with
    | error error =>
      cases outcome' with
      | error error' =>
        cases hagree
        rfl
      | ok result' => cases hagree
    | ok result =>
      cases outcome' with
      | error error' => cases hagree
      | ok result' =>
        obtain ⟨a, left', stop'⟩ := result
        obtain ⟨a', left'', stop''⟩ := result'
        simp only [Except.map, Except.ok.injEq, Prod.mk.injEq, Cursor.mk.injEq,
          List.append_cancel_right_eq] at hagree
        obtain ⟨rfl, rfl, -, rfl⟩ := hagree
        rfl
  rw [houtcome]
  exact hread' rest endOfFile

/-- A word `in` outside of brackets is left ahead by an expression with `noIn`. -/
theorem leaves_expression (hc : c.Closed) (h : c.FreeIn read word rest) :
    (expression true).parse.Leaves c read word rest := by
  obtain ⟨ahead, endOfFile, stop⟩ := c
  obtain ⟨ha, hk, hout⟩ := h
  obtain rfl : ahead = read ++ word :: rest := ha
  obtain ⟨outcome, hread⟩ := exists_outcome (p := .expression true) ⟨word, hk⟩ stop hout nofun
    fun _ _ => trivial
  unfold TokenReader.Leaves
  rw [hread rest endOfFile hc]
  cases outcome with
  | error error => exact hread
  | ok result => exact List.suffix_append ..

theorem exists_outside (hc : c.Closed) (h : (expression noIn).parse c = .ok (a, d)) :
    ∃ read, c.ahead = read ++ d.ahead ∧ Outside read := by
  obtain ⟨-, hs⟩ := Grammar.sound_upTo _ (.expression noIn) c hc trivial a d h
  exact hs.nests [] trivial

theorem closed_in_name (hc : Cursor.Closed ⟨read ++ word :: rest, endOfFile, stop⟩)
    (hk : word.kind = .keyword .in) (hn : name.kind = .name) :
    Cursor.Closed ⟨read ++ [word, name], endOfFile, stop⟩ := by
  refine ⟨hc.endOfFile, hc.text, ?_⟩
  rw [List.forall_mem_append]
  refine ⟨fun token ht => hc.ahead token (List.mem_append_left _ ht), ?_⟩
  simp [hk, hn]

/-- Where an expression with `noIn` stops in front of a word `in`, it stops there with a name behind
the word too, and one without reads to the end. -/
theorem parse_in_name (hc : Cursor.Closed ⟨read ++ word :: rest, endOfFile, stop⟩)
    (hk : word.kind = .keyword .in) (hout : Outside read)
    (hp : (expression true).parse ⟨read ++ word :: rest, endOfFile, stop⟩ = .ok (a, d))
    (hd : d.ahead = word :: rest) (hn : name.kind = .name) :
    ∃ b e, (expression false).parse ⟨read ++ [word, name], endOfFile, stop⟩ = .ok (b, e) := by
  have hc' := closed_in_name hc hk hn
  obtain ⟨outcome, hread⟩ := exists_outcome (p := .expression true) ⟨word, hk⟩ stop hout nofun
    fun _ _ => trivial
  have hname := hread [name] endOfFile hc'
  rw [hread rest endOfFile hc] at hp
  cases outcome with
  | error error => cases hp
  | ok result =>
    obtain ⟨a', left, stop'⟩ := result
    cases hp
    obtain rfl : left = [] := List.append_left_eq_self.1 hd
    rcases tracks_expression hc' with heq | ⟨b, e, hf⟩
    · exact ⟨a, _, heq.symm.trans hname⟩
    · cases hf.parse.symm.trans hname
      obtain ⟨b, e, hfalse, -⟩ := hf.ends word name rfl hn
      exact ⟨b, e, hfalse⟩

/-- Where an expression with `noIn` stops in front of a word `in` that one without reads past, the
one without does not leave the word ahead. -/
theorem not_leaves_of_forks (hc : c.Closed)
    (hf : TokenReader.Forks (expression true).parse (expression false).parse c a d)
    (h : c.FreeIn read word rest) (hd : d.ahead = word :: rest) :
    ¬ (expression false).parse.Leaves c read word rest := by
  obtain ⟨ahead, endOfFile, stop⟩ := c
  obtain ⟨ha, hk, hout⟩ := h
  obtain rfl : ahead = read ++ word :: rest := ha
  intro hleaves
  cases hfalse : (expression false).parse ⟨read ++ word :: rest, endOfFile, stop⟩ with
  | ok result =>
    obtain ⟨b, e⟩ := result
    have hlt := hf.past b e hfalse
    have hle := (hleaves.suffix hfalse).length_le
    rw [hd] at hlt
    omega
  | error error =>
    unfold TokenReader.Leaves at hleaves
    rw [hfalse] at hleaves
    have hname : (⟨.name, "", word.range, false⟩ : Token).kind = .name := rfl
    obtain ⟨b, e, hok⟩ := parse_in_name hc hk hout hf.parse hd hname
    exact nomatch (hleaves _ endOfFile (closed_in_name hc hk hname)).symm.trans hok

/-- Where an expression without `noIn` leaves all words `in` outside of brackets ahead, it is read
as with `noIn`. -/
theorem parse_expression_eq (hc : c.Closed) (h : ∀ read word rest, c.FreeIn read word rest →
      (expression false).parse.Leaves c read word rest) :
    (expression true).parse c = (expression false).parse c := by
  rcases tracks_expression hc with heq | ⟨a, d, hf⟩
  · exact heq
  obtain ⟨read, hahead, hout⟩ := exists_outside hc hf.parse
  have hd : d.Closed := closed_of_parse (p := .expression true) hc trivial hf.parse
  have hnext : d.ahead = d.current :: d.advance.ahead :=
    (hd.passes (by rw [hf.atIn]; nofun)).ahead
  have hfree : c.FreeIn read d.current d.advance.ahead :=
    ⟨by rw [hahead, ← hnext], hf.atIn, hout⟩
  exact absurd (h read d.current d.advance.ahead hfree) (not_leaves_of_forks hc hf hfree hnext)

end Production

end FlowLint
