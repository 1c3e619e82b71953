import FlowLint.Proofs.Grammar.Precedence

namespace FlowLint
set_option autoImplicit true

namespace TokenReader

variable {α β : Type} {c : Cursor}

theorem peek_bind (f : Token → TokenReader β) (c : Cursor) :
    (peek >>= f) c = f c.current c :=
  rfl

/-- A reader stops in front of a word `in` that another one reads past. Where a name and nothing
else is behind the word, the other one succeeds at the end. -/
structure Forks (x y : TokenReader α) (c : Cursor) (a : α) (d : Cursor) : Prop where
  parse : x c = .ok (a, d)
  atIn : d.current.kind = .keyword .in
  past : ∀ b e, y c = .ok (b, e) → e.ahead.length < d.ahead.length
  ends : ∀ word name, d.ahead = [word, name] → name.kind = .name →
    ∃ b e, y c = .ok (b, e) ∧ e.ahead = []

/-- A reader does the same as another one, or stops in front of a word `in` that the other one reads
past. -/
def Tracks (x y : TokenReader α) (c : Cursor) : Prop :=
  x c = y c ∨ ∃ a d, Forks x y c a d

namespace Tracks

variable {x y : TokenReader α} {f f' : α → TokenReader β} {kind : TokenKind}

protected theorem rfl : Tracks x x c :=
  .inl rfl

theorem congr {x' y' : TokenReader α} {c' : Cursor} (h : Tracks x y c) (hx : x' c' = x c)
    (hy : y' c' = y c) : Tracks x' y' c' := by
  rcases h with h | ⟨a, d, hp, hk, hpast, hend⟩
  · exact .inl (by rw [hx, hy, h])
  · exact .inr ⟨a, d, hx.trans hp, hk, by rwa [hy], by rwa [hy]⟩

theorem bind_of_eq (he : x c = y c) (hx : x.Yields c P)
    (hf : ∀ a d, d.Closed → P a d → Tracks (f a) (f' a) d) : Tracks (x >>= f) (y >>= f') c := by
  cases hc : x c with
  | error error =>
    left
    change (x c >>= fun (a, d) => f a d) = (y c >>= fun (a, d) => f' a d)
    rw [← he, hc]
    rfl
  | ok result =>
    obtain ⟨a, d⟩ := result
    obtain ⟨hd, ha⟩ := hx a d hc
    apply (hf a d hd ha).congr
    · change (x c >>= fun (a, d) => f a d) = _
      rw [hc]
      rfl
    · change (y c >>= fun (a, d) => f' a d) = _
      rw [← he, hc]
      rfl

/-- What remains to be read in front of a word `in`, and at the end, is nothing. -/
structure Idle (f f' : α → TokenReader β) : Prop where
  atIn : ∀ a d, d.Closed → d.current.kind = .keyword .in → ∃ b, f a d = .ok (b, d)
  atEnd : ∀ a d, d.Closed → d.ahead = [] → ∃ b e, f' a d = .ok (b, e) ∧ e.ahead = []
  shrinks : ∀ a d, d.Closed → (f' a).Yields d fun _ e => e.ahead.length ≤ d.ahead.length

theorem Idle.of_eq {k : α → Cursor → β} (h : ∀ a d, f a d = .ok (k a d, d)) : Idle f f where
  atIn a d _ _ := ⟨k a d, h a d⟩
  atEnd a d _ hd := ⟨k a d, d, h a d, hd⟩
  shrinks a d hd b e he := by
    cases (h a d).symm.trans he
    exact ⟨hd, Nat.le_refl _⟩

protected theorem bind (h : Tracks x y c) (hx : x.Yields c P) (hy : y.Yields c Q)
    (hf : ∀ a d, d.Closed → P a d → Tracks (f a) (f' a) d) (hi : Idle f f') :
    Tracks (x >>= f) (y >>= f') c := by
  rcases h with h | ⟨a, d, hp, hk, hpast, hend⟩
  · exact bind_of_eq h hx hf
  · obtain ⟨b, hb⟩ := hi.atIn a d (hx a d hp).1 hk
    refine .inr ⟨b, d, bind_eq_ok.2 ⟨(a, d), hp, hb⟩, hk, ?past, ?ends⟩
    case past =>
      intro b' e' he
      obtain ⟨⟨a', e⟩, hy', hb'⟩ := bind_eq_ok.1 he
      have hshort := ((hi.shrinks a' e (hy a' e hy').1) b' e' hb').2
      have hlt := hpast a' e hy'
      omega
    case ends =>
      intro word name hw hn
      obtain ⟨a', e, hy', he⟩ := hend word name hw hn
      obtain ⟨b', e', hb', he'⟩ := hi.atEnd a' e (hy a' e hy').1 he
      exact ⟨b', e', bind_eq_ok.2 ⟨(a', e), hy', hb'⟩, he'⟩

protected theorem peek {f f' : Token → TokenReader β} (h : Tracks (f c.current) (f' c.current) c) :
    Tracks (peek >>= f) (peek >>= f') c :=
  h.congr rfl rfl

protected theorem isAt {f f' : Bool → TokenReader β}
    (h : Tracks (f (c.current.kind == kind)) (f' (c.current.kind == kind)) c) :
    Tracks (isAt kind >>= f) (isAt kind >>= f') c :=
  h.congr rfl rfl

protected theorem bump {f f' : Token → TokenReader β}
    (h : Tracks (f c.current) (f' c.current) c.advance) : Tracks (bump >>= f) (bump >>= f') c :=
  h.congr rfl rfl

protected theorem eat {f f' : Bool → TokenReader β} (hc : c.Closed) (hk : kind ≠ .endOfFile)
    (hx : ∀ d, d.Closed → d.ahead.length < c.ahead.length → Tracks (f true) (f' true) d)
    (hy : Tracks (f false) (f' false) c) : Tracks (eat kind >>= f) (eat kind >>= f') c := by
  apply bind_of_eq rfl (P := fun eaten d =>
    if eaten then d.ahead.length < c.ahead.length else d = c)
  · rw [← bind_pure (eat kind)]
    exact .eat_bind hc hk (fun d hd hp => .pure hd hp.length_lt) fun _ => .pure hc rfl
  · intro eaten d hd hp
    cases eaten with
    | false => exact hp ▸ hy
    | true => exact hx d hd hp

protected theorem ite {p : Prop} [Decidable p] {x' y' : TokenReader α} (hx : p → Tracks x y c)
    (hy : ¬ p → Tracks x' y' c) : Tracks (if p then x else x') (if p then y else y') c := by
  split
  · next hp => exact hx hp
  · next hp => exact hy hp

end Tracks

end TokenReader

namespace Production

open TokenReader (Forks Tracks Yields)
open TokenReader.Tracks (Idle)

variable {c d : Cursor} {least : Nat} {noIn : Bool} {left : Expr}

theorem eat_of_ne {kind : TokenKind} (h : c.current.kind ≠ kind) (f : Bool → TokenReader α) :
    (TokenReader.eat kind >>= f) c = f false c := by
  change ((if (c.current.kind == kind) = true then TokenReader.bump >>= fun _ => pure true
    else pure false) >>= f) c = _
  rw [if_neg (mt beq_iff_eq.1 h)]
  rfl

theorem isAt_of_ne {kind : TokenKind} (h : c.current.kind ≠ kind) (f : Bool → TokenReader α) :
    (TokenReader.isAt kind >>= f) c = f false c := by
  change f (c.current.kind == kind) c = _
  rw [beq_false_of_ne h]

theorem shrinks (p : Production α) (hc : c.Closed) (ha : p.Admits c) :
    p.parse.Yields c fun _ d => d.ahead.length ≤ c.ahead.length :=
  (Grammar.agreeBelow_parse (c.ahead.length + 1) p c hc ha (Nat.lt_succ_self _)).2.mono
    fun _ _ hd => Nat.le_of_lt_succ hd.2

theorem shrinks_unary (hc : c.Closed) :
    (Grammar.unary parse).Yields c fun _ d => d.ahead.length < c.ahead.length :=
  (Grammar.AgreeBelow.unary (Grammar.agreeBelow_parse c.ahead.length) hc (Nat.le_refl _)).2.mono
    fun _ _ hd => hd.2

theorem shrinks_binary (hc : c.Closed) :
    (Grammar.binary parse least noIn).Yields c fun _ d => d.ahead.length < c.ahead.length :=
  (Grammar.AgreeBelow.binary (Grammar.agreeBelow_parse c.ahead.length) hc (Nat.le_refl _)).2.mono
    fun _ _ hd => hd.2

theorem shrinks_conditional (hc : c.Closed) :
    (Grammar.conditional parse noIn).Yields c fun _ d => d.ahead.length < c.ahead.length :=
  (Grammar.AgreeBelow.conditional (Grammar.agreeBelow_parse c.ahead.length) hc (Nat.le_refl _)).2.mono
    fun _ _ hd => hd.2

theorem shrinks_assignment (hc : c.Closed) :
    (Grammar.assignment parse noIn).Yields c fun _ d => d.ahead.length < c.ahead.length :=
  (Grammar.AgreeBelow.assignment (Grammar.agreeBelow_parse c.ahead.length) hc (Nat.le_refl _)).2.mono
    fun _ _ hd => hd.2

/-- The productions with `noIn` track those without from a cursor. -/
structure TracksAt (c : Cursor) : Prop where
  binary : ∀ least, Tracks (binary least true).parse (binary least false).parse c
  binaryRest : ∀ least left,
    Tracks (binaryRest least true left).parse (binaryRest least false left).parse c
  assignment : Tracks (assignment true).parse (assignment false).parse c
  commaParts : Tracks (commaParts true).parse (commaParts false).parse c

theorem binaryOp?_of_ne {kind : TokenKind} (h : kind ≠ .keyword .in) :
    kind.binaryOp? true = kind.binaryOp? false := by
  unfold TokenKind.binaryOp?
  split <;> first | rfl | contradiction

theorem forall_binaryOp?_of_forall {kind : TokenKind} {property : BinaryOp → Prop}
    (h : ∀ op ∈ kind.binaryOp? false, property op) : ∀ op ∈ kind.binaryOp? true, property op := by
  by_cases hin : kind = .keyword .in
  · rw [hin]
    nofun
  · rwa [binaryOp?_of_ne hin]

theorem current_of_nil (hc : c.Closed) (h : c.ahead = []) : c.current.kind = .endOfFile := by
  obtain ⟨ahead, endOfFile, stop⟩ := c
  cases h
  exact hc.endOfFile

theorem parse_binaryRest_end (hc : c.Closed) (h : c.ahead = []) :
    (binaryRest least noIn left).parse c = .ok (left, c) :=
  parse_binaryRest_stop hc (by rw [current_of_nil hc h]; nofun)

theorem parse_binaryRest_in (hc : c.Closed) (h : c.current.kind = .keyword .in) :
    (binaryRest least true left).parse c = .ok (left, c) :=
  parse_binaryRest_stop hc (by rw [h]; nofun)

theorem parse_binary_name {name endOfFile : Token} (hn : name.kind = .name)
    (he : endOfFile.kind = .endOfFile) (least stop : Nat) :
    (binary least false).parse ⟨[name], endOfFile, stop⟩ =
      .ok (.name name.range name.text, ⟨[], endOfFile, name.range.stop⟩) := by
  obtain ⟨kind, text, range, newlineBefore⟩ := name
  obtain ⟨kind', text', range', newlineBefore'⟩ := endOfFile
  cases hn
  cases he
  rfl

theorem parse_commaParts (hc : c.Closed) (h : c.current.kind ≠ .symbol .comma) :
    (commaParts noIn).parse c = .ok ([], c) := by
  have hread : (commaParts noIn).parse c = Grammar.commaParts parse noIn c :=
    parse_eq_read hc trivial
  exact hread.trans (eat_of_ne h _)

theorem idle_binaryRest (f : Expr → Expr) :
    Idle (fun right => (binaryRest least true (f right)).parse)
      fun right => (binaryRest least false (f right)).parse where
  atIn a _ hd hk := ⟨f a, parse_binaryRest_in hd hk⟩
  atEnd _ d hd h := ⟨_, d, parse_binaryRest_end hd h, h⟩
  shrinks _ _ hd := shrinks (binaryRest least false _) hd trivial

/-- In front of a word `in` the two part if `in` binds tightly enough. -/
theorem forks_binaryRest (hc : c.Closed) (hin : c.current.kind = .keyword .in)
    (hle : least ≤ BinaryOp.isIn.precedence) :
    Forks (binaryRest least true left).parse (binaryRest least false left).parse c left c := by
  have ho : c.current.kind.binaryOp? false = some .isIn := by rw [hin]; rfl
  have hp := hc.passes (by rw [hin]; nofun)
  have hd := hp.closed hc
  refine ⟨parse_binaryRest_in hc hin, hin, ?past, ?ends⟩
  case past =>
    intro b e he
    rw [parse_binaryRest_op hc ho hle] at he
    obtain ⟨⟨right, d⟩, hright, hrest⟩ := bind_eq_ok.1 he
    obtain ⟨hclosed, hshort⟩ :=
      shrinks (binary BinaryOp.isIn.rightPrecedence false) hd trivial right d hright
    obtain ⟨-, hshort'⟩ := shrinks (binaryRest least false
      (.binary ⟨left.range.start, right.range.stop⟩ .isIn left right)) hclosed trivial b e hrest
    exact Nat.lt_of_le_of_lt (Nat.le_trans hshort' hshort) hp.length_lt
  case ends =>
    intro word name hw hn
    have hone : c.advance = ⟨[name], c.endOfFile, word.range.stop⟩ := by
      obtain ⟨ahead, endOfFile, stop⟩ := c
      cases hw
      rfl
    have hlast : Cursor.Closed ⟨[], c.endOfFile, name.range.stop⟩ :=
      ⟨hc.endOfFile, hc.text, nofun⟩
    have hright := parse_binary_name hn hc.endOfFile BinaryOp.isIn.rightPrecedence word.range.stop
    rw [← hone] at hright
    exact ⟨_, _, (parse_binaryRest_op hc ho hle).trans
      (bind_eq_ok.2 ⟨_, hright, parse_binaryRest_end hlast rfl⟩), rfl⟩

section Step

variable (hc : c.Closed) (ih : ∀ d : Cursor, d.Closed → d.ahead.length < c.ahead.length → TracksAt d)
include hc ih

theorem tracks_binaryRest (least : Nat) (left : Expr) :
    Tracks (binaryRest least true left).parse (binaryRest least false left).parse c := by
  by_cases hloose : ∀ op ∈ c.current.kind.binaryOp? false, op.precedence < least
  · have hstop : (binaryRest least false left).parse c = .ok (left, c) :=
      parse_binaryRest_stop hc hloose
    exact .inl ((parse_binaryRest_stop hc (forall_binaryOp?_of_forall hloose)).trans hstop.symm)
  obtain ⟨op, ho, hle⟩ : ∃ op ∈ c.current.kind.binaryOp? false, least ≤ op.precedence := by
    simpa using hloose
  by_cases hin : c.current.kind = .keyword .in
  · obtain rfl : op = .isIn := by
      rw [hin] at ho
      exact (Option.some.inj ho).symm
    exact .inr ⟨left, c, forks_binaryRest hc hin hle⟩
  -- In front of any other operator both go on, with the same operator.
  have hne : c.current.kind ≠ .endOfFile := by
    intro he
    rw [he] at ho
    cases ho
  have hp := hc.passes hne
  have hd := hp.closed hc
  have hright := (ih _ hd hp.length_lt).binary op.rightPrecedence
  have hbind := hright.bind (shrinks (binary _ true) hd trivial)
    (shrinks (binary _ false) hd trivial) (fun right d hd hle =>
      (ih d hd (Nat.lt_of_le_of_lt hle hp.length_lt)).binaryRest least
        (.binary ⟨left.range.start, right.range.stop⟩ op left right))
    (idle_binaryRest _)
  exact hbind.congr (parse_binaryRest_op hc ((binaryOp?_of_ne hin).trans ho) hle)
    (parse_binaryRest_op hc ho hle)

theorem tracks_binary (least : Nat) :
    Tracks (Grammar.binary parse least true) (Grammar.binary parse least false) c := by
  have hrest (noIn : Bool) (left : Expr) (d : Cursor) (hd : d.Closed) :
      Grammar.binaryRest parse least noIn left d = (binaryRest least noIn left).parse d :=
    (parse_eq_read (p := .binaryRest least noIn left) hd trivial).symm
  apply Tracks.bind_of_eq rfl (shrinks_unary hc)
  intro left d hd hlt
  exact ((ih d hd hlt).binaryRest least left).congr (hrest true left d hd) (hrest false left d hd)

theorem tracks_conditional :
    Tracks (Grammar.conditional parse true) (Grammar.conditional parse false) c := by
  apply Tracks.bind (tracks_binary hc ih 0) (shrinks_binary hc) (shrinks_binary hc)
  · intro test d hd hlt
    refine .eat hd nofun (fun e he hlt' => ?_) .rfl
    refine .bind_of_eq rfl (shrinks (assignment false) he trivial) fun whenTrue e₁ he₁ hle => ?_
    refine .bind_of_eq rfl (.expect he₁ nofun) fun token e₂ he₂ ⟨_, hp, _⟩ => ?_
    have hlt₂ := hp.length_lt
    apply Tracks.bind (ih e₂ he₂ (by omega)).assignment (shrinks (assignment true) he₂ trivial)
      (shrinks (assignment false) he₂ trivial)
    · exact fun _ _ _ _ => .rfl
    · exact .of_eq fun _ _ => rfl
  · constructor
    case atIn => exact fun test d _ hk => ⟨test, eat_of_ne (by rw [hk]; nofun) _⟩
    case atEnd =>
      exact fun test d hd h => ⟨test, d, eat_of_ne (by rw [current_of_nil hd h]; nofun) _, h⟩
    case shrinks =>
      intro test d hd
      refine .eat hd nofun (fun e he hp => ?_) fun _ => .pure hd (Nat.le_refl _)
      have hlt := hp.length_lt
      refine .bind (shrinks (assignment false) he trivial) fun whenTrue e₁ he₁ hle => ?_
      refine .symbol he₁ fun e₂ he₂ hp => ?_
      have hlt' := hp.length_lt
      refine .bind (shrinks (assignment false) he₂ trivial) fun whenFalse e₃ he₃ hle' => ?_
      exact .pure he₃ (by omega)

theorem tracks_assignment :
    Tracks (Grammar.assignment parse true) (Grammar.assignment parse false) c := by
  apply Tracks.bind (tracks_conditional hc ih) (shrinks_conditional hc) (shrinks_conditional hc)
  · intro target d hd hlt
    refine .peek ?_
    split
    · next op hop =>
      refine .ite (fun _ => ?_) fun _ => .rfl
      have hp := hd.passes (by rintro hk; rw [hk] at hop; cases hop)
      have hlt' := hp.length_lt
      apply Tracks.bump
      apply Tracks.bind (ih _ (hp.closed hd) (by omega)).assignment
        (shrinks (assignment true) (hp.closed hd) trivial)
        (shrinks (assignment false) (hp.closed hd) trivial)
      · exact fun _ _ _ _ => .rfl
      · exact .of_eq fun _ _ => rfl
    · exact .rfl
  · constructor
    case atIn =>
      intro target d _ hk
      refine ⟨target, ?_⟩
      rw [TokenReader.peek_bind, hk]
      rfl
    case atEnd =>
      intro target d hd h
      refine ⟨target, d, ?_, h⟩
      rw [TokenReader.peek_bind, current_of_nil hd h]
      rfl
    case shrinks =>
      intro target d hd
      refine .peek ?_
      split
      · next op hop =>
        refine .ite (fun _ => ?_) fun _ => .throw
        refine .bump hd (by rintro hk; rw [hk] at hop; cases hop) fun e he hp => ?_
        have hlt := hp.length_lt
        refine .bind (shrinks (assignment false) he trivial) fun value e₁ he₁ hle => ?_
        exact .pure he₁ (by omega)
      · exact .pure hd (Nat.le_refl _)

theorem tracks_commaParts :
    Tracks (Grammar.commaParts parse true) (Grammar.commaParts parse false) c := by
  refine .eat hc nofun (fun d hd hlt => ?_) .rfl
  have hassign : Tracks (Grammar.assignment parse true) (Grammar.assignment parse false) d :=
    (ih d hd hlt).assignment.congr (parse_eq_read (p := .assignment true) hd trivial).symm
      (parse_eq_read (p := .assignment false) hd trivial).symm
  apply Tracks.bind hassign (shrinks_assignment hd) (shrinks_assignment hd)
  · intro part e he hlt'
    apply Tracks.bind (ih e he (by omega)).commaParts (shrinks (commaParts true) he trivial)
      (shrinks (commaParts false) he trivial)
    · exact fun _ _ _ _ => .rfl
    · exact .of_eq fun _ _ => rfl
  · constructor
    case atIn =>
      intro part d hd hk
      have hstop : (commaParts true).parse d = .ok ([], d) := parse_commaParts hd (by rw [hk]; nofun)
      exact ⟨[part], bind_eq_ok.2 ⟨_, hstop, rfl⟩⟩
    case atEnd =>
      intro part d hd h
      have hstop : (commaParts false).parse d = .ok ([], d) :=
        parse_commaParts hd (by rw [current_of_nil hd h]; nofun)
      exact ⟨[part], d, bind_eq_ok.2 ⟨_, hstop, rfl⟩, h⟩
    case shrinks =>
      intro part d hd
      refine .bind (shrinks (commaParts false) hd trivial) fun parts e he hle => ?_
      exact .pure he hle

end Step

theorem tracksAt (hc : c.Closed) : TracksAt c := by
  induction hn : c.ahead.length using Nat.strongRecOn generalizing c with
  | _ n ih =>
    subst hn
    have ih (d : Cursor) (hd : d.Closed) (hlt : d.ahead.length < c.ahead.length) : TracksAt d :=
      ih _ hlt hd rfl
    constructor
    case binary =>
      exact fun least => (tracks_binary hc ih least).congr
        (parse_eq_read (p := .binary least true) hc trivial)
        (parse_eq_read (p := .binary least false) hc trivial)
    case binaryRest => exact tracks_binaryRest hc ih
    case assignment =>
      exact (tracks_assignment hc ih).congr (parse_eq_read (p := .assignment true) hc trivial)
        (parse_eq_read (p := .assignment false) hc trivial)
    case commaParts =>
      exact (tracks_commaParts hc ih).congr (parse_eq_read (p := .commaParts true) hc trivial)
        (parse_eq_read (p := .commaParts false) hc trivial)

/-- An expression with `noIn` tracks the one without. -/
theorem tracks_expression (hc : c.Closed) :
    Tracks (expression true).parse (expression false).parse c := by
  have ih (d : Cursor) (hd : d.Closed) (_ : d.ahead.length < c.ahead.length) : TracksAt d :=
    tracksAt hd
  have hread : Tracks (Grammar.expression parse true) (Grammar.expression parse false) c := by
    apply Tracks.bind (tracks_assignment hc ih) (shrinks_assignment hc) (shrinks_assignment hc)
    · intro first d hd hlt
      apply Tracks.isAt
      apply Tracks.ite
      · intro _
        have hshrinks (noIn : Bool) : (Grammar.commaParts parse noIn).Yields d fun _ _ => True :=
          Yields.mono (Grammar.AgreeBelow.commaParts (Grammar.agreeBelow_parse d.ahead.length) hd
            (Nat.le_refl _)).2 fun _ _ _ => trivial
        apply Tracks.bind (tracks_commaParts hd fun e he _ => tracksAt he) (hshrinks true)
          (hshrinks false)
        · exact fun _ _ _ _ => .rfl
        · exact .of_eq fun _ _ => rfl
      · exact fun _ => .rfl
    · constructor
      case atIn =>
        intro first d _ hk
        exact ⟨first, isAt_of_ne (by rw [hk]; nofun) _⟩
      case atEnd =>
        intro first d hd h
        exact ⟨first, d, isAt_of_ne (by rw [current_of_nil hd h]; nofun) _, h⟩
      case shrinks =>
        intro first d hd
        refine .isAt (.ite (fun _ => ?_) fun _ => .pure hd (Nat.le_refl _))
        refine .bind (Grammar.AgreeBelow.commaParts (Grammar.agreeBelow_parse d.ahead.length) hd
            (Nat.le_refl _)).2 fun parts e he hlt => ?_
        exact .rangeFrom (.pure he (Nat.le_of_lt_succ hlt.2))
  exact hread.congr (parse_eq_read (p := .expression true) hc trivial)
    (parse_eq_read (p := .expression false) hc trivial)

end Production

end FlowLint
