import FlowLint.Proofs.Grammar.ReadStatement

/-!
The bound on the recursion of the grammar is never used up: each use of a production by another
stands behind a token, so grammars with different bounds read the same, and a production is read
as its text says.
-/
namespace FlowLint
set_option autoImplicit true

namespace Cursor

theorem Passes.length_lt {c d : Cursor} (h : c.Passes token d) :
    d.ahead.length < c.ahead.length := by
  rw [h.ahead]
  exact Nat.lt_succ_self _

theorem PassesKind.length_lt {c d : Cursor} (h : c.PassesKind kind d) :
    d.ahead.length < c.ahead.length := by
  obtain ⟨token, hp, -⟩ := h
  exact hp.length_lt

theorem PassesName.length_lt {c d : Cursor} (h : c.PassesName name d) :
    d.ahead.length < c.ahead.length := by
  obtain ⟨token, hp, -⟩ := h
  exact hp.length_lt

theorem Ends.length_le {c d : Cursor} (h : c.Ends d) : d.ahead.length ≤ c.ahead.length := by
  cases h with
  | semicolon h => exact Nat.le_of_lt h.length_lt
  | implied => exact Nat.le_refl _

/-- A condition on cursors over closed tokens that every token keeps which is passed. -/
class Kept (I : Cursor → Prop) : Prop where
  closed {c : Cursor} (h : I c) : c.Closed
  passes {c d : Cursor} (h : I c) (hp : c.Passes token d) : I d

instance : Kept Closed :=
  ⟨id, fun h hp => hp.closed h⟩

variable {I : Cursor → Prop} [Kept I] {c d : Cursor}

theorem PassesKind.kept (h : c.PassesKind kind d) (hc : I c) : I d := by
  obtain ⟨token, hp, -⟩ := h
  exact Kept.passes hc hp

theorem PassesName.kept (h : c.PassesName name d) (hc : I c) : I d := by
  obtain ⟨token, hp, -⟩ := h
  exact Kept.passes hc hp

theorem Ends.kept (h : c.Ends d) (hc : I c) : I d := by
  cases h with
  | semicolon h => exact h.kept hc
  | implied => exact hc

end Cursor

namespace TokenReader

open Cursor (Kept)

variable {α β : Type} {c : Cursor}

/-- Two readers do the same at a cursor, keep a condition, and leave fewer than `n` tokens ahead. -/
def Agree (I : Cursor → Prop) (n : Nat) (x y : TokenReader α) (c : Cursor) : Prop :=
  x c = y c ∧ x.Yields c fun _ d => I d ∧ d.ahead.length < n

namespace Agree

variable {I : Cursor → Prop} {x x' y y' : TokenReader α} {kind : TokenKind}
  {f f' : α → TokenReader β} {m n : Nat}

protected theorem throw (error : ParseError) :
    Agree I n (throw error : TokenReader α) (throw error) c :=
  ⟨rfl, .throw⟩

protected theorem unexpected (expected : Expected) :
    Agree I n (unexpected expected : TokenReader α) (unexpected expected) c :=
  ⟨rfl, .unexpected⟩

theorem bind_of_yields (he : x c = x' c) (hy : x.Yields c P)
    (hf : ∀ a d, P a d → Agree I n (f a) (f' a) d) : Agree I n (x >>= f) (x' >>= f') c := by
  constructor
  · change (x c >>= fun (a, d) => f a d) = (x' c >>= fun (a, d) => f' a d)
    rw [← he]
    cases hx : x c with
    | error error => rfl
    | ok result =>
      obtain ⟨a, d⟩ := result
      exact (hf a d (hy a d hx).2).1
  · exact .bind hy fun a d _ ha => (hf a d ha).2

protected theorem bind (h : Agree I m x x' c)
    (hf : ∀ a d, I d → d.ahead.length < m → Agree I n (f a) (f' a) d) :
    Agree I n (x >>= f) (x' >>= f') c :=
  bind_of_yields h.1 h.2 fun a d hd => hf a d hd.1 hd.2

theorem mono (h : Agree I m x x' c) (hn : m ≤ n) : Agree I n x x' c :=
  ⟨h.1, h.2.mono fun _ _ hd => ⟨hd.1, Nat.lt_of_lt_of_le hd.2 hn⟩⟩

protected theorem ite {p : Prop} [Decidable p] (hx : p → Agree I n x x' c)
    (hy : ¬ p → Agree I n y y' c) : Agree I n (if p then x else y) (if p then x' else y') c := by
  split
  · next hp => exact hx hp
  · next hp => exact hy hp

theorem ite_bind {p : Prop} [Decidable p] (hx : p → Agree I m x x' c) (hy : ¬ p → Agree I m y y' c)
    (hf : ∀ a d, I d → d.ahead.length < m → Agree I n (f a) (f' a) d) :
    Agree I n (if p then x >>= f else y >>= f) (if p then x' >>= f' else y' >>= f') c :=
  .ite (fun hp => .bind (hx hp) hf) fun hp => .bind (hy hp) hf

protected theorem peek {f f' : Token → TokenReader β}
    (h : Agree I n (f c.current) (f' c.current) c) : Agree I n (peek >>= f) (peek >>= f') c :=
  h

protected theorem get {f f' : Cursor → TokenReader β} (h : Agree I n (f c) (f' c) c) :
    Agree I n (get >>= f) (get >>= f') c :=
  h

protected theorem isAt {f f' : Bool → TokenReader β}
    (h : Agree I n (f (c.current.kind == kind)) (f' (c.current.kind == kind)) c) :
    Agree I n (isAt kind >>= f) (isAt kind >>= f') c :=
  h

protected theorem rangeFrom {f f' : Range → TokenReader β}
    (h : Agree I n (f ⟨start, c.stop⟩) (f' ⟨start, c.stop⟩) c) :
    Agree I n (rangeFrom start >>= f) (rangeFrom start >>= f') c :=
  h

variable [Kept I]

protected theorem pure (hc : I c) (hn : c.ahead.length < n) (a : α) :
    Agree I n (pure a : TokenReader α) (pure a) c :=
  ⟨rfl, .pure (Kept.closed hc) ⟨hc, hn⟩⟩

protected theorem map {f : α → β} (h : Agree I n x x' c) : Agree I n (f <$> x) (f <$> x') c := by
  rw [map_eq_pure_bind, map_eq_pure_bind]
  exact .bind h fun a d hd hlt => .pure hd hlt _

protected theorem bump {f f' : Token → TokenReader β} (hc : I c)
    (hk : c.current.kind ≠ .endOfFile)
    (h : ∀ d, I d → d.ahead.length < c.ahead.length →
      Agree I n (f c.current) (f' c.current) d) :
    Agree I n (bump >>= f) (bump >>= f') c :=
  have hp := (Kept.closed hc).passes hk
  h _ (Kept.passes hc hp) hp.length_lt

protected theorem eat {f f' : Bool → TokenReader β} (hc : I c) (hk : kind ≠ .endOfFile)
    (hx : ∀ d, I d → d.ahead.length < c.ahead.length → Agree I n (f true) (f' true) d)
    (hy : Agree I n (f false) (f' false) c) : Agree I n (eat kind >>= f) (eat kind >>= f') c := by
  refine bind_of_yields (P := fun eaten d =>
    if eaten then I d ∧ d.ahead.length < c.ahead.length else d = c) rfl ?_ ?_
  · rw [← bind_pure (eat kind)]
    exact .eat_bind (Kept.closed hc) hk (fun d hd hp => .pure hd ⟨hp.kept hc, hp.length_lt⟩)
      fun _ => .pure (Kept.closed hc) rfl
  · rintro (_ | _) d hp
    · exact hp ▸ hy
    · exact hx d hp.1 hp.2

theorem eat_ite_bind (hc : I c) (hk : kind ≠ .endOfFile)
    (hx : ∀ d, I d → d.ahead.length < c.ahead.length → Agree I m x x' d) (hy : Agree I m y y' c)
    (hf : ∀ a d, I d → d.ahead.length < m → Agree I n (f a) (f' a) d) :
    Agree I n (eat kind >>= fun eaten => if eaten = true then x >>= f else y >>= f)
      (eat kind >>= fun eaten => if eaten = true then x' >>= f' else y' >>= f') c :=
  .eat hc hk (fun d hd hlt => .bind (hx d hd hlt) hf) (.bind hy hf)

protected theorem symbol {f f' : Token → TokenReader β} (hc : I c)
    (h : ∀ token d, I d → d.ahead.length < c.ahead.length → Agree I n (f token) (f' token) d) :
    Agree I n (symbol s >>= f) (symbol s >>= f') c :=
  bind_of_yields rfl (.expect (Kept.closed hc) nofun) fun token d ht =>
    h token d (Kept.passes hc ht.2.1) ht.2.1.length_lt

protected theorem keyword {f f' : Token → TokenReader β} (hc : I c)
    (h : ∀ token d, I d → d.ahead.length < c.ahead.length → Agree I n (f token) (f' token) d) :
    Agree I n (keyword k >>= f) (keyword k >>= f') c :=
  bind_of_yields rfl (.expect (Kept.closed hc) nofun) fun token d ht =>
    h token d (Kept.passes hc ht.2.1) ht.2.1.length_lt

protected theorem identifier (hc : I c) : Agree I c.ahead.length identifier identifier c :=
  ⟨rfl, (Yields.identifier (Kept.closed hc)).mono fun _ _ hn => ⟨hn.kept hc, hn.length_lt⟩⟩

protected theorem semicolon {f f' : Unit → TokenReader β} (hc : I c)
    (h : ∀ d, I d → d.ahead.length ≤ c.ahead.length → Agree I n (f ()) (f' ()) d) :
    Agree I n (semicolon >>= f) (semicolon >>= f') c := by
  refine bind_of_yields (P := fun _ d => c.Ends d) rfl ?_ fun _ d he =>
    h d (he.kept hc) he.length_le
  rw [← bind_pure semicolon]
  exact .semicolon (Kept.closed hc) fun d hd he => .pure hd he

end Agree

end TokenReader

/-- Two grammars read the same from the cursors under a condition that have fewer tokens ahead than
the bound. -/
def Grammar.AgreeBelow (I : Cursor → Prop) (g g' : Grammar) (bound : Nat) : Prop :=
  ∀ {α : Type} (p : Production α) (c : Cursor), I c → p.Admits c → c.ahead.length < bound →
    TokenReader.Agree I (c.ahead.length + 1) (g p) (g' p) c

namespace Grammar.AgreeBelow

open TokenReader (Agree)

variable {I : Cursor → Prop} [Cursor.Kept I] {g g' : Grammar} {c : Cursor} {target : Expr}

theorem number (hc : I c) (hk : c.current.kind = .number) :
    Agree I c.ahead.length Grammar.number Grammar.number c := by
  refine .bump hc (by rw [hk]; nofun) fun d hd hlt => ?_
  split
  · exact .pure hd hlt _
  · exact .throw _

theorem string (hc : I c) (hk : c.current.kind = .string) :
    Agree I c.ahead.length Grammar.string Grammar.string c :=
  .bump hc (by rw [hk]; nofun) fun d hd hlt => .pure hd hlt _

theorem propertyName (hc : I c) :
    Agree I c.ahead.length Grammar.propertyName Grammar.propertyName c :=
  ⟨rfl, (Sound.propertyName (Cursor.Kept.closed hc)).mono fun _ _ ⟨_, hp, _⟩ =>
    ⟨Cursor.Kept.passes hc hp, hp.length_lt⟩⟩

theorem emptyStatement (hc : I c) (hk : c.current.kind = .symbol .semicolon) :
    Agree I c.ahead.length Grammar.emptyStatement Grammar.emptyStatement c :=
  .bump hc (by rw [hk]; nofun) fun d hd hlt => .rangeFrom (.pure hd hlt _)

theorem forHead (h : Grammar.AgreeBelow I g g' bound) (hc : I c) (hn : c.ahead.length < bound) :
    Agree I (c.ahead.length + 1) (Grammar.forHead g) (Grammar.forHead g') c := by
  refine .peek (.ite (fun _ => .pure hc (by omega) _) fun _ => ?_)
  dsimp only
  split
  · next kind hd =>
    have hk := DeclarationKind.kind_eq_of_declarationKind? hd
    refine .bump hc (by rw [hk]; nofun) fun c₁ hc hlt => ?_
    refine .bind (h (.declarators true) c₁ hc trivial (by omega)) fun names d hd hle => ?_
    exact .rangeFrom (.pure hd (by omega) _)
  · exact .bind (h (.expression true) c hc trivial hn) fun value d hd hle => .pure hd hle _

theorem jumpLabel (hc : I c) :
    Agree I (c.ahead.length + 1) Grammar.jumpLabel Grammar.jumpLabel c := by
  refine .peek (.ite (fun _ => ?_) fun _ => .pure hc (by omega) _)
  exact (Agree.map (.identifier hc)).mono (by omega)

theorem jumpStatement (hc : I c) (hk : c.current.kind = .keyword kind.keyword) :
    Agree I c.ahead.length (Grammar.jumpStatement kind) (Grammar.jumpStatement kind) c := by
  refine .bump hc (by rw [hk]; nofun) fun c₁ hc hlt => ?_
  refine .bind (jumpLabel hc) fun label c₂ hc hle => ?_
  exact .semicolon hc fun d hd hle => .rangeFrom (.pure hd (by omega) _)

theorem debuggerStatement (hc : I c) (hk : c.current.kind = .keyword .debugger) :
    Agree I c.ahead.length Grammar.debuggerStatement Grammar.debuggerStatement c := by
  refine .bump hc (by rw [hk]; nofun) fun c₁ hc hlt => ?_
  exact .semicolon hc fun d hd hle => .rangeFrom (.pure hd (by omega) _)

section Parts

-- Every production inside another is used behind a token, and so with fewer tokens ahead than the
-- bound: each use of `h` below is justified by comparing lengths.
variable {bound : Nat} (h : Grammar.AgreeBelow I g g' bound) (hc : I c) (hn : c.ahead.length ≤ bound)
include h hc hn

theorem parenthesized :
    Agree I c.ahead.length (Grammar.parenthesized g) (Grammar.parenthesized g') c := by
  refine .symbol hc fun _ c₁ hc hlt => ?_
  refine .bind (h (.expression false) c₁ hc trivial (by omega)) fun expr c₂ hc hle => ?_
  exact .symbol hc fun _ d hd hlt => .pure hd (by omega) expr

theorem argumentList :
    Agree I c.ahead.length (Grammar.argumentList g) (Grammar.argumentList g') c :=
  .symbol hc fun _ d hd hlt => (h (.elements .rightParen) d hd trivial (by omega)).mono hlt

theorem parameterList :
    Agree I c.ahead.length (Grammar.parameterList g) (Grammar.parameterList g') c :=
  .symbol hc fun _ d hd hlt => (h .parameters d hd trivial (by omega)).mono hlt

theorem functionBody :
    Agree I c.ahead.length (Grammar.functionBody g) (Grammar.functionBody g') c :=
  .symbol hc fun _ d hd hlt => (h .statements d hd trivial (by omega)).mono hlt

theorem arrayLiteral (hk : c.current.kind = .symbol .leftBracket) :
    Agree I c.ahead.length (Grammar.arrayLiteral g) (Grammar.arrayLiteral g') c := by
  refine .bump hc (by rw [hk]; nofun) fun c₁ hc hlt => ?_
  refine .bind (h (.elements .rightBracket) c₁ hc trivial (by omega)) fun elements d hd hle => ?_
  exact .rangeFrom (.pure hd (by omega) _)

theorem functionExpression (hk : c.current.kind = .keyword .function) :
    Agree I c.ahead.length (Grammar.functionExpression g) (Grammar.functionExpression g') c := by
  refine .bump hc (by rw [hk]; nofun) fun c₁ hc hlt => ?_
  refine .isAt (.ite_bind (fun _ => (Agree.map (.identifier hc)).mono (Nat.le_of_lt hlt))
    (fun _ => .pure hc hlt none) fun name c₂ hc hlt => ?_)
  refine .bind (parameterList h hc (by omega)) fun parameters c₃ hc hlt => ?_
  refine .bind (functionBody h hc (by omega)) fun body d hd hlt => ?_
  exact .rangeFrom (.pure hd (by omega) _)

theorem primary :
    Agree I c.ahead.length (Grammar.primary g) (Grammar.primary g') c := by
  refine .peek ?_
  dsimp only
  split
  · next hk => exact .bump hc (by rw [hk]; nofun) fun d hd hlt => .pure hd hlt _
  · next hk => exact number hc hk
  · next hk => exact string hc hk
  · next hk => exact .bump hc (by rw [hk]; nofun) fun d hd hlt => .pure hd hlt _
  · next hk => exact .bump hc (by rw [hk]; nofun) fun d hd hlt => .pure hd hlt _
  · next hk => exact .bump hc (by rw [hk]; nofun) fun d hd hlt => .pure hd hlt _
  · exact parenthesized h hc hn
  · next hk => exact arrayLiteral h hc hn hk
  · next hk => exact functionExpression h hc hn hk
  · exact .unexpected _

theorem memberSuffix :
    Agree I c.ahead.length (Grammar.memberSuffix g target) (Grammar.memberSuffix g' target) c := by
  refine .eat hc nofun (fun c₁ hc hlt => ?_) ?_
  · exact .bind (propertyName hc) fun property d hd hlt => .rangeFrom (.pure hd (by omega) _)
  · refine .symbol hc fun _ c₁ hc hlt => ?_
    refine .bind (h (.expression false) c₁ hc trivial (by omega)) fun index c₂ hc hle => ?_
    exact .symbol hc fun _ d hd hlt => .rangeFrom (.pure hd (by omega) _)

theorem members :
    Agree I (c.ahead.length + 1) (Grammar.members g target) (Grammar.members g' target) c := by
  have hmore : Agree I (c.ahead.length + 1)
      (Grammar.memberSuffix g target >>= fun target => g (.members target))
      (Grammar.memberSuffix g' target >>= fun target => g' (.members target)) c := by
    refine .bind (memberSuffix h hc hn) fun member d hd hlt => ?_
    exact (h (.members member) d hd trivial (by omega)).mono (by omega)
  refine .peek ?_
  split
  · exact hmore
  · exact hmore
  · exact .pure hc (by omega) _

theorem suffixes :
    Agree I (c.ahead.length + 1) (Grammar.suffixes g target) (Grammar.suffixes g' target) c := by
  have hmore : Agree I (c.ahead.length + 1)
      (Grammar.memberSuffix g target >>= fun target => g (.suffixes target))
      (Grammar.memberSuffix g' target >>= fun target => g' (.suffixes target)) c := by
    refine .bind (memberSuffix h hc hn) fun member d hd hlt => ?_
    exact (h (.suffixes member) d hd trivial (by omega)).mono (by omega)
  refine .peek ?_
  split
  · refine .bind (argumentList h hc hn) fun arguments d hd hlt => .rangeFrom ?_
    refine (h (.suffixes _) d hd ?_ (by omega)).mono (by omega)
    exact trivial
  · exact hmore
  · exact hmore
  · exact .pure hc (by omega) _

theorem construction (hk : c.current.kind = .keyword .new) :
    Agree I c.ahead.length (Grammar.construction g) (Grammar.construction g') c := by
  refine .bump hc (by rw [hk]; nofun) fun c₁ hc hlt => ?_
  refine .isAt (.ite_bind (fun hk => h .construction c₁ hc (beq_iff_eq.1 hk) (by omega))
    (fun _ => (primary h hc (by omega)).mono (by omega)) fun callee c₂ hc hle => ?_)
  refine .bind (members h hc (by omega)) fun callee c₃ hc hle => ?_
  refine .isAt (.ite_bind (fun _ => (argumentList h hc (by omega)).mono (by omega))
    (fun _ => .pure hc hle []) fun arguments d hd hle => ?_)
  exact .rangeFrom (.pure hd (by omega) _)

theorem call :
    Agree I c.ahead.length (Grammar.call g) (Grammar.call g') c := by
  refine .isAt (.ite_bind (fun hk => construction h hc hn (beq_iff_eq.1 hk))
    (fun _ => primary h hc hn) fun target d hd hlt => ?_)
  exact (suffixes h hd (by omega)).mono hlt

theorem postfixUpdate :
    Agree I c.ahead.length (Grammar.postfixUpdate g) (Grammar.postfixUpdate g') c := by
  refine .bind (call h hc hn) fun target d hd hlt => .peek ?_
  split
  · next op ho =>
    refine .ite (fun _ => .pure hd hlt _) fun _ => ?_
    exact .bump hd (by rintro hk; rw [hk] at ho; cases ho) fun e he hlt => .pure he (by omega) _
  · exact .pure hd hlt _

theorem unary :
    Agree I c.ahead.length (Grammar.unary g) (Grammar.unary g') c := by
  refine .peek ?_
  dsimp only
  split
  · next op ho =>
    refine .bump hc (by rintro hk; rw [hk] at ho; cases ho) fun c₁ hc hlt => ?_
    refine .bind (h .unary c₁ hc trivial (by omega)) fun operand d hd hle => ?_
    exact .pure hd (by omega) _
  · split
    · next op ho =>
      refine .bump hc (by rintro hk; rw [hk] at ho; cases ho) fun c₁ hc hlt => ?_
      refine .bind (h .unary c₁ hc trivial (by omega)) fun target d hd hle => ?_
      exact .pure hd (by omega) _
    · exact postfixUpdate h hc hn

theorem binaryRest :
    Agree I (c.ahead.length + 1) (Grammar.binaryRest g least noIn target)
      (Grammar.binaryRest g' least noIn target) c := by
  refine .peek ?_
  split
  · next op ho =>
    refine .ite (fun _ => .pure hc (by omega) _) fun _ => ?_
    refine .bump hc (by rintro hk; rw [hk] at ho; cases ho) fun c₁ hc hlt => ?_
    refine .bind (h (.binary op.rightPrecedence noIn) c₁ hc trivial (by omega))
      fun right d hd hle => ?_
    refine (h (.binaryRest least noIn _) d hd ?_ (by omega)).mono (by omega)
    exact trivial
  · exact .pure hc (by omega) _

theorem binary :
    Agree I c.ahead.length (Grammar.binary g least noIn) (Grammar.binary g' least noIn) c := by
  refine .bind (unary h hc hn) fun left d hd hlt => ?_
  exact (binaryRest h hd (by omega)).mono hlt

theorem conditional :
    Agree I c.ahead.length (Grammar.conditional g noIn) (Grammar.conditional g' noIn) c := by
  refine .bind (binary h hc hn) fun test c₁ hc hlt => ?_
  refine .eat hc nofun (fun c₂ hc hlt => ?_) (.pure hc hlt _)
  refine .bind (h (.assignment false) c₂ hc trivial (by omega)) fun whenTrue c₃ hc hle => ?_
  refine .symbol hc fun _ c₄ hc hlt => ?_
  refine .bind (h (.assignment noIn) c₄ hc trivial (by omega)) fun whenFalse d hd hle => ?_
  exact .pure hd (by omega) _

theorem assignment :
    Agree I c.ahead.length (Grammar.assignment g noIn) (Grammar.assignment g' noIn) c := by
  refine .bind (conditional h hc hn) fun target c₁ hc hlt => .peek ?_
  split
  · next op ho =>
    refine .ite (fun _ => ?_) fun _ => .throw _
    refine .bump hc (by rintro hk; rw [hk] at ho; cases ho) fun c₂ hc hlt => ?_
    refine .bind (h (.assignment noIn) c₂ hc trivial (by omega)) fun value d hd hle => ?_
    exact .pure hd (by omega) _
  · exact .pure hc hlt _

theorem commaParts :
    Agree I (c.ahead.length + 1) (Grammar.commaParts g noIn) (Grammar.commaParts g' noIn) c := by
  refine .eat hc nofun (fun c₁ hc hlt => ?_) (.pure hc (by omega) _)
  refine .bind (assignment h hc (by omega)) fun part c₂ hc hlt => ?_
  refine .bind (h (.commaParts noIn) c₂ hc trivial (by omega)) fun parts d hd hle => ?_
  exact .pure hd (by omega) _

theorem expression :
    Agree I c.ahead.length (Grammar.expression g noIn) (Grammar.expression g' noIn) c := by
  refine .bind (assignment h hc hn) fun first c₁ hc hlt => ?_
  refine .isAt (.ite (fun _ => ?_) fun _ => .pure hc hlt _)
  refine .bind (commaParts h hc (by omega)) fun parts d hd hle => ?_
  exact .rangeFrom (.pure hd (by omega) _)

theorem elements :
    Agree I (c.ahead.length + 1) (Grammar.elements g close) (Grammar.elements g' close) c := by
  refine .eat hc nofun (fun d hd hlt => .pure hd (by omega) _) ?_
  refine .bind (assignment h hc hn) fun element c₁ hc hlt => ?_
  have hmore {d : Cursor} (hd : I d) (hlt : d.ahead.length < c.ahead.length) :
      Agree I (c.ahead.length + 1) (g (.elements close) >>= fun elements => pure (element :: elements))
        (g' (.elements close) >>= fun elements => pure (element :: elements)) d := by
    refine .bind (h (.elements close) d hd trivial (by omega)) fun elements e he hle => ?_
    exact .pure he (by omega) _
  exact .isAt (.ite (fun _ => .symbol hc fun _ d hd _ => hmore hd (by omega)) fun _ => hmore hc hlt)

theorem block :
    Agree I c.ahead.length (Grammar.block g) (Grammar.block g') c := by
  refine .symbol hc fun _ c₁ hc hlt => ?_
  refine .bind (h .statements c₁ hc trivial (by omega)) fun body d hd hle => ?_
  exact .rangeFrom (.pure hd (by omega) _)

theorem blockStatement :
    Agree I c.ahead.length (Grammar.blockStatement g) (Grammar.blockStatement g') c :=
  .bind (block h hc hn) fun ⟨_, _⟩ _ hd hlt => .pure hd hlt _

theorem declarators :
    Agree I c.ahead.length (Grammar.declarators g noIn) (Grammar.declarators g' noIn) c := by
  refine .bind (.identifier hc) fun name c₁ hc hlt => ?_
  refine .eat_ite_bind hc nofun (fun c₂ hc hlt => ?_) (.pure hc hlt none) fun init c₂ hc hlt => ?_
  · exact .map ((h (.assignment noIn) c₂ hc trivial (by omega)).mono (by omega))
  refine .rangeFrom (.eat hc nofun (fun c₃ hc hlt => ?_) (.pure hc hlt _))
  refine .bind (h (.declarators noIn) c₃ hc trivial (by omega)) fun others d hd hle => ?_
  exact .pure hd (by omega) _

theorem declarationStatement (hk : c.current.kind = .keyword kind.keyword) :
    Agree I c.ahead.length (Grammar.declarationStatement g kind)
      (Grammar.declarationStatement g' kind) c := by
  refine .bump hc (by rw [hk]; nofun) fun c₁ hc hlt => ?_
  refine .bind (h (.declarators false) c₁ hc trivial (by omega)) fun names c₂ hc hle => ?_
  exact .semicolon hc fun d hd hle => .rangeFrom (.pure hd (by omega) _)

theorem functionStatement (hk : c.current.kind = .keyword .function) :
    Agree I c.ahead.length (Grammar.functionStatement g) (Grammar.functionStatement g') c := by
  refine .bump hc (by rw [hk]; nofun) fun c₁ hc hlt => ?_
  refine .bind (.identifier hc) fun name c₂ hc hlt => ?_
  refine .bind (parameterList h hc (by omega)) fun parameters c₃ hc hlt => ?_
  refine .bind (functionBody h hc (by omega)) fun body d hd hlt => ?_
  exact .rangeFrom (.pure hd (by omega) _)

theorem ifStatement (hk : c.current.kind = .keyword .if) :
    Agree I c.ahead.length (Grammar.ifStatement g) (Grammar.ifStatement g') c := by
  refine .bump hc (by rw [hk]; nofun) fun c₁ hc hlt => ?_
  refine .bind (parenthesized h hc (by omega)) fun test c₂ hc hlt => ?_
  refine .bind (h .statement c₂ hc trivial (by omega)) fun body c₃ hc hle => ?_
  refine .eat_ite_bind hc nofun (fun c₄ hc hlt => ?_) (.pure hc hle none) fun orElse d hd hle => ?_
  · exact .map ((h .statement c₄ hc trivial (by omega)).mono (by omega))
  · exact .rangeFrom (.pure hd (by omega) _)

theorem whileStatement (hk : c.current.kind = .keyword .while) :
    Agree I c.ahead.length (Grammar.whileStatement g) (Grammar.whileStatement g') c := by
  refine .bump hc (by rw [hk]; nofun) fun c₁ hc hlt => ?_
  refine .bind (parenthesized h hc (by omega)) fun test c₂ hc hlt => ?_
  refine .bind (h .statement c₂ hc trivial (by omega)) fun body d hd hle => ?_
  exact .rangeFrom (.pure hd (by omega) _)

theorem doStatement (hk : c.current.kind = .keyword .do) :
    Agree I c.ahead.length (Grammar.doStatement g) (Grammar.doStatement g') c := by
  refine .bump hc (by rw [hk]; nofun) fun c₁ hc hlt => ?_
  refine .bind (h .statement c₁ hc trivial (by omega)) fun body c₂ hc hle => ?_
  refine .keyword hc fun _ c₃ hc hlt => ?_
  refine .bind (parenthesized h hc (by omega)) fun test c₄ hc hlt => ?_
  exact .eat hc nofun (fun d hd hlt => .rangeFrom (.pure hd (by omega) _))
    (.rangeFrom (.pure hc (by omega) _))

theorem forRest :
    Agree I c.ahead.length (Grammar.forRest g start init) (Grammar.forRest g' start init) c := by
  have hoption {d : Cursor} (hd : I d) (hlt : d.ahead.length < c.ahead.length) :
      Agree I (d.ahead.length + 1) (some <$> g (.expression false)) (some <$> g' (.expression false))
        d :=
    .map (h (.expression false) d hd trivial (by omega))
  refine .symbol hc fun _ c₁ hc hlt => ?_
  refine .isAt (.ite_bind (fun _ => .pure hc (by omega) none) (fun _ => hoption hc hlt)
    fun test c₂ hc hle => ?_)
  refine .symbol hc fun _ c₃ hc hlt => ?_
  refine .isAt (.ite_bind (fun _ => .pure hc (by omega) none) (fun _ => hoption hc (by omega))
    fun update c₄ hc hle => ?_)
  refine .symbol hc fun _ c₅ hc hlt => ?_
  refine .bind (h .statement c₅ hc trivial (by omega)) fun body d hd hle => ?_
  exact .rangeFrom (.pure hd (by omega) _)

theorem forEachRest :
    Agree I c.ahead.length (Grammar.forEachRest g start kind left right)
      (Grammar.forEachRest g' start kind left right) c := by
  refine .symbol hc fun _ c₁ hc hlt => ?_
  refine .bind (h .statement c₁ hc trivial (by omega)) fun body d hd hle => ?_
  exact .rangeFrom (.pure hd (by omega) _)

theorem forStatement (hk : c.current.kind = .keyword .for) :
    Agree I c.ahead.length (Grammar.forStatement g) (Grammar.forStatement g') c := by
  refine .bump hc (by rw [hk]; nofun) fun c₁ hc hlt => ?_
  refine .symbol hc fun _ c₂ hc hlt => ?_
  refine .bind (forHead h hc (by omega)) fun init c₃ hc hle => ?_
  cases init with
  | none => exact (forRest h hc (by omega)).mono (by omega)
  | some left =>
    refine .eat hc nofun (fun c₄ hc hlt => ?_) (.peek (.ite (fun ho => ?_) fun _ => ?_))
    · refine .bind (h (.expression false) c₄ hc trivial (by omega)) fun right c₅ hc hle => ?_
      exact (forEachRest h hc (by omega)).mono (by omega)
    · refine .bump hc (by rintro hk; simp [Token.isOf, hk] at ho) fun c₄ hc hlt => ?_
      refine .bind (h (.assignment false) c₄ hc trivial (by omega)) fun right c₅ hc hle => ?_
      exact (forEachRest h hc (by omega)).mono (by omega)
    · exact (forRest h hc (by omega)).mono (by omega)

theorem returnStatement (hk : c.current.kind = .keyword .return) :
    Agree I c.ahead.length (Grammar.returnStatement g) (Grammar.returnStatement g') c := by
  refine .bump hc (by rw [hk]; nofun) fun c₁ hc hlt => ?_
  refine .peek (.ite_bind (fun _ => .pure hc hlt none) (fun _ => ?_) fun value c₂ hc hlt => ?_)
  · exact .map ((h (.expression false) c₁ hc trivial (by omega)).mono (by omega))
  · exact .semicolon hc fun d hd hle => .rangeFrom (.pure hd (by omega) _)

theorem throwStatement (hk : c.current.kind = .keyword .throw) :
    Agree I c.ahead.length (Grammar.throwStatement g) (Grammar.throwStatement g') c := by
  refine .bump hc (by rw [hk]; nofun) fun c₁ hc hlt => ?_
  refine .peek (.ite (fun _ => .throw _) fun _ => ?_)
  refine .bind (h (.expression false) c₁ hc trivial (by omega)) fun value c₂ hc hle => ?_
  exact .semicolon hc fun d hd hle => .rangeFrom (.pure hd (by omega) _)

theorem handlerParameter :
    Agree I (c.ahead.length + 1) (Grammar.handlerParameter g) (Grammar.handlerParameter g') c := by
  refine .eat hc nofun (fun c₁ hc hlt => ?_) (.pure hc (by omega) _)
  refine .bind (primary h hc (by omega)) fun parameter c₂ hc hlt => ?_
  exact .symbol hc fun _ d hd hlt => .pure hd (by omega) _

theorem handler :
    Agree I (c.ahead.length + 1) (Grammar.handler g) (Grammar.handler g') c := by
  refine .isAt (.ite (fun hk => ?_) fun _ => .pure hc (by omega) _)
  refine .bump hc (by rw [beq_iff_eq.1 hk]; nofun) fun c₁ hc hlt => ?_
  refine .bind (handlerParameter h hc (by omega)) fun parameter c₂ hc hle => ?_
  refine .bind (block h hc (by omega)) fun body d hd hlt => ?_
  exact .rangeFrom (.pure hd (by omega) _)

theorem finalizer :
    Agree I (c.ahead.length + 1) (Grammar.finalizer g) (Grammar.finalizer g') c := by
  refine .eat hc nofun (fun c₁ hc hlt => ?_) (.pure hc (by omega) _)
  exact .map ((block h hc (by omega)).mono (by omega))

theorem tryStatement (hk : c.current.kind = .keyword .try) :
    Agree I c.ahead.length (Grammar.tryStatement g) (Grammar.tryStatement g') c := by
  refine .bump hc (by rw [hk]; nofun) fun c₁ hc hlt => ?_
  refine .bind (block h hc (by omega)) fun body c₂ hc hlt => ?_
  refine .bind (handler h hc (by omega)) fun handler c₃ hc hle => ?_
  refine .bind (finalizer h hc (by omega)) fun finalizer d hd hle => ?_
  exact .ite (fun _ => .unexpected _) fun _ => .rangeFrom (.pure hd (by omega) _)

theorem clauseTest :
    Agree I c.ahead.length (Grammar.clauseTest g) (Grammar.clauseTest g') c := by
  refine .eat hc nofun (fun c₁ hc hlt => ?_) ?_
  · exact .map ((h (.expression false) c₁ hc trivial (by omega)).mono (by omega))
  · exact .eat hc nofun (fun d hd hlt => .pure hd hlt _) (.unexpected _)

theorem clauses :
    Agree I (c.ahead.length + 1) (Grammar.clauses g) (Grammar.clauses g') c := by
  refine .eat hc nofun (fun d hd hlt => .pure hd (by omega) _) (.peek ?_)
  refine .bind (clauseTest h hc hn) fun test c₁ hc hlt => ?_
  refine .symbol hc fun _ c₂ hc hlt => ?_
  refine .bind (h .clauseBody c₂ hc trivial (by omega)) fun body c₃ hc hle => .rangeFrom ?_
  refine .bind (h .clauses c₃ hc trivial (by omega)) fun others d hd hle => ?_
  exact .pure hd (by omega) _

theorem switchStatement (hk : c.current.kind = .keyword .switch) :
    Agree I c.ahead.length (Grammar.switchStatement g) (Grammar.switchStatement g') c := by
  refine .bump hc (by rw [hk]; nofun) fun c₁ hc hlt => ?_
  refine .bind (parenthesized h hc (by omega)) fun discriminant c₂ hc hlt => ?_
  refine .symbol hc fun _ c₃ hc hlt => ?_
  refine .bind (h .clauses c₃ hc trivial (by omega)) fun clauses d hd hle => ?_
  exact .rangeFrom (.pure hd (by omega) _)

theorem withStatement (hk : c.current.kind = .keyword .with) :
    Agree I c.ahead.length (Grammar.withStatement g) (Grammar.withStatement g') c := by
  refine .bump hc (by rw [hk]; nofun) fun c₁ hc hlt => ?_
  refine .bind (parenthesized h hc (by omega)) fun object c₂ hc hlt => ?_
  refine .bind (h .statement c₂ hc trivial (by omega)) fun body d hd hle => ?_
  exact .rangeFrom (.pure hd (by omega) _)

theorem labeledStatement :
    Agree I c.ahead.length (Grammar.labeledStatement g) (Grammar.labeledStatement g') c := by
  refine .bind (.identifier hc) fun label c₁ hc hlt => ?_
  refine .symbol hc fun _ c₂ hc hlt => ?_
  refine .bind (h .statement c₂ hc trivial (by omega)) fun body d hd hle => ?_
  exact .rangeFrom (.pure hd (by omega) _)

theorem expressionStatement :
    Agree I c.ahead.length (Grammar.expressionStatement g) (Grammar.expressionStatement g') c := by
  refine .peek (.bind (expression h hc hn) fun value c₁ hc hlt => ?_)
  exact .semicolon hc fun d hd hle => .rangeFrom (.pure hd (by omega) _)

theorem statement :
    Agree I c.ahead.length (Grammar.statement g) (Grammar.statement g') c := by
  refine .peek ?_
  split
  · exact blockStatement h hc hn
  · next hk => exact emptyStatement hc hk
  · next hk => exact declarationStatement h hc hn hk
  · next hk => exact declarationStatement h hc hn hk
  · next hk => exact declarationStatement h hc hn hk
  · next hk => exact functionStatement h hc hn hk
  · next hk => exact ifStatement h hc hn hk
  · next hk => exact whileStatement h hc hn hk
  · next hk => exact doStatement h hc hn hk
  · next hk => exact forStatement h hc hn hk
  · next hk => exact jumpStatement hc hk
  · next hk => exact jumpStatement hc hk
  · next hk => exact returnStatement h hc hn hk
  · next hk => exact throwStatement h hc hn hk
  · next hk => exact tryStatement h hc hn hk
  · next hk => exact switchStatement h hc hn hk
  · next hk => exact withStatement h hc hn hk
  · next hk => exact debuggerStatement hc hk
  · exact .get (.ite (fun _ => labeledStatement h hc hn) fun _ => expressionStatement h hc hn)
  · exact expressionStatement h hc hn

theorem statements :
    Agree I (c.ahead.length + 1) (Grammar.statements g) (Grammar.statements g') c := by
  refine .eat hc nofun (fun d hd hlt => .pure hd (by omega) _) ?_
  refine .isAt (.ite (fun _ => .unexpected _) fun _ => ?_)
  refine .bind (statement h hc hn) fun stmt c₁ hc hlt => ?_
  refine .bind (h .statements c₁ hc trivial (by omega)) fun stmts d hd hle => ?_
  exact .pure hd (by omega) _

theorem clauseBody :
    Agree I (c.ahead.length + 1) (Grammar.clauseBody g) (Grammar.clauseBody g') c := by
  refine .peek (.ite (fun _ => .pure hc (by omega) _) fun _ => ?_)
  refine .bind (statement h hc hn) fun stmt c₁ hc hlt => ?_
  refine .bind (h .clauseBody c₁ hc trivial (by omega)) fun stmts d hd hle => ?_
  exact .pure hd (by omega) _

theorem program :
    Agree I (c.ahead.length + 1) (Grammar.program g) (Grammar.program g') c := by
  refine .isAt (.ite (fun _ => .pure hc (by omega) _) fun _ => ?_)
  refine .bind (statement h hc hn) fun stmt c₁ hc hlt => ?_
  refine .bind (h .program c₁ hc trivial (by omega)) fun stmts d hd hle => ?_
  exact .pure hd (by omega) _

theorem parameters :
    Agree I (c.ahead.length + 1) (Grammar.parameters g) (Grammar.parameters g') c := by
  refine .eat hc nofun (fun d hd hlt => .pure hd (by omega) _) ?_
  refine .bind (.identifier hc) fun name c₁ hc hlt => ?_
  have hmore {d : Cursor} (hd : I d) (hlt : d.ahead.length < c.ahead.length) :
      Agree I (c.ahead.length + 1) (g .parameters >>= fun others => pure (name :: others))
        (g' .parameters >>= fun others => pure (name :: others)) d := by
    refine .bind (h .parameters d hd trivial (by omega)) fun others e he hle => ?_
    exact .pure he (by omega) _
  exact .isAt (.ite (fun _ => .symbol hc fun _ d hd _ => hmore hd (by omega)) fun _ => hmore hc hlt)

end Parts

/-- Where the parts of a production are read the same, it is read the same as a whole. -/
theorem read (h : Grammar.AgreeBelow I g g' bound) :
    Grammar.AgreeBelow I (Grammar.read g) (Grammar.read g') (bound + 1) := by
  intro α p c hc ha hlt
  have hn : c.ahead.length ≤ bound := Nat.le_of_lt_succ hlt
  have hle : c.ahead.length ≤ c.ahead.length + 1 := Nat.le_succ _
  cases p with
  | program => exact h.program hc hn
  | statement => exact (h.statement hc hn).mono hle
  | statements => exact h.statements hc hn
  | clauses => exact h.clauses hc hn
  | clauseBody => exact h.clauseBody hc hn
  | declarators noIn => exact (h.declarators hc hn).mono hle
  | parameters => exact h.parameters hc hn
  | expression noIn => exact (h.expression hc hn).mono hle
  | commaParts noIn => exact h.commaParts hc hn
  | assignment noIn => exact (h.assignment hc hn).mono hle
  | binary least noIn => exact (h.binary hc hn).mono hle
  | binaryRest least noIn left => exact h.binaryRest hc hn
  | unary => exact (h.unary hc hn).mono hle
  | suffixes target => exact h.suffixes hc hn
  | members target => exact h.members hc hn
  | construction => exact (h.construction hc hn ha).mono hle
  | elements close => exact h.elements hc hn

end Grammar.AgreeBelow

section Bounds

variable {I : Cursor → Prop} [Cursor.Kept I]

/-- A grammar reads the same below its bound as one with a larger bound. -/
theorem Grammar.agreeBelow_upTo {bound bound' : Nat} (h : bound ≤ bound') :
    Grammar.AgreeBelow I (Grammar.upTo bound) (Grammar.upTo bound') bound := by
  induction bound generalizing bound' with
  | zero => exact fun p c hc ha hlt => absurd hlt (Nat.not_lt_zero _)
  | succ bound ih =>
    cases bound' with
    | zero => exact absurd h (Nat.not_succ_le_zero _)
    | succ bound' => exact AgreeBelow.read (ih (Nat.le_of_succ_le_succ h))

theorem Grammar.agreeBelow_parse (bound : Nat) :
    Grammar.AgreeBelow I Production.parse (Grammar.upTo bound) bound := by
  intro α p c hc ha hlt
  exact Grammar.agreeBelow_upTo (Nat.succ_le_of_lt hlt) p c hc ha (Nat.lt_succ_self _)

end Bounds

namespace Production

variable {α : Type} {p : Production α} {c : Cursor}

/-- The bound plays no part: a production is read as its text says, the productions inside it from
token lists of any length. -/
theorem parse_eq_read (hc : c.Closed) (ha : p.Admits c) :
    p.parse c = Grammar.read Production.parse p c :=
  (Grammar.AgreeBelow.read (Grammar.agreeBelow_parse c.ahead.length) p c hc ha
    (Nat.lt_succ_self _)).1.symm

/-- Reading a production comes to others only where the condition holds that its own cursor
satisfies, and only with fewer tokens ahead. -/
theorem read_eq_parse {I : Cursor → Prop} [Cursor.Kept I] {g : Grammar} (hc : I c)
    (ha : p.Admits c) (h : ∀ {β : Type} (q : Production β) d, I d → q.Admits d →
      d.ahead.length < c.ahead.length → g q d = q.parse d) :
    Grammar.read g p c = p.parse c := by
  have hbelow : Grammar.AgreeBelow I Production.parse g c.ahead.length := by
    intro β q d hd ha hlt
    have hparse := Grammar.agreeBelow_parse (c.ahead.length + 1) q d hd ha (Nat.lt_succ_of_lt hlt)
    exact ⟨(h q d hd ha hlt).symm, hparse.2⟩
  rw [parse_eq_read (Cursor.Kept.closed hc) ha]
  exact (hbelow.read p c hc ha (Nat.lt_succ_self _)).1.symm

end Production

end FlowLint
