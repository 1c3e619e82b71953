import FlowLint.Grammar.Expression
import FlowLint.Proofs.Literal.Rounding
import FlowLint.Proofs.Token.Stream
import Mathlib.Data.List.Induction
import Mathlib.Data.Nat.Digits.Defs

namespace FlowLint
set_option autoImplicit true

open Binary64 (Rounds)

/-- The number that digits write, the last of them being the ones. -/
def positional (base : ℕ) (digits : List Char) : ℕ :=
  Nat.ofDigits base (digits.map digitValue).reverse

theorem positional_append (base : ℕ) (xs ys : List Char) :
    positional base (xs ++ ys) = positional base xs * base ^ ys.length + positional base ys := by
  rw [positional, List.map_append, List.reverse_append, Nat.ofDigits_append, List.length_reverse,
    List.length_map, Nat.add_comm, Nat.mul_comm]
  rfl

theorem ofDigits_eq_positional (base : ℕ) (digits : List Char) :
    ofDigits base digits = positional base digits := by
  induction digits using List.reverseRecOn with
  | nil => rfl
  | append_singleton digits c ih =>
    have hc : positional base [c] = digitValue c := Nat.ofDigits_singleton
    rw [positional_append, ← ih, hc, List.length_singleton, Nat.pow_one, Nat.mul_comm, ofDigits,
      List.foldl_concat]
    rfl

theorem digitValue_lt {c : Char} (h : c.isDigit = true) : digitValue c < 10 := by
  rw [digitValue, if_pos h]
  obtain ⟨-, hu⟩ := Bool.and_eq_true_iff.1 h
  have hu : c.toNat ≤ 57 := of_decide_eq_true hu
  change c.toNat - 48 < 10
  omega

theorem positional_lt (h : ∀ c ∈ digits, c.isDigit = true) :
    positional 10 digits < 10 ^ digits.length := by
  have hlt := Nat.ofDigits_lt_base_pow_length (b := 10) (l := (digits.map digitValue).reverse)
    (by decide) fun n hn => by
      obtain ⟨c, hc, rfl⟩ := List.mem_map.1 (List.mem_reverse.1 hn)
      exact digitValue_lt (h c hc)
  rwa [List.length_reverse, List.length_map] at hlt

namespace Exponent

def exact (exponent : Exponent) : ℤ :=
  if exponent.sign = some '-' then -positional 10 exponent.digits
  else positional 10 exponent.digits

theorem value_eq_exact (exponent : Exponent) : exponent.value = exponent.exact := by
  rw [value, exact, ofDigits_eq_positional]

end Exponent

namespace Decimal

/-- What the digits on both sides of the point write, times the power of ten. -/
def exact (decimal : Decimal) : ℚ :=
  let fraction := decimal.fraction.getD []
  (positional 10 decimal.whole + positional 10 fraction / 10 ^ fraction.length) *
    10 ^ decimal.exponent.elim 0 Exponent.exact

/-- The digits can be read as one integer. -/
theorem exact_eq (decimal : Decimal) :
    decimal.exact = ofDigits 10 decimal.digits * 10 ^ decimal.scale := by
  have hv : decimal.exponent.elim 0 Exponent.value = decimal.exponent.elim 0 Exponent.exact := by
    rw [funext Exponent.value_eq_exact]
  rw [exact, scale, digits, ofDigits_eq_positional, positional_append, hv]
  rw [zpow_sub₀ (by norm_num), zpow_natCast, div_eq_mul_inv]
  push_cast
  field_simp

end Decimal

namespace Binary64

/-- The ratio that a scaled integer is. -/
theorem ofRatio_scaled_rounds (n : ℕ) (exponent : ℤ) :
    Rounds (n * 10 ^ exponent)
      (if 0 ≤ exponent then ofRatio (n * 10 ^ exponent.toNat) 1
        else ofRatio n (10 ^ (-exponent).toNat)) := by
  split
  · next h =>
    have hr := ofRatio_rounds (n * 10 ^ exponent.toNat) Nat.one_pos
    rw [Nat.cast_one, div_one, Nat.cast_mul, Nat.cast_pow, Nat.cast_ofNat, ← zpow_natCast,
      Int.toNat_of_nonneg h] at hr
    exact hr
  · next h =>
    have hten : 0 < 10 ^ (-exponent).toNat := Nat.pow_pos (by decide)
    have hr := ofRatio_rounds n hten
    rw [Nat.cast_pow, Nat.cast_ofNat, ← zpow_natCast, Int.toNat_of_nonneg (by omega), zpow_neg,
      div_inv_eq_mul] at hr
    exact hr

theorem overflow_le : (2 : ℚ) ^ 1024 - 2 ^ 970 ≤ 10 ^ (309 : ℤ) := by
  have h : 2 ^ 1024 ≤ 10 ^ 309 := by decide +kernel
  calc (2 : ℚ) ^ 1024 - 2 ^ 970 ≤ 2 ^ 1024 := sub_le_self _ (pow_pos two_pos _).le
    _ ≤ 10 ^ 309 := by exact_mod_cast h
    _ = 10 ^ (309 : ℤ) := (zpow_natCast 10 309).symm

theorem le_underflow : (10 : ℚ) ^ (-324 : ℤ) ≤ 2 ^ (-1075 : ℤ) := by
  have h : 2 ^ 1075 ≤ 10 ^ 324 := by decide +kernel
  rw [zpow_neg, zpow_neg]
  refine inv_anti₀ (zpow_pos two_pos _) ?_
  exact_mod_cast h

/-- The shortcuts agree with rounding the ratio. -/
theorem ofScaled_rounds {n digits : ℕ} (h : n < 10 ^ digits) (exponent : ℤ) :
    Rounds (n * 10 ^ exponent) (ofScaled n digits exponent) := by
  have hr := ofRatio_scaled_rounds n exponent
  unfold ofScaled
  split
  · next hsmall =>
    have hle : (n * 10 ^ exponent : ℚ) ≤ 2 ^ (-1075 : ℤ) := by
      rcases hsmall with rfl | hsmall
      · rw [Nat.cast_zero, zero_mul]
        exact (zpow_pos two_pos _).le
      · calc (n * 10 ^ exponent : ℚ) ≤ 10 ^ digits * 10 ^ exponent := by
              refine mul_le_mul_of_nonneg_right ?_ (zpow_pos (by norm_num) _).le
              exact_mod_cast h.le
          _ = 10 ^ (digits + exponent) := by rw [zpow_add₀ (by norm_num), zpow_natCast]
          _ ≤ 10 ^ (-324 : ℤ) := zpow_le_zpow_right₀ (by norm_num) hsmall
          _ ≤ 2 ^ (-1075 : ℤ) := le_underflow
    rwa [hr.underflow hle] at hr
  · next hbig =>
    split
    · next hgreat =>
      have hle : (2 ^ 1024 - 2 ^ 970 : ℚ) ≤ n * 10 ^ exponent := by
        have hn : (1 : ℚ) ≤ n := by exact_mod_cast Nat.pos_of_ne_zero fun h => hbig (.inl h)
        calc (2 ^ 1024 - 2 ^ 970 : ℚ) ≤ 10 ^ (309 : ℤ) := overflow_le
          _ ≤ 10 ^ exponent := zpow_le_zpow_right₀ (by norm_num) hgreat
          _ ≤ n * 10 ^ exponent := le_mul_of_one_le_left (zpow_pos (by norm_num) _).le hn
      rwa [hr.overflow hle] at hr
    · exact hr

end Binary64

namespace Decimal

theorem Shaped.digits (h : Shaped decimal) : ∀ c ∈ decimal.digits, c.isDigit = true := by
  intro c hc
  rcases List.mem_append.1 hc with hc | hc
  · exact h.whole c hc
  · cases hf : decimal.fraction with
    | none =>
      rw [hf] at hc
      cases hc
    | some ds =>
      rw [hf] at hc
      exact h.fraction ds hf c hc

end Decimal

namespace NumberLiteral

def exact : NumberLiteral → ℚ
  | hexadecimal _ digits => positional 16 digits
  | decimal value => value.exact

/-- A hexadecimal that does not fit into 64 bits, or a decimal whose exponent part has no digits. -/
def Unreadable : NumberLiteral → Prop
  | hexadecimal _ digits => 2 ^ 64 ≤ positional 16 digits
  | decimal value => ∃ exponent ∈ value.exponent, exponent.digits = []

def digits : NumberLiteral → List Char
  | hexadecimal _ digits => digits
  | decimal value => value.digits

theorem value?_eq_none_iff (literal : NumberLiteral) :
    literal.value? = none ↔ literal.Unreadable := by
  cases literal with
  | hexadecimal marker digits => simp [value?, Unreadable, ofDigits_eq_positional, UInt64.size]
  | decimal value =>
    simp only [value?, Decimal.value?, Unreadable]
    cases value.exponent with
    | none => simp
    | some exponent => simp

theorem Shaped.rounds (h : Shaped literal) (hv : literal.value? = some number) :
    Rounds literal.exact number := by
  cases h with
  | @hexadecimal marker digits hm hd =>
    simp only [value?] at hv
    split at hv
    · obtain rfl := Option.some.inj hv
      have hr := Binary64.ofRatio_rounds (ofDigits 16 digits) Nat.one_pos
      rw [Nat.cast_one, div_one] at hr
      rwa [exact, ← ofDigits_eq_positional]
    · cases hv
  | @decimal value hd =>
    simp only [value?, Decimal.value?] at hv
    split at hv
    · cases hv
    · obtain rfl := Option.some.inj hv
      rw [exact, Decimal.exact_eq]
      refine Binary64.ofScaled_rounds ?_ _
      rw [ofDigits_eq_positional]
      exact positional_lt hd.digits

/-- The text of a literal tells which one it is. -/
theorem Shaped.text_inj (h : Shaped literal) (h' : Shaped other) (ht : literal.text = other.text) :
    literal = other := by
  have hs := h.split_text Apart.nil
  rw [ht, h'.split_text Apart.nil] at hs
  exact (congrArg Prod.fst hs).symm

end NumberLiteral

theorem Decimal.digits_ne_nil (h : startsNumber c cs = true) : (split (c :: cs)).1.digits ≠ [] := by
  by_cases hc : c.isDigit = true
  · simp [split, digits, hc]
  · obtain ⟨hp, hd⟩ : c = '.' ∧ cs.head?.any Char.isDigit = true := by simpa [startsNumber, hc] using h
    cases cs with
    | nil => cases hd
    | cons d cs =>
      have hd : d.isDigit = true := hd
      simp [hp, split, digits, splitFraction, hd]

/-- Only a hexadecimal prefix can be left without digits. -/
theorem NumberLiteral.digits_ne_nil (h : startsNumber c cs = true)
    (hx : ∀ marker, (split (c :: cs)).1 ≠ .hexadecimal marker []) :
    (split (c :: cs)).1.digits ≠ [] := by
  generalize hs : c :: cs = source at hx ⊢
  unfold split at hx ⊢
  split at hx
  · split
    · next hm =>
      rw [if_pos hm] at hx
      exact fun hd => hx _ (congrArg _ hd)
    · exact hs ▸ Decimal.digits_ne_nil h
  · exact hs ▸ Decimal.digits_ne_nil h

theorem Lexeme.IsToken.exists_literal {text : List Char} (h : IsToken .number text) :
    ∃ literal : NumberLiteral, literal.Shaped ∧ literal.digits ≠ [] ∧ literal.text = text := by
  obtain ⟨c, cs, rest, hs⟩ := h
  obtain ⟨-, -, hs⟩ := splitToken_of_split hs
  unfold splitToken at hs
  split at hs
  · simp only [splitName, Except.ok.injEq, Prod.mk.injEq, token.injEq] at hs
    obtain ⟨⟨hk, -⟩, -⟩ := hs
    split at hk <;> cases hk
  · split at hs
    · next hstart =>
      refine ⟨_, NumberLiteral.shaped_split (c :: cs), NumberLiteral.digits_ne_nil hstart ?_,
        (text_of_splitNumber hs).symm⟩
      intro marker hx
      unfold splitNumber at hs
      split at hs
      · cases hs
      · next hne he => exact hne marker (by rw [← hx, he])
    · split at hs
      · unfold splitString at hs
        split at hs <;> cases hs
      · unfold splitSymbol at hs
        split at hs <;> cases hs

namespace NumberLiteral

theorem number_run_some (h : valueOf? cursor.current.text.toList = some value) :
    Grammar.number.run cursor =
      .ok (.number cursor.current.range cursor.current.text value, cursor.advance) := by
  simp only [Grammar.number, TokenReader.bump, StateT.run_bind, StateT.run_get, StateT.run_set,
    StateT.run_pure, pure_bind, h]
  rfl

theorem number_run_none (h : valueOf? cursor.current.text.toList = none) :
    Grammar.number.run cursor =
      .error ⟨.invalidNumber cursor.current.text, cursor.current.range⟩ := by
  simp only [Grammar.number, TokenReader.bump, StateT.run_bind, StateT.run_get, StateT.run_set,
    StateT.run_pure, pure_bind, h]
  rfl

/-- Number literals are read exactly. A number in a source is a literal with digits, and only this
one has its text. Reading it fails for a hexadecimal that does not fit into 64 bits and for an
exponent part without digits; otherwise the exact value of the literal is rounded. -/
theorem number_rounds (h : tokens source = .ok list) (hm : token ∈ list)
    (hk : token.kind = .number) (hc : cursor.current = token) :
    ∃ literal : NumberLiteral,
      literal.Shaped ∧ literal.digits ≠ [] ∧ literal.text = token.text.toList ∧
      (∀ other : NumberLiteral, other.Shaped → other.text = token.text.toList → other = literal) ∧
      (literal.Unreadable →
        Grammar.number.run cursor = .error ⟨.invalidNumber token.text, token.range⟩) ∧
      (¬ literal.Unreadable → ∃ value, Rounds literal.exact value ∧
        Grammar.number.run cursor =
          .ok (.number token.range token.text value, cursor.advance)) := by
  subst hc
  obtain ⟨others, last, rfl, hlast, -, hkinds⟩ := tokens_eq_append h
  have hm : cursor.current ∈ others := by
    rcases List.mem_append.1 hm with hm | hm
    · exact hm
    · rw [List.mem_singleton.1 hm, hlast] at hk
      cases hk
  obtain ⟨literal, hs, hd, ht⟩ := (hk ▸ hkinds _ hm).exists_literal
  have hv : valueOf? cursor.current.text.toList = literal.value? := by
    have hsplit := hs.split_text Apart.nil
    rw [List.append_nil, ht] at hsplit
    rw [valueOf?, hsplit]
  refine ⟨literal, hs, hd, ht, fun other ho hto => ho.text_inj hs (hto.trans ht.symm),
    fun hu => ?_, fun hu => ?_⟩
  · exact number_run_none (hv.trans ((value?_eq_none_iff literal).2 hu))
  · obtain ⟨value, hvalue⟩ :=
      Option.ne_none_iff_exists'.1 fun hn => hu ((value?_eq_none_iff literal).1 hn)
    exact ⟨value, hs.rounds hvalue, number_run_some (hv.trans hvalue)⟩

/-- A tenth with needless zeros. No finite number is a tenth. -/
def tenthSource : String :=
  "00.10"

theorem number_rounds_tenth :
    ∃ list token, ∃ cursor : Cursor, tokens tenthSource = .ok list ∧ token ∈ list ∧
      token.kind = .number ∧ cursor.current = token ∧ Rounds (1 / 10) ⟨0x3FB999999999999A⟩ := by
  obtain ⟨list, hl⟩ : ∃ list, tokens tenthSource = .ok list := exists_ok_of_isOk (by decide +kernel)
  have hfirst : (tokens tenthSource).toOption.bind List.head? =
      some ⟨.number, "00.10", ⟨0, 5⟩, false⟩ := by
    decide +kernel
  rw [hl] at hfirst
  have hm := List.mem_of_head? hfirst
  let cursor : Cursor := ⟨[⟨.number, "00.10", ⟨0, 5⟩, false⟩], default, 0⟩
  have hcurrent : cursor.current = ⟨.number, "00.10", ⟨0, 5⟩, false⟩ := rfl
  obtain ⟨literal, -, -, -, hunique, -, hvalue⟩ := number_rounds hl hm rfl hcurrent
  obtain rfl : .decimal ⟨['0', '0'], some ['1', '0'], none⟩ = literal := by
    refine hunique _ (.decimal ⟨?_, ?_, ?_⟩) (by decide)
    · simp
    · simp
    · simp
  obtain ⟨value, hr, hrun⟩ := hvalue (by simp [Unreadable])
  have hbits : (Grammar.number.run cursor).toOption.map (fun result => match result.1 with
      | .number _ _ value => value
      | _ => default) = some ⟨0x3FB999999999999A⟩ := by
    decide +kernel
  rw [hrun] at hbits
  obtain rfl : value = ⟨0x3FB999999999999A⟩ := Option.some.inj hbits
  have hexact : exact (.decimal ⟨['0', '0'], some ['1', '0'], none⟩) = 1 / 10 := by
    have hwhole : positional 10 ['0', '0'] = 0 := by decide
    have hfraction : positional 10 ['1', '0'] = 10 := by decide
    norm_num [exact, Decimal.exact, hwhole, hfraction]
  exact ⟨list, _, cursor, hl, hm, rfl, rfl, hexact ▸ hr⟩

end NumberLiteral

end FlowLint
