import JsonSurvey.Json.Lexeme
import JsonSurvey.Json.Printer

/-! Lexemes read back. The text of a string is scanned as the string that it was written for
(`scan_quote`), whatever comes behind it. The scanner keeps the numbers of escapes apart from plain
code points, since two of them may be the halves of one code point; the writer escapes no
surrogates, so that none of what it writes is joined. -/

namespace JsonSurvey.Json

/-! ### Strings -/

/-- The code point of a piece. -/
def Piece.codePoint : Piece → CodePoint
  | .plain c => c
  | .unit c => c

/-- A piece that is not joined with its neighbours. -/
def Piece.IsApart : Piece → Prop
  | .plain _ => True
  | .unit c => c.isLowSurrogate = false

theorem joinPieces_eq {pieces : List Piece} (h : ∀ p ∈ pieces, p.IsApart) (done : Text) :
    joinPieces done pieces = (pieces.map Piece.codePoint).reverse ++ done := by
  fun_induction joinPieces done pieces with
  | case1 done => rfl
  | case2 done c rest ih => simpa [Piece.codePoint] using ih fun p hp => h p (.tail _ hp)
  | case3 done low high rest hjoin ih =>
    have hlow : low.isLowSurrogate = false := h (.unit low) List.mem_cons_self
    rw [hlow, Bool.and_false] at hjoin
    contradiction
  | case4 done low high rest hjoin ih =>
    simpa [Piece.codePoint] using ih fun p hp => h p (.tail _ hp)
  | case5 done c rest hrest ih => simpa [Piece.codePoint] using ih fun p hp => h p (.tail _ hp)

section
variable {start : Text} {done : List Piece} {c e u : CodePoint} {rest : Text}

theorem scanString_end :
    scanString start done (0x22 :: rest) = (.string (joinPieces [] done), rest) := by
  rw [scanString.eq_def]
  exact if_pos rfl

theorem scanString_plain (hquote : c ≠ 0x22) (hbackslash : c ≠ 0x5C) (hcontrol : ¬ c.val < 0x20) :
    scanString start done (c :: rest) = scanString start (.plain c :: done) rest := by
  rw [scanString.eq_def]
  simp only [if_neg hquote, if_neg hbackslash, if_neg hcontrol]

theorem scanString_short (he : e ≠ 0x75) (hu : shortEscape? e = some u) :
    scanString start done (0x5C :: e :: rest) = scanString start (.plain u :: done) rest := by
  rw [scanString.eq_def]
  simp only [if_neg (show ¬ (0x5C : CodePoint) = 0x22 by decide), if_true, if_neg he, hu]

theorem scanString_unit {h₁ h₂ h₃ h₄ : CodePoint} (hu : fourDigits? h₁ h₂ h₃ h₄ = some u)
    (hrest : rest ≠ []) :
    scanString start done (0x5C :: 0x75 :: h₁ :: h₂ :: h₃ :: h₄ :: rest) =
      scanString start (.unit u :: done) rest := by
  obtain ⟨next, rest, rfl⟩ := List.exists_cons_of_ne_nil hrest
  rw [scanString.eq_def]
  simp only [if_neg (show ¬ (0x5C : CodePoint) = 0x22 by decide), if_true, hu]

end

theorem fourDigits?_hex : ∀ n : Fin 0x20,
    fourDigits? 0x30 0x30 (CodePoint.hexDigit (n.val / 16)) (CodePoint.hexDigit n.val) =
      some (Fin.ofNat _ n.val) := by
  decide

/-- The scanner takes an escaped code point for what it is. -/
theorem scanString_escape (start : Text) (done : List Piece) (c : CodePoint) {rest : Text}
    (hrest : rest ≠ []) :
    ∃ p : Piece, p.codePoint = c ∧ p.IsApart ∧
      scanString start done (escape c ++ rest) = scanString start (p :: done) rest := by
  unfold escape
  split
  · next h =>
    refine ⟨.plain c, rfl, trivial, scanString_short ?_ (if_pos ?_)⟩
    · rcases h with rfl | rfl <;> decide
    · exact h.imp_right .inl
  split
  · next h => exact ⟨.plain c, rfl, trivial, h ▸ scanString_short (by decide) rfl⟩
  split
  · next h => exact ⟨.plain c, rfl, trivial, h ▸ scanString_short (by decide) rfl⟩
  split
  · next h => exact ⟨.plain c, rfl, trivial, h ▸ scanString_short (by decide) rfl⟩
  split
  · next h => exact ⟨.plain c, rfl, trivial, h ▸ scanString_short (by decide) rfl⟩
  split
  · next h => exact ⟨.plain c, rfl, trivial, h ▸ scanString_short (by decide) rfl⟩
  split
  · next h =>
    refine ⟨.unit c, rfl, ?_, ?_⟩
    · have hlow : ¬ 0xDC00 ≤ c.val := by omega
      simp [Piece.IsApart, CodePoint.isLowSurrogate, hlow]
    · exact scanString_unit ((fourDigits?_hex ⟨c.val, h⟩).trans (by simp)) hrest
  · next h _ _ _ _ _ hcontrol =>
    rw [not_or] at h
    exact ⟨.plain c, rfl, trivial, scanString_plain h.1 h.2 hcontrol⟩

/-- The scanner takes the code points of a string up to the closing quote. -/
theorem scanString_flatMap_escape (start : Text) {done : List Piece}
    (hdone : ∀ p ∈ done, p.IsApart) (t rest : Text) :
    scanString start done (t.flatMap escape ++ 0x22 :: rest) =
      (.string ((done.map Piece.codePoint).reverse ++ t), rest) := by
  induction t generalizing done with
  | nil =>
    rw [List.flatMap_nil, List.nil_append, scanString_end, joinPieces_eq hdone]
  | cons c t ih =>
    have hne : t.flatMap escape ++ 0x22 :: rest ≠ [] := by simp
    obtain ⟨p, hc, hp, hscan⟩ := scanString_escape start done c hne
    rw [List.flatMap_cons, List.append_assoc, hscan, ih (List.forall_mem_cons.mpr ⟨hp, hdone⟩)]
    simp [hc]

/-- A text written as a string is scanned as itself. -/
theorem scan_quote (t rest : Text) :
    scan 0x22 (t.flatMap escape ++ 0x22 :: rest) = (.string t, rest) := by
  rw [scan, if_pos rfl, scanString_flatMap_escape _ (List.forall_mem_nil _)]
  rfl

/-! ### Tokens -/

theorem tokensOnto_nil {done : List Token} {t : Text} (h : t.dropWhile isSpace = []) :
    tokensOnto done t = done.reverse := by
  rw [tokensOnto]
  split
  · rfl
  · next hcons => rw [h] at hcons; contradiction

theorem tokensOnto_cons {done : List Token} {t : Text} {c : CodePoint} {rest : Text}
    (h : t.dropWhile isSpace = c :: rest) :
    tokensOnto done t =
      tokensOnto (⟨(scan c rest).1, c :: rest⟩ :: done) (scan c rest).2 := by
  rw [tokensOnto]
  split
  · next hnil => rw [h] at hnil; contradiction
  · next hcons =>
    obtain ⟨rfl, rfl⟩ := List.cons.inj (h.symm.trans hcons)
    rfl

theorem tokensOnto_append (done more : List Token) (t : Text) :
    tokensOnto (more ++ done) t = done.reverse ++ tokensOnto more t := by
  fun_induction tokensOnto more t with
  | case1 more t hdrop => rw [tokensOnto_nil hdrop, List.reverse_append]
  | case2 more t c rest hdrop lexeme after hscan ih =>
    rw [tokensOnto_cons hdrop, hscan]
    exact ih

theorem tokens_nil : tokens [] = [] := tokensOnto_nil rfl

/-- The tokens of a text with something on it: the first lexeme, and the tokens behind it. -/
theorem tokens_cons {t : Text} {c : CodePoint} {rest : Text}
    (h : t.dropWhile isSpace = c :: rest) :
    tokens t = ⟨(scan c rest).1, c :: rest⟩ :: tokens (scan c rest).2 := by
  rw [tokens, tokensOnto_cons h]
  exact tokensOnto_append [_] [] _

/-- The first token of a text that does not begin with a space. -/
theorem tokens_eq {c : CodePoint} {rest after : Text} {lexeme : Lexeme}
    (hspace : isSpace c = false) (hscan : scan c rest = (lexeme, after)) :
    tokens (c :: rest) = ⟨lexeme, c :: rest⟩ :: tokens after := by
  have hdrop : (c :: rest).dropWhile isSpace = c :: rest := by
    rw [List.dropWhile_cons, hspace]
    rfl
  rw [tokens_cons hdrop, hscan]

theorem tokens_mark {c : CodePoint} {mark : Lexeme} (hmark : mark? c = some mark) (rest : Text) :
    tokens (c :: rest) = ⟨mark, c :: rest⟩ :: tokens rest := by
  have hquote : c ≠ 0x22 := by rintro rfl; contradiction
  have hspace : isSpace c = false := by
    rw [Bool.eq_false_iff]
    intro h
    simp only [isSpace, Bool.or_eq_true, beq_iff_eq] at h
    rcases h with ((rfl | rfl) | rfl) | rfl <;> contradiction
  refine tokens_eq hspace ?_
  rw [scan, if_neg hquote, hmark]

/-- The name of a value is scanned as the value. -/
theorem tokens_name {m : Text × Value} (hm : m ∈ names) (rest : Text) :
    tokens (m.1 ++ rest) = ⟨.name m.2, m.1 ++ rest⟩ :: tokens rest := by
  simp only [names, List.mem_cons, List.not_mem_nil, or_false] at hm
  rcases hm with rfl | rfl | rfl | rfl | rfl | rfl <;> exact tokens_eq rfl rfl

theorem tokens_quote (t rest : Text) :
    tokens (quote t ++ rest) = ⟨.string t, quote t ++ rest⟩ :: tokens rest := by
  have heq : quote t ++ rest = 0x22 :: (t.flatMap escape ++ 0x22 :: rest) := by simp [quote]
  rw [heq]
  exact tokens_eq rfl (scan_quote t rest)

end JsonSurvey.Json
