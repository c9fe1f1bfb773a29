import JsonSurvey.Text.Utf8

/-! UTF-8 read back. `Encodes` relates a text to its bytes, one code point after the other; writing
succeeds exactly on it (`encode_eq_ok_iff`), and so does reading (`decode_eq_ok_iff`). The steps are
those of one code point: whatever follows its bytes, they are read as it (`decodeFirst_append`), and
no other bytes are (`encodeCodePoint?_of_decodeFirst`). -/

namespace JsonSurvey.Utf8

/-- The bytes of a text are those of its code points, one behind the other. -/
inductive Encodes : Text → List Byte → Prop
  | nil : Encodes [] []
  | cons {c : CodePoint} {part : List Byte} {t : Text} {bytes : List Byte} :
    encodeCodePoint? c = some part → Encodes t bytes → Encodes (c :: t) (part ++ bytes)

theorem Encodes.append {s t : Text} {bytes bytes' : List Byte} (hs : Encodes s bytes)
    (ht : Encodes t bytes') : Encodes (s ++ t) (bytes ++ bytes') := by
  induction hs with
  | nil => exact ht
  | cons hc _ ih =>
    rw [List.cons_append, List.append_assoc]
    exact .cons hc ih

/-! ### Writing -/

theorem encodeFrom_eq_ok_iff {place : Nat} {done bytes : List Byte} {t : Text} :
    encodeFrom encodeCodePoint? place done t = .ok bytes ↔
      ∃ tail, Encodes t tail ∧ bytes = done.reverse ++ tail := by
  induction t generalizing place done with
  | nil =>
    rw [encodeFrom]
    constructor
    · intro h
      cases h
      exact ⟨[], .nil, (List.append_nil _).symm⟩
    · rintro ⟨_, ⟨⟩, rfl⟩
      rw [List.append_nil]
  | cons c t ih =>
    rw [encodeFrom]
    split
    · next part hpart =>
      rw [ih, List.reverse_append, List.reverse_reverse]
      constructor
      · rintro ⟨tail, htail, rfl⟩
        exact ⟨part ++ tail, .cons hpart htail, List.append_assoc _ _ _⟩
      · rintro ⟨_, htail, rfl⟩
        cases htail with
        | cons hc htail =>
          cases hpart.symm.trans hc
          exact ⟨_, htail, (List.append_assoc _ _ _).symm⟩
    · next hpart =>
      constructor
      · intro h
        contradiction
      · rintro ⟨_, htail, rfl⟩
        cases htail with
        | cons hc _ =>
          rw [hpart] at hc
          contradiction

theorem encode_eq_ok_iff {t : Text} {bytes : List Byte} :
    encode t = .ok bytes ↔ Encodes t bytes := by
  rw [encode, encodeFrom_eq_ok_iff]
  constructor
  · rintro ⟨tail, htail, rfl⟩
    exact htail
  · intro h
    exact ⟨bytes, h, rfl⟩

/-! ### Reading -/

theorem val_byte {n : Nat} (h : n < 256) : (Fin.ofNat 256 n).val = n := Nat.mod_eq_of_lt h

theorem ofNat_eq_byte {n : Nat} {b : Byte} (h : n = b.val) : Fin.ofNat 256 n = b := by
  apply Fin.ext
  rw [h]
  exact Nat.mod_eq_of_lt b.isLt

theorem val_codePoint {n : Nat} (h : n < 0x110000) : (Fin.ofNat 0x110000 n).val = n :=
  Nat.mod_eq_of_lt h

theorem eq_codePoint {n : Nat} {c : CodePoint} (h : n = c.val) : Fin.ofNat 0x110000 n = c := by
  apply Fin.ext
  rw [h]
  exact Nat.mod_eq_of_lt c.isLt

theorem isContinuation_iff {b : Byte} : isContinuation b = true ↔ 0x80 ≤ b.val ∧ b.val ≤ 0xBF := by
  rw [isContinuation, Bool.and_eq_true, decide_eq_true_eq, decide_eq_true_eq]

theorem isContinuation_byte {n : Nat} (h : n < 0x40) :
    isContinuation (Fin.ofNat 256 (0x80 + n)) = true := by
  rw [isContinuation_iff, val_byte (by omega)]
  omega

theorem mayFollow_iff {first second : Byte} :
    mayFollow first second = true ↔ (0x80 ≤ second.val ∧ second.val ≤ 0xBF) ∧
      (first.val = 0xE0 → 0xA0 ≤ second.val) ∧ (first.val = 0xED → second.val < 0xA0) ∧
      (first.val = 0xF0 → 0x90 ≤ second.val) ∧ (first.val = 0xF4 → second.val < 0x90) := by
  simp only [mayFollow, isContinuation_iff, Bool.and_eq_true, Bool.not_eq_true',
    Bool.and_eq_false_iff, beq_eq_false_iff_ne, decide_eq_false_iff_not]
  omega

section
variable {c : CodePoint} (rest : List Byte)

theorem decodeFirst_one (h : c.val < 0x80) :
    decodeFirst (Fin.ofNat 256 c.val) rest = .ok (c, 0) := by
  have hfirst : (Fin.ofNat 256 c.val).val = c.val := val_byte (by omega)
  have hlength : sequenceLength (Fin.ofNat 256 c.val) = 1 := if_pos (by omega)
  rw [decodeFirst.eq_def, hlength]
  change Except.ok (Fin.ofNat 0x110000 (Fin.ofNat 256 c.val).val, 0) = _
  rw [eq_codePoint hfirst]

theorem decodeFirst_two (hlow : 0x80 ≤ c.val) (hhigh : c.val < 0x800) :
    decodeFirst (Fin.ofNat 256 (0xC0 + c.val / 0x40))
      (Fin.ofNat 256 (0x80 + c.val % 0x40) :: rest) = .ok (c, 1) := by
  have hfirst : (Fin.ofNat 256 (0xC0 + c.val / 0x40)).val = 0xC0 + c.val / 0x40 :=
    val_byte (by omega)
  have hlength : sequenceLength (Fin.ofNat 256 (0xC0 + c.val / 0x40)) = 2 := by
    rw [sequenceLength, hfirst, if_neg (by omega), if_neg (by omega), if_pos (by omega)]
  rw [decodeFirst.eq_def, hlength]
  refine (if_pos (isContinuation_byte (by omega))).trans ?_
  rw [hfirst, val_byte (by omega), @eq_codePoint _ c (by omega)]

theorem decodeFirst_three (hlow : 0x800 ≤ c.val) (hhigh : c.val < 0x10000)
    (hplain : c.val < 0xD800 ∨ 0xDFFF < c.val) :
    decodeFirst (Fin.ofNat 256 (0xE0 + c.val / 0x1000))
      (Fin.ofNat 256 (0x80 + c.val / 0x40 % 0x40) :: Fin.ofNat 256 (0x80 + c.val % 0x40) :: rest) =
      .ok (c, 2) := by
  have hfirst : (Fin.ofNat 256 (0xE0 + c.val / 0x1000)).val = 0xE0 + c.val / 0x1000 :=
    val_byte (by omega)
  have hsecond : (Fin.ofNat 256 (0x80 + c.val / 0x40 % 0x40)).val = 0x80 + c.val / 0x40 % 0x40 :=
    val_byte (by omega)
  have hlength : sequenceLength (Fin.ofNat 256 (0xE0 + c.val / 0x1000)) = 3 := by
    rw [sequenceLength, hfirst, if_neg (by omega), if_neg (by omega), if_neg (by omega),
      if_pos (by omega)]
  have hfollow : mayFollow (Fin.ofNat 256 (0xE0 + c.val / 0x1000))
      (Fin.ofNat 256 (0x80 + c.val / 0x40 % 0x40)) = true :=
    mayFollow_iff.mpr ⟨by omega, by omega, by omega, by omega, by omega⟩
  rw [decodeFirst.eq_def, hlength]
  refine (if_pos hfollow).trans ((if_pos (isContinuation_byte (by omega))).trans ?_)
  rw [hfirst, hsecond, val_byte (by omega), @eq_codePoint _ c (by omega)]

theorem decodeFirst_four (hlow : 0x10000 ≤ c.val) :
    decodeFirst (Fin.ofNat 256 (0xF0 + c.val / 0x40000))
      (Fin.ofNat 256 (0x80 + c.val / 0x1000 % 0x40) ::
        Fin.ofNat 256 (0x80 + c.val / 0x40 % 0x40) :: Fin.ofNat 256 (0x80 + c.val % 0x40) :: rest) =
      .ok (c, 3) := by
  have hhigh := c.isLt
  have hfirst : (Fin.ofNat 256 (0xF0 + c.val / 0x40000)).val = 0xF0 + c.val / 0x40000 :=
    val_byte (by omega)
  have hsecond : (Fin.ofNat 256 (0x80 + c.val / 0x1000 % 0x40)).val =
      0x80 + c.val / 0x1000 % 0x40 := val_byte (by omega)
  have hthird : (Fin.ofNat 256 (0x80 + c.val / 0x40 % 0x40)).val = 0x80 + c.val / 0x40 % 0x40 :=
    val_byte (by omega)
  have hlength : sequenceLength (Fin.ofNat 256 (0xF0 + c.val / 0x40000)) = 4 := by
    rw [sequenceLength, hfirst, if_neg (by omega), if_neg (by omega), if_neg (by omega),
      if_neg (by omega), if_pos (by omega)]
  have hfollow : mayFollow (Fin.ofNat 256 (0xF0 + c.val / 0x40000))
      (Fin.ofNat 256 (0x80 + c.val / 0x1000 % 0x40)) = true :=
    mayFollow_iff.mpr ⟨by omega, by omega, by omega, by omega, by omega⟩
  rw [decodeFirst.eq_def, hlength]
  refine (if_pos hfollow).trans ((if_pos (isContinuation_byte (by omega))).trans
    ((if_pos (isContinuation_byte (by omega))).trans ?_))
  rw [hfirst, hsecond, hthird, val_byte (by omega), @eq_codePoint _ c (by omega)]

/-- The bytes of a code point are read as it, whatever comes behind them. -/
theorem decodeFirst_append {part : List Byte} (h : encodeCodePoint? c = some part) :
    ∃ first more, part = first :: more ∧
      decodeFirst first (more ++ rest) = .ok (c, more.length) := by
  unfold encodeCodePoint? at h
  split at h
  · next hone =>
    cases h
    exact ⟨_, _, rfl, decodeFirst_one rest hone⟩
  next hone =>
  split at h
  · next htwo =>
    cases h
    exact ⟨_, _, rfl, decodeFirst_two rest (Nat.not_lt.mp hone) htwo⟩
  next htwo =>
  split at h
  · contradiction
  next hplain =>
  split at h
  · next hthree =>
    cases h
    refine ⟨_, _, rfl, decodeFirst_three rest (Nat.not_lt.mp htwo) hthree ?_⟩
    simp only [CodePoint.isSurrogate, Bool.and_eq_true, decide_eq_true_eq] at hplain
    omega
  · next hthree =>
    cases h
    exact ⟨_, _, rfl, decodeFirst_four rest (Nat.not_lt.mp hthree)⟩

end

theorem Encodes.decodeFrom {t : Text} {bytes : List Byte} (h : Encodes t bytes) (place : Nat)
    (done : Text) : decodeFrom place done bytes = .ok (done.reverse ++ t) := by
  induction h generalizing place done with
  | nil => rw [Utf8.decodeFrom, List.append_nil]
  | @cons c part t bytes hc _ ih =>
    obtain ⟨first, more, rfl, hfirst⟩ := decodeFirst_append bytes hc
    rw [List.cons_append, Utf8.decodeFrom, hfirst]
    simp only [List.drop_left]
    rw [ih, List.reverse_cons, List.append_assoc, List.singleton_append]

/-- The bytes of a text are read as the text. -/
theorem Encodes.decode_eq_ok {t : Text} {bytes : List Byte} (h : Encodes t bytes) :
    decode bytes = .ok t := h.decodeFrom 0 []

/-! ### What is read -/

theorem sequenceLength_cases (first : Byte) :
    first.val < 0x80 ∧ sequenceLength first = 1 ∨
      (0xC2 ≤ first.val ∧ first.val < 0xE0) ∧ sequenceLength first = 2 ∨
      (0xE0 ≤ first.val ∧ first.val < 0xF0) ∧ sequenceLength first = 3 ∨
      (0xF0 ≤ first.val ∧ first.val < 0xF5) ∧ sequenceLength first = 4 ∨
      sequenceLength first = 0 := by
  unfold sequenceLength
  split
  · omega
  split
  · omega
  split
  · omega
  split
  · omega
  split
  · omega
  · omega

theorem encodeCodePoint?_two {a b : Byte} {n : Nat} (ha : 0xC2 ≤ a.val ∧ a.val < 0xE0)
    (hb : 0x80 ≤ b.val ∧ b.val ≤ 0xBF) (hn : n = (a.val - 0xC0) * 0x40 + (b.val - 0x80)) :
    encodeCodePoint? (Fin.ofNat 0x110000 n) = some [a, b] := by
  have hc : (Fin.ofNat 0x110000 n).val = n := val_codePoint (by omega)
  rw [encodeCodePoint?, hc, if_neg (by omega), if_pos (by omega),
    @ofNat_eq_byte _ a (by omega), @ofNat_eq_byte _ b (by omega)]

theorem encodeCodePoint?_three {a b d : Byte} {n : Nat} (ha : 0xE0 ≤ a.val ∧ a.val < 0xF0)
    (hb : mayFollow a b = true) (hd : 0x80 ≤ d.val ∧ d.val ≤ 0xBF)
    (hn : n = (a.val - 0xE0) * 0x1000 + (b.val - 0x80) * 0x40 + (d.val - 0x80)) :
    encodeCodePoint? (Fin.ofNat 0x110000 n) = some [a, b, d] := by
  obtain ⟨hb, hE0, hED, -⟩ := mayFollow_iff.mp hb
  have hc : (Fin.ofNat 0x110000 n).val = n := val_codePoint (by omega)
  have hplain : CodePoint.isSurrogate (Fin.ofNat 0x110000 n) = false := by
    rw [CodePoint.isSurrogate, hc, Bool.and_eq_false_iff, decide_eq_false_iff_not,
      decide_eq_false_iff_not]
    omega
  rw [encodeCodePoint?, hc, hplain, if_neg (by omega), if_neg (by omega),
    if_neg Bool.false_ne_true, if_pos (by omega), @ofNat_eq_byte _ a (by omega),
    @ofNat_eq_byte _ b (by omega), @ofNat_eq_byte _ d (by omega)]

theorem encodeCodePoint?_four {a b d e : Byte} {n : Nat} (ha : 0xF0 ≤ a.val ∧ a.val < 0xF5)
    (hb : mayFollow a b = true) (hd : 0x80 ≤ d.val ∧ d.val ≤ 0xBF)
    (he : 0x80 ≤ e.val ∧ e.val ≤ 0xBF)
    (hn : n = (a.val - 0xF0) * 0x40000 + (b.val - 0x80) * 0x1000 + (d.val - 0x80) * 0x40 +
      (e.val - 0x80)) :
    encodeCodePoint? (Fin.ofNat 0x110000 n) = some [a, b, d, e] := by
  obtain ⟨hb, -, -, hF0, hF4⟩ := mayFollow_iff.mp hb
  have hc : (Fin.ofNat 0x110000 n).val = n := val_codePoint (by omega)
  have hplain : CodePoint.isSurrogate (Fin.ofNat 0x110000 n) = false := by
    rw [CodePoint.isSurrogate, hc, Bool.and_eq_false_iff, decide_eq_false_iff_not,
      decide_eq_false_iff_not]
    omega
  rw [encodeCodePoint?, hc, hplain, if_neg (by omega), if_neg (by omega),
    if_neg Bool.false_ne_true, if_neg (by omega), @ofNat_eq_byte _ a (by omega),
    @ofNat_eq_byte _ b (by omega), @ofNat_eq_byte _ d (by omega), @ofNat_eq_byte _ e (by omega)]

/-- A code point is read from no bytes but its own. -/
theorem encodeCodePoint?_of_decodeFirst {first : Byte} {rest : List Byte} {c : CodePoint}
    {more : Nat} (h : decodeFirst first rest = .ok (c, more)) :
    encodeCodePoint? c = some (first :: rest.take more) := by
  unfold decodeFirst at h
  rcases sequenceLength_cases first with ⟨hfirst, hlength⟩ | ⟨hfirst, hlength⟩ |
    ⟨hfirst, hlength⟩ | ⟨hfirst, hlength⟩ | hlength <;> simp only [hlength] at h
  · obtain ⟨rfl, rfl⟩ := Prod.mk.inj (Except.ok.inj h)
    have hc : (Fin.ofNat 0x110000 first.val).val = first.val := val_codePoint (by omega)
    rw [encodeCodePoint?, hc, if_pos hfirst, ofNat_eq_byte rfl]
    rfl
  · repeat' split at h
    all_goals try contradiction
    next hb =>
    obtain ⟨rfl, rfl⟩ := Prod.mk.inj (Except.ok.inj h)
    exact encodeCodePoint?_two hfirst (isContinuation_iff.mp hb) rfl
  · repeat' split at h
    all_goals try contradiction
    next hb _ _ _ hd =>
    obtain ⟨rfl, rfl⟩ := Prod.mk.inj (Except.ok.inj h)
    exact encodeCodePoint?_three hfirst hb (isContinuation_iff.mp hd) rfl
  · repeat' split at h
    all_goals try contradiction
    next hb _ _ hd _ _ _ he =>
    obtain ⟨rfl, rfl⟩ := Prod.mk.inj (Except.ok.inj h)
    exact encodeCodePoint?_four hfirst hb (isContinuation_iff.mp hd) (isContinuation_iff.mp he) rfl
  · contradiction

theorem decodeFrom_eq_ok {place : Nat} {done t : Text} {bytes : List Byte}
    (h : decodeFrom place done bytes = .ok t) :
    ∃ t', Encodes t' bytes ∧ t = done.reverse ++ t' := by
  fun_induction decodeFrom place done bytes with
  | case1 place done =>
    cases h
    exact ⟨[], .nil, (List.append_nil _).symm⟩
  | case2 place done first rest c more hfirst ih =>
    obtain ⟨t', ht', rfl⟩ := ih h
    refine ⟨c :: t', ?_, by simp⟩
    have hbytes := Encodes.cons (encodeCodePoint?_of_decodeFirst hfirst) ht'
    rwa [List.cons_append, List.take_append_drop] at hbytes
  | case3 => contradiction

/-- Exactly the bytes of a text are read as the text. -/
theorem decode_eq_ok_iff {t : Text} {bytes : List Byte} :
    decode bytes = .ok t ↔ Encodes t bytes := by
  refine ⟨fun h => ?_, Encodes.decode_eq_ok⟩
  obtain ⟨t', ht', rfl⟩ := decodeFrom_eq_ok h
  exact ht'

/-- A code point of one byte that is in a text is among the bytes of the text. -/
theorem Encodes.mem {t : Text} {bytes : List Byte} (h : Encodes t bytes) {c : CodePoint} {b : Byte}
    (hc : encodeCodePoint? c = some [b]) (hmem : c ∈ t) : b ∈ bytes := by
  induction h with
  | nil => contradiction
  | @cons d part t bytes hd _ ih =>
    rw [List.mem_append]
    rcases List.mem_cons.mp hmem with rfl | hmem
    · rw [Option.some.inj (hd.symm.trans hc)]
      exact .inl List.mem_cons_self
    · exact .inr (ih hmem)

end JsonSurvey.Utf8
