import JsonSurvey.Text

/-! The encoding of texts as UTF-8. Writing fails at a surrogate, which has no encoding; reading
fails at the first byte that begins no well-formed sequence, and the flaw names the longest run of
bytes that could still have begun one. -/

namespace JsonSurvey

abbrev Byte := Fin 256

namespace Utf8

/-- The bytes of one code point, none for a surrogate. -/
def encodeCodePoint? (c : CodePoint) : Option (List Byte) :=
  if c.val < 0x80 then some [Fin.ofNat 256 c.val]
  else if c.val < 0x800 then
    some [Fin.ofNat 256 (0xC0 + c.val / 0x40), Fin.ofNat 256 (0x80 + c.val % 0x40)]
  else if c.isSurrogate then none
  else if c.val < 0x10000 then
    some [Fin.ofNat 256 (0xE0 + c.val / 0x1000), Fin.ofNat 256 (0x80 + c.val / 0x40 % 0x40),
      Fin.ofNat 256 (0x80 + c.val % 0x40)]
  else
    some [Fin.ofNat 256 (0xF0 + c.val / 0x40000), Fin.ofNat 256 (0x80 + c.val / 0x1000 % 0x40),
      Fin.ofNat 256 (0x80 + c.val / 0x40 % 0x40), Fin.ofNat 256 (0x80 + c.val % 0x40)]

/-- A run of surrogates, which cannot be encoded: the first of them and the places of the first and
the last. -/
structure Gap where
  surrogate : CodePoint
  first : Nat
  last : Nat

/-- `encodeFrom one place done t` appends the bytes of `t`, whose first code point is at `place`, to
the reversed bytes `done`; `one` gives the bytes of a code point. -/
def encodeFrom (one : CodePoint → Option (List Byte)) (place : Nat) (done : List Byte) :
    Text → Except Gap (List Byte)
  | [] => .ok done.reverse
  | c :: rest =>
    match one c with
    | some bytes => encodeFrom one (place + 1) (bytes.reverse ++ done) rest
    | none => .error ⟨c, place, place + (rest.takeWhile CodePoint.isSurrogate).length⟩

/-- The bytes of a text. -/
def encode (t : Text) : Except Gap (List Byte) := encodeFrom encodeCodePoint? 0 [] t

/-- The bytes of one code point of a file name. The surrogates from `U+DC80` to `U+DCFF` stand for
single bytes from 128 on, so that every file name has a text. -/
def encodeNamePoint? (c : CodePoint) : Option (List Byte) :=
  if 0xDC80 ≤ c.val && c.val ≤ 0xDCFF then some [Fin.ofNat 256 (c.val - 0xDC00)]
  else encodeCodePoint? c

/-- The bytes of a file name or path. -/
def encodeName (t : Text) : Except Gap (List Byte) := encodeFrom encodeNamePoint? 0 [] t

/-- The bytes of a file name or path, none for one that has no encoding. -/
def nameBytes (t : Text) : List Byte :=
  match encodeName t with
  | .ok bytes => bytes
  | .error _ => []

/-- What is wrong with a byte sequence. -/
inductive Cause
  | invalidStart
  | invalidContinuation
  | unexpectedEnd
deriving DecidableEq

/-- A run of `length` bytes at `place`, the first of which is `byte`, that begins no code point. -/
structure Flaw where
  byte : Byte
  place : Nat
  length : Nat
  cause : Cause
deriving DecidableEq

/-- The continuation bytes. -/
def isContinuation (b : Byte) : Bool := 0x80 ≤ b.val && b.val ≤ 0xBF

/-- Whether `second` may follow `first`, the first byte of three or four: the encoding must be no
longer than necessary and must not stand for a surrogate or lie beyond the last code point. -/
def mayFollow (first second : Byte) : Bool :=
  isContinuation second &&
    !(first.val == 0xE0 && second.val < 0xA0) && !(first.val == 0xED && 0xA0 ≤ second.val) &&
    !(first.val == 0xF0 && second.val < 0x90) && !(first.val == 0xF4 && 0x90 ≤ second.val)

/-- How many bytes a code point takes whose first byte is `first`, zero if none begins so. -/
def sequenceLength (first : Byte) : Nat :=
  if first.val < 0x80 then 1
  else if first.val < 0xC2 then 0
  else if first.val < 0xE0 then 2
  else if first.val < 0xF0 then 3
  else if first.val < 0xF5 then 4
  else 0

/-- The first code point of the bytes `first :: rest` with the number of bytes of `rest` that it
takes, or the length and the cause of the flaw there. -/
def decodeFirst (first : Byte) (rest : List Byte) : Except (Nat × Cause) (CodePoint × Nat) :=
  match sequenceLength first with
  | 1 => .ok (Fin.ofNat _ first.val, 0)
  | 2 =>
    match rest with
    | [] => .error (1, .unexpectedEnd)
    | b :: _ =>
      if isContinuation b then .ok (Fin.ofNat _ ((first.val - 0xC0) * 0x40 + (b.val - 0x80)), 1)
      else .error (1, .invalidContinuation)
  | 3 =>
    match rest with
    | [] => .error (1, .unexpectedEnd)
    | b :: rest =>
      if mayFollow first b then
        match rest with
        | [] => .error (2, .unexpectedEnd)
        | c :: _ =>
          if isContinuation c then
            .ok (Fin.ofNat _
              ((first.val - 0xE0) * 0x1000 + (b.val - 0x80) * 0x40 + (c.val - 0x80)), 2)
          else .error (2, .invalidContinuation)
      else .error (1, .invalidContinuation)
  | 4 =>
    match rest with
    | [] => .error (1, .unexpectedEnd)
    | b :: rest =>
      if mayFollow first b then
        match rest with
        | [] => .error (2, .unexpectedEnd)
        | c :: rest =>
          if isContinuation c then
            match rest with
            | [] => .error (3, .unexpectedEnd)
            | d :: _ =>
              if isContinuation d then
                .ok (Fin.ofNat _ ((first.val - 0xF0) * 0x40000 + (b.val - 0x80) * 0x1000 +
                  (c.val - 0x80) * 0x40 + (d.val - 0x80)), 3)
              else .error (3, .invalidContinuation)
          else .error (2, .invalidContinuation)
      else .error (1, .invalidContinuation)
  | _ => .error (1, .invalidStart)

/-- `decodeFrom place done bytes` appends the code points of `bytes`, which begin at `place`, to the
reversed text `done`. -/
def decodeFrom (place : Nat) (done : Text) : List Byte → Except Flaw Text
  | [] => .ok done.reverse
  | first :: rest =>
    match decodeFirst first rest with
    | .ok (c, more) => decodeFrom (place + more + 1) (c :: done) (rest.drop more)
    | .error (length, cause) => .error ⟨first, place, length, cause⟩
termination_by bytes => bytes.length
decreasing_by simp only [List.length_drop, List.length_cons]; omega

/-- The text that bytes encode. -/
def decode (bytes : List Byte) : Except Flaw Text := decodeFrom 0 [] bytes

/-- `decodeNameFrom done bytes` appends the code points of a file name to the reversed text `done`.
A byte that begins no code point gives the surrogate that stands for it. -/
def decodeNameFrom (done : Text) : List Byte → Text
  | [] => done.reverse
  | first :: rest =>
    match decodeFirst first rest with
    | .ok (c, more) => decodeNameFrom (c :: done) (rest.drop more)
    | .error _ => decodeNameFrom (Fin.ofNat _ (0xDC00 + first.val) :: done) rest
termination_by bytes => bytes.length
decreasing_by all_goals simp only [List.length_drop, List.length_cons]; omega

/-- The text of a file name or path. -/
def decodeName (bytes : List Byte) : Text := decodeNameFrom [] bytes

end Utf8
end JsonSurvey
