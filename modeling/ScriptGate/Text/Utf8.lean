import ScriptGate.Text.Basic

/-!
# UTF-8

The encoding of text as bytes and back. Encoding refuses lone surrogates; decoding refuses what is
not well-formed, and both say where and why.

## Main definitions

* `Utf8.encode`: the bytes of a text, or the first run of surrogates in it.
* `Utf8.decode`: the text of a byte sequence, or the first ill-formed part of it.
* `Utf8.EncodeError.message`, `Utf8.DecodeError.message`: the wording of the two errors.
-/

namespace ScriptGate

namespace Utf8

/-! ### Encoding -/

/-- The bytes of one character. -/
def encodeChar (c : Char) : List UInt8 :=
  let n := c.toNat
  if n < 0x80 then [.ofNat n]
  else if n < 0x800 then [.ofNat (0xC0 + n / 0x40), .ofNat (0x80 + n % 0x40)]
  else if n < 0x10000 then
    [.ofNat (0xE0 + n / 0x1000), .ofNat (0x80 + n / 0x40 % 0x40), .ofNat (0x80 + n % 0x40)]
  else
    [.ofNat (0xF0 + n / 0x40000), .ofNat (0x80 + n / 0x1000 % 0x40),
      .ofNat (0x80 + n / 0x40 % 0x40), .ofNat (0x80 + n % 0x40)]

/-- The bytes of a sequence of characters. -/
def encodeChars (cs : List Char) : List UInt8 := cs.flatMap encodeChar

/-- A text that no byte sequence encodes: its first surrogates stand from `start` up to, but not
including, `stop`, and `first` is the number of the first of them. -/
structure EncodeError where
  start : Nat
  stop : Nat
  first : Nat
  deriving DecidableEq, Repr

/-- The wording of an encoding error; positions count code points. -/
def EncodeError.message (e : EncodeError) : Text :=
  if e.stop = e.start + 1 then
    "'utf-8' codec can't encode character '\\u" ++ Text.hex 4 e.first ++ "' in position " ++
      Text.ofNat e.start ++ ": surrogates not allowed"
  else
    "'utf-8' codec can't encode characters in position " ++ Text.ofNat e.start ++ "-" ++
      Text.ofNat (e.stop - 1) ++ ": surrogates not allowed"

/-- A surrogate. -/
def isSurrogate : CodePoint → Bool
  | .char _ => false
  | .surrogate _ => true

/-- The characters of a text that holds no surrogate; `pos` code points stand before it. -/
def scalars (pos : Nat) : Text → Except EncodeError (List Char)
  | [] => .ok []
  | .char c :: t => (scalars (pos + 1) t).map (c :: ·)
  | .surrogate k :: t =>
    .error ⟨pos, pos + 1 + (t.takeWhile isSurrogate).length, (CodePoint.surrogate k).val⟩

/-- The bytes of a text, unless it holds a surrogate. -/
def encode (t : Text) : Except EncodeError (List UInt8) := (scalars 0 t).map encodeChars

/-! ### Decoding -/

/-- Why a byte sequence is not well-formed. -/
inductive Flaw where
  | badStart
  | badContinuation
  | cutShort
  deriving DecidableEq, Repr

/-- The wording of a flaw. -/
def Flaw.message : Flaw → Text
  | badStart => "invalid start byte"
  | badContinuation => "invalid continuation byte"
  | cutShort => "unexpected end of data"

/-- The first ill-formed part of a byte sequence: `length` bytes from `start` on, beginning with the
byte `first`. -/
structure DecodeError where
  start : Nat
  length : Nat
  first : UInt8
  flaw : Flaw
  deriving DecidableEq, Repr

/-- The wording of a decoding error; positions count bytes. -/
def DecodeError.message (e : DecodeError) : Text :=
  if e.length = 1 then
    "'utf-8' codec can't decode byte 0x" ++ Text.hex 2 e.first.toNat ++ " in position " ++
      Text.ofNat e.start ++ ": " ++ e.flaw.message
  else
    "'utf-8' codec can't decode bytes in position " ++ Text.ofNat e.start ++ "-" ++
      Text.ofNat (e.start + e.length - 1) ++ ": " ++ e.flaw.message

/-- The payload of a continuation byte. -/
def tail? (b : UInt8) : Option Nat :=
  if 0x80 ≤ b.toNat ∧ b.toNat ≤ 0xBF then some (b.toNat - 0x80) else none

/-- The byte after a lead byte has to lie in `lo … hi`, which shuts out overlong forms, surrogates
and numbers past the last code point. -/
def second? (lo hi : Nat) (b : UInt8) : Option Nat :=
  if lo ≤ b.toNat ∧ b.toNat ≤ hi then some (b.toNat - 0x80) else none

/-- What the first bytes of a sequence are: a character of a number of bytes and the bytes after it,
or a flaw that takes up a number of bytes. -/
inductive Step where
  | char (c : Char) (length : Nat) (rest : List UInt8)
  | flaw (length : Nat) (flaw : Flaw)

/-- The bytes after a lead byte that opens a character of three. -/
def step3 (lead lo hi : Nat) : List UInt8 → Step
  | [] => .flaw 1 .cutShort
  | b :: rest =>
    match second? lo hi b, rest with
    | none, _ => .flaw 1 .badContinuation
    | some _, [] => .flaw 2 .cutShort
    | some m, c :: rest =>
      match tail? c with
      | none => .flaw 2 .badContinuation
      | some l => .char (Char.ofNat (lead * 0x1000 + m * 0x40 + l)) 3 rest

/-- The bytes after a lead byte that opens a character of four. -/
def step4 (lead lo hi : Nat) : List UInt8 → Step
  | [] => .flaw 1 .cutShort
  | b :: rest =>
    match second? lo hi b, rest with
    | none, _ => .flaw 1 .badContinuation
    | some _, [] => .flaw 2 .cutShort
    | some m, c :: rest =>
      match tail? c, rest with
      | none, _ => .flaw 2 .badContinuation
      | some _, [] => .flaw 3 .cutShort
      | some l, d :: rest =>
        match tail? d with
        | none => .flaw 3 .badContinuation
        | some k => .char (Char.ofNat (lead * 0x40000 + m * 0x1000 + l * 0x40 + k)) 4 rest

/-- The first step into a sequence that begins with the byte `b`. -/
def step (b : UInt8) (rest : List UInt8) : Step :=
  let n := b.toNat
  if n < 0x80 then .char (Char.ofNat n) 1 rest
  else if n < 0xC2 then .flaw 1 .badStart
  else if n < 0xE0 then
    match rest with
    | [] => .flaw 1 .cutShort
    | c :: rest =>
      match tail? c with
      | none => .flaw 1 .badContinuation
      | some l => .char (Char.ofNat ((n - 0xC0) * 0x40 + l)) 2 rest
  else if n < 0xF0 then
    step3 (n - 0xE0) (if n = 0xE0 then 0xA0 else 0x80) (if n = 0xED then 0x9F else 0xBF) rest
  else if n < 0xF5 then
    step4 (n - 0xF0) (if n = 0xF0 then 0x90 else 0x80) (if n = 0xF4 then 0x8F else 0xBF) rest
  else .flaw 1 .badStart

/-- The characters of a byte sequence; `pos` bytes stand before it, and the number of steps is
bounded by `fuel`, for which the number of bytes is enough. -/
def decodeFrom : (fuel pos : Nat) → List UInt8 → Except DecodeError (List Char)
  | _, _, [] => .ok []
  | 0, _, _ => .ok []
  | fuel + 1, pos, b :: rest =>
    match step b rest with
    | .char c n after => (decodeFrom fuel (pos + n) after).map (c :: ·)
    | .flaw n why => .error ⟨pos, n, b, why⟩

/-- The characters of a byte sequence, or its first ill-formed part. -/
def decode (bs : List UInt8) : Except DecodeError (List Char) := decodeFrom bs.length 0 bs

end Utf8

end ScriptGate
