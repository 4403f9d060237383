import Mathlib.Tactic.Common
import NotK8s.Library.Bytes

namespace NotK8s.Library

/-!
# Base64

The standard alphabet with padding.  Decoding is strict: characters come in
fours, padding ends the last four only, and the bits it stands for are zero.
-/

namespace Base64

/-- The character of six bits. -/
def digit (n : Nat) : Char :=
  if n < 26 then Char.ofNat (65 + n)
  else if n < 52 then Char.ofNat (71 + n)
  else if n < 62 then Char.ofNat (n - 4)
  else if n = 62 then '+'
  else '/'

def value (c : Char) : Option Nat :=
  let n := c.toNat
  if 65 ≤ n ∧ n ≤ 90 then some (n - 65)
  else if 97 ≤ n ∧ n ≤ 122 then some (n - 71)
  else if 48 ≤ n ∧ n ≤ 57 then some (n + 4)
  else if n = 43 then some 62
  else if n = 47 then some 63
  else none

def encode : Bytes -> List Char
  | [] => []
  | [a] =>
    let bits := a.toNat * 16
    [digit (bits / 64), digit (bits % 64), '=', '=']
  | [a, b] =>
    let bits := (a.toNat * 256 + b.toNat) * 4
    [digit (bits / 4096), digit (bits / 64 % 64), digit (bits % 64), '=']
  | a :: b :: c :: rest =>
    let bits := (a.toNat * 256 + b.toNat) * 256 + c.toNat
    [digit (bits / 262144), digit (bits / 4096 % 64), digit (bits / 64 % 64), digit (bits % 64)] ++ encode rest

/-- Three bytes. -/
def decodeWhole (w x y z : Char) : Option Bytes := do
  let w ← value w
  let x ← value x
  let y ← value y
  let z ← value z
  let bits := ((w * 64 + x) * 64 + y) * 64 + z
  pure [(bits / 65536).toUInt8, (bits / 256 % 256).toUInt8, (bits % 256).toUInt8]

/-- One, two or three bytes. -/
def decodeLast (w x y z : Char) : Option Bytes :=
  if z = '=' then
    if y = '=' then do
      let w ← value w
      let x ← value x
      let bits := w * 64 + x
      if bits % 16 = 0 then pure [(bits / 16).toUInt8] else none
    else do
      let w ← value w
      let x ← value x
      let y ← value y
      let bits := (w * 64 + x) * 64 + y
      if bits % 4 = 0 then pure [(bits / 1024).toUInt8, (bits / 4 % 256).toUInt8] else none
  else decodeWhole w x y z

def decode : List Char -> Option Bytes
  | [] => some []
  | [w, x, y, z] => decodeLast w x y z
  | w :: x :: y :: z :: rest => do
      let bytes ← decodeWhole w x y z
      let others ← decode rest
      pure (bytes ++ others)
  | _ => none

theorem value_digit {n : Nat} (small : n < 64) : value (digit n) = some n := by
  revert small
  revert n
  decide

theorem digit_ne_padding {n : Nat} (small : n < 64) : digit n ≠ '=' := by
  intro padding
  have read := value_digit small
  rw [padding] at read
  cases read

theorem toUInt8_eq {n : Nat} {byte : UInt8} (same : n = byte.toNat) : n.toUInt8 = byte := by
  subst same
  exact UInt8.ofNat_toNat

section
variable {a b c : UInt8}

theorem decodeWhole_encode :
    decodeWhole (digit (((a.toNat * 256 + b.toNat) * 256 + c.toNat) / 262144))
        (digit (((a.toNat * 256 + b.toNat) * 256 + c.toNat) / 4096 % 64))
        (digit (((a.toNat * 256 + b.toNat) * 256 + c.toNat) / 64 % 64))
        (digit (((a.toNat * 256 + b.toNat) * 256 + c.toNat) % 64)) = some [a, b, c] := by
  have first := a.toNat_lt
  have second := b.toNat_lt
  have third := c.toNat_lt
  unfold decodeWhole
  rw [value_digit (by omega), value_digit (by omega), value_digit (by omega), value_digit (by omega)]
  change some _ = some _
  rw [@toUInt8_eq _ a (by omega), @toUInt8_eq _ b (by omega), @toUInt8_eq _ c (by omega)]

end

theorem decode_encode (bytes : Bytes) : decode (encode bytes) = some bytes := by
  induction bytes using encode.induct with
  | case1 => rfl
  | case2 a =>
    have first := a.toNat_lt
    change decodeLast _ _ _ _ = _
    unfold decodeLast
    rw [if_pos rfl, if_pos rfl, value_digit (by omega), value_digit (by omega)]
    change (if _ then some _ else none) = _
    rw [if_pos (by omega), @toUInt8_eq _ a (by omega)]
  | case3 a b =>
    have first := a.toNat_lt
    have second := b.toNat_lt
    change decodeLast _ _ _ _ = _
    unfold decodeLast
    rw [if_pos rfl, if_neg (digit_ne_padding (by omega)), value_digit (by omega), value_digit (by omega),
      value_digit (by omega)]
    change (if _ then some _ else none) = _
    rw [if_pos (by omega), @toUInt8_eq _ a (by omega), @toUInt8_eq _ b (by omega)]
  | case4 a b c rest ih =>
    cases later : encode rest with
    | nil =>
      rw [later] at ih
      rw [encode, later, List.append_nil]
      change decodeLast _ _ _ _ = _
      unfold decodeLast
      rw [if_neg (digit_ne_padding (by omega)), decodeWhole_encode, ← Option.some.inj ih]
    | cons head tail =>
      rw [later] at ih
      rw [encode, later]
      change (decodeWhole _ _ _ _).bind (fun bytes => (decode (head :: tail)).bind fun others => some (bytes ++ others)) = _
      rw [decodeWhole_encode, ih]
      rfl

end Base64
end NotK8s.Library
