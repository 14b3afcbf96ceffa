/-
Scintx.Lib.Base64 — the standard Base64 encoding with padding.

`decode` is lenient in the two ways of the usual implementations: line
breaks are skipped wherever they stand, and the unused bits of the last
sextet are not checked. Both only add texts that decode; what was
encoded decodes to itself (`decode_encode`), so encoding loses nothing.
-/
import Mathlib.Data.List.Basic

namespace Scintx.Lib.Base64

/-- The character of a sextet. -/
def sextetChar (n : Nat) : Char :=
  if n < 26 then Char.ofNat (65 + n)
  else if n < 52 then Char.ofNat (71 + n)
  else if n < 62 then Char.ofNat (n - 4)
  else if n = 62 then '+' else '/'

/-- The sextet of a character of the alphabet. -/
def charSextet (c : Char) : Option Nat :=
  if 'A' ≤ c ∧ c ≤ 'Z' then some (c.toNat - 65)
  else if 'a' ≤ c ∧ c ≤ 'z' then some (c.toNat - 71)
  else if '0' ≤ c ∧ c ≤ '9' then some (c.toNat + 4)
  else if c = '+' then some 62
  else if c = '/' then some 63
  else none

def encode : List UInt8 → List Char
  | [] => []
  | [a] => [sextetChar (a.toNat / 4), sextetChar (a.toNat % 4 * 16), '=', '=']
  | [a, b] =>
    [sextetChar (a.toNat / 4), sextetChar (a.toNat % 4 * 16 + b.toNat / 16),
      sextetChar (b.toNat % 16 * 4), '=']
  | a :: b :: c :: rest =>
    sextetChar (a.toNat / 4) :: sextetChar (a.toNat % 4 * 16 + b.toNat / 16) ::
      sextetChar (b.toNat % 16 * 4 + c.toNat / 64) :: sextetChar (c.toNat % 64) :: encode rest

/-- Quadruples of characters; padding only in the last one. -/
def decodeQuads : List Char → Option (List UInt8)
  | [] => some []
  | [a, b, '=', '='] => do
    let x ← charSextet a
    let y ← charSextet b
    return [UInt8.ofNat (x * 4 + y / 16)]
  | [a, b, c, '='] => do
    let x ← charSextet a
    let y ← charSextet b
    let z ← charSextet c
    return [UInt8.ofNat (x * 4 + y / 16), UInt8.ofNat (y % 16 * 16 + z / 4)]
  | a :: b :: c :: d :: rest => do
    let x ← charSextet a
    let y ← charSextet b
    let z ← charSextet c
    let w ← charSextet d
    let tail ← decodeQuads rest
    return UInt8.ofNat (x * 4 + y / 16) :: UInt8.ofNat (y % 16 * 16 + z / 4) ::
      UInt8.ofNat (z % 4 * 64 + w) :: tail
  | _ => none

def decode (cs : List Char) : Option (List UInt8) :=
  decodeQuads (cs.filter fun c => c ≠ '\n' ∧ c ≠ '\r')

/-! ## Round trip -/

theorem charSextet_sextetChar : ∀ n < 64, charSextet (sextetChar n) = some n := by
  decide

theorem sextetChar_ne : ∀ n < 64, sextetChar n ≠ '=' ∧ sextetChar n ≠ '\n' ∧
    sextetChar n ≠ '\r' ∧ sextetChar n ≠ ':' := by
  decide

/-- The characters an encoding can have. -/
def IsBase64Char (c : Char) : Prop :=
  c ≠ '\n' ∧ c ≠ '\r' ∧ c ≠ ':'

theorem isBase64Char_sextetChar {n : Nat} (h : n < 64) : IsBase64Char (sextetChar n) :=
  (sextetChar_ne n h).2

theorem encode_chars (bs : List UInt8) : ∀ c ∈ encode bs, IsBase64Char c := by
  have hpad : IsBase64Char '=' := by simp [IsBase64Char]
  have hs : ∀ {n}, n < 64 → IsBase64Char (sextetChar n) := isBase64Char_sextetChar
  fun_induction encode bs with
  | case1 => simp
  | case2 a =>
    have := a.toNat_lt
    simp only [List.forall_mem_cons, List.not_mem_nil, false_imp_iff, implies_true, and_true]
    exact ⟨hs (by omega), hs (by omega), hpad, hpad⟩
  | case3 a b =>
    have := a.toNat_lt
    have := b.toNat_lt
    simp only [List.forall_mem_cons, List.not_mem_nil, false_imp_iff, implies_true, and_true]
    exact ⟨hs (by omega), hs (by omega), hs (by omega), hpad⟩
  | case4 a b c rest ih =>
    have := a.toNat_lt
    have := b.toNat_lt
    have := c.toNat_lt
    simp only [List.forall_mem_cons]
    exact ⟨hs (by omega), hs (by omega), hs (by omega), hs (by omega), ih⟩

/-- The quadruple step on characters of the alphabet. -/
theorem decodeQuads_sextets {x y z w : Nat} (hx : x < 64) (hy : y < 64) (hz : z < 64)
    (hw : w < 64) (rest : List Char) :
    decodeQuads (sextetChar x :: sextetChar y :: sextetChar z :: sextetChar w :: rest) =
      (decodeQuads rest).map fun tail =>
        UInt8.ofNat (x * 4 + y / 16) :: UInt8.ofNat (y % 16 * 16 + z / 4) ::
          UInt8.ofNat (z % 4 * 64 + w) :: tail := by
  have hz' := (sextetChar_ne z hz).1
  have hw' := (sextetChar_ne w hw).1
  rw [decodeQuads.eq_4 _ _ _ _ _ (by simp [hz']) (by simp [hw'])]
  simp only [charSextet_sextetChar x hx, charSextet_sextetChar y hy, charSextet_sextetChar z hz,
    charSextet_sextetChar w hw, Option.bind_eq_bind, Option.bind_some]
  cases decodeQuads rest <;> rfl

theorem ofNat_of_eq {a : UInt8} {n : Nat} (h : n = a.toNat) : UInt8.ofNat n = a := by
  rw [h]
  exact UInt8.ofNat_toNat

theorem decodeQuads_encode (bs : List UInt8) : decodeQuads (encode bs) = some bs := by
  fun_induction encode bs with
  | case1 => rfl
  | case2 a =>
    have := a.toNat_lt
    have h1 := charSextet_sextetChar (a.toNat / 4) (by omega)
    have h2 := charSextet_sextetChar (a.toNat % 4 * 16) (by omega)
    simp only [decodeQuads, h1, h2, Option.bind_eq_bind, Option.bind_some]
    rw [ofNat_of_eq (show a.toNat / 4 * 4 + a.toNat % 4 * 16 / 16 = a.toNat by omega)]
    rfl
  | case3 a b =>
    have := a.toNat_lt
    have := b.toNat_lt
    have h1 := charSextet_sextetChar (a.toNat / 4) (by omega)
    have h2 := charSextet_sextetChar (a.toNat % 4 * 16 + b.toNat / 16) (by omega)
    have h3 := charSextet_sextetChar (b.toNat % 16 * 4) (by omega)
    have h3' := (sextetChar_ne (b.toNat % 16 * 4) (by omega)).1
    rw [decodeQuads.eq_3 _ _ _ (by simp [h3'])]
    simp only [h1, h2, h3, Option.bind_eq_bind, Option.bind_some]
    rw [ofNat_of_eq (show a.toNat / 4 * 4 + (a.toNat % 4 * 16 + b.toNat / 16) / 16 = a.toNat by
        omega),
      ofNat_of_eq (show (a.toNat % 4 * 16 + b.toNat / 16) % 16 * 16 + b.toNat % 16 * 4 / 4 =
        b.toNat by omega)]
    rfl
  | case4 a b c rest ih =>
    have := a.toNat_lt
    have := b.toNat_lt
    have := c.toNat_lt
    rw [decodeQuads_sextets (by omega) (by omega) (by omega) (by omega), ih, Option.map_some,
      ofNat_of_eq (show a.toNat / 4 * 4 + (a.toNat % 4 * 16 + b.toNat / 16) / 16 = a.toNat by
        omega),
      ofNat_of_eq (show (a.toNat % 4 * 16 + b.toNat / 16) % 16 * 16 +
        (b.toNat % 16 * 4 + c.toNat / 64) / 4 = b.toNat by omega),
      ofNat_of_eq (show (b.toNat % 16 * 4 + c.toNat / 64) % 4 * 64 + c.toNat % 64 = c.toNat by
        omega)]

/-- **What was encoded decodes to itself.** -/
theorem decode_encode (bs : List UInt8) : decode (encode bs) = some bs := by
  have hkeep : (encode bs).filter (fun c => c ≠ '\n' ∧ c ≠ '\r') = encode bs := by
    rw [List.filter_eq_self]
    intro c hc
    have := encode_chars bs c hc
    simp [this.1, this.2.1]
  rw [decode, hkeep, decodeQuads_encode]

theorem encode_injective : Function.Injective encode := by
  intro a b h
  have := congrArg decode h
  rwa [decode_encode, decode_encode, Option.some.injEq] at this

end Scintx.Lib.Base64
