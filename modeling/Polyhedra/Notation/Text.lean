/-!
# Text and byte offsets

A notation is handled character by character, while positions inside it are
counted in bytes of its UTF-8 encoding, so that they fit the file or the
terminal line the notation came from. This module holds the measure
(`Text.byteLength`), the cuts at a byte offset, which exist only on a character
boundary (`Text.takeBytes?`, `Text.dropBytes?`), and the reading and writing of
decimal digit runs.
-/

namespace Polyhedra

/-- A notation, or any piece of one, as its characters in order. -/
abbrev Text := List Char

namespace Text

/-! ## Byte offsets -/

/-- The number of bytes of the UTF-8 encoding. -/
def byteLength : Text → Nat
  | [] => 0
  | c :: t => c.utf8Size + byteLength t

/-- The text before byte offset `n`, if `n` is a character boundary. -/
def takeBytes? : Text → Nat → Option Text
  | _, 0 => some []
  | [], _ + 1 => none
  | c :: t, n + 1 =>
    if c.utf8Size ≤ n + 1 then (takeBytes? t (n + 1 - c.utf8Size)).map (c :: ·)
    else none

/-- The text from byte offset `n` on, if `n` is a character boundary. -/
def dropBytes? : Text → Nat → Option Text
  | t, 0 => some t
  | [], _ + 1 => none
  | c :: t, n + 1 =>
    if c.utf8Size ≤ n + 1 then dropBytes? t (n + 1 - c.utf8Size) else none

theorem byteLength_append (s t : Text) :
    byteLength (s ++ t) = byteLength s + byteLength t := by
  induction s with
  | nil => simp [byteLength]
  | cons c s ih => simp [byteLength, ih, Nat.add_assoc]

/-- The end of a piece is always a boundary, and what lies before it is the piece. -/
theorem takeBytes?_byteLength (s t : Text) :
    takeBytes? (s ++ t) (byteLength s) = some s := by
  induction s with
  | nil => cases t <;> simp [byteLength, takeBytes?]
  | cons c s ih =>
    obtain ⟨k, hk⟩ : ∃ k, c.utf8Size + byteLength s = k + 1 :=
      ⟨c.utf8Size + byteLength s - 1, by have := c.utf8Size_pos; omega⟩
    have hle : c.utf8Size ≤ k + 1 := by omega
    have hrest : k + 1 - c.utf8Size = byteLength s := by omega
    simp [byteLength, takeBytes?, hk, hle, hrest, ih]

/-- The end of a piece is always a boundary, and what lies after it is the rest. -/
theorem dropBytes?_byteLength (s t : Text) :
    dropBytes? (s ++ t) (byteLength s) = some t := by
  induction s with
  | nil => cases t <;> simp [byteLength, dropBytes?]
  | cons c s ih =>
    obtain ⟨k, hk⟩ : ∃ k, c.utf8Size + byteLength s = k + 1 :=
      ⟨c.utf8Size + byteLength s - 1, by have := c.utf8Size_pos; omega⟩
    have hle : c.utf8Size ≤ k + 1 := by omega
    have hrest : k + 1 - c.utf8Size = byteLength s := by omega
    simp [byteLength, dropBytes?, hk, hle, hrest, ih]

/-! ## Decimal numbers -/

/-- The number a run of decimal digits stands for; leading zeros are allowed. -/
def value (digits : Text) : Nat :=
  digits.foldl (fun n c => 10 * n + (c.toNat - '0'.toNat)) 0

/-- A number in decimal, without leading zeros. -/
def ofNat (n : Nat) : Text := Nat.toDigits 10 n

end Text

end Polyhedra
