import Mathlib.Data.List.Basic

/-!
Java strings as their UTF-16 units, the code points they stand for, and the names of
XML 1.0 over code points.
-/

namespace Brooklyn

abbrev JavaString := List UInt16

namespace JavaString

def isHighSurrogate (unit : UInt16) : Bool := decide (0xD800 ≤ unit) && decide (unit < 0xDC00)

def isLowSurrogate (unit : UInt16) : Bool := decide (0xDC00 ≤ unit) && decide (unit < 0xE000)

/-- A surrogate without the other of its pair stands for itself. -/
def codePoints : JavaString → List Nat
  | [] => []
  | [unit] => [unit.toNat]
  | high :: low :: rest =>
      if isHighSurrogate high && isLowSurrogate low then
        (0x10000 + (high.toNat - 0xD800) * 0x400 + (low.toNat - 0xDC00)) :: codePoints rest
      else high.toNat :: codePoints (low :: rest)

theorem codePoints_of_units {text : JavaString} (plain : ∀ unit ∈ text, unit < 0xD800) :
    codePoints text = text.map UInt16.toNat := by
  induction text with
  | nil => rfl
  | cons high rest ih =>
    have rest_plain := ih fun unit member => plain unit (List.mem_cons_of_mem _ member)
    cases rest with
    | nil => rfl
    | cons low rest =>
      have below : isHighSurrogate high = false := by
        have small := plain high List.mem_cons_self
        rw [isHighSurrogate, Bool.and_eq_false_iff, decide_eq_false_iff_not]
        exact Or.inl (UInt16.not_le.mpr small)
      rw [codePoints, below, Bool.false_and, if_neg Bool.false_ne_true, rest_plain]
      rfl

/-- Of characters that are one unit each. -/
def ofChars (text : List Char) : JavaString := text.map fun c => UInt16.ofNat c.toNat

def toChars (text : JavaString) : List Char := text.map fun unit => Char.ofNat unit.toNat

theorem toChars_ofChars {text : List Char} (plain : ∀ c ∈ text, c.toNat < 0xD800) :
    toChars (ofChars text) = text := by
  unfold toChars ofChars
  rw [List.map_map]
  refine (List.map_congr_left fun c member => ?_).trans (List.map_id text)
  have small := plain c member
  have unit : (UInt16.ofNat c.toNat).toNat = c.toNat := UInt16.toNat_ofNat_of_lt' (by
    exact Nat.lt_trans small (by decide))
  rw [Function.comp_apply, unit, Char.ofNat_toNat]
  rfl

end JavaString

namespace XmlName

def nameStartRanges : List (Nat × Nat) :=
  [(0x3A, 0x3A), (0x41, 0x5A), (0x5F, 0x5F), (0x61, 0x7A), (0xC0, 0xD6), (0xD8, 0xF6),
   (0xF8, 0x2FF), (0x370, 0x37D), (0x37F, 0x1FFF), (0x200C, 0x200D), (0x2070, 0x218F),
   (0x2C00, 0x2FEF), (0x3001, 0xD7FF), (0xF900, 0xFDCF), (0xFDF0, 0xFFFD), (0x10000, 0xEFFFF)]

def nameRanges : List (Nat × Nat) :=
  nameStartRanges ++
    [(0x2D, 0x2E), (0x30, 0x39), (0xB7, 0xB7), (0x300, 0x36F), (0x203F, 0x2040)]

def inRanges (ranges : List (Nat × Nat)) (point : Nat) : Bool :=
  ranges.any fun range => decide (range.1 ≤ point) && decide (point ≤ range.2)

def isName : List Nat → Bool
  | [] => false
  | first :: rest => inRanges nameStartRanges first && rest.all (inRanges nameRanges)

end XmlName
end Brooklyn
