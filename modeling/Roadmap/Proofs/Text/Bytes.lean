import Mathlib.Algebra.Group.Nat.Defs
import Mathlib.Data.List.Basic

namespace Roadmap.Text

def bytes (text : String) : List UInt8 := text.toUTF8.data.toList

theorem bytes_eq (text : String) : bytes text = text.toList.flatMap String.utf8EncodeChar := by
  have whole : text.toByteArray = text.toList.utf8Encode := by
    rw [← String.toByteArray_ofList, String.ofList_toList]
  rw [bytes, String.toUTF8_eq_toByteArray, whole, List.utf8Encode, List.data_toByteArray]

def trail : Nat → Nat → List UInt8
  | 0, _ => []
  | n + 1, code => trail n (code / 64) ++ [UInt8.ofNat (code % 64 + 128)]

def mark : Nat → Nat
  | 0 => 0
  | 1 => 0xc0
  | 2 => 0xe0
  | 3 => 0xf0
  | _ => 0xf8

def leastCode : Nat → Nat
  | 0 => 0
  | 1 => 0x80
  | 2 => 0x800
  | 3 => 0x10000
  | _ => 0x110000

theorem mark_le_and_leastCode_le :
    ∀ m ≤ 3, ∀ n ≤ 3, m < n → mark (m + 1) ≤ mark n ∧ leastCode (m + 1) ≤ leastCode n := by
  decide

theorem mark_lt : ∀ n ≤ 4, mark n < 256 := by decide

def lead (n : Nat) (c : Char) : Nat := mark n + c.toNat / 64 ^ n

theorem exists_trail (c : Char) :
    ∃ n ≤ 3, String.utf8EncodeChar c = UInt8.ofNat (lead n c) :: trail n c.toNat ∧
      lead n c < mark (n + 1) ∧ leastCode n ≤ c.toNat ∧ c.toNat < leastCode (n + 1) := by
  have valid : c.toNat < 0x110000 := by
    have scalar := c.valid
    simp only [UInt32.isValidChar, Nat.isValidChar] at scalar
    simp only [Char.toNat]
    omega
  simp only [String.utf8EncodeChar, lead, Char.toNat] at valid ⊢
  generalize c.val.toNat = code at valid ⊢
  -- In each range the first byte holds all bits that are left, so masking takes nothing off.
  split_ifs with one two three
  · have first : code = mark 0 + code / 64 ^ 0 := by simp only [mark]; omega
    refine ⟨0, by omega, by rw [← first]; rfl, ?_, code.zero_le, Nat.lt_succ_of_le one⟩
    simp only [mark]
    omega
  · have first : code / 64 % 0x20 + 0xc0 = mark 1 + code / 64 ^ 1 := by simp only [mark]; omega
    rw [first]
    refine ⟨1, by omega, rfl, ?_, Nat.lt_of_not_le one, Nat.lt_succ_of_le two⟩
    simp only [mark]
    omega
  · have first : code / 4096 % 0x10 + 0xe0 = mark 2 + code / 64 ^ 2 := by simp only [mark]; omega
    rw [first]
    refine ⟨2, by omega, rfl, ?_, Nat.lt_of_not_le two, Nat.lt_succ_of_le three⟩
    simp only [mark]
    omega
  · have first : code / 262144 % 0x08 + 0xf0 = mark 3 + code / 64 ^ 3 := by simp only [mark]; omega
    have second : code / 4096 = code / 64 / 64 := by omega
    rw [first, second]
    refine ⟨3, by omega, rfl, ?_, Nat.lt_of_not_le three, valid⟩
    simp only [mark]
    omega

theorem ofNat_lt_ofNat {a b : Nat} (less : a < b) (byte : b < 256) : UInt8.ofNat a < UInt8.ofNat b := by
  rw [UInt8.lt_iff_toNat_lt, UInt8.toNat_ofNat', UInt8.toNat_ofNat']
  omega

theorem append_lt_append (front : List UInt8) {a b : List UInt8} (less : a < b) :
    front ++ a < front ++ b := by
  induction front with
  | nil => exact less
  | cons byte front ih => exact List.cons_lt_cons_iff.2 (.inr ⟨rfl, ih⟩)

theorem trail_lt_trail (n : Nat) {a b : Nat} (less : a < b) :
    a / 64 ^ n < b / 64 ^ n ∨
      a / 64 ^ n = b / 64 ^ n ∧ ∀ x y, trail n a ++ x < trail n b ++ y := by
  induction n generalizing a b with
  | zero => exact .inl (by simpa using less)
  | succ n ih =>
    simp only [Nat.pow_succ', ← Nat.div_div_eq_div_mul, trail, List.append_assoc]
    have digits : a / 64 < b / 64 ∨ a / 64 = b / 64 ∧ a % 64 < b % 64 := by omega
    rcases digits with higher | ⟨same, last⟩
    · rcases ih higher with first | ⟨first, later⟩
      · exact .inl first
      · exact .inr ⟨first, fun x y => later _ _⟩
    · rw [same]
      refine .inr ⟨rfl, fun x y => append_lt_append _ (List.cons_lt_cons_iff.2 (.inl ?_))⟩
      exact ofNat_lt_ofNat (by omega) (by omega)

/-- No character's bytes begin another's, so what follows them does not matter. -/
theorem utf8EncodeChar_lt {c d : Char} (less : c < d) (x y : List UInt8) :
    String.utf8EncodeChar c ++ x < String.utf8EncodeChar d ++ y := by
  obtain ⟨m, few, bytes, within, lower, upper⟩ := exists_trail c
  obtain ⟨n, few', bytes', within', lower', upper'⟩ := exists_trail d
  have codes : c.toNat < d.toNat := less
  have byte : lead n d < 256 := Nat.lt_trans within' (mark_lt (n + 1) (by omega))
  rw [bytes, bytes', List.cons_append, List.cons_append, List.cons_lt_cons_iff]
  rcases Nat.lt_trichotomy m n with fewer | rfl | more
  · have apart := (mark_le_and_leastCode_le m few n few' fewer).1
    refine .inl (ofNat_lt_ofNat ?_ byte)
    exact Nat.lt_of_lt_of_le within (Nat.le_trans apart (Nat.le_add_right _ _))
  · rcases trail_lt_trail m codes with higher | ⟨same, later⟩
    · exact .inl (ofNat_lt_ofNat (Nat.add_lt_add_left higher _) byte)
    · exact .inr ⟨by rw [lead, lead, same], later x y⟩
  · have apart := (mark_le_and_leastCode_le n few' m few more).2
    omega

theorem bytes_lt_bytes {a b : String} (less : a < b) : bytes a < bytes b := by
  rw [bytes_eq, bytes_eq]
  have chars : a.toList < b.toList := less
  generalize a.toList = front, b.toList = back at chars
  induction chars with
  | nil =>
    obtain ⟨_, -, first, -⟩ := exists_trail _
    rw [List.flatMap_nil, List.flatMap_cons, first]
    exact List.nil_lt_cons _ _
  | cons _ ih => exact append_lt_append _ ih
  | rel less => exact utf8EncodeChar_lt less _ _

end Roadmap.Text
