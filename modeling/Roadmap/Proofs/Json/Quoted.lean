import Mathlib.Data.List.Basic
import Roadmap.Json.Quoted

namespace Roadmap.Json

def Spells (unit : Unit16) (c : Char) : Prop :=
  ∀ units, spell? (unit :: units) = (spell? units).map (c :: ·)

def TakenAs (text : List Char) (unit : Unit16) : Prop :=
  ∀ rest, takeUnits? (text ++ rest) =
    (takeUnits? rest).map fun (units, rest) => (unit :: units, rest)

theorem spells_plain (c : Char) : Spells (.plain c) c := fun _ => rfl

theorem spells_code {n : Nat} (small : n < 0xD800) : Spells (.code n) (Char.ofNat n) := by
  have high : isHighSurrogate n = false := by
    simp only [isHighSurrogate, Bool.and_eq_false_iff, decide_eq_false_iff_not]
    omega
  have low : isLowSurrogate n = false := by
    simp only [isLowSurrogate, Bool.and_eq_false_iff, decide_eq_false_iff_not]
    omega
  intro units
  rcases units with _ | ⟨_ | _, units⟩
  all_goals simp [spell?, high, low]

theorem hexNumber?_pair : ∀ n < 0x20,
    hexNumber? ['0', '0', hexDigit (n / 16), hexDigit n] = some n := by
  decide

theorem takenAs_code {n : Nat} (control : n < 0x20) :
    TakenAs ("\\u00".toList ++ [hexDigit (n / 16), hexDigit n]) (.code n) := by
  intro rest
  have read := hexNumber?_pair n control
  simp only [String.reduceToList, List.cons_append, List.nil_append, takeUnits?, read]
  cases takeUnits? rest with
  | none => rfl
  | some taken => rfl

theorem takenAs_short {e c : Char} (short : shortEscape? e = some c) (other : e ≠ 'u') :
    TakenAs ['\\', e] (.plain c) := by
  intro rest
  rw [List.cons_append, List.singleton_append, takeUnits?, short]
  · cases takeUnits? rest with
    | none => rfl
    | some taken => rfl
  · exact fun _ _ _ _ _ same => absurd same other

theorem takenAs_self {c : Char} (quote : c ≠ '"') (backslash : c ≠ '\\')
    (control : ¬ c.toNat < 0x20) : TakenAs [c] (.plain c) := by
  intro rest
  rw [List.singleton_append, takeUnits?, if_neg (by simp [backslash, control])]
  · exact quote
  · exact fun _ _ _ _ _ same => absurd same backslash
  · exact fun _ _ same => absurd same backslash

theorem takenAs_escape (c : Char) : ∃ unit, TakenAs (escape c) unit ∧ Spells unit c := by
  unfold escape
  split_ifs with quote backslash backspace feed newline carriage tab control
  · exact ⟨.plain c, quote ▸ takenAs_short rfl (by decide), spells_plain c⟩
  · exact ⟨.plain c, backslash ▸ takenAs_short rfl (by decide), spells_plain c⟩
  · exact ⟨.plain c, backspace ▸ takenAs_short rfl (by decide), spells_plain c⟩
  · exact ⟨.plain c, feed ▸ takenAs_short rfl (by decide), spells_plain c⟩
  · exact ⟨.plain c, newline ▸ takenAs_short rfl (by decide), spells_plain c⟩
  · exact ⟨.plain c, carriage ▸ takenAs_short rfl (by decide), spells_plain c⟩
  · exact ⟨.plain c, tab ▸ takenAs_short rfl (by decide), spells_plain c⟩
  · have spells := spells_code (n := c.toNat) (by omega)
    rw [Char.ofNat_toNat] at spells
    exact ⟨.code c.toNat, takenAs_code control, spells⟩
  · exact ⟨.plain c, takenAs_self quote backslash control, spells_plain c⟩

theorem takeUnits?_flatMap_escape (text rest : List Char) :
    ∃ units, takeUnits? (text.flatMap escape ++ '"' :: rest) = some (units, rest) ∧
      spell? units = some text := by
  induction text with
  | nil => exact ⟨[], by simp [takeUnits?], rfl⟩
  | cons c text ih =>
    obtain ⟨units, taken, spelled⟩ := ih
    obtain ⟨unit, first, spells⟩ := takenAs_escape c
    refine ⟨unit :: units, ?_, ?_⟩
    · rw [List.flatMap_cons, List.append_assoc, first, taken]
      rfl
    · rw [spells, spelled]
      rfl

theorem takeString?_quote (text : String) (rest : List Char) :
    takeString? (text.toList.flatMap escape ++ '"' :: rest) = some (some text, rest) := by
  obtain ⟨units, taken, spelled⟩ := takeUnits?_flatMap_escape text.toList rest
  simp [takeString?, taken, spelled]

end Roadmap.Json
