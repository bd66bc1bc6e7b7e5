namespace Roadmap.Text

/-- The code points with the property `White_Space`, as inclusive ranges. -/
def blankRanges : List (Nat × Nat) :=
  [(0x9, 0xD), (0x20, 0x20), (0x85, 0x85), (0xA0, 0xA0), (0x1680, 0x1680), (0x2000, 0x200A),
   (0x2028, 0x2029), (0x202F, 0x202F), (0x205F, 0x205F), (0x3000, 0x3000)]

def isBlank (c : Char) : Bool :=
  blankRanges.any fun (first, last) => first ≤ c.toNat && c.toNat ≤ last

example : (blankRanges.map fun (first, last) => last - first + 1).sum = 25 := by decide

theorem isBlank_newline : isBlank '\n' = true := by decide

theorem isBlank_space : isBlank ' ' = true := by decide

def trimStart (text : List Char) : List Char := text.dropWhile isBlank

def trimEnd : List Char → List Char
  | [] => []
  | c :: rest =>
    match trimEnd rest with
    | [] => if isBlank c then [] else [c]
    | d :: kept => c :: d :: kept

def trim (text : List Char) : List Char := trimEnd (trimStart text)

def Trimmed (text : List Char) : Prop :=
  (∀ c ∈ text.head?, isBlank c = false) ∧ (∀ c ∈ text.getLast?, isBlank c = false)

@[simp] theorem trim_nil : trim [] = [] := rfl

theorem head?_trimStart (text : List Char) : ∀ c ∈ (trimStart text).head?, isBlank c = false := by
  intro c first
  have stop := List.head?_dropWhile_not isBlank text
  simp only [trimStart, Option.mem_def] at first
  simpa [first] using stop

theorem trimEnd_eq_nil_iff {text : List Char} :
    trimEnd text = [] ↔ ∀ c ∈ text, isBlank c = true := by
  induction text with
  | nil => simp [trimEnd]
  | cons c rest ih =>
    simp only [trimEnd, List.mem_cons, forall_eq_or_imp]
    split
    · next same => rw [ih] at same; split <;> simp_all
    · next d kept same =>
      have other : ¬ ∀ c ∈ rest, isBlank c = true := fun all => by simp [ih.2 all] at same
      simp [other]

theorem trimEnd_cons_of_ne_nil {c : Char} {rest : List Char} (kept : trimEnd rest ≠ []) :
    trimEnd (c :: rest) = c :: trimEnd rest := by
  simp only [trimEnd]
  split
  · next same => exact absurd same kept
  · next d kept same => rw [same]

theorem getLast?_trimEnd (text : List Char) : ∀ c ∈ (trimEnd text).getLast?, isBlank c = false := by
  induction text with
  | nil => simp [trimEnd]
  | cons d rest ih =>
    by_cases none : trimEnd rest = []
    · simp only [trimEnd, none]
      split <;> simp_all
    · rw [trimEnd_cons_of_ne_nil none]
      intro c last
      rw [List.getLast?_cons_of_ne_nil none] at last
      exact ih c last

theorem trimEnd_eq_self {text : List Char} (last : ∀ c ∈ text.getLast?, isBlank c = false) :
    trimEnd text = text := by
  induction text with
  | nil => rfl
  | cons c rest ih =>
    cases rest with
    | nil => simp_all [trimEnd]
    | cons d more =>
      have kept : trimEnd (d :: more) = d :: more :=
        ih (by simpa [List.getLast?_cons_cons] using last)
      rw [trimEnd_cons_of_ne_nil (by simp [kept]), kept]

theorem trimStart_eq_self {text : List Char} (first : ∀ c ∈ text.head?, isBlank c = false) :
    trimStart text = text := by
  cases text with
  | nil => rfl
  | cons c rest => simp [trimStart, first c rfl]

theorem head?_trimEnd {text : List Char} (kept : trimEnd text ≠ []) :
    (trimEnd text).head? = text.head? := by
  cases text with
  | nil => rfl
  | cons c rest =>
    by_cases none : trimEnd rest = []
    · simp only [trimEnd, none] at kept ⊢
      split <;> simp_all
    · rw [trimEnd_cons_of_ne_nil none]; rfl

theorem trimmed_trim (text : List Char) : Trimmed (trim text) := by
  refine ⟨?_, getLast?_trimEnd _⟩
  by_cases none : trim text = []
  · simp [none]
  · intro c first
    rw [trim, head?_trimEnd none] at first
    exact head?_trimStart text c first

theorem trim_eq_self {text : List Char} (trimmed : Trimmed text) : trim text = text := by
  rw [trim, trimStart_eq_self trimmed.1, trimEnd_eq_self trimmed.2]

@[simp] theorem trim_trim (text : List Char) : trim (trim text) = trim text :=
  trim_eq_self (trimmed_trim text)

end Roadmap.Text
