import Mathlib.Data.List.TakeWhile

namespace LogosPluginQt
set_option autoImplicit true

/-- The character tables of Qt. A `QChar` is a unit of UTF-16, and half of a surrogate pair is
no letter. -/
structure QtChars where
  isLetterOrNumber : Char → Bool
  toUpper : Char → Char
  toLower : Char → Char
  surrogates : ∀ c, 0x10000 ≤ c.toNat → isLetterOrNumber c = false
  ascii : ∀ c, c.toNat < 128 →
    isLetterOrNumber c = c.isAlphanum ∧ toUpper c = c.toUpper ∧ toLower c = c.toLower

/-- What the loop of `lidlToPascalCase` appends for the characters that are left. -/
def pascalLoop (q : QtChars) (cap : Bool) : List Char → List Char
  | [] => []
  | c :: name =>
    if q.isLetterOrNumber c = false then pascalLoop q true name
    else if cap then q.toUpper c :: pascalLoop q false name
    else q.toLower c :: pascalLoop q false name

def lidlToPascalCase (q : QtChars) (name : String) : String :=
  match pascalLoop q true name.toList with
  | [] => "Module"
  | out => String.ofList out

def providerClass (q : QtChars) (name : String) : String :=
  lidlToPascalCase q name ++ "CdylibProvider"

def pluginClass (q : QtChars) (name : String) : String :=
  lidlToPascalCase q name ++ "CdylibPlugin"

def IdentifierChar (c : Char) : Prop := c.isAlphanum = true ∨ c = '_'

instance (c : Char) : Decidable (IdentifierChar c) := inferInstanceAs (Decidable (_ ∨ _))

/-- A word of letters, digits and underscores that does not start with a digit. -/
def Identifier (word : List Char) : Prop :=
  (∃ c ∈ word.head?, c.isDigit = false) ∧ ∀ c ∈ word, IdentifierChar c

instance (word : List Char) : Decidable (Identifier word) :=
  @instDecidableAnd _ _ (Option.decidableExistsMem _) (List.decidableBAll _ _)

/-- After its leading underscores the name goes on with a letter, or ends. -/
def LetterFirst (name : List Char) : Prop :=
  ∀ c ∈ (name.dropWhile (· = '_')).head?, c.isAlpha = true

instance (name : List Char) : Decidable (LetterFirst name) := Option.decidableForallMem _

/-- The class names emitted for a module are made of a word that is letters and digits. -/
structure ValidClassNames (q : QtChars) (name : String) : Prop where
  alphanumeric : ∀ c ∈ (lidlToPascalCase q name).toList, c.isAlphanum = true
  letter : ∃ c ∈ (lidlToPascalCase q name).toList.head?, c.isAlpha = true
  provider : Identifier (providerClass q name).toList
  plugin : Identifier (pluginClass q name).toList

section
variable {c : Char}

theorem ascii_forall {P : Char → Prop} (h : ∀ n < 128, P (Char.ofNat n)) (hc : c.toNat < 128) :
    P c := by
  rw [← Char.ofNat_toNat c]
  exact h c.toNat hc

theorem IdentifierChar.ascii (h : IdentifierChar c) : c.toNat < 128 := by
  rcases h with h | rfl
  · have hranges : ((decide ('A'.val ≤ c.val ∧ c.val ≤ 'Z'.val) ||
        decide ('a'.val ≤ c.val) && decide (c.val ≤ 'z'.val)) || c.isDigit) = true := h
    rw [Bool.or_eq_true, Bool.or_eq_true, Bool.and_eq_true, decide_eq_true_iff,
      decide_eq_true_iff, decide_eq_true_iff, Char.isDigit_iff_toNat] at hranges
    rcases hranges with (⟨_, hZ⟩ | ⟨_, hz⟩) | ⟨_, hnine⟩
    · exact Nat.lt_of_le_of_lt (UInt32.le_iff_toNat_le.1 hZ) (by decide)
    · exact Nat.lt_of_le_of_lt (UInt32.le_iff_toNat_le.1 hz) (by decide)
    · exact Nat.lt_of_le_of_lt hnine (by decide)
  · decide

theorem isAlpha_toUpper (hc : c.toNat < 128) : c.toUpper.isAlpha = c.isAlpha :=
  ascii_forall (P := fun c => c.toUpper.isAlpha = c.isAlpha) (by decide +kernel) hc

theorem isDigit_toUpper (hc : c.toNat < 128) : c.toUpper.isDigit = c.isDigit :=
  ascii_forall (P := fun c => c.toUpper.isDigit = c.isDigit) (by decide +kernel) hc

theorem isAlphanum_toLower (hc : c.toNat < 128) : c.toLower.isAlphanum = c.isAlphanum :=
  ascii_forall (P := fun c => c.toLower.isAlphanum = c.isAlphanum) (by decide +kernel) hc

theorem isAlphanum_toUpper (hc : c.toNat < 128) : c.toUpper.isAlphanum = c.isAlphanum := by
  simp only [Char.isAlphanum, isAlpha_toUpper hc, isDigit_toUpper hc]

theorem isDigit_of_isAlpha (hc : c.toNat < 128) : c.isAlpha = true → c.isDigit = false :=
  ascii_forall (P := fun c => c.isAlpha = true → c.isDigit = false) (by decide +kernel) hc

end

section
variable {q : QtChars} {cap : Bool} {c : Char} {name : List Char}

theorem pascalLoop_underscore : pascalLoop q cap ('_' :: name) = pascalLoop q true name := by
  have hsep : q.isLetterOrNumber '_' = false := (q.ascii '_' (by decide)).1
  rw [pascalLoop, if_pos hsep]

theorem pascalLoop_alphanum (hc : c.isAlphanum = true) : pascalLoop q cap (c :: name) =
    (if cap then c.toUpper else c.toLower) :: pascalLoop q false name := by
  obtain ⟨hletter, hupper, hlower⟩ := q.ascii c (IdentifierChar.ascii (.inl hc))
  have hkept : ¬ q.isLetterOrNumber c = false := by rw [hletter, hc]; decide
  rw [pascalLoop, if_neg hkept, hupper, hlower]
  split <;> rfl

theorem pascalLoop_alphanumeric (hname : ∀ c ∈ name, IdentifierChar c) :
    ∀ c ∈ pascalLoop q cap name, c.isAlphanum = true := by
  induction name generalizing cap with
  | nil => nofun
  | cons c name ih =>
    have hrest (cap : Bool) : ∀ c' ∈ pascalLoop q cap name, c'.isAlphanum = true :=
      ih fun c' hc' => hname c' (List.mem_cons_of_mem _ hc')
    rcases hname c (List.mem_cons_self ..) with hc | rfl
    · have hascii := IdentifierChar.ascii (.inl hc)
      have hcased : (if cap then c.toUpper else c.toLower).isAlphanum = true := by
        cases cap with
        | true => exact (isAlphanum_toUpper hascii).trans hc
        | false => exact (isAlphanum_toLower hascii).trans hc
      rw [pascalLoop_alphanum hc]
      intro c' hc'
      obtain rfl | hmem := List.mem_cons.1 hc'
      · exact hcased
      · exact hrest false c' hmem
    · rw [pascalLoop_underscore]
      exact hrest true

theorem pascalLoop_head (hname : ∀ c ∈ name, IdentifierChar c) :
    (pascalLoop q true name).head? = (name.dropWhile (· = '_')).head?.map Char.toUpper := by
  induction name with
  | nil => rfl
  | cons c name ih =>
    rcases hname c (List.mem_cons_self ..) with hc | rfl
    · have hne : ¬ c = '_' := by
        rintro rfl
        cases hc
      rw [pascalLoop_alphanum hc, List.dropWhile_cons_of_neg (by simpa using hne)]
      rfl
    · rw [pascalLoop_underscore, List.dropWhile_cons_of_pos (by simp)]
      exact ih fun c' hc' => hname c' (List.mem_cons_of_mem _ hc')

end

theorem Identifier.append {word suffix : List Char} (hword : ∀ c ∈ word, c.isAlphanum = true)
    (hletter : ∃ c ∈ word.head?, c.isAlpha = true) (hsuffix : Identifier suffix) :
    Identifier (word ++ suffix) := by
  obtain ⟨c, hc, halpha⟩ := hletter
  have hascii := IdentifierChar.ascii (.inl (hword c (List.mem_of_head? hc)))
  have hhead : (word ++ suffix).head? = some c := by
    rw [List.head?_append, hc]
    rfl
  refine ⟨⟨c, hhead, isDigit_of_isAlpha hascii halpha⟩, fun c' hc' => ?_⟩
  obtain hmem | hmem := List.mem_append.1 hc'
  · exact .inl (hword c' hmem)
  · exact hsuffix.2 c' hmem

section
variable {q : QtChars} {name : String}

theorem classNames_of_word
    (hword : ∀ c ∈ (lidlToPascalCase q name).toList, c.isAlphanum = true)
    (hletter : ∃ c ∈ (lidlToPascalCase q name).toList.head?, c.isAlpha = true) :
    ValidClassNames q name := by
  refine ⟨hword, hletter, ?_, ?_⟩
  · rw [providerClass, String.toList_append]
    exact .append hword hletter (by decide +kernel)
  · rw [pluginClass, String.toList_append]
    exact .append hword hletter (by decide +kernel)

theorem classNames_of_empty (h : pascalLoop q true name.toList = []) : ValidClassNames q name := by
  have hmodule : lidlToPascalCase q name = "Module" := by rw [lidlToPascalCase, h]
  apply classNames_of_word
  · rw [hmodule]
    exact List.all_eq_true.1 (by decide +kernel)
  · rw [hmodule]
    exact ⟨'M', by decide +kernel, by decide⟩

theorem lidlToPascalCase_toList (h : pascalLoop q true name.toList ≠ []) :
    (lidlToPascalCase q name).toList = pascalLoop q true name.toList := by
  unfold lidlToPascalCase
  split
  next hnil => exact absurd hnil h
  next => exact String.toList_ofList

end

/-- The class names of a module are identifiers exactly where no digit comes first after the
underscores its name begins with. -/
theorem classNames_valid_iff (q : QtChars) (name : String) (hname : Identifier name.toList) :
    ValidClassNames q name ↔ LetterFirst name.toList := by
  have hhead := pascalLoop_head (q := q) hname.2
  have hletter {c : Char} (hc : c ∈ (name.toList.dropWhile (· = '_')).head?) :
      c.toUpper.isAlpha = c.isAlpha := by
    have hmem := (List.dropWhile_sublist _).subset (List.mem_of_head? hc)
    exact isAlpha_toUpper (hname.2 c hmem).ascii
  by_cases hout : pascalLoop q true name.toList = []
  · rw [hout] at hhead
    have hnone := Option.map_eq_none_iff.1 hhead.symm
    apply iff_of_true (classNames_of_empty hout)
    intro c hc
    rw [hnone] at hc
    cases hc
  · have hresult := lidlToPascalCase_toList hout
    constructor
    · intro h c hc
      obtain ⟨first, hfirst, halpha⟩ := h.letter
      rw [hresult, hhead, hc] at hfirst
      obtain rfl := Option.some.inj hfirst
      rw [← hletter hc]
      exact halpha
    · intro h
      obtain ⟨first, rest, hcons⟩ := List.exists_cons_of_ne_nil hout
      have hfirst : (pascalLoop q true name.toList).head? = some first := by rw [hcons]; rfl
      obtain ⟨c, hc, rfl⟩ := Option.map_eq_some_iff.1 (hhead.symm.trans hfirst)
      apply classNames_of_word
      · rw [hresult]
        exact pascalLoop_alphanumeric hname.2
      · rw [hresult]
        exact ⟨c.toUpper, hfirst, (hletter hc).trans (h c hc)⟩

def QtChars.asciiOnly : QtChars where
  isLetterOrNumber := Char.isAlphanum
  toUpper := Char.toUpper
  toLower := Char.toLower
  surrogates c hc := by
    rw [← Bool.not_eq_true]
    intro h
    have hascii := IdentifierChar.ascii (.inl h)
    omega
  ascii _ _ := ⟨rfl, rfl, rfl⟩

theorem classNames_valid_probe : ValidClassNames .asciiOnly "glue_probe" :=
  (classNames_valid_iff .asciiOnly "glue_probe" (by decide +kernel)).2 (by decide +kernel)

/-- The classes of a module named `_1` are `1CdylibProvider` and `1CdylibPlugin`. -/
theorem classNames_digit : Identifier "_1".toList ∧ ¬ ValidClassNames .asciiOnly "_1" := by
  refine ⟨by decide +kernel, fun h => ?_⟩
  have hprovider : ¬ Identifier (providerClass .asciiOnly "_1").toList := by decide +kernel
  exact hprovider h.provider

end LogosPluginQt
