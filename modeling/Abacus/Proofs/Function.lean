import Mathlib.Data.List.Forall2
import Abacus.Function
import Abacus.Proofs.Double.Magnitude

/-!
# Functions — how they are named and where they have values

A function is found by its name in small and capital letters (`ofName?_eq_some_iff`), and no letter
beyond ASCII can stand for one of a name, whatever its lower case is (`ofName?_eq_some_iff_lowered`).
Where a function is defined, `Function.apply` is what the machine makes of it, and everywhere else it
is a refusal of its own.
-/

namespace Abacus

/-! ## Signs -/

/-- No magnitude but the first is without units. -/
theorem Magnitude.units_eq_zero_iff {i : Nat} : units i = 0 ↔ i = 0 :=
  units_strictMono.injective.eq_iff' units_zero

namespace Double

/-- How many units a finite value is, less than none if it is negative. -/
def units : Double → Int
  | .finite negative m => signedUnits negative m
  | .nan | .infinite _ => 0

/-- A finite value is above zero when its units are. -/
theorem isAboveZero_iff {x : Double} (h : x.isFinite = true) :
    x.isAboveZero = true ↔ 0 < x.units := by
  cases x with
  | nan => exact nomatch h
  | infinite negative => exact nomatch h
  | finite negative m =>
      have hzero := Magnitude.units_eq_zero_iff (i := m.index)
      cases negative with
      | false =>
          simp [isAboveZero, units, signedUnits]
          omega
      | true => simp [isAboveZero, units, signedUnits]

/-- A finite value is below zero when its units are. -/
theorem isBelowZero_iff {x : Double} (h : x.isFinite = true) :
    x.isBelowZero = true ↔ x.units < 0 := by
  cases x with
  | nan => exact nomatch h
  | infinite negative => exact nomatch h
  | finite negative m =>
      have hzero := Magnitude.units_eq_zero_iff (i := m.index)
      cases negative with
      | false => simp [isBelowZero, units, signedUnits]
      | true =>
          simp [isBelowZero, units, signedUnits]
          omega

end Double

/-! ## Names -/

namespace Function

/-- The text is the name of the function, each of its letters small or capital. -/
def IsNamed (f : Function) (text : String) : Prop :=
  List.Forall₂ (fun c letter => c = letter ∨ c = letter.toUpper) text.toList f.name.toList

/-- A small letter is the lower case of itself and of its capital, and of no other character. -/
theorem toLower_eq_iff {c letter : Char} (h : letter.isLower = true) :
    c.toLower = letter ↔ c = letter ∨ c = letter.toUpper := by
  unfold Char.isLower at h
  simp only [Bool.and_eq_true, decide_eq_true_eq, ge_iff_le, UInt32.le_iff_toNat_le] at h
  have hcapital : letter.toUpper.val = letter.val + ('A'.val - 'a'.val) := by
    unfold Char.toUpper
    rw [dif_pos (by simpa [UInt32.le_iff_toNat_le] using h)]
  simp only [Char.ext_iff, hcapital]
  unfold Char.toLower
  -- both cases are sums of codes that stay within thirty-two bits
  split
  · next hc =>
    simp only [ge_iff_le, UInt32.le_iff_toNat_le] at hc
    simp only [← UInt32.toNat_inj, UInt32.toNat_add, UInt32.toNat_sub]
    simp at *
    omega
  · next hc =>
    simp only [ge_iff_le, UInt32.le_iff_toNat_le] at hc
    simp only [← UInt32.toNat_inj, UInt32.toNat_add, UInt32.toNat_sub]
    simp at *
    omega

/-- A text is a name in lower case when its letters are those of the name, small or capital. -/
theorem map_toLower_eq_iff {text name : List Char} (h : ∀ letter ∈ name, letter.isLower = true) :
    text.map Char.toLower = name ↔
      List.Forall₂ (fun c letter => c = letter ∨ c = letter.toUpper) text name := by
  induction text generalizing name with
  | nil => cases name <;> simp
  | cons c rest ih =>
      cases name with
      | nil => simp
      | cons letter name =>
          obtain ⟨hletter, hname⟩ := List.forall_mem_cons.mp h
          rw [List.map_cons, List.cons.injEq, List.forall₂_cons, toLower_eq_iff hletter, ih hname]

/-- A text in lower case is looked up among the names. -/
theorem ofName?_eq_some_iff_map {text : String} {f : Function} :
    ofName? text = some f ↔ text.toList.map Char.toLower = f.name.toList := by
  constructor
  · intro h
    have hfound := List.find?_some h
    exact (beq_iff_eq.mp hfound).symm
  · intro h
    rw [ofName?, h]
    cases f <;> decide

/-- **A function is found by its name, in small and capital letters.** -/
theorem ofName?_eq_some_iff {text : String} {f : Function} :
    ofName? text = some f ↔ f.IsNamed text := by
  have hsmall : ∀ letter ∈ f.name.toList, letter.isLower = true := by
    cases f <;> exact List.all_eq_true.mp rfl
  rw [ofName?_eq_some_iff_map, map_toLower_eq_iff hsmall, IsNamed]

/-- There are only letters in a name. -/
theorem IsNamed.isAlpha_of_mem {f : Function} {text : String} (h : f.IsNamed text) {c : Char}
    (hc : c ∈ text.toList) : c.isAlpha = true := by
  have hletters : ∀ letter ∈ f.name.toList,
      (letter.isLower && letter.toUpper.isAlpha) = true := by
    cases f <;> exact List.all_eq_true.mp rfl
  have hlower := ofName?_eq_some_iff_map.mp (ofName?_eq_some_iff.mpr h)
  have hmem : c.toLower ∈ f.name.toList := hlower ▸ List.mem_map_of_mem hc
  obtain ⟨hsmall, hcapital⟩ := Bool.and_eq_true_iff.mp (hletters _ hmem)
  rcases (toLower_eq_iff hsmall).mp rfl with heq | heq
  · rw [heq]
    show (c.toLower.isUpper || c.toLower.isLower) = true
    rw [hsmall, Bool.or_true]
  · rwa [heq]

/-- A text that no function is named by finds none. -/
theorem ofName?_eq_none_iff {text : String} :
    ofName? text = none ↔ ∀ f : Function, ¬ f.IsNamed text := by
  simp only [Option.eq_none_iff_forall_ne_some, ne_eq, ofName?_eq_some_iff]

/-- What Unicode makes of a text in lower case, as far as names can tell: ASCII characters are
lowered as they are in ASCII, and of every other character something is left that is in no name.
The Kelvin sign leaves a `k`, and the capital `I` with a dot leaves a dot behind its `i`. -/
inductive IsLowered : List Char → List Char → Prop where
  | nil : IsLowered [] []
  | ascii {c : Char} {text lower : List Char} :
      c.toNat < 128 → IsLowered text lower → IsLowered (c :: text) (c.toLower :: lower)
  | other {c d : Char} {piece text lower : List Char} :
      ¬ c.toNat < 128 → d ∈ piece → (∀ f : Function, d ∉ f.name.toList) →
        IsLowered text lower → IsLowered (c :: text) (piece ++ lower)

/-- The lower case in ASCII of a character beyond it is no letter of a name. -/
theorem toLower_not_mem_name {c : Char} (h : ¬ c.toNat < 128) (f : Function) :
    c.toLower ∉ f.name.toList := by
  have hascii : ∀ d ∈ f.name.toList, d.isLower = true ∧ d.toNat < 128 ∧ d.toUpper.toNat < 128 := by
    cases f <;> simp [name]
  intro hmem
  obtain ⟨hsmall, hself, hcapital⟩ := hascii _ hmem
  rcases (toLower_eq_iff hsmall).mp rfl with heq | heq
  · rw [← heq] at hself
    exact h hself
  · rw [← heq] at hcapital
    exact h hcapital

/-- **Looking up a name by its lower case in Unicode finds the same function.** -/
theorem ofName?_eq_some_iff_lowered {text : String} {lower : List Char}
    (h : IsLowered text.toList lower) {f : Function} :
    ofName? text = some f ↔ lower = f.name.toList := by
  rw [ofName?_eq_some_iff_map]
  -- a prefix that both sides have lost is the same one
  suffices hlist : ∀ {text lower name : List Char}, IsLowered text lower →
      (∀ c ∈ name, c ∈ f.name.toList) → (text.map Char.toLower = name ↔ lower = name) from
    hlist h fun c hc => hc
  intro text lower name h hname
  induction h generalizing name with
  | nil => rfl
  | ascii hc _ ih =>
      cases name with
      | nil => simp
      | cons letter name =>
          rw [List.map_cons, List.cons.injEq, List.cons.injEq,
            ih (List.forall_mem_cons.mp hname).2]
  | @other c d piece text lower hc hd hnone _ ih =>
      constructor
      · intro heq
        have hmem : c.toLower ∈ name := by
          rw [← heq]
          exact List.mem_cons_self
        exact absurd (hname _ hmem) (toLower_not_mem_name hc f)
      · intro heq
        have hmem : d ∈ name := by
          rw [← heq]
          exact List.mem_append_left _ hd
        exact absurd (hname _ hmem) (hnone f)

/-! ## Values -/

/-- What the machine makes of the function; only the power looks at the second value. -/
def image (f : Function) (value : Double) (second : Option Double) : Double :=
  match f with
  | .sin => value.sin
  | .cos => value.cos
  | .tan => value.tan
  | .log => value.log10
  | .ln => value.ln
  | .sqrt => value.sqrt
  | .pow => value.pow (second.getD .nan)
  | .exp => value.exp

/-- The function has no value at a finite argument, and what it says of that. -/
inductive Lacks (value : Double) (second : Option Double) : Function → Refusal → Prop where
  | log : value.units ≤ 0 →
      Lacks value second .log (.domain "Logarithm of non-positive number")
  | ln : value.units ≤ 0 →
      Lacks value second .ln (.domain "Natural logarithm of non-positive number")
  | sqrt : value.units < 0 →
      Lacks value second .sqrt (.domain "Square root of negative number")
  | pow : (∀ exponent ∈ second, exponent.isFinite = false) →
      Lacks value second .pow (.missingOperand "Power")

variable {value : Double} {second : Option Double}

/-- A function either lacks a value and says so, or its value is what the machine makes of it. -/
theorem apply_cases (hvalue : value.isFinite = true) (second : Option Double) (f : Function) :
    (∃ refusal, Lacks value second f refusal ∧ f.apply value second = .error refusal) ∨
      ((∀ refusal, ¬ Lacks value second f refusal) ∧
        f.apply value second = .ok (f.image value second)) := by
  cases f with
  | sin | cos | tan | exp => exact Or.inr ⟨nofun, rfl⟩
  | log | ln =>
      have habove := Double.isAboveZero_iff hvalue
      by_cases hpos : 0 < value.units
      · refine Or.inr ⟨?_, if_pos (habove.mpr hpos)⟩
        intro refusal h
        cases h
        next hunits => exact Int.not_le.mpr hpos hunits
      · refine Or.inl ⟨_, ?_, if_neg (hpos ∘ habove.mp)⟩
        constructor
        exact Int.not_lt.mp hpos
  | sqrt =>
      have hbelow := Double.isBelowZero_iff hvalue
      by_cases hneg : value.units < 0
      · exact Or.inl ⟨_, .sqrt hneg, if_pos (hbelow.mpr hneg)⟩
      · refine Or.inr ⟨?_, if_neg (hneg ∘ hbelow.mp)⟩
        intro refusal h
        cases h with
        | sqrt hunits => exact hneg hunits
  | pow =>
      cases second with
      | none => exact Or.inl ⟨_, .pow (fun _ h => nomatch h), rfl⟩
      | some exponent =>
          cases hexponent : exponent.isFinite with
          | true =>
              refine Or.inr ⟨?_, if_pos hexponent⟩
              intro refusal h
              cases h with
              | pow hnone => exact nomatch hexponent.symm.trans (hnone exponent rfl)
          | false =>
              refine Or.inl ⟨_, .pow ?_, if_neg (Bool.eq_false_iff.mp hexponent)⟩
              intro other hother
              obtain rfl := Option.some.inj hother
              exact hexponent

/-- A function says one thing where it lacks a value. -/
theorem Lacks.unique {f : Function} {refusal refusal' : Refusal}
    (h : Lacks value second f refusal) (h' : Lacks value second f refusal') :
    refusal = refusal' := by
  cases h <;> cases h' <;> rfl

end Function

/-! ## Calls -/

/-- Why a call has no result: the function that is named lacks a value, or its value is not
finite. -/
inductive Function.Refuses (value : Double) (operation : String) (second : Option Double) :
    Refusal → Prop where
  | lacking {f : Function} {refusal : Refusal} : f.IsNamed operation →
      Lacks value second f refusal → Refuses value operation second refusal
  | infinite {f : Function} : f.IsNamed operation →
      (∀ refusal, ¬ Lacks value second f refusal) → (f.image value second).isFinite = false →
        Refuses value operation second (.evaluation "Invalid calculation result")

/-- **A call of a function at a finite value fails for one of these causes only**, and whenever one
of them holds. -/
theorem computeFunction_eq_error_iff {value : Double} (hvalue : value.isFinite = true)
    {operation : String} {f : Function} (hnamed : f.IsNamed operation) {second : Option Double}
    {refusal : Refusal} :
    computeFunction value operation second = .error refusal ↔
      Function.Refuses value operation second refusal := by
  have hcall : computeFunction value operation second = f.apply value second >>= finiteResult := by
    rw [computeFunction, Function.ofName?_eq_some_iff.mpr hnamed, hvalue]
    rfl
  have hunique {g : Function} (hg : g.IsNamed operation) : g = f := by
    rw [← Function.ofName?_eq_some_iff] at hg hnamed
    exact Option.some.inj (hg.symm.trans hnamed)
  rw [hcall]
  rcases Function.apply_cases hvalue second f with ⟨lack, hlacks, happly⟩ |
    ⟨hdefined, happly⟩
  · rw [happly]
    constructor
    · intro h
      obtain rfl := Except.error.inj h
      exact .lacking hnamed hlacks
    · intro h
      cases h with
      | lacking hg hg' =>
          obtain rfl := hunique hg
          obtain rfl := hlacks.unique hg'
          rfl
      | infinite hg hg' _ =>
          obtain rfl := hunique hg
          exact absurd hlacks (hg' _)
  · rw [happly]
    show finiteResult (f.image value second) = .error refusal ↔ _
    rw [finiteResult]
    constructor
    · intro h
      split at h
      · exact nomatch h
      · next himage =>
        obtain rfl := Except.error.inj h
        exact .infinite hnamed hdefined (Bool.eq_false_iff.mpr himage)
    · intro h
      cases h with
      | lacking hg hg' =>
          obtain rfl := hunique hg
          exact absurd hg' (hdefined _)
      | infinite hg _ himage =>
          obtain rfl := hunique hg
          exact if_neg (Bool.eq_false_iff.mp himage)

end Abacus
