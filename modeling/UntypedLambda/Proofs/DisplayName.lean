import Mathlib.Data.List.Nodup
import Mathlib.Data.List.Perm.Subperm
import UntypedLambda.DisplayName
import UntypedLambda.Proofs.Token

/-!
# Display names differ

No name occurs twice in the endless list of display names, so the search for one
that is not taken ends with one that is not.

* `displayName_inj` — different indices give different names.
* `plain_of_mem_displayName` — the characters of display names are neither blanks nor signs.
* `exists_freeName_eq`, `le_length_of_taken` — `freeName` is the first display name that is not
  taken, and it comes no later than there are names taken.
* `freeName_congr` — it depends only on which names are taken.
-/

namespace UntypedLambda

/-! ## The endless list -/

theorem nodup_alphabet : alphabet.Nodup := by
  -- code points are compared faster than characters
  have hcodes : (alphabet.map Char.toNat).Nodup := by decide +kernel
  exact hcodes.of_map

/-- The letters are written as variables. -/
theorem isVariable_of_mem_alphabet {c : Char} (h : c ∈ alphabet) : IsVariable c := by
  have hall : (alphabet.all fun c => decide (IsVariable c)) = true := by decide +kernel
  exact of_decide_eq_true (List.all_eq_true.1 hall c h)

theorem toNat_subscriptDigit {c : Char} (h : c.isDigit = true) :
    (subscriptDigit c).toNat = c.toNat - '0'.toNat + '₀'.toNat := by
  obtain ⟨-, hle⟩ := Char.isDigit_iff_toNat.1 h
  have hvalid : (c.toNat - '0'.toNat + '₀'.toNat).isValidChar := by
    left
    simp only [Char.reduceToNat] at hle ⊢
    omega
  rw [subscriptDigit, Char.ofNat, dif_pos hvalid]
  rfl

theorem subscriptDigit_inj {c d : Char} (hc : c.isDigit = true) (hd : d.isDigit = true)
    (h : subscriptDigit c = subscriptDigit d) : c = d := by
  have hn := congrArg Char.toNat h
  rw [toNat_subscriptDigit hc, toNat_subscriptDigit hd] at hn
  have hc' := (Char.isDigit_iff_toNat.1 hc).1
  have hd' := (Char.isDigit_iff_toNat.1 hd).1
  have heq : c.toNat = d.toNat := by omega
  rw [← Char.ofNat_toNat c, heq, Char.ofNat_toNat]

theorem map_subscriptDigit_inj {ds es : List Char} (hd : ∀ c ∈ ds, c.isDigit = true)
    (he : ∀ c ∈ es, c.isDigit = true) (h : ds.map subscriptDigit = es.map subscriptDigit) :
    ds = es := by
  induction ds generalizing es with
  | nil => exact (List.map_eq_nil_iff.1 h.symm).symm
  | cons c ds ih =>
      obtain ⟨d, es, rfl, hcd, hrest⟩ := List.map_eq_cons_iff.1 h.symm
      have hfirst := subscriptDigit_inj (he d (by simp)) (hd c (by simp)) hcd
      have hothers := ih (fun x hx => hd x (by simp [hx])) (fun x hx => he x (by simp [hx]))
        hrest.symm
      rw [hfirst, hothers]

theorem subscript_inj {x y : Char} {m n : Nat}
    (h : subscript (String.singleton x) m = subscript (String.singleton y) n) :
    x = y ∧ m = n := by
  have hlist := congrArg String.toList h
  simp only [subscript, String.toList_append, String.toList_singleton, String.toList_ofList,
    List.cons_append, List.nil_append, List.cons.injEq] at hlist
  obtain ⟨hx, hdigits⟩ := hlist
  have hisDigit : ∀ k, ∀ c ∈ Nat.toDigits 10 k, c.isDigit = true := by
    intro k c hc
    exact Nat.isDigit_of_mem_toDigits (by decide) (by decide) hc
  have heq := map_subscriptDigit_inj (hisDigit m) (hisDigit n) hdigits
  have hvalue := congrArg (fun ds => Nat.ofDigitChars 10 ds 0) heq
  simp only [Nat.ofDigitChars_ten_toDigits] at hvalue
  exact ⟨hx, hvalue⟩

theorem displayLetter_mem (i : Nat) : displayLetter i ∈ alphabet :=
  List.get_mem _ _

theorem displayLetter_inj {i j : Nat} (h : displayLetter i = displayLetter j) :
    i % alphabet.length = j % alphabet.length := by
  exact (List.getElem_inj nodup_alphabet).1 h

/-- A display name is a single character exactly if it has no subscript. -/
theorem length_displayName (i : Nat) : (displayName i).length = 1 ↔ i < alphabet.length := by
  unfold displayName
  split
  · next h => simp [h]
  · next h =>
      have hpos := List.length_pos_iff.2 (Nat.toDigits_ne_nil (n := i / alphabet.length) (b := 10))
      simp only [subscript, String.length_append, String.length_singleton, String.length_ofList,
        List.length_map, h, iff_false]
      omega

/-- Different indices give different display names. -/
theorem displayName_inj {i j : Nat} (h : displayName i = displayName j) : i = j := by
  have hlength : i < alphabet.length ↔ j < alphabet.length := by
    rw [← length_displayName, ← length_displayName, h]
  have hdiv : ∀ k, k = alphabet.length * (k / alphabet.length) + k % alphabet.length := by
    intro k
    exact (Nat.div_add_mod k alphabet.length).symm
  unfold displayName at h
  by_cases hi : i < alphabet.length
  · rw [if_pos hi, if_pos (hlength.1 hi)] at h
    have hletter := displayLetter_inj (String.singleton_inj.1 h)
    rwa [Nat.mod_eq_of_lt hi, Nat.mod_eq_of_lt (hlength.1 hi)] at hletter
  · rw [if_neg hi, if_neg (mt hlength.2 hi)] at h
    obtain ⟨hletter, hindex⟩ := subscript_inj h
    rw [hdiv i, hdiv j, hindex, displayLetter_inj hletter]

/-- A display name that is a single character is written as a variable. -/
theorem isVariableName_displayName {i : Nat} (h : (displayName i).length = 1) :
    IsVariableName (displayName i) := by
  refine ⟨displayLetter i, ?_, isVariable_of_mem_alphabet (displayLetter_mem i)⟩
  rw [displayName, if_pos ((length_displayName i).1 h)]

/-- A display name is made of letters and subscript digits. -/
theorem mem_displayName {i : Nat} {c : Char} (h : c ∈ (displayName i).toList) :
    c ∈ alphabet ∨ ∃ d : Char, d.isDigit = true ∧ c = subscriptDigit d := by
  have hletter : c ∈ (String.singleton (displayLetter i)).toList → c ∈ alphabet := by
    intro hc
    rw [String.toList_singleton, List.mem_singleton] at hc
    exact hc ▸ displayLetter_mem i
  unfold displayName at h
  split at h
  · exact .inl (hletter h)
  · rw [subscript, String.toList_append, List.mem_append, String.toList_ofList] at h
    rcases h with h | h
    · exact .inl (hletter h)
    · obtain ⟨d, hd, rfl⟩ := List.mem_map.1 h
      exact .inr ⟨d, Nat.isDigit_of_mem_toDigits (by decide) (by decide) hd, rfl⟩

/-- The characters that tokens other than variables are written with. -/
def signs : List Char := ['λ', '.', '(', ')', ':', '=']

/-- A subscript digit is neither a blank nor a sign. -/
theorem plain_subscriptDigit {d : Char} (h : d.isDigit = true) :
    isBlank (subscriptDigit d) = false ∧ subscriptDigit d ∉ signs := by
  have hvalue := toNat_subscriptDigit h
  have hle := (Char.isDigit_iff_toNat.1 h).2
  simp only [Char.reduceToNat] at hvalue hle
  constructor
  · simp only [isBlank, blankRanges, List.any_cons, List.any_nil, Bool.or_eq_false_iff,
      Bool.and_eq_false_iff, decide_eq_false_iff_not, and_true]
    omega
  · -- all signs come before the subscript digits
    have hsigns : ∀ c ∈ signs, c.toNat < '₀'.toNat := by simp [signs]
    intro hmem
    have hlt := hsigns _ hmem
    simp only [Char.reduceToNat] at hlt
    omega

/-- **Display names are plain**: none of their characters is a blank or a sign. -/
theorem plain_of_mem_displayName {i : Nat} {c : Char} (h : c ∈ (displayName i).toList) :
    isBlank c = false ∧ c ∉ signs := by
  rcases mem_displayName h with hc | ⟨d, hd, hc⟩
  · have hall : (alphabet.all fun c => decide (c ∉ signs)) = true := by decide +kernel
    exact ⟨(isVariable_of_mem_alphabet hc).1, of_decide_eq_true (List.all_eq_true.1 hall c hc)⟩
  · rw [hc]
    exact plain_subscriptDigit hd

/-! ## The first name that is not taken -/

theorem exists_freeNameFrom_eq (i : Nat) (taken : List String) :
    ∃ j, freeNameFrom taken.length i taken = displayName j ∧ displayName j ∉ taken ∧ i ≤ j ∧
      ∀ k, i ≤ k → k < j → displayName k ∈ taken := by
  generalize hn : taken.length = n
  induction n generalizing i taken with
  | zero =>
      obtain rfl := List.length_eq_zero_iff.1 hn
      exact ⟨i, rfl, by simp, Nat.le_refl i, fun k hi hk => by omega⟩
  | succ n ih =>
      by_cases h : displayName i ∈ taken
      · obtain ⟨j, heq, hfree, hle, hbefore⟩ := ih (i + 1) (taken.erase (displayName i)) (by
          rw [List.length_erase_of_mem h]
          omega)
        have hne : ∀ k, i + 1 ≤ k → displayName k ≠ displayName i := by
          intro k hk heq
          have := displayName_inj heq
          omega
        refine ⟨j, by rw [freeNameFrom, if_pos h, heq], ?_, by omega, ?_⟩
        · rwa [List.mem_erase_of_ne (hne j hle)] at hfree
        · intro k hi hk
          by_cases hki : k = i
          · rwa [hki]
          · exact List.mem_of_mem_erase (hbefore k (by omega) hk)
      · exact ⟨i, by rw [freeNameFrom, if_neg h], h, Nat.le_refl i, fun k hi hk => by omega⟩

/-- The name that is found is the first one that is not taken. -/
theorem exists_freeName_eq (taken : List String) :
    ∃ j, freeName taken = displayName j ∧ displayName j ∉ taken ∧
      ∀ k, k < j → displayName k ∈ taken := by
  obtain ⟨j, heq, hfree, -, hbefore⟩ := exists_freeNameFrom_eq 0 taken
  exact ⟨j, heq, hfree, fun k hk => hbefore k (Nat.zero_le k) hk⟩

/-- If the first `j` display names are taken, there are at least `j` names taken. -/
theorem le_length_of_taken {taken : List String} {j : Nat}
    (h : ∀ k, k < j → displayName k ∈ taken) : j ≤ taken.length := by
  have hnodup : ((List.range j).map displayName).Nodup :=
    List.nodup_range.map fun _ _ => displayName_inj
  have hsub : (List.range j).map displayName ⊆ taken := by
    intro x hx
    obtain ⟨k, hk, rfl⟩ := List.mem_map.1 hx
    exact h k (List.mem_range.1 hk)
  calc j = ((List.range j).map displayName).length := by rw [List.length_map, List.length_range]
    _ ≤ taken.length := (hnodup.subperm hsub).length_le

theorem freeName_notMem (taken : List String) : freeName taken ∉ taken := by
  obtain ⟨j, heq, hfree, -⟩ := exists_freeName_eq taken
  rwa [heq]

/-- Only which names are taken matters. -/
theorem freeName_congr {taken taken' : List String} (h : ∀ x, x ∈ taken ↔ x ∈ taken') :
    freeName taken = freeName taken' := by
  obtain ⟨j, heq, hfree, hbefore⟩ := exists_freeName_eq taken
  obtain ⟨j', heq', hfree', hbefore'⟩ := exists_freeName_eq taken'
  have hle : ¬j < j' := by
    intro hlt
    exact hfree ((h _).2 (hbefore' j hlt))
  have hle' : ¬j' < j := by
    intro hlt
    exact hfree' ((h _).1 (hbefore j' hlt))
  rw [heq, heq', show j = j' by omega]

end UntypedLambda
