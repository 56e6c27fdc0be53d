import NcProgram.Node.Source
import Mathlib.Algebra.Order.Ring.Nat

namespace NcProgram.Text

theorem decimalValue_eq_ofDigitChars (cs : List Char) :
    decimalValue cs = Nat.ofDigitChars 10 cs 0 := by
  rw [decimalValue, ofDigits, List.foldl_map, Nat.ofDigitChars_eq_foldl]

theorem decimalValue_append (cs ds : List Char) :
    decimalValue (cs ++ ds) = decimalValue cs * 10 ^ ds.length + decimalValue ds := by
  simp only [decimalValue_eq_ofDigitChars, Nat.ofDigitChars_append]
  rw [Nat.ofDigitChars_eq_ofDigitChars_zero, Nat.mul_comm]

@[simp] theorem decimalValue_nil : decimalValue [] = 0 := rfl

theorem decimalValue_cons (c : Char) (cs : List Char) :
    decimalValue (c :: cs) = (c.toNat - '0'.toNat) * 10 ^ cs.length + decimalValue cs := by
  have h := decimalValue_append [c] cs
  simpa [decimalValue, ofDigits] using h

theorem decimalValue_toDigits (n : Nat) : decimalValue (Nat.toDigits 10 n) = n := by
  rw [decimalValue_eq_ofDigitChars, Nat.ofDigitChars_ten_toDigits]

theorem decimalValue_replicate_zero (k : Nat) (cs : List Char) :
    decimalValue (List.replicate k '0' ++ cs) = decimalValue cs := by
  rw [decimalValue_append, decimalValue_eq_ofDigitChars (List.replicate k '0'),
    Nat.ofDigitChars_replicate_zero, Nat.mul_zero, Nat.zero_mul, Nat.zero_add]

theorem toNat_of_isDigit {c : Char} (h : c.isDigit = true) :
    '0'.toNat ≤ c.toNat ∧ c.toNat ≤ '0'.toNat + 9 := by
  simp only [Char.isDigit, Bool.and_eq_true, decide_eq_true_eq, ge_iff_le,
    UInt32.le_iff_toNat_le] at h
  exact h

theorem utf8Length_of_isDigit {cs : List Char} (h : ∀ c ∈ cs, c.isDigit = true) :
    utf8Length cs = cs.length := by
  induction cs with
  | nil => rfl
  | cons c cs ih =>
      obtain ⟨hc, hcs⟩ := List.forall_mem_cons.mp h
      have hsize : c.utf8Size = 1 := by
        have hval := (toNat_of_isDigit hc).2
        rw [Char.utf8Size_eq_one_iff, UInt32.le_iff_toNat_le]
        exact Nat.le_trans hval (by decide)
      rw [utf8Length_cons, ih hcs, hsize, List.length_cons, Nat.add_comm]

theorem decimalValue_lt {cs : List Char} (h : ∀ c ∈ cs, c.isDigit = true) :
    decimalValue cs < 10 ^ cs.length := by
  induction cs with
  | nil => simp
  | cons c cs ih =>
      have hc := toNat_of_isDigit (h c (by simp))
      have hcs := ih fun d hd => h d (by simp [hd])
      have hdigit : c.toNat - '0'.toNat ≤ 9 := by omega
      have hmul := Nat.mul_le_mul_right (10 ^ cs.length) hdigit
      rw [decimalValue_cons, List.length_cons, Nat.pow_succ]
      omega

theorem isTooLongToWrite_of_lt {n w : Nat} (hw : w ≤ maxDigits) (hn : n < 10 ^ w) :
    isTooLongToWrite n = false := by
  have hpow {k : Nat} (hk : w ≤ k) : 10 ^ w ≤ Nat.pow 10 k := Nat.pow_le_pow_right (by decide) hk
  exact decide_eq_false (Nat.not_le.mpr (Nat.lt_of_lt_of_le hn (hpow hw)))

theorem isTooLongToWrite_decimalValue {cs : List Char} (h : ∀ c ∈ cs, c.isDigit = true)
    (hshort : cs.length ≤ maxDigits) : isTooLongToWrite (decimalValue cs) = false :=
  isTooLongToWrite_of_lt hshort (decimalValue_lt h)

/-- Digits are known from their number and their count. -/
theorem eq_of_decimalValue_eq {cs ds : List Char} (hcs : ∀ c ∈ cs, c.isDigit = true)
    (hds : ∀ d ∈ ds, d.isDigit = true) (hlength : cs.length = ds.length)
    (hvalue : decimalValue cs = decimalValue ds) : cs = ds := by
  induction cs generalizing ds with
  | nil => simpa [eq_comm] using hlength
  | cons c cs ih =>
      cases ds with
      | nil => simp at hlength
      | cons d ds =>
          have hlength : cs.length = ds.length := by simpa using hlength
          have hc := toNat_of_isDigit (hcs c (by simp))
          have hd := toNat_of_isDigit (hds d (by simp))
          have hcs' : ∀ c ∈ cs, c.isDigit = true := fun e he => hcs e (by simp [he])
          have hds' : ∀ d ∈ ds, d.isDigit = true := fun e he => hds e (by simp [he])
          have hltc := decimalValue_lt hcs'
          have hltd := decimalValue_lt hds'
          rw [decimalValue_cons, decimalValue_cons, hlength] at hvalue
          rw [hlength] at hltc
          have hfirst : c.toNat - '0'.toNat = d.toNat - '0'.toNat := by
            have hdiv := congrArg (· / 10 ^ ds.length) hvalue
            have hpos : 0 < 10 ^ ds.length := Nat.pow_pos (by decide)
            simpa [Nat.add_comm _ (decimalValue _), Nat.add_mul_div_right _ _ hpos,
              Nat.div_eq_of_lt hltc, Nat.div_eq_of_lt hltd] using hdiv
          have hcd : c = d := Char.toNat_inj.mp (by omega)
          have hrest : decimalValue cs = decimalValue ds := by
            rw [hfirst] at hvalue
            omega
          rw [hcd, ih hcs' hds' hlength hrest]

theorem length_toDigits_le {cs : List Char} (hne : cs ≠ []) (h : ∀ c ∈ cs, c.isDigit = true) :
    (Nat.toDigits 10 (decimalValue cs)).length ≤ cs.length :=
  (Nat.length_toDigits_le_iff (by decide) (List.length_pos_iff.mpr hne)).mpr (decimalValue_lt h)

theorem isDigit_of_mem_zeroFilled {k n : Nat} {c : Char}
    (h : c ∈ List.replicate k '0' ++ Nat.toDigits 10 n) : c.isDigit = true := by
  rcases List.mem_append.mp h with h | h
  · rw [List.eq_of_mem_replicate h]
    rfl
  · exact Nat.isDigit_of_mem_toDigits (by decide) (by decide) h

end NcProgram.Text

namespace NcProgram

open Text

theorem toList_zeroFilled (width n : Nat) :
    (zeroFilled width n).toList =
      List.replicate (width - (Nat.toDigits 10 n).length) '0' ++ Nat.toDigits 10 n := by
  have hsign : ¬ ((n : Int) < 0) := by omega
  simp [zeroFilled, hsign, Nat.repr_eq_ofList_toDigits]

theorem zeroFilled_decimalValue {cs : List Char} (hne : cs ≠ [])
    (h : ∀ c ∈ cs, c.isDigit = true) : (zeroFilled cs.length (decimalValue cs)).toList = cs := by
  rw [toList_zeroFilled]
  have hlength := length_toDigits_le hne h
  refine eq_of_decimalValue_eq (fun c hc => isDigit_of_mem_zeroFilled hc) h ?_ ?_
  · rw [List.length_append, List.length_replicate]
    omega
  · rw [decimalValue_replicate_zero, decimalValue_toDigits]

end NcProgram
