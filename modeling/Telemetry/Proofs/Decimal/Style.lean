import Telemetry.Decimal.Style

/-!
# Written numbers are plain

The text of a double has letters, digits, signs and points only, in every style whose words for
infinities and NaN are of these. So a number never breaks the line or the quotation marks that it
stands in. Where a style shows the point of whole numbers, a number is never written as an integer.
-/

namespace Telemetry.Decimal

/-- Whether a character may stand in a written number. -/
def isPlain (c : Char) : Bool := c.isAlphanum || c == '+' || c == '-' || c == '.'

/-- Digits are plain. -/
theorem isPlain_of_isDigit {c : Char} (h : c.isDigit = true) : isPlain c = true := by
  simp [isPlain, Char.isAlphanum, h]

/-- Decimal digits of a number are plain. -/
theorem isPlain_of_mem_toDigits {n : Nat} {c : Char} (h : c ∈ Nat.toDigits 10 n) :
    isPlain c = true :=
  isPlain_of_isDigit (Nat.isDigit_of_mem_toDigits (by decide) (by decide) h)

/-- The digits of a decimal are digits. -/
theorem isPlain_of_mem_digitsOf {d : Nat} {k : Int} {c : Char} (h : c ∈ (Digits.of d k).digits) :
    isPlain c = true := by
  have hdrop : c ∈ (Nat.toDigits 10 d).reverse.dropWhile (· == '0') := List.mem_reverse.mp h
  exact isPlain_of_mem_toDigits (List.mem_reverse.mp ((List.dropWhile_suffix _).mem hdrop))

/-- The digits of the first grid with a hit are digits. -/
theorem isPlain_of_mem_shortest {i : Interval} {c : Char} (h : c ∈ i.shortest.digits) :
    isPlain c = true := by
  unfold Interval.shortest at h
  dsimp only at h
  generalize hhit : List.findSome? _ (List.range 17) = hit? at h
  cases hit? with
  | none => simp at h
  | some digits =>
    obtain ⟨more, -, hmore⟩ := List.exists_of_findSome?_eq_some hhit
    obtain ⟨d, -, rfl⟩ := Option.map_eq_some_iff.mp hmore
    exact isPlain_of_mem_digitsOf h

/-- Zeros are plain. -/
theorem isPlain_of_mem_zeros {n : Nat} {c : Char} (h : c ∈ List.replicate n '0') :
    isPlain c = true := by
  rw [List.eq_of_mem_replicate h]
  decide

section Digits

variable {d : Digits} (hd : ∀ c ∈ d.digits, isPlain c = true)

include hd

/-- Digits with the point in place are plain. -/
theorem isPlain_of_mem_placed (wholePoint : Bool) : ∀ c ∈ d.placed wholePoint, isPlain c = true := by
  have hwhole (n m : Nat) : ∀ c ∈ d.digits.take n ++ List.replicate m '0', isPlain c = true := by
    intro c hc
    rcases List.mem_append.mp hc with hc | hc
    · exact hd c (List.mem_of_mem_take hc)
    · exact isPlain_of_mem_zeros hc
  unfold Digits.placed
  split
  · simp only [List.forall_mem_cons, List.forall_mem_append]
    exact ⟨by decide, by decide, fun _ hc => isPlain_of_mem_zeros hc, hd⟩
  · dsimp only
    split
    · split
      · rw [List.forall_mem_append]
        exact ⟨hwhole _ _, List.all_eq_true.mp (by decide)⟩
      · exact hwhole _ _
    · rw [List.forall_mem_append, List.forall_mem_cons]
      exact ⟨hwhole _ _, by decide, fun c hc => hd c (List.mem_of_mem_drop hc)⟩

/-- Digits with an exponent are plain. -/
theorem isPlain_of_mem_scientific (plusExponent : Bool) :
    ∀ c ∈ d.scientific plusExponent, isPlain c = true := by
  have hsign : ∀ c ∈ (if d.exponent < 0 then ['-'] else if plusExponent then ['+'] else []),
      isPlain c = true := by
    split
    · exact List.all_eq_true.mp (by decide)
    · split <;> exact List.all_eq_true.mp (by decide)
  unfold Digits.scientific
  simp only [List.forall_mem_append, List.forall_mem_cons]
  refine ⟨⟨fun c hc => hd c (List.mem_of_mem_take hc), ?_⟩, by decide, hsign,
    fun _ hc => isPlain_of_mem_toDigits hc⟩
  split
  · nofun
  · rw [List.forall_mem_cons]
    exact ⟨by decide, fun c hc => hd c (List.mem_of_mem_drop hc)⟩

/-- Digits are written plainly. -/
theorem isPlain_of_mem_writeDigits (s : Style) : ∀ c ∈ d.write s, isPlain c = true := by
  unfold Digits.write
  split
  · exact isPlain_of_mem_placed hd _
  · exact isPlain_of_mem_scientific hd _

end Digits

/-- Written numbers are plain where the words of the style are. -/
theorem isPlain_of_mem_write {s : Style} (hnan : ∀ c ∈ s.nan.toList, isPlain c = true)
    (hinf : ∀ c ∈ s.infinity.toList, isPlain c = true)
    (hneg : ∀ c ∈ s.negativeInfinity.toList, isPlain c = true) (x : Float) :
    ∀ c ∈ (s.write x).toList, isPlain c = true := by
  have hdigits : ∀ c ∈ (if x == 0 then Digits.zero else shortest x).digits, isPlain c = true := by
    split
    · exact List.all_eq_true.mp (by decide)
    · exact fun c hc => isPlain_of_mem_shortest hc
  unfold Style.write
  split
  · exact hnan
  · split
    · split
      · exact hneg
      · exact hinf
    · dsimp only
      rw [String.toList_ofList, List.forall_mem_append]
      refine ⟨?_, isPlain_of_mem_writeDigits hdigits s⟩
      split <;> exact List.all_eq_true.mp (by decide)

/-- Numbers of text documents are plain. -/
theorem isPlain_of_mem_write_document (x : Float) :
    ∀ c ∈ (Style.document.write x).toList, isPlain c = true :=
  isPlain_of_mem_write (List.all_eq_true.mp (by decide)) (List.all_eq_true.mp (by decide))
    (List.all_eq_true.mp (by decide)) x

/-- Digits of a style that shows the point of whole numbers have a point or an exponent. -/
theorem exists_mem_writeDigits {s : Style} (hpoint : s.wholePoint = true) (d : Digits) :
    ∃ c ∈ d.write s, c = '.' ∨ c = 'e' := by
  unfold Digits.write
  split
  · refine ⟨'.', ?_, .inl rfl⟩
    unfold Digits.placed
    rw [hpoint]
    split
    · simp
    · dsimp only
      split <;> simp
  · refine ⟨'e', ?_, .inr rfl⟩
    simp [Digits.scientific]

/-- So does every number that is written in such a style. -/
theorem exists_mem_write {s : Style} {x : Float} (hpoint : s.wholePoint = true)
    (hnan : x.isNaN = false) (hinf : x.isInf = false) :
    ∃ c ∈ (s.write x).toList, c = '.' ∨ c = 'e' := by
  obtain ⟨c, hc, hchar⟩ :=
    exists_mem_writeDigits hpoint (if x == 0 then Digits.zero else shortest x)
  refine ⟨c, ?_, hchar⟩
  rw [Style.write, hnan, hinf]
  simp only [Bool.false_eq_true, if_false, String.toList_ofList]
  exact List.mem_append_right _ hc

end Telemetry.Decimal
