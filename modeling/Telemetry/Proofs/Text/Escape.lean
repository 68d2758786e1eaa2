import Mathlib.Algebra.Ring.Parity
import Telemetry.Proofs.Text.Reading

/-!
# Escaped texts

What a text with escapes stands for, said apart from any reader of it: three escapes stand for a backslash,
a line feed and a quotation mark, and every other character for itself. An escaped text stands for the text
that was escaped and for no other, and a quotation mark behind it is the first one that is no part of an
escape, which the number of backslashes before a mark decides.
-/

namespace Telemetry.Text.Escape

/-- A written form and the text that it stands for. Where quotation marks are escaped, none stands for
itself. -/
inductive Spells (quotes : Bool) : List Char → List Char → Prop
  | nil : Spells quotes [] []
  | backslash {w s : List Char} (h : Spells quotes w s) :
      Spells quotes ('\\' :: '\\' :: w) ('\\' :: s)
  | newline {w s : List Char} (h : Spells quotes w s) : Spells quotes ('\\' :: 'n' :: w) ('\n' :: s)
  | quote {w s : List Char} (h : Spells quotes w s) : Spells quotes ('\\' :: '"' :: w) ('"' :: s)
  | plain {c : Char} {w s : List Char} (hb : c ≠ '\\') (hq : quotes = true → c ≠ '"')
      (h : Spells quotes w s) : Spells quotes (c :: w) (c :: s)

/-- A reading of a text up to its closing quotation mark, the first that is no part of an escape: what
stands before it, with the escapes undone, and what follows it. -/
def Reads (cs text rest : List Char) : Prop :=
  ∃ written, cs = written ++ '"' :: rest ∧ Spells true written text

/-- The number of backslashes at the end of a text. -/
def backslashRun (cs : List Char) : Nat := (cs.reverse.takeWhile (· == '\\')).length

variable {quotes : Bool} {w s cs text rest : List Char}

/-- One more character is written in front. -/
theorem Spells.encodeChar (h : Spells quotes w s) (c : Char) :
    Spells quotes (encodeChar quotes c ++ w) (c :: s) := by
  unfold Escape.encodeChar
  split
  · subst_vars
    exact .backslash h
  · split
    · subst_vars
      exact .newline h
    · split
      · rename_i hc
        rw [hc.1]
        exact .quote h
      · rename_i hb _ hq
        exact .plain hb (fun hquotes hc => hq ⟨hc, hquotes⟩) h

/-- An escaped text stands for the text. -/
theorem spells_encode (quotes : Bool) (cs : List Char) : Spells quotes (encode quotes cs) cs := by
  induction cs with
  | nil => exact .nil
  | cons c rest ih => exact ih.encodeChar c

/-- Undoing the escapes gives what is spelled. -/
theorem Spells.decode_eq (h : Spells quotes w s) : decode w = s := by
  induction h with
  | nil => rfl
  | backslash _ ih => simp [decode, ih]
  | newline _ ih => simp [decode, ih]
  | quote _ ih => simp [decode, ih]
  | plain hb _ _ ih => simp [decode, hb, ih]

/-- The reader gives what is spelled up to the closing mark. -/
theorem Spells.quoted?_append (h : Spells true w s) (rest : List Char) :
    quoted? (w ++ '"' :: rest) = some (s, rest) := by
  induction h with
  | nil => rfl
  | backslash _ ih => simp [quoted?, ih]
  | newline _ ih => simp [quoted?, ih]
  | quote _ ih => simp [quoted?, ih]
  | plain hb hq _ ih => simp [quoted?, hb, hq rfl, ih]

/-- Every reading is that of the reader. -/
theorem Reads.quoted?_eq (h : Reads cs text rest) : quoted? cs = some (text, rest) := by
  obtain ⟨written, rfl, hspells⟩ := h
  exact hspells.quoted?_append rest

/-- The backslashes at the end go on to the left of a text that has nothing else. -/
theorem backslashRun_append (l cs : List Char) :
    backslashRun (l ++ cs) =
      if backslashRun cs = cs.length then backslashRun l + cs.length else backslashRun cs := by
  rw [backslashRun, List.reverse_append, List.takeWhile_append, apply_ite List.length]
  simp only [List.length_append, List.length_reverse, Nat.add_comm cs.length]
  rfl

/-- What ends with an even number of them does not change whether their number is odd. -/
theorem odd_backslashRun_append {l : List Char} (hl : Even (backslashRun l)) (cs : List Char) :
    Odd (backslashRun (l ++ cs)) ↔ Odd (backslashRun cs) := by
  rw [backslashRun_append]
  split
  · rename_i hrun
    rw [hrun, Nat.odd_add', iff_true_right hl]
  · rfl

/-- A quotation mark in a text that begins with an escape is that of the escape, or stands behind it. -/
theorem eq_of_escape {c : Char} {w l r : List Char} (h : '\\' :: c :: w = l ++ '"' :: r) :
    l = ['\\'] ∨ ∃ l', l = ['\\', c] ++ l' ∧ w = l' ++ '"' :: r := by
  match l with
  | [] => simp at h
  | [_] =>
    simp only [List.cons_append, List.nil_append, List.cons.injEq] at h
    exact .inl (by rw [h.1])
  | _ :: _ :: l =>
    simp only [List.cons_append, List.cons.injEq] at h
    exact .inr ⟨l, by rw [h.1, h.2.1]; rfl, h.2.2⟩

/-- An escape in front leaves an odd number of backslashes before each quotation mark. -/
theorem odd_backslashRun_of_escape {c : Char} {w l r : List Char} (hc : Even (backslashRun ['\\', c]))
    (hw : ∀ {l}, w = l ++ '"' :: r → Odd (backslashRun l)) (h : '\\' :: c :: w = l ++ '"' :: r) :
    Odd (backslashRun l) := by
  obtain rfl | ⟨l, rfl, hrest⟩ := eq_of_escape h
  · exact odd_one
  · exact (odd_backslashRun_append hc l).mpr (hw hrest)

/-- Where quotation marks are escaped, an odd number of backslashes stands before each of them. -/
theorem Spells.odd_backslashRun (h : Spells true w s) {l r : List Char} (hw : w = l ++ '"' :: r) :
    Odd (backslashRun l) := by
  induction h generalizing l with
  | nil => simp at hw
  | backslash _ ih => exact odd_backslashRun_of_escape (by decide) ih hw
  | newline _ ih => exact odd_backslashRun_of_escape (by decide) ih hw
  | quote _ ih => exact odd_backslashRun_of_escape (by decide) ih hw
  | @plain c _ _ hb hq _ ih =>
    cases l with
    | nil => exact absurd (List.cons.inj hw).1 (hq rfl)
    | cons _ l =>
      obtain ⟨rfl, hrest⟩ := List.cons.inj hw
      have hzero : backslashRun [c] = 0 := by simp [backslashRun, hb]
      exact (odd_backslashRun_append (hzero ▸ Even.zero) l).mpr (ih hrest)

/-- An escaped label value is read back, with what follows its closing mark as it is, and so is an escaped
description. What is read does not hang on how it is read: the written form stands for this text only, and
its closing mark is the first that is no part of an escape, as an odd number of backslashes stands before
each mark in it. No written form has a line feed. -/
theorem escapes_undone (s t : String) :
    quoted? (labelValue s ++ "\"" ++ t).toList = some (s.toList, t.toList) ∧
      (∀ text rest, Reads (labelValue s ++ "\"" ++ t).toList text rest ↔
        text = s.toList ∧ rest = t.toList) ∧
      '\n' ∉ (labelValue s).toList ∧
      (∀ l r, (labelValue s).toList = l ++ '"' :: r → Odd (backslashRun l)) ∧
      ∀ quotes, decode (description quotes s).toList = s.toList ∧
        (∀ text, Spells quotes (description quotes s).toList text ↔ text = s.toList) ∧
        '\n' ∉ (description quotes s).toList := by
  have hvalue : (labelValue s).toList = encode true s.toList := String.toList_ofList
  have hdescription (quotes : Bool) : (description quotes s).toList = encode quotes s.toList :=
    String.toList_ofList
  have hwritten : (labelValue s ++ "\"" ++ t).toList = encode true s.toList ++ '"' :: t.toList := by
    simp [hvalue]
  have hread : quoted? (labelValue s ++ "\"" ++ t).toList = some (s.toList, t.toList) := by
    rw [hwritten, quoted?_encode]
  refine ⟨hread, fun text rest => ⟨fun h => ?_, ?_⟩, ?_, fun l r h => ?_,
    fun quotes => ⟨?_, fun text => ?_, ?_⟩⟩
  · exact Prod.mk.inj (Option.some.inj (h.quoted?_eq.symm.trans hread))
  · rintro ⟨rfl, rfl⟩
    exact ⟨_, hwritten, spells_encode true s.toList⟩
  · rw [hvalue]
    exact newline_not_mem_encode true s.toList
  · exact (spells_encode true s.toList).odd_backslashRun (hvalue.symm.trans h)
  · rw [hdescription, decode_encode]
  · rw [hdescription]
    constructor
    · exact fun h => h.decode_eq.symm.trans (decode_encode quotes s.toList)
    · rintro rfl
      exact spells_encode quotes s.toList
  · rw [hdescription]
    exact newline_not_mem_encode quotes s.toList

end Telemetry.Text.Escape
