import Telemetry.Text.Escape
import Telemetry.Text.Pieces

/-!
# Reading text back

What was joined with a separator is cut apart again at the separator, and an escaped text in quotation
marks is read up to its closing mark, whatever follows. The reader of quoted text is defined here; no
document is written with it.
-/

namespace Telemetry.Text

variable {sep : Char}

/-- A text is cut at a separator behind a part without one. -/
theorem cut?_append {l : List Char} (hl : sep ∉ l) (r : List Char) :
    cut? sep (l ++ sep :: r) = some (l, r) := by
  induction l with
  | nil => simp [cut?]
  | cons c rest ih =>
    obtain ⟨hc, hrest⟩ := not_or.mp (mt List.mem_cons.mpr hl)
    simp [cut?, Ne.symm hc, ih hrest]

/-- The text before the first separator has none. -/
theorem not_mem_of_cut? {cs l r : List Char} (h : cut? sep cs = some (l, r)) : sep ∉ l := by
  induction cs generalizing l with
  | nil => contradiction
  | cons c rest ih =>
    unfold cut? at h
    split at h
    · obtain ⟨rfl, -⟩ := Prod.mk.inj (Option.some.inj h)
      exact List.not_mem_nil
    · rename_i hc
      obtain ⟨p, hp, he⟩ := Option.map_eq_some_iff.mp h
      obtain ⟨rfl, rfl⟩ := Prod.mk.inj he
      rw [List.mem_cons, not_or]
      exact ⟨Ne.symm hc, ih hp⟩

/-- A text is cut at its first separator. -/
theorem cut?_eq_some_iff {cs l r : List Char} :
    cut? sep cs = some (l, r) ↔ cs = l ++ sep :: r ∧ sep ∉ l := by
  constructor
  · intro h
    exact ⟨(append_of_cut? h).symm, not_mem_of_cut? h⟩
  · rintro ⟨rfl, hl⟩
    exact cut?_append hl r

/-- A text is not cut when it has no separator. -/
theorem cut?_eq_none_iff {cs : List Char} : cut? sep cs = none ↔ sep ∉ cs := by
  induction cs with
  | nil => simp [cut?]
  | cons c rest ih =>
    by_cases hc : c = sep
    · simp [cut?, hc]
    · simp [cut?, hc, Ne.symm hc, ih]

/-- What follows a part without a separator does not change that the part stands before it. -/
theorem before_append_of_not_mem {l : List Char} (hl : sep ∉ l) (r : List Char) :
    before sep (l ++ r) = l ++ before sep r := by
  apply List.takeWhile_append_of_pos
  intro c hc
  simpa using ne_of_mem_of_not_mem hc hl

/-- The text before the first separator is the part in front of it. -/
theorem before_append {l : List Char} (hl : sep ∉ l) (r : List Char) :
    before sep (l ++ sep :: r) = l := by
  rw [before_append_of_not_mem hl]
  simp [before]

/-- It is the whole text when there is no separator. -/
theorem before_of_not_mem {l : List Char} (hl : sep ∉ l) : before sep l = l := by
  simpa [before] using before_append_of_not_mem hl []

/-- A text is cut at every separator, wherever the pieces before it end. -/
theorem pieces_append_cons (l r : List Char) :
    pieces sep (l ++ sep :: r) = pieces sep l ++ pieces sep r := by
  induction l with
  | nil => simp [pieces]
  | cons c rest ih =>
    by_cases hc : c = sep
    · simp [pieces, hc, ih]
    · have hne := pieces_ne_nil sep rest
      simp only [List.cons_append, pieces, if_neg hc, ih]
      cases hrest : pieces sep rest with
      | nil => contradiction
      | cons piece more => rfl

/-- There is one piece more than there are separators. -/
theorem length_pieces (l : List Char) : (pieces sep l).length = l.count sep + 1 := by
  induction l with
  | nil => rfl
  | cons c rest ih =>
    by_cases hc : c = sep
    · simp [pieces, hc, ih]
    · have hne := pieces_ne_nil sep rest
      rw [List.count_cons_of_ne hc, ← ih]
      simp only [pieces, if_neg hc]
      cases hrest : pieces sep rest with
      | nil => contradiction
      | cons piece more => rfl

/-- A text without a separator is one piece. -/
theorem pieces_of_not_mem {l : List Char} (hl : sep ∉ l) : pieces sep l = [l] := by
  induction l with
  | nil => rfl
  | cons c rest ih =>
    obtain ⟨hc, hrest⟩ := not_or.mp (mt List.mem_cons.mpr hl)
    simp [pieces, Ne.symm hc, ih hrest]

/-- The first piece of a text ends at the first separator. -/
theorem pieces_append {l : List Char} (hl : sep ∉ l) (r : List Char) :
    pieces sep (l ++ sep :: r) = l :: pieces sep r := by
  rw [pieces_append_cons, pieces_of_not_mem hl, List.singleton_append]

/-- The pieces of parts that each follow a separator are those of the parts. -/
theorem pieces_append_flatMap (l : List Char) (parts : List (List Char)) :
    pieces sep (l ++ parts.flatMap fun p => sep :: p) = pieces sep l ++ parts.flatMap (pieces sep) := by
  induction parts generalizing l with
  | nil => simp
  | cons p rest ih => rw [List.flatMap_cons, List.cons_append, pieces_append_cons, ih, List.flatMap_cons]

/-- The pieces of ended lines are the lines, and nothing after the last end. -/
theorem pieces_lines {ls : List (List Char)} (h : ∀ l ∈ ls, sep ∉ l) :
    pieces sep (ls.flatMap fun l => l ++ [sep]) = ls ++ [[]] := by
  induction ls with
  | nil => rfl
  | cons l rest ih =>
    rw [List.flatMap_cons, List.append_assoc, List.singleton_append,
      pieces_append (h l List.mem_cons_self), ih fun m hm => h m (List.mem_cons_of_mem _ hm),
      List.cons_append]

/-- The pieces of joined parts are the parts. -/
theorem pieces_join {s : String} {parts : List String} (hs : s.toList = [sep]) (hne : parts ≠ [])
    (h : ∀ p ∈ parts, sep ∉ p.toList) : pieces sep (join s parts).toList = parts.map String.toList := by
  induction parts with
  | nil => contradiction
  | cons p rest ih =>
    obtain ⟨hp, hrest⟩ := List.forall_mem_cons.mp h
    cases rest with
    | nil => exact pieces_of_not_mem hp
    | cons q more =>
      have hjoin : (join s (p :: q :: more)).toList =
          p.toList ++ sep :: (join s (q :: more)).toList := by simp [join, hs]
      rw [hjoin, pieces_append hp, ih (List.cons_ne_nil q more) hrest]
      rfl

section Around

variable {β : Type} {f : List Char → β} {around : List Char}

/-- What makes no difference before a piece makes none before a text that is cut. -/
theorem map_pieces_append_left (hsep : sep ∉ around) (hf : ∀ p, f (around ++ p) = f p)
    (cs : List Char) : (pieces sep (around ++ cs)).map f = (pieces sep cs).map f := by
  by_cases h : sep ∈ cs
  · obtain ⟨l, r, rfl, hl⟩ := List.eq_append_cons_of_mem h
    rw [← List.append_assoc, pieces_append (by simp [hsep, hl]), pieces_append hl, List.map_cons,
      List.map_cons, hf]
  · rw [pieces_of_not_mem (by simp [hsep, h]), pieces_of_not_mem h, List.map_singleton,
      List.map_singleton, hf]

/-- What makes no difference behind a piece makes none behind a text that is cut. -/
theorem map_pieces_append_right (hsep : sep ∉ around) (hf : ∀ p, f (p ++ around) = f p)
    (cs : List Char) : (pieces sep (cs ++ around)).map f = (pieces sep cs).map f := by
  by_cases h : sep ∈ cs
  · -- The last separator is the first from behind.
    obtain ⟨r, l, hcs, hr⟩ := List.eq_append_cons_of_mem (List.mem_reverse.mpr h)
    obtain rfl : cs = l.reverse ++ sep :: r.reverse := by
      rw [← List.reverse_reverse cs, hcs]
      simp
    have hlast : pieces sep r.reverse = [r.reverse] := pieces_of_not_mem (by simp [hr])
    have hlonger : pieces sep (r.reverse ++ around) = [r.reverse ++ around] :=
      pieces_of_not_mem (by simp [hr, hsep])
    rw [List.append_assoc, List.cons_append, pieces_append_cons, pieces_append_cons, hlast, hlonger,
      List.map_append, List.map_append, List.map_singleton, List.map_singleton, hf]
  · rw [pieces_of_not_mem (by simp [hsep, h]), pieces_of_not_mem h, List.map_singleton,
      List.map_singleton, hf]

end Around

/-- A list is read in full exactly where each of its elements is read. -/
theorem mapM_eq_some_iff {α β : Type} {f : α → Option β} {l : List α} {l' : List β} :
    l.mapM f = some l' ↔ l.map f = l'.map some := by
  induction l generalizing l' with
  | nil => cases l' <;> simp
  | cons a rest ih =>
    cases l' with
    | nil => simp [List.mapM_cons, Option.bind_eq_some_iff]
    | cons b more => simp [List.mapM_cons, Option.bind_eq_some_iff, ih]

section Faults

variable {ε α β : Type} {f : α → Except ε β} {l : List α} {a : α} {b : β} {e : ε}

/-- Reading a list starts with its first element. -/
theorem mapM_cons_of_ok (h : f a = .ok b) (l : List α) :
    (a :: l).mapM f = (l.mapM f).map (b :: ·) := by
  rw [List.mapM_cons, h]
  cases l.mapM f <;> rfl

/-- Reading a list stops at the first fault. -/
theorem mapM_cons_of_error (h : f a = .error e) (l : List α) : (a :: l).mapM f = .error e := by
  rw [List.mapM_cons, h]
  rfl

/-- A list is read without a fault exactly where each of its elements is. -/
theorem mapM_eq_ok_iff {l' : List β} : l.mapM f = .ok l' ↔ l.map f = l'.map .ok := by
  induction l generalizing l' with
  | nil => cases l' <;> simp [pure, Except.pure]
  | cons a rest ih =>
    cases ha : f a with
    | error e =>
      rw [mapM_cons_of_error ha]
      cases l' <;> simp [ha]
    | ok b =>
      rw [mapM_cons_of_ok ha]
      cases l' with
      | nil => cases rest.mapM f <;> simp [Except.map]
      | cons c more =>
        rw [List.map_cons, List.map_cons, List.cons.injEq, ← ih, ha]
        cases rest.mapM f <;> simp [Except.map]

/-- The fault of a list is that of the first element which has one. -/
theorem mapM_eq_error_iff :
    l.mapM f = .error e ↔
      ∃ done a rest, l = done ++ a :: rest ∧ (∀ d ∈ done, ∃ b, f d = .ok b) ∧ f a = .error e := by
  constructor
  · intro h
    induction l with
    | nil => contradiction
    | cons a rest ih =>
      cases ha : f a with
      | error e' =>
        rw [mapM_cons_of_error ha] at h
        exact ⟨[], a, rest, rfl, nofun, ha.trans (congrArg _ (Except.error.inj h))⟩
      | ok b =>
        rw [mapM_cons_of_ok ha] at h
        have hrest : rest.mapM f = .error e := by
          cases hread : rest.mapM f with
          | error e' => rw [hread] at h; exact congrArg _ (Except.error.inj h)
          | ok bs => rw [hread] at h; contradiction
        obtain ⟨done, a', rest', rfl, hdone, ha'⟩ := ih hrest
        exact ⟨a :: done, a', rest', rfl, List.forall_mem_cons.mpr ⟨⟨b, ha⟩, hdone⟩, ha'⟩
  · rintro ⟨done, a, rest, rfl, hdone, ha⟩
    induction done with
    | nil => exact mapM_cons_of_error ha rest
    | cons d done ih =>
      obtain ⟨⟨b, hd⟩, hdone⟩ := List.forall_mem_cons.mp hdone
      rw [List.cons_append, mapM_cons_of_ok hd, ih hdone]
      rfl

end Faults

namespace Escape

/-- Read a text up to its closing quotation mark and undo the escapes. Answers the text and what
follows the mark; none when there is no such mark. -/
def quoted? : List Char → Option (List Char × List Char)
  | [] => none
  | '"' :: rest => some ([], rest)
  | '\\' :: c :: rest =>
    (quoted? rest).map fun p => ((if c = 'n' then '\n' else c) :: p.1, p.2)
  | c :: rest => (quoted? rest).map fun p => (c :: p.1, p.2)

/-- One escaped character is read, and reading goes on after it. -/
theorem quoted?_encodeChar_append (c : Char) (rest : List Char) :
    quoted? (encodeChar true c ++ rest) = (quoted? rest).map fun p => (c :: p.1, p.2) := by
  unfold encodeChar
  split
  · subst_vars; simp [quoted?]
  · split
    · subst_vars; simp [quoted?]
    · split
      · rename_i h; simp [quoted?, h.1]
      · rename_i hbackslash _ hquote
        rw [List.singleton_append, quoted?]
        · exact fun h => hquote ⟨h, rfl⟩
        · exact fun _ _ h => absurd h hbackslash

/-- A written text is read back up to the closing mark, whatever follows. -/
theorem quoted?_encode (cs rest : List Char) :
    quoted? (encode true cs ++ '"' :: rest) = some (cs, rest) := by
  induction cs with
  | nil => rfl
  | cons c more ih =>
    rw [encode, List.flatMap_cons, List.append_assoc, quoted?_encodeChar_append]
    change (quoted? (encode true more ++ '"' :: rest)).map _ = _
    rw [ih]
    rfl

/-- What follows a quoted text is shorter than the whole. -/
theorem length_lt_of_quoted? {cs value rest : List Char} (h : quoted? cs = some (value, rest)) :
    rest.length < cs.length := by
  fun_induction quoted? cs generalizing value rest with
  | case1 => contradiction
  | case2 tail =>
    obtain ⟨-, rfl⟩ := Prod.mk.inj (Option.some.inj h)
    exact Nat.lt_succ_self _
  | case3 c tail ih =>
    obtain ⟨p, hp, he⟩ := Option.map_eq_some_iff.mp h
    obtain ⟨-, rfl⟩ := Prod.mk.inj he
    exact Nat.lt_succ_of_lt (Nat.lt_succ_of_lt (ih hp))
  | case4 c tail _ _ ih =>
    obtain ⟨p, hp, he⟩ := Option.map_eq_some_iff.mp h
    obtain ⟨-, rfl⟩ := Prod.mk.inj he
    exact Nat.lt_succ_of_lt (ih hp)

/-- A written text has no line feed. -/
theorem newline_not_mem_encode (quotes : Bool) (cs : List Char) : '\n' ∉ encode quotes cs := by
  intro h
  obtain ⟨c, -, hc⟩ := List.mem_flatMap.mp h
  unfold encodeChar at hc
  split at hc
  · simp at hc
  · split at hc
    · simp at hc
    · split at hc
      · simp at hc
      · rename_i hne _
        exact hne (List.mem_singleton.mp hc).symm

end Escape

end Telemetry.Text
