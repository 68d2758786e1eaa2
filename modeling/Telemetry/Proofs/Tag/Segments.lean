import Mathlib.Data.List.Basic
import Telemetry.Tag.Expression

/-!
# Segments of tag expressions

An expression is cut at the commas that no backslash stands right before, and at no others. What lies
between two such commas has a backslash before each of its commas; without these backslashes it is a
segment. There is one way to cut an expression, and writing the backslashes again brings it back.
-/

namespace Telemetry.Tag

/-- A text in which every comma stands right after a backslash. -/
def Escaped (cs : List Char) : Prop := ∀ l r, cs = l ++ ',' :: r → l.getLast? = some '\\'

/-- Drop the backslash before each comma. -/
def unescapeCommas : List Char → List Char
  | [] => []
  | '\\' :: ',' :: rest => ',' :: unescapeCommas rest
  | c :: rest => c :: unescapeCommas rest

/-- A text with its parts between the commas that no backslash stands right before. -/
inductive Cut : List Char → List (List Char) → Prop
  | whole {raw : List Char} : Escaped raw → Cut raw [raw]
  | comma {raw rest : List Char} {raws : List (List Char)} :
    Escaped raw → raw.getLast? ≠ some '\\' → Cut rest raws → Cut (raw ++ ',' :: rest) (raw :: raws)

variable {c : Char} {cs l r raw : List Char} {raws parts : List (List Char)}

section Escaping

/-- The empty text is escaped. -/
theorem escaped_nil : Escaped [] := by
  intro l r h
  simp at h

/-- Any character but a comma may stand before an escaped text. -/
theorem Escaped.cons (hc : c ≠ ',') (h : Escaped cs) : Escaped (c :: cs) := by
  intro l r heq
  cases l with
  | nil => exact absurd (List.cons.inj heq).1 hc
  | cons d l =>
    have hlast : l.getLast? = some '\\' := h l r (List.cons.inj heq).2
    rw [List.getLast?_cons, hlast]
    rfl

/-- A comma may stand before an escaped text when a backslash stands before the comma. -/
theorem Escaped.comma (h : Escaped cs) : Escaped ('\\' :: ',' :: cs) := by
  intro l r heq
  match l with
  | [] => simp at heq
  | [d] => rw [← (List.cons.inj heq).1]; rfl
  | d :: e :: l =>
    have hlast : l.getLast? = some '\\' := h l r (List.cons.inj (List.cons.inj heq).2).2
    rw [List.getLast?_cons_cons, List.getLast?_cons, hlast]
    rfl

/-- An escaped text does not begin with a comma. -/
theorem Escaped.head?_ne (h : Escaped cs) : cs.head? ≠ some ',' := by
  intro hhead
  obtain ⟨rest, rfl⟩ := List.head?_eq_some_iff.mp hhead
  exact absurd (h [] rest rfl) nofun

/-- What follows in an escaped text is escaped, unless it begins with a comma. -/
theorem Escaped.of_append (h : Escaped (l ++ r)) (hr : l.getLast? = some '\\' → r.head? ≠ some ',') :
    Escaped r := by
  rintro front back rfl
  have hlast : (l ++ front).getLast? = some '\\' := h (l ++ front) back (by simp)
  cases front with
  | nil => exact absurd rfl (hr (by simpa using hlast))
  | cons d front => simpa using hlast

/-- A comma is written with a backslash before it. -/
theorem escapeCommas_comma (cs : List Char) :
    escapeCommas (',' :: cs) = '\\' :: ',' :: escapeCommas cs := rfl

/-- Any other character is written as it is. -/
theorem escapeCommas_cons (hc : c ≠ ',') (cs : List Char) :
    escapeCommas (c :: cs) = c :: escapeCommas cs := by
  rw [escapeCommas, List.flatMap_cons, if_neg hc]
  rfl

/-- Parts are written one after the other. -/
theorem escapeCommas_append (l r : List Char) :
    escapeCommas (l ++ r) = escapeCommas l ++ escapeCommas r := List.flatMap_append

/-- A text without commas is written as it is. -/
theorem escapeCommas_of_not_mem (h : ',' ∉ cs) : escapeCommas cs = cs := by
  induction cs with
  | nil => rfl
  | cons c rest ih =>
    obtain ⟨hc, hrest⟩ := not_or.mp (mt List.mem_cons.mpr h)
    rw [escapeCommas_cons (Ne.symm hc), ih hrest]

/-- Writing commas with a backslash does not change how a text ends. -/
theorem getLast?_escapeCommas (cs : List Char) : (escapeCommas cs).getLast? = cs.getLast? := by
  induction cs with
  | nil => rfl
  | cons c rest ih =>
    by_cases hc : c = ','
    · rw [hc, escapeCommas_comma, List.getLast?_cons_cons, List.getLast?_cons, ih, List.getLast?_cons]
    · rw [escapeCommas_cons hc, List.getLast?_cons, ih, List.getLast?_cons]

/-- Nothing is written only for the empty text. -/
theorem escapeCommas_eq_nil_iff : escapeCommas cs = [] ↔ cs = [] := by
  rw [← List.getLast?_eq_none_iff, getLast?_escapeCommas, List.getLast?_eq_none_iff]

/-- What is written is escaped. -/
theorem escaped_escapeCommas (cs : List Char) : Escaped (escapeCommas cs) := by
  induction cs with
  | nil => exact escaped_nil
  | cons c rest ih =>
    by_cases hc : c = ','
    · rw [hc, escapeCommas_comma]
      exact ih.comma
    · rw [escapeCommas_cons hc]
      exact ih.cons hc

/-- A character stays when it is no backslash before a comma. -/
theorem unescapeCommas_cons (hpair : c = '\\' → cs.head? ≠ some ',') :
    unescapeCommas (c :: cs) = c :: unescapeCommas cs := by
  rw [unescapeCommas]
  rintro rest rfl rfl
  exact hpair rfl rfl

/-- A written text is read back. -/
theorem unescapeCommas_escapeCommas (cs : List Char) : unescapeCommas (escapeCommas cs) = cs := by
  induction cs with
  | nil => rfl
  | cons c rest ih =>
    by_cases hc : c = ','
    · rw [hc, escapeCommas_comma, unescapeCommas, ih]
    · rw [escapeCommas_cons hc, unescapeCommas_cons fun _ => (escaped_escapeCommas rest).head?_ne, ih]

/-- An escaped text is the written form of what is read from it. -/
theorem Escaped.escapeCommas_unescapeCommas (h : Escaped cs) : escapeCommas (unescapeCommas cs) = cs := by
  fun_induction unescapeCommas cs with
  | case1 => rfl
  | case2 rest ih =>
    have hrest : Escaped rest := Escaped.of_append (l := ['\\', ',']) h (by simp)
    rw [escapeCommas_comma, ih hrest]
  | case3 c rest hpair ih =>
    have hc : c ≠ ',' := fun hc => h.head?_ne (congrArg some hc)
    have hrest : Escaped rest := by
      refine Escaped.of_append (l := [c]) h fun hlast hhead => ?_
      obtain ⟨more, rfl⟩ := List.head?_eq_some_iff.mp hhead
      exact hpair more (Option.some.inj hlast) rfl
    rw [escapeCommas_cons hc, ih hrest]

end Escaping

section Cutting

/-- A character goes into the first segment, unless it is a comma or a backslash before one. -/
theorem segments_cons (hc : c ≠ ',') (hpair : c = '\\' → cs.head? ≠ some ',') :
    segments (c :: cs) = intoFirst c (segments cs) := by
  rw [segments]
  · rintro rest rfl rfl
    exact hpair rfl rfl
  · exact hc

/-- Characters are put in front of the first segment one by one. -/
theorem foldr_intoFirst (cs part : List Char) (more : List (List Char)) :
    cs.foldr intoFirst (part :: more) = (cs ++ part) :: more := by
  induction cs with
  | nil => rfl
  | cons c rest ih => rw [List.foldr_cons, ih]; rfl

/-- What is written goes into the first segment, unless it ends in a backslash before a comma. -/
theorem segments_escapeCommas_append (h : l.getLast? = some '\\' → r.head? ≠ some ',') :
    segments (escapeCommas l ++ r) = l.foldr intoFirst (segments r) := by
  induction l with
  | nil => rfl
  | cons c rest ih =>
    have hrest := ih fun hlast => h (List.mem_getLast?_cons hlast)
    by_cases hc : c = ','
    · rw [hc, escapeCommas_comma, List.cons_append, List.cons_append, segments, hrest]
      rfl
    · have hpair : c = '\\' → (escapeCommas rest ++ r).head? ≠ some ',' := by
        rintro rfl hhead
        rw [List.head?_append, Option.or_eq_some_iff] at hhead
        rcases hhead with hhead | ⟨hnone, hhead⟩
        · exact (escaped_escapeCommas rest).head?_ne hhead
        · obtain rfl : rest = [] := escapeCommas_eq_nil_iff.mp (List.head?_eq_none_iff.mp hnone)
          exact h rfl hhead
      rw [escapeCommas_cons hc, List.cons_append, segments_cons hc hpair, hrest]
      rfl

/-- A written text is one segment. -/
theorem segments_escapeCommas (cs : List Char) : segments (escapeCommas cs) = [cs] := by
  have h := segments_escapeCommas_append (l := cs) (r := []) fun _ => nofun
  rwa [List.append_nil, segments, foldr_intoFirst, List.append_nil] at h

/-- A written text is a segment when it stands before a comma and does not end in a backslash. -/
theorem segments_escapeCommas_comma (h : l.getLast? ≠ some '\\') (r : List Char) :
    segments (escapeCommas l ++ ',' :: r) = l :: segments r := by
  rw [segments_escapeCommas_append fun hlast => absurd hlast h, segments, foldr_intoFirst,
    List.append_nil]

/-- A written text that ends in a backslash is no segment before a comma: the comma takes the place of
the backslash, and the segment goes on. -/
theorem segments_escapeCommas_backslash (l r : List Char) :
    segments (escapeCommas (l ++ ['\\']) ++ ',' :: r) = (l ++ [',']).foldr intoFirst (segments r) := by
  -- The last backslash and the comma are what an escaped comma is written as.
  have hshift : escapeCommas (l ++ ['\\']) ++ ',' :: r = escapeCommas (l ++ [',']) ++ r := by
    rw [escapeCommas_append, escapeCommas_append, List.append_assoc, List.append_assoc]
    rfl
  rw [hshift, segments_escapeCommas_append]
  simp

/-- The segments are the parts of the text, each read. -/
theorem Cut.segments_eq (h : Cut cs raws) : segments cs = raws.map unescapeCommas := by
  induction h with
  | @whole raw hraw =>
    have hone := segments_escapeCommas (unescapeCommas raw)
    rwa [hraw.escapeCommas_unescapeCommas] at hone
  | @comma raw rest raws hraw hlast _ ih =>
    rw [← hraw.escapeCommas_unescapeCommas, getLast?_escapeCommas] at hlast
    have hfirst := segments_escapeCommas_comma hlast rest
    rwa [hraw.escapeCommas_unescapeCommas, ih] at hfirst

/-- The parts of a text are escaped. -/
theorem Cut.escaped (h : Cut cs raws) : ∀ raw ∈ raws, Escaped raw := by
  induction h with
  | whole hraw => simpa using hraw
  | comma hraw _ _ ih => exact List.forall_mem_cons.mpr ⟨hraw, ih⟩

/-- A character goes into the first part as it goes into the first segment. -/
theorem Cut.intoFirst (h : Cut cs (parts.map escapeCommas)) (hpair : c = '\\' → cs.head? ≠ some ',') :
    Cut (escapeCommas [c] ++ cs) ((Tag.intoFirst c parts).map escapeCommas) := by
  generalize hraws : parts.map escapeCommas = raws at h
  cases h with
  | whole _ =>
    obtain ⟨part, rfl, rfl⟩ := List.map_eq_singleton_iff.mp hraws
    rw [← escapeCommas_append]
    exact .whole (escaped_escapeCommas (c :: part))
  | comma _ hlast hrest =>
    obtain ⟨part, more, rfl, rfl, rfl⟩ := List.map_eq_cons_iff.mp hraws
    rw [← List.append_assoc, ← escapeCommas_append]
    refine .comma (escaped_escapeCommas (c :: part)) ?_ hrest
    rw [getLast?_escapeCommas] at hlast ⊢
    -- Only in front of an empty part does the character stand right before the comma.
    cases part with
    | nil => exact fun hc => hpair (Option.some.inj hc) rfl
    | cons d part => exact hlast

/-- The segments, written again, are the parts of the text. -/
theorem cut_segments (cs : List Char) : Cut cs ((segments cs).map escapeCommas) := by
  fun_induction segments cs with
  | case1 => exact .whole escaped_nil
  | case2 rest ih => exact ih.intoFirst (c := ',') fun hc => absurd hc (by decide)
  | case3 rest ih => exact .comma escaped_nil nofun ih
  | case4 c rest hpair hc ih =>
    have hwritten : escapeCommas [c] = [c] := escapeCommas_cons hc []
    have hcut := ih.intoFirst (c := c) fun hbackslash hhead => by
      obtain ⟨more, rfl⟩ := List.head?_eq_some_iff.mp hhead
      exact hpair more hbackslash rfl
    rwa [hwritten] at hcut

/-- A text has parts in one way only. -/
theorem cut_iff : Cut cs raws ↔ raws = (segments cs).map escapeCommas := by
  constructor
  · intro h
    have hid : raws.map (escapeCommas ∘ unescapeCommas) = raws.map id :=
      List.map_congr_left fun raw hraw => (h.escaped raw hraw).escapeCommas_unescapeCommas
    rw [h.segments_eq, List.map_map, hid, List.map_id]
  · rintro rfl
    exact cut_segments cs

end Cutting

end Telemetry.Tag
