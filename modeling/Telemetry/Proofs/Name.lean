import Mathlib.Data.List.Chain
import Telemetry.Name
import Telemetry.Proofs.Text.Letters

/-!
# Names that sanitizing leaves alone

A name is settled when all of its characters are safe and no underscore follows an underscore or a colon.
Sanitizing makes settled names, and these are the names that it leaves alone. How a sanitized name begins
and ends can be told from the first and the last character of what it was made from.
-/

namespace Telemetry.Name

/-- Characters that may stand side by side: no underscore follows an underscore or a colon. -/
def Fits (a b : Char) : Prop := b = '_' → a ≠ '_' ∧ a ≠ ':'

instance : DecidableRel Fits := fun a b =>
  inferInstanceAs (Decidable (b = '_' → a ≠ '_' ∧ a ≠ ':'))

/-- Safe characters that all fit together. -/
structure Settled (s : String) : Prop where
  safe : ∀ c ∈ s.toList, isSafe c = true
  fits : s.toList.IsChain Fits

instance (s : String) : Decidable (Settled s) :=
  decidable_of_iff (s.toList.all isSafe = true ∧ s.toList.IsChain Fits)
    ⟨fun h => ⟨List.all_eq_true.mp h.1, h.2⟩, fun h => ⟨List.all_eq_true.mpr h.safe, h.fits⟩⟩

/-- What a settled name begins with is settled. -/
theorem Settled.of_isPrefix {s t : String} (hs : Settled s) (h : t.toList <+: s.toList) : Settled t := by
  obtain ⟨rest, h⟩ := h
  have hfits := hs.fits
  rw [← h] at hfits
  exact ⟨fun c hc => hs.safe c (h ▸ List.mem_append_left rest hc), hfits.left_of_append⟩

/-- What a settled name ends with is settled. -/
theorem Settled.of_isSuffix {s t : String} (hs : Settled s) (h : t.toList <:+ s.toList) : Settled t :=
  ⟨fun c hc => hs.safe c (h.subset hc), hs.fits.suffix h⟩

/-- Whether a text begins with a digit. -/
def beginsWithDigit (s : String) : Bool := s.toList.head?.any Char.isDigit

/-- Whether a text begins with a letter, a digit or a colon. -/
def beginsPlain (s : String) : Bool := s.toList.head?.any fun c => c.isAlphanum || c == ':'

/-- Whether a text ends with a letter or a digit. -/
def endsPlain (s : String) : Bool := s.toList.getLast?.any Char.isAlphanum

section Characters

variable {c : Char}

/-- The lower-case form of a letter or a digit is one. -/
theorem isAlphanum_toLower (h : c.isAlphanum = true) : c.toLower.isAlphanum = true := by
  cases hu : c.isUpper with
  | true => simp [Text.isAlphanum_eq, isLower_toLower hu]
  | false => rwa [Text.toLower_of_not_isUpper hu]

/-- Underscores and colons are no letters or digits. -/
theorem ne_of_isAlphanum (h : c.isAlphanum = true) : c ≠ '_' ∧ c ≠ ':' := by
  constructor
  · rintro rfl
    contradiction
  · rintro rfl
    contradiction

/-- A safe character is no upper-case letter. -/
theorem isUpper_of_isSafe (h : isSafe c = true) : c.isUpper = false := by
  rw [← Bool.not_eq_true]
  intro hu
  simp only [isSafe, Text.isLower_of_isUpper hu, Text.isDigit_of_isUpper hu, Bool.false_or, Bool.or_eq_true, beq_iff_eq] at h
  obtain rfl | rfl := h
  · contradiction
  · contradiction

/-- A safe character is in lower case. -/
theorem toLower_of_isSafe (h : isSafe c = true) : c.toLower = c :=
  Text.toLower_of_not_isUpper (isUpper_of_isSafe h)

/-- A safe character that is no letter or digit is an underscore or a colon. -/
theorem eq_of_isSafe (h : isSafe c = true) (hc : c.isAlphanum = false) : c = '_' ∨ c = ':' := by
  simp only [Text.isAlphanum_eq, Bool.or_eq_false_iff] at hc
  simpa [isSafe, hc.1.2, hc.2] using h

/-- Of the safe characters, the letters and digits are those that an underscore may follow. -/
theorem fits_underscore_iff (h : isSafe c = true) : Fits c '_' ↔ c.isAlphanum = true := by
  constructor
  · intro hfits
    by_contra hc
    obtain rfl | rfl := eq_of_isSafe h (by simpa using hc)
    · exact (hfits rfl).1 rfl
    · exact (hfits rfl).2 rfl
  · exact fun hc _ => ne_of_isAlphanum hc

/-- Anything may follow a letter or a digit. -/
theorem Fits.of_isAlphanum (h : c.isAlphanum = true) (d : Char) : Fits c d :=
  fun _ => ne_of_isAlphanum h

end Characters

section Ends

variable {s t : String}

/-- A text begins with a digit when a part that it begins with does. -/
theorem beginsWithDigit_of_isPrefix (ht : t ≠ "") (h : t.toList <+: s.toList) :
    beginsWithDigit t = beginsWithDigit s := by
  obtain ⟨rest, hs⟩ := h
  have hne : t.toList ≠ [] := mt String.toList_eq_nil_iff.mp ht
  rw [beginsWithDigit, beginsWithDigit, ← hs, List.head?_append_of_ne_nil _ hne]

/-- A text ends plainly when a part that it ends with does. -/
theorem endsPlain_of_isSuffix (ht : t ≠ "") (h : t.toList <:+ s.toList) : endsPlain s = endsPlain t := by
  obtain ⟨rest, hs⟩ := h
  have hne : t.toList ≠ [] := mt String.toList_eq_nil_iff.mp ht
  rw [endsPlain, endsPlain, ← hs, List.getLast?_append_of_ne_nil _ hne]

/-- A settled name ends plainly when an underscore may follow it. -/
theorem Settled.endsPlain_iff (hs : Settled s) (hne : s ≠ "") :
    endsPlain s = true ↔ ∀ c ∈ s.toList.getLast?, Fits c '_' := by
  obtain ⟨c, hc⟩ := Option.ne_none_iff_exists'.mp
    (mt List.getLast?_eq_none_iff.mp (mt String.toList_eq_nil_iff.mp hne))
  have hsafe := hs.safe c (List.mem_of_getLast? hc)
  simp [endsPlain, hc, fits_underscore_iff hsafe]

/-- A settled name begins plainly when it may follow an underscore. -/
theorem Settled.beginsPlain_iff (hs : Settled s) (hne : s ≠ "") :
    beginsPlain s = true ↔ ∀ c ∈ s.toList.head?, Fits '_' c := by
  obtain ⟨c, hc⟩ := Option.ne_none_iff_exists'.mp
    (mt List.head?_eq_none_iff.mp (mt String.toList_eq_nil_iff.mp hne))
  have hsafe := hs.safe c (List.mem_of_head? hc)
  have hfits : (c.isAlphanum || c == ':') = true ↔ Fits '_' c := by
    constructor
    · rintro h rfl
      contradiction
    · intro h
      by_contra hc
      rw [Bool.not_eq_true, Bool.or_eq_false_iff] at hc
      obtain rfl | rfl := eq_of_isSafe hsafe hc.1
      · exact (h rfl).1 rfl
      · exact absurd hc.2 (by decide)
  simp [beginsPlain, hc, ← hfits]

end Ends

section Sanitizing

variable {cs : List Char} {s : String}

/-- One character is sanitized before the rest: a letter or digit is written in lower case, a colon as it
is, and anything else as an underscore, if one may be written. -/
theorem sanitizeFrom_of_cons (afterLower closed : Bool) (c : Char) (rest : List Char) :
    sanitizeFrom afterLower closed (c :: rest) =
      if c.isAlphanum then
        (if afterLower && c.isUpper then separator closed else []) ++
          c.toLower :: sanitizeFrom c.isLower false rest
      else if c = ':' then ':' :: sanitizeFrom false true rest
      else separator closed ++ sanitizeFrom false true rest := by
  rw [sanitizeFrom, Text.isAlphanum_eq]
  cases hu : c.isUpper with
  | true => simp [Text.isLower_of_isUpper hu]
  | false =>
    have hlower : c.toLower = c := Text.toLower_of_not_isUpper hu
    cases hl : c.isLower with
    | true => simp [hlower]
    | false => cases hd : c.isDigit <;> simp [hlower]

/-- What is written fits together, and does not begin with an underscore where none may be written. -/
theorem fits_sanitizeFrom (afterLower closed : Bool) (cs : List Char) :
    (sanitizeFrom afterLower closed cs).IsChain Fits ∧
      (closed = true → (sanitizeFrom afterLower closed cs).head? ≠ some '_') := by
  induction cs generalizing afterLower closed with
  | nil => exact ⟨.nil, fun _ => nofun⟩
  | cons c rest ih =>
    have hclosing {x : Char} : (x :: sanitizeFrom false true rest).IsChain Fits := by
      refine (ih false true).1.cons fun y hy hunderscore => ?_
      rw [Option.mem_def, hunderscore] at hy
      exact absurd hy ((ih false true).2 rfl)
    rw [sanitizeFrom_of_cons]
    split
    · rename_i hc
      have hne : c.toLower ≠ '_' := (ne_of_isAlphanum (isAlphanum_toLower hc)).1
      have hword : (c.toLower :: sanitizeFrom c.isLower false rest).IsChain Fits :=
        (ih _ _).1.cons fun y _ => .of_isAlphanum (isAlphanum_toLower hc) y
      cases closed with
      | true => simpa [separator] using ⟨hword, hne⟩
      | false =>
        refine ⟨?_, fun h => absurd h Bool.false_ne_true⟩
        split
        · exact hword.cons fun y hy h => absurd ((Option.some.inj hy).trans h) hne
        · exact hword
    split
    · exact ⟨hclosing, fun _ => by simp⟩
    · cases closed with
      | false => exact ⟨hclosing, fun h => absurd h Bool.false_ne_true⟩
      | true => exact ih false true

/-- Safe characters that fit together are written as they are, where they may be written. -/
theorem sanitizeFrom_eq_self (afterLower closed : Bool) (hsafe : ∀ c ∈ cs, isSafe c = true)
    (hfits : cs.IsChain Fits) (hclosed : closed = true → cs.head? ≠ some '_') :
    sanitizeFrom afterLower closed cs = cs := by
  induction cs generalizing afterLower closed with
  | nil => rfl
  | cons c rest ih =>
    obtain ⟨hc, hrest⟩ := List.forall_mem_cons.mp hsafe
    obtain ⟨hnext, hfits⟩ := List.isChain_cons.mp hfits
    have hclosing (h : c.isAlphanum = false) : sanitizeFrom false true rest = rest := by
      refine ih _ _ hrest hfits fun _ hhead => ?_
      have hplain := (fits_underscore_iff hc).mp (hnext '_' hhead)
      simp [hplain] at h
    rw [sanitizeFrom_of_cons]
    split
    · rw [isUpper_of_isSafe hc, Bool.and_false, toLower_of_isSafe hc,
        ih c.isLower false hrest hfits nofun]
      rfl
    · rename_i hplain
      rw [Bool.not_eq_true] at hplain
      rw [hclosing hplain]
      obtain rfl | rfl := eq_of_isSafe hc hplain
      · cases closed with
        | false => rfl
        | true => exact absurd rfl (hclosed rfl)
      · rfl

/-- Sanitized names are settled. -/
theorem settled_sanitize (s : String) : Settled (sanitize s) where
  safe c hc := by
    rw [sanitize, String.toList_ofList] at hc
    exact isSafe_of_mem_sanitizeFrom hc
  fits := by
    rw [sanitize, String.toList_ofList]
    exact (fits_sanitizeFrom _ _ _).1

/-- The names that sanitizing leaves alone are those that are settled. -/
theorem sanitize_eq_self_iff : sanitize s = s ↔ Settled s := by
  constructor
  · intro h
    rw [← h]
    exact settled_sanitize s
  · intro h
    rw [sanitize, sanitizeFrom_eq_self false false h.safe h.fits nofun, String.ofList_toList]

/-- Sanitizing a sanitized name changes nothing. -/
theorem sanitize_sanitize (s : String) : sanitize (sanitize s) = sanitize s :=
  sanitize_eq_self_iff.mpr (settled_sanitize s)

/-- What a name begins with that is made from a text with this beginning. -/
def lead (c : Char) : Char := if c.isAlphanum then c.toLower else if c = ':' then ':' else '_'

/-- A sanitized name begins as its text does. -/
theorem head?_sanitize (s : String) : (sanitize s).toList.head? = s.toList.head?.map lead := by
  rw [sanitize, String.toList_ofList]
  cases s.toList with
  | nil => rfl
  | cons c rest =>
    rw [sanitizeFrom_of_cons, List.head?_cons, Option.map_some, lead]
    split
    · rfl
    split <;> rfl

/-- A sanitized name is empty only if its text is. -/
theorem sanitize_ne_empty (h : s ≠ "") : sanitize s ≠ "" := by
  intro hempty
  have hhead := head?_sanitize s
  rw [hempty, String.toList_empty, List.head?_nil, eq_comm, Option.map_eq_none_iff,
    List.head?_eq_none_iff, String.toList_eq_nil_iff] at hhead
  exact h hhead

/-- A sanitized name begins with a letter, a digit or a colon when its text does. -/
theorem beginsPlain_sanitize (s : String) : beginsPlain (sanitize s) = beginsPlain s := by
  rw [beginsPlain, head?_sanitize, beginsPlain]
  cases s.toList.head? with
  | none => rfl
  | some c =>
    simp only [Option.map_some, Option.any_some, lead]
    cases hc : c.isAlphanum with
    | true => simp [isAlphanum_toLower hc]
    | false => by_cases hcolon : c = ':' <;> simp [hcolon]

/-- A sanitized name begins with a digit when its text does. -/
theorem beginsWithDigit_sanitize (s : String) :
    beginsWithDigit (sanitize s) = beginsWithDigit s := by
  rw [beginsWithDigit, head?_sanitize, beginsWithDigit]
  cases s.toList.head? with
  | none => rfl
  | some c =>
    simp only [Option.map_some, Option.any_some, lead]
    have hdigit : c.toLower.isDigit = c.isDigit := by
      cases hu : c.isUpper with
      | true => rw [Text.isDigit_of_isLower (isLower_toLower hu), Text.isDigit_of_isUpper hu]
      | false => rw [Text.toLower_of_not_isUpper hu]
    cases hc : c.isAlphanum with
    | true => simpa using hdigit
    | false =>
      have hnone : c.isDigit = false := (Bool.or_eq_false_iff.mp hc).2
      by_cases hcolon : c = ':' <;> simp [hcolon, hnone]

/-- Whether characters end with a letter or a digit; if there is none, it is as before them. -/
def endsPlainAfter (before : Bool) (cs : List Char) : Bool := cs.foldl (fun _ c => c.isAlphanum) before

/-- What is written ends with a letter or a digit when the text does. -/
theorem endsPlainAfter_sanitizeFrom {before : Bool} (afterLower closed : Bool) (cs : List Char)
    (hclosed : closed = true → before = false) :
    endsPlainAfter before (sanitizeFrom afterLower closed cs) = endsPlainAfter before cs := by
  induction cs generalizing afterLower closed before with
  | nil => rfl
  | cons c rest ih =>
    have happend (x : List Char) (y : Char) (z : List Char) :
        endsPlainAfter before (x ++ y :: z) = endsPlainAfter y.isAlphanum z := List.foldl_append
    have hrest : endsPlainAfter before (c :: rest) = endsPlainAfter c.isAlphanum rest := rfl
    rw [sanitizeFrom_of_cons, hrest]
    split
    · rename_i hc
      rw [happend, isAlphanum_toLower hc, hc]
      exact ih c.isLower false nofun
    rename_i hc
    rw [Bool.not_eq_true] at hc
    rw [hc]
    split
    · exact (happend [] ':' _).trans (ih false true fun _ => rfl)
    · cases closed with
      | false => exact (happend [] '_' _).trans (ih false true fun _ => rfl)
      | true =>
        rw [hclosed rfl]
        exact ih false true fun _ => rfl

/-- A text ends plainly when its characters do. -/
theorem endsPlain_eq (s : String) : endsPlain s = endsPlainAfter false s.toList := by
  unfold endsPlain endsPlainAfter
  induction s.toList using List.reverseRecOn with
  | nil => rfl
  | append_singleton cs c _ => simp

/-- A sanitized name ends with a letter or a digit when its text does. -/
theorem endsPlain_sanitize (s : String) : endsPlain (sanitize s) = endsPlain s := by
  rw [endsPlain_eq, endsPlain_eq, sanitize, String.toList_ofList]
  exact endsPlainAfter_sanitizeFrom false false _ nofun

end Sanitizing

end Telemetry.Name
