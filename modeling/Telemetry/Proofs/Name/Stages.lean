import Mathlib.Data.List.SplitBy
import Telemetry.Proofs.Name

/-!
# Sanitizing in stages

A name is sanitized in one pass. The same is got in four stages, each over the whole name: underscores are
put between words, letters are written in lower case, every run of characters that are no letters, digits
or colons becomes one underscore, and underscores after colons are dropped. The flags of the one pass say
what the stages find at a place: whether a word may end there, and whether an underscore there would be
the second of a run or stand after a colon.
-/

namespace Telemetry.Name

/-- Put an underscore between a lower-case letter and an upper-case letter right after it. -/
def partWords : List Char → List Char
  | [] => []
  | c :: rest =>
    if c.isLower && rest.head?.any Char.isUpper then c :: '_' :: partWords rest
    else c :: partWords rest

/-- A lower-case letter, a digit or a colon. -/
def isPlain (c : Char) : Bool := c.isLower || c.isDigit || c == ':'

/-- Characters that stand in one run: both are plain, or neither is. -/
def alike (a b : Char) : Bool := isPlain a == isPlain b

/-- Replace each longest run of characters that are not plain by one underscore. -/
def replaceRuns (cs : List Char) : List Char :=
  (cs.splitBy alike).flatMap fun run => if run.all isPlain then run else ['_']

/-- Drop each underscore that stands right after a colon. -/
def dropAfterColon : List Char → List Char
  | [] => []
  | ':' :: '_' :: rest => ':' :: dropAfterColon rest
  | c :: rest => c :: dropAfterColon rest

/-- A text without the underscore that it begins with. -/
def dropUnderscore : List Char → List Char
  | '_' :: rest => rest
  | cs => cs

/-- The underscore between a lower-case letter, if one was read last, and an upper-case letter. -/
def wordGap (afterLower : Bool) (cs : List Char) : List Char :=
  if afterLower && cs.head?.any Char.isUpper then ['_'] else []

/-- What all stages but the last make of the rest of a text and the gap before it. -/
def stagedFrom (afterLower : Bool) (cs : List Char) : List Char :=
  replaceRuns ((wordGap afterLower cs ++ partWords cs).map Char.toLower)

variable {c d : Char} {cs : List Char}

section Runs

/-- A character in front that is related to the first one goes into the first run. -/
theorem splitBy_cons_cons {r : Char → Char → Bool} (h : r c d = true) (cs : List Char) :
    ∃ run runs, (d :: cs).splitBy r = (d :: run) :: runs ∧
      (c :: d :: cs).splitBy r = (c :: d :: run) :: runs := by
  cases hsplit : (d :: cs).splitBy r with
  | nil => exact absurd (List.splitBy_eq_nil.mp hsplit) (List.cons_ne_nil d cs)
  | cons first runs =>
    obtain ⟨hjoin, hempty, hwithin, hbetween⟩ := List.splitBy_eq_iff.mp hsplit
    cases first with
    | nil => exact absurd List.mem_cons_self hempty
    | cons e run =>
      obtain rfl : d = e := (List.cons.inj hjoin).1
      obtain ⟨hfirst, hwithin⟩ := List.forall_mem_cons.mp hwithin
      obtain ⟨hnext, hbetween⟩ := List.isChain_cons.mp hbetween
      refine ⟨run, runs, rfl, ?_⟩
      -- Runs are determined by their join, by having characters, and by where they may not end.
      rw [List.splitBy_eq_iff]
      refine ⟨by rw [hjoin]; rfl, by simpa using hempty, ?_, ?_⟩
      · exact List.forall_mem_cons.mpr ⟨hfirst.cons_cons h, hwithin⟩
      · refine List.isChain_cons.mpr ⟨fun after hafter => ?_, hbetween⟩
        obtain ⟨hrun, hne, hlast⟩ := hnext after hafter
        exact ⟨List.cons_ne_nil c _, hne, by rwa [List.getLast_cons hrun]⟩

/-- The characters of a run are alike. -/
theorem all_isPlain_of_mem_splitBy {run : List Char} (h : c :: run ∈ cs.splitBy alike) :
    (c :: run).all isPlain = isPlain c := by
  have hchain := List.isChain_of_mem_splitBy h
  clear h
  induction run generalizing c with
  | nil => simp
  | cons d rest ih =>
    obtain ⟨hcd, hrest⟩ := List.isChain_cons_cons.mp hchain
    have hcd : isPlain c = isPlain d := by simpa [alike] using hcd
    rw [List.all_cons, ih hrest, hcd, Bool.and_self]

/-- The first run is kept or replaced, as its first character is plain or not. -/
theorem replaceRuns_of_splitBy {run : List Char} {runs : List (List Char)}
    (h : cs.splitBy alike = (c :: run) :: runs) :
    replaceRuns cs = (if isPlain c then c :: run else ['_']) ++
      runs.flatMap fun run => if run.all isPlain then run else ['_'] := by
  rw [replaceRuns, h, List.flatMap_cons, all_isPlain_of_mem_splitBy (h ▸ List.mem_cons_self)]

/-- A character that is not like the next one is a run of its own. -/
theorem replaceRuns_cons_cons (h : alike c d = false) (cs : List Char) :
    replaceRuns (c :: d :: cs) = (if isPlain c then c else '_') :: replaceRuns (d :: cs) := by
  have hsplit : (c :: d :: cs).splitBy alike = [c] :: (d :: cs).splitBy alike :=
    List.splitBy_append_cons (l := [c]) cs (by simpa using h)
  rw [replaceRuns_of_splitBy hsplit]
  split <;> rfl

/-- A plain character stays. -/
theorem replaceRuns_of_plain (hc : isPlain c = true) (cs : List Char) :
    replaceRuns (c :: cs) = c :: replaceRuns cs := by
  cases cs with
  | nil => rw [replaceRuns_of_splitBy rfl, if_pos hc]; rfl
  | cons d rest =>
    cases hd : isPlain d with
    | true =>
      have halike : alike c d = true := by simp [alike, hc, hd]
      obtain ⟨run, runs, hrest, hcons⟩ := splitBy_cons_cons halike rest
      rw [replaceRuns_of_splitBy hcons, replaceRuns_of_splitBy hrest, if_pos hc, if_pos hd]
      rfl
    | false =>
      have halike : alike c d = false := by simp [alike, hc, hd]
      rw [replaceRuns_cons_cons halike, if_pos hc]

/-- A text that does not begin with an underscore is left alone. -/
theorem dropUnderscore_cons (hc : c ≠ '_') (cs : List Char) : dropUnderscore (c :: cs) = c :: cs := by
  rw [dropUnderscore]
  rintro rest h
  exact hc (List.cons.inj h).1

/-- Another character becomes an underscore, together with the run that goes on after it. -/
theorem replaceRuns_of_not_plain (hc : isPlain c = false) (cs : List Char) :
    replaceRuns (c :: cs) = '_' :: dropUnderscore (replaceRuns cs) := by
  cases cs with
  | nil => rw [replaceRuns_of_splitBy rfl, hc]; rfl
  | cons d rest =>
    cases hd : isPlain d with
    | true =>
      have halike : alike c d = false := by simp [alike, hc, hd]
      have hne : d ≠ '_' := fun h => absurd (h ▸ hd) (by decide)
      rw [replaceRuns_cons_cons halike, hc, replaceRuns_of_plain hd, dropUnderscore_cons hne]
      rfl
    | false =>
      have halike : alike c d = true := by simp [alike, hc, hd]
      obtain ⟨run, runs, hrest, hcons⟩ := splitBy_cons_cons halike rest
      rw [replaceRuns_of_splitBy hcons, replaceRuns_of_splitBy hrest, hc, hd]
      rfl

end Runs

section Stages

/-- Words are parted character by character. -/
theorem partWords_cons (c : Char) (cs : List Char) :
    partWords (c :: cs) = c :: (wordGap c.isLower cs ++ partWords cs) := by
  rw [partWords, wordGap]
  split <;> rfl

/-- A letter or a digit is plain in lower case. -/
theorem isPlain_toLower (hc : c.isAlphanum = true) : isPlain c.toLower = true := by
  cases hu : c.isUpper with
  | true => simp [isPlain, isLower_toLower hu]
  | false =>
    have hchar : (c.isLower || c.isDigit) = true := by
      simpa [Text.isAlphanum_eq, hu] using hc
    rw [Text.toLower_of_not_isUpper hu, isPlain, hchar, Bool.true_or]

/-- A letter or a digit is written in lower case, after the gap that it asks for. -/
theorem stagedFrom_of_isAlphanum (hc : c.isAlphanum = true) (afterLower : Bool) (cs : List Char) :
    stagedFrom afterLower (c :: cs) =
      (if afterLower && c.isUpper then ['_'] else []) ++ c.toLower :: stagedFrom c.isLower cs := by
  have hword : replaceRuns ((partWords (c :: cs)).map Char.toLower) =
      c.toLower :: stagedFrom c.isLower cs := by
    rw [partWords_cons, List.map_cons, replaceRuns_of_plain (isPlain_toLower hc), stagedFrom]
  have hne : c.toLower ≠ '_' := (ne_of_isAlphanum (isAlphanum_toLower hc)).1
  have hgap : wordGap afterLower (c :: cs) = if afterLower && c.isUpper then ['_'] else [] := rfl
  rw [stagedFrom, List.map_append, hgap]
  split
  · have hunderscore : ['_'].map Char.toLower = ['_'] := rfl
    rw [hunderscore, List.singleton_append, replaceRuns_of_not_plain rfl, hword, dropUnderscore_cons hne]
    rfl
  · exact hword

/-- Neither a letter nor a digit asks for a gap, or changes in lower case. -/
theorem stagedFrom_of_not_isAlphanum (hc : c.isAlphanum = false) (afterLower : Bool) (cs : List Char) :
    stagedFrom afterLower (c :: cs) = replaceRuns (c :: (partWords cs).map Char.toLower) := by
  simp only [Text.isAlphanum_eq, Bool.or_eq_false_iff] at hc
  have hlower : c.toLower = c := Text.toLower_of_not_isUpper hc.1.1
  simp [stagedFrom, partWords_cons, wordGap, hc.1.1, hc.1.2, hlower]

/-- A colon stays. -/
theorem stagedFrom_colon (afterLower : Bool) (cs : List Char) :
    stagedFrom afterLower (':' :: cs) = ':' :: stagedFrom false cs := by
  rw [stagedFrom_of_not_isAlphanum rfl, replaceRuns_of_plain rfl]
  rfl

/-- Any other character becomes an underscore, together with one that follows. -/
theorem stagedFrom_of_not_plain (hc : c.isAlphanum = false) (hcolon : c ≠ ':') (afterLower : Bool)
    (cs : List Char) : stagedFrom afterLower (c :: cs) = '_' :: dropUnderscore (stagedFrom false cs) := by
  have hplain : isPlain c = false := by
    simp only [Text.isAlphanum_eq, Bool.or_eq_false_iff] at hc
    simp [isPlain, hc.1.2, hc.2, hcolon]
  rw [stagedFrom_of_not_isAlphanum hc, replaceRuns_of_not_plain hplain]
  rfl

/-- After a colon an underscore is dropped. -/
theorem dropAfterColon_colon (cs : List Char) :
    dropAfterColon (':' :: cs) = ':' :: dropAfterColon (dropUnderscore cs) := by
  unfold dropUnderscore
  split
  · rw [dropAfterColon]
  · rename_i hcs
    rw [dropAfterColon]
    exact fun rest _ h => hcs rest h

/-- After another character nothing is dropped. -/
theorem dropAfterColon_cons (hc : c ≠ ':') (cs : List Char) :
    dropAfterColon (c :: cs) = c :: dropAfterColon cs := by
  rw [dropAfterColon]
  exact fun _ h _ => hc h

/-- From any place on, what is written is what the stages make of the rest. Where no underscore may be
written, one that they begin with is dropped. -/
theorem sanitizeFrom_eq (afterLower closed : Bool) (cs : List Char) :
    sanitizeFrom afterLower closed cs =
      dropAfterColon ((if closed then dropUnderscore else id) (stagedFrom afterLower cs)) := by
  induction cs generalizing afterLower closed with
  | nil => cases afterLower <;> cases closed <;> rfl
  | cons c rest ih =>
    rw [sanitizeFrom_of_cons]
    split
    · rename_i hc
      obtain ⟨hunderscore, hcolon⟩ := ne_of_isAlphanum (isAlphanum_toLower hc)
      have hletter : dropAfterColon (c.toLower :: stagedFrom c.isLower rest) =
          c.toLower :: sanitizeFrom c.isLower false rest := by
        rw [dropAfterColon_cons hcolon, ih c.isLower false]
        rfl
      rw [stagedFrom_of_isAlphanum hc, ← hletter]
      -- With a gap, its underscore is the one that is dropped; without, there is none to drop.
      split
      · cases closed with
        | false => exact (dropAfterColon_cons (by decide) _).symm
        | true => rfl
      · cases closed with
        | false => rfl
        | true => exact congrArg dropAfterColon (dropUnderscore_cons hunderscore _).symm
    rename_i hc
    rw [Bool.not_eq_true] at hc
    split
    · rename_i hcolon
      subst hcolon
      have hstay : (if closed then dropUnderscore else id) (':' :: stagedFrom false rest) =
          ':' :: stagedFrom false rest := by cases closed <;> rfl
      rw [stagedFrom_colon, hstay, dropAfterColon_colon, ih false true]
      rfl
    · rename_i hcolon
      rw [stagedFrom_of_not_plain hc hcolon, ih false true]
      cases closed with
      | false => exact (dropAfterColon_cons (by decide) _).symm
      | true => rfl

/-- One pass does what the stages do one after the other. So a sanitized name has lower-case letters,
digits, underscores and colons only, and no underscore stands after an underscore or a colon. -/
theorem sanitize_eq_stages (s : String) :
    sanitize s = String.ofList (dropAfterColon (replaceRuns ((partWords s.toList).map Char.toLower))) ∧
      (∀ c ∈ (sanitize s).toList, c.isLower = true ∨ c.isDigit = true ∨ c = '_' ∨ c = ':') ∧
      ¬ ['_', '_'] <:+: (sanitize s).toList ∧ ¬ [':', '_'] <:+: (sanitize s).toList := by
  have hsettled := settled_sanitize s
  have hstages : sanitize s =
      String.ofList (dropAfterColon (replaceRuns ((partWords s.toList).map Char.toLower))) := by
    rw [sanitize, sanitizeFrom_eq false false]
    rfl
  have hsafe : ∀ c ∈ (sanitize s).toList, c.isLower = true ∨ c.isDigit = true ∨ c = '_' ∨ c = ':' := by
    intro c hc
    simpa [isSafe, or_assoc] using hsettled.safe c hc
  have hfits {a : Char} (h : [a, '_'] <:+: (sanitize s).toList) : a ≠ '_' ∧ a ≠ ':' := by
    have hpair : [a, '_'].IsChain Fits := List.IsChain.infix hsettled.fits h
    exact List.isChain_pair.mp hpair rfl
  exact ⟨hstages, hsafe, fun h => (hfits h).1 rfl, fun h => (hfits h).2 rfl⟩

end Stages

end Telemetry.Name
