import Telemetry.Proofs.World.Act

/-!
# Scrapes are unobservable

A scrape is not read-only: it brings every meter and timer that it shows up to date. Yet whoever goes
on working cannot tell that there was one. Two runs are compared here, one with scrapes put in and one
without; the worlds they go through are alike, which is all that the answers hang on.
-/

namespace Telemetry.World

/-- Something that was done, with its answer. -/
abbrev Answered := (a : Act) × a.Answer

/-- What is answered when things are done one after the other. -/
def answers (w : World) : List Act → List Answered
  | [] => []
  | a :: rest => ⟨a, (a.run w).1⟩ :: answers (a.run w).2 rest

/-- Whether the clock never goes back while things are done. -/
def Onward (w : World) : List Act → Prop
  | [] => True
  | a :: rest => w.now ≤ (a.run w).2.now ∧ Onward (a.run w).2 rest

/-- A step of a run that is scraped. -/
inductive Step where
  | act (a : Act)
  /-- A scrape by somebody else. -/
  | scrape (e : Scrape)

/-- What was done without the scrapes. -/
def Step.act? : Step → Option Act
  | .act a => some a
  | .scrape _ => none

/-- What is answered in a run that is scraped, apart from the documents of the scrapes. -/
def scrapedAnswers (w : World) : List Step → List Answered
  | [] => []
  | .act a :: rest => ⟨a, (a.run w).1⟩ :: scrapedAnswers (a.run w).2 rest
  | .scrape e :: rest => scrapedAnswers (e.run w).2 rest

variable {w v : World} {steps : List Step}

/-- Runs from alike worlds have the same answers, whatever is scraped in one of them. -/
theorem scrapedAnswers_of_alike (hc : w.Calm) (h : w.Alike v)
    (hharmless : ∀ a ∈ steps.filterMap Step.act?, a.Harmless)
    (honward : w.Onward (steps.filterMap Step.act?)) :
    v.scrapedAnswers steps = w.answers (steps.filterMap Step.act?) := by
  induction steps generalizing w v with
  | nil => rfl
  | cons step rest ih =>
    cases step with
    | act a =>
      obtain ⟨hnow, hlater⟩ := honward
      obtain ⟨ha, hrest⟩ := List.forall_mem_cons.mp hharmless
      obtain ⟨hanswer, halike, hcalm⟩ := a.run_alike ha hc h hnow
      have hanswers := ih hcalm halike hrest hlater
      change ⟨a, (a.run v).1⟩ :: (a.run v).2.scrapedAnswers rest = _
      rw [hanswer, hanswers]
      rfl
    | scrape e =>
      -- The other run does nothing meanwhile.
      obtain ⟨-, halike⟩ := unseen_scrape e hc h
      exact ih hc halike hharmless honward

/-- Exports and requests, of any format, selection and settings and at any points of a run, change no
answer of what else is done, if gauges remove nothing and the clock never goes back. -/
theorem scrapes_unobservable (hc : w.Calm) (steps : List Step)
    (hharmless : ∀ a ∈ steps.filterMap Step.act?, a.Harmless)
    (honward : w.Onward (steps.filterMap Step.act?)) :
    w.scrapedAnswers steps = w.answers (steps.filterMap Step.act?) :=
  scrapedAnswers_of_alike hc (.refl w) hharmless honward

/-- A meter of hits is scraped twice between its marks, in the middle of an interval and after it; the
rates and a later export are what they are without. -/
theorem scrapes_unobservable_hits :
    let w := World.start 16
    let acts : List Act := [.init .application, .enrol ⟨0⟩ (.instrument (.name "hits") [] .meter),
      .mark 0 3, .advance 7000000000, .mark 0 4, .advance 5000000000, .meterRates 0,
      .scrape (.values .openMetrics .default .all)]
    let steps : List Step := [.act (.init .application),
      .act (.enrol ⟨0⟩ (.instrument (.name "hits") [] .meter)), .act (.mark 0 3),
      .act (.advance 7000000000), .scrape (.respond .default "GET" "/" none), .act (.mark 0 4),
      .act (.advance 5000000000), .scrape (.values .json .default (.scope .application)),
      .act (.meterRates 0), .act (.scrape (.values .openMetrics .default .all))]
    w.Calm ∧ steps.filterMap Step.act? = acts ∧ (∀ a ∈ acts, a.Harmless) ∧ w.Onward acts ∧
      w.scrapedAnswers steps = w.answers acts := by
  intro w acts steps
  have hc : w.Calm := fun serial => by rfl
  have hharmless : ∀ a ∈ acts, a.Harmless := by simp [acts, Act.Harmless, Enrolment.Harmless, Pure]
  have honward : w.Onward acts :=
    ⟨by decide, by decide, by decide, by decide, by decide, by decide, by decide, by decide, trivial⟩
  exact ⟨hc, rfl, hharmless, honward, scrapes_unobservable hc steps hharmless honward⟩

end Telemetry.World
