import PowerMarket.Library.JobService

/-!
# What is ever submitted

When every program that may be launched can submit scripts of one kind only, whatever the replies
are, every job in every state that a system of such programs reaches has a script of that kind
(`System.Run.submits`). A script changes the store only as a job, so that nothing but scripts of
that kind ever changes it.
-/

set_option autoImplicit false

namespace PowerMarket.Library.JobService

variable {Name σ Script Rows ε T X Launch α : Type} {Y : X → Type}

/-- A call that submits a script submits one of these. -/
def SubmitsOnly (scripts : Script → Prop) (c : Call Name Script X) : Prop :=
  ∀ name script, c = .query name script → scripts script

/-- All jobs have one of these scripts. -/
def World.Only (scripts : Script → Prop) (w : World Name σ Script Rows ε T) : Prop :=
  ∀ id job, w.jobs id = some job → scripts job.script

variable [DecidableEq Name] [LinearOrder T] {E : Engine σ Script Rows ε T}

theorem World.Only.background {scripts : Script → Prop} {w w' : World Name σ Script Rows ε T}
    (only : w.Only scripts) (step : Background E w w') : w'.Only scripts := by
  intro id job recorded
  obtain ⟨before, known, same⟩ := step.scripts recorded
  exact same ▸ only id before known

/-- A call adds at most the job that it submits. -/
theorem World.Only.act {scripts : Script → Prop} {w w' : World Name σ Script Rows ε T}
    (only : w.Only scripts) {c : Call Name Script X} (submits : SubmitsOnly scripts c)
    {reply : Except ε (Answer Name Script X Rows T Y c)} (acted : act c w reply w') :
    w'.Only scripts := by
  rcases act_cases acted with rfl | ⟨name, script, rfl, _, rfl⟩
  · exact only
  · intro id job recorded
    by_cases here : id = w.submissionId name
    · subst here
      rw [World.submit_self] at recorded
      cases recorded
      exact submits name script rfl
    · rw [World.submit_ne _ _ here] at recorded
      exact only id job recorded

/-- The rule that clients submit scripts of one kind. -/
def submissions (E : Engine σ Script Rows ε T) (scripts : Script → Prop) :
    Protocol (service E : Service (World Name σ Script Rows ε T) (Call Name Script X)
      (Answer Name Script X Rows T Y) ε) where
  Inv w := w.Only scripts
  Future _ _ := True
  permits _ c := SubmitsOnly scripts c
  refl _ := trivial
  trans _ _ := trivial
  act_step only submits acted := ⟨only.act submits acted, trivial⟩
  background_step only step := ⟨only.background step, trivial⟩

/-- **Nothing else is ever submitted.** -/
theorem System.Run.submits {scripts : Script → Prop}
    {start : Launch → Program (Call Name Script X) (Answer Name Script X Rows T Y) ε α}
    (launches : ∀ l, (start l).Calls (SubmitsOnly scripts)) {w : World Name σ Script Rows ε T}
    (unused : ∀ id, w.jobs id = none)
    {s : System (World Name σ Script Rows ε T) Launch (Call Name Script X)
      (Answer Name Script X Rows T Y) ε α}
    (run : System.Run (service E) start (System.initial w) s) : s.world.Only scripts := by
  have initial : w.Only scripts := fun id job recorded => by
    rw [unused id] at recorded
    cases recorded
  refine ((Protocol.Respected.initial (P := submissions E scripts) initial).run
    (fun l v _ => ?_) run).1.inv
  exact .of_calls (launches l) fun _ _ submits => submits

end PowerMarket.Library.JobService
