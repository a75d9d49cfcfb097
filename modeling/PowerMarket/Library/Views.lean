import PowerMarket.Library.Programs

/-!
# Views of a service

A service may be seen through a map of its states. When every call and every move of the service is
one of a second service as far as that map shows (`Service.View`), the same programs run against
both: a run of the first system is a run of the second (`Service.View.run`), and a program that is
safe for the second is safe for the first (`Protocol.Safe.of_view`). So what was proved of the
simpler system holds of the richer one, and only what the view leaves out remains to be proved.

`Service.beside` puts two services side by side. Every call goes to both of them, each moves on its
own, and each is a view of the whole. `Protocol.Respected.launchAnswered` is the run of a system in
which one launch is answered until its end.
-/

set_option autoImplicit false

namespace PowerMarket.Library

variable {Call : Type} {Answer : Call → Type} {ε α σ τ Launch : Type}
  {S : Service σ Call Answer ε} {T : Service τ Call Answer ε} {view : σ → τ}

/-- Seen through a map of states, a service does what a second one can do. -/
structure Service.View (S : Service σ Call Answer ε) (T : Service τ Call Answer ε)
    (view : σ → τ) : Prop where
  act : ∀ {c w reply w'}, S.act c w reply w' → T.act c (view w) reply (view w')
  background : ∀ {w w'}, S.background w w' → view w' = view w ∨ T.background (view w) (view w')

/-- The system as a view shows it. -/
def System.seen (view : σ → τ) (s : System σ Launch Call Answer ε α) :
    System τ Launch Call Answer ε α :=
  ⟨view s.world, s.processes⟩

section Systems

variable {start : Launch → Program Call Answer ε α} {s s' : System σ Launch Call Answer ε α}

theorem Service.View.step (shows : S.View T view) (step : System.Step S start s s') :
    s'.seen view = s.seen view ∨ System.Step T start (s.seen view) (s'.seen view) := by
  cases step with
  | background moved =>
      rcases shows.background moved with same | moved'
      · exact .inl (congrArg (System.mk · s.processes) same)
      · exact .inr (.background moved')
  | launch i l unused => exact .inr (.launch i l unused)
  | act i running acted => exact .inr (.act i running (shows.act acted))
  | crash i running => exact .inr (.crash i running)

/-- **A run shows as a run.** -/
theorem Service.View.run (shows : S.View T view) (run : System.Run S start s s') :
    System.Run T start (s.seen view) (s'.seen view) := by
  induction run with
  | refl => exact .refl
  | tail _ step ih =>
      rcases shows.step step with same | step'
      · rw [same]
        exact ih
      · exact ih.tail step'

end Systems

/-- **What is safe for the view is safe.** -/
theorem Protocol.Safe.of_view {P : Protocol T} {Q : Protocol S} (shows : S.View T view)
    (inv : ∀ {w}, Q.Inv w → P.Inv (view w))
    (future : ∀ {w w'}, Q.Future w w' → P.Future (view w) (view w')) {allowed : τ → Call → Prop}
    {post : Except ε α → τ → Prop} {program : Program Call Answer ε α} {w : σ}
    (safe : P.Safe allowed post program (view w)) :
    Q.Safe (fun v => allowed (view v)) (fun result v => post result (view v)) program w := by
  induction program generalizing w with
  | done result => exact fun v later holds => safe (view v) (future later) (inv holds)
  | call c next ih =>
      intro v later holds
      obtain ⟨permitted, continues⟩ := safe (view v) (future later) (inv holds)
      refine ⟨permitted, fun reply v' acted later' holds' => ih reply ?_⟩
      exact continues reply (view v') (shows.act acted) (future later') (inv holds')

/-! ## Services side by side -/

/-- Two services that receive every call together and move independently. -/
def Service.beside (S : Service σ Call Answer ε) (T : Service τ Call Answer ε) :
    Service (σ × τ) Call Answer ε where
  act c w reply w' := S.act c w.1 reply w'.1 ∧ T.act c w.2 reply w'.2
  background w w' := S.background w.1 w'.1 ∧ w'.2 = w.2 ∨ w'.1 = w.1 ∧ T.background w.2 w'.2

theorem Service.beside_left (S : Service σ Call Answer ε) (T : Service τ Call Answer ε) :
    (S.beside T).View S Prod.fst where
  act acted := acted.1
  background moved := moved.elim (fun left => .inr left.1) fun right => .inl right.1

/-! ## Launches that are answered -/

section Answered

variable {start : Launch → Program Call Answer ε α} {P : Protocol S}
  {respond : (c : Call) → σ → Except ε (Answer c) × σ}

/-- **A process that is answered** by a behaviour of the service runs to its end. -/
theorem Protocol.Respected.answered
    (answers : ∀ c w, P.Inv w → ∃ w', Relation.ReflTransGen S.background w w' ∧
      S.act c w' (respond c w).1 (respond c w).2)
    (launches : ∀ l w, P.Inv w → P.Safe P.permits (fun _ _ => True) (start l) w)
    {s : System σ Launch Call Answer ε α} (respected : P.Respected s) {i : Nat} {l : Launch}
    {history : List (Event Call Answer ε)} {program : Program Call Answer ε α}
    (running : s.processes i = some ⟨l, history, some program⟩) :
    ∃ events, System.Run S start s ⟨(program.runIn respond s.world).2,
      Function.update s.processes i
        (some ⟨l, events, some (.done (program.runIn respond s.world).1)⟩)⟩ := by
  induction program generalizing s history with
  | done result =>
      refine ⟨history, ?_⟩
      rw [Program.runIn_done, ← running, Function.update_eq_self]
  | call c next ih =>
      obtain ⟨w, moved, acted⟩ := answers c s.world respected.inv
      have moves : System.Run S start s { s with world := w } :=
        moved.lift (fun w => { s with world := w }) fun _ _ step => .background step
      have called := moves.tail (.act i running acted)
      obtain ⟨events, run⟩ := ih _ (respected.run launches called).1
        (Function.update_self ..)
      refine ⟨events, called.trans ?_⟩
      rw [Function.update_idem] at run
      exact run

/-- A launch that is answered runs to its end. -/
theorem Protocol.Respected.launchAnswered
    (answers : ∀ c w, P.Inv w → ∃ w', Relation.ReflTransGen S.background w w' ∧
      S.act c w' (respond c w).1 (respond c w).2)
    (launches : ∀ l w, P.Inv w → P.Safe P.permits (fun _ _ => True) (start l) w)
    {s : System σ Launch Call Answer ε α} (respected : P.Respected s) {i : Nat}
    (unused : s.processes i = none) (l : Launch) : ∃ s' events, System.Run S start s s' ∧
      s'.world = ((start l).runIn respond s.world).2 ∧
      s'.processes i = some ⟨l, events, some (.done ((start l).runIn respond s.world).1)⟩ := by
  have launched : System.Run S start s
      { s with processes := Function.update s.processes i (some ⟨l, [], some (start l)⟩) } :=
    .single (.launch i l unused)
  obtain ⟨events, run⟩ := (respected.run launches launched).1.answered answers launches
    (Function.update_self ..)
  exact ⟨_, events, launched.trans run, rfl, Function.update_self ..⟩

end Answered

end PowerMarket.Library
