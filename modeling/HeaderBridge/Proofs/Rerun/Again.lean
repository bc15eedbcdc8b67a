/-
  A run directly behind a run. The first one leaves types on which the steps on types find nothing,
  no directive, an index of globals that is up to date, and values that have the types they would
  be given again. So the second one leaves the whole session as it is and reports the same, but
  that nothing was merged, removed or converted (`Session.run_again`).
-/
import HeaderBridge.Proofs.Folding.Direct
import HeaderBridge.Proofs.Rerun.Simplified
import HeaderBridge.Proofs.Workers.AnyOrder

namespace HeaderBridge

theorem Plan.types_withoutValues (p : Plan) : p.withoutValues.types = p.types :=
  List.flatMap_map ..

namespace Session

/-! ## Calls -/

/-- What may be asked of a session. -/
inductive Call where
  | addHeader (path source : String)
  | run

/-- Answers some calls one by one. -/
def perform (s : Session) : List Call → Except Fault Session
  | [] => .ok s
  | .addHeader path source :: calls => do
    let (s, _) ← s.addHeader path source
    s.perform calls
  | .run :: calls => s.run.1.perform calls

/-- All calls are answered. -/
theorem exists_perform (s : Session) (calls : List Call) : ∃ s', s.perform calls = .ok s' := by
  induction calls generalizing s with
  | nil => exact ⟨s, rfl⟩
  | cons call calls ih =>
    cases call with
    | run => exact ih s.run.1
    | addHeader path source =>
      obtain ⟨h, hread⟩ := exists_read_header source s.log (some path)
      obtain ⟨s', hs'⟩ := ih { s with
        plan := s.plan.addFile (FilePlan.ofHeader path source h.root)
        log := h.log
        pending := s.pending ++ directives path source h }
      refine ⟨s', ?_⟩
      unfold perform addHeader
      rw [hread]
      exact hs'

/-! ## What a run leaves -/

/-- What no directive changes. -/
theorem convert_keeps (s : Session) (d : PendingDirective) :
    (s.convert d).1.settings = s.settings ∧ (s.convert d).1.pending = s.pending := by
  cases hc : s.constant? d with
  | none => rw [convert_of_none hc]; exact ⟨rfl, rfl⟩
  | some c => rw [convert_of_some hc]; exact ⟨rfl, rfl⟩

theorem convertAll_keeps (s : Session) (ds : List PendingDirective) :
    (s.convertAll ds).1.settings = s.settings ∧ (s.convertAll ds).1.pending = s.pending := by
  induction ds generalizing s with
  | nil => exact ⟨rfl, rfl⟩
  | cons d ds ih =>
    have hstep := s.convert_keeps d
    have hrest := ih (s.convert d).1
    exact ⟨hrest.1.trans hstep.1, hrest.2.trans hstep.2⟩

theorem settings_run (s : Session) : s.run.1.settings = s.settings := by
  rw [run_eq]
  exact (s.ready.convertAll_keeps s.pending).1

/-- A run leaves no directive. -/
theorem pending_run (s : Session) : s.run.1.pending = [] := by
  rw [run_eq]
  exact (s.ready.convertAll_keeps s.pending).2

/-- Behind the steps on types no type changes. -/
theorem types_run (s : Session) : s.run.1.plan.types = (simplify s.settings s.plan).1.types := by
  rw [← Plan.types_withoutValues, ← (s.alike_foldedUpTo_run []).plan, Plan.types_withoutValues]
  rfl

theorem simplified_run (s : Session) : Simplified s.run.1.settings s.run.1.plan := by
  rw [settings_run]
  exact (simplified_simplify s.settings s.plan).of_types_eq s.types_run

/-- A run neither adds nor drops a file. -/
theorem length_files_run (s : Session) : s.run.1.plan.files.length = s.plan.files.length := by
  have hpaths := congrArg List.length (sourcePaths_simplify s.settings s.plan)
  rw [List.length_map, List.length_map] at hpaths
  calc s.run.1.plan.files.length
      = s.run.1.plan.withoutValues.files.length := (List.length_map _).symm
    _ = s.ready.plan.withoutValues.files.length := by
      rw [← (s.alike_foldedUpTo_run []).plan]
      rfl
    _ = (simplify s.settings s.plan).1.files.length := List.length_map _
    _ = s.plan.files.length := hpaths

/-! ## The next run -/

/-- A session that a run would leave as it is up to the point where values are typed. -/
theorem ready_of_settled {s : Session} (hsimple : Simplified s.settings s.plan)
    (hpending : s.pending = []) (hindex : s.Indexed) : s.ready = s := by
  have hplan : (simplify s.settings s.plan).1 = s.plan := by
    rw [simplify_of_simplified hsimple]
  have hsurroundings : s.surroundings.refresh s.plan = s.surroundings := by
    unfold Surroundings.refresh
    rw [← show s.surroundings.index = s.plan.globalIndex from hindex]
  unfold ready refresh
  rw [hplan, ← hpending]
  dsimp only
  rw [hsurroundings]

theorem folded_run (s : Session) : s.run.1.folded = s.run.1 := by
  unfold folded foldedUpTo
  rw [pending_run, ready_of_settled s.simplified_run s.pending_run s.alike_run.index']
  rfl

/-- The values of a run have the types that they would be given again, and as many of them have
    one. -/
theorem typeAll_run (s : Session) :
    s.run.1.surroundings.typeAll s.run.1.plan = s.folded.surroundings.typeAll s.folded.plan := by
  rw [run_eq]
  dsimp only
  rw [Surroundings.typeAll_eq_inTurn, Surroundings.typeAll_eq_inTurn, Surroundings.inTurn_inTurn]

theorem run_run (s : Session) :
    s.run.1.run = (s.run.1, { s.run.2 with merged := 0, removed := 0, converted := 0 }) := by
  have hplan : s.run.1.plan = (s.folded.surroundings.typeAll s.folded.plan).1 := by rw [run_eq]
  have hsession : s.run.1.run.1 = s.run.1 := by
    rw [run_eq s.run.1, folded_run, typeAll_run, ← hplan]
  have hconverted : (s.run.1.ready.convertAll s.run.1.pending).2 = 0 := by rw [pending_run]; rfl
  have hfirst := congrArg Prod.snd (run_typeAll s)
  have hsecond := congrArg Prod.snd (run_typeAll s.run.1)
  dsimp only at hfirst hsecond
  rw [folded_run, typeAll_run, length_files_run, simplify_of_simplified s.simplified_run,
    hconverted, settings_run] at hsecond
  refine Prod.ext hsession ?_
  rw [hsecond, hfirst]

/-- Whatever headers were added and whatever runs were made: running twice leaves the session as
    the first run left it. The second run reports as many files and as many typed values, and that
    nothing was merged, removed or converted. -/
theorem run_again (settings : Settings) (globals : List Definition) (calls : List Call) :
    ∃ s, (begin settings globals).perform calls = .ok s ∧
      s.run.1.run = (s.run.1, { s.run.2 with merged := 0, removed := 0, converted := 0 }) := by
  obtain ⟨s, hs⟩ := (begin settings globals).exists_perform calls
  exact ⟨s, hs, s.run_run⟩

end Session

end HeaderBridge
