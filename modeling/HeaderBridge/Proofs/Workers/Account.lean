/-
  The account of a crew. Whatever its workers do, each file of the plan is at one place: it waits,
  or one worker has it, or what was found in it was sent. A crew that has not left has a next step,
  and every step leaves less to do. So a crew always comes to an end, and then exactly one piece was
  sent for each file.
-/
import HeaderBridge.Plan.Workers
import Mathlib

namespace HeaderBridge

/-- The file that a worker has. -/
def Worker.held : Worker → List Nat
  | .busy file => [file]
  | _ => []

/-- What a worker has still to do before it may leave. -/
def Worker.duty : Worker → Nat
  | .ready => 1
  | .busy _ => 2
  | .gone => 0

/-- What was found in a file of the plan. -/
def FoundIn (w : Surroundings) (p : Plan) (found : FileTypes) : Prop :=
  ∃ f, p.files[found.file]? = some f ∧
    found = w.fileTypes (p.registry w.builtIns) found.file f

namespace Crew

/-- The positions of all files, wherever they are. -/
def account (c : Crew) : List Nat :=
  c.queue ++ c.workers.flatMap Worker.held ++ c.sent.map (·.file)

/-- What is left to do. A file that waits has to be handed out and sent. -/
def toDo (c : Crew) : Nat := 2 * c.queue.length + (c.workers.map Worker.duty).sum

/-- What holds of a crew at work on a plan at any time. -/
structure Kept (w : Surroundings) (p : Plan) (size : Nat) (c : Crew) : Prop where
  /-- Each file is at one place. -/
  account : c.account.Perm (List.range p.files.length)
  /-- What was sent was found in the plan. -/
  sent : ∀ found ∈ c.sent, FoundIn w p found
  /-- Nobody leaves a file behind. -/
  gone : .gone ∈ c.workers → c.queue = []
  size : c.workers.length = size

variable {w : Surroundings} {p : Plan}

theorem kept_start (w : Surroundings) (p : Plan) (threads : Nat) :
    (start threads p.files.length).Kept w p (min (max threads 1) p.files.length) := by
  refine ⟨?_, nofun, fun h => ?_, List.length_replicate⟩
  · unfold account start
    have hheld : (List.replicate (min (max threads 1) p.files.length) Worker.ready).flatMap
        Worker.held = [] := by
      rw [List.flatMap_eq_nil_iff]
      intro worker h
      rw [List.eq_of_mem_replicate h]
      rfl
    rw [hheld, List.append_nil, List.map_nil, List.append_nil]
  · have := List.eq_of_mem_replicate h
    cases this

/-- A step moves at most one file, and to one place. -/
theorem Step.account_perm {c c' : Crew} (h : Step w p c c') : c'.account.Perm c.account := by
  cases h with
  | take front back before behind file sent =>
    simp only [account, List.flatMap_append, List.flatMap_cons, Worker.held, List.nil_append,
      List.append_assoc, List.cons_append]
    refine List.Perm.append_left before ?_
    have hmiddle : (behind ++ front.flatMap Worker.held ++
        file :: (back.flatMap Worker.held ++ sent.map (·.file))).Perm
        (file :: (behind ++ front.flatMap Worker.held ++
          (back.flatMap Worker.held ++ sent.map (·.file)))) := List.perm_middle
    simpa only [List.append_assoc] using hmiddle
  | send queue front back sent hfile =>
    simp only [account, List.flatMap_append, List.flatMap_cons, Worker.held, List.nil_append,
      List.append_assoc, List.cons_append, List.map_append, List.map_cons, List.map_nil,
      Surroundings.fileTypes]
    refine List.Perm.append_left _ (List.Perm.append_left _ ?_)
    rw [← List.append_assoc]
    exact List.perm_append_singleton ..
  | leave front back sent =>
    simp only [account, List.flatMap_append, List.flatMap_cons, Worker.held, List.nil_append,
      List.append_assoc]
    exact List.Perm.refl _

theorem Kept.step {size : Nat} {c c' : Crew} (hc : c.Kept w p size) (h : Step w p c c') :
    c'.Kept w p size := by
  have haccount := h.account_perm.trans hc.account
  cases h with
  | take front back before behind file sent =>
    refine ⟨haccount, hc.sent, fun hgone => ?_, ?_⟩
    · -- A worker that is gone was so before, and then no file waited.
      have hold : Worker.gone ∈ front ++ .ready :: back := by simpa using hgone
      have := hc.gone hold
      simp at this
    · simpa using hc.size
  | send queue front back sent hfile =>
    refine ⟨haccount, ?_, fun hgone => hc.gone (by simpa using hgone), ?_⟩
    · intro found hfound
      rcases List.mem_append.mp hfound with hold | hnew
      · exact hc.sent found hold
      · rw [List.mem_singleton.mp hnew]
        exact ⟨_, hfile, rfl⟩
    · simpa using hc.size
  | leave front back sent => exact ⟨haccount, hc.sent, fun _ => rfl, by simpa using hc.size⟩

theorem Kept.steps {size : Nat} {c c' : Crew} (hc : c.Kept w p size)
    (h : Relation.ReflTransGen (Step w p) c c') : c'.Kept w p size := by
  induction h with
  | refl => exact hc
  | tail _ hstep ih => exact ih.step hstep

/-! ## The end of the work -/

theorem Step.toDo_lt {c c' : Crew} (h : Step w p c c') : c'.toDo < c.toDo := by
  cases h with
  | take front back before behind file sent =>
    simp only [toDo, Worker.duty, List.length_append, List.length_cons, List.map_append,
      List.map_cons, List.sum_append_nat, List.sum_cons]
    omega
  | send queue front back sent hfile =>
    simp only [toDo, Worker.duty, List.map_append, List.map_cons, List.sum_append_nat,
      List.sum_cons]
    omega
  | leave front back sent =>
    simp only [toDo, Worker.duty, List.map_append, List.map_cons, List.sum_append_nat,
      List.sum_cons]
    omega

/-- No crew works for ever. -/
theorem wellFounded_step (w : Surroundings) (p : Plan) :
    WellFounded fun c' c => Step w p c c' :=
  Subrelation.wf Step.toDo_lt (InvImage.wf toDo Nat.lt_wfRel.wf)

/-- A crew that has not left is not stuck: each worker that is still there can do something. -/
theorem Kept.done_or_step {size : Nat} {c : Crew} (hc : c.Kept w p size) :
    c.Done ∨ ∃ c', Step w p c c' := by
  by_cases hdone : c.Done
  · exact .inl hdone
  right
  obtain ⟨worker, hworker, hgone⟩ : ∃ worker ∈ c.workers, worker ≠ .gone := by
    simpa [Done] using hdone
  obtain ⟨queue, workers, sent⟩ := c
  obtain ⟨front, back, rfl⟩ := List.append_of_mem hworker
  cases worker with
  | ready =>
    cases queue with
    | nil => exact ⟨_, .leave front back sent⟩
    | cons file queue => exact ⟨_, .take front back [] queue file sent⟩
  | busy file =>
    -- The file that the worker has is one of the plan.
    have hheld : file ∈ Crew.account ⟨queue, front ++ .busy file :: back, sent⟩ := by
      simp [Crew.account, Worker.held]
    have hfile := List.mem_range.mp (hc.account.subset hheld)
    exact ⟨_, .send queue front back sent (List.getElem?_eq_getElem hfile)⟩
  | gone => exact absurd rfl hgone

/-- A crew can always finish its work. -/
theorem Kept.exists_done {size : Nat} {c : Crew} (hc : c.Kept w p size) :
    ∃ c', Relation.ReflTransGen (Step w p) c c' ∧ c'.Done := by
  induction c using (wellFounded_step w p).induction with
  | h c ih =>
    rcases hc.done_or_step with hdone | ⟨next, hstep⟩
    · exact ⟨c, .refl, hdone⟩
    · obtain ⟨c', hsteps, hdone⟩ := ih next hstep (hc.step hstep)
      exact ⟨c', .head hstep hsteps, hdone⟩

/-- Where all have left, one piece was sent for each file. -/
theorem Kept.files_of_done {threads : Nat} {c : Crew}
    (hc : c.Kept w p (min (max threads 1) p.files.length)) (hdone : c.Done) :
    (c.sent.map (·.file)).Perm (List.range p.files.length) := by
  have hheld : c.workers.flatMap Worker.held = [] := by
    rw [List.flatMap_eq_nil_iff]
    intro worker h
    rw [hdone worker h]
    rfl
  have hqueue : c.queue = [] := by
    cases hworkers : c.workers with
    | nil =>
      -- Without workers there are no files.
      have hsize := hc.size
      have hlength := hc.account.length_eq
      rw [hworkers, List.length_nil] at hsize
      rw [List.length_range] at hlength
      refine List.eq_nil_of_length_eq_zero ?_
      simp only [Crew.account, List.length_append] at hlength
      omega
    | cons worker workers =>
      refine hc.gone ?_
      have hmem : worker ∈ c.workers := hworkers ▸ List.mem_cons_self
      exact hdone worker hmem ▸ hmem
  have haccount := hc.account
  unfold Crew.account at haccount
  rwa [hqueue, hheld, List.nil_append, List.nil_append] at haccount

end Crew

end HeaderBridge
