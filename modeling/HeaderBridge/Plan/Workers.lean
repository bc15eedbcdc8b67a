/-
  Working out the types of all values with several workers. The files of a plan wait in a queue.
  Each worker takes a file, works out the types of its values against the plan as it stands, sends
  what it found and comes back for the next file; a worker that finds the queue empty leaves. When
  all have left, what was sent is written into the plan, piece by piece, as it comes in.

  Nothing here says which worker is next, which file it is handed or in which order the pieces
  come in. Each file that waits is handed to one worker, and nothing that was sent gets lost.
-/
import HeaderBridge.Plan.ValueTypes

namespace HeaderBridge

/-- What a worker is at. -/
inductive Worker where
  /-- In front of the queue. -/
  | ready
  /-- At work on the file at a position. -/
  | busy (file : Nat)
  /-- Gone, because the queue was empty. -/
  | gone
  deriving DecidableEq

/-- The workers, with what waits for them and what they sent. -/
structure Crew where
  /-- The positions of the files that nobody has taken yet. -/
  queue : List Nat
  workers : List Worker
  /-- What was sent and not yet received. -/
  sent : List FileTypes

namespace Crew

/-- A crew in front of its work. Every file waits, and there is one worker for each thread, but no
    more than there are files. -/
def start (threads files : Nat) : Crew where
  queue := List.range files
  workers := List.replicate (min (max threads 1) files) .ready
  sent := []

/-- All workers have left. -/
def Done (c : Crew) : Prop := ∀ worker ∈ c.workers, worker = .gone

/-- What may happen next in a crew at work on a plan. -/
inductive Step (w : Surroundings) (p : Plan) : Crew → Crew → Prop where
  /-- A worker is handed a file. -/
  | take (front back : List Worker) (before behind : List Nat) (file : Nat)
      (sent : List FileTypes) :
      Step w p ⟨before ++ file :: behind, front ++ .ready :: back, sent⟩
        ⟨before ++ behind, front ++ .busy file :: back, sent⟩
  /-- A worker sends what it found in its file. -/
  | send (queue : List Nat) (front back : List Worker) (sent : List FileTypes) {file : Nat}
      {f : FilePlan} (hfile : p.files[file]? = some f) :
      Step w p ⟨queue, front ++ .busy file :: back, sent⟩
        ⟨queue, front ++ .ready :: back,
          sent ++ [w.fileTypes (p.registry w.builtIns) file f]⟩
  /-- A worker finds the queue empty and leaves. -/
  | leave (front back : List Worker) (sent : List FileTypes) :
      Step w p ⟨[], front ++ .ready :: back, sent⟩ ⟨[], front ++ .gone :: back, sent⟩

end Crew

namespace Plan

/-- How many of the types that were found have a value of the plan to go to. -/
def placed (p : Plan) (found : FileTypes) : Nat :=
  match p.files[found.file]? with
  | some f => found.types.countP fun (i, type) => i < f.values.length && type.isSome
  | none => 0

/-- The plan with one more piece written into it, and how many types were written so far. -/
def receiveOne (sofar : Plan × Nat) (found : FileTypes) : Plan × Nat :=
  (sofar.1.setTypes found, sofar.2 + sofar.1.placed found)

/-- The plan with what was received written into it, piece by piece, and how many types were
    written. -/
def receive (p : Plan) (received : List FileTypes) : Plan × Nat :=
  received.foldl receiveOne (p, 0)

end Plan

end HeaderBridge
