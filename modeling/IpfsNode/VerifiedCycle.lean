import IpfsNode.RepairEvidence
import IpfsNode.RepairPass

/-!
# What successful evidence says of the files

A node reports itself healthy on the evidence of the last repair cycle that was
completed with its candidates covered. The evidence holds sums. Behind each sum
are the passes of the cycle, and behind each pass the answers of the designated
holders: when the cycle is called successful, every file its passes examined had
enough of them say that they have it, or was not for the pass, and every released
file was found somewhere.
-/

namespace IpfsNode

open TransitionSystem

section Cycle

variable (score : Score String) (tiers : List PlacementTier) (peers : List ReplicationPeer)
variable (selfPeerId : PeerId) (content : Content String) (repairProbeConcurrency : Nat)

variable {score tiers peers selfPeerId content repairProbeConcurrency}
variable {report : RepairReport String} {cycle log : List (RepairReport String)}
variable {records : List (FileRecord String)} {calls : List (RepairCall String)}

end Cycle

namespace FoundFile

/-- A file the node released, which the peer has. -/
def file : FileRecord String :=
  { cid := "f", name := "file", state := .confirmed, createdAt := 0, expiresAt := none
    confirmedAt := some 0, fileSize := 1, storedBytes := 1, protectedBytes := none
    pinned := false, heldLocally := false, replicas := ["second"], admissionId := none
    admissionSettledAt := none, replicaStage := none, revision := some 0 }

def peers : List ReplicationPeer := [⟨"second", "b"⟩]

def tiers : List PlacementTier := [⟨0, 2⟩]

def answer : (o : RepairOp String) → Except (LifecycleError String) o.Ret
  | .now => .ok (5 : Nat)
  | .process => .ok (World.empty : World String).proc
  | .parseCid _ => .ok ()
  | .probeHave .. => .ok true
  | _ => .error .io

def walk : List (RepairCall String) × Except (LifecycleError String) (RepairLists String) :=
  Prog.answering answer (repairEach (fun _ _ => 0) tiers peers "a" (.start 1) [file])

def turn : List (RepairCall String) × Except (LifecycleError String) (String × RescueVerdict) :=
  Prog.answering answer (rescueCandidate (fun _ _ => 0) tiers peers "a" file)

/-- The worker when it is done. -/
def settled : WorkerPool.State (String × RescueVerdict) := ⟨1, [.done], [(0, ("f", .held))]⟩

/-- What is asked about a file that is not here. -/
theorem answers_answer {o : RepairOp String}
    (h : o = .process ∨ o = .now ∨ o = .parseCid "f" ∨ ∃ peer, o = .probeHave peer "f") :
    RepairOp.Answers Content.flat o (answer o) := by
  rcases h with rfl | rfl | rfl | ⟨peer, rfl⟩
  · exact ⟨_, rfl⟩
  · exact ⟨_, rfl⟩
  · trivial
  · trivial

theorem rescues_file : rescues (fun _ _ => 0) tiers peers "a" Content.flat file
    (.ok ("f", .held)) := by
  have hturn : turn.1 = [⟨.parseCid "f", answer (.parseCid "f")⟩, ⟨.now, answer .now⟩,
      ⟨.probeHave ⟨"second", "b"⟩ "f", answer (.probeHave ⟨"second", "b"⟩ "f")⟩] := rfl
  refine ⟨turn.1, Prog.trace_answering fun call hmem => answers_answer ?_⟩
  replace hmem : call ∈ turn.1 := hmem
  rw [hturn] at hmem
  simp only [List.mem_cons, List.not_mem_nil, or_false] at hmem
  rcases hmem with rfl | rfl | rfl
  · exact .inr (.inr (.inl rfl))
  · exact .inr (.inl rfl)
  · exact .inr (.inr (.inr ⟨_, rfl⟩))

theorem pass_ends : RepairPassEnds (fun _ _ => 0) tiers peers "a" Content.flat 4 [file] walk.1
    (.ok ((RepairLists.start 1).withRescue (rescueReport settled))) := by
  have hwalk : Prog.Trace (RepairOp.Answers Content.flat)
      (repairEach (fun _ _ => 0) tiers peers "a" (.start 1) [file]) walk.1 (.ok (.start 1)) := by
    refine Prog.trace_answering fun call hmem => answers_answer (.inl ?_)
    have hcalls : walk.1 = [⟨.process, answer .process⟩] := rfl
    replace hmem : call ∈ walk.1 := hmem
    rw [hcalls] at hmem
    rw [List.mem_singleton.mp hmem]
  have htake : WorkerPool.Step ([file].filter isReleased)
      (rescues (fun _ _ => 0) tiers peers "a" Content.flat) ⟨0, [] ++ .ready :: [], []⟩
      ⟨1, [] ++ .busy 0 :: [], []⟩ := .take (by decide)
  have hfinish : WorkerPool.Step ([file].filter isReleased)
      (rescues (fun _ _ => 0) tiers peers "a" Content.flat) ⟨1, [] ++ .busy 0 :: [], []⟩
      ⟨1, [] ++ .ready :: [], [(0, ("f", .held))]⟩ := .finish rfl rescues_file
  have hstop : WorkerPool.Step ([file].filter isReleased)
      (rescues (fun _ _ => 0) tiers peers "a" Content.flat)
      ⟨1, [] ++ .ready :: [], [(0, ("f", .held))]⟩ settled := .stop (by decide)
  refine .returned hwalk (.tail (.tail (.tail .refl htake) hfinish) hstop)
    (fun worker hmem => ?_) fun index hmem => ?_
  · rw [List.mem_singleton.mp hmem]
    trivial
  · cases List.mem_singleton.mp hmem

/-- What the pass reports; the cycle ends with it. -/
def report : RepairReport String where
  counts := ((RepairLists.start 1).withRescue (rescueReport settled)).counts
  cycleCompleted := true
  nextCursor := none
  uncovered := 0
  coverageProven := true

def evidence : VersionedEvidence :=
  savedEvidence EvidenceRun.sampleConfig (emptyEvidence EvidenceRun.sampleConfig 5) report 6 7

end FoundFile

end IpfsNode
